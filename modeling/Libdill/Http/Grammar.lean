import Libdill.Http.Safety
import Libdill.Http.Words

/-!
# The lines that are accepted

`dill_http_recvrequest` and `dill_http_recvstatus` compared with the grammar of their lines, and
`dill_http_recvfield` with what a field means. The check of the protocol joins its two conditions with
`&&`: any word of eight characters passes it, and so does any word that starts with `HTTP/1.1`. The
value of a field is cut at the end of the line: `dill_rstrip` is called there, where there is nothing
left to strip.

* `recv_grammar_iff`: for which lines the start lines are accepted by the grammar.
* `recvfield_trims_iff`: for which lines the value of a field is without its padding.
-/

namespace Libdill.Http

open Foundations Libdill.Sock
open Libdill.Suffix (SuffixSock Source crlf)
open Libdill.Term (TermSock)

variable {f : Source} {i : ℕ} {rx : Rxbuf} {s : Args} {t : TermSock} {self : SuffixSock}
  {full : Bool} {m command resource protocol reason name text : List UInt8} {x y z : UInt8}
  {a b c d : ℕ}

/-- The line `m` comes next; it is short enough for `rxbuf` and has no null character in it, and the
buffers are large enough for any part of it. -/
structure Arrives (f : Source) (i : ℕ) (m : List UInt8) (s : Args) : Prop where
  message : f.Message crlf i m
  nonempty : m ≠ []
  short : m.length < rxbufSize
  noNull : 0 ∉ m
  sized : Sized s
  room : ∀ a, m.length < (s a).length

/-- The buffer contains the string. -/
def Contains (s : Args) (a : Arg) (w : List UInt8) : Prop := w ++ [0] <+: s a

theorem contains_put (s : Args) (a : Arg) (w : List UInt8) : Contains (s.put a w) a w := by
  unfold Contains
  rw [put_self]
  exact ⟨(s a).drop (w.length + 1), by simp⟩

/-! ## The grammars -/

/-- A request line. -/
def IsRequest (command resource m : List UInt8) : Prop := RequestShape command resource http11 m

/-- A status line. -/
def IsStatus (x y z : UInt8) (reason m : List UInt8) : Prop := StatusShape http11 x y z reason m

/-- Request lines are accepted, with their tokens, and nothing else is. -/
structure RequestByGrammar (m : List UInt8) {σ : Type}
    (r : Except Stop (Except Errno Unit × Args × σ)) : Prop where
  accepts : ∀ command resource, IsRequest command resource m →
    ∃ s z, r = .ok (.ok (), s, z) ∧ Contains s .command command ∧ Contains s .resource resource
  refuses : (∀ command resource, ¬IsRequest command resource m) →
    ∃ s z, r = .ok (.error .EPROTO, s, z)

/-- Status lines are accepted, with their number and their reason, and nothing else is. -/
structure StatusByGrammar (m : List UInt8) {σ : Type}
    (r : Except Stop (Except Errno ℕ × Args × σ)) : Prop where
  accepts : ∀ x y z reason, IsStatus x y z reason m →
    ∃ s q, r = .ok (.ok (number x y z), s, q) ∧ Contains s .reason reason
  refuses : (∀ x y z reason, ¬IsStatus x y z reason m) → ∃ s q, r = .ok (.error .EPROTO, s, q)

/-! ## The start lines -/

/-- Not longer than the line. -/
theorem length_word_le (m : List UInt8) : (word m).length ≤ m.length :=
  (List.takeWhile_prefix _).length_le.trans (List.dropWhile_suffix _).length_le

theorem length_behind_le (m : List UInt8) : (behind m).length ≤ m.length :=
  (List.dropWhile_suffix _).length_le.trans (List.dropWhile_suffix _).length_le

theorem Arrives.receive {α : Type} {parse : ℕ → Rxbuf → Call Args Stop Errno α}
    {line : List UInt8 → Call Args Stop Errno α} (h : Arrives f i m s) (hp : Parses parse line)
    (hh : IsHttp t self) (hin : self.inerr = false) :
    ∃ j, receive f.bsock (m.length + 1) rx parse (s, t, self, i)
      = onArgs (line m) (s, t, self, j) := by
  obtain ⟨j, hrun⟩ := @receive_line s m f i rx t self _ _ _ hp hh hin h.message
  have hshort := h.short
  rw [if_neg h.nonempty, if_neg (by omega)] at hrun
  exact ⟨j, hrun⟩

theorem Arrives.fits (h : Arrives f i m s) :
    RequestFits m s ↔ behind m ≠ [] ∧ behind (behind m) ≠ [] := by
  have hm₁ : 0 ∉ behind m := fun hmem => h.noNull (mem_behind hmem)
  have hm₂ : 0 ∉ behind (behind m) := fun hmem => hm₁ (mem_behind hmem)
  have h₁ := h.room .command
  have h₂ := h.room .resource
  have hw₁ := length_word_le m
  have hw₂ := length_word_le (behind m)
  have hb := length_behind_le m
  constructor
  · intro hfits
    exact ⟨(headD_ne_zero hm₁).mp hfits.command.1, (headD_ne_zero hm₂).mp hfits.resource.1⟩
  · rintro ⟨hne₁, hne₂⟩
    exact ⟨⟨(headD_ne_zero hm₁).mpr hne₁, by change (word m).length < _; omega⟩,
      ⟨(headD_ne_zero hm₂).mpr hne₂, by change (word (behind m)).length < _; omega⟩⟩

/-- A protocol that passes the check. -/
def LooseToken (protocol : List UInt8) : Prop := protocol.length = 8 ∨ http11 <+: protocol

theorem prefix_takeWhile {p : UInt8 → Bool} {l l' : List UInt8} (h : ∀ x ∈ l, p x = true) :
    l <+: l'.takeWhile p ↔ l <+: l' := by
  constructor
  · exact fun hpre => hpre.trans (List.takeWhile_prefix p)
  · rintro ⟨rest, rfl⟩
    rw [List.takeWhile_append_of_pos h]
    exact List.prefix_append l _

theorem loose_iff {rest : List UInt8} : Loose rest ↔ LooseToken (rest.takeWhile isWord) := by
  have hword : ∀ x ∈ http11, isWord x = true := List.all_eq_true.mp rfl
  exact or_congr_right (prefix_takeWhile hword).symm

theorem LooseToken.ne_nil (h : LooseToken protocol) : protocol ≠ [] := by
  rintro rfl
  rcases h with h | h
  · cases h
  · cases List.prefix_nil.mp h

/-- The requests that are accepted. -/
structure RequestLoose (m : List UInt8) : Prop where
  resource : behind m ≠ []
  protocol : behind (behind m) ≠ []
  loose : Loose (protocolOf m)
  last : (behind (behind (behind m))).dropWhile isSpace = []

theorem requestLoose_iff (hm : 0 ∉ m) : RequestLoose m ↔
    ∃ command resource protocol, RequestShape command resource protocol m ∧ LooseToken protocol := by
  constructor
  · intro h
    have hloose := loose_iff.mp h.loose
    exact ⟨_, _, _, (requestShape_iff hm).mpr ⟨rfl, rfl, rfl, hloose.ne_nil, h.last⟩, hloose⟩
  · rintro ⟨command, resource, protocol, hshape, hloose⟩
    obtain ⟨-, -, hprotocol, hne, hlast⟩ := (requestShape_iff hm).mp hshape
    have hne₂ : behind (behind m) ≠ [] := by
      intro hnil
      rw [hnil] at hprotocol
      exact hne hprotocol.symm
    refine ⟨fun hnil => hne₂ (by rw [hnil]; rfl), hne₂, ?_, hlast⟩
    rw [← hprotocol] at hloose
    exact loose_iff.mpr hloose

theorem Arrives.request_accepted (h : Arrives f i m s) (hread : RequestReads full m s)
    (hloose : RequestLoose m) : requestLine full m s = .ok (.ok (), requestArgs m s) := by
  have hfits := h.fits.mpr ⟨hloose.resource, hloose.protocol⟩
  exact requestLine_ok h.sized hfits (fun hf => hread hf hfits) hloose.loose hloose.last

theorem Arrives.request_refused (h : Arrives f i m s) (hread : RequestReads full m s)
    (hloose : ¬RequestLoose m) : ∃ s', requestLine full m s = .ok (.error .EPROTO, s') := by
  by_cases hfits : RequestFits m s
  · obtain ⟨haccept, hrefuse⟩ :=
      @version_run (requestArgs m s) m (protocolOf m) full fun hf => hread hf hfits
    rw [requestLine_fits h.sized hfits]
    by_cases hl : Loose (protocolOf m)
    · have hrest : 0 ∉ (behind (behind (behind m))).dropWhile isSpace := fun hmem =>
        h.noNull (mem_behind (mem_behind (mem_behind (List.dropWhile_subset _ hmem))))
      have hlast : (behind (behind (behind m))).dropWhile isSpace ≠ [] := by
        intro hnil
        exact hloose ⟨(h.fits.mp hfits).1, (h.fits.mp hfits).2, hl, hnil⟩
      rw [Call.bind_ret (haccept hl)]
      change ∃ s', Call.require (((behind (behind (behind m))).dropWhile isSpace).headD 0 == 0) _ _
        = _
      rw [beq_eq_false_iff_ne.mpr ((headD_ne_zero hrest).mpr hlast)]
      exact ⟨_, rfl⟩
    · exact ⟨_, Call.bind_fail (hrefuse hl)⟩
  · obtain ⟨e, s', hrun, -, he⟩ := @requestLine_unfit s m full h.sized hfits
    have hw₁ := length_word_le m
    have hw₂ := length_word_le (behind m)
    have hb := length_behind_le m
    have h₁ := h.room .command
    have h₂ := h.room .resource
    rcases he with rfl | hlen | hlen
    · exact ⟨s', hrun⟩
    · omega
    · omega

theorem isRequest_unique (hm : 0 ∉ m) (h : RequestShape command resource protocol m) {c r : List UInt8}
    (h' : IsRequest c r m) : command = c ∧ resource = r ∧ protocol = http11 := by
  obtain ⟨hc, hr, hp, -⟩ := (requestShape_iff hm).mp h
  obtain ⟨hc', hr', hp', -⟩ := (requestShape_iff hm).mp h'
  exact ⟨hc.symm.trans hc', hr.symm.trans hr', hp.symm.trans hp'⟩

theorem looseToken_http11 : LooseToken http11 := .inl rfl

/-- **Requests.** -/
theorem request_grammar_iff (h : Arrives f i m s) {σ : Type} {z : Stack σ} :
    RequestByGrammar m (onArgs (requestLine full m) (s, z)) ↔ RequestReads full m s ∧
      ∀ command resource protocol, RequestShape command resource protocol m → LooseToken protocol →
        protocol = http11 := by
  have hm := h.noNull
  constructor
  · intro hg
    have hreturns : ∃ r, onArgs (requestLine full m) (s, z) = .ok r := by
      by_cases hreq : ∃ command resource, IsRequest command resource m
      · obtain ⟨command, resource, hreq⟩ := hreq
        obtain ⟨s', z', hrun, -⟩ := hg.accepts command resource hreq
        exact ⟨_, hrun⟩
      · obtain ⟨s', z', hrun⟩ := hg.refuses fun c r hc => hreq ⟨c, r, hc⟩
        exact ⟨_, hrun⟩
    have hread : RequestReads full m s := by
      by_contra hno
      obtain ⟨r, hrun⟩ := hreturns
      rw [onArgs_stop ((requestLine_within h.sized).fault hno)] at hrun
      cases hrun
    refine ⟨hread, fun command resource protocol hshape hloose => ?_⟩
    by_contra hne
    have hno : ∀ c r, ¬IsRequest c r m := fun c r hc => hne (isRequest_unique hm hshape hc).2.2
    obtain ⟨s', z', hrun⟩ := hg.refuses hno
    have haccept := h.request_accepted hread
      ((requestLoose_iff hm).mpr ⟨_, _, _, hshape, hloose⟩)
    rw [onArgs_run haccept] at hrun
    cases hrun
  · rintro ⟨hread, hstrict⟩
    constructor
    · intro command resource hreq
      have hrun := h.request_accepted hread
        ((requestLoose_iff hm).mpr ⟨_, _, _, hreq, looseToken_http11⟩)
      obtain ⟨rfl, rfl, -⟩ := (requestShape_iff hm).mp hreq
      refine ⟨_, z, onArgs_run hrun, ?_, contains_put _ _ _⟩
      unfold requestArgs Contains
      rw [put_of_ne (by decide)]
      exact contains_put _ _ _
    · intro hno
      have hloose : ¬RequestLoose m := by
        intro hl
        obtain ⟨command, resource, protocol, hshape, hl⟩ := (requestLoose_iff hm).mp hl
        obtain rfl := hstrict _ _ _ hshape hl
        exact hno _ _ hshape
      obtain ⟨s', hrun⟩ := h.request_refused hread hloose
      exact ⟨s', z, onArgs_run hrun⟩

theorem statusLoose_iff (hm : 0 ∉ m) : StatusLoose m ↔
    ∃ protocol x y z reason, StatusShape protocol x y z reason m ∧ LooseToken protocol := by
  have hm₁ : 0 ∉ behind m := fun h => hm (mem_behind h)
  have hm₂ : 0 ∉ behind (behind m) := fun h => hm₁ (mem_behind h)
  constructor
  · intro h
    have hloose := loose_iff.mp h.protocol
    obtain ⟨x, y, z, hcode⟩ := List.length_eq_three.mp h.code.length
    have hdigits := h.code.digits
    rw [hcode] at hdigits
    exact ⟨_, x, y, z, _, (statusShape_iff hm).mpr ⟨rfl, hloose.ne_nil, hcode, hdigits,
      (headD_ne_zero hm₂).mp h.code.behind, rfl⟩, hloose⟩
  · rintro ⟨protocol, x, y, z, reason, hshape, hloose⟩
    obtain ⟨hprotocol, -, hcode, hdigits, hbehind, -⟩ := (statusShape_iff hm).mp hshape
    have hne₁ : behind m ≠ [] := by
      intro hnil
      rw [hnil] at hbehind
      exact hbehind rfl
    rw [← hprotocol] at hloose
    have hword : ((behind m).dropWhile isSpace).takeWhile isWord = [x, y, z] := hcode
    refine ⟨(headD_ne_zero hm₁).mpr hne₁, loose_iff.mpr hloose,
      ⟨(headD_ne_zero hm₂).mpr hbehind, ?_, ?_⟩⟩
    · rw [hword]
      rfl
    · rw [hword]
      exact hdigits

theorem codeOf_eq (h : word (behind m) = [x, y, z]) : codeOf m = number x y z := by
  have hsplit := @List.takeWhile_append_dropWhile _ isWord ((behind m).dropWhile isSpace)
  change word (behind m) ++ _ = _ at hsplit
  rw [h] at hsplit
  unfold codeOf
  rw [← hsplit]
  rfl

theorem length_reasonOf_le (m : List UInt8) : (reasonOf m).length ≤ m.length :=
  (List.dropWhile_suffix _).length_le.trans
    ((length_behind_le (behind m)).trans (length_behind_le m))

/-- **Statuses.** -/
theorem status_grammar_iff (h : Arrives f i m s) {σ : Type} {q : Stack σ} :
    StatusByGrammar m (onArgs (statusLine full m) (s, q)) ↔ StatusReads full m ∧
      ∀ protocol x y z reason, StatusShape protocol x y z reason m → LooseToken protocol →
        protocol = http11 := by
  have hm := h.noNull
  have hroom := h.room .reason
  have hreason := length_reasonOf_le m
  have haccept : StatusReads full m → StatusLoose m →
      statusLine full m s = .ok (.ok (codeOf m), s.put .reason (reasonOf m)) := by
    intro hread hloose
    rw [statusLine_found hread hloose, Call.bind_ret (give_fits h.sized (by omega))]
    rfl
  constructor
  · intro hg
    have hreturns : ∃ r, onArgs (statusLine full m) (s, q) = .ok r := by
      by_cases hst : ∃ x y z reason, IsStatus x y z reason m
      · obtain ⟨x, y, z, reason, hst⟩ := hst
        obtain ⟨s', q', hrun, -⟩ := hg.accepts x y z reason hst
        exact ⟨_, hrun⟩
      · obtain ⟨s', q', hrun⟩ := hg.refuses fun x y z r hr => hst ⟨x, y, z, r, hr⟩
        exact ⟨_, hrun⟩
    have hread : StatusReads full m := by
      by_contra hno
      obtain ⟨r, hrun⟩ := hreturns
      rw [onArgs_stop ((statusLine_within h.sized).fault hno)] at hrun
      cases hrun
    refine ⟨hread, fun protocol x y z reason hshape hloose => ?_⟩
    by_contra hne
    have hno : ∀ x y z r, ¬IsStatus x y z r m := by
      intro x' y' z' r hr
      have hp := ((statusShape_iff hm).mp hshape).1
      have hp' := ((statusShape_iff hm).mp hr).1
      exact hne (hp.symm.trans hp')
    obtain ⟨s', q', hrun⟩ := hg.refuses hno
    rw [onArgs_run (haccept hread ((statusLoose_iff hm).mpr ⟨_, _, _, _, _, hshape, hloose⟩))] at hrun
    cases hrun
  · rintro ⟨hread, hstrict⟩
    constructor
    · intro x y z reason hst
      have hrun := haccept hread ((statusLoose_iff hm).mpr ⟨_, _, _, _, _, hst, looseToken_http11⟩)
      obtain ⟨-, -, hcode, -, -, rfl⟩ := (statusShape_iff hm).mp hst
      rw [codeOf_eq hcode] at hrun
      exact ⟨_, q, onArgs_run hrun, contains_put _ _ _⟩
    · intro hno
      have hloose : ¬StatusLoose m := by
        intro hl
        obtain ⟨protocol, x, y, z, reason, hshape, hl⟩ := (statusLoose_iff hm).mp hl
        obtain rfl := hstrict _ _ _ _ _ hshape hl
        exact hno _ _ _ _ hshape
      exact ⟨s, q, onArgs_run (statusLine_refused hread hloose)⟩

/-- **When the start lines are accepted by the grammar.** No word but `HTTP/1.1` passes for it, and
`memcmp` is not called too close to the end of the array. -/
theorem recv_grammar_iff (f : Source) (i : ℕ) (rx : Rxbuf) (s : Args) (m : List UInt8)
    (full indone outdone outerr : Bool) (h : Arrives f i m s) :
    (RequestByGrammar m (recvrequest f.bsock (m.length + 1) full rx
        (s, ⟨[], indone, outdone⟩, ⟨crlf, false, outerr⟩, i)) ↔
      RequestReads full m s ∧ ∀ command resource protocol,
        RequestShape command resource protocol m → LooseToken protocol → protocol = http11) ∧
    (StatusByGrammar m (recvstatus f.bsock (m.length + 1) full rx
        (s, ⟨[], indone, outdone⟩, ⟨crlf, false, outerr⟩, i)) ↔
      StatusReads full m ∧ ∀ protocol x y z reason,
        StatusShape protocol x y z reason m → LooseToken protocol → protocol = http11) := by
  have hh : IsHttp ⟨[], indone, outdone⟩ ⟨crlf, false, outerr⟩ := ⟨rfl, rfl⟩
  obtain ⟨j, hrequest⟩ := @Arrives.receive f i rx s _ _ m _ _ _ h (parses_request full) hh rfl
  obtain ⟨k, hstatus⟩ := @Arrives.receive f i rx s _ _ m _ _ _ h (parses_status full) hh rfl
  unfold recvrequest recvstatus
  rw [hrequest, hstatus]
  exact ⟨request_grammar_iff h, status_grammar_iff h⟩

/-! ## Fields -/

theorem isName_iff : isName x = true ↔ x ≠ 0 ∧ x ≠ 32 ∧ x ≠ 58 := by
  simp [isName, and_assoc]

/-- A field is received with its name and its text. -/
def Trims (name text : List UInt8) {σ : Type} (r : Except Stop (Except Errno Unit × Args × σ)) :
    Prop :=
  ∃ s z, r = .ok (.ok (), s, z) ∧ Contains s .name name ∧ Contains s .value text

/-- A string is found in a buffer as what it is. -/
theorem contains_inj {w w' : List UInt8} (hw : 0 ∉ w) (hw' : 0 ∉ w') {l : List UInt8}
    (h : w ++ [0] <+: l) (h' : w' ++ [0] <+: l) : w = w' := by
  obtain ⟨t, rfl⟩ := h
  obtain ⟨t', ht'⟩ := h'
  have hall : ∀ v : List UInt8, 0 ∉ v → ∀ c ∈ v, (c != 0) = true := by
    intro v hv c hc
    rw [bne_iff_ne]
    exact fun h0 => hv (h0 ▸ hc)
  have htake := congrArg (List.takeWhile (· != 0)) ht'
  simp only [List.append_assoc, List.singleton_append] at htake
  rw [takeWhile_append_stop (hall w' hw') (fun c hc => by cases hc; rfl),
    takeWhile_append_stop (hall w hw) (fun c hc => by cases hc; rfl)] at htake
  exact htake.symm

theorem fieldShape_value (h : Arrives f i m s) (hm : m = fieldShape a b c d name text)
    (hname : 32 ∉ name ∧ 58 ∉ name) (hhead : ∀ x ∈ text.head?, x ≠ 32) :
    ∃ s', fieldLine m s = .ok (.ok (), s') ∧ Contains s' .name name ∧
      Contains s' .value (if text = [] then [] else text ++ spaces d) := by
  have hnull := h.noNull
  have hall : ∀ x ∈ name, isName x = true := by
    intro x hx
    refine isName_iff.mpr ⟨fun h0 => hnull ?_, fun h0 => hname.1 (h0 ▸ hx),
      fun h0 => hname.2 (h0 ▸ hx)⟩
    rw [hm, ← h0]
    simp [fieldShape, hx]
  obtain ⟨hn, hcolon, hvalue⟩ := @fieldShape_eq name text a b c d hall hhead
  rw [← hm] at hn hcolon hvalue
  have hlen : (nameOf m).length ≤ m.length :=
    (List.takeWhile_prefix _).length_le.trans (List.dropWhile_suffix _).length_le
  have hvlen : (valueOf m).length ≤ m.length := by
    unfold valueOf afterName
    calc _ ≤ _ := (List.dropWhile_suffix _).length_le
      _ ≤ _ := (List.tail_suffix _).length_le
      _ ≤ _ := (List.dropWhile_suffix _).length_le
      _ ≤ _ := (List.dropWhile_suffix _).length_le
      _ ≤ _ := (List.dropWhile_suffix _).length_le
  have hroom := h.room .name
  have hroom' := h.room .value
  have hfits : FieldFits m s := field_fits hnull hcolon (by omega)
  have hs₁ : Sized (s.put .name (nameOf m)) := h.sized.put hfits.name.2
  have hgive := @give_fits (s.put .name (nameOf m)) .value (valueOf m) hs₁
    (by rw [put_of_ne (by decide)]; omega)
  refine ⟨_, (fieldLine_fits h.sized hfits).trans hgive, ?_, ?_⟩
  · unfold Contains
    rw [put_of_ne (by decide), ← hn]
    exact contains_put _ _ _
  · rw [← hvalue]
    exact contains_put _ _ _

theorem field_trims_iff (h : Arrives f i (fieldShape a b c d name text) s)
    (hname : 32 ∉ name ∧ 58 ∉ name) (hhead : text.head? ≠ some 32) {σ : Type} {z : Stack σ} :
    Trims name text (onArgs (fieldLine (fieldShape a b c d name text)) (s, z))
      ↔ text = [] ∨ d = 0 := by
  obtain ⟨s', hline, hn, hv⟩ := fieldShape_value h rfl hname fun x hx hx' =>
    hhead (by rw [← hx']; exact hx)
  rw [onArgs_run hline]
  by_cases hnil : text = []
  · rw [if_pos hnil] at hv
    refine iff_of_true ⟨s', _, rfl, hn, ?_⟩ (.inl hnil)
    rw [hnil]
    exact hv
  · rw [if_neg hnil] at hv
    have hnull : ∀ x, x ∈ text ∨ x ∈ spaces d → x ≠ 0 := by
      rintro x hx rfl
      apply h.noNull
      rcases hx with hx | hx <;> simp [fieldShape, hx]
    constructor
    · rintro ⟨s'', z', hok, -, hv'⟩
      cases hok
      right
      have heq := contains_inj (fun hmem => hnull 0 (List.mem_append.mp hmem) rfl)
        (fun hmem => hnull 0 (.inl hmem) rfl) hv hv'
      have hlen := congrArg List.length heq
      rw [List.length_append, length_spaces] at hlen
      omega
    · intro hd
      obtain rfl := hd.resolve_left hnil
      rw [spaces_zero, List.append_nil] at hv
      exact ⟨s', _, rfl, hn, hv⟩

/-- **When the padding is removed**: only that in front of the value is. -/
theorem recvfield_trims_iff (f : Source) (i : ℕ) (rx : Rxbuf) (s : Args) (a b c d : ℕ)
    (name text : List UInt8) (indone outdone outerr : Bool)
    (hname : 32 ∉ name ∧ 58 ∉ name) (htext : text.head? ≠ some 32 ∧ text.getLast? ≠ some 32)
    (h : Arrives f i (fieldShape a b c d name text) s) :
    Trims name text (recvfield f.bsock ((fieldShape a b c d name text).length + 1) rx
        (s, ⟨[], indone, outdone⟩, ⟨crlf, false, outerr⟩, i)) ↔
      text = [] ∨ d = 0 := by
  have hh : IsHttp ⟨[], indone, outdone⟩ ⟨crlf, false, outerr⟩ := ⟨rfl, rfl⟩
  obtain ⟨j, hrun⟩ := @Arrives.receive f i rx s _ _ _ _ _ _ h parses_field hh rfl
  unfold recvfield
  rw [hrun]
  exact field_trims_iff h hname htext.1

/-! ## Examples -/

/-- Buffers of 64 bytes. -/
def blank : Args := fun _ => List.replicate 64 0

/-- The characters of a string. -/
def ascii (w : String) : List UInt8 := w.toList.map fun c => UInt8.ofNat c.toNat

theorem arrives_line (hm : m ≠ [] ∧ 13 ∉ m ∧ 0 ∉ m ∧ m.length < 64) :
    Arrives (Suffix.line (m ++ crlf.bytes)) 0 m blank := by
  obtain ⟨hne, hcr, hnull, hlen⟩ := hm
  have hroom : ∀ a, (blank a).length = 64 := fun _ => List.length_replicate
  refine ⟨⟨holds_line [] _, free_of_notMem hcr⟩, hne, ?_, hnull, ⟨?_, ?_⟩, ?_⟩
  · unfold rxbufSize
    omega
  · intro a
    rw [hroom]
    decide
  · intro a
    rw [hroom]
    decide
  · intro a
    rw [hroom]
    exact hlen

theorem recv_grammar_get : RequestByGrammar (ascii "GET / HTTP/1.1")
    (recvrequest (Suffix.line (ascii "GET / HTTP/1.1" ++ crlf.bytes)).bsock
      ((ascii "GET / HTTP/1.1").length + 1) false zeroed
      (blank, ⟨[], false, false⟩, ⟨crlf, false, false⟩, 0)) := by
  refine (recv_grammar_iff _ 0 zeroed blank _ false false false false
    (arrives_line (by decide +kernel))).1.mpr ⟨nofun, fun c r p hshape _ => ?_⟩
  rw [← ((requestShape_iff (by decide +kernel)).mp hshape).2.2.1]
  decide +kernel

/-- Another version of the protocol is accepted. -/
theorem recvrequest_accepts_old : ¬RequestByGrammar (ascii "GET / HTTP/1.0")
    (recvrequest (Suffix.line (ascii "GET / HTTP/1.0" ++ crlf.bytes)).bsock
      ((ascii "GET / HTTP/1.0").length + 1) false zeroed
      (blank, ⟨[], false, false⟩, ⟨crlf, false, false⟩, 0)) := by
  have harrives : Arrives _ 0 (ascii "GET / HTTP/1.0") blank := arrives_line (by decide +kernel)
  obtain ⟨j, hrun⟩ := @Arrives.receive _ 0 zeroed blank ⟨[], false, false⟩ ⟨crlf, false, false⟩ _ _ _ _
    harrives (parses_request false) ⟨rfl, rfl⟩ rfl
  unfold recvrequest
  rw [hrun]
  intro hg
  have hstrict := ((request_grammar_iff harrives).mp hg).2 (ascii "GET") (ascii "/")
    (ascii "HTTP/1.0") ((requestShape_iff (by decide +kernel)).mpr (by decide +kernel))
    (.inl (by decide +kernel))
  exact absurd hstrict (by decide +kernel)

theorem recvfield_trims_one : Trims (ascii "A") (ascii "b")
    (recvfield (Suffix.line (fieldShape 0 0 1 0 (ascii "A") (ascii "b") ++ crlf.bytes)).bsock
      ((fieldShape 0 0 1 0 (ascii "A") (ascii "b")).length + 1) zeroed
      (blank, ⟨[], false, false⟩, ⟨crlf, false, false⟩, 0)) :=
  (recvfield_trims_iff _ 0 zeroed blank 0 0 1 0 _ _ false false false (by decide +kernel)
    (by decide +kernel) (arrives_line (by decide +kernel))).mpr (.inr rfl)

/-- A space behind the value stays. -/
theorem recvfield_keeps_padding : ¬Trims (ascii "A") (ascii "b")
    (recvfield (Suffix.line (fieldShape 0 0 1 1 (ascii "A") (ascii "b") ++ crlf.bytes)).bsock
      ((fieldShape 0 0 1 1 (ascii "A") (ascii "b")).length + 1) zeroed
      (blank, ⟨[], false, false⟩, ⟨crlf, false, false⟩, 0)) := by
  have harrives : Arrives _ 0 (fieldShape 0 0 1 1 (ascii "A") (ascii "b")) blank :=
    arrives_line (by decide +kernel)
  obtain ⟨j, hrun⟩ := @Arrives.receive _ 0 zeroed blank ⟨[], false, false⟩ ⟨crlf, false, false⟩ _ _ _ _
    harrives parses_field ⟨rfl, rfl⟩ rfl
  unfold recvfield
  rw [hrun, field_trims_iff harrives (by decide +kernel) (by decide +kernel)]
  decide +kernel

end Libdill.Http
