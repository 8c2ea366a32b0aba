import Libdill.Foundations.Answers
import Libdill.Http.Grammar
import Libdill.Http.Send

/-!
# HTTP messages over a bytestream

Two HTTP sockets over a lossless bytestream. One side sends requests, statuses and fields and then
calls `dill_http_done`; the other side receives them. This is a queue of messages that can be closed:
`Mailbox` is the queue, and what comes out of it is the message in its normal form.

* `Message.receive_run`: a line that has been sent is parsed to the normal form of its message.
* `step_sim`: each step of the queue is one of the two sockets.
* `http_round_trip`: the runs.
-/

namespace Libdill.Http

open Foundations Libdill.Sock Libdill.Utils
open Libdill.Suffix (SuffixSock crlf wireOf)
open Libdill.Term (TermSock)

/-! ## Messages -/

/-- The three receiving functions. -/
inductive Recv
  | request
  | status
  | field
  deriving DecidableEq

/-- The buffers of a function. -/
def Recv.args : Recv → List Arg
  | .request => [.command, .resource]
  | .status => [.reason]
  | .field => [.name, .value]

/-- One of the functions, and what it returns. -/
def Recv.call {σ : Type} (u : Bsock σ) (n : ℕ) (full : Bool) (rx : Rxbuf) :
    Recv → Call (Args × Stack σ) Stop Errno ℕ
  | .request => do recvrequest u n full rx; pure 0
  | .status => recvstatus u n full rx
  | .field => do recvfield u n rx; pure 0

/-- What is sent. -/
inductive Message
  | request (command resource : CString)
  | status (n : ℤ) (reason : CString)
  | field (name value : CString)

namespace Message

/-- One of the sending functions. -/
def call {σ : Type} (u : Bsock σ) (n : ℕ) : Message → Call (Stack σ) Stop Errno Unit
  | .request command resource => sendrequest u n command resource
  | .status k reason => sendstatus u n k reason
  | .field name value => sendfield u n name value

/-- The function that receives it. -/
def kind : Message → Recv
  | .request _ _ => .request
  | .status _ _ => .status
  | .field _ _ => .field

/-- What this function returns. -/
def rc : Message → ℕ
  | .status n _ => n.toNat
  | _ => 0

/-- The strings that it stores: the value of a field is stripped. -/
def strings : Message → List (List UInt8)
  | .request command resource => [command.bytes, resource.bytes]
  | .status _ reason => [reason.bytes]
  | .field name value => [name.bytes, strip 32 value.bytes]

/-- The line that is sent for it. -/
def line : Message → List UInt8
  | .request command resource => command.bytes ++ [32] ++ resource.bytes ++ [32] ++ http11
  | .status n reason => http11 ++ [32] ++ statusBuf n ++ reason.bytes
  | .field name value => name.bytes ++ [58, 32] ++ strip 32 value.bytes

/-- The arguments are accepted, and give a line that can be read. -/
def Valid : Message → Prop
  | .request command resource =>
    strpbrk command [32, 9, 10] = false ∧ strpbrk resource [32, 9, 10] = false ∧
      command.bytes ≠ [] ∧ resource.bytes ≠ []
  | .status n reason =>
    100 ≤ n ∧ n ≤ 599 ∧ NoCrlf reason.bytes ∧ reason.bytes.head? ≠ some 32
  | .field name value =>
    strpbrk name nameDelims = false ∧ NoCrlf value.bytes ∧ ∃ c ∈ value.bytes, c ≠ 32

/-- A message that gets through to a peer. -/
structure Sendable (m : Message) : Prop where
  valid : m.Valid
  short : m.line.length < rxbufSize

/-- The buffers of the receiver have room for it. -/
def fits (m : Message) (s : Args) : Bool :=
  (m.kind.args.zip m.strings).all fun p => decide (p.2.length < (s p.1).length)

end Message

/-! ## The lines -/

variable {m : Message} {s : Args} {full : Bool} {n : ℕ} {command resource reason name value : CString}
  {t : TermSock} {i o : List UInt8}

theorem noSpace_of_strpbrk {w : CString} {l : List UInt8} (h : strpbrk w l = false) (hl : 32 ∈ l) :
    32 ∉ w.bytes := fun hmem => strpbrk_eq_false.mp h 32 hmem hl

theorem strip_ne_nil (h : ∃ c ∈ value.bytes, c ≠ 32) : strip 32 value.bytes ≠ [] := by
  obtain ⟨c, hc, hne⟩ := h
  exact fun hnil => hne (strip_eq_nil.mp hnil c hc)

/-- **A message is sent as its line.** -/
theorem Message.call_run (h : m.Valid) :
    m.call duplex n (t, crlf.attach, i, o)
      = .ok (.ok (), t, crlf.attach, i, o ++ (m.line ++ crlf.bytes)) := by
  cases m with
  | request command resource =>
    obtain ⟨hc, hr, -, -⟩ := h
    unfold call sendrequest
    simp only [hc, hr, Bool.false_eq_true, if_false]
    rw [Suffix.Delim.attach, send_line_run (by simp)]
    simp [line]
  | status k reason =>
    obtain ⟨hlo, hhi, -, -⟩ := h
    unfold call sendstatus
    simp only [show ¬(k < 100 ∨ 599 < k) by omega, if_false]
    rw [Suffix.Delim.attach, send_line_run (by simp)]
    simp [line]
  | field name value =>
    obtain ⟨hn, -, hv⟩ := h
    unfold call
    simp only [sendfield_eq hn (strip_ne_nil hv)]
    rw [Suffix.Delim.attach, send_line_run (by simp)]
    simp [line]

theorem Message.line_ne_nil (m : Message) : m.line ≠ [] := by
  cases m <;> simp [line, http11]

theorem Message.noCrlf_line (h : m.Valid) : NoCrlf m.line := by
  cases m with
  | request command resource =>
    obtain ⟨hc, hr, -, -⟩ := h
    apply noCrlf_of_notMem
    simp only [line, List.mem_append, not_or]
    exact ⟨⟨⟨⟨fun hmem => strpbrk_eq_false.mp hc 10 hmem (by decide), by decide⟩,
      fun hmem => strpbrk_eq_false.mp hr 10 hmem (by decide)⟩, by decide⟩, by decide⟩
  | status k reason =>
    obtain ⟨hlo, hhi, hno, -⟩ := h
    have hiff := (@noCrlf_status reason k (by omega)).mpr hno
    simpa [line] using hiff
  | field name value =>
    obtain ⟨hn, hno, -⟩ := h
    have hiff := (noCrlf_field hn).mpr hno
    simpa [line] using hiff

/-- The receiver finds the line. -/
theorem Message.free_line (h : m.Valid) : Free crlf.bytes m.line := by
  have hno : ∀ k, ¬OccursAt crlf.bytes [m.line].flatten k := by
    rw [List.flatten_singleton]
    exact m.noCrlf_line h
  have hfree := Line.free ⟨[m.line], by simpa using m.line_ne_nil, hno⟩
  rw [List.flatten_singleton] at hfree
  exact hfree

/-! ## What is parsed -/

/-- The string in a buffer. -/
def cstring (mem : List UInt8) : List UInt8 := mem.takeWhile (· != 0)

theorem cstring_put {a : Arg} {w : List UInt8} (hw : 0 ∉ w) : cstring (s.put a w a) = w := by
  rw [put_self]
  apply takeWhile_append_stop
  · intro c hc
    rw [bne_iff_ne]
    exact fun h0 => hw (h0 ▸ hc)
  · intro c hc
    cases hc
    rfl

theorem fits_iff : m.fits s = true ↔ ∀ p ∈ m.kind.args.zip m.strings, p.2.length < (s p.1).length := by
  simp [Message.fits]

/-- **A request.** -/
theorem parse_request (hs : Sized s) (hv : (Message.request command resource).Valid)
    (hf : (Message.request command resource).fits s = true) :
    requestLine full (Message.request command resource).line s
      = .ok (.ok (), (s.put .command command.bytes).put .resource resource.bytes) := by
  obtain ⟨hc, hr, hcne, hrne⟩ := hv
  have hfits := fits_iff.mp hf
  have hroom₁ : command.bytes.length < (s .command).length := hfits (.command, command.bytes) (by
    simp [Message.kind, Recv.args, Message.strings])
  have hroom₂ : resource.bytes.length < (s .resource).length := hfits (.resource, resource.bytes) (by
    simp [Message.kind, Recv.args, Message.strings])
  have hnull : 0 ∉ (Message.request command resource).line := by
    simp only [Message.line, List.mem_append, not_or]
    exact ⟨⟨⟨⟨command.noNull, by decide⟩, resource.noNull⟩, by decide⟩, by decide⟩
  have hshape : RequestShape command.bytes resource.bytes http11
      (Message.request command resource).line :=
    ⟨⟨hcne, noSpace_of_strpbrk hc (by decide), command.noNull⟩,
      ⟨hrne, noSpace_of_strpbrk hr (by decide), resource.noNull⟩,
      ⟨by decide, by decide, by decide⟩, 0, 0, 0, 0, by simp [Message.line, spaces]⟩
  obtain ⟨hw₁, hw₂, hw₃, -, hlast⟩ := (requestShape_iff hnull).mp hshape
  set l := (Message.request command resource).line
  have hb₂ : behind (behind l) ≠ [] := by
    intro hnil
    rw [hnil] at hw₃
    cases hw₃
  have hb₁ : behind l ≠ [] := by
    intro hnil
    rw [hnil] at hb₂
    exact hb₂ rfl
  have hn₁ : 0 ∉ behind l := fun h => hnull (mem_behind h)
  have hn₂ : 0 ∉ behind (behind l) := fun h => hn₁ (mem_behind h)
  have hfit : RequestFits l s := by
    refine ⟨⟨(headD_ne_zero hn₁).mpr hb₁, ?_⟩, ⟨(headD_ne_zero hn₂).mpr hb₂, ?_⟩⟩
    · change (word l).length < _
      rw [hw₁]
      exact hroom₁
    · change (word (behind l)).length < _
      rw [hw₂]
      exact hroom₂
  have hloose : Loose (protocolOf l) := by
    apply loose_iff.mpr
    change LooseToken (word (behind (behind l)))
    rw [hw₃]
    exact looseToken_http11
  have hread : full = true → ¬Overreads l (protocolOf l) := by
    rintro - ⟨hne, -⟩
    apply hne
    change (word (behind (behind l))).length = 8
    rw [hw₃]
    rfl
  rw [requestLine_ok hs hfit hread hloose hlast, requestArgs, hw₁, hw₂]

/-- The digits that are sent. -/
theorem number_digits {k : ℤ} (hlo : 100 ≤ k) (hhi : k ≤ 599) :
    number (digit (k / 100)) (digit (k % 100 / 10)) (digit (k % 100 % 10)) = k.toNat ∧
      [digit (k / 100), digit (k % 100 / 10), digit (k % 100 % 10)].all isDigit = true := by
  obtain ⟨h₁, h₂, h₃⟩ := @digits_lt k (by omega)
  have hd : ∀ d : ℤ, d.toNat < 10 → isDigit (digit d) = true := by
    intro d hd
    have hval := digit_toNat hd
    unfold isDigit
    rw [Bool.not_eq_true', Bool.or_eq_false_iff, decide_eq_false_iff_not, decide_eq_false_iff_not,
      UInt8.lt_iff_toNat_lt, UInt8.lt_iff_toNat_lt, hval]
    change ¬(d.toNat + 48 < 48) ∧ ¬(57 < d.toNat + 48)
    omega
  constructor
  · unfold number
    rw [digit_toNat h₁, digit_toNat h₂, digit_toNat h₃]
    omega
  · simp only [List.all_cons, List.all_nil, hd _ h₁, hd _ h₂, hd _ h₃, Bool.and_self]

/-- **A status.** -/
theorem parse_status {k : ℤ} (hs : Sized s) (hv : (Message.status k reason).Valid)
    (hf : (Message.status k reason).fits s = true) :
    statusLine full (Message.status k reason).line s
      = .ok (.ok k.toNat, s.put .reason reason.bytes) := by
  obtain ⟨hlo, hhi, -, hhead⟩ := hv
  obtain ⟨hnumber, hdigits⟩ := number_digits hlo hhi
  have hroom : reason.bytes.length < (s .reason).length := fits_iff.mp hf (.reason, reason.bytes) (by
    simp [Message.kind, Recv.args, Message.strings])
  have hd0 : ∀ d : ℤ, d.toNat < 10 → 0 ≠ digit d := fun d hd => (digit_ne hd (by decide)).symm
  obtain ⟨h₁, h₂, h₃⟩ := @digits_lt k (by omega)
  have hnull : 0 ∉ (Message.status k reason).line := by
    simp only [Message.line, statusBuf, List.mem_append, List.mem_cons, List.not_mem_nil, or_false,
      not_or]
    exact ⟨⟨⟨by decide, by decide⟩, hd0 _ h₁, hd0 _ h₂, hd0 _ h₃, by decide⟩, reason.noNull⟩
  have hshape : StatusShape http11 (digit (k / 100)) (digit (k % 100 / 10)) (digit (k % 100 % 10))
      reason.bytes (Message.status k reason).line :=
    ⟨⟨by decide, by decide, by decide⟩, hdigits, fun r hr hr' => hhead (by rw [← hr']; exact hr),
      0, 0, 0, by simp [Message.line, statusBuf, spaces]⟩
  have hloose : StatusLoose (Message.status k reason).line :=
    (statusLoose_iff hnull).mpr ⟨_, _, _, _, _, hshape, looseToken_http11⟩
  obtain ⟨hw, -, hcode, -, -, hreason⟩ := (statusShape_iff hnull).mp hshape
  have hread : full = true → (behind (Message.status k reason).line).headD 0 ≠ 0 →
      ¬Overreads (Message.status k reason).line
        ((Message.status k reason).line.dropWhile isSpace) := by
    rintro - - ⟨hne, -⟩
    apply hne
    change (word (Message.status k reason).line).length = 8
    rw [hw]
    rfl
  rw [statusLine_found hread hloose, hreason, Call.bind_ret (give_fits hs hroom), codeOf_eq hcode,
    hnumber]
  rfl

/-- **A field.** -/
theorem parse_field (hs : Sized s) (hv : (Message.field name value).Valid)
    (hf : (Message.field name value).fits s = true) :
    fieldLine (Message.field name value).line s
      = .ok (.ok (), (s.put .name name.bytes).put .value (strip 32 value.bytes)) := by
  obtain ⟨hn, -, hv⟩ := hv
  have hfits := fits_iff.mp hf
  have hroom₁ : name.bytes.length < (s .name).length := hfits (.name, name.bytes) (by
    simp [Message.kind, Recv.args, Message.strings])
  have hroom₂ : (strip 32 value.bytes).length < (s .value).length :=
    hfits (.value, strip 32 value.bytes) (by simp [Message.kind, Recv.args, Message.strings])
  have hname : ∀ x ∈ name.bytes, isName x = true := by
    intro x hx
    refine isName_iff.mpr ⟨fun h => name.noNull (h ▸ hx), ?_, ?_⟩
    · rintro rfl
      exact strpbrk_eq_false.mp hn 32 hx (by decide)
    · rintro rfl
      exact strpbrk_eq_false.mp hn 58 hx (by decide)
  have hshape : (Message.field name value).line
      = fieldShape 0 0 1 0 name.bytes (strip 32 value.bytes) := by
    simp [Message.line, fieldShape, spaces]
  obtain ⟨hn', hcolon, hvalue⟩ := @fieldShape_eq name.bytes (strip 32 value.bytes) 0 0 1 0 hname
    (by rintro x hx rfl; exact head_strip hx)
  rw [if_neg (strip_ne_nil hv), spaces_zero, List.append_nil] at hvalue
  have hnull : 0 ∉ fieldShape 0 0 1 0 name.bytes (strip 32 value.bytes) := by
    rw [← hshape]
    simp only [Message.line, List.mem_append, not_or]
    refine ⟨⟨name.noNull, by decide⟩, fun hmem => value.noNull ?_⟩
    exact mem_strip hmem
  have hfit := @field_fits _ s hnull hcolon (by rw [hn']; exact hroom₁)
  have hs₁ : Sized (s.put .name name.bytes) := hs.put hroom₁
  rw [hshape, fieldLine_fits hs hfit, hn', hvalue]
  apply give_fits hs₁
  rw [put_of_ne (by decide)]
  exact hroom₂

/-! ## A receive -/

variable {rx : Rxbuf} {r : List UInt8} {k : Recv}

/-- The function of a message, when its line is what comes next. -/
theorem Message.receive_run (hm : m.Sendable) (hs : Sized s) (hf : m.fits s = true)
    (ht : t.term = []) (hcut : CutAt crlf.bytes i m.line r) (hn : m.line.length < n) :
    ∃ s', m.kind.call duplex n full rx (s, t, crlf.attach, i, o)
        = .ok (.ok m.rc, s', t, crlf.attach, r, o) ∧
      m.kind.args.map (fun a => cstring (s' a)) = m.strings := by
  have hroom := room_rxbuf rx
  obtain ⟨v', hrun, rfl⟩ := @Suffix.mrecvl_cut _ _ _ _ crlf.attach i m.line r
    (.buf (rx.bytes.take (rxbufSize - 1))) [] n (yields_duplex o) hcut rfl rfl
    (fun _ => by rw [hroom]; decide) hn
  rw [hroom] at hrun
  have hshort := hm.short
  have hline : ∀ {α : Type} {parse : ℕ → Rxbuf → Call Args Stop Errno α}
      {line : List UInt8 → Call Args Stop Errno α} (_ : Parses parse line),
      receive duplex n rx parse (s, t, crlf.attach, i, o)
        = onArgs (line m.line) (s, t, crlf.attach, r, o) := by
    intro α parse line hp
    have hreceive := @Http.receive_run _ _ _ rx t _ _ m.line s _ _ _ hp ht hrun
    rw [if_neg m.line_ne_nil, if_neg (by omega)] at hreceive
    exact hreceive
  cases m with
  | request command resource =>
    have hparse := @parse_request s full _ _ hs hm.valid hf
    refine ⟨(s.put .command command.bytes).put .resource resource.bytes, ?_, ?_⟩
    · unfold kind Recv.call recvrequest
      simp only
      rw [Call.bind_ret ((hline (parses_request full)).trans (onArgs_run hparse))]
      rfl
    · simp only [kind, Recv.args, strings, List.map_cons, List.map_nil, cstring_put resource.noNull]
      rw [put_of_ne (by decide), cstring_put command.noNull]
  | status k reason =>
    have hparse := @parse_status s full _ k hs hm.valid hf
    refine ⟨s.put .reason reason.bytes, (hline (parses_status full)).trans (onArgs_run hparse), ?_⟩
    simp only [kind, Recv.args, strings, List.map_cons, List.map_nil, cstring_put reason.noNull]
  | field name value =>
    have hparse := parse_field hs hm.valid hf
    have hnull : 0 ∉ strip 32 value.bytes := fun hmem => value.noNull (mem_strip hmem)
    refine ⟨(s.put .name name.bytes).put .value (strip 32 value.bytes), ?_, ?_⟩
    · unfold kind Recv.call recvfield
      simp only
      rw [Call.bind_ret ((hline parses_field).trans (onArgs_run hparse))]
      rfl
    · simp only [kind, Recv.args, strings, List.map_cons, List.map_nil, cstring_put hnull]
      rw [put_of_ne (by decide), cstring_put name.noNull]

theorem Recv.call_fail {z z' : SuffixSock × Wires} {e : Errno} {t' : TermSock}
    (h : ∀ {α : Type} (parse : ℕ → Rxbuf → Call Args Stop Errno α),
      receive duplex n rx parse (s, t, z) = .ok (.error e, s, t', z')) (k : Recv) :
    k.call duplex n full rx (s, t, z) = .ok (.error e, s, t', z') := by
  cases k with
  | request => exact Call.bind_fail (h _)
  | status => exact h fun sz rx => parseStatus full rx sz
  | field => exact Call.bind_fail (h _)

theorem Recv.call_stop {z : SuffixSock × Wires} {e : Stop}
    (h : ∀ {α : Type} (parse : ℕ → Rxbuf → Call Args Stop Errno α),
      receive duplex n rx parse (s, t, z) = .error e) (k : Recv) :
    k.call duplex n full rx (s, t, z) = .error e := by
  cases k with
  | request => exact Call.bind_stop (h _)
  | status => exact h fun sz rx => parseStatus full rx sz
  | field => exact Call.bind_stop (h _)

/-- The empty line. -/
theorem Recv.end_run (ht : t.term = []) (hcut : CutAt crlf.bytes i [] r) (hn : 0 < n) (k : Recv) :
    k.call duplex n full rx (s, t, crlf.attach, i, o)
      = .ok (.error .EPIPE, s, { t with indone := true }, crlf.attach, r, o) := by
  have hroom := room_rxbuf rx
  obtain ⟨v', hrun, rfl⟩ := @Suffix.mrecvl_cut _ _ _ _ crlf.attach i [] r
    (.buf (rx.bytes.take (rxbufSize - 1))) [] n (yields_duplex o) hcut rfl rfl
    (fun hne => absurd rfl hne) hn
  apply Recv.call_fail
  intro α parse
  exact receive_end ht hrun

/-- Nothing has been sent. -/
theorem Recv.wait_run (ht : t.term = []) (k : Recv) :
    k.call duplex n full rx (s, t, crlf.attach, [], o) = .error .waits := by
  apply Recv.call_stop
  intro α parse
  exact receive_stop ht rfl

/-! ## The queue -/

/-- The calls of the two sides. The sender sends messages that can get through. -/
inductive Action
  | send (m : Message) (h : m.Sendable)
  | done
  | recv (k : Recv) (rx : Rxbuf) (s : Args) (h : Sized s)

/-- What a call returns; a receive that succeeds with the strings it has stored. -/
inductive Answer
  | sent (r : Except Errno Unit)
  | received (r : Except Errno ℕ) (strings : List (List UInt8))
  | fault

/-- The messages that have been sent and not received, whether the sender has called
`dill_http_done`, and whether the receiver has been told so. -/
structure Mailbox where
  pending : List Message
  closed : Bool
  ended : Bool

/-- A step of the queue. The sender stops when it has closed it, and the receiver calls the function
for the message that comes next, with buffers that are large enough. -/
def Mailbox.step (q : Mailbox) : Action → Option (Mailbox × Answer)
  | .send m _ =>
    if q.closed then none
    else some ({ q with pending := q.pending ++ [m] }, .sent (.ok ()))
  | .done => if q.closed then none else some ({ q with closed := true }, .sent (.ok ()))
  | .recv k _ s _ =>
    match q.pending with
    | m :: rest =>
      if m.kind = k ∧ m.fits s = true then
        some ({ q with pending := rest }, .received (.ok m.rc) m.strings)
      else none
    | [] =>
      if q.closed && !q.ended then
        some ({ q with ended := true }, .received (.error .EPIPE) [])
      else none

/-- The two sockets and the bytes between them. -/
structure Pair where
  sender : TermSock × SuffixSock
  receiver : TermSock × SuffixSock
  wire : List UInt8

/-- A call of the sender. -/
def Pair.send (p : Pair) (x : Call (Stack Wires) Stop Errno Unit) : Option (Pair × Answer) :=
  match x (p.sender.1, p.sender.2, [], p.wire) with
  | .error .waits => none
  | .error .fault => some (p, .fault)
  | .ok (r, term, suffix, _, wire) => some ({ p with sender := (term, suffix), wire }, .sent r)

/-- The strings that a call of the receiver has stored. -/
def Recv.stored (k : Recv) (s : Args) : Except Errno ℕ → List (List UInt8)
  | .ok _ => k.args.map fun a => cstring (s a)
  | .error _ => []

/-- A call. One that waits has no result yet. -/
def Pair.step (full : Bool) (p : Pair) : Action → Option (Pair × Answer)
  | .send m _ => p.send (m.call duplex (p.wire.length + 1))
  | .done => p.send (done duplex (p.wire.length + 1))
  | .recv k rx s _ =>
    match k.call duplex (p.wire.length + 1) full rx (s, p.receiver.1, p.receiver.2, p.wire, []) with
    | .error .waits => none
    | .error .fault => some (p, .fault)
    | .ok (r, s, term, suffix, wire, _) =>
      some ({ p with receiver := (term, suffix), wire }, .received r (k.stored s r))

/-- The sockets when they have been attached. -/
def Pair.init : Pair := ⟨(⟨[], false, false⟩, crlf.attach), (⟨[], false, false⟩, crlf.attach), []⟩

/-- The bytes on the wire are the lines of the messages that wait, and then the empty line if the queue
has been closed. -/
structure Carries (p : Pair) (q : Mailbox) : Prop where
  sender : ∃ indone, p.sender = (⟨[], indone, q.closed⟩, crlf.attach)
  receiver : ∃ indone outdone, p.receiver = (⟨[], indone, outdone⟩, crlf.attach)
  wire : p.wire = wireOf crlf (q.pending.map Message.line) ++
    (if q.closed && !q.ended then crlf.bytes else [])
  sendable : ∀ m ∈ q.pending, m.Sendable
  ended : q.ended = true → q.pending = [] ∧ q.closed = true

variable {p p' : Pair} {q q' : Mailbox} {a : Action} {b : Answer}

theorem carries_init : Carries .init ⟨[], false, false⟩ :=
  ⟨⟨false, rfl⟩, ⟨false, false, rfl⟩, rfl, nofun, nofun⟩

theorem Carries.open (h : Carries p q) (hq : q.closed = false) :
    q.ended = false ∧ p.wire = wireOf crlf (q.pending.map Message.line) := by
  have hended : q.ended = false := by
    by_contra hne
    have hc := (h.ended (Bool.not_eq_false _ ▸ hne)).2
    rw [hq] at hc
    cases hc
  refine ⟨hended, ?_⟩
  rw [h.wire, hq, Bool.false_and, if_neg Bool.false_ne_true, List.append_nil]

theorem send_sim {m : Message} (hm : m.Sendable) (h : Carries p q) (hq : q.closed = false) :
    ∃ p', p.step full (.send m hm) = some (p', .sent (.ok ())) ∧
      Carries p' { q with pending := q.pending ++ [m] } := by
  obtain ⟨indone, hsender⟩ := h.sender
  obtain ⟨hended, hwire⟩ := h.open hq
  have hrun := @Message.call_run m (p.wire.length + 1) ⟨[], indone, q.closed⟩ [] p.wire hm.valid
  refine ⟨{ p with wire := p.wire ++ (m.line ++ crlf.bytes) }, ?_, ?_⟩
  · unfold Pair.step Pair.send
    simp only [hsender, hrun]
  · refine ⟨⟨indone, hsender⟩, h.receiver, ?_, ?_, ?_⟩
    · rw [hwire]
      simp [wireOf, hq]
    · intro m' hm'
      rcases List.mem_append.mp hm' with hm' | hm'
      · exact h.sendable m' hm'
      · rw [List.mem_singleton.mp hm']
        exact hm
    · intro he
      rw [hended] at he
      cases he

theorem done_sim (h : Carries p q) (hq : q.closed = false) :
    ∃ p', p.step full .done = some (p', .sent (.ok ())) ∧ Carries p' { q with closed := true } := by
  obtain ⟨indone, hsender⟩ := h.sender
  obtain ⟨hended, hwire⟩ := h.open hq
  have hrun := @done_run ⟨[], indone, q.closed⟩ [] p.wire (p.wire.length + 1) hq rfl
  refine ⟨{ p with
    sender := (⟨[], indone, true⟩, crlf.attach), wire := p.wire ++ crlf.bytes }, ?_, ?_⟩
  · unfold Pair.step Pair.send
    simp only [hsender, hrun]
  · refine ⟨⟨indone, rfl⟩, h.receiver, ?_, h.sendable, ?_⟩
    · rw [hwire]
      simp [hended]
    · intro he
      rw [hended] at he
      cases he

theorem recv_sim {m : Message} {rest : List Message} (hs : Sized s) (h : Carries p q)
    (hq : q.pending = m :: rest) (hf : m.fits s = true) :
    ∃ p', p.step full (.recv m.kind rx s hs) = some (p', .received (.ok m.rc) m.strings) ∧
      Carries p' { q with pending := rest } := by
  obtain ⟨indone, outdone, hreceiver⟩ := h.receiver
  have hm : m.Sendable := h.sendable m (by rw [hq]; exact List.mem_cons_self)
  have hended : q.ended = false := by
    by_contra hne
    have hnil := (h.ended (Bool.not_eq_false _ ▸ hne)).1
    rw [hq] at hnil
    cases hnil
  have hwire := h.wire
  rw [hq] at hwire
  set wire := wireOf crlf (rest.map Message.line) ++
    (if q.closed && !q.ended then crlf.bytes else []) with hrest
  have hcut : CutAt crlf.bytes p.wire m.line wire := by
    rw [hwire, List.map_cons, wireOf, List.flatMap_cons, List.append_assoc (m.line ++ crlf.bytes)]
    exact cutAt_append (m.free_line hm.valid) _
  have hlen : m.line.length < p.wire.length + 1 := by
    rw [hcut.eq]
    simp only [List.length_append]
    omega
  obtain ⟨s', hrun, hstored⟩ := @Message.receive_run m s full _ ⟨[], indone, outdone⟩ _ [] rx _ hm hs
    hf rfl hcut hlen
  refine ⟨{ p with wire }, ?_, ⟨h.sender, ⟨indone, outdone, hreceiver⟩, hrest, ?_, ?_⟩⟩
  · unfold Pair.step
    simp only [hreceiver, hrun, Recv.stored, hstored]
  · intro m' hm'
    exact h.sendable m' (by rw [hq]; exact List.mem_cons_of_mem m hm')
  · intro he
    rw [hended] at he
    cases he

theorem end_sim (hs : Sized s) (h : Carries p q) (hq : q.pending = []) (hclosed : q.closed = true)
    (hended : q.ended = false) (k : Recv) :
    ∃ p', p.step full (.recv k rx s hs) = some (p', .received (.error .EPIPE) []) ∧
      Carries p' { q with ended := true } := by
  obtain ⟨indone, outdone, hreceiver⟩ := h.receiver
  have hwire := h.wire
  rw [hq, hclosed, hended] at hwire
  have hcut : CutAt crlf.bytes p.wire [] [] := by
    rw [hwire]
    exact ⟨rfl, nofun⟩
  have hrun := @Recv.end_run s full (p.wire.length + 1) ⟨[], indone, outdone⟩ p.wire [] rx [] rfl hcut
    (Nat.succ_pos _) k
  refine ⟨{ p with receiver := (⟨[], true, outdone⟩, crlf.attach), wire := [] }, ?_, ?_⟩
  · unfold Pair.step
    simp only [hreceiver, hrun, Recv.stored]
  · refine ⟨h.sender, ⟨true, outdone, rfl⟩, ?_, h.sendable, fun _ => ⟨hq, hclosed⟩⟩
    rw [hq]
    simp [wireOf]

theorem wait_sim (hs : Sized s) (h : Carries p q) (hq : q.pending = [])
    (hclosed : q.closed = true → q.ended = true) (k : Recv) :
    p.step full (.recv k rx s hs) = none := by
  obtain ⟨indone, outdone, hreceiver⟩ := h.receiver
  have hwire : p.wire = [] := by
    rw [h.wire, hq]
    cases hc : q.closed with
    | false => rfl
    | true =>
      rw [hclosed hc]
      rfl
  have hrun := @Recv.wait_run s full 1 ⟨[], indone, outdone⟩ [] rx rfl k
  unfold Pair.step
  simp only [hreceiver, hwire, List.length_nil, Nat.zero_add, hrun]

/-- **Each step of the queue is one of the sockets**, with the same answer. -/
theorem step_sim (h : Carries p q) (hstep : q.step a = some (q', b)) :
    ∃ p', p.step full a = some (p', b) ∧ Carries p' q' := by
  cases a with
  | send m hm =>
    unfold Mailbox.step at hstep
    simp only at hstep
    split at hstep
    · cases hstep
    · rename_i hopen
      cases hstep
      exact send_sim hm h (Bool.not_eq_true _ ▸ hopen)
  | done =>
    unfold Mailbox.step at hstep
    simp only at hstep
    split at hstep
    · cases hstep
    · rename_i hopen
      cases hstep
      exact done_sim h (Bool.not_eq_true _ ▸ hopen)
  | recv k rx s hs =>
    unfold Mailbox.step at hstep
    simp only at hstep
    split at hstep
    · rename_i m rest hq
      split at hstep
      · rename_i hsuits
        obtain ⟨rfl, hf⟩ := hsuits
        cases hstep
        exact recv_sim hs h hq hf
      · cases hstep
    · rename_i hq
      split at hstep
      · rename_i hc
        rw [Bool.and_eq_true, Bool.not_eq_true'] at hc
        cases hstep
        exact end_sim hs h hq hc.1 hc.2 k
      · cases hstep

/-- **Messages are received as they were sent.** The two sockets answer as the queue does; when there
is no message and the queue has not been closed, or the receiver knows that it has been, a receive
waits. -/
theorem http_round_trip (full : Bool) (as : List Action) (q : Mailbox) (bs : List Answer)
    (h : answers Mailbox.step ⟨[], false, false⟩ as = some (q, bs)) :
    ∃ p, answers (Pair.step full) Pair.init as = some (p, bs) ∧
      (q.pending = [] → (q.closed = true → q.ended = true) →
        ∀ k rx s hs, p.step full (.recv k rx s hs) = none) := by
  obtain ⟨p, hrun, hp⟩ := answers_sim (fun _ _ _ _ _ => step_sim) carries_init h
  exact ⟨p, hrun, fun hq hclosed k rx s hs => wait_sim hs hp hq hclosed k⟩

/-! ## A request and a field -/

/-- `GET /`. -/
def getRoot : Message := .request ⟨ascii "GET", by decide +kernel⟩ ⟨ascii "/", by decide +kernel⟩

/-- A field with padding around its value. -/
def padded : Message := .field ⟨ascii "A", by decide +kernel⟩ ⟨ascii " b ", by decide +kernel⟩

theorem sendable_getRoot : getRoot.Sendable :=
  ⟨⟨by decide +kernel, by decide +kernel, by decide +kernel, by decide +kernel⟩, by decide +kernel⟩

theorem sendable_padded : padded.Sendable := by
  refine ⟨⟨by decide +kernel, noCrlf_of_notMem (by decide +kernel), 98, by decide +kernel,
    by decide +kernel⟩, by decide +kernel⟩

theorem sized_blank : Sized blank := by
  constructor <;> intro a <;> unfold blank <;> rw [List.length_replicate] <;> decide

/-- Two messages and their end, and the calls that receive them. -/
def exchange : List Action :=
  [.send getRoot sendable_getRoot, .recv .request zeroed blank sized_blank,
    .send padded sendable_padded, .done, .recv .field zeroed blank sized_blank,
    .recv .status zeroed blank sized_blank]

theorem http_round_trip_get : ∃ p, answers (Pair.step true) Pair.init exchange = some (p,
    [.sent (.ok ()), .received (.ok 0) [ascii "GET", ascii "/"], .sent (.ok ()), .sent (.ok ()),
      .received (.ok 0) [ascii "A", ascii "b"], .received (.error .EPIPE) []]) := by
  have hqueue : answers Mailbox.step ⟨[], false, false⟩ exchange = some (⟨[], true, true⟩,
    [.sent (.ok ()), .received (.ok 0) [ascii "GET", ascii "/"], .sent (.ok ()), .sent (.ok ()),
      .received (.ok 0) [ascii "A", ascii "b"], .received (.error .EPIPE) []]) := rfl
  obtain ⟨p, hrun, -⟩ := http_round_trip true exchange _ _ hqueue
  exact ⟨p, hrun⟩

end Libdill.Http
