import Libdill.Term.Transparent
import Libdill.Ws.Fragments

/-!
# Messages that are dropped

`mrecvl` without an iolist, on each of the message sockets of the library. PREFIX skips the message,
TERM has a buffer of its own, SUFFIX goes through the null pointer and WebSockets through an element
that has not been set.

* `Incoming`: a message, and the bytes it comes in as.
* `Drops`: it is dropped, and the socket is left as if it had been received into a large buffer.
* `drops_iff`: when this is so.
-/

namespace Libdill.Msock

open Foundations Libdill.Sock
open Libdill.Prefix (PrefixSock)
open Libdill.Suffix (SuffixSock)
open Libdill.Term (TermSock newBuf behind passed passedEnds took hidden)
open Libdill.Ws (WsSock Rx Piece total bytesAt encodeAll opcodeOf place frames frame)

/-- The message sockets of the library. -/
inductive AnySock
  | prefixSock (sock : PrefixSock)
  | suffixSock (sock : SuffixSock)
  | termOverPrefix (sock : TermSock) (under : PrefixSock)
  | termOverSuffix (sock : TermSock) (under : SuffixSock)
  | wsSock (sock : WsSock)

/-- A `size_t` that is returned as a `ssize_t`. -/
def ssize (sz : ℕ) : ℤ := (UInt64.ofNat sz).toInt64.toInt

/-- What a receive returns, and the state it leaves. -/
def outcome {τ : Type} (f : τ → AnySock × List UInt8) :
    Except Stop (Except Errno (ℕ × List Elem) × τ) →
      Except Stop (Except Errno ℤ × AnySock × List UInt8)
  | .error r => .error r
  | .ok (.error e, q) => .ok (.error e, f q)
  | .ok (.ok r, q) => .ok (.ok (ssize r.1), f q)

variable (u : Bsock (List UInt8)) (junk : ℕ → UInt8) (n : ℕ)

/-- `dill_mrecvl` on a bytestream with the bytes `s`; without elements, `first` and `last` are null.
The loops of the receivers are given `n` turns. -/
def AnySock.mrecvl (first : List Elem) (s : List UInt8) :
    AnySock → Except Stop (Except Errno ℤ × AnySock × List UInt8)
  | .prefixSock sock =>
    outcome (fun q => (.prefixSock q.1, q.2)) (Prefix.mrecvl u first true (sock, s))
  | .suffixSock sock =>
    outcome (fun q => (.suffixSock q.1, q.2)) (Suffix.mrecvl u n first (sock, s))
  | .termOverPrefix sock under =>
    outcome (fun q => (.termOverPrefix q.1 q.2.1, q.2.2))
      (Term.mrecvl (Prefix.msock u) junk first true (sock, under, s))
  | .termOverSuffix sock under =>
    outcome (fun q => (.termOverSuffix q.1 q.2.1, q.2.2))
      (Term.mrecvl (Suffix.msock u n) junk first true (sock, under, s))
  | .wsSock sock => (Ws.mrecvl u n sock first s).map fun r => (r.1, .wsSock r.2.self, r.2.u)

/-! ## Incoming messages -/

/-- The message `m` comes in over PREFIX as the bytes `w`. -/
structure OnPrefix (sock : PrefixSock) (m w : List UInt8) : Prop where
  inerr : sock.inerr = false
  bytes : ∃ szbuf, szbuf.length = sock.hdrlen ∧ (sock.getHdr szbuf).toNat = m.length ∧
    w = szbuf ++ m

/-- The message `m` comes in over SUFFIX as the bytes `w`. -/
structure OnSuffix (sock : SuffixSock) (m w : List UInt8) : Prop where
  inerr : sock.inerr = false
  free : Free sock.suffix.bytes m
  bytes : w = m ++ sock.suffix.bytes

/-- The message `m` of the type of the socket comes in over WebSockets as the bytes `w`, in any
number of frames. -/
structure OnWs (sock : WsSock) (m w : List UInt8) : Prop where
  indone : sock.indone = false
  bytes : ∃ (ps : List Piece) (c : ℕ → UInt8), ps ≠ [] ∧ (∀ p ∈ ps, p.key.isSome = sock.server) ∧
    m = bytesAt c 0 (total ps) ∧ w = encodeAll c 0 (opcodeOf sock.flags) ps

/-- The message `m` comes in as the bytes `w`. The terminator of TERM is not a message. -/
def AnySock.Incoming (m w : List UInt8) : AnySock → Prop
  | .prefixSock sock => OnPrefix sock m w
  | .suffixSock sock => OnSuffix sock m w
  | .termOverPrefix sock under => m ≠ sock.term ∧ OnPrefix under m w
  | .termOverSuffix sock under => m ≠ sock.term ∧ OnSuffix under m w
  | .wsSock sock => OnWs sock m w

/-- **A message is dropped.** Its size is returned, the socket is as before, and so is what comes
behind the message; a receive into a large buffer that succeeds leaves the same. -/
structure Drops (sock : AnySock) (m w rest : List UInt8) : Prop where
  size : sock.mrecvl u junk n [] (w ++ rest) = .ok (.ok m.length, sock, rest)
  same : ∀ mem k q, m.length ≤ mem.length →
    sock.mrecvl u junk n [.buf mem] (w ++ rest) = .ok (.ok k, q) → q = (sock, rest)

/-- The messages of `k` bytes that can be dropped: over PREFIX those with a size that can be
returned and, if there is a terminator, no longer than it; over SUFFIX only with a terminator; over
WebSockets only those without bytes. -/
def AnySock.Droppable (k : ℕ) : AnySock → Prop
  | .prefixSock _ => k < 2 ^ 63
  | .suffixSock _ => False
  | .termOverPrefix sock _ => k < 2 ^ 63 ∧ (sock.term = [] ∨ k ≤ sock.term.length)
  | .termOverSuffix sock _ => k < 2 ^ 63 ∧ sock.term ≠ []
  | .wsSock _ => k = 0

/-- A receive into an iolist of the size of what is on the bytestream takes all of it. -/
def Scatters : Prop :=
  ∀ lens ends bs rest data s', lens.sum = bs.length →
    u.brecvl (bs ++ rest) lens ends = some (.ok data, s') → s' = rest

theorem scatters_lossless : Scatters lossless := by
  intro lens ends bs rest data s' hsum h
  cases ends with
  | false => cases h
  | true =>
    rw [lossless_brecvl hsum] at h
    cases h
    rfl

variable {u : Bsock (List UInt8)} {junk : ℕ → UInt8} {n : ℕ} {m w rest mem : List UInt8}
  {first : List Elem} {ends : Bool} {r : ℕ × List Elem} {k : ℕ}

theorem ssize_iff : ssize k = k ↔ k < 2 ^ 63 := by
  unfold ssize
  rw [Prefix.ssize_eq_iff, UInt64.toNat_ofNat']
  omega

theorem outcome_inv {τ : Type} {f : τ → AnySock × List UInt8} {i : ℤ} {p : AnySock × List UInt8}
    {o : Except Stop (Except Errno (ℕ × List Elem) × τ)} (h : outcome f o = .ok (.ok i, p)) :
    ∃ r q, o = .ok (.ok r, q) ∧ f q = p := by
  cases o with
  | error r => cases h
  | ok o =>
    obtain ⟨o, q⟩ := o
    cases o with
    | error e => cases h
    | ok r =>
      cases h
      exact ⟨r, q, rfl, rfl⟩

/-! ## PREFIX -/

theorem brecvl_run (hu : Reads u) (bs rest : List UInt8) :
    u.brecvl (bs ++ rest) [bs.length] true = some (.ok bs, rest) := by
  have hread := hu bs rest
  unfold brecv at hread
  cases h : u.brecvl (bs ++ rest) [bs.length] true with
  | none =>
    rw [h] at hread
    cases hread
  | some r =>
    rw [h] at hread
    cases hread
    rfl

section

variable {sock : PrefixSock}

/-- The header of the message is read. -/
theorem prefix_open (hu : Reads u) (h : OnPrefix sock m w) :
    Prefix.mrecvl u first ends (sock, w ++ rest)
      = Prefix.body u first ends m.length (sock, m ++ rest) := by
  obtain ⟨szbuf, hlen, hsize, rfl⟩ := h.bytes
  have hhdr := brecvl_run hu szbuf (m ++ rest)
  rw [hlen, ← List.append_assoc] at hhdr
  rw [Prefix.mrecvl_open h.inerr hhdr, hsize]

/-- Without an iolist the message is skipped. -/
theorem prefix_none (hu : Reads u) (h : OnPrefix sock m w) :
    Prefix.mrecvl u [] ends (sock, w ++ rest) = .ok (.ok (m.length, []), sock, rest) := by
  rw [prefix_open hu h]
  unfold Prefix.body
  rw [List.isEmpty_nil, if_pos rfl, Call.bind_ret (Prefix.recvl_run (brecvl_run hu m rest))]
  rfl

/-- A message that fits in a buffer. -/
theorem prefix_one (hu : Reads u) (h : OnPrefix sock m w) (hle : m.length ≤ mem.length) :
    Prefix.mrecvl u [.buf mem] true (sock, w ++ rest)
      = .ok (.ok (m.length, fill m [.buf mem]), sock, rest) := by
  have htrim : Prefix.trim m.length ([.buf mem].map Elem.len) = some ([m.length], true) :=
    if_pos hle
  rw [prefix_open hu h, Prefix.body_fits (List.cons_ne_nil _ _) htrim, Bool.and_true,
    Call.bind_ret (Prefix.recvl_run (brecvl_run hu m rest))]
  rfl

/-- A message that does not. -/
theorem prefix_large (hu : Reads u) (h : OnPrefix sock m w) (hlt : mem.length < m.length) :
    Prefix.mrecvl u [.buf mem] true (sock, w ++ rest)
      = .ok (.error .EMSGSIZE, { sock with inerr := true }, m ++ rest) := by
  have htrim : Prefix.trim m.length ([.buf mem].map Elem.len) = none := by
    rw [Prefix.trim_eq_none (by simp)]
    simpa [Elem.len] using hlt
  rw [prefix_open hu h, Prefix.body_refused (List.cons_ne_nil _ _) htrim]

/-- A receive that succeeds is behind the message, whatever the iolist. -/
theorem prefix_behind (hu : Reads u) (hs : Scatters u) (h : OnPrefix sock m w)
    {q : PrefixSock × List UInt8} (hfirst : first ≠ [])
    (hr : Prefix.mrecvl u first ends (sock, w ++ rest) = .ok (.ok r, q)) : q = (sock, rest) := by
  rw [prefix_open hu h] at hr
  cases htrim : Prefix.trim m.length (first.map Elem.len) with
  | none =>
    rw [Prefix.body_refused hfirst htrim] at hr
    cases hr
  | some t =>
    obtain ⟨lens, e⟩ := t
    rw [Prefix.body_fits hfirst htrim] at hr
    obtain ⟨data, ⟨sock', s'⟩, hread, hret⟩ := Call.ret_of_bind hr
    obtain ⟨hdata, rfl⟩ := Prefix.recvl_inv hread
    cases hret
    rw [hs _ _ _ _ _ _ (Prefix.trim_sum htrim) hdata]

end

/-! ## SUFFIX -/

section

variable {sock : SuffixSock} {it : Elem} {next : List Elem}

theorem yields_of_reads (hu : Reads u) : Yields u fun s x => s = x := by
  rintro s bs rest rfl
  exact ⟨rest, hu bs rest, rfl⟩

/-- Without an iolist the receiver goes through the null pointer as soon as it has the first bytes,
even if the message is empty. -/
theorem suffix_none (hu : Reads u) (h : OnSuffix sock m w) :
    Suffix.mrecvl u n [] (sock, w ++ rest) = .error .fault := by
  have hle : sock.suffix.bytes.length ≤ (w ++ rest).length := by
    rw [h.bytes, List.length_append, List.length_append]
    omega
  obtain ⟨s', hrecv, -⟩ := @Suffix.recv_run _ _ _ (w ++ rest) sock (yields_of_reads hu)
    ((w ++ rest).take sock.suffix.bytes.length) ((w ++ rest).drop sock.suffix.bytes.length)
    (List.take_append_drop _ _).symm
  rw [List.length_take_of_le hle] at hrecv
  unfold Suffix.mrecvl
  rw [Call.look_bind]
  change (Call.require (sock.inerr == false) Errno.ECONNRESET >>= _) (sock, w ++ rest) = _
  rw [h.inerr, beq_self_eq_true, Call.bind_ret Call.require_true, Call.look_bind,
    Call.bind_ret hrecv]
  rfl

/-- A message is received, of whatever size, if the first element has room. -/
theorem suffix_run (hu : Reads u) (h : OnSuffix sock m w) (hn : w.length ≤ n)
    (hit : m ≠ [] → it.len ≠ 0) :
    Suffix.mrecvl u n (it :: next) (sock, w ++ rest)
      = .ok (.ok (m.length, it.put (m.take it.len) :: next), sock, rest) := by
  have hpos := sock.suffix.length_pos
  obtain ⟨s', hrun, rfl⟩ := @Suffix.mrecvl_cut _ _ _ (w ++ rest) sock (w ++ rest) m rest it next n
    (yields_of_reads hu) (by rw [h.bytes]; exact cutAt_append h.free rest) rfl h.inerr hit
    (by rw [h.bytes, List.length_append] at hn; omega)
  exact hrun

/-- A receive that succeeds is behind the message. -/
theorem suffix_behind (hu : Reads u) (h : OnSuffix sock m w) (hn : w.length ≤ n)
    {q : SuffixSock × List UInt8} (hfirst : first ≠ [])
    (hr : Suffix.mrecvl u n first (sock, w ++ rest) = .ok (.ok r, q)) : q = (sock, rest) := by
  obtain ⟨it, next, rfl⟩ := List.exists_cons_of_ne_nil hfirst
  by_cases hit : m ≠ [] → it.len ≠ 0
  · rw [suffix_run hu h hn hit] at hr
    cases hr
    rfl
  · obtain ⟨hm, hit⟩ := Classical.not_imp.mp hit
    have hpos := sock.suffix.length_pos
    obtain ⟨n, rfl⟩ : ∃ i, n = i + 1 := by
      refine ⟨n - 1, ?_⟩
      rw [h.bytes, List.length_append] at hn
      omega
    obtain ⟨s', hrun⟩ := @Suffix.mrecvl_refused _ _ _ (w ++ rest) sock (w ++ rest) m rest it next n
      (yields_of_reads hu) (by rw [h.bytes]; exact cutAt_append h.free rest) rfl h.inerr
      (not_not.mp hit) hm
    rw [hrun] at hr
    cases hr

end

/-! ## TERM -/

section

variable {σ : Type} {v : Sock.Msock σ} {sock : TermSock} {s s' : σ} {x : TermSock × σ}
  {o : Except Errno (ℕ × List Elem)}

/-- A receive that succeeds leaves the socket below as the receive there does. -/
theorem term_inv (hr : Term.mrecvl v junk first true (sock, s) = .ok (.ok r, x)) :
    ∃ a s', v.mrecvl (passed junk sock.term first) (passedEnds sock.term first) s
      = .ok (.ok a, s') ∧ x = (sock, s') := by
  rw [Term.mrecvl_eq] at hr
  obtain ⟨a, y, hbelow, htook⟩ := Call.ret_of_bind hr
  obtain ⟨s', hrun, rfl⟩ := below_eq_ok hbelow
  refine ⟨a, s', hrun, ?_⟩
  unfold took at htook
  split at htook
  · split at htook
    · cases htook
    · cases htook
      rfl
  · split at htook
    · cases htook
    · cases htook
      rfl

/-- Without an iolist the message is received into the buffer for the terminator only. -/
theorem term_none (hterm : sock.term ≠ []) (hm : m ≠ sock.term)
    (h : v.mrecvl [newBuf junk sock.term.length] true s
      = .ok (.ok (m.length, [.buf (hidden junk sock.term.length m)]), s')) :
    Term.mrecvl v junk [] true (sock, s) = .ok (.ok (m.length, []), sock, s') := by
  have hbehind : behind sock.term.length [] = [] := rfl
  have hends : passedEnds sock.term [] = true := Bool.or_true _
  have hbelow : v.mrecvl (passed junk sock.term []) (passedEnds sock.term []) s
      = .ok (.ok (m.length, .buf (hidden junk sock.term.length m) ::
          fill [] (behind sock.term.length [])), s') := by
    rw [Term.passed_hidden hterm, hbehind, hends]
    exact h
  rw [Term.mrecvl_hidden hterm Term.length_hidden (Nat.zero_le _) hbelow,
    if_neg (Term.hidden_ne hm)]
  rfl

end

/-! ## WebSockets -/

section

variable {ps : List Piece} {c : ℕ → UInt8} {pos : ℕ} {s : Rx (List UInt8)} {server : Bool}

/-- Bytes of a payload for which there is no element. -/
theorem payload_none {mask : Option (List UInt8)} {sz : ℕ} (hsz : sz ≠ 0) (s : List UInt8) :
    Ws.payload u mask sz [] s = .error .fault := by
  rw [Ws.payload, if_neg hsz]

/-- A frame with bytes. -/
theorem frame_none (hu : Reads u) {f : Ws.Frame} (hf : f.Valid s.self.server) (hdata : f.opcode ≠ 8)
    (hs : s.u = f.encode ++ rest) (hit : s.it = []) (hpos : f.payload.length ≠ 0) (res : UInt64) :
    frame u res s = .error .fault := by
  have hop : (f.opcode == 8) = false := by simpa using hdata
  have hread : Ws.readPayload u false (f.key.map Ws.Key.bytes) f.payload.length
      { s.opened f.opcode with u := f.body ++ rest } = .error .fault := by
    unfold Ws.readPayload
    simp only [Bool.false_eq_true, if_false, (Ws.opened_data (s := s) hdata).2.2, hit,
      payload_none hpos]
  rw [Ws.frame_encode hu hf hs, hop, Call.bind_stop hread]

theorem place_zero (hz : total ps = 0) (l : List Elem) : place c pos ps l = some ([], l) := by
  have hnil : ps.filter (fun p => 0 < p.size) = [] := by
    induction ps with
    | nil => rfl
    | cons p ps ih =>
      rw [total] at hz
      rw [List.filter_cons_of_neg (by simp; omega)]
      exact ih (by omega)
  rw [Ws.place_filter, hnil]
  rfl

/-- A message with bytes. -/
theorem frames_none (hu : Reads u) (hrole : ∀ p ∈ ps, p.key.isSome = server) {opcode : UInt8}
    (hop : opcode = 0 ∨ opcode = 1 ∨ opcode = 2) (hn : ps.length ≤ n)
    (hs : s.self.server = server) (hw : s.u = encodeAll c pos opcode ps ++ rest) (hit : s.it = [])
    (hpos : total ps ≠ 0) (res : UInt64) : frames u n res s = .error .fault := by
  induction ps generalizing pos opcode n s res with
  | nil => exact absurd rfl hpos
  | cons p ps ih =>
    obtain ⟨hp, hrole⟩ := List.forall_mem_cons.mp hrole
    obtain ⟨n, rfl⟩ : ∃ k, n = k + 1 := ⟨n - 1, by simp at hn; omega⟩
    obtain ⟨h8, hvalid⟩ := @Piece.valid c pos p server hp opcode hop ps.isEmpty
    have hlen : (p.frame c pos ps.isEmpty opcode).payload.length = p.size :=
      Ws.length_bytesAt c pos p.size
    rw [encodeAll, List.append_assoc] at hw
    rw [← hs] at hvalid
    rw [total] at hpos
    by_cases hsize : p.size = 0
    · have hframe := Ws.frame_data hu hvalid h8 hw (by rw [hlen, hsize]; exact Nat.zero_le _)
        (fun _ => by rw [hlen, hsize]; exact stored_zero _) res
      cases ps with
      | nil => exact absurd hsize hpos
      | cons q ps =>
        have hbody : (p.frame c pos false opcode).body = [] := by
          apply List.length_eq_zero_iff.mp
          rw [Ws.length_body_frame, hsize]
        rw [Ws.frames_more hframe]
        refine @ih n (pos + p.size) (s.stored (p.frame c pos false opcode) _) hrole 0 (.inl rfl)
          (by simpa using hn) hs rfl ?_ (by omega) _
        change (spread (Ws.unmask p.key) (p.frame c pos false opcode).body s.it).2 = []
        rw [hbody, spread_nil (Ws.unmask_nil _), hit]
    · exact Ws.frames_stop (frame_none hu hvalid h8 hw hit (by rw [hlen]; exact hsize) res)

theorem length_encodeAll {opcode : UInt8} : ps.length ≤ (encodeAll c pos opcode ps).length := by
  induction ps generalizing pos opcode with
  | nil => exact Nat.le_refl 0
  | cons p ps ih =>
    have hrest := @ih (pos + p.size) 0
    have hpos : 1 ≤ (p.frame c pos ps.isEmpty opcode).encode.length := by
      simp [Ws.Frame.encode, Ws.hdrBytes]
    rw [encodeAll, List.length_append, List.length_cons]
    omega

theorem opcodeOf_cases (flags : UInt32) :
    (opcodeOf flags = 0 ∨ opcodeOf flags = 1 ∨ opcodeOf flags = 2) ∧
      ∃ type, (s.opened (opcodeOf flags)).flags = some type ∧ Ws.isText type = Ws.isText flags := by
  unfold opcodeOf
  cases hflags : Ws.isText flags with
  | true => exact ⟨.inr (.inl rfl), 1, rfl, rfl⟩
  | false => exact ⟨.inr (.inr rfl), 0, rfl, rfl⟩

variable {sock : WsSock}

/-- A message without bytes is received into any iolist. -/
theorem ws_zero (hu : Reads u) (h : OnWs sock m w) (hn : w.length ≤ n) (hm : m.length = 0) :
    ∃ r, Ws.mrecvl u n sock first (w ++ rest) = .ok (.ok 0, r) ∧ r.self = sock ∧ r.u = rest := by
  obtain ⟨ps, c, hne, hrole, rfl, rfl⟩ := h.bytes
  rw [Ws.length_bytesAt] at hm
  obtain ⟨hop, type, htype, htext⟩ := @opcodeOf_cases
    (.start sock (encodeAll c 0 (opcodeOf sock.flags) ps ++ rest) first) sock.flags
  have hframes := @Ws.frames_place c 0 ps sock.server u hu hrole (opcodeOf sock.flags) hop n
    (length_encodeAll.trans hn) hne (.start sock _ first) rest rfl rfl
    (by rw [hm]; exact Nat.zero_le _) 0
  rw [place_zero hm, hm, htype] at hframes
  have hbase := Ws.recvlBase_data h.indone hframes h.indone
  refine ⟨{ Rx.start sock rest first with flags := some type }, ?_, rfl, rfl⟩
  unfold Ws.mrecvl Call.andThen
  rw [hbase]
  simp only [Call.look_bind, htext, beq_self_eq_true]
  rfl

/-- A message with bytes needs an iolist. -/
theorem ws_none (hu : Reads u) (h : OnWs sock m w) (hn : w.length ≤ n) (hm : m.length ≠ 0) :
    Ws.mrecvl u n sock [] (w ++ rest) = .error .fault := by
  obtain ⟨ps, c, hne, hrole, rfl, rfl⟩ := h.bytes
  rw [Ws.length_bytesAt] at hm
  obtain ⟨hop, -⟩ := @opcodeOf_cases
    (.start sock (encodeAll c 0 (opcodeOf sock.flags) ps ++ rest) []) sock.flags
  have hframes := @frames_none u n rest ps c 0
    (.start sock (encodeAll c 0 (opcodeOf sock.flags) ps ++ rest) []) sock.server hu hrole
    (opcodeOf sock.flags) hop (length_encodeAll.trans hn) rfl rfl rfl hm 0
  unfold Ws.mrecvl Call.andThen
  rw [Ws.recvlBase_stop h.indone hframes]

end

/-! ## Which messages are dropped -/

variable {sock : AnySock}

/-- A receive without an iolist that gets behind the message drops it, if it can return its size. -/
theorem drops_iff_of
    (hnone : sock.mrecvl u junk n [] (w ++ rest) = .ok (.ok (ssize m.length), sock, rest))
    (hsame : ∀ mem k q, m.length ≤ mem.length →
      sock.mrecvl u junk n [.buf mem] (w ++ rest) = .ok (.ok k, q) → q = (sock, rest)) :
    Drops u junk n sock m w rest ↔ m.length < 2 ^ 63 := by
  rw [← ssize_iff]
  constructor
  · intro h
    have hsize := h.size
    rw [hnone] at hsize
    injection hsize with hsize
    injection hsize with hsize
    injection hsize
  · intro h
    rw [h] at hnone
    exact ⟨hnone, hsame⟩

theorem drops_prefix (hu : Reads u) {sock : PrefixSock} (h : OnPrefix sock m w) :
    Drops u junk n (.prefixSock sock) m w rest ↔ m.length < 2 ^ 63 := by
  refine drops_iff_of (congrArg (outcome _) (prefix_none hu h)) fun mem k q hle hr => ?_
  obtain ⟨r, x, hrun, rfl⟩ := outcome_inv hr
  rw [prefix_one hu h hle] at hrun
  cases hrun
  rfl

theorem drops_suffix (hu : Reads u) {sock : SuffixSock} (h : OnSuffix sock m w) :
    ¬ Drops u junk n (.suffixSock sock) m w rest := by
  intro hdrop
  have hsize := hdrop.size
  unfold AnySock.mrecvl at hsize
  simp only [suffix_none hu h] at hsize
  cases hsize

section

variable {term : TermSock}

/-- Without an iolist there is no more than the buffer for the terminator. -/
theorem passedEnds_nil (term : List UInt8) : passedEnds term [] = true := Bool.or_true _

theorem drops_termOverPrefix (hu : Reads u) (hs : Scatters u) {under : PrefixSock}
    (h : OnPrefix under m w) (hm : m ≠ term.term) :
    Drops u junk n (.termOverPrefix term under) m w rest ↔
      m.length < 2 ^ 63 ∧ (term.term = [] ∨ m.length ≤ term.term.length) := by
  have hsame : ∀ mem k q, m.length ≤ mem.length →
      (AnySock.termOverPrefix term under).mrecvl u junk n [.buf mem] (w ++ rest)
        = .ok (.ok k, q) → q = (.termOverPrefix term under, rest) := by
    intro mem k q _ hr
    obtain ⟨r, x, hrun, rfl⟩ := outcome_inv hr
    obtain ⟨a, s', hbelow, rfl⟩ := term_inv hrun
    have hq := prefix_behind hu hs h (Term.passed_ne_nil (List.cons_ne_nil _ _)) hbelow
    rw [hq]
  by_cases hterm : term.term = []
  · have hne : m.length ≠ 0 := fun h0 => hm (by rw [hterm]; exact List.length_eq_zero_iff.mp h0)
    have hbelow : (Prefix.msock u).mrecvl (passed junk term.term []) (passedEnds term.term [])
        (under, w ++ rest) = .ok (.ok (m.length, []), under, rest) := by
      rw [Term.passed_plain hterm]
      exact prefix_none hu h
    have hrun := Term.mrecvl_plain hterm hbelow
    rw [if_neg hne] at hrun
    have hcond : term.term = [] ∨ m.length ≤ term.term.length := .inl hterm
    rw [and_iff_left hcond]
    exact drops_iff_of (congrArg (outcome _) hrun) hsame
  · by_cases hle : m.length ≤ term.term.length
    · have hfits : m.length ≤ ((List.range term.term.length).map junk).length := by
        rw [List.length_map, List.length_range]
        exact hle
      have hone := @prefix_one u m w rest _ under hu h hfits
      have hfill : fill m [newBuf junk term.term.length]
          = [.buf (hidden junk term.term.length m)] := by
        rw [fill, Term.len_newBuf]
        rfl
      rw [show Elem.buf _ = newBuf junk term.term.length by rfl, hfill] at hone
      have hrun := @term_none junk m _ (Prefix.msock u) term (under, w ++ rest) (under, rest) hterm
        hm hone
      have hcond : term.term = [] ∨ m.length ≤ term.term.length := .inr hle
      rw [and_iff_left hcond]
      exact drops_iff_of (congrArg (outcome _) hrun) hsame
    · refine iff_of_false (fun hdrop => ?_) fun hcond => ?_
      · have hlt : ((List.range term.term.length).map junk).length < m.length := by
          rw [List.length_map, List.length_range]
          omega
        have hbelow : (Prefix.msock u).mrecvl (passed junk term.term []) (passedEnds term.term [])
            (under, w ++ rest)
              = .ok (.error .EMSGSIZE, { under with inerr := true }, m ++ rest) := by
          rw [Term.passed_hidden hterm, passedEnds_nil]
          exact prefix_large hu h hlt
        have hrun := Term.mrecvl_fails hbelow
        have hsize := hdrop.size
        unfold AnySock.mrecvl at hsize
        simp only [hrun] at hsize
        cases hsize
      · rcases hcond.2 with hnil | hle'
        · exact hterm hnil
        · exact hle hle'

theorem drops_termOverSuffix (hu : Reads u) {under : SuffixSock} (h : OnSuffix under m w)
    (hn : w.length ≤ n) (hm : m ≠ term.term) :
    Drops u junk n (.termOverSuffix term under) m w rest ↔ m.length < 2 ^ 63 ∧ term.term ≠ [] := by
  by_cases hterm : term.term = []
  · refine iff_of_false (fun hdrop => ?_) fun hcond => hcond.2 hterm
    have hbelow : (Suffix.msock u n).mrecvl (passed junk term.term []) (passedEnds term.term [])
        (under, w ++ rest) = .error .fault := by
      rw [Term.passed_plain hterm]
      exact @suffix_none u n m w rest under hu h
    have hrun := Term.mrecvl_stops hbelow
    have hsize := hdrop.size
    unfold AnySock.mrecvl at hsize
    simp only [hrun] at hsize
    cases hsize
  · have hlen : (newBuf junk term.term.length).len ≠ 0 := by
      rw [Term.len_newBuf]
      exact fun h0 => hterm (List.length_eq_zero_iff.mp h0)
    have hone := @suffix_run u n m w rest under (newBuf junk term.term.length) [] hu h hn
      fun _ => hlen
    have hput : (newBuf junk term.term.length).put (m.take (newBuf junk term.term.length).len)
        = .buf (hidden junk term.term.length m) := by
      rw [Term.len_newBuf]
      rfl
    rw [hput] at hone
    have hrun := @term_none junk m _ (Suffix.msock u n) term (under, w ++ rest) (under, rest) hterm
      hm hone
    rw [and_iff_left hterm]
    refine drops_iff_of (congrArg (outcome _) hrun) fun mem k q _ hr => ?_
    obtain ⟨r, x, hrun, rfl⟩ := outcome_inv hr
    obtain ⟨a, s', hbelow, rfl⟩ := term_inv hrun
    have hq := suffix_behind hu h hn (Term.passed_ne_nil (List.cons_ne_nil _ _)) hbelow
    rw [hq]

end

theorem drops_ws (hu : Reads u) {sock : WsSock} (h : OnWs sock m w) (hn : w.length ≤ n) :
    Drops u junk n (.wsSock sock) m w rest ↔ m.length = 0 := by
  constructor
  · intro hdrop
    by_contra hm
    have hsize := hdrop.size
    unfold AnySock.mrecvl at hsize
    simp only [ws_none hu h hn hm] at hsize
    cases hsize
  · intro hm
    have hrun : ∀ l, (AnySock.wsSock sock).mrecvl u junk n l (w ++ rest)
        = .ok (.ok 0, .wsSock sock, rest) := by
      intro l
      obtain ⟨r, hr, hself, hrest⟩ := @ws_zero u n m w rest l sock hu h hn hm
      unfold AnySock.mrecvl
      simp only [hr]
      change Except.ok (Except.ok (0 : ℤ), AnySock.wsSock r.self, r.u) = _
      rw [hself, hrest]
    constructor
    · rw [hrun, hm]
      rfl
    · intro mem k q _ hr
      rw [hrun] at hr
      cases hr
      rfl

/-- **When a message is dropped**, of any size and on any socket. -/
theorem drops_iff (hu : Reads u) (hs : Scatters u) (h : sock.Incoming m w) (hn : w.length ≤ n) :
    Drops u junk n sock m w rest ↔ sock.Droppable m.length := by
  cases sock with
  | prefixSock sock => exact drops_prefix hu h
  | suffixSock sock => exact iff_of_false (drops_suffix hu h) id
  | termOverPrefix sock under => exact drops_termOverPrefix hu hs h.2 h.1
  | termOverSuffix sock under => exact drops_termOverSuffix hu h.2 hn h.1
  | wsSock sock => exact drops_ws hu h hn

/-- Three bytes are the terminator. -/
def overPrefix : AnySock :=
  .termOverPrefix ⟨[69, 78, 68], false, false⟩ (Prefix.Params.mk 2 true (by decide)).attach

theorem drops_iff_short :
    Drops lossless (fun _ => 0) 4 overPrefix [104, 105] [0, 2, 104, 105] [7] := by
  have hin : overPrefix.Incoming [104, 105] [0, 2, 104, 105] :=
    ⟨by decide, rfl, [0, 2], rfl, rfl, rfl⟩
  refine (drops_iff reads_lossless scatters_lossless hin (by decide)).mpr ⟨by decide, .inr ?_⟩
  decide

/-- A line of one letter is not dropped. -/
theorem line_not_dropped :
    (AnySock.suffixSock Suffix.crlf.attach).Incoming [97] [97, 13, 10] ∧
      ¬ Drops lossless (fun _ => 0) 3 (.suffixSock Suffix.crlf.attach) [97] [97, 13, 10] [] := by
  refine ⟨⟨rfl, by decide, rfl⟩, fun h => ?_⟩
  have hfault : (AnySock.suffixSock Suffix.crlf.attach).mrecvl lossless (fun _ => 0) 3 []
      [97, 13, 10] = .error .fault := rfl
  have hsize := h.size
  rw [List.append_nil, hfault] at hsize
  cases hsize

end Libdill.Msock
