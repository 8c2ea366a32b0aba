import Libdill.Foundations.Answers
import Libdill.Ws.Unmask

/-!
# The close frame

`dill_ws_done` sends a status and a reason as one frame, `dill_ws_recvl_base` reads its payload into
the fields `status` and `msg` of the socket.

* `recvlBase_shut`, `recvlBase_ill`: what a close frame does to the socket that receives it, well
  formed or not.
* `close_round_trip_iff`: the status and the reason arrive exactly when the payload is one that a
  close frame can have, and the mask is the same for the reason as for the whole payload.
-/

namespace Libdill.Ws

open Foundations Libdill.Sock

/-! ## Receive calls -/

/-- A call of `dill_ws_recvl` or, if it is `typed`, of `dill_ws_mrecvl`, into `first`; of a message
of more than `n` frames the call does not see the end. -/
structure Receive where
  typed : Bool
  n : ℕ
  first : List Elem

variable {σ : Type}

/-- What the call returns, and the state it leaves. -/
def receive (u : Bsock σ) (c : Receive) (self : WsSock) (s : σ) :
    Except Stop (Except Errno ℤ × Rx σ) :=
  if c.typed then mrecvl u c.n self c.first s else recvl u c.n self c.first s

/-- A call on a socket and its stream, if it returns. -/
def Receive.step (u : Bsock σ) (p : WsSock × σ) (c : Receive) :
    Option ((WsSock × σ) × Except Errno ℤ) :=
  match receive u c p.1 p.2 with
  | .error _ => none
  | .ok (o, r) => some ((r.self, r.u), o)

theorem receive_fail {u : Bsock σ} {c : Receive} {self : WsSock} {s : σ} {e : Errno} {r : Rx σ}
    (h : recvlBase u c.n (.start self s c.first) = .ok (.error e, r)) :
    receive u c self s = .ok (.error e, r) := by
  unfold receive
  split
  · exact Call.bind_fail h
  · exact h

/-- Checking the type of a message does not change the socket or the stream. -/
theorem receive_data {u : Bsock σ} {c : Receive} {self : WsSock} {s : σ} {sz : ℤ} {r : Rx σ}
    (h : recvlBase u c.n (.start self s c.first) = .ok (.ok sz, r)) {o : Except Errno ℤ}
    {r' : Rx σ} (hr : receive u c self s = .ok (o, r')) : r' = r ∧ o ≠ .error .EPIPE := by
  unfold receive at hr
  split at hr
  · unfold mrecvl Call.andThen at hr
    rw [h] at hr
    simp only [Call.look_bind] at hr
    cases hflags : r.flags with
    | none =>
      rw [hflags] at hr
      cases hr
    | some flags =>
      rw [hflags] at hr
      simp only at hr
      cases htype : isText flags == isText self.flags with
      | true =>
        rw [htype, Call.bind_ret Call.require_true] at hr
        cases hr
        exact ⟨rfl, fun h => by cases h⟩
      | false =>
        rw [htype, Call.bind_fail Call.require_false] at hr
        cases hr
        exact ⟨rfl, fun h => by cases h⟩
  · unfold recvl at hr
    rw [h] at hr
    cases hr
    exact ⟨rfl, fun h => by cases h⟩

/-! ## Integers that are written and read back -/

theorem gets_puts (val : UInt16) : gets (puts val) = val := by
  have hlt : val.toNat < 2 ^ 16 := UInt16.toNat_lt val
  apply UInt16.toNat_inj.mp
  rw [puts_eq]
  change (gets [_, _]).toNat = _
  rw [gets_toNat]
  change ofBigEndian (bigEndian 2 val.toNat) = _
  rw [ofBigEndian_bigEndian]
  omega

@[simp] theorem getStatus_setStatus (self : WsSock) (val : UInt16) :
    (self.setStatus val).getStatus = val := by
  unfold WsSock.setStatus WsSock.getStatus
  cases self.little with
  | true =>
    simp only [if_true, List.reverse_reverse]
    exact gets_puts val
  | false => exact gets_puts val

/-! ## Receiving a close frame -/

variable {u : Bsock (List UInt8)} {rest : List UInt8} {s : Rx (List UInt8)} {f : Frame}
  {n : ℕ} {self : WsSock}

/-- The socket after the payload of a close frame has been read into it. -/
def WsSock.loaded (self : WsSock) (f : Frame) : WsSock :=
  ({ self with indone := true }).load
    ((spread (unmask f.key) f.body self.elems).1 ++ (spread (unmask f.key) f.body self.elems).2)

/-- The fields a close frame is read into have their sizes. -/
structure WsSock.Sized (sock : WsSock) : Prop where
  status : sock.status.length = 2
  msg : sock.msg.length = 128

theorem frame_close (hu : Reads u) (hf : f.Valid s.self.server) (h8 : f.opcode = 8)
    (hs : s.u = f.encode ++ rest) (hsz : s.self.Sized) (res : UInt64) :
    frame u res s = .ok (.ok (res + UInt64.ofNat f.payload.length, true),
      { s with self := s.self.loaded f, u := rest }) := by
  obtain ⟨hlen, hfin⟩ := hf.control h8
  have hcap : f.body.length ≤ capacity s.self.elems := by
    rw [Frame.length_body]
    change _ ≤ s.self.status.length + (s.self.msg.length + 0)
    rw [hsz.status, hsz.msg]
    omega
  have hpay := @payload_spec u rest f.body f.key s.self.elems hu hcap
    fun _ => ⟨fun _ => trivial, fun _ => trivial, trivial⟩
  have hopened : s.opened 8 = { s with self := { s.self with indone := true } } := rfl
  have hread : readPayload u true (f.key.map Key.bytes) f.payload.length
      { s.opened 8 with u := f.body ++ rest }
        = .ok (.ok (), { s with self := s.self.loaded f, u := rest }) := by
    rw [Frame.length_body] at hpay
    have helems : ({ s.self with indone := true } : WsSock).elems = s.self.elems := rfl
    unfold readPayload
    simp only [if_true, hopened, helems, hpay]
    rfl
  rw [frame_encode hu hf hs, h8, beq_self_eq_true, Call.bind_ret hread, hfin]
  rfl

theorem loaded_short (h : f.payload.length ≤ self.status.length) :
    self.loaded f = { self with
      indone := true
      status := unmask f.key f.body ++ self.status.drop f.payload.length } := by
  have hle : f.body.length ≤ (Elem.buf self.status).len := by
    rw [Frame.length_body]
    exact h
  unfold WsSock.loaded WsSock.elems
  rw [spread_short hle]
  simp only [Elem.put, length_unmask, Frame.length_body]
  rfl

theorem loaded_long (hlt : self.status.length < f.payload.length)
    (hle : f.payload.length ≤ self.status.length + self.msg.length) :
    self.loaded f = { self with
      indone := true
      status := unmask f.key (f.body.take self.status.length)
      msg := unmask f.key (f.body.drop self.status.length) ++
        self.msg.drop (f.payload.length - self.status.length) } := by
  have hlong : (Elem.buf self.status).len < f.body.length := by
    rw [Frame.length_body]
    exact hlt
  have hshort : (f.body.drop self.status.length).length ≤ (Elem.buf self.msg).len := by
    rw [List.length_drop, Frame.length_body]
    change _ ≤ self.msg.length
    omega
  have htake : (f.body.take self.status.length).length = self.status.length := by
    rw [List.length_take, Frame.length_body]
    omega
  have hdrop : self.status.drop self.status.length = [] := List.drop_length
  unfold WsSock.loaded WsSock.elems
  rw [spread_long hlong]
  change WsSock.load _ ((Elem.buf self.status).put (unmask f.key (f.body.take self.status.length)) ::
    (spread (unmask f.key) (f.body.drop self.status.length) [.buf self.msg]).1 ++
      (spread (unmask f.key) (f.body.drop self.status.length) [.buf self.msg]).2) = _
  rw [spread_short hshort]
  simp only [Elem.put, length_unmask, htake, hdrop, List.append_nil, List.length_drop,
    Frame.length_body]
  rfl

/-- The first two bytes of a payload are unmasked right. -/
theorem unmask_take (f : Frame) : unmask f.key (f.body.take 2) = f.payload.take 2 := by
  unfold Frame.body
  cases f.key with
  | none => rfl
  | some key =>
    change key.mask 0 ((key.mask 0 f.payload).take 2) = _
    rw [mask_take, unmask_mask]

/-- A payload with a status. -/
theorem loaded_status (hsz : self.Sized) (h2 : 2 ≤ f.payload.length) (hle : f.payload.length ≤ 125) :
    self.loaded f = { self with
      indone := true
      status := f.payload.take 2
      msg := unmask f.key (f.body.drop 2) ++ self.msg.drop (f.payload.length - 2) } := by
  have hstatus := hsz.status
  by_cases hlt : 2 < f.payload.length
  · rw [loaded_long (by omega) (by rw [hstatus, hsz.msg]; omega), hstatus, unmask_take]
  · have htwo : f.payload.length = 2 := by omega
    have hbody : f.body.take 2 = f.body :=
      List.take_of_length_le (by rw [Frame.length_body]; omega)
    have hdrop : f.body.drop 2 = [] :=
      List.drop_eq_nil_of_le (by rw [Frame.length_body]; omega)
    have hold : self.status.drop f.payload.length = [] := List.drop_eq_nil_of_le (by omega)
    have htake := unmask_take f
    rw [hbody] at htake
    rw [loaded_short (by omega), htake, hold, hdrop, unmask_nil, htwo, List.append_nil]
    rfl

/-- A key, if there is one, is the same from its third byte on as from its beginning, for `n`
bytes. -/
def Repeats (key : Option Key) (n : ℕ) : Prop :=
  ∀ k ∈ key, ∀ i < n, k.at i = k.at (2 + i)

/-- The rest of it is unmasked right when the key repeats. -/
theorem unmask_drop_iff (f : Frame) :
    unmask f.key (f.body.drop 2) = f.payload.drop 2 ↔ Repeats f.key (f.payload.length - 2) := by
  unfold Frame.body Repeats
  cases f.key with
  | none => simp
  | some key =>
    change key.mask 0 ((key.mask 0 f.payload).drop 2) = _ ↔ _
    rw [mask_drop, mask_mask_iff, List.length_drop]
    simp

/-! ## After a close frame -/

theorem frames_fail {res : UInt64} {e : Errno} {s' : Rx (List UInt8)}
    (h : frame u res s = .ok (.error e, s')) : frames u (n + 1) res s = .ok (.error e, s') := by
  rw [frames, Call.bind_fail h]

theorem recvlBase_fail {e : Errno} {s' : Rx (List UInt8)} (hopen : s.self.indone = false)
    (h : frames u n 0 s = .ok (.error e, s')) : recvlBase u n s = .ok (.error e, s') := by
  unfold recvlBase
  rw [Call.look_bind, hopen, beq_self_eq_true, Call.bind_ret Call.require_true, Call.bind_fail h]

theorem recvlBase_close {res : UInt64} {s' : Rx (List UInt8)} (hopen : s.self.indone = false)
    (h : frames u n 0 s = .ok (.ok res, s')) (hclose : s'.self.indone = true) :
    recvlBase u n s = closed res s' := by
  unfold recvlBase
  rw [Call.look_bind, hopen, beq_self_eq_true, Call.bind_ret Call.require_true, Call.bind_ret h,
    Call.look_bind, hclose]
  rfl

/-- A status that may be sent. -/
def InRange (status : UInt16) : Prop := 1000 ≤ status ∧ status ≤ 4999

instance (status : UInt16) : Decidable (InRange status) := by
  unfold InRange
  infer_instance

/-- What `closed` leaves when the payload has a status that may be sent. -/
theorem closed_status {res : UInt64} (h2 : 2 ≤ res) (hr : InRange (gets s.self.status)) :
    closed res s = .ok (.error .EPIPE, { s with
      self := { s.self.setStatus (gets s.self.status) with msglen := res.toUInt8 - 2 } }) := by
  have h1 : res ≠ 1 := by
    rintro rfl
    revert h2
    decide
  have hrange : (decide (1000 ≤ gets s.self.status) && decide (gets s.self.status ≤ 4999)) = true := by
    rw [Bool.and_eq_true, decide_eq_true_eq, decide_eq_true_eq]
    exact hr
  unfold closed
  rw [if_neg h1, if_pos h2, Call.change_bind, Call.look_bind, getStatus_setStatus, hrange,
    Call.bind_ret Call.require_true, Call.change_bind]
  rfl

/-- What `closed` does when the status is not one that may be sent. -/
theorem closed_refused {res : UInt64} (h2 : 2 ≤ res) (hr : ¬ InRange (gets s.self.status)) :
    closed res s = .ok (.error .EPROTO, { s with
      self := s.self.setStatus (gets s.self.status) }) := by
  have h1 : res ≠ 1 := by
    rintro rfl
    revert h2
    decide
  have hrange : (decide (1000 ≤ gets s.self.status) && decide (gets s.self.status ≤ 4999))
      = false := by
    rw [Bool.eq_false_iff]
    intro h
    rw [Bool.and_eq_true, decide_eq_true_eq, decide_eq_true_eq] at h
    exact hr h
  unfold closed
  rw [if_neg h1, if_pos h2, Call.change_bind, Call.look_bind, getStatus_setStatus, hrange,
    Call.bind_fail Call.require_false]

theorem two_le_ofNat {m : ℕ} (hm : m < 2 ^ 64) : 2 ≤ UInt64.ofNat m ↔ 2 ≤ m := by
  rw [UInt64.le_iff_toNat_le, UInt64.toNat_ofNat', Nat.mod_eq_of_lt hm]
  rfl

/-- The length of the reason is computed from the size of the whole payload, in eight bits. -/
theorem toUInt8_sub {res : UInt64} {m : ℕ} (hm : 2 ≤ m) (hle : m ≤ 125)
    (hres : res.toNat % 256 = m) : res.toUInt8 - 2 = UInt8.ofNat (m - 2) := by
  apply UInt8.toNat_inj.mp
  rw [UInt8.toNat_sub, UInt64.toNat_toUInt8, UInt8.toNat_ofNat']
  change (2 ^ 8 - 2 + res.toNat % 2 ^ 8) % 2 ^ 8 = _
  omega

/-- In no case is the length of the reason set when the payload is not one of a close frame. -/
theorem closed_ill {m : ℕ} (hm : m ≠ 0) (hle : m ≤ 125)
    (hr : 2 ≤ m → ¬ InRange (gets s.self.status)) :
    ∃ s', closed (UInt64.ofNat m) s = .ok (.error .EPROTO, s') ∧
      s'.self.indone = s.self.indone ∧ s'.self.msglen = s.self.msglen := by
  by_cases h1 : m = 1
  · rw [h1]
    exact ⟨s, rfl, rfl, rfl⟩
  · have h2 : 2 ≤ m := by omega
    exact ⟨_, closed_refused ((two_le_ofNat (by omega)).mpr h2) (hr h2), rfl, rfl⟩

/-- A close frame as the protocol defines it. -/
structure Frame.WellFormed (f : Frame) : Prop where
  opcode : f.opcode = 8
  fin : f.fin = true
  length_le : f.payload.length ≤ 125
  status : f.payload = [] ∨ (2 ≤ f.payload.length ∧ InRange (gets (f.payload.take 2)))

theorem Frame.WellFormed.control (h : f.WellFormed) : f.Control := fun _ => ⟨h.length_le, h.fin⟩

theorem Frame.WellFormed.valid (h : f.WellFormed) : f.Valid f.key.isSome where
  opcode := .inr (.inr (.inr h.opcode))
  role := rfl
  control := h.control

/-- The status in a close frame, 0 if there is none. -/
def Frame.status (f : Frame) : UInt16 := if f.payload = [] then 0 else gets (f.payload.take 2)

/-- The reason in a close frame. -/
def Frame.reason (f : Frame) : List UInt8 := f.payload.drop 2

/-- The socket after a close frame. -/
def WsSock.shut (self : WsSock) (f : Frame) : WsSock :=
  if f.payload = [] then { self with indone := true, msglen := 0 }
  else { (self.loaded f).setStatus (gets (f.payload.take 2)) with
    msglen := UInt8.ofNat (f.payload.length - 2) }

/-- **A close frame is received.** -/
theorem recvlBase_shut (hu : Reads u) (hf : f.WellFormed) (hs : s.u = f.encode ++ rest)
    (hrole : s.self.server = f.key.isSome) (hopen : s.self.indone = false) (hsz : s.self.Sized) :
    recvlBase u (n + 1) s = .ok (.error .EPIPE, { s with self := s.self.shut f, u := rest }) := by
  have hvalid : f.Valid s.self.server := by
    rw [hrole]
    exact hf.valid
  have hframe := frame_close hu hvalid hf.opcode hs hsz 0
  have hindone : (s.self.loaded f).indone = true := by
    unfold WsSock.loaded WsSock.load
    split <;> rfl
  rw [recvlBase_close hopen (frames_last hframe) hindone, UInt64.zero_add]
  unfold WsSock.shut
  rcases hf.status with hnil | ⟨h2, hr⟩
  · have hzero : f.payload.length ≤ s.self.status.length := by
      rw [hnil]
      exact Nat.zero_le _
    have hbody : f.body = [] := List.length_eq_zero_iff.mp (by rw [Frame.length_body, hnil]; rfl)
    rw [if_pos hnil, loaded_short hzero, hnil, hbody, unmask_nil]
    rfl
  · have hne : f.payload ≠ [] := by
      intro h
      rw [h] at h2
      cases h2
    have hstatus : (s.self.loaded f).status = f.payload.take 2 := by
      rw [loaded_status hsz h2 hf.length_le]
    have hle := hf.length_le
    have hmod : (UInt64.ofNat f.payload.length).toNat % 256 = f.payload.length := by
      rw [UInt64.toNat_ofNat']
      omega
    rw [if_neg hne, closed_status ((two_le_ofNat (by omega)).mpr h2) (by rw [hstatus]; exact hr),
      toUInt8_sub h2 hle hmod, hstatus]

/-- A close frame that is not as the protocol defines it: the socket is closed all the same. -/
theorem recvlBase_ill (hu : Reads u) (hf : f.Known s.self.server) (h8 : f.opcode = 8)
    (hill : ¬ f.WellFormed) (hs : s.u = f.encode ++ rest) (hopen : s.self.indone = false)
    (hsz : s.self.Sized) :
    ∃ s', recvlBase u (n + 1) s = .ok (.error .EPROTO, s') ∧
      s'.self.indone = true ∧ s'.self.msglen = s.self.msglen := by
  by_cases hctl : f.Control
  · have hframe := frame_close hu ⟨hf, hctl⟩ h8 hs hsz 0
    obtain ⟨hle, hfin⟩ := hctl h8
    have hindone : (s.self.loaded f).indone = true := by
      unfold WsSock.loaded WsSock.load
      split <;> rfl
    have hmsglen : (s.self.loaded f).msglen = s.self.msglen := by
      unfold WsSock.loaded WsSock.load
      split <;> rfl
    have hne : f.payload.length ≠ 0 := fun h =>
      hill ⟨h8, hfin, hle, .inl (List.length_eq_zero_iff.mp h)⟩
    have hrange : 2 ≤ f.payload.length → ¬ InRange (gets (s.self.loaded f).status) := by
      intro h2 hr
      rw [loaded_status hsz h2 hle] at hr
      exact hill ⟨h8, hfin, hle, .inr ⟨h2, hr⟩⟩
    obtain ⟨s', hclosed, hin, hlen⟩ := @closed_ill
      { s with self := s.self.loaded f, u := rest } _ hne hle hrange
    refine ⟨s', ?_, hin.trans hindone, hlen.trans hmsglen⟩
    rw [recvlBase_close hopen (frames_last hframe) hindone, UInt64.zero_add, hclosed]
  · have hframe := frame_refused hu hf hctl hs 0
    refine ⟨_, recvlBase_fail hopen (frames_fail hframe), ?_, ?_⟩
    · rw [h8]
      rfl
    · rw [h8]
      rfl

/-- A buffer a reason of `n` bytes can be copied to, or none. -/
def Room (n : ℕ) (buf : Elem) : Prop := buf = .null 0 ∨ (buf.IsBuf ∧ n ≤ buf.len)

theorem report_room {buf : Elem} (hin : self.indone = true) (hsz : self.msg.length = 128)
    (hlen : self.msglen.toNat ≤ 128) (hroom : Room self.msglen.toNat buf) :
    self.report buf = .ok (.ok (self.msglen, self.getStatus,
      buf.put (self.msg.take self.msglen.toNat))) := by
  unfold WsSock.report
  rw [hin]
  rcases hroom with rfl | ⟨hbuf, hle⟩
  · rfl
  · have hshort : ¬ buf.len < self.msglen.toNat := by omega
    have hover : ¬ self.msg.length < self.msglen.toNat := by omega
    rw [if_neg (fun h => h.1 hbuf), if_pos hbuf, if_neg hshort, if_neg hover]
    rfl

theorem report_null (hin : self.indone = true) :
    self.report (.null 0) = .ok (.ok (self.msglen, self.getStatus, .null 0)) := by
  unfold WsSock.report
  rw [hin]
  rfl

theorem shut_status (hf : f.WellFormed) (hne : f.payload ≠ []) (hsz : self.Sized) :
    (self.shut f).indone = true ∧ (self.shut f).getStatus = gets (f.payload.take 2) ∧
      (self.shut f).msglen.toNat = f.payload.length - 2 ∧
      (self.shut f).msg = unmask f.key (f.body.drop 2) ++ self.msg.drop (f.payload.length - 2) := by
  have hle := hf.length_le
  have h2 : 2 ≤ f.payload.length := by
    rcases hf.status with hnil | ⟨h2, -⟩
    · exact absurd hnil hne
    · exact h2
  have hloaded := loaded_status hsz h2 hle
  unfold WsSock.shut
  rw [if_neg hne]
  refine ⟨?_, getStatus_setStatus _ _, ?_, ?_⟩
  · rw [hloaded]
    rfl
  · change (UInt8.ofNat (f.payload.length - 2)).toNat = _
    rw [UInt8.toNat_ofNat']
    omega
  · rw [hloaded]
    rfl

/-! ## The two sides -/

/-- A reason for closing. No buffer has 2 ^ 63 bytes. -/
structure Reason where
  buf : Elem
  size_lt : buf.bytes.length + 2 < 2 ^ 63

/-- What is sent as the payload of a close frame. -/
def closePayload (status : ℤ) (reason : List UInt8) : List UInt8 :=
  (if status = 0 then [] else puts (UInt16.ofInt status)) ++ reason

theorem length_closePayload (status : ℤ) (reason : List UInt8) :
    (closePayload status reason).length = (if status = 0 then 0 else 2) + reason.length := by
  unfold closePayload
  rw [List.length_append]
  split <;> rfl

theorem Reason.payload_lt (r : Reason) (status : ℤ) :
    (closePayload status r.buf.bytes).length < 2 ^ 63 := by
  have hlt := r.size_lt
  rw [length_closePayload]
  split <;> omega

/-- The close frame of a sender. -/
def Reason.frame (r : Reason) (server : Bool) (key : Key) (status : ℤ) : Frame :=
  Frame.whole 8 (if server then none else some key) (closePayload status r.buf.bytes)
    (r.payload_lt status)

variable {sender sender' receiver : WsSock} {status : ℤ} {r : Reason} {key : Key}
  {wire close : List UInt8}

theorem frame_congr {type : UInt8} {key : Option Key} {m m' : List UInt8} (h : m = m')
    (hm : m.length < 2 ^ 63) (hm' : m'.length < 2 ^ 63) :
    Frame.whole type key m hm = Frame.whole type key m' hm' := by
  subst h
  rfl

/-- The frame that is sent, if the call returns. -/
theorem sendlBase_reason (hopen : sender.outdone = false) {o : Except Errno Unit}
    {wire' : List UInt8}
    (h : sendlBase lossless sender 0x8
      [if status = 0 then [] else puts (UInt16.ofInt status), r.buf.bytes] (.ok key.bytes) wire
        = .ok (o, wire')) :
    wire' = wire ++ (r.frame sender.server key status).encode := by
  have hflat : [if status = 0 then [] else puts (UInt16.ofInt status), r.buf.bytes].flatten
      = closePayload status r.buf.bytes := by
    simp [closePayload]
  have hlt := r.payload_lt status
  cases hserver : sender.server with
  | true =>
    have hsend := sendlBase_server hserver hopen 0x8 (List.cons_ne_nil
      (if status = 0 then [] else puts (UInt16.ofInt status)) [r.buf.bytes])
      (by rw [hflat]; exact hlt) (.ok key.bytes) wire
    rw [hsend, frame_congr hflat _ hlt] at h
    cases h
    rfl
  | false =>
    by_cases hsmall : (closePayload status r.buf.bytes).length < 2 ^ 16
    · have hsend := @sendlBase_client sender _ key hserver hopen 0x8
        (by rw [hflat]; exact hsmall) wire
      rw [hsend, frame_congr hflat _ hlt] at h
      cases h
      rfl
    · have hbig : Prefix.iolSize [if status = 0 then [] else puts (UInt16.ofInt status),
          r.buf.bytes] > 0xffff := by
        rw [Prefix.iolSize_eq, hflat, show (0xffff : UInt64) = UInt64.ofNat 65535 by rfl,
          gt_ofNat (by omega) (by omega)]
        omega
      rw [sendlBase_overflow hserver hopen 0x8 hbig] at h
      cases h

/-- What a successful `dill_ws_done` has sent. -/
theorem done_sends
    (h : done lossless status r.buf (.ok key.bytes) (sender, wire)
      = .ok (.ok (), sender', wire ++ close)) :
    (status = 0 ∨ (1000 ≤ status ∧ status ≤ 4999)) ∧
      close = (r.frame sender.server key status).encode := by
  unfold done at h
  simp only at h
  by_cases hbad : (status ≠ 0 ∧ (status < 1000 ∨ status > 4999)) ∨ (¬ r.buf.IsBuf ∧ r.buf.len > 0)
  · rw [if_pos hbad] at h
    cases h
  · have hstatus : status = 0 ∨ (1000 ≤ status ∧ status ≤ 4999) := by omega
    rw [if_neg hbad] at h
    cases hopen : sender.outdone with
    | true =>
      rw [hopen, if_pos rfl] at h
      cases h
    | false =>
      rw [hopen, if_neg Bool.false_ne_true] at h
      split at h
      · cases h
      · cases h
      · rename_i hsend
        have hwire := sendlBase_reason hopen hsend
        cases h
        exact ⟨hstatus, List.append_cancel_left hwire⟩

/-! ## A run of receive calls -/

/-- The call receives the message in the frame `f`: there is room for it, and none of it has to be
unmasked where there is no buffer. -/
structure Takes (sock : WsSock) (f : Frame) (c : Receive) : Prop where
  single : f.Single
  role : sock.server = f.key.isSome
  room : f.payload.length ≤ capacity c.first
  stored : f.key.isSome → Stored f.payload.length c.first

variable {p p' : WsSock × List UInt8} {c : Receive} {cs cs' : List Receive}
  {o : Except Errno ℤ} {outs : List (Except Errno ℤ)}

theorem step_eq_some (h : c.step u p = some (p', o)) :
    ∃ r, receive u c p.1 p.2 = .ok (o, r) ∧ p' = (r.self, r.u) := by
  unfold Receive.step at h
  split at h
  · cases h
  · rename_i hr
    cases h
    exact ⟨_, hr, rfl⟩

theorem step_fail {e : Errno} {s' : Rx (List UInt8)}
    (h : recvlBase u c.n (.start p.1 p.2 c.first) = .ok (.error e, s')) :
    c.step u p = some ((s'.self, s'.u), .error e) := by
  unfold Receive.step
  rw [receive_fail h]

/-- A call that sees no frame does not return. -/
theorem frames_pos (hopen : p.1.indone = false) (h : c.step u p = some (p', o)) :
    ∃ n, c.n = n + 1 := by
  obtain ⟨r, hr, -⟩ := step_eq_some h
  cases hn : c.n with
  | zero =>
    have hstop : recvlBase u c.n (.start p.1 p.2 c.first) = .error .waits := by
      rw [hn]
      exact recvlBase_stop hopen rfl
    unfold receive mrecvl recvl Call.andThen at hr
    rw [hstop] at hr
    split at hr <;> cases hr
  | succ n => exact ⟨n, rfl⟩

theorem step_closed (h : p.1.indone = true) : c.step u p = some (p, .error .EPIPE) :=
  step_fail (recvlBase_closed h)

theorem answers_closed (h : p.1.indone = true) (hr : answers (Receive.step u) p cs = some (p', outs)) :
    p' = p := by
  induction cs generalizing outs with
  | nil =>
    cases hr
    rfl
  | cons c cs ih =>
    obtain ⟨p₁, o, outs₁, hc, hcs, -⟩ := answers_cons_eq_some hr
    rw [step_closed h] at hc
    cases hc
    exact ih hcs

/-- A call that receives a message leaves the socket as it is. -/
theorem step_message (ht : Takes self f c) (hopen : self.indone = false)
    (h : c.step lossless (self, f.encode ++ rest) = some (p', o)) :
    p' = (self, rest) ∧ o ≠ .error .EPIPE := by
  obtain ⟨n, hn⟩ := frames_pos hopen h
  obtain ⟨r, hr, rfl⟩ := step_eq_some h
  have hdata := recvl_single reads_lossless ht.single ht.role hopen ht.room ht.stored n rest
  rw [← hn] at hdata
  obtain ⟨rfl, hne⟩ := receive_data hdata hr
  exact ⟨rfl, hne⟩

theorem answers_messages {ms : List Frame} (h : List.Forall₂ (Takes self) ms cs)
    (hopen : self.indone = false)
    (hr : answers (Receive.step lossless) (self, ms.flatMap Frame.encode ++ rest) (cs ++ cs')
      = some (p', outs)) :
    ∃ outs₁ outs₂, outs = outs₁ ++ outs₂ ∧ (∀ o ∈ outs₁, o ≠ .error .EPIPE) ∧
      answers (Receive.step lossless) (self, rest) cs' = some (p', outs₂) := by
  induction h generalizing outs with
  | nil => exact ⟨[], outs, rfl, by simp, hr⟩
  | @cons f c ms cs ht _ ih =>
    obtain ⟨p₁, o, outs', hc, hcs, rfl⟩ := answers_cons_eq_some hr
    rw [List.flatMap_cons, List.append_assoc] at hc
    obtain ⟨rfl, hne⟩ := step_message ht hopen hc
    obtain ⟨outs₁, outs₂, rfl, hall, hrun⟩ := ih hcs
    exact ⟨o :: outs₁, outs₂, rfl, List.forall_mem_cons.mpr ⟨hne, hall⟩, hrun⟩

/-! ## Round trip -/

/-- A socket that has not received a close frame. -/
structure WsSock.Fresh (sock : WsSock) : Prop extends sock.Sized where
  receiving : sock.indone = false
  noReason : sock.msglen = 0
  noStatus : sock.status = [0, 0]

/-- `dill_ws_status` returns the status and the reason. -/
def Returns (sock : WsSock) (status : ℤ) (reason : List UInt8) : Prop :=
  ∀ buf, Room reason.length buf → ∃ len st,
    sock.report buf = .ok (.ok (len, st, buf.put reason)) ∧ len.toNat = reason.length ∧
      (st.toNat : ℤ) = status

/-- The status and the reason arrive. -/
structure Reports (sock : WsSock) (close : List UInt8) (status : ℤ) (reason : List UInt8) :
    Prop where
  /-- Receiving comes to an end. -/
  ends : ∀ rest, ∃ cs p outs,
    answers (Receive.step lossless) (sock, close ++ rest) cs = some (p, outs ++ [.error .EPIPE])
  /-- When the messages before the close frame have been received and a receive function has returned
  `EPIPE`, `dill_ws_status` returns the status and the reason. -/
  reports : ∀ ms cs cs' rest p outs, List.Forall₂ (Takes sock) ms cs →
    answers (Receive.step lossless) (sock, ms.flatMap Frame.encode ++ (close ++ rest)) (cs ++ cs')
      = some (p, outs ++ [.error .EPIPE]) →
    Returns p.1 status reason

/-- The payload of a close frame with this status and a reason of `n` bytes is one the protocol
allows. -/
def Sendable (status : ℤ) (n : ℕ) : Prop := (status ≠ 0 ∧ n ≤ 123) ∨ (status = 0 ∧ n = 0)

instance (status : ℤ) (n : ℕ) : Decidable (Sendable status n) := by
  unfold Sendable
  infer_instance

instance (key : Option Key) (n : ℕ) : Decidable (Repeats key n) :=
  match key with
  | none => .isTrue fun _ h => by cases h
  | some k => decidable_of_iff (∀ i < n, k.at i = k.at (2 + i)) (by simp [Repeats])

theorem take_closePayload (hne : status ≠ 0) (reason : List UInt8) :
    (closePayload status reason).take 2 = puts (UInt16.ofInt status) ∧
      (closePayload status reason).drop 2 = reason := by
  unfold closePayload
  rw [if_neg hne]
  exact ⟨rfl, rfl⟩

theorem ofInt_toNat (h : 1000 ≤ status ∧ status ≤ 4999) :
    ((UInt16.ofInt status).toNat : ℤ) = status := by
  unfold UInt16.ofInt
  rw [UInt16.toNat_ofNat']
  omega

theorem inRange_iff (h : 1000 ≤ status ∧ status ≤ 4999) : InRange (UInt16.ofInt status) := by
  have hval := ofInt_toNat h
  unfold InRange
  rw [UInt16.le_iff_toNat_le, UInt16.le_iff_toNat_le]
  change 1000 ≤ _ ∧ _ ≤ 4999
  omega

theorem sendable_zero (status : ℤ) : Sendable status 0 := by
  unfold Sendable
  omega

/-- The payload is short enough and nothing of the reason is taken for a status. -/
theorem sendable_iff (status : ℤ) (reason : List UInt8) :
    Sendable status reason.length ↔
      (closePayload status reason).length ≤ 125 ∧
        reason.length = (closePayload status reason).length - 2 := by
  rw [length_closePayload]
  unfold Sendable
  by_cases h0 : status = 0
  · rw [if_pos h0]
    omega
  · rw [if_neg h0]
    omega

theorem drop_closePayload {reason : List UInt8} (h : Sendable status reason.length) :
    (closePayload status reason).drop 2 = reason := by
  by_cases h0 : status = 0
  · have hlen : reason.length = 0 := by
      unfold Sendable at h
      omega
    obtain rfl := List.length_eq_zero_iff.mp hlen
    unfold closePayload
    rw [if_pos h0]
    rfl
  · exact (take_closePayload h0 reason).2

theorem sendable_wellFormed (hstatus : status = 0 ∨ (1000 ≤ status ∧ status ≤ 4999))
    (h : Sendable status r.buf.bytes.length) (server : Bool) (key : Key) :
    (r.frame server key status).WellFormed := by
  have hlen := length_closePayload status r.buf.bytes
  refine ⟨rfl, rfl, ((sendable_iff _ _).mp h).1, ?_⟩
  change closePayload status r.buf.bytes = [] ∨ (2 ≤ (closePayload status r.buf.bytes).length ∧
    InRange (gets ((closePayload status r.buf.bytes).take 2)))
  rcases h with ⟨hne, hle⟩ | ⟨h0, hle⟩
  · right
    rw [(take_closePayload hne _).1, gets_puts]
    rw [if_neg hne] at hlen
    exact ⟨by omega, inRange_iff (by omega)⟩
  · left
    rw [if_pos h0] at hlen
    exact List.length_eq_zero_iff.mp (by omega)

/-- The status of a close frame is the one it has been sent with. -/
theorem status_closePayload {reason : List UInt8} (hpay : f.payload = closePayload status reason)
    (hstatus : status = 0 ∨ (1000 ≤ status ∧ status ≤ 4999)) (h : Sendable status reason.length) :
    (f.status.toNat : ℤ) = status := by
  have hlen := length_closePayload status reason
  rw [← hpay] at hlen
  unfold Frame.status
  rcases h with ⟨hne, -⟩ | ⟨h0, hle⟩
  · rw [if_neg hne] at hlen
    have hfull : f.payload ≠ [] := by
      apply List.ne_nil_of_length_pos
      omega
    rw [if_neg hfull, hpay, (take_closePayload hne _).1, gets_puts]
    exact ofInt_toNat (by omega)
  · rw [if_pos h0] at hlen
    rw [if_pos (List.length_eq_zero_iff.mp (by omega)), h0]
    rfl

/-- The reason is stored as it has been sent if the key repeats. -/
theorem unmask_reason_iff {reason : List UInt8} (hpay : f.payload = closePayload status reason)
    (h : Sendable status reason.length) :
    unmask f.key (f.body.drop 2) = reason ↔ Repeats f.key reason.length := by
  have hdrop := unmask_drop_iff f
  rwa [hpay, drop_closePayload h, ← ((sendable_iff _ _).mp h).2] at hdrop

/-- What `dill_ws_status` returns after a close frame. -/
theorem report_shut (hf : f.WellFormed) (hfresh : self.Fresh) {buf : Elem}
    (hroom : Room (f.payload.length - 2) buf) :
    ∃ len st, (self.shut f).report buf
        = .ok (.ok (len, st, buf.put (unmask f.key (f.body.drop 2)))) ∧
      len.toNat = f.payload.length - 2 ∧ st = f.status := by
  have hle := hf.length_le
  by_cases hnil : f.payload = []
  · have hshut : self.shut f = { self with indone := true, msglen := 0 } := if_pos hnil
    have hzero : f.payload.length - 2 = 0 := by
      rw [hnil]
      rfl
    have hdrop : f.body.drop 2 = [] :=
      List.drop_eq_nil_of_le (by rw [Frame.length_body, hnil]; exact Nat.zero_le _)
    have hst : (self.shut f).getStatus = 0 := by
      rw [hshut]
      unfold WsSock.getStatus
      change gets (if self.little then self.status.reverse else self.status) = 0
      rw [hfresh.noStatus]
      cases self.little <;> rfl
    rw [hzero] at hroom
    have hrep := @report_room (self.shut f) buf (by rw [hshut]) (by rw [hshut]; exact hfresh.msg)
      (by rw [hshut]; exact Nat.zero_le _) (by rw [hshut]; exact hroom)
    have hlen : (self.shut f).msglen = 0 := by rw [hshut]
    rw [hlen, hst] at hrep
    refine ⟨0, 0, ?_, by rw [hzero]; rfl, by rw [Frame.status, if_pos hnil]⟩
    rw [hrep, hdrop, unmask_nil]
    rfl
  · obtain ⟨hin, hst, hlen, hmsg⟩ := shut_status hf hnil hfresh.toSized
    have hbody : (unmask f.key (f.body.drop 2)).length = f.payload.length - 2 := by
      rw [length_unmask, List.length_drop, Frame.length_body]
    have hall : (self.shut f).msg.length = 128 := by
      rw [hmsg, List.length_append, hbody, List.length_drop, hfresh.msg]
      omega
    have hrep := @report_room (self.shut f) buf hin hall (by omega) (by rw [hlen]; exact hroom)
    rw [hlen, hmsg, List.take_left' hbody, hst] at hrep
    exact ⟨_, _, hrep, hlen, by rw [Frame.status, if_neg hnil]⟩

theorem returns_shut_iff (hf : f.WellFormed) (hfresh : self.Fresh) {reason : List UInt8} :
    Returns (self.shut f) status reason ↔
      reason.length = f.payload.length - 2 ∧ unmask f.key (f.body.drop 2) = reason ∧
        (f.status.toNat : ℤ) = status := by
  have hbody : (unmask f.key (f.body.drop 2)).length = f.payload.length - 2 := by
    rw [length_unmask, List.length_drop, Frame.length_body]
  constructor
  · intro h
    obtain ⟨len, st, hrep, hlen, hst⟩ := h (.null 0) (.inl rfl)
    obtain ⟨len', st', hrep', hlen', hst'⟩ := report_shut hf hfresh (.inl rfl)
    rw [hrep'] at hrep
    cases hrep
    have hsize : reason.length = f.payload.length - 2 := by omega
    have hroom : Room reason.length (.buf (List.replicate reason.length 0)) :=
      .inr ⟨trivial, by rw [Elem.len, List.length_replicate]⟩
    obtain ⟨len₂, st₂, hrep₂, -, -⟩ := h _ hroom
    obtain ⟨len₃, st₃, hrep₃, -, -⟩ := report_shut hf hfresh (by rw [← hsize]; exact hroom)
    rw [hrep₃] at hrep₂
    injection hrep₂ with hok
    injection hok with hval
    have hput := (Prod.mk.inj (Prod.mk.inj hval).2).2
    refine ⟨hsize, ?_, by rw [← hst']; exact hst⟩
    exact (List.append_inj (Elem.buf.inj hput) (by rw [hbody, hsize])).1
  · rintro ⟨hsize, hreason, hst⟩ buf hroom
    rw [hsize] at hroom
    obtain ⟨len, st, hrep, hlen, hst'⟩ := report_shut hf hfresh hroom
    rw [hreason] at hrep
    exact ⟨len, st, hrep, by omega, by rw [hst']; exact hst⟩

/-- After a well-formed close frame every receive function returns `EPIPE`. -/
theorem reports_wellFormed (hf : f.WellFormed) (hrole : self.server = f.key.isSome)
    (hfresh : self.Fresh) {reason : List UInt8} :
    Reports self f.encode status reason ↔ Returns (self.shut f) status reason := by
  have hstep : ∀ c n rest, c.n = n + 1 →
      Receive.step lossless (self, f.encode ++ rest) c
        = some ((self.shut f, rest), .error .EPIPE) := by
    intro c n rest hn
    have hshut := recvlBase_shut (s := .start self (f.encode ++ rest) c.first) (n := n)
      reads_lossless hf rfl hrole hfresh.receiving hfresh.toSized
    rw [← hn] at hshut
    exact step_fail (p := (self, f.encode ++ rest)) hshut
  have hin : (self.shut f).indone = true := by
    unfold WsSock.shut
    split
    · rfl
    · unfold WsSock.setStatus WsSock.loaded WsSock.load
      split <;> rfl
  constructor
  · intro h
    have hrun : answers (Receive.step lossless) (self, f.encode ++ []) [⟨false, 1, []⟩]
        = some ((self.shut f, []), [.error .EPIPE]) :=
      answers_cons (hstep ⟨false, 1, []⟩ 0 [] rfl) rfl
    exact h.reports [] [] [⟨false, 1, []⟩] [] (self.shut f, []) [] .nil hrun
  · intro h
    constructor
    · intro rest
      exact ⟨[⟨false, 1, []⟩], _, [], answers_cons (hstep ⟨false, 1, []⟩ 0 rest rfl) rfl⟩
    · intro ms cs cs' rest p outs hms hrun
      obtain ⟨outs₁, outs₂, houts, hall, hrun⟩ := answers_messages hms hfresh.receiving hrun
      cases cs' with
      | nil =>
        cases hrun
        rw [List.append_nil] at houts
        exact absurd rfl (hall (.error .EPIPE) (by rw [← houts]; simp))
      | cons c cs' =>
        obtain ⟨p₁, o, outs', hc, hcs, -⟩ := answers_cons_eq_some hrun
        obtain ⟨n, hn⟩ := frames_pos hfresh.receiving hc
        rw [hstep c n rest hn] at hc
        cases hc
        rw [answers_closed hin hcs]
        exact h

/-- After a close frame that is refused no reason is returned. -/
theorem reports_ill (hf : f.Known self.server) (h8 : f.opcode = 8) (hill : ¬ f.WellFormed)
    (hfresh : self.Fresh) {reason : List UInt8} (h : Reports self f.encode status reason) :
    reason = [] := by
  obtain ⟨s', hbase, hin, hlen⟩ := recvlBase_ill (s := .start self (f.encode ++ []) []) (n := 0)
    reads_lossless hf h8 hill rfl hfresh.receiving hfresh.toSized
  have hfirst : Receive.step lossless (self, f.encode ++ []) ⟨false, 1, []⟩
      = some ((s'.self, s'.u), .error .EPROTO) := step_fail hbase
  have hsecond : Receive.step lossless (s'.self, s'.u) ⟨false, 1, []⟩
      = some ((s'.self, s'.u), .error .EPIPE) := step_closed hin
  have hend : answers (Receive.step lossless) (s'.self, s'.u) [] = some ((s'.self, s'.u), []) := rfl
  have hrun := answers_cons hfirst (answers_cons hsecond hend)
  obtain ⟨len, st, hrep, hreason, -⟩ :=
    h.reports [] [] [⟨false, 1, []⟩, ⟨false, 1, []⟩] [] _ [.error .EPROTO] .nil hrun (.null 0)
      (.inl rfl)
  rw [report_null hin] at hrep
  cases hrep
  have hzero : s'.self.msglen.toNat = 0 := by
    rw [hlen]
    change self.msglen.toNat = 0
    rw [hfresh.noReason]
    rfl
  exact List.length_eq_zero_iff.mp (by omega)

/-- **The status and the reason of `dill_ws_done`.** They arrive exactly when the payload is one the
protocol allows and, if the sender is a client, the key is the same from its third byte on as from
its beginning, as far as the reason goes. -/
theorem close_round_trip_iff (sender sender' receiver : WsSock)
    (hrole : receiver.server = !sender.server) (hfresh : receiver.Fresh) (status : ℤ) (r : Reason)
    (key : Key) (wire close : List UInt8)
    (hdone : done lossless status r.buf (.ok key.bytes) (sender, wire)
      = .ok (.ok (), sender', wire ++ close)) :
    Reports receiver close status r.buf.bytes ↔
      Sendable status r.buf.bytes.length ∧
        Repeats (if sender.server then none else some key) r.buf.bytes.length := by
  obtain ⟨hstatus, rfl⟩ := done_sends hdone
  have hwf := fun h => @sendable_wellFormed status r hstatus h sender.server key
  have hkey : (r.frame sender.server key status).key = if sender.server then none else some key :=
    rfl
  have hpay : (r.frame sender.server key status).payload = closePayload status r.buf.bytes := rfl
  have hopcode : (r.frame sender.server key status).opcode = 8 := rfl
  generalize r.frame sender.server key status = f at hwf hkey hpay hopcode
  have hknown : receiver.server = f.key.isSome := by
    rw [hrole, hkey]
    cases sender.server <;> rfl
  rw [← hkey]
  constructor
  · intro h
    by_cases hf : f.WellFormed
    · obtain ⟨hlen, hmsg, -⟩ :=
        (returns_shut_iff hf hfresh).mp ((reports_wellFormed hf hknown hfresh).mp h)
      have hle := hf.length_le
      rw [hpay] at hlen hle
      have hsend := (sendable_iff status r.buf.bytes).mpr ⟨hle, hlen⟩
      exact ⟨hsend, (unmask_reason_iff hpay hsend).mp hmsg⟩
    · -- A close frame that is refused leaves no reason, and one without a reason is well-formed.
      have hnil := reports_ill ⟨.inr (.inr (.inr hopcode)), hknown.symm⟩ hopcode hf hfresh h
      have hsend : Sendable status r.buf.bytes.length := by
        rw [hnil]
        exact sendable_zero status
      exact absurd (hwf hsend) hf
  · rintro ⟨hsend, hrep⟩
    have hf := hwf hsend
    apply (reports_wellFormed hf hknown hfresh).mpr
    apply (returns_shut_iff hf hfresh).mpr
    rw [hpay]
    exact ⟨((sendable_iff _ _).mp hsend).2, (unmask_reason_iff hpay hsend).mpr hrep,
      status_closePayload hpay hstatus hsend⟩

/-- A server closes with status 1000 and a reason of two bytes. -/
theorem close_round_trip_server :
    Reports (WsSock.attach false true 0 (List.replicate 128 0)) [136, 4, 3, 232, 79, 75] 1000
      [79, 75] :=
  (close_round_trip_iff (WsSock.attach true true 0 (List.replicate 128 0)) _ _ rfl
    ⟨⟨rfl, rfl⟩, rfl, rfl, rfl⟩ 1000 ⟨.buf [79, 75], by decide⟩ ⟨[1, 2, 3, 4], rfl⟩ [] _
    rfl).mpr (by decide)

/-- A client closes with status 1000 and the reason "OK". The server is told that it was "MM". -/
theorem close_reason_garbled :
    let client := WsSock.attach false true 0 (List.replicate 128 0)
    let server := WsSock.attach true true 0 (List.replicate 128 0)
    let close : List UInt8 := [136, 132, 1, 2, 3, 4, 2, 234, 76, 79]
    done lossless 1000 (.buf [79, 75]) (.ok [1, 2, 3, 4]) (client, [])
        = .ok (.ok (), { client with outdone := true }, close) ∧
      (∃ p, answers (Receive.step lossless) (server, close) [⟨false, 1, []⟩]
          = some (p, [.error .EPIPE]) ∧
        p.1.report (.buf [0, 0]) = .ok (.ok (2, 1000, .buf [77, 77]))) ∧
      ¬ Reports server close 1000 [79, 75] := by
  intro client server close
  let f : Frame := ⟨true, 8, some ⟨[1, 2, 3, 4], rfl⟩, .short, [3, 232, 79, 75], by decide⟩
  have hf : f.WellFormed := ⟨rfl, rfl, by decide, .inr ⟨by decide, by decide⟩⟩
  have hclose : close = f.encode ++ [] := by decide
  have hfresh : server.Fresh := ⟨⟨rfl, List.length_replicate⟩, rfl, rfl, rfl⟩
  have hbase := recvlBase_shut (s := .start server (f.encode ++ []) []) (n := 0) reads_lossless hf
    rfl rfl rfl hfresh.toSized
  have hrun : answers (Receive.step lossless) (server, close) [⟨false, 1, []⟩]
      = some ((server.shut f, []), [.error .EPIPE]) := by
    rw [hclose]
    exact answers_cons (@step_fail lossless (server, f.encode ++ []) ⟨false, 1, []⟩ _ _ hbase) rfl
  have hroom : Room 2 (.buf [0, 0]) := .inr ⟨trivial, by decide⟩
  obtain ⟨len, st, hrep, hlen, hst⟩ := report_shut hf hfresh hroom
  have hlen2 : len = 2 := UInt8.toNat_inj.mp hlen
  have hst1000 : st = 1000 := by
    rw [hst]
    decide
  rw [hlen2, hst1000, show unmask f.key (f.body.drop 2) = [77, 77] by decide] at hrep
  refine ⟨rfl, ⟨_, hrun, hrep⟩, fun h => ?_⟩
  obtain ⟨len, st, hok, -⟩ := h.reports [] [] [⟨false, 1, []⟩] [] _ [] .nil hrun _ hroom
  rw [hrep] at hok
  revert hok
  simp [Elem.put]

end Libdill.Ws
