import Libdill.Ws.Close

/-!
# Any peer

What a socket believes about a close frame, whatever bytes the peer sends. `dill_ws_recvl_base` sets
`indone` as soon as it has seen the opcode, and computes the length of the reason from the sizes of
all frames of the call.

* `frame_keeps`: a frame that is not a close frame leaves the socket as it is.
* `close_state_trustworthy`: over any run in which the close frames the calls come to are complete
  and well-formed, are unmasked right and do not follow data that changes the length, the status and
  the reason are those of a close frame the peer has sent.
-/

namespace Libdill.Ws

open Foundations Libdill.Sock

variable {u : Bsock (List UInt8)} {s s' s'' : Rx (List UInt8)} {n : ℕ} {res : UInt64}

/-! ## What is not a close frame -/

/-- The socket is as it was, and bytes have been taken off the stream. -/
def Kept (s s' : Rx (List UInt8)) : Prop := s'.self = s.self ∧ s'.u <:+ s.u

theorem Kept.refl (s : Rx (List UInt8)) : Kept s s := ⟨rfl, List.suffix_rfl⟩

theorem Kept.trans (h : Kept s s') (h' : Kept s' s'') : Kept s s'' :=
  ⟨h'.1.trans h.1, h'.2.trans h.2⟩

/-- The call keeps the socket. -/
def Keeps {α : Type} (x : Call (Rx (List UInt8)) Stop Errno α) (s : Rx (List UInt8)) : Prop :=
  x.Ends s fun _ s' => Kept s s'

theorem Keeps.bind {α β : Type} {x : Call (Rx (List UInt8)) Stop Errno α}
    {f : α → Call (Rx (List UInt8)) Stop Errno β} (hx : Keeps x s)
    (hf : ∀ a s', x s = .ok (.ok a, s') → Keeps (f a) s') : Keeps (x >>= f) s :=
  Call.Ends.bind_of_trans (fun _ _ _ h h' => h.trans h') hx fun a s' ha _ => hf a s' ha

theorem keeps_pure {α : Type} (a : α) : Keeps (pure a) s := Call.Ends.ret (Kept.refl s)

theorem keeps_fail {α : Type} (e : Errno) :
    Keeps (Call.fail e : Call (Rx (List UInt8)) Stop Errno α) s :=
  Call.Ends.fail (Kept.refl s)

theorem keeps_require (c : Bool) (e : Errno) : Keeps (Call.require c e) s :=
  Call.Ends.require (fun _ => Kept.refl s) fun _ => Kept.refl s

theorem keeps_recv (hc : Consumes u) (n : ℕ) : Keeps (recv u n) s := by
  intro o s' h
  unfold recv at h
  split at h
  · cases h
  · rename_i hread
    cases h
    exact ⟨rfl, (hc n s.u _ _ hread).1⟩

theorem keeps_readSize (hc : Consumes u) (sz : UInt8) : Keeps (readSize u sz) s := by
  unfold readSize
  split
  · exact (keeps_recv hc 2).bind fun _ _ _ => keeps_pure _
  · split
    · exact (keeps_recv hc 8).bind fun _ _ _ => keeps_pure _
    · exact keeps_pure _

theorem keeps_readMask (hc : Consumes u) (server : Bool) : Keeps (readMask u server) s := by
  unfold readMask
  split
  · exact (keeps_recv hc 4).bind fun _ _ _ => keeps_pure _
  · exact keeps_pure _

theorem keeps_switchOpcode {opcode : UInt8} (h : opcode ≠ 8) : Keeps (switchOpcode opcode) s := by
  unfold switchOpcode
  split
  · exact keeps_pure _
  · split
    · intro o s' h
      cases h
      exact ⟨rfl, List.suffix_rfl⟩
    · split
      · intro o s' h
        cases h
        exact ⟨rfl, List.suffix_rfl⟩
      · exact keeps_fail _

theorem chunk_suffix (hc : Consumes u) {mask : Option (List UInt8)} {it : Elem}
    {s s' : List UInt8} {o : Except Errno Elem} (h : chunk u mask n it s = .ok (o, s')) :
    s' <:+ s := by
  unfold chunk at h
  split at h
  · cases h
    exact List.suffix_rfl
  · cases hread : brecv u n s with
    | error r =>
      rw [Call.bind_stop hread] at h
      cases h
    | ok p =>
      obtain ⟨o₁, s₁⟩ := p
      have hsuf := (hc n s o₁ s₁ hread).1
      cases o₁ with
      | error e =>
        rw [Call.bind_fail hread] at h
        cases h
        exact hsuf
      | ok bs =>
        rw [Call.bind_ret hread] at h
        cases mask with
        | none =>
          cases h
          exact hsuf
        | some mask =>
          cases it with
          | null m => cases h
          | buf mem =>
            cases h
            exact hsuf

theorem payload_suffix (hc : Consumes u) {mask : Option (List UInt8)} {sz : ℕ}
    {l passed rest : List Elem} {s s' : List UInt8} {o : Except Errno Unit}
    (h : payload u mask sz l s = .ok (o, passed, rest, s')) : s' <:+ s := by
  induction l generalizing sz s passed with
  | nil =>
    rw [payload] at h
    split at h <;> cases h
    exact List.suffix_rfl
  | cons it l ih =>
    rw [payload] at h
    split at h
    · cases h
    · rename_i hchunk
      cases h
      exact chunk_suffix hc hchunk
    · rename_i hchunk
      have hsuf := chunk_suffix hc hchunk
      split at h
      · cases h
        exact hsuf
      · split at h
        · cases h
          exact hsuf
        · split at h
          · cases h
          · rename_i hrest
            cases h
            exact (ih hrest).trans hsuf

theorem keeps_readPayload (hc : Consumes u) (mask : Option (List UInt8)) (sz : ℕ) :
    Keeps (readPayload u false mask sz) s := by
  intro o s' h
  unfold readPayload at h
  simp only [Bool.false_eq_true, if_false] at h
  split at h
  · cases h
  · rename_i hpay
    cases h
    exact ⟨rfl, payload_suffix hc hpay⟩

/-- The header of a close frame is next on the stream. -/
def CloseNext (s : List UInt8) : Prop :=
  ∃ b c rest, s = b :: c :: rest ∧ b &&& 0x70 = 0 ∧ b &&& 0x0f = 8

/-- **Other frames.** However such a frame is read, it does not change the socket. -/
theorem frame_keeps (hc : Consumes u) (h : ¬ CloseNext s.u) (res : UInt64) :
    Keeps (frame u res) s := by
  unfold frame
  refine (keeps_recv hc 2).bind fun hdr1 s₁ hread => ?_
  have hhdr : s.u = hdr1 ++ s₁.u ∧ hdr1.length = 2 := by
    unfold recv at hread
    split at hread
    · cases hread
    · rename_i hread'
      cases hread
      exact (hc 2 s.u _ _ hread').2 hdr1 rfl
  obtain ⟨b, c, rfl⟩ := List.length_eq_two.mp hhdr.2
  refine (keeps_require _ _).bind fun _ s₂ hrsv => ?_
  have h8 : b &&& 0x0f ≠ 8 := by
    intro h8
    apply h
    refine ⟨b, c, s₁.u, hhdr.1, ?_, h8⟩
    unfold Call.require at hrsv
    split at hrsv
    · rename_i hzero
      simpa using hzero
    · cases hrsv
  refine (keeps_switchOpcode h8).bind fun _ s₃ _ => ?_
  have hclose : (b &&& 0x0f == 8) = false := by simpa using h8
  intro o s'
  rw [Call.look_bind]
  revert o s'
  refine (keeps_require _ _).bind fun _ _ _ => ?_
  refine (keeps_readSize hc _).bind fun sz _ _ => ?_
  refine (keeps_require _ _).bind fun _ _ _ => ?_
  refine (keeps_readMask hc _).bind fun mask _ _ => ?_
  simp only [List.getD_cons_zero, hclose]
  exact (keeps_readPayload hc mask sz.toNat).bind fun _ _ _ => keeps_pure _

/-! ## Close frames that can be trusted -/

/-- A close frame that is taken for what it is by a socket of this role, when the frames before it
in the same call have `res` bytes: it is well-formed, the reason is unmasked right, and its length
is not changed by what has been received before. -/
structure Frame.Credible (server : Bool) (res : UInt64) (f : Frame) : Prop where
  wellFormed : f.WellFormed
  role : f.key.isSome = server
  repeats : Repeats f.key (f.payload.length - 2)
  size : f.payload = [] ∨ res.toNat % 256 = 0

/-- If a close frame is next on the stream, all of it is there and it can be trusted. -/
def Trusted (server : Bool) (res : UInt64) (s : List UInt8) : Prop :=
  CloseNext s → ∃ (f : Frame) (rest : List UInt8), s = f.encode ++ rest ∧ f.Credible server res

/-- So it is whenever a call reads a frame. -/
def AllTrusted (u : Bsock (List UInt8)) : ℕ → UInt64 → Rx (List UInt8) → Prop
  | 0, _, _ => True
  | n + 1, res, s =>
    Trusted s.self.server res s.u ∧
      ∀ res' s', frame u res s = .ok (.ok (res', false), s') → AllTrusted u n res' s'

/-- What the socket shows is the status and the reason of the frame `f`. -/
structure Shows (sock : WsSock) (f : Frame) : Prop where
  indone : sock.indone = true
  status : sock.getStatus = f.status
  msglen : sock.msglen.toNat = f.reason.length
  msg : sock.msg.take sock.msglen.toNat = f.reason
  size : sock.msg.length = 128
  role : sock.server = f.key.isSome

variable {self : WsSock} {f : Frame}

theorem reason_le (hf : f.WellFormed) : f.reason.length ≤ 123 := by
  have hle := hf.length_le
  unfold Frame.reason
  rw [List.length_drop]
  omega

theorem loaded_eq (f : Frame) : (self.loaded f).indone = true ∧
    (self.loaded f).msglen = self.msglen ∧ (self.loaded f).server = self.server := by
  unfold WsSock.loaded WsSock.load
  split <;> exact ⟨rfl, rfl, rfl⟩

theorem setStatus_zero (h : self.status = [0, 0]) : self.setStatus (gets self.status) = self := by
  have hputs : puts (gets [0, 0]) = [0, 0] := by decide
  have hstatus : (if self.little then ([0, 0] : List UInt8).reverse else [0, 0]) = self.status := by
    rw [h]
    cases self.little <;> rfl
  unfold WsSock.setStatus
  rw [h, hputs, hstatus]

/-- A close frame without a payload. -/
theorem closed_empty (hf : f.payload = []) (hfresh : self.Fresh) (hself : s.self = self.loaded f)
    (hrole : f.key.isSome = self.server) (res : UInt64) :
    (closed res).Ends s fun _ s' => s'.u = s.u ∧ Shows s'.self f := by
  have hbody : f.body = [] := List.length_eq_zero_iff.mp (by rw [Frame.length_body, hf]; rfl)
  have hloaded : self.loaded f = { self with indone := true } := by
    rw [loaded_short (by rw [hf]; exact Nat.zero_le _), hbody, unmask_nil, hf]
    rfl
  have hstatus : s.self.status = [0, 0] := by
    rw [hself, hloaded]
    exact hfresh.noStatus
  have hreason : f.reason = [] := by
    rw [Frame.reason, hf]
    rfl
  have hshows : Shows s.self f := by
    have hget : s.self.getStatus = 0 := by
      unfold WsSock.getStatus
      rw [hstatus]
      cases s.self.little <;> rfl
    have hlen : s.self.msglen = 0 := by
      rw [hself, hloaded]
      exact hfresh.noReason
    refine ⟨by rw [hself, hloaded], by rw [hget, Frame.status, if_pos hf], ?_, ?_, ?_, ?_⟩
    · rw [hlen, hreason]
      rfl
    · rw [hlen, hreason]
      rfl
    · rw [hself, hloaded]
      exact hfresh.msg
    · rw [hself, hloaded]
      exact hrole.symm
  intro o s' h
  by_cases h2 : 2 ≤ res
  · have hill : ¬ InRange (gets s.self.status) := by
      rw [hstatus]
      decide
    rw [closed_refused h2 hill, setStatus_zero hstatus] at h
    cases h
    exact ⟨rfl, hshows⟩
  · unfold closed at h
    rw [if_neg h2] at h
    split at h
    · cases h
      exact ⟨rfl, hshows⟩
    · cases h
      refine ⟨rfl, hshows.indone, hshows.status, ?_, ?_, hshows.size, hshows.role⟩
      · rw [hreason]
        rfl
      · rw [hreason]
        rfl

/-- A close frame with a status. -/
theorem closed_trusted (hf : f.Credible self.server res) (hne : f.payload ≠ [])
    (hfresh : self.Fresh) (hself : s.self = self.loaded f) :
    (closed (res + UInt64.ofNat f.payload.length)).Ends s
      fun _ s' => s'.u = s.u ∧ Shows s'.self f := by
  have hle := hf.wellFormed.length_le
  obtain ⟨h2, hr⟩ : 2 ≤ f.payload.length ∧ InRange (gets (f.payload.take 2)) := by
    rcases hf.wellFormed.status with hnil | h
    · exact absurd hnil hne
    · exact h
  have hloaded := loaded_status hfresh.toSized h2 hle
  have hsize : res.toNat % 256 = 0 := by
    rcases hf.size with hnil | h
    · exact absurd hnil hne
    · exact h
  have hval : (res + UInt64.ofNat f.payload.length).toNat
      = (res.toNat + f.payload.length) % 2 ^ 64 := by
    rw [UInt64.toNat_add, UInt64.toNat_ofNat', Nat.mod_eq_of_lt (a := f.payload.length) (by omega)]
  have hres2 : 2 ≤ res + UInt64.ofNat f.payload.length := by
    have hlt := UInt64.toNat_lt res
    rw [UInt64.le_iff_toNat_le, hval]
    change 2 ≤ _
    omega
  have hstatus : s.self.status = f.payload.take 2 := by
    rw [hself, hloaded]
  have hbyte := @toUInt8_sub _ f.payload.length h2 hle
    (show (res + UInt64.ofNat f.payload.length).toNat % 256 = _ by rw [hval]; omega)
  intro o s' h
  rw [closed_status hres2 (by rw [hstatus]; exact hr), hbyte, hstatus] at h
  cases h
  have hmsglen : (UInt8.ofNat (f.payload.length - 2)).toNat = f.reason.length := by
    rw [Frame.reason, List.length_drop, UInt8.toNat_ofNat']
    omega
  have hmsg : s.self.msg = f.reason ++ self.msg.drop (f.payload.length - 2) := by
    rw [hself, hloaded]
    simp only
    rw [(unmask_drop_iff f).mpr hf.repeats]
    rfl
  refine ⟨rfl, ?_, ?_, hmsglen, ?_, ?_, ?_⟩
  · change s.self.indone = true
    rw [hself]
    exact (loaded_eq f).1
  · change (s.self.setStatus (gets (f.payload.take 2))).getStatus = f.status
    rw [getStatus_setStatus, Frame.status, if_neg hne]
  · change s.self.msg.take (UInt8.ofNat (f.payload.length - 2)).toNat = f.reason
    rw [hmsglen, hmsg, List.take_left]
  · change s.self.msg.length = 128
    rw [hmsg, List.length_append, List.length_drop, hfresh.msg, Frame.reason, List.length_drop]
    omega
  · change s.self.server = f.key.isSome
    rw [hself, (loaded_eq f).2.2]
    exact hf.role.symm

/-! ## Receive calls -/

/-- The state after a close frame of the stream `S`. -/
structure Shut (S : List UInt8) (sock : WsSock) (rest : List UInt8) (f : Frame) : Prop where
  received : f.encode ++ rest <:+ S
  wellFormed : f.WellFormed
  shows : Shows sock f

theorem frame_trusted (hr : Reads u) (hc : Consumes u) (hsz : s.self.Sized)
    (ht : Trusted s.self.server res s.u) {o : Except Errno (UInt64 × Bool)}
    (h : frame u res s = .ok (o, s')) :
    Kept s s' ∨ ∃ f, f.encode ++ s'.u <:+ s.u ∧ f.Credible s.self.server res ∧
      s'.self = s.self.loaded f ∧ o = .ok (res + UInt64.ofNat f.payload.length, true) := by
  by_cases hnext : CloseNext s.u
  · obtain ⟨f, rest, hs, hf⟩ := ht hnext
    have hvalid : f.Valid s.self.server := by
      rw [← hf.role]
      exact hf.wellFormed.valid
    rw [frame_close hr hvalid hf.wellFormed.opcode hs hsz] at h
    cases h
    right
    exact ⟨f, hs ▸ List.suffix_rfl, hf, rfl, rfl⟩
  · left
    exact frame_keeps hc hnext res o s' h

/-- **The frames of a call.** They are read as frames with data, or the last one is a close frame that
can be trusted. -/
theorem frames_trusted (hr : Reads u) (hc : Consumes u) (hsz : s.self.Sized)
    (hopen : s.self.indone = false) (ht : AllTrusted u n res s) {o : Except Errno UInt64}
    (h : frames u n res s = .ok (o, s')) :
    Kept s s' ∨ ∃ f res', f.encode ++ s'.u <:+ s.u ∧ f.Credible s.self.server res' ∧
      s'.self = s.self.loaded f ∧ o = .ok (res' + UInt64.ofNat f.payload.length) := by
  induction n generalizing res s with
  | zero => cases h
  | succ n ih =>
    cases hframe : frame u res s with
    | error r =>
      rw [frames_stop hframe] at h
      cases h
    | ok p =>
      obtain ⟨o₁, s₁⟩ := p
      have hone := frame_trusted hr hc hsz ht.1 hframe
      cases o₁ with
      | error e =>
        rw [frames_fail hframe] at h
        cases h
        rcases hone with hkept | ⟨f, -, -, -, hok⟩
        · exact .inl hkept
        · cases hok
      | ok q =>
        obtain ⟨res₁, fin⟩ := q
        cases fin with
        | true =>
          rw [frames_last hframe] at h
          cases h
          rcases hone with hkept | ⟨f, hsuf, hf, hself, hok⟩
          · exact .inl hkept
          · cases hok
            exact .inr ⟨f, res, hsuf, hf, hself, rfl⟩
        | false =>
          rw [frames_more hframe] at h
          rcases hone with hkept | ⟨f, -, -, -, hok⟩
          · have hrest := ih (by rw [hkept.1]; exact hsz) (by rw [hkept.1]; exact hopen)
              (ht.2 res₁ s₁ hframe) h
            rw [hkept.1] at hrest
            rcases hrest with hkept' | ⟨f, res', hsuf, hf, hself, ho⟩
            · exact .inl (hkept.trans hkept')
            · exact .inr ⟨f, res', hsuf.trans hkept.2, hf, hself, ho⟩
          · cases hok

theorem recvlBase_trusted (hr : Reads u) (hc : Consumes u) (hfresh : s.self.Fresh)
    (ht : AllTrusted u n 0 s) {o : Except Errno ℤ} (h : recvlBase u n s = .ok (o, s')) :
    Kept s s' ∨ ∃ f, Shut s.u s'.self s'.u f := by
  have hopen := hfresh.receiving
  cases hframes : frames u n 0 s with
  | error r =>
    rw [recvlBase_stop hopen hframes] at h
    cases h
  | ok p =>
    obtain ⟨o₁, s₁⟩ := p
    have hall := frames_trusted hr hc hfresh.toSized hopen ht hframes
    cases o₁ with
    | error e =>
      rw [recvlBase_fail hopen hframes] at h
      cases h
      rcases hall with hkept | ⟨f, res', -, -, -, hok⟩
      · exact .inl hkept
      · cases hok
    | ok res₁ =>
      rcases hall with hkept | ⟨f, res', hsuf, hf, hself, hok⟩
      · rw [recvlBase_data hopen hframes (by rw [hkept.1]; exact hopen)] at h
        cases h
        exact .inl hkept
      · cases hok
        have hclose : s₁.self.indone = true := by
          rw [hself]
          exact (loaded_eq f).1
        rw [recvlBase_close hopen hframes hclose] at h
        right
        have hend : s'.u = s₁.u ∧ Shows s'.self f := by
          by_cases hnil : f.payload = []
          · exact closed_empty hnil hfresh hself hf.role _ o s' h
          · exact closed_trusted hf hnil hfresh hself o s' h
        refine ⟨f, ?_, hf.wellFormed, hend.2⟩
        rw [hend.1]
        exact hsuf

theorem receive_base {c : Receive} {self : WsSock} {S : List UInt8} {o : Except Errno ℤ}
    {r : Rx (List UInt8)} (h : receive u c self S = .ok (o, r)) :
    ∃ o', recvlBase u c.n (.start self S c.first) = .ok (o', r) := by
  cases hbase : recvlBase u c.n (.start self S c.first) with
  | error r' =>
    unfold receive mrecvl recvl Call.andThen at h
    rw [hbase] at h
    split at h <;> cases h
  | ok p =>
    obtain ⟨o', r'⟩ := p
    cases o' with
    | error e =>
      rw [receive_fail hbase] at h
      cases h
      exact ⟨_, rfl⟩
    | ok sz =>
      obtain ⟨rfl, -⟩ := receive_data hbase h
      exact ⟨_, rfl⟩

/-! ## Runs -/

/-- Whenever the call reads a frame, it is not a close frame or one that can be trusted. -/
def Receive.Trusts (u : Bsock (List UInt8)) (p : WsSock × List UInt8) (c : Receive) : Prop :=
  p.1.indone = false → AllTrusted u c.n 0 (.start p.1 p.2 c.first)

/-- A run of receive calls in which every close frame can be trusted. -/
inductive Run (u : Bsock (List UInt8)) (p₀ : WsSock × List UInt8) : WsSock × List UInt8 → Prop
  | start : Run u p₀ p₀
  | call {p p' : WsSock × List UInt8} {c : Receive} {o : Except Errno ℤ} :
    Run u p₀ p → c.Trusts u p → c.step u p = some (p', o) → Run u p₀ p'

/-- What a socket knows about the end of the stream `S` is what the peer has sent. -/
structure Trustworthy (S : List UInt8) (p : WsSock × List UInt8) : Prop where
  /-- `indone` is set only if a well-formed close frame has been received, and then `status` and the
  first `msglen` bytes of `msg` are those of the frame. -/
  received : p.1.indone = true → ∃ f, Shut S p.1 p.2 f
  /-- The reason is inside of `msg`. -/
  bounded : p.1.msglen ≤ 123 ∧ p.1.msg.length = 128
  /-- `dill_ws_status` does not read past the end of `msg`. -/
  inside : ∀ buf, p.1.report buf ≠ .error .fault
  /-- What it returns is the status and the reason of the frame. -/
  reported : ∀ buf len st buf', p.1.report buf = .ok (.ok (len, st, buf')) →
    ∃ f, Shut S p.1 p.2 f ∧ len.toNat = f.reason.length ∧ st = f.status ∧ buf' = buf.put f.reason

variable {S : List UInt8} {p : WsSock × List UInt8} {buf : Elem}

theorem report_inside (hmsg : p.1.msg.length = 128) (hlen : p.1.msglen ≤ 123) :
    p.1.report buf ≠ .error .fault := by
  have hle : p.1.msglen.toNat ≤ 123 := UInt8.le_iff_toNat_le.mp hlen
  have hroom : ¬ p.1.msg.length < p.1.msglen.toNat := by omega
  unfold WsSock.report
  rw [if_neg hroom]
  intro h
  split at h
  · cases h
  · split at h
    · cases h
    · split at h
      · split at h <;> cases h
      · cases h

/-- A buffer that has room for more bytes than `msg` has is filled with more than these. -/
theorem report_overrun {self : WsSock} (hin : self.indone = true) (hbuf : buf.IsBuf)
    (hroom : self.msglen.toNat ≤ buf.len) (hlong : self.msg.length < self.msglen.toNat) :
    self.report buf = .error .fault := by
  have hshort : ¬ buf.len < self.msglen.toNat := by omega
  unfold WsSock.report
  rw [hin, if_neg (fun h => h.1 hbuf), if_pos hbuf, if_neg hshort, if_pos hlong]
  rfl

/-- When `dill_ws_status` returns something there was room for the reason, or no buffer. -/
theorem report_ok {self : WsSock} {r : UInt8 × UInt16 × Elem}
    (h : self.report buf = .ok (.ok r)) : self.indone = true ∧
      (buf = .null 0 ∨ (buf.IsBuf ∧ self.msglen.toNat ≤ buf.len)) := by
  unfold WsSock.report at h
  split at h
  · cases h
  · rename_i hnull
    split at h
    · cases h
    · rename_i hin
      have hindone : self.indone = true := by simpa using hin
      refine ⟨hindone, ?_⟩
      split at h
      · rename_i hbuf
        split at h
        · cases h
        · rename_i hlen
          exact .inr ⟨hbuf, by omega⟩
      · rename_i hbuf
        left
        cases buf with
        | null n =>
          have hn : ¬ 0 < n := fun hn => hnull ⟨hbuf, hn⟩
          rw [show n = 0 by omega]
        | buf mem => exact absurd trivial hbuf

theorem Shut.trustworthy {f : Frame} (h : Shut S p.1 p.2 f) : Trustworthy S p := by
  have hle := reason_le h.wellFormed
  have hlen : p.1.msglen ≤ 123 := by
    rw [UInt8.le_iff_toNat_le, h.shows.msglen]
    exact hle
  refine ⟨fun _ => ⟨f, h⟩, ⟨hlen, h.shows.size⟩, fun buf => report_inside h.shows.size hlen, ?_⟩
  intro buf len st buf' hrep
  obtain ⟨hin, hroom⟩ := report_ok hrep
  have hmsglen := h.shows.msglen
  rw [report_room hin h.shows.size (by omega) hroom, h.shows.msg, h.shows.status] at hrep
  cases hrep
  exact ⟨f, h, h.shows.msglen, rfl, rfl⟩

theorem trustworthy_fresh (h : p.1.Fresh) : Trustworthy S p := by
  have hnot : ¬ p.1.indone = true := by
    rw [h.receiving]
    exact Bool.false_ne_true
  have hlen : p.1.msglen ≤ 123 := by
    rw [h.noReason]
    decide
  refine ⟨fun hin => absurd hin hnot, ⟨hlen, h.msg⟩, fun buf => report_inside h.msg hlen, ?_⟩
  intro buf len st buf' hrep
  exact absurd (report_ok hrep).1 hnot

/-- What one call preserves. -/
theorem step_trusted {self : WsSock} {p' : WsSock × List UInt8} {c : Receive}
    {o : Except Errno ℤ} (hr : Reads u) (hc : Consumes u) (hfresh : self.Fresh)
    (hp : (p.1 = self ∧ p.2 <:+ S) ∨ ∃ f, Shut S p.1 p.2 f) (ht : c.Trusts u p)
    (h : c.step u p = some (p', o)) :
    (p'.1 = self ∧ p'.2 <:+ S) ∨ ∃ f, Shut S p'.1 p'.2 f := by
  rcases hp with ⟨hself, hsuf⟩ | ⟨f, hf⟩
  · have hopen : p.1.Fresh := by
      rw [hself]
      exact hfresh
    obtain ⟨r, hrecv, rfl⟩ := step_eq_some h
    obtain ⟨o', hbase⟩ := receive_base hrecv
    rcases recvlBase_trusted hr hc hopen (ht hopen.receiving) hbase with hkept | ⟨f, hf⟩
    · exact .inl ⟨hkept.1.trans hself, hkept.2.trans hsuf⟩
    · exact .inr ⟨f, hf.received.trans hsuf, hf.wellFormed, hf.shows⟩
  · rw [step_closed hf.shows.indone] at h
    cases h
    exact .inr ⟨f, hf⟩

/-- **The close state.** On a stream that ends in whatever way, after any number of calls in which
every close frame can be trusted, what the socket knows about the end is what the peer has sent. -/
theorem close_state_trustworthy (fate : Option Errno) (self : WsSock) (hfresh : self.Fresh)
    (S : List UInt8) (p : WsSock × List UInt8) (h : Run (ending fate) (self, S) p) :
    Trustworthy S p := by
  have hinv : (p.1 = self ∧ p.2 <:+ S) ∨ ∃ f, Shut S p.1 p.2 f := by
    induction h with
    | start => exact .inl ⟨rfl, List.suffix_rfl⟩
    | call _ ht hstep ih =>
      exact step_trusted (reads_ending fate) (consumes_ending fate) hfresh ih ht hstep
  rcases hinv with ⟨hself, -⟩ | ⟨f, hf⟩
  · apply trustworthy_fresh
    rw [hself]
    exact hfresh
  · exact hf.trustworthy

/-- A client receives a close frame with status 1000 and the reason "OK". -/
theorem close_state_trustworthy_client :
    let S : List UInt8 := [136, 4, 3, 232, 79, 75, 7]
    let self := WsSock.attach false true 0 (List.replicate 128 0)
    let f : Frame := ⟨true, 8, none, .short, [3, 232, 79, 75], by decide⟩
    Trustworthy S (self.shut f, [7]) := by
  intro S self f
  have hf : f.WellFormed := ⟨rfl, rfl, by decide, .inr ⟨by decide, by decide⟩⟩
  have hfresh : self.Fresh := ⟨⟨rfl, List.length_replicate⟩, rfl, rfl, rfl⟩
  have hS : S = f.encode ++ [7] := by decide
  have hbase := recvlBase_shut (s := .start self (f.encode ++ [7]) []) (n := 0)
    (reads_ending none) hf rfl rfl rfl hfresh.toSized
  have hstep := @step_fail (ending none) (self, f.encode ++ [7]) ⟨false, 1, []⟩ _ _ hbase
  have hcredible : f.Credible false 0 := ⟨hf, rfl, (fun _ h => by cases h), .inr rfl⟩
  have htrusts : Receive.Trusts (ending none) (self, S) ⟨false, 1, []⟩ := fun _ =>
    ⟨fun _ => ⟨f, [7], hS, hcredible⟩, fun _ _ _ => trivial⟩
  rw [← hS] at hstep
  exact close_state_trustworthy none self hfresh S _ (.call .start htrusts hstep)

/-- A fragment of 200 bytes, then a close frame with a status and no reason: `dill_ws_status` returns
that the reason has 200 bytes, and copies them from a field of 128. -/
theorem close_state_overrun :
    let self := WsSock.attach false true 0 (List.replicate 128 0)
    let data : Frame :=
      ⟨false, 1, none, .medium, List.replicate 200 0, by rw [List.length_replicate]; decide⟩
    let close : Frame := ⟨true, 8, none, .short, [3, 232], by decide⟩
    let S := data.encode ++ close.encode
    ∃ p, answers (Receive.step lossless) (self, S) [⟨false, 2, [.null 200]⟩]
        = some (p, [.error .EPIPE]) ∧
      p.1.report (.null 0) = .ok (.ok (200, 1000, .null 0)) ∧
      p.1.report (.buf (List.replicate 200 0)) = .error .fault ∧
      ¬ Trustworthy S p := by
  intro self data close S
  have hsz : self.Sized := ⟨rfl, List.length_replicate⟩
  have hlen : data.payload.length = 200 := List.length_replicate
  let s₀ := Rx.start self S [.null 200]
  let s₁ := s₀.stored data close.encode
  have hdata : frame lossless 0 s₀ = .ok (.ok (200, false), s₁) := by
    have h := @frame_data lossless close.encode s₀ data reads_lossless
      ⟨⟨.inr (.inl rfl), rfl⟩, fun h => by cases h⟩ (by decide) rfl (by rw [hlen]; decide)
      (fun h => by cases h) 0
    rw [hlen] at h
    exact h
  have hclose := @frame_close lossless [] s₁ close reads_lossless
    ⟨⟨.inr (.inr (.inr rfl)), rfl⟩, fun _ => ⟨by decide, rfl⟩⟩ rfl
    (by rw [List.append_nil]; rfl) hsz 200
  have hframes := (frames_more (n := 1) hdata).trans (frames_last (n := 0) hclose)
  have hself : s₁.self.loaded close = { self with
      indone := true, status := [3, 232], msg := [] ++ self.msg.drop 0 } :=
    loaded_status hsz (by decide) (by decide)
  have hbase := (recvlBase_close (s := s₀) rfl hframes (by rw [hself])).trans
    (closed_status (by decide) (by rw [hself]; decide))
  have hstep := @step_fail lossless (self, S) ⟨false, 2, [.null 200]⟩ _ _ hbase
  obtain ⟨p, hstep, hin, hmsglen, hst, hmsg⟩ :
      ∃ p, Receive.step lossless (self, S) ⟨false, 2, [.null 200]⟩ = some (p, .error .EPIPE) ∧
        p.1.indone = true ∧ p.1.msglen = 200 ∧ p.1.getStatus = 1000 ∧ p.1.msg.length = 128 := by
    refine ⟨_, hstep, ?_, ?_, ?_, ?_⟩
    · change (s₁.self.loaded close).indone = true
      rw [hself]
    · change (200 + UInt64.ofNat close.payload.length).toUInt8 - 2 = 200
      decide
    · change ((s₁.self.loaded close).setStatus (gets (s₁.self.loaded close).status)).getStatus = 1000
      rw [getStatus_setStatus, hself]
      decide
    · change (s₁.self.loaded close).msg.length = 128
      rw [hself]
      exact List.length_replicate
  refine ⟨p, answers_cons hstep rfl, ?_, ?_, ?_⟩
  · rw [report_null hin, hmsglen, hst]
  · have hroom : p.1.msglen.toNat ≤ (Elem.buf (List.replicate 200 0)).len := by
      rw [hmsglen, Elem.len, List.length_replicate]
      decide
    exact report_overrun hin trivial hroom (by rw [hmsglen, hmsg]; decide)
  · intro h
    have hle := h.bounded.1
    rw [hmsglen] at hle
    revert hle
    decide

end Libdill.Ws
