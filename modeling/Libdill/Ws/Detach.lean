import Libdill.Ws.Peer

/-!
# Detaching

`dill_ws_detach` sends a close frame, unless that has been done before, and then receives what the
peer has sent before its own close frame into an element without a buffer.

* `detach_drains_iff`: when the stream is left exactly behind the close frame of the peer. A server
  unmasks what it receives through the null pointer.
-/

namespace Libdill.Ws

open Foundations Libdill.Sock

/-! ## The function -/

variable {σ : Type} (u : Bsock σ)

/-- The loop of `dill_ws_detach`, which has not returned after `k` messages of up to `n` frames. A
size that is negative as a `ssize_t` is taken for an error; `errno` is what the variable contains when
no call has set it. -/
def drain (errno : Errno) (n : ℕ) : ℕ → Call (WsSock × σ) Stop Errno Unit
  | 0 => Call.stop .waits
  | k + 1 => fun (self, s) =>
    match recvlBase u n (.start self s [.null (2 ^ 64 - 1)]) with
    | .error r => .error r
    | .ok (.error e, r) =>
      if e = .EPIPE then .ok (.ok (), r.self, r.u) else .ok (.error e, r.self, r.u)
    | .ok (.ok sz, r) =>
      if sz < 0 then
        if errno = .EPIPE then .ok (.ok (), r.self, r.u) else .ok (.error errno, r.self, r.u)
      else drain errno n k (r.self, r.u)

/-- `dill_ws_detach`. What is left is the socket below. -/
def detach (errno : Errno) (n k : ℕ) (status : ℤ) (buf : Elem)
    (random : Except Errno (List UInt8)) : Call (WsSock × σ) Stop Errno Unit := do
  let outdone ← Call.look fun p => p.1.outdone
  if outdone then drain u errno n k
  else do
    done u status buf random
    drain u errno n k

/-! ## What is drained -/

/-- The bytestream that is lossless in the direction to the receiver; what is sent is not looked
at. -/
def inbound : Bsock (List UInt8) where
  bsendl s _ := (.ok (), s)
  brecvl := lossless.brecvl

theorem reads_inbound : Reads inbound := reads_lossless

/-- The arguments `dill_ws_done` accepts. -/
def Accepted (status : ℤ) (buf : Elem) : Prop :=
  (status = 0 ∨ (1000 ≤ status ∧ status ≤ 4999)) ∧ (buf.IsBuf ∨ buf.len = 0)

/-- A close frame has been sent or can be sent. A client writes the header of a long frame past the end
of its buffer. -/
def WsSock.CanClose (self : WsSock) (status : ℤ) (r : Reason) (random : Except Errno Key) : Prop :=
  self.outdone = true ∨ (Accepted status r.buf ∧
    (self.server = true ∨
      ((∃ key, random = .ok key) ∧ (closePayload status r.buf.bytes).length ≤ 65535)))

/-- Of the stream `wire`, detaching leaves exactly `raw`, and it does nothing that is not defined. -/
structure WsSock.Drains (sock : WsSock) (errno : Errno) (status : ℤ) (r : Reason)
    (random : Except Errno Key) (wire raw : List UInt8) : Prop where
  returns : ∃ n k self', detach inbound errno n k status r.buf (random.map Key.bytes) (sock, wire)
    = .ok (.ok (), self', raw)
  defined : ∀ n k,
    detach inbound errno n k status r.buf (random.map Key.bytes) (sock, wire) ≠ .error .fault

/-- A message that can be received into nothing: a server unmasks none of it, and its size is not
negative as a `ssize_t`. -/
def Sent.Droppable {server : Bool} (m : Sent server) : Prop :=
  (server = true → total m.pieces = 0) ∧ total m.pieces % 2 ^ 64 < 2 ^ 63

/-! ## A message that is received into nothing -/

section Null

variable {u : Bsock (List UInt8)} {s s' : Rx (List UInt8)} {rest : List UInt8} {c : ℕ → UInt8}
  {pos n N : ℕ} {opcode : UInt8} {ps : List Piece} {res : UInt64}

/-- A frame that is received into nothing. -/
theorem frame_null (hu : Reads u) {f : Frame} (hf : f.Data s.self.server)
    (hs : s.u = f.encode ++ rest) (hit : s.it = [.null N]) (hN : f.payload.length ≤ N)
    (hempty : s.self.server = true → f.payload.length = 0) (res : UInt64) :
    frame u res s = .ok (.ok (res + UInt64.ofNat f.payload.length, f.fin),
      { s with u := rest, flags := (s.opened f.opcode).flags }) := by
  have hcap : f.payload.length ≤ capacity s.it := by
    rw [hit]
    exact hN
  have hst : f.key.isSome → Stored f.payload.length s.it := by
    intro hk
    rw [hempty (by rw [← hf.role]; exact hk)]
    exact stored_zero _
  have hstored : s.stored f rest
      = { s with u := rest, flags := (s.opened f.opcode).flags } := by
    have hbody : f.body.length ≤ (Elem.null N).len := by
      rw [Frame.length_body]
      exact hN
    unfold Rx.stored
    rw [hit, spread_short hbody, List.append_nil, ← hit]
    simp only [Elem.put, hit]
  rw [frame_data hu hf.valid (data_ne_close hf.opcode) hs hcap hst, hstored]

/-- A frame that a server has to unmask in nothing. -/
theorem frame_null_fault (hu : Reads u) {f : Frame} (hf : f.Data s.self.server)
    (hs : s.u = f.encode ++ rest) (hit : s.it = [.null N]) (hN : f.payload.length ≤ N)
    (hserver : s.self.server = true) (hpos : 0 < f.payload.length) (res : UInt64) :
    frame u res s = .error .fault := by
  have hcap : f.payload.length ≤ capacity s.it := by
    rw [hit]
    exact hN
  have hst : ¬ Stored f.payload.length s.it := by
    rw [hit]
    intro h
    have hmin : 0 < min f.payload.length N := by omega
    exact h.1 hmin
  exact frame_fault hu hf.valid (data_ne_close hf.opcode) hs hcap
    (by rw [hf.role]; exact hserver) hst res

theorem frames_null (hu : Reads u) (hop : opcode = 0 ∨ opcode = 1 ∨ opcode = 2)
    (hrole : ∀ p ∈ ps, p.key.isSome = s.self.server) (hne : ps ≠ []) (hn : ps.length ≤ n)
    (hs : s.u = encodeAll c pos opcode ps ++ rest) (hit : s.it = [.null N])
    (hN : ∀ p ∈ ps, p.size ≤ N) (hempty : s.self.server = true → total ps = 0) (res : UInt64) :
    ∃ flags, frames u n res s
      = .ok (.ok (res + UInt64.ofNat (total ps)), { s with u := rest, flags := flags }) := by
  induction ps generalizing pos opcode n res s with
  | nil => exact absurd rfl hne
  | cons p ps ih =>
    obtain ⟨hp, hrole⟩ := List.forall_mem_cons.mp hrole
    obtain ⟨hpN, hN⟩ := List.forall_mem_cons.mp hN
    obtain ⟨n, rfl⟩ : ∃ k, n = k + 1 := ⟨n - 1, by simp at hn; omega⟩
    have hlen : (p.frame c pos ps.isEmpty opcode).payload.length = p.size :=
      length_bytesAt c pos p.size
    have hs' : s.u = (p.frame c pos ps.isEmpty opcode).encode ++
        (encodeAll c (pos + p.size) 0 ps ++ rest) := by
      rw [hs, encodeAll, List.append_assoc]
    have hframe := frame_null hu ⟨hop, hp⟩ hs' hit (by rw [hlen]; exact hpN)
      (fun hserver => by have h := hempty hserver; rw [total] at h; omega) res
    rw [hlen] at hframe
    cases ps with
    | nil => exact ⟨_, frames_last hframe⟩
    | cons q ps =>
      rw [frames_more hframe, total, UInt64.ofNat_add, ← UInt64.add_assoc]
      refine ih (s := { s with
        u := encodeAll c (pos + p.size) 0 (q :: ps) ++ rest, flags := (s.opened opcode).flags })
        (.inl rfl) hrole (by simp) (by simpa using hn) rfl hit hN (fun hserver => ?_) _
      have h := hempty hserver
      rw [total] at h
      omega

/-- With bytes in it, a server does not get through. -/
theorem frames_null_fault (hu : Reads u) (hop : opcode = 0 ∨ opcode = 1 ∨ opcode = 2)
    (hrole : ∀ p ∈ ps, p.key.isSome = s.self.server)
    (hs : s.u = encodeAll c pos opcode ps ++ rest) (hit : s.it = [.null N])
    (hN : ∀ p ∈ ps, p.size ≤ N) (hserver : s.self.server = true) (htotal : total ps ≠ 0)
    (res : UInt64) :
    frames u n res s = .error .waits ∨ frames u n res s = .error .fault := by
  induction ps generalizing pos opcode n res s with
  | nil => exact absurd rfl htotal
  | cons p ps ih =>
    obtain ⟨hp, hrole⟩ := List.forall_mem_cons.mp hrole
    obtain ⟨hpN, hN⟩ := List.forall_mem_cons.mp hN
    cases n with
    | zero => exact .inl rfl
    | succ n =>
      have hlen : (p.frame c pos ps.isEmpty opcode).payload.length = p.size :=
        length_bytesAt c pos p.size
      have hs' : s.u = (p.frame c pos ps.isEmpty opcode).encode ++
          (encodeAll c (pos + p.size) 0 ps ++ rest) := by
        rw [hs, encodeAll, List.append_assoc]
      by_cases hpos : 0 < p.size
      · right
        exact frames_stop (frame_null_fault hu ⟨hop, hp⟩ hs' hit (by rw [hlen]; exact hpN) hserver
          (by rw [hlen]; exact hpos) res)
      · have hframe := frame_null hu ⟨hop, hp⟩ hs' hit (by rw [hlen]; exact hpN)
          (fun _ => by rw [hlen]; omega) res
        rw [hlen] at hframe
        rw [total] at htotal
        cases ps with
        | nil =>
          rw [total] at htotal
          omega
        | cons q ps =>
          rw [frames_more hframe]
          exact ih (s := { s with
            u := encodeAll c (pos + p.size) 0 (q :: ps) ++ rest, flags := (s.opened opcode).flags })
            (.inl rfl) hrole rfl hit hN hserver (by omega) _

end Null

/-! ## Messages and the close frame -/

variable {u : Bsock (List UInt8)} {server : Bool} {self self' : WsSock} {rest raw : List UInt8}
  {m : Sent server} {n k : ℕ} {errno : Errno}

theorem encode_frames (m : Sent server) :
    m.frames.flatMap Frame.encode = encodeAll m.content 0 (opcodeFor m.text) m.pieces :=
  framesOf_encode

theorem sizes_le (ps : List Piece) : ∀ p ∈ ps, p.size ≤ 2 ^ 64 - 1 := by
  intro p _
  have hlt := p.fits.lt
  omega

/-- A message of which nothing has to be unmasked. -/
theorem recvlBase_null (hu : Reads u) (hself : self.Receives server)
    (hempty : server = true → total m.pieces = 0) :
    (∀ n, m.pieces.length ≤ n → ∃ flags,
      recvlBase u n (.start self (m.frames.flatMap Frame.encode ++ rest) [.null (2 ^ 64 - 1)])
        = .ok (.ok (UInt64.ofNat (total m.pieces)).toInt64.toInt,
          ⟨self, rest, [], [.null (2 ^ 64 - 1)], flags⟩)) := by
  intro n hn
  have hrole : ∀ p ∈ m.pieces, p.key.isSome = self.server := fun p hp =>
    (m.role p hp).trans hself.role.symm
  obtain ⟨flags, hframes⟩ := frames_null
    (s := .start self (m.frames.flatMap Frame.encode ++ rest) [.null (2 ^ 64 - 1)]) hu
    (opcodeFor_data m.text) hrole m.ne_nil hn (by rw [encode_frames]; rfl) rfl
    (sizes_le m.pieces) (fun h => hempty (hself.role.symm.trans h)) 0
  refine ⟨flags, ?_⟩
  have hdata := recvlBase_data hself.receiving hframes hself.receiving
  rw [UInt64.zero_add] at hdata
  exact hdata

/-- Size of a message as the function returns it. -/
theorem ssize_neg_iff (t : ℕ) :
    (UInt64.ofNat t).toInt64.toInt < 0 ↔ ¬ t % 2 ^ 64 < 2 ^ 63 := by
  have hval : (UInt64.ofNat t).toInt64.toInt = (UInt64.ofNat t).toBitVec.toInt := rfl
  have hnat : (UInt64.ofNat t).toBitVec.toNat = t % 2 ^ 64 := UInt64.toNat_ofNat'
  rw [hval, BitVec.toInt_eq_toNat_cond, hnat]
  split <;> omega

variable {p : WsSock × List UInt8}

/-! ### One turn -/

theorem drain_stop {r : Stop}
    (h : recvlBase u n (.start p.1 p.2 [.null (2 ^ 64 - 1)]) = .error r) :
    drain u errno n (k + 1) p = .error r := by
  simp only [drain, h]

theorem drain_fail {e : Errno} {r : Rx (List UInt8)}
    (h : recvlBase u n (.start p.1 p.2 [.null (2 ^ 64 - 1)]) = .ok (.error e, r)) :
    drain u errno n (k + 1) p
      = if e = .EPIPE then .ok (.ok (), r.self, r.u) else .ok (.error e, r.self, r.u) := by
  simp only [drain, h]

theorem drain_message {sz : ℤ} {r : Rx (List UInt8)}
    (h : recvlBase u n (.start p.1 p.2 [.null (2 ^ 64 - 1)]) = .ok (.ok sz, r)) :
    drain u errno n (k + 1) p
      = if sz < 0 then
          if errno = .EPIPE then .ok (.ok (), r.self, r.u) else .ok (.error errno, r.self, r.u)
        else drain u errno n k (r.self, r.u) := by
  simp only [drain, h]

/-- More frames change nothing once the receive has ended. -/
theorem recvlBase_more {s : Rx (List UInt8)}
    {v : Except Stop (Except Errno ℤ × Rx (List UInt8))} (i : ℕ) (h : recvlBase u n s = v)
    (hv : v ≠ .error .waits) : recvlBase u (n + i) s = v := by
  by_cases hopen : s.self.indone = false
  · exact recvlBase_mono i hopen h hv
  · rw [recvlBase_closed (by simpa using hopen)] at h ⊢
    exact h

/-- More turns change nothing once the loop has ended. -/
theorem drain_mono {v : Except Stop (Except Errno Unit × WsSock × List UInt8)} (i j : ℕ)
    (h : drain u errno n k p = v) (hv : v ≠ .error .waits) :
    drain u errno (n + i) (k + j) p = v := by
  induction k generalizing p with
  | zero => exact absurd h.symm hv
  | succ k ih =>
    rw [Nat.succ_add]
    cases hbase : recvlBase u n (.start p.1 p.2 [.null (2 ^ 64 - 1)]) with
    | error r =>
      rw [drain_stop hbase] at h
      have hwait : (Except.error r : Except Stop (Except Errno ℤ × Rx (List UInt8)))
          ≠ .error .waits := by
        intro hr
        cases hr
        exact hv h.symm
      rw [drain_stop (recvlBase_more i hbase hwait)]
      exact h
    | ok q =>
      obtain ⟨o, r⟩ := q
      have hmore := recvlBase_more i hbase (fun h => by cases h)
      cases o with
      | error e =>
        rw [drain_fail hbase] at h
        rw [drain_fail hmore]
        exact h
      | ok sz =>
        rw [drain_message hbase] at h
        rw [drain_message hmore]
        by_cases hneg : sz < 0
        · rw [if_pos hneg] at h ⊢
          exact h
        · rw [if_neg hneg] at h ⊢
          exact ih h

/-! ### All turns -/

/-- The loop ends with `raw` left on the stream. -/
def DrainsTo (u : Bsock (List UInt8)) (errno : Errno) (p : WsSock × List UInt8)
    (raw : List UInt8) : Prop :=
  ∃ n k self', drain u errno n k p = .ok (.ok (), self', raw)

/-- Some number of frames is enough for the message that comes first. -/
theorem drainsTo_message {rest' : List UInt8} {sz : ℤ} {l : ℕ}
    (h : ∀ n, l ≤ n → ∃ r, recvlBase u n (.start p.1 p.2 [.null (2 ^ 64 - 1)]) = .ok (.ok sz, r) ∧
      r.self = p.1 ∧ r.u = rest') (hraw : rest' ≠ raw) :
    DrainsTo u errno p raw ↔ 0 ≤ sz ∧ DrainsTo u errno (p.1, rest') raw := by
  constructor
  · rintro ⟨n, k, self', hrun⟩
    have hmore := drain_mono l 0 hrun (fun h => by cases h)
    obtain ⟨r, hr, hself, hu⟩ := h (n + l) (Nat.le_add_left l n)
    cases k with
    | zero => cases hrun
    | succ k =>
      rw [Nat.add_zero, drain_message hr, hself, hu] at hmore
      split at hmore
      · split at hmore
        · cases hmore
          exact absurd rfl hraw
        · cases hmore
      · rename_i hneg
        exact ⟨by omega, n + l, k, self', hmore⟩
  · rintro ⟨hsz, n, k, self', hrun⟩
    have hmore := drain_mono l 0 hrun (fun h => by cases h)
    obtain ⟨r, hr, hself, hu⟩ := h (n + l) (Nat.le_add_left l n)
    refine ⟨n + l, k + 1, self', ?_⟩
    rw [drain_message hr, if_neg (by omega), hself, hu]
    exact hmore

/-- **The loop** ends behind the close frame exactly when all messages can be received into nothing. -/
theorem drainsTo_iff (hu : Reads u) (hself : self.Receives server) (errno : Errno)
    (raw : List UInt8) (ms : List (Sent server))
    {close : Frame} (hclose : close.WellFormed) (hrole : close.key.isSome = server) :
    DrainsTo u errno
        (self, ms.flatMap (fun m => m.frames.flatMap Frame.encode) ++ (close.encode ++ raw)) raw ↔
      ∀ m ∈ ms, m.Droppable := by
  induction ms with
  | nil =>
    refine iff_of_true ?_ (fun m hm => by cases hm)
    have hshut := recvlBase_shut (n := 0)
      (s := .start self (close.encode ++ raw) [.null (2 ^ 64 - 1)]) hu hclose rfl
      (hself.role.trans hrole.symm) hself.receiving hself.sized
    refine ⟨1, 1, self.shut close, ?_⟩
    rw [List.flatMap_nil, List.nil_append, drain_fail (p := (self, close.encode ++ raw)) hshut,
      if_pos rfl]
    rfl
  | cons m ms ih =>
    rw [List.flatMap_cons, List.append_assoc, List.forall_mem_cons]
    by_cases hempty : server = true → total m.pieces = 0
    · have hraw : ms.flatMap (fun m => m.frames.flatMap Frame.encode) ++ (close.encode ++ raw)
          ≠ raw := by
        intro h
        have hlen := congrArg List.length h
        have htwo := encode_two close
        rw [List.length_append, List.length_append] at hlen
        omega
      have hbase := @recvlBase_null u server self
        (ms.flatMap (fun m => m.frames.flatMap Frame.encode) ++ (close.encode ++ raw)) m hu hself
        hempty
      rw [drainsTo_message (l := m.pieces.length) (fun n hn => by
        obtain ⟨flags, hr⟩ := hbase n hn
        exact ⟨_, hr, rfl, rfl⟩) hraw, ih]
      have hneg := ssize_neg_iff (total m.pieces)
      constructor
      · rintro ⟨hsz, hms⟩
        refine ⟨⟨hempty, ?_⟩, hms⟩
        by_contra hbig
        have h := hneg.mpr hbig
        omega
      · rintro ⟨⟨-, hlt⟩, hms⟩
        refine ⟨?_, hms⟩
        by_contra hsz
        exact hneg.mp (by omega) hlt
    · obtain ⟨hserver, htotal⟩ := Classical.not_imp.mp hempty
      refine iff_of_false ?_ fun h => htotal (h.1.1 hserver)
      rintro ⟨n, k, self', hrun⟩
      cases k with
      | zero => cases hrun
      | succ k =>
        have hrole : ∀ p ∈ m.pieces, p.key.isSome = self.server := fun p hp =>
          (m.role p hp).trans hself.role.symm
        have hframes := frames_null_fault (n := n)
          (s := .start self (m.frames.flatMap Frame.encode ++
            (ms.flatMap (fun m => m.frames.flatMap Frame.encode) ++ (close.encode ++ raw)))
            [.null (2 ^ 64 - 1)]) hu (opcodeFor_data m.text) hrole (by rw [encode_frames]; rfl) rfl
          (sizes_le m.pieces) (hself.role.trans hserver) htotal 0
        rcases hframes with hframes | hframes
        · have hbase := recvlBase_stop hself.receiving hframes
          rw [drain_stop (p := (self, _)) hbase] at hrun
          cases hrun
        · have hbase := recvlBase_stop hself.receiving hframes
          rw [drain_stop (p := (self, _)) hbase] at hrun
          cases hrun

/-! ## The socket's own close frame -/

variable {first : List (List UInt8)} {key : Key} {type : UInt8} {s : List UInt8}

theorem bsend_inbound (buf s : List UInt8) : bsend inbound buf s = .ok (.ok (), s) := rfl

theorem sendBytes_inbound (mask : List UInt8) (pos : ℕ) (bs s : List UInt8) :
    ∃ pos', sendBytes inbound mask pos bs s = .ok (.ok pos', s) := by
  induction bs generalizing pos with
  | nil => exact ⟨pos, rfl⟩
  | cons b bs ih =>
    rw [sendBytes, Call.bind_ret (bsend_inbound _ s)]
    exact ih (pos + 1)

theorem sendElems_inbound (mask : List UInt8) (pos : ℕ) (first : List (List UInt8))
    (s : List UInt8) : sendElems inbound mask pos first s = .ok (.ok (), s) := by
  induction first generalizing pos with
  | nil => rfl
  | cons it next ih =>
    obtain ⟨pos', hsend⟩ := sendBytes_inbound mask pos it s
    rw [sendElems, Call.bind_ret hsend]
    exact ih pos'

theorem sendlBase_inbound_server (hs : self.server = true) (ho : self.outdone = false)
    (hne : first ≠ []) (hlt : first.flatten.length < 2 ^ 64)
    (random : Except Errno (List UInt8)) :
    sendlBase inbound self type first random s = .ok (.ok (), s) := by
  obtain ⟨buf, sz, hput, -⟩ := putHdr_minimal type none hlt (.inl rfl)
  have hput' : putHdr true type (UInt64.ofNat first.flatten.length) [] = some (buf, sz) := hput
  have hmask : makeMask true random s = .ok (.ok [], s) := rfl
  have hempty : first.isEmpty = false := by simpa using hne
  unfold sendlBase
  rw [Call.bind_ret (require_open ho), hs, Call.bind_ret hmask, Prefix.iolSize_eq, hput']
  simp only [if_true]
  rw [Call.bind_ret (bsend_inbound _ s), bsendl, hempty]
  rfl

theorem sendlBase_inbound_client (hs : self.server = false) (ho : self.outdone = false)
    (hlt : first.flatten.length < 2 ^ 16) :
    sendlBase inbound self type first (.ok key.bytes) s = .ok (.ok (), s) := by
  obtain ⟨buf, sz, hput, -⟩ := putHdr_minimal type (some key) (by omega) (.inr hlt)
  have hput' : putHdr false type (UInt64.ofNat first.flatten.length) key.bytes = some (buf, sz) :=
    hput
  have hmask : makeMask false (.ok key.bytes) s = .ok (.ok key.bytes, s) := rfl
  unfold sendlBase
  rw [Call.bind_ret (require_open ho), hs, Call.bind_ret hmask, Prefix.iolSize_eq, hput']
  simp only [Bool.false_eq_true, if_false]
  rw [Call.bind_ret (bsend_inbound _ s), sendElems_inbound]

theorem sendlBase_inbound_overflow (hs : self.server = false) (ho : self.outdone = false)
    (h : Prefix.iolSize first > 0xffff) :
    sendlBase inbound self type first (.ok key.bytes) s = .error .fault := by
  have hmask : makeMask false (.ok key.bytes) s = .ok (.ok key.bytes, s) := rfl
  unfold sendlBase
  rw [Call.bind_ret (require_open ho), hs, Call.bind_ret hmask, putHdr_overflow h]
  rfl

variable {status : ℤ} {r : Reason} {random : Except Errno Key}

theorem accepted_iff (buf : Elem) : Accepted status buf ↔
    ¬ ((status ≠ 0 ∧ (status < 1000 ∨ status > 4999)) ∨ (¬ buf.IsBuf ∧ buf.len > 0)) := by
  unfold Accepted
  by_cases hbuf : buf.IsBuf
  · simp only [hbuf, true_or, and_true, not_true_eq_false, false_and, or_false]
    omega
  · simp only [hbuf, false_or, not_false_eq_true, true_and]
    omega

theorem flatten_close : [if status = 0 then [] else puts (UInt16.ofInt status), r.buf.bytes].flatten
    = closePayload status r.buf.bytes := by
  simp [closePayload]

/-- Sending the close frame. -/
theorem done_inbound (ho : self.outdone = false) (h : self.CanClose status r random) :
    done inbound status r.buf (random.map Key.bytes) (self, s)
      = .ok (.ok (), { self with outdone := true }, s) := by
  have hlt := r.payload_lt status
  rcases h with h | ⟨hacc, h⟩
  · rw [ho] at h
    cases h
  · have hsend : sendlBase inbound self 0x8
        [if status = 0 then [] else puts (UInt16.ofInt status), r.buf.bytes]
        (random.map Key.bytes) s = .ok (.ok (), s) := by
      cases hserver : self.server with
      | true =>
        exact sendlBase_inbound_server hserver ho (List.cons_ne_nil _ _)
          (by rw [flatten_close]; omega) _
      | false =>
        rw [hserver] at h
        rcases h with h | ⟨⟨key, rfl⟩, hle⟩
        · cases h
        · exact sendlBase_inbound_client hserver ho (by rw [flatten_close]; omega)
    unfold done
    simp only
    rw [if_neg ((accepted_iff r.buf).mp hacc), ho, if_neg Bool.false_ne_true, hsend]

/-- Otherwise nothing is detached. -/
theorem done_cannot (ho : self.outdone = false) (h : ¬ self.CanClose status r random)
    (p : WsSock × List UInt8) :
    done inbound status r.buf (random.map Key.bytes) (self, s) ≠ .ok (.ok (), p) := by
  have hlt := r.payload_lt status
  intro hrun
  apply h
  right
  unfold done at hrun
  simp only at hrun
  by_cases hacc : Accepted status r.buf
  · refine ⟨hacc, ?_⟩
    rw [if_neg ((accepted_iff r.buf).mp hacc), ho, if_neg Bool.false_ne_true] at hrun
    cases hserver : self.server with
    | true => exact .inl rfl
    | false =>
      right
      cases random with
      | error e =>
        have hfail : sendlBase inbound self 0x8
            [if status = 0 then [] else puts (UInt16.ofInt status), r.buf.bytes]
            (.error e) s = .ok (.error e, s) := by
          have hmask : makeMask false (.error e) s = .ok (.error e, s) := rfl
          unfold sendlBase
          rw [Call.bind_ret (require_open ho), hserver, Call.bind_fail hmask]
        rw [show (Except.error e : Except Errno Key).map Key.bytes = .error e by rfl, hfail] at hrun
        cases hrun
      | ok key =>
        refine ⟨⟨key, rfl⟩, ?_⟩
        by_contra hbig
        have hsize : Prefix.iolSize [if status = 0 then [] else puts (UInt16.ofInt status),
            r.buf.bytes] > 0xffff := by
          rw [Prefix.iolSize_eq, flatten_close, show (0xffff : UInt64) = UInt64.ofNat 65535 by rfl,
            gt_ofNat (by omega) (by omega)]
          omega
        rw [show (Except.ok key : Except Errno Key).map Key.bytes = .ok key.bytes by rfl,
          sendlBase_inbound_overflow hserver ho hsize] at hrun
        cases hrun
  · rw [if_pos (by
      by_contra hn
      exact hacc ((accepted_iff r.buf).mpr hn))] at hrun
    cases hrun

/-! ## Detaching -/

theorem detach_outdone (ho : self.outdone = true) (errno : Errno) (n k : ℕ) :
    detach inbound errno n k status r.buf (random.map Key.bytes) (self, s)
      = drain inbound errno n k (self, s) := by
  unfold detach
  rw [Call.look_bind, ho]
  rfl

theorem detach_open (ho : self.outdone = false) (errno : Errno) (n k : ℕ) :
    detach inbound errno n k status r.buf (random.map Key.bytes) (self, s)
      = (done inbound status r.buf (random.map Key.bytes) >>= fun _ => drain inbound errno n k)
        (self, s) := by
  unfold detach
  rw [Call.look_bind, ho]
  rfl

/-- The outcome of detaching, if it returns at all. -/
theorem returns_iff (errno : Errno) (raw : List UInt8) :
    (∃ n k self', detach inbound errno n k status r.buf (random.map Key.bytes) (self, s)
        = .ok (.ok (), self', raw)) ↔
      self.CanClose status r random ∧ DrainsTo inbound errno ({ self with outdone := true }, s) raw := by
  cases ho : self.outdone with
  | true =>
    have hself : { self with outdone := true } = self := by
      rw [← ho]
    rw [hself]
    simp only [detach_outdone ho]
    constructor
    · intro h
      exact ⟨.inl ho, h⟩
    · intro h
      exact h.2
  | false =>
    simp only [detach_open ho]
    by_cases hclose : self.CanClose status r random
    · have hdone := done_inbound (s := s) ho hclose
      constructor
      · rintro ⟨n, k, self', hrun⟩
        rw [Call.bind_ret hdone] at hrun
        exact ⟨hclose, n, k, self', hrun⟩
      · rintro ⟨-, n, k, self', hrun⟩
        refine ⟨n, k, self', ?_⟩
        rw [Call.bind_ret hdone]
        exact hrun
    · refine iff_of_false ?_ fun h => hclose h.1
      rintro ⟨n, k, self', hrun⟩
      obtain ⟨_, p, hdone, -⟩ := Call.ret_of_bind hrun
      exact done_cannot ho hclose p hdone

/-- More messages and frames change nothing once detaching has ended. -/
theorem detach_mono {v : Except Stop (Except Errno Unit × WsSock × List UInt8)} (i j : ℕ)
    (h : detach inbound errno n k status r.buf (random.map Key.bytes) (self, s) = v)
    (hv : v ≠ .error .waits) :
    detach inbound errno (n + i) (k + j) status r.buf (random.map Key.bytes) (self, s) = v := by
  cases ho : self.outdone with
  | true =>
    rw [detach_outdone ho] at h ⊢
    exact drain_mono i j h hv
  | false =>
    rw [detach_open ho] at h ⊢
    cases hdone : done inbound status r.buf (random.map Key.bytes) (self, s) with
    | error r =>
      rw [Call.bind_stop hdone] at h ⊢
      exact h
    | ok q =>
      obtain ⟨o, p⟩ := q
      cases o with
      | error e =>
        rw [Call.bind_fail hdone] at h ⊢
        exact h
      | ok a =>
        rw [Call.bind_ret hdone] at h ⊢
        exact drain_mono i j h hv

/-- **Detaching.** The socket below is left exactly behind the close frame of the peer if and only if
the close frame of the socket itself has been or can be sent, no message to a server has any bytes, and
the size of no message is negative as a `ssize_t`. -/
theorem detach_drains_iff (self : WsSock) (server : Bool) (hself : self.Receives server)
    (errno : Errno) (status : ℤ) (r : Reason) (random : Except Errno Key) (ms : List (Sent server))
    (close : Frame) (hclose : close.WellFormed) (hrole : close.key.isSome = server)
    (raw : List UInt8) :
    self.Drains errno status r random
        (ms.flatMap (fun m => m.frames.flatMap Frame.encode) ++ (close.encode ++ raw)) raw ↔
      self.CanClose status r random ∧ ∀ m ∈ ms, m.Droppable := by
  have hself' : ({ self with outdone := true } : WsSock).Receives server :=
    ⟨hself.role, hself.receiving, hself.sized.status, hself.sized.msg⟩
  have hiff := drainsTo_iff reads_inbound hself' errno raw ms hclose hrole
  rw [← hiff, ← returns_iff]
  constructor
  · intro h
    exact h.returns
  · intro h
    refine ⟨h, fun i j hfault => ?_⟩
    obtain ⟨n, k, self', hrun⟩ := h
    have hmore := detach_mono i j hrun fun h => by cases h
    have hmore' := detach_mono n k hfault fun h => by cases h
    rw [Nat.add_comm i n, Nat.add_comm j k, hmore] at hmore'
    cases hmore'

/-- A client that has received a message in two frames, a close frame with status 1000 and one more
byte. -/
theorem detach_drains_client :
    let m : Sent false := ⟨true, fun _ => 72, [⟨none, .short, 2, by decide⟩,
      ⟨none, .medium, 300, by decide⟩], by simp, by simp⟩
    let close : Frame := ⟨true, 8, none, .short, [3, 232], by decide⟩
    (WsSock.attach false true 1 (List.replicate 128 0)).Drains .EAGAIN 1000 ⟨.null 0, by decide⟩
      (.ok ⟨[1, 2, 3, 4], rfl⟩)
      ([m].flatMap (fun m => m.frames.flatMap Frame.encode) ++ (close.encode ++ [7])) [7] := by
  intro m close
  refine (detach_drains_iff _ false ⟨rfl, rfl, rfl, List.length_replicate⟩ _ _ _ _ [m] close
    ⟨rfl, rfl, by decide, .inr ⟨by decide, by decide⟩⟩ rfl [7]).mpr ⟨?_, ?_⟩
  · exact .inr ⟨⟨.inr (by decide), .inr rfl⟩, .inr ⟨⟨_, rfl⟩, by decide⟩⟩
  · intro m' hm
    rw [List.mem_singleton.mp hm]
    exact ⟨fun h => (by cases h), by decide⟩

/-- A server to which one byte has been sent: to drop it, it is unmasked where there is no buffer. -/
theorem detach_null_pointer :
    let key : Key := ⟨[1, 2, 3, 4], rfl⟩
    let m : Sent true := ⟨true, fun _ => 72, [⟨some key, .short, 1, by decide⟩], by simp, by simp⟩
    let close : Frame := ⟨true, 8, some key, .short, [3, 232], by decide⟩
    let self := WsSock.attach true true 1 (List.replicate 128 0)
    let wire := m.frames.flatMap Frame.encode ++ (close.encode ++ [7])
    detach inbound .EAGAIN 1 1 1000 (.null 0) (.ok key.bytes) (self, wire) = .error .fault ∧
      ¬ self.Drains .EAGAIN 1000 ⟨.null 0, by decide⟩ (.ok key) wire [7] := by
  have hrun : detach inbound .EAGAIN 1 1 1000 (.null 0) (.ok [1, 2, 3, 4])
      (WsSock.attach true true 1 (List.replicate 128 0),
        [129, 129, 1, 2, 3, 4, 73, 136, 130, 1, 2, 3, 4, 2, 234, 7]) = .error .fault := rfl
  intro key m close self wire
  have hwire : wire = [129, 129, 1, 2, 3, 4, 73, 136, 130, 1, 2, 3, 4, 2, 234, 7] := by decide
  rw [hwire]
  exact ⟨hrun, fun h => h.defined 1 1 hrun⟩

end Libdill.Ws
