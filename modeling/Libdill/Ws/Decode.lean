import Libdill.Ws.Encode

/-!
# The decoder

What `dill_ws_recvl_base` makes of a frame at the front of the stream.

* `payload_spec`: the payload is spread over the elements; on a server each piece is unmasked as if
  it were the beginning of the payload.
* `frame_encode`: a frame is read as the frame it is, whatever the form of its length.
-/

namespace Libdill.Ws

open Foundations Libdill.Sock

variable {u : Bsock (List UInt8)} {rest bs : List UInt8} {s : Rx (List UInt8)}

theorem recv_run (hu : Reads u) (hs : s.u = bs ++ rest) :
    recv u bs.length s = .ok (.ok bs, { s with u := rest }) := by
  rw [recv, hs, hu bs rest]

/-! ## The payload -/

theorem masked_eq (key : Key) (pos : ℕ) (bs : List UInt8) :
    masked key.bytes pos bs = key.mask pos bs := by
  induction bs generalizing pos with
  | nil => rfl
  | cons b bs ih =>
    rw [masked, Key.mask, ih]
    rfl

/-- What the receiver does to a piece of the payload. -/
def unmask : Option Key → List UInt8 → List UInt8
  | none, bs => bs
  | some key, bs => key.mask 0 bs

@[simp] theorem unmask_nil (key : Option Key) : unmask key [] = [] := by
  cases key <;> rfl

@[simp] theorem length_unmask (key : Option Key) : (unmask key bs).length = bs.length := by
  cases key with
  | none => rfl
  | some key => exact length_mask

@[simp] theorem unmask_none : unmask none = id := rfl

variable {key : Option Key} {it : Elem} {l : List Elem}

theorem chunk_run (hu : Reads u) (h : key.isSome → 0 < bs.length → it.IsBuf) :
    chunk u (key.map Key.bytes) bs.length it (bs ++ rest)
      = .ok (.ok (it.put (unmask key bs)), rest) := by
  unfold chunk
  by_cases hz : bs.length = 0
  · have hnil : bs = [] := List.length_eq_zero_iff.mp hz
    rw [if_pos hz, hnil, unmask_nil, Elem.put_nil]
    rfl
  · rw [if_neg hz, Call.bind_ret (hu bs rest)]
    cases key with
    | none => rfl
    | some key =>
      cases it with
      | null n => exact (h rfl (by omega)).elim
      | buf mem =>
        simp only [Option.map_some, masked_eq]
        rfl

theorem take_drop_append (n : ℕ) :
    bs ++ rest = bs.take n ++ (bs.drop n ++ rest) := by
  rw [← List.append_assoc, List.take_append_drop]

theorem chunk_take (hu : Reads u) (hle : it.len ≤ bs.length)
    (h : key.isSome → 0 < it.len → it.IsBuf) :
    chunk u (key.map Key.bytes) it.len it (bs ++ rest)
      = .ok (.ok (it.put (unmask key (bs.take it.len))), bs.drop it.len ++ rest) := by
  have hlen : (bs.take it.len).length = it.len := by
    rw [List.length_take]
    omega
  have hrun : chunk u (key.map Key.bytes) (bs.take it.len).length it
      (bs.take it.len ++ (bs.drop it.len ++ rest))
        = .ok (.ok (it.put (unmask key (bs.take it.len))), bs.drop it.len ++ rest) :=
    chunk_run hu fun hk hpos => h hk (by omega)
  rw [hlen, ← take_drop_append] at hrun
  exact hrun

/-- Unmasking bytes that are skipped goes through the null pointer. -/
theorem chunk_fault (hu : Reads u) {key : Key} {n : ℕ} (hpos : 0 < n) (hn : n ≤ bs.length)
    (h : ¬ it.IsBuf) : chunk u (some key.bytes) n it (bs ++ rest) = .error .fault := by
  have hread : brecv u n (bs ++ rest) = .ok (.ok (bs.take n), bs.drop n ++ rest) := by
    have hlen : (bs.take n).length = n := by
      rw [List.length_take]
      omega
    have hrun := hu (bs.take n) (bs.drop n ++ rest)
    rw [hlen, ← take_drop_append] at hrun
    exact hrun
  unfold chunk
  rw [if_neg (by omega), Call.bind_ret hread]
  cases it with
  | null n => rfl
  | buf mem => exact absurd trivial h

/-- One turn of the loop that reads the payload, when the element has room for all of it. -/
theorem payload_short {mask : Option (List UInt8)} {it' : Elem} (hle : bs.length ≤ it.len)
    (hc : chunk u mask bs.length it (bs ++ rest) = .ok (.ok it', rest)) :
    payload u mask bs.length (it :: l) (bs ++ rest) = .ok (.ok (), [], it' :: l, rest) := by
  rw [payload]
  simp only [Nat.min_eq_left hle, hc, Nat.sub_self, if_true]

section Long

variable {mask : Option (List UInt8)} {it' : Elem} (hlt : it.len < bs.length) (hl : l ≠ [])
  (hc : chunk u mask it.len it (bs ++ rest) = .ok (.ok it', bs.drop it.len ++ rest))

include hlt hl hc

/-- One turn of the loop when the element is filled and more is to come. -/
theorem payload_long {o : Except Errno Unit} {passed l' : List Elem} {s' : List UInt8}
    (hr : payload u mask (bs.drop it.len).length l (bs.drop it.len ++ rest)
      = .ok (o, passed, l', s')) :
    payload u mask bs.length (it :: l) (bs ++ rest) = .ok (o, it' :: passed, l', s') := by
  have hne : l.isEmpty = false := by simpa using hl
  have hsz : bs.length - it.len ≠ 0 := by omega
  rw [List.length_drop] at hr
  rw [payload]
  simp only [Nat.min_eq_right (le_of_lt hlt), hc, if_neg hsz, hne, hr, Bool.false_eq_true, if_false]

theorem payload_long_stop {r : Stop}
    (hr : payload u mask (bs.drop it.len).length l (bs.drop it.len ++ rest) = .error r) :
    payload u mask bs.length (it :: l) (bs ++ rest) = .error r := by
  have hne : l.isEmpty = false := by simpa using hl
  have hsz : bs.length - it.len ≠ 0 := by omega
  rw [List.length_drop] at hr
  rw [payload]
  simp only [Nat.min_eq_right (le_of_lt hlt), hc, if_neg hsz, hne, hr, Bool.false_eq_true, if_false]

end Long

theorem ne_nil_of_capacity (hlt : it.len < bs.length) (hcap : bs.length ≤ capacity (it :: l)) :
    l ≠ [] := by
  rintro rfl
  rw [capacity_cons, capacity_nil] at hcap
  omega

/-- **The payload of a frame.** -/
theorem payload_spec (hu : Reads u) (hcap : bs.length ≤ capacity l)
    (hst : key.isSome → Stored bs.length l) :
    payload u (key.map Key.bytes) bs.length l (bs ++ rest)
      = .ok (.ok (), (spread (unmask key) bs l).1, (spread (unmask key) bs l).2, rest) := by
  induction l generalizing bs with
  | nil =>
    have hnil : bs = [] := List.length_eq_zero_iff.mp (by simpa using hcap)
    rw [hnil]
    rfl
  | cons it l ih =>
    by_cases hle : bs.length ≤ it.len
    · have hit : key.isSome → 0 < bs.length → it.IsBuf := fun hk hpos =>
        (hst hk).1 (by omega)
      rw [payload_short hle (chunk_run hu hit), spread_short hle]
    · have hlt : it.len < bs.length := by omega
      have hit : key.isSome → 0 < it.len → it.IsBuf := fun hk hpos => (hst hk).1 (by omega)
      have hcap' : (bs.drop it.len).length ≤ capacity l := by
        rw [capacity_cons] at hcap
        rw [List.length_drop]
        omega
      have hst' : key.isSome → Stored (bs.drop it.len).length l := by
        intro hk
        rw [List.length_drop]
        exact (hst hk).2
      have hc := @chunk_take u rest bs key it hu (le_of_lt hlt) hit
      rw [payload_long hlt (ne_nil_of_capacity hlt hcap) hc (ih hcap' hst'), spread_long hlt]

/-- A payload that has to be unmasked in an element with a null base. -/
theorem payload_fault (hu : Reads u) {key : Key} (hcap : bs.length ≤ capacity l)
    (hst : ¬ Stored bs.length l) :
    payload u (some key.bytes) bs.length l (bs ++ rest) = .error .fault := by
  induction l generalizing bs with
  | nil => exact absurd trivial hst
  | cons it l ih =>
    by_cases hle : bs.length ≤ it.len
    · have hnot : 0 < bs.length ∧ ¬ it.IsBuf := by
        by_contra h
        apply hst
        constructor
        · intro hpos
          by_contra hbuf
          exact h ⟨by omega, hbuf⟩
        · rw [Nat.sub_eq_zero_of_le hle]
          exact stored_zero l
      rw [payload]
      simp only [Nat.min_eq_left hle, chunk_fault hu hnot.1 (le_refl _) hnot.2]
    · have hlt : it.len < bs.length := by omega
      have hcap' : (bs.drop it.len).length ≤ capacity l := by
        rw [capacity_cons] at hcap
        rw [List.length_drop]
        omega
      by_cases hit : 0 < it.len → it.IsBuf
      · have hst' : ¬ Stored (bs.drop it.len).length l := by
          intro h
          rw [List.length_drop] at h
          exact hst ⟨fun hpos => hit (by omega), h⟩
        have hc := @chunk_take u rest bs (some key) it hu (le_of_lt hlt) fun _ => hit
        exact payload_long_stop hlt (ne_nil_of_capacity hlt hcap) hc (ih hcap' hst')
      · obtain ⟨hpos, hbuf⟩ := Classical.not_imp.mp hit
        rw [payload]
        simp only [Nat.min_eq_right (le_of_lt hlt), chunk_fault hu hpos (le_of_lt hlt) hbuf]

/-! ## The header -/

/-- The first byte of a header. -/
theorem hdr_first {opcode : UInt8} (h : opcode = 0 ∨ opcode = 1 ∨ opcode = 2 ∨ opcode = 8)
    (fin : Bool) :
    let b := (if fin then 0x80 else 0) ||| opcode
    (b &&& 0x80 != 0) = fin ∧ (b &&& 0x70 == 0) = true ∧ b &&& 0x0f = opcode := by
  rcases h with rfl | rfl | rfl | rfl <;> cases fin <;> decide

/-- The second byte of a header. -/
theorem hdr_second {code : ℕ} (h : code < 128) (masked : Bool) :
    let b := (if masked then 0x80 else 0) ||| UInt8.ofNat code
    (b &&& 0x80 != 0) = masked ∧ b &&& 0x7f = UInt8.ofNat code := by
  have hall : ∀ c : Fin 128, ∀ masked : Bool,
      (((if masked then 0x80 else 0) ||| UInt8.ofNat c.val) &&& 0x80 != 0) = masked ∧
      ((if masked then 0x80 else 0) ||| UInt8.ofNat c.val) &&& 0x7f = UInt8.ofNat c.val := by
    decide +kernel
  exact hall ⟨code, h⟩ masked

/-- The size is read as it was written, in each of its forms. -/
theorem readSize_form (hu : Reads u) {form : LenForm} {n : ℕ} (h : form.Fits n)
    (hs : s.u = form.ext n ++ rest) :
    readSize u (UInt8.ofNat (form.code n)) s
      = .ok (.ok (UInt64.ofNat n), { s with u := rest }) := by
  unfold readSize
  cases form with
  | short =>
    have hn : n ≤ 125 := h
    have hnat : (UInt8.ofNat n).toNat = n := by
      rw [UInt8.toNat_ofNat']
      omega
    have h126 : UInt8.ofNat (LenForm.short.code n) ≠ 126 := by
      intro he
      have hval := congrArg UInt8.toNat he
      change (UInt8.ofNat n).toNat = 126 at hval
      omega
    have h127 : UInt8.ofNat (LenForm.short.code n) ≠ 127 := by
      intro he
      have hval := congrArg UInt8.toNat he
      change (UInt8.ofNat n).toNat = 127 at hval
      omega
    have hval : (UInt8.ofNat n).toUInt64 = UInt64.ofNat n := by
      apply UInt64.toNat_inj.mp
      rw [UInt8.toNat_toUInt64, hnat, UInt64.toNat_ofNat']
      omega
    have hrest : s.u = rest := hs
    rw [if_neg h126, if_neg h127]
    change Except.ok (Except.ok (UInt8.ofNat n).toUInt64, s) = _
    rw [hval, ← hrest]
  | medium =>
    have hn : n < 2 ^ 16 := h
    have hlen := length_bigEndian 2 n
    have hread := recv_run hu hs
    change recv u (bigEndian 2 n).length s = .ok (.ok (bigEndian 2 n), { s with u := rest }) at hread
    have hval : (gets (bigEndian 2 n)).toUInt64 = UInt64.ofNat n := by
      apply UInt64.toNat_inj.mp
      rw [UInt16.toNat_toUInt64, UInt64.toNat_ofNat']
      change (gets [_, _]).toNat = _
      rw [gets_toNat]
      change ofBigEndian (bigEndian 2 n) = _
      rw [ofBigEndian_bigEndian]
      omega
    rw [hlen] at hread
    rw [show UInt8.ofNat (LenForm.medium.code n) = 126 by rfl, if_pos rfl, Call.bind_ret hread, hval]
    rfl
  | long =>
    have hn : n < 2 ^ 63 := h
    have hlen := length_bigEndian 8 n
    have hread := recv_run hu hs
    change recv u (bigEndian 8 n).length s = .ok (.ok (bigEndian 8 n), { s with u := rest }) at hread
    have hval : getll (bigEndian 8 n) = UInt64.ofNat n := by
      apply UInt64.toNat_inj.mp
      rw [UInt64.toNat_ofNat']
      change (getll [_, _, _, _, _, _, _, _]).toNat = _
      rw [getll_toNat]
      change ofBigEndian (bigEndian 8 n) = _
      rw [ofBigEndian_bigEndian]
      omega
    rw [hlen] at hread
    rw [show UInt8.ofNat (LenForm.long.code n) = 127 by rfl, if_neg (by decide), if_pos rfl,
      Call.bind_ret hread, hval]
    rfl

/-- The state after the `switch` over the opcode. -/
def Rx.opened {σ : Type} (s : Rx σ) (opcode : UInt8) : Rx σ :=
  if opcode = 1 then { s with flags := some 1 }
  else if opcode = 2 then { s with flags := some 0 }
  else if opcode = 8 then { s with self := { s.self with indone := true } }
  else s

theorem switchOpcode_run {opcode : UInt8}
    (h : opcode = 0 ∨ opcode = 1 ∨ opcode = 2 ∨ opcode = 8) :
    switchOpcode opcode s = .ok (.ok (), s.opened opcode) := by
  rcases h with rfl | rfl | rfl | rfl <;> rfl

@[simp] theorem opened_server (opcode : UInt8) : (s.opened opcode).self.server = s.self.server := by
  unfold Rx.opened
  split
  · rfl
  · split
    · rfl
    · split <;> rfl

@[simp] theorem opened_u (opcode : UInt8) : (s.opened opcode).u = s.u := by
  unfold Rx.opened
  split
  · rfl
  · split
    · rfl
    · split <;> rfl

theorem opened_withU (opcode : UInt8) (w w' : List UInt8) :
    ({ ({ s with u := w }).opened opcode with u := w' } : Rx (List UInt8))
      = { s.opened opcode with u := w' } := by
  unfold Rx.opened
  split
  · rfl
  · split
    · rfl
    · split <;> rfl

/-- A frame whose header a socket of this role accepts. -/
structure Frame.Known (server : Bool) (f : Frame) : Prop where
  opcode : f.opcode = 0 ∨ f.opcode = 1 ∨ f.opcode = 2 ∨ f.opcode = 8
  role : f.key.isSome = server

/-- A close frame is short and not fragmented. -/
def Frame.Control (f : Frame) : Prop :=
  f.opcode = 8 → f.payload.length ≤ 125 ∧ f.fin = true

/-- A frame a socket of this role accepts. -/
structure Frame.Valid (server : Bool) (f : Frame) : Prop extends f.Known server where
  control : f.Control

theorem readMask_run (hu : Reads u) {key : Option Key} (hs : s.u = keyBytes key ++ rest) :
    readMask u key.isSome s = .ok (.ok (key.map Key.bytes), { s with u := rest }) := by
  cases key with
  | none =>
    have hrest : s.u = rest := hs
    rw [← hrest]
    rfl
  | some key =>
    have hread := recv_run hu hs
    change recv u key.bytes.length s = .ok (.ok key.bytes, { s with u := rest }) at hread
    rw [key.length_bytes] at hread
    change ((recv u 4) >>= fun mask => pure (some mask)) s = _
    rw [Call.bind_ret hread]
    rfl

/-- The check on close frames. -/
theorem control_iff {f : Frame} (h : f.opcode = 0 ∨ f.opcode = 1 ∨ f.opcode = 2 ∨ f.opcode = 8) :
    (!(8 ≤ f.opcode && (125 < UInt64.ofNat f.payload.length || !f.fin))) = true ↔ f.Control := by
  have hlt := f.fits.lt
  have hsz : (UInt64.ofNat f.payload.length).toNat = f.payload.length := by
    rw [UInt64.toNat_ofNat']
    omega
  have hle : (125 : UInt64) < UInt64.ofNat f.payload.length ↔ ¬ f.payload.length ≤ 125 := by
    rw [UInt64.lt_iff_toNat_lt, hsz]
    change 125 < _ ↔ _
    omega
  unfold Frame.Control
  rcases h with h | h | h | h
  · rw [h]
    exact iff_of_true rfl fun h8 => by cases h8
  · rw [h]
    exact iff_of_true rfl fun h8 => by cases h8
  · rw [h]
    exact iff_of_true rfl fun h8 => by cases h8
  · rw [h]
    simp [hle]

/-- The header of a frame is read, up to the check on close frames. -/
theorem frame_header (hu : Reads u) {f : Frame} (hf : f.Known s.self.server)
    (hs : s.u = f.encode ++ rest) (res : UInt64) :
    frame u res s
      = (Call.require (!(8 ≤ f.opcode && (125 < UInt64.ofNat f.payload.length || !f.fin))) .EPROTO >>=
          fun _ => readMask u f.key.isSome >>= fun mask =>
            readPayload u (f.opcode == 8) mask (UInt64.ofNat f.payload.length).toNat >>= fun _ =>
              pure (res + UInt64.ofNat f.payload.length, f.fin))
        { s.opened f.opcode with u := keyBytes f.key ++ (f.body ++ rest) } := by
  obtain ⟨hfin, hrsv, hop⟩ := hdr_first hf.opcode f.fin
  obtain ⟨hmasked, hcode⟩ := hdr_second (f.form.code_lt f.fits) f.key.isSome
  have hrest : s.u = hdrBytes f.fin f.opcode f.key.isSome (f.form.code f.payload.length) ++
      (f.form.ext f.payload.length ++ (keyBytes f.key ++ (f.body ++ rest))) := by
    rw [hs, Frame.encode]
    simp only [List.append_assoc]
  have hhdr : recv u 2 s = .ok (.ok (hdrBytes f.fin f.opcode f.key.isSome
      (f.form.code f.payload.length)), { s with u := f.form.ext f.payload.length ++
        (keyBytes f.key ++ (f.body ++ rest)) }) := recv_run hu hrest
  unfold frame
  rw [Call.bind_ret hhdr]
  simp only [hdrBytes, List.getD_cons_zero, List.getD_cons_succ]
  rw [hrsv, Call.bind_ret Call.require_true, hop, Call.bind_ret (switchOpcode_run hf.opcode),
    Call.look_bind, opened_server, ← hf.role, hmasked, beq_self_eq_true,
    Call.bind_ret Call.require_true, hcode,
    Call.bind_ret (readSize_form hu f.fits (opened_u f.opcode)), hfin]
  simp only [opened_withU]

/-- **A frame is read as the frame it is.** What is left is to read its payload. -/
theorem frame_encode (hu : Reads u) {f : Frame} (hf : f.Valid s.self.server)
    (hs : s.u = f.encode ++ rest) (res : UInt64) :
    frame u res s
      = (readPayload u (f.opcode == 8) (f.key.map Key.bytes) f.payload.length >>= fun _ =>
          pure (res + UInt64.ofNat f.payload.length, f.fin))
        { s.opened f.opcode with u := f.body ++ rest } := by
  have hlt := f.fits.lt
  have hsz : (UInt64.ofNat f.payload.length).toNat = f.payload.length := by
    rw [UInt64.toNat_ofNat']
    omega
  rw [frame_header hu hf.toKnown hs, (control_iff hf.opcode).mpr hf.control,
    Call.bind_ret Call.require_true, Call.bind_ret (readMask_run hu rfl), hsz]

/-- A close frame that is too long or fragmented is refused when its header has been read. -/
theorem frame_refused (hu : Reads u) {f : Frame} (hf : f.Known s.self.server)
    (hctl : ¬ f.Control) (hs : s.u = f.encode ++ rest) (res : UInt64) :
    frame u res s = .ok (.error .EPROTO,
      { s.opened f.opcode with u := keyBytes f.key ++ (f.body ++ rest) }) := by
  have hnot : (!(8 ≤ f.opcode && (125 < UInt64.ofNat f.payload.length || !f.fin))) = false := by
    rw [Bool.eq_false_iff]
    exact fun h => hctl ((control_iff hf.opcode).mp h)
  rw [frame_header hu hf hs, hnot, Call.bind_fail Call.require_false]

/-! ## Frames with data -/

theorem opened_data {opcode : UInt8} (h : opcode ≠ 8) :
    (s.opened opcode).self = s.self ∧ (s.opened opcode).passed = s.passed ∧
      (s.opened opcode).it = s.it := by
  unfold Rx.opened
  split
  · exact ⟨rfl, rfl, rfl⟩
  · split
    · exact ⟨rfl, rfl, rfl⟩
    · exact ⟨rfl, rfl, rfl⟩

/-- The state after a frame with data has been spread over the elements from `it` on. -/
def Rx.stored (s : Rx (List UInt8)) (f : Frame) (rest : List UInt8) : Rx (List UInt8) where
  self := s.self
  u := rest
  passed := s.passed ++ (spread (unmask f.key) f.body s.it).1
  it := (spread (unmask f.key) f.body s.it).2
  flags := (s.opened f.opcode).flags

variable {f : Frame}

theorem frame_data (hu : Reads u) (hf : f.Valid s.self.server) (hdata : f.opcode ≠ 8)
    (hs : s.u = f.encode ++ rest) (hcap : f.payload.length ≤ capacity s.it)
    (hst : f.key.isSome → Stored f.payload.length s.it) (res : UInt64) :
    frame u res s = .ok (.ok (res + UInt64.ofNat f.payload.length, f.fin), s.stored f rest) := by
  obtain ⟨hself, hpassed, hit⟩ := opened_data (s := s) hdata
  have hop : (f.opcode == 8) = false := by simpa using hdata
  have hpay := @payload_spec u rest f.body f.key s.it hu (by rw [Frame.length_body]; exact hcap)
    (by rw [Frame.length_body]; exact hst)
  have hread : readPayload u false (f.key.map Key.bytes) f.payload.length
      { s.opened f.opcode with u := f.body ++ rest } = .ok (.ok (), s.stored f rest) := by
    rw [Frame.length_body] at hpay
    unfold readPayload
    simp only [Bool.false_eq_true, if_false, hit, hpay, hself, hpassed]
    rfl
  rw [frame_encode hu hf hs, hop, Call.bind_ret hread]
  rfl

/-- A payload that has to be unmasked where there is no buffer. -/
theorem frame_fault (hu : Reads u) (hf : f.Valid s.self.server) (hdata : f.opcode ≠ 8)
    (hs : s.u = f.encode ++ rest) (hcap : f.payload.length ≤ capacity s.it)
    (hkey : f.key.isSome) (hst : ¬ Stored f.payload.length s.it) (res : UInt64) :
    frame u res s = .error .fault := by
  obtain ⟨hself, hpassed, hit⟩ := opened_data (s := s) hdata
  obtain ⟨key, hkey⟩ := Option.isSome_iff_exists.mp hkey
  have hop : (f.opcode == 8) = false := by simpa using hdata
  have hpay := @payload_fault u rest f.body s.it hu key (by rw [Frame.length_body]; exact hcap)
    (by rw [Frame.length_body]; exact hst)
  have hread : readPayload u false (f.key.map Key.bytes) f.payload.length
      { s.opened f.opcode with u := f.body ++ rest } = .error .fault := by
    rw [Frame.length_body] at hpay
    unfold readPayload
    simp only [Bool.false_eq_true, if_false, hit, hkey, Option.map_some, hpay]
  rw [frame_encode hu hf hs, hop, Call.bind_stop hread]

/-! ## Whole messages -/

variable {n : ℕ} {res res' : UInt64} {s' : Rx (List UInt8)}

theorem frames_last (h : frame u res s = .ok (.ok (res', true), s')) :
    frames u (n + 1) res s = .ok (.ok res', s') := by
  rw [frames, Call.bind_ret h]
  rfl

theorem frames_more (h : frame u res s = .ok (.ok (res', false), s')) :
    frames u (n + 1) res s = frames u n res' s' := by
  rw [frames, Call.bind_ret h]
  rfl

theorem frames_stop {r : Stop} (h : frame u res s = .error r) :
    frames u (n + 1) res s = .error r := by
  rw [frames, Call.bind_stop h]

/-- A receive that gets a message. -/
theorem recvlBase_data (hopen : s.self.indone = false) (h : frames u n 0 s = .ok (.ok res, s'))
    (hopen' : s'.self.indone = false) :
    recvlBase u n s = .ok (.ok res.toInt64.toInt, s') := by
  unfold recvlBase
  rw [Call.look_bind, hopen, beq_self_eq_true, Call.bind_ret Call.require_true, Call.bind_ret h,
    Call.look_bind, hopen']
  rfl

theorem recvlBase_stop {r : Stop} (hopen : s.self.indone = false) (h : frames u n 0 s = .error r) :
    recvlBase u n s = .error r := by
  unfold recvlBase
  rw [Call.look_bind, hopen, beq_self_eq_true, Call.bind_ret Call.require_true, Call.bind_stop h]

/-- After a close frame nothing is received any more. -/
theorem recvlBase_closed (h : s.self.indone = true) :
    recvlBase u n s = .ok (.error .EPIPE, s) := by
  unfold recvlBase
  rw [Call.look_bind, h]
  rfl

end Libdill.Ws
