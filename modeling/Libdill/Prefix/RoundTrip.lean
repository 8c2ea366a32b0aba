import Libdill.Prefix.Model
import Mathlib.Data.List.Basic

/-!
# Headers, frames and round trips

* `getHdr_putHdr`: a header that was written for the size `sz` is read as `sz % 256 ^ hdrlen`, in
  both byte orders and for any header length.
-/

namespace Libdill.Prefix

open Foundations Libdill.Sock

variable {p : Params}

/-! ## The header -/

/-- Byte `i` of the size, the lowest being byte 0. -/
def sizeByte (sz : UInt64) (i : ℕ) : UInt8 := UInt8.ofNat (sz.toNat / 256 ^ i % 256)

@[simp] theorem sizeByte_toNat (sz : UInt64) (i : ℕ) :
    (sizeByte sz i).toNat = sz.toNat / 256 ^ i % 256 := by
  have h : sz.toNat / 256 ^ i % 256 < 256 := Nat.mod_lt _ (by decide)
  unfold sizeByte
  rw [UInt8.toNat_ofNat']
  exact Nat.mod_eq_of_lt h

theorem low_byte (sz : UInt64) : (sz &&& 0xff).toUInt8 = UInt8.ofNat (sz.toNat % 256) := by
  apply UInt8.toNat_inj.mp
  rw [UInt64.toNat_toUInt8, UInt64.toNat_and, UInt8.toNat_ofNat']
  have h : sz.toNat &&& 255 = sz.toNat % 256 := Nat.and_two_pow_sub_one_eq_mod sz.toNat 8
  show (sz.toNat &&& 255) % 2 ^ 8 = sz.toNat % 256 % 2 ^ 8
  rw [h]

theorem shift_byte (sz : UInt64) : (sz >>> 8).toNat = sz.toNat / 256 := by
  rw [UInt64.toNat_shiftRight]
  show sz.toNat >>> 8 = _
  rw [Nat.shiftRight_eq_div_pow]

/-- After `k` turns the lowest `k` bytes of the size are in their slots. -/
theorem fold_putTurn (sz : UInt64) (buf : List UInt8) (k : ℕ) :
    ∃ rest : UInt64, rest.toNat = sz.toNat / 256 ^ k ∧
      (List.range k).foldl p.putTurn (buf, sz)
        = ((List.range k).foldl (fun b i => b.set (p.txSlot i) (sizeByte sz i)) buf, rest) := by
  induction k with
  | zero => exact ⟨sz, by simp, rfl⟩
  | succ k ih =>
    obtain ⟨rest, hrest, heq⟩ := ih
    have hbyte : (rest &&& 0xff).toUInt8 = sizeByte sz k := by
      rw [low_byte, hrest]
      rfl
    have hnext : (rest >>> 8).toNat = sz.toNat / 256 ^ (k + 1) := by
      rw [shift_byte, hrest, Nat.div_div_eq_div_mul, pow_succ]
    refine ⟨rest >>> 8, hnext, ?_⟩
    rw [List.range_succ, List.foldl_append, List.foldl_append, heq]
    simp only [List.foldl_cons, List.foldl_nil, Params.putTurn, hbyte]

theorem fold_set_length {α : Type*} (f : ℕ → ℕ) (v : ℕ → α) (buf : List α) (k : ℕ) :
    ((List.range k).foldl (fun b i => b.set (f i) (v i)) buf).length = buf.length := by
  induction k with
  | zero => rfl
  | succ k ih =>
    rw [List.range_succ, List.foldl_append, List.foldl_cons, List.foldl_nil, List.length_set, ih]

@[simp] theorem putHdr_length (sz : UInt64) : (p.putHdr sz).length = p.hdrlen := by
  obtain ⟨rest, -, heq⟩ := fold_putTurn (p := p) sz (List.replicate p.hdrlen 0) p.hdrlen
  unfold Params.putHdr
  rw [heq, fold_set_length, List.length_replicate]

theorem txSlot_lt {i : ℕ} (hi : i < p.hdrlen) : p.txSlot i < p.hdrlen := by
  unfold Params.txSlot
  split <;> omega

theorem txSlot_inj {i i' : ℕ} (hi : i < p.hdrlen) (hi' : i' < p.hdrlen)
    (h : p.txSlot i = p.txSlot i') : i = i' := by
  unfold Params.txSlot at h
  split at h <;> omega

/-- The receiver reads the bytes from the highest down. -/
theorem rxSlot_eq {i : ℕ} (hi : i < p.hdrlen) : p.rxSlot i = p.txSlot (p.hdrlen - i - 1) := by
  unfold Params.rxSlot Params.txSlot
  split <;> omega

theorem putHdr_rxSlot (sz : UInt64) {i : ℕ} (hi : i < p.hdrlen) :
    (p.putHdr sz).getD (p.rxSlot i) 0 = sizeByte sz (p.hdrlen - i - 1) := by
  obtain ⟨rest, -, heq⟩ := fold_putTurn (p := p) sz (List.replicate p.hdrlen 0) p.hdrlen
  have hj : p.hdrlen - i - 1 < p.hdrlen := by omega
  have hlt : p.txSlot (p.hdrlen - i - 1) < (List.replicate p.hdrlen (0 : UInt8)).length := by
    rw [List.length_replicate]
    exact txSlot_lt hj
  have hget := fold_set p.txSlot (sizeByte sz) (List.replicate p.hdrlen 0) p.hdrlen
    (p.hdrlen - i - 1) (fun _ h _ h' => txSlot_inj h h') hj hlt
  unfold Params.putHdr
  rw [heq, rxSlot_eq hi, List.getD_eq_getElem?_getD, hget, Option.getD_some]

/-- One turn of the reading loop, on the values. -/
theorem getTurn_toNat (szbuf : List UInt8) (sz : UInt64) (i : ℕ) :
    (p.getTurn szbuf sz i).toNat
      = (sz.toNat * 256 + (szbuf.getD (p.rxSlot i) 0).toNat) % 2 ^ 64 := by
  have hc : (szbuf.getD (p.rxSlot i) 0).toNat < 2 ^ 8 := UInt8.toNat_lt _
  have hmod : sz.toNat * 2 ^ 8 % 2 ^ 64 = 2 ^ 8 * (sz.toNat % 2 ^ 56) := by
    rw [Nat.mul_comm, show (2 : ℕ) ^ 64 = 2 ^ 8 * 2 ^ 56 by rfl, Nat.mul_mod_mul_left]
  have hor := Nat.two_pow_add_eq_or_of_lt hc (sz.toNat % 2 ^ 56)
  have hshift : (sz <<< 8).toNat = 2 ^ 8 * (sz.toNat % 2 ^ 56) := by
    rw [UInt64.toNat_shiftLeft]
    show sz.toNat <<< 8 % 2 ^ 64 = _
    rw [Nat.shiftLeft_eq, hmod]
  unfold Params.getTurn
  rw [UInt64.toNat_or, hshift, UInt8.toNat_toUInt64, ← hor]
  omega

theorem fold_getTurn (szbuf : List UInt8) (k : ℕ) :
    ((List.range k).foldl (p.getTurn szbuf) 0).toNat
      = ((List.range k).foldl
          (fun acc i => acc * 256 + (szbuf.getD (p.rxSlot i) 0).toNat) 0) % 2 ^ 64 := by
  induction k with
  | zero => rfl
  | succ k ih =>
    rw [List.range_succ, List.foldl_append, List.foldl_append]
    simp only [List.foldl_cons, List.foldl_nil]
    rw [getTurn_toNat, ih]
    omega

/-- What the header of a size is read as: nothing is checked, so the size is cut to `hdrlen`
bytes. -/
theorem getHdr_putHdr (sz : UInt64) :
    (p.getHdr (p.putHdr sz)).toNat = sz.toNat % 256 ^ p.hdrlen := by
  have hfold : (List.range p.hdrlen).foldl
      (fun acc i => acc * 256 + ((p.putHdr sz).getD (p.rxSlot i) 0).toNat) 0
        = sz.toNat % 256 ^ p.hdrlen := by
    have hcongr : (List.range p.hdrlen).foldl
        (fun acc i => acc * 256 + ((p.putHdr sz).getD (p.rxSlot i) 0).toNat) 0
          = (List.range p.hdrlen).foldl
            (fun acc i => acc * 256 + sz.toNat / 256 ^ (p.hdrlen - i - 1) % 256) 0 := by
      apply List.foldl_ext
      intro acc i hi
      rw [putHdr_rxSlot sz (List.mem_range.mp hi), sizeByte_toNat]
    have hhorner := fold_horner 256 (fun i => sz.toNat / 256 ^ i % 256) p.hdrlen (le_refl _)
    rw [Nat.sub_self, pow_zero, Nat.mul_one, horner, Nat.add_zero, horner_digit] at hhorner
    rw [hcongr, hhorner]
  have hlt : sz.toNat % 256 ^ p.hdrlen < 2 ^ 64 :=
    lt_of_le_of_lt (Nat.mod_le _ _) (UInt64.toNat_lt sz)
  unfold Params.getHdr
  rw [fold_getTurn, hfold, Nat.mod_eq_of_lt hlt]

/-! ## One message -/

theorem fold_iolSize (first : List (List UInt8)) (sz : UInt64) :
    first.foldl (fun sz it => sz + UInt64.ofNat it.length) sz
      = sz + UInt64.ofNat first.flatten.length := by
  induction first generalizing sz with
  | nil => simp
  | cons it first ih =>
    rw [List.foldl_cons, ih, List.flatten_cons, List.length_append, UInt64.ofNat_add,
      UInt64.add_assoc]

/-- The size is a `size_t`: it is added up modulo `2 ^ 64`. -/
theorem iolSize_eq (first : List (List UInt8)) :
    iolSize first = UInt64.ofNat first.flatten.length := by
  unfold iolSize
  rw [fold_iolSize, UInt64.zero_add]

/-- What `dill_prefix_msendl` puts on the wire for the message `m`. -/
def Params.frame (p : Params) (m : List UInt8) : List UInt8 :=
  p.putHdr (UInt64.ofNat m.length) ++ m

variable {self : PrefixSock} {m rest : List UInt8} {len : ℕ}

theorem msendl_lossless (h : self.outerr = false) (s : List UInt8) (first : List (List UInt8)) :
    self.msendl lossless s first = (.ok (), self, s ++ self.frame first.flatten) := by
  unfold PrefixSock.msendl
  rw [h, if_neg (by decide), iolSize_eq]
  rfl

/-- The size a receiver reads in the header of a message. -/
def Params.sizeSeen (p : Params) (m : List UInt8) : ℕ := m.length % 2 ^ 64 % 256 ^ p.hdrlen

theorem getHdr_frame : (p.getHdr (p.putHdr (UInt64.ofNat m.length))).toNat = p.sizeSeen m := by
  rw [getHdr_putHdr, UInt64.toNat_ofNat']
  rfl

theorem sizeSeen_of_lt (h : m.length < 256 ^ p.hdrlen) (h' : m.length < 2 ^ 63) :
    p.sizeSeen m = m.length := by
  unfold Params.sizeSeen
  rw [Nat.mod_eq_of_lt (by omega : m.length < 2 ^ 64), Nat.mod_eq_of_lt h]

/-- A `size_t` is returned as a `ssize_t`. -/
theorem ssize_eq_iff {sz : UInt64} {n : ℕ} :
    sz.toInt64.toInt = n ↔ sz.toNat = n ∧ n < 2 ^ 63 := by
  have hlt : sz.toNat < 2 ^ 64 := UInt64.toNat_lt sz
  have hcast : sz.toInt64.toInt = sz.toBitVec.toInt := rfl
  have hbv : sz.toBitVec.toNat = sz.toNat := rfl
  rw [hcast, BitVec.toInt_eq_toNat_cond, hbv]
  split <;> omega

/-- The header is received, and what follows it is still there. -/
theorem mrecvl_frame (h : self.inerr = false) (rest : List UInt8) :
    self.mrecvl lossless (self.frame m ++ rest) [len]
      = if len < self.sizeSeen m then
          some (.error .EMSGSIZE, { self with inerr := true }, m ++ rest)
        else
          (lossless.brecvl (m ++ rest) [self.sizeSeen m] true).map fun r =>
            match r with
            | (.error e, s) => (.error e, { self with inerr := true }, s)
            | (.ok data, s) =>
              (.ok ((self.getHdr (self.putHdr (UInt64.ofNat m.length))).toInt64.toInt, data),
                self, s) := by
  have hhdr : lossless.brecvl (self.frame m ++ rest) [self.hdrlen] true
      = some (.ok (self.putHdr (UInt64.ofNat m.length)), m ++ rest) := by
    unfold Params.frame
    rw [List.append_assoc]
    apply lossless_brecvl
    rw [putHdr_length, List.sum_singleton]
  unfold PrefixSock.mrecvl
  rw [h, if_neg (by decide)]
  simp only [hhdr, getHdr_frame, List.isEmpty_cons, Bool.false_eq_true, if_false, trim]
  by_cases hlen : self.sizeSeen m ≤ len
  · rw [if_pos hlen, if_neg (by omega)]
    simp only [List.isEmpty_nil]
    cases hr : lossless.brecvl (m ++ rest) [self.sizeSeen m] true with
    | none => rfl
    | some r =>
      obtain ⟨r, s⟩ := r
      cases r <;> rfl
  · rw [if_neg hlen, if_pos (by omega)]
    rfl

/-- A message that fits in the header and in the buffer is received whole. -/
theorem mrecvl_fits (h : self.inerr = false) (hm : m.length < 256 ^ self.hdrlen)
    (hlt : m.length < 2 ^ 63) (hlen : m.length ≤ len) :
    self.mrecvl lossless (self.frame m ++ rest) [len] = some (.ok (m.length, m), self, rest) := by
  have hsz : self.sizeSeen m = m.length := sizeSeen_of_lt hm hlt
  have hhdr : (self.getHdr (self.putHdr (UInt64.ofNat m.length))).toNat = m.length :=
    getHdr_frame.trans hsz
  have hret := ssize_eq_iff.mpr ⟨hhdr, hlt⟩
  have hbody : lossless.brecvl (m ++ rest) [self.sizeSeen m] true = some (.ok m, rest) := by
    apply lossless_brecvl
    rw [hsz, List.sum_singleton]
  rw [mrecvl_frame h, if_neg (by omega), hbody, Option.map_some]
  simp only [hret]

/-- A message that fits in the header but not in the buffer is refused. -/
theorem mrecvl_small (h : self.inerr = false) (hm : m.length < 256 ^ self.hdrlen)
    (hlt : m.length < 2 ^ 63) (hlen : len < m.length) :
    self.mrecvl lossless (self.frame m ++ rest) [len]
      = some (.error .EMSGSIZE, { self with inerr := true }, m ++ rest) := by
  have hsz : self.sizeSeen m = m.length := sizeSeen_of_lt hm hlt
  rw [mrecvl_frame h, if_pos (by omega)]

theorem mrecvl_broken {σ : Type} {u : Bsock σ} {s : σ} {first : List ℕ} (h : self.inerr = true) :
    self.mrecvl u s first = some (.error .ECONNRESET, self, s) := by
  unfold PrefixSock.mrecvl
  rw [if_pos h]

/-- Every failed receive marks the socket, over any bytestream. -/
theorem inerr_of_error {σ : Type} {u : Bsock σ} {s s' : σ} {first : List ℕ} {self' : PrefixSock}
    {e : Errno} (h : self.mrecvl u s first = some (.error e, self', s')) :
    self'.inerr = true := by
  unfold PrefixSock.mrecvl at h
  split at h
  · rename_i hin
    cases h
    exact hin
  · simp only at h
    split at h
    · cases h
    · cases h
      rfl
    · split at h
      · split at h <;> cases h
        rfl
      · split at h
        · cases h
          rfl
        · split at h <;> cases h
          rfl

/-- On an empty wire a receive waits. -/
theorem mrecvl_empty (h : self.inerr = false) (first : List ℕ) :
    self.mrecvl lossless [] first = none := by
  have hpos : ¬ [self.hdrlen].sum ≤ ([] : List UInt8).length := by
    have := self.hdrlen_pos
    rw [List.sum_singleton, List.length_nil]
    omega
  have hhdr : lossless.brecvl [] [self.hdrlen] true = none := by
    simp only [lossless, Bool.true_eq_false, if_false, if_neg hpos]
  unfold PrefixSock.mrecvl
  rw [h, if_neg (by decide)]
  simp only [hhdr]

end Libdill.Prefix
