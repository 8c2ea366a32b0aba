import Libdill.Foundations.BitStream
import Libdill.Foundations.Output
import Libdill.Sock.Msock
import Mathlib.Data.Int.DivMod

/-!
# Base64

`dill_base64_encode` and `dill_base64_decode` of `utils.c` as they write to the buffer of the caller.
Both move bits through the 32-bit accumulator `v`, of which the lowest `rem` bits have not been
written.

* `rfc4648`: the encoding, group by group; `Canonical`: the texts that are encodings.
* `encode_emits`, `decode_emits`: what the two functions write into a buffer.
* `base64_codec`: the encoder writes the encoding, and the decoder undoes it.
-/

namespace Libdill.Utils

open Foundations Libdill.Sock

/-! ## The encoding -/

/-- The characters that stand for six bits. -/
def alphabet : List UInt8 :=
  "ABCDEFGHIJKLMNOPQRSTUVWXYZabcdefghijklmnopqrstuvwxyz0123456789+/".toList.map fun c =>
    UInt8.ofNat c.toNat

/-- The character for `n`. -/
def charOf (n : ℕ) : UInt8 := alphabet.getD n 0

/-- The six bits a character stands for. -/
def valueOf (c : UInt8) : Option ℕ := alphabet.idxOf? c

/-- The character `=`. -/
def padChar : UInt8 := 61

/-- The four groups of six bits in a group of 24. -/
def quantum (n : ℕ) : List ℕ := [n / 2 ^ 18 % 64, n / 2 ^ 12 % 64, n / 2 ^ 6 % 64, n % 64]

/-- **The encoding.** What is missing in the last group is padded. -/
def rfc4648 : List UInt8 → List UInt8
  | [] => []
  | [a] => ((quantum (a.toNat * 2 ^ 16)).take 2).map charOf ++ [padChar, padChar]
  | [a, b] => ((quantum (a.toNat * 2 ^ 16 + b.toNat * 2 ^ 8)).take 3).map charOf ++ [padChar]
  | a :: b :: c :: l =>
    (quantum (a.toNat * 2 ^ 16 + b.toNat * 2 ^ 8 + c.toNat)).map charOf ++ rfc4648 l

/-- Groups of four characters, the last of which may be padded. The bits for which there is no byte
are zero. -/
inductive Canonical : List UInt8 → Prop
  | nil : Canonical []
  | pad2 {a b : ℕ} (ha : a < 64) (hb : b < 64) (hzero : b % 16 = 0) :
      Canonical [charOf a, charOf b, padChar, padChar]
  | pad1 {a b c : ℕ} (ha : a < 64) (hb : b < 64) (hc : c < 64) (hzero : c % 4 = 0) :
      Canonical [charOf a, charOf b, charOf c, padChar]
  | quad {a b c d : ℕ} {l : List UInt8} (ha : a < 64) (hb : b < 64) (hc : c < 64) (hd : d < 64)
      (hl : Canonical l) : Canonical (charOf a :: charOf b :: charOf c :: charOf d :: l)

/-! ## The code -/

/-- `ENCODEMAP`. -/
def encodeMap : List UInt8 :=
  "ABCDEFGHIJKLMNOPQRSTUVWXYZabcdefghijklmnopqrstuvwxyz0123456789+/".toList.map fun c =>
    UInt8.ofNat c.toNat

/-- `DECODEMAP`. -/
def decodeMap : List UInt8 :=
  [0xFF, 0xFF, 0xFF, 0xFF, 0xFF, 0xFF, 0xFF, 0xFF, 0xFF, 0xFF, 0xFF, 0xFF, 0xFF, 0xFF, 0xFF, 0xFF,
   0xFF, 0xFF, 0xFF, 0xFF, 0xFF, 0xFF, 0xFF, 0xFF, 0xFF, 0xFF, 0xFF, 0xFF, 0xFF, 0xFF, 0xFF, 0xFF,
   0xFF, 0xFF, 0xFF, 0xFF, 0xFF, 0xFF, 0xFF, 0xFF, 0xFF, 0xFF, 0xFF, 0x3E, 0xFF, 0xFF, 0xFF, 0x3F,
   0x34, 0x35, 0x36, 0x37, 0x38, 0x39, 0x3A, 0x3B, 0x3C, 0x3D, 0xFF, 0xFF, 0xFF, 0x3E, 0xFF, 0xFF,
   0xFF, 0x00, 0x01, 0x02, 0x03, 0x04, 0x05, 0x06, 0x07, 0x08, 0x09, 0x0A, 0x0B, 0x0C, 0x0D, 0x0E,
   0x0F, 0x10, 0x11, 0x12, 0x13, 0x14, 0x15, 0x16, 0x17, 0x18, 0x19, 0xFF, 0xFF, 0xFF, 0xFF, 0xFF,
   0xFF, 0x1A, 0x1B, 0x1C, 0x1D, 0x1E, 0x1F, 0x20, 0x21, 0x22, 0x23, 0x24, 0x25, 0x26, 0x27, 0x28,
   0x29, 0x2A, 0x2B, 0x2C, 0x2D, 0x2E, 0x2F, 0x30, 0x31, 0x32, 0x33, 0xFF, 0xFF, 0xFF, 0xFF, 0xFF,
   0xFF, 0xFF, 0xFF, 0xFF, 0xFF, 0xFF, 0xFF, 0xFF, 0xFF, 0xFF, 0xFF, 0xFF, 0xFF, 0xFF, 0xFF, 0xFF,
   0xFF, 0xFF, 0xFF, 0xFF, 0xFF, 0xFF, 0xFF, 0xFF, 0xFF, 0xFF, 0xFF, 0xFF, 0xFF, 0xFF, 0xFF, 0xFF,
   0xFF, 0xFF, 0xFF, 0xFF, 0xFF, 0xFF, 0xFF, 0xFF, 0xFF, 0xFF, 0xFF, 0xFF, 0xFF, 0xFF, 0xFF, 0xFF,
   0xFF, 0xFF, 0xFF, 0xFF, 0xFF, 0xFF, 0xFF, 0xFF, 0xFF, 0xFF, 0xFF, 0xFF, 0xFF, 0xFF, 0xFF, 0xFF,
   0xFF, 0xFF, 0xFF, 0xFF, 0xFF, 0xFF, 0xFF, 0xFF, 0xFF, 0xFF, 0xFF, 0xFF, 0xFF, 0xFF, 0xFF, 0xFF,
   0xFF, 0xFF, 0xFF, 0xFF, 0xFF, 0xFF, 0xFF, 0xFF, 0xFF, 0xFF, 0xFF, 0xFF, 0xFF, 0xFF, 0xFF, 0xFF,
   0xFF, 0xFF, 0xFF, 0xFF, 0xFF, 0xFF, 0xFF, 0xFF, 0xFF, 0xFF, 0xFF, 0xFF, 0xFF, 0xFF, 0xFF, 0xFF,
   0xFF, 0xFF, 0xFF, 0xFF, 0xFF, 0xFF, 0xFF, 0xFF, 0xFF, 0xFF, 0xFF, 0xFF, 0xFF, 0xFF, 0xFF, 0xFF]

/-- The range of an `unsigned`. -/
def uintRange : ℕ := 2 ^ 32

/-- An `unsigned` that is returned as an `int`. -/
def asInt (io : ℕ) : ℤ := (io : ℤ).bmod uintRange

/-- What a call does with the buffer `out`. -/
abbrev Writes (α : Type) : Type := Call (Output UInt8) Stop Unit α

section Code

variable (outLen : ℕ)

/-- `if(io >= out_len) return -1; out[io++] = c;` -/
def put (c : UInt8) : Writes Unit := Output.store uintRange outLen c

/-- `while(rem >= 6)`: what is left of `rem`. -/
def drain (v : UInt32) : ℕ → Writes ℕ
  | rem + 6 => do
    put outLen (encodeMap.getD ((v >>> UInt32.ofNat rem) &&& 63).toNat 0)
    drain v rem
  | rem => pure rem

/-- The loop of `dill_base64_encode`, for less than `2 ^ 32` bytes: its `ii` is an `unsigned`. -/
def encodeLoop : List UInt8 → UInt32 → ℕ → Writes (UInt32 × ℕ)
  | [], v, rem => pure (v, rem)
  | ch :: inp, v, rem => do
    let v := (v <<< 8) ||| ch.toUInt32
    let rem ← drain outLen v (rem + 8)
    encodeLoop inp v rem

/-- The bits that are left. -/
def encodeRest (v : UInt32) (rem : ℕ) : Writes Unit :=
  if rem ≠ 0 then
    let v := v <<< UInt32.ofNat (6 - rem)
    put outLen (encodeMap.getD (v &&& 63).toNat 0)
  else pure ()

/-- `while(io & 3)`, for at most `k` turns. -/
def padLoop : ℕ → Writes Unit
  | 0 => Call.stop .waits
  | k + 1 => do
    let io ← Call.look Output.pos
    if io % 4 ≠ 0 then do
      put outLen padChar
      padLoop k
    else pure ()

/-- `dill_base64_encode`: it returns `io`, or -1. -/
def base64Encode (inp : List UInt8) : Writes ℕ := do
  let (v, rem) ← encodeLoop outLen inp 0 0
  encodeRest outLen v rem
  padLoop outLen 4
  let io ← Call.look Output.pos
  put outLen 0
  pure io

/-- `isspace`, in the C locale. -/
def isspace (c : UInt8) : Bool := c == 32 || (9 ≤ c && c ≤ 13)

/-- `DECODEMAP[(int)c]`, where `char` is signed or not. -/
def lookup (signed : Bool) (c : UInt8) : Writes UInt8 :=
  if signed && 128 ≤ c then Call.stop .fault else pure (decodeMap.getD c.toNat 0xFF)

/-- The loop of `dill_base64_decode` from `ii = 0` on: whether it is left before the end, `v` and
`rem`. -/
def decodeLoop (signed : Bool) : List UInt8 → UInt32 → ℕ → Writes (Bool × UInt32 × ℕ)
  | [], v, rem => pure (false, v, rem)
  | c :: inp, v, rem =>
    if isspace c then decodeLoop signed inp v rem
    else if c = padChar then pure (true, v, rem)
    else do
      let ch ← lookup signed c
      -- Invalid characters are discarded with all that follows them.
      if ch = 0xFF then pure (true, v, rem)
      else
        let v := (v <<< 6) ||| ch.toUInt32
        if 8 ≤ rem + 6 then do
          put outLen ((v >>> UInt32.ofNat (rem + 6 - 8)) &&& 255).toUInt8
          decodeLoop signed inp v (rem + 6 - 8)
        else decodeLoop signed inp v (rem + 6)

/-- The whole loop. As `ii` is an `unsigned`, it never gets to the end of `2 ^ 32` characters or more,
but goes back to the first one, here at most `k` times. -/
def decodeLoops (signed : Bool) (inp : List UInt8) : ℕ → UInt32 → ℕ → Writes (UInt32 × ℕ)
  | 0, v, rem => do
    let (stopped, v, rem) ← decodeLoop outLen signed (inp.take uintRange) v rem
    if stopped || inp.length < uintRange then pure (v, rem) else Call.stop .waits
  | k + 1, v, rem => do
    let (stopped, v, rem) ← decodeLoop outLen signed (inp.take uintRange) v rem
    if stopped || inp.length < uintRange then pure (v, rem) else decodeLoops signed inp k v rem

/-- `dill_base64_decode`: it returns `io`, or -1. -/
def base64Decode (k : ℕ) (signed : Bool) (inp : List UInt8) : Writes ℕ := do
  let (v, rem) ← decodeLoops outLen signed inp k 0 0
  if 8 ≤ rem then put outLen ((v >>> UInt32.ofNat (rem - 8)) &&& 255).toUInt8 else pure ()
  Call.look Output.pos

end Code

/-- What a function returns, and the memory from `out` on. -/
def returned (x : Writes ℕ) (out : ℕ → UInt8) : Except Stop (ℤ × (ℕ → UInt8)) :=
  match x ⟨out, 0⟩ with
  | .error r => .error r
  | .ok (.ok io, o) => .ok (asInt io, o.mem)
  | .ok (.error (), o) => .ok (-1, o.mem)

/-! ## Characters -/

theorem encodeMap_eq (n : ℕ) : encodeMap.getD n 0 = charOf n := rfl

/-- The alphabet, in ASCII. -/
theorem alphabet_codes : alphabet.map UInt8.toNat = [65, 66, 67, 68, 69, 70, 71, 72, 73, 74, 75, 76,
    77, 78, 79, 80, 81, 82, 83, 84, 85, 86, 87, 88, 89, 90, 97, 98, 99, 100, 101, 102, 103, 104, 105,
    106, 107, 108, 109, 110, 111, 112, 113, 114, 115, 116, 117, 118, 119, 120, 121, 122, 48, 49, 50,
    51, 52, 53, 54, 55, 56, 57, 43, 47] := by decide +kernel

theorem length_alphabet : alphabet.length = 64 := by
  simpa using congrArg List.length alphabet_codes

theorem charOf_toNat (n : ℕ) : (charOf n).toNat = (alphabet.map UInt8.toNat).getD n 0 := by
  unfold charOf
  rw [List.getD_eq_getElem?_getD, List.getD_eq_getElem?_getD, List.getElem?_map]
  cases alphabet[n]? with
  | none => rfl
  | some c => rfl

theorem valueOf_toNat (c : UInt8) : valueOf c = (alphabet.map UInt8.toNat).idxOf? c.toNat := by
  unfold valueOf List.idxOf?
  rw [List.findIdx?_map]
  congr 1
  funext x
  simp [UInt8.toNat_inj]

theorem valueOf_charOf {n : ℕ} (h : n < 64) : valueOf (charOf n) = some n := by
  rw [valueOf_toNat, charOf_toNat, alphabet_codes]
  revert n
  decide +kernel

theorem valueOf_eq_some {c : UInt8} {n : ℕ} (h : valueOf c = some n) : n < 64 ∧ charOf n = c := by
  obtain ⟨hlt, hc, -⟩ := List.findIdx?_eq_some_iff_getElem.mp h
  refine ⟨length_alphabet ▸ hlt, ?_⟩
  unfold charOf
  rw [List.getD_eq_getElem _ _ hlt]
  exact eq_of_beq hc

/-- The characters of the alphabet are printed ones. -/
theorem charOf_ascii {n : ℕ} (h : n < 64) :
    32 < (charOf n).toNat ∧ (charOf n).toNat < 128 ∧ (charOf n).toNat ≠ 61 := by
  have hall : ∀ k ∈ alphabet.map UInt8.toNat, 32 < k ∧ k < 128 ∧ k ≠ 61 := by
    rw [alphabet_codes]
    decide
  apply hall
  rw [charOf_toNat, List.getD_eq_getElem _ _ (by rw [List.length_map, length_alphabet]; exact h)]
  exact List.getElem_mem _

theorem valueOf_eq_none {c : UInt8} (h : c.toNat ≤ 32 ∨ 128 ≤ c.toNat ∨ c.toNat = 61) :
    valueOf c = none := by
  cases hv : valueOf c with
  | none => rfl
  | some n =>
    obtain ⟨hn, rfl⟩ := valueOf_eq_some hv
    have hascii := charOf_ascii hn
    omega

theorem valueOf_padChar : valueOf padChar = none := valueOf_eq_none (.inr (.inr rfl))

theorem valueOf_isspace {c : UInt8} (h : isspace c = true) : valueOf c = none := by
  apply valueOf_eq_none
  unfold isspace at h
  rcases Bool.or_eq_true _ _ ▸ h with h | h
  · rw [eq_of_beq h]
    exact .inl (le_refl 32)
  · have hle : c.toNat ≤ 13 :=
      UInt8.le_iff_toNat_le.mp (of_decide_eq_true (Bool.and_eq_true _ _ ▸ h).2)
    exact .inl (by omega)

/-- Bytes that are not ASCII. -/
theorem valueOf_high {c : UInt8} (h : 128 ≤ c) : valueOf c = none :=
  valueOf_eq_none (.inr (.inl (UInt8.le_iff_toNat_le.mp h)))

/-- `DECODEMAP` as a whole: it has an entry for `=`. -/
theorem decodeMap_codes : decodeMap.map UInt8.toNat = (List.range 256).map fun n =>
    if n = 61 then 62 else ((alphabet.map UInt8.toNat).idxOf? n).getD 255 := by
  rw [alphabet_codes]
  decide +kernel

/-- What the table says about a character other than `=`. -/
theorem decodeMap_eq {c : UInt8} (h : c ≠ padChar) :
    (decodeMap.getD c.toNat 0xFF).toNat = (valueOf c).getD 255 := by
  have hentry := congrArg (·[c.toNat]?) decodeMap_codes
  have hne : ¬ c.toNat = 61 := fun hc => h (UInt8.toNat_inj.mp hc)
  simp only [List.getElem?_map, List.getElem?_range c.toNat_lt, Option.map_some, if_neg hne,
    ← valueOf_toNat] at hentry
  obtain ⟨e, he, heq⟩ := Option.map_eq_some_iff.mp hentry
  rw [List.getD_eq_getElem?_getD, he]
  exact heq

/-! ## The accumulator -/

theorem toNat_ofNat {n : ℕ} (h : n < 32) : (UInt32.ofNat n).toNat % 32 = n := by
  rw [UInt32.toNat_ofNat']
  omega

/-- A character is moved into the accumulator. -/
theorem bits_shift_in (v : UInt32) (d : UInt8) {rem w : ℕ} (h : rem + w ≤ 32) (hw : w < 32)
    (hd : d.toNat < 2 ^ w) :
    bits (rem + w) ((v <<< UInt32.ofNat w) ||| d.toUInt32).toNat
      = bits rem v.toNat ++ bits w d.toNat := by
  rw [UInt32.toNat_or, UInt32.toNat_shiftLeft, toNat_ofNat hw, UInt8.toNat_toUInt32]
  exact bits_push_mod h hd

theorem toNat_sextet (v : UInt32) {rem : ℕ} (h : rem < 32) :
    ((v >>> UInt32.ofNat rem) &&& 63).toNat = v.toNat / 2 ^ rem % 64 := by
  rw [UInt32.toNat_and, UInt32.toNat_shiftRight, toNat_ofNat h, Nat.shiftRight_eq_div_pow]
  exact Nat.and_two_pow_sub_one_eq_mod _ 6

theorem toNat_octet (v : UInt32) {rem : ℕ} (h : rem < 32) :
    ((v >>> UInt32.ofNat rem) &&& 255).toUInt8.toNat = v.toNat / 2 ^ rem % 256 := by
  rw [UInt32.toNat_toUInt8, UInt32.toNat_and, UInt32.toNat_shiftRight, toNat_ofNat h,
    Nat.shiftRight_eq_div_pow, show (255 : UInt32).toNat = 2 ^ 8 - 1 from rfl,
    Nat.and_two_pow_sub_one_eq_mod, Nat.mod_mod]

/-- The highest bits of the accumulator. -/
theorem bits_take_out {w k : ℕ} (rem n : ℕ) (h : w = 2 ^ k) :
    bits (k + rem) n = bits k (n / 2 ^ rem % w) ++ bits rem n := by
  rw [h, bits_mod (le_refl k), bits_append]

/-! ## The encoder -/

variable {outLen p : ℕ} {inp : List UInt8}

theorem drain_emits (v : UInt32) (rem : ℕ) (hrem : rem ≤ 32) :
    ∃ o rem', (∀ n ∈ o, n < 64) ∧ rem' < 6 ∧
      bits rem v.toNat = bitStream 6 o ++ bits rem' v.toNat ∧
      ∀ p, Output.Emits uintRange outLen p (drain outLen v rem) (o.map charOf) (pure rem') := by
  induction rem using Nat.strong_induction_on with
  | _ rem ih =>
    by_cases hlt : rem < 6
    · refine ⟨[], rem, by simp, hlt, rfl, fun p => ?_⟩
      rw [drain.eq_2 outLen v rem (by omega)]
      exact .refl
    · obtain ⟨rem, rfl⟩ : ∃ k, rem = k + 6 := ⟨rem - 6, by omega⟩
      obtain ⟨o, rem', ho, hrem', hbits, hemits⟩ := ih rem (by omega) (by omega)
      refine ⟨v.toNat / 2 ^ rem % 64 :: o, rem', ?_, hrem', ?_, fun p => ?_⟩
      · exact List.forall_mem_cons.mpr ⟨Nat.mod_lt _ (by decide), ho⟩
      · rw [Nat.add_comm, bits_take_out rem v.toNat (show 64 = 2 ^ 6 from rfl), hbits,
          bitStream_cons, List.append_assoc]
      · rw [drain.eq_1, toNat_sextet v (by omega), encodeMap_eq]
        exact .bind (.store _) (hemits _)

/-- The loop. It has written all bits but fewer than six. -/
theorem encodeLoop_emits (inp : List UInt8) (v : UInt32) (rem : ℕ) (hrem : rem < 6) :
    ∃ o v' rem', (∀ n ∈ o, n < 64) ∧ rem' < 6 ∧
      bits rem v.toNat ++ bitStream 8 (inp.map UInt8.toNat)
        = bitStream 6 o ++ bits rem' (UInt32.toNat v') ∧
      ∀ p, Output.Emits uintRange outLen p (encodeLoop outLen inp v rem) (o.map charOf)
        (pure (v', rem')) := by
  induction inp generalizing v rem with
  | nil => exact ⟨[], v, rem, by simp, hrem, by simp, fun p => .refl⟩
  | cons ch inp ih =>
    obtain ⟨o₁, r₁, ho₁, hr₁, hbits₁, hemits₁⟩ := @drain_emits outLen
      ((v <<< 8) ||| ch.toUInt32) (rem + 8) (by omega)
    obtain ⟨o₂, v', r₂, ho₂, hr₂, hbits₂, hemits₂⟩ := ih ((v <<< 8) ||| ch.toUInt32) r₁ hr₁
    refine ⟨o₁ ++ o₂, v', r₂, ?_, hr₂, ?_, fun p => ?_⟩
    · exact fun n hn => (List.mem_append.mp hn).elim (ho₁ n) (ho₂ n)
    · have hpush := bits_shift_in v ch (show rem + 8 ≤ 32 by omega) (by decide) ch.toNat_lt
      calc bits rem v.toNat ++ bitStream 8 ((ch :: inp).map UInt8.toNat)
          = (bits rem v.toNat ++ bits 8 ch.toNat) ++ bitStream 8 (inp.map UInt8.toNat) := by
            rw [List.map_cons, bitStream_cons, List.append_assoc]
        _ = bitStream 6 o₁ ++ (bits r₁ ((v <<< 8) ||| ch.toUInt32).toNat
              ++ bitStream 8 (inp.map UInt8.toNat)) := by
            rw [← hpush, show UInt32.ofNat 8 = 8 from rfl, hbits₁, List.append_assoc]
        _ = bitStream 6 (o₁ ++ o₂) ++ bits r₂ v'.toNat := by
            rw [hbits₂, bitStream_append, List.append_assoc]
    · rw [List.map_append]
      exact .bind (hemits₁ p) (hemits₂ _)

/-- The sextets of an encoding: those of the bytes, and zeros where there are no bytes. -/
structure Encodes (inp : List UInt8) (o : List ℕ) : Prop where
  lt : ∀ n ∈ o, n < 64
  stream : ∃ z < 6, bitStream 6 o = bitStream 8 (inp.map UInt8.toNat) ++ List.replicate z false

/-- What is added to a text to make its length a multiple of four. -/
def padding (k : ℕ) : List UInt8 := List.replicate ((4 - k % 4) % 4) padChar

/-- The characters of an encoding. -/
def textOf (o : List ℕ) : List UInt8 := o.map charOf ++ padding o.length

theorem encodeRest_emits {v : UInt32} {rem : ℕ} (hrem : rem < 6) :
    ∃ o, (∀ n ∈ o, n < 64) ∧
      (∃ z < 6, bitStream 6 o = bits rem v.toNat ++ List.replicate z false) ∧
      ∀ p, Output.Emits uintRange outLen p (encodeRest outLen v rem) (o.map charOf) (pure ()) := by
  by_cases h0 : rem = 0
  · refine ⟨[], by simp, ⟨0, by decide, by simp [h0]⟩, fun p => ?_⟩
    rw [encodeRest, if_neg (not_not.mpr h0)]
    exact .refl
  · refine ⟨[(v <<< UInt32.ofNat (6 - rem)).toNat % 64], ?_, ⟨6 - rem, by omega, ?_⟩, fun p => ?_⟩
    · simpa using Nat.mod_lt _ (by decide)
    · have hpad := bits_pad rem (6 - rem) v.toNat
      rw [show rem + (6 - rem) = 6 by omega] at hpad
      have hmod : bits 6 (v.toNat <<< (6 - rem) % 64) = bits 6 (v.toNat <<< (6 - rem)) :=
        bits_mod (le_refl 6)
      rw [bitStream_cons, bitStream_nil, List.append_nil, UInt32.toNat_shiftLeft,
        toNat_ofNat (by omega), Nat.mod_mod_of_dvd _ (show 64 ∣ 2 ^ 32 by decide), hmod, hpad]
    · have hchar : encodeMap.getD ((v <<< UInt32.ofNat (6 - rem)) &&& 63).toNat 0
          = charOf ((v <<< UInt32.ofNat (6 - rem)).toNat % 64) := by
        rw [encodeMap_eq, UInt32.toNat_and]
        exact congrArg charOf (Nat.and_two_pow_sub_one_eq_mod _ 6)
      rw [encodeRest, if_pos h0]
      simp only [hchar]
      exact .store _

/-- The loop that pads. -/
theorem padLoop_emits (k io : ℕ) (hk : (4 - io % 4) % 4 < k) :
    Output.Emits uintRange outLen io (padLoop outLen k) (padding io) (pure ()) := by
  induction k generalizing io with
  | zero => omega
  | succ k ih =>
    apply Output.Emits.look
    by_cases h0 : io % 4 = 0
    · rw [if_neg (not_not.mpr h0), padding, h0]
      exact .refl
    · rw [if_pos h0]
      have hnext : (io + 1) % uintRange % 4 = (io + 1) % 4 :=
        Nat.mod_mod_of_dvd _ (show 4 ∣ uintRange by decide)
      have hpad : padding io = [padChar] ++ padding ((io + 1) % uintRange) := by
        unfold padding
        rw [hnext, show (4 - io % 4) % 4 = (4 - (io + 1) % 4) % 4 + 1 by omega,
          List.replicate_succ]
        rfl
      rw [hpad]
      refine .bind (.store _) (ih _ ?_)
      rw [List.length_singleton, hnext]
      omega

@[simp] theorem length_textOf (o : List ℕ) :
    (textOf o).length = o.length + (4 - o.length % 4) % 4 := by
  simp [textOf, padding]

/-- The length of an encoding. -/
theorem Encodes.length {o : List ℕ} (h : Encodes inp o) :
    (textOf o).length = 4 * ((inp.length + 2) / 3) := by
  obtain ⟨z, hz, hstream⟩ := h.stream
  have hlen := congrArg List.length hstream
  simp only [length_bitStream, List.length_append, List.length_map, List.length_replicate] at hlen
  rw [length_textOf]
  omega

/-- **What the encoder writes.** -/
theorem encode_emits (h : 4 * ((inp.length + 2) / 3) < 2 ^ 32) :
    ∃ o, Encodes inp o ∧
      Output.Emits uintRange outLen 0 (base64Encode outLen inp) (textOf o ++ [0])
        (pure (textOf o).length) := by
  obtain ⟨o₁, v, rem, ho₁, hrem, hbits₁, hloop⟩ := @encodeLoop_emits outLen inp 0 0
    (by decide)
  obtain ⟨o₂, ho₂, ⟨z, hz, hbits₂⟩, hrest⟩ := @encodeRest_emits outLen v rem hrem
  have henc : Encodes inp (o₁ ++ o₂) := by
    refine ⟨fun n hn => (List.mem_append.mp hn).elim (ho₁ n) (ho₂ n), z, hz, ?_⟩
    rw [bits_zero, List.nil_append] at hbits₁
    rw [bitStream_append, hbits₂, hbits₁, List.append_assoc]
  refine ⟨o₁ ++ o₂, henc, ?_⟩
  have hlen := henc.length
  have hpos : ((0 + (o₁.map charOf).length) % uintRange + (o₂.map charOf).length) % uintRange
      = (o₁ ++ o₂).length := by
    rw [length_textOf, List.length_append] at hlen
    rw [List.length_map, List.length_map, Nat.zero_add, Nat.mod_add_mod, List.length_append]
    apply Nat.mod_eq_of_lt
    unfold uintRange
    omega
  have hio : ((o₁ ++ o₂).length + (padding (o₁ ++ o₂).length).length) % uintRange
      = (textOf (o₁ ++ o₂)).length := by
    have hsum : (o₁ ++ o₂).length + (padding (o₁ ++ o₂).length).length
        = (textOf (o₁ ++ o₂)).length := by
      simp [textOf, Nat.add_assoc]
    rw [hsum, hlen]
    exact Nat.mod_eq_of_lt h
  have htext : textOf (o₁ ++ o₂) ++ [0]
      = o₁.map charOf ++ (o₂.map charOf ++ (padding (o₁ ++ o₂).length ++ ([0] ++ []))) := by
    simp [textOf]
  rw [htext]
  refine .bind (hloop 0) (.bind (hrest _) ?_)
  rw [hpos]
  refine .bind (padLoop_emits 4 _ (by omega)) (.look ?_)
  rw [hio]
  exact .bind (.store 0) .refl

/-! ## The encoding has the bits of the bytes -/

theorem Encodes.unique {o o' : List ℕ} (h : Encodes inp o) (h' : Encodes inp o') : o = o' := by
  obtain ⟨z, hz, hstream⟩ := h.stream
  obtain ⟨z', hz', hstream'⟩ := h'.stream
  have hlen := congrArg List.length hstream
  have hlen' := congrArg List.length hstream'
  simp only [length_bitStream, List.length_append, List.length_map, List.length_replicate]
    at hlen hlen'
  obtain rfl : z = z' := by omega
  have hnil : bitStream 6 o ++ [] = bitStream 6 o' ++ [] := by simp [hstream, hstream']
  exact (bitStream_append_inj h.lt h'.lt (by simp) (by simp) hnil).1

theorem quantum_lt (n : ℕ) : ∀ k ∈ quantum n, k < 64 := by
  simp [quantum, Nat.mod_lt]

/-- The bits of a group. -/
theorem bitStream_quantum (n : ℕ) : bitStream 6 (quantum n) = bits 24 n := by
  have h₁ : bits 24 n = bits 6 (n / 2 ^ 18 % 64) ++ bits 18 n := bits_take_out 18 n rfl
  have h₂ : bits 18 n = bits 6 (n / 2 ^ 12 % 64) ++ bits 12 n := bits_take_out 12 n rfl
  have h₃ : bits 12 n = bits 6 (n / 2 ^ 6 % 64) ++ bits 6 n := bits_take_out 6 n rfl
  have h₄ : bits 6 (n % 64) = bits 6 n := bits_mod (le_refl 6)
  rw [h₁, h₂, h₃, ← h₄]
  simp only [quantum, bitStream_cons, bitStream_nil, List.append_nil]

theorem bits_octets (a b c : UInt8) :
    bits 24 (a.toNat * 2 ^ 16 + b.toNat * 2 ^ 8 + c.toNat)
      = bits 8 a.toNat ++ (bits 8 b.toNat ++ bits 8 c.toNat) := by
  have ha := a.toNat_lt
  have hb := b.toNat_lt
  have hc := c.toNat_lt
  generalize hn : a.toNat * 2 ^ 16 + b.toNat * 2 ^ 8 + c.toNat = n
  have h₁ : bits 24 n = bits 8 (n / 2 ^ 16 % 256) ++ bits 16 n := bits_take_out 16 n rfl
  have h₂ : bits 16 n = bits 8 (n / 2 ^ 8 % 256) ++ bits 8 n := bits_take_out 8 n rfl
  have h₃ : bits 8 (n % 256) = bits 8 n := bits_mod (le_refl 8)
  rw [h₁, h₂, ← h₃, show n / 2 ^ 16 % 256 = a.toNat by omega,
    show n / 2 ^ 8 % 256 = b.toNat by omega, show n % 256 = c.toNat by omega]

/-- The first groups of six bits. -/
theorem bitStream_take (k n : ℕ) :
    bitStream 6 ((quantum n).take k) = (bits 24 n).take (k * 6) := by
  rw [← bitStream_quantum]
  generalize quantum n = q
  induction k generalizing q with
  | zero => simp
  | succ k ih =>
    cases q with
    | nil => simp
    | cons d q =>
      have htake : (bits 6 d).take ((k + 1) * 6) = bits 6 d := List.take_of_length_le (by
        rw [length_bits]
        omega)
      rw [List.take_succ_cons, bitStream_cons, bitStream_cons, ih, List.take_append, length_bits,
        htake, show (k + 1) * 6 - 6 = k * 6 by omega]

/-- **The encoding, as sextets.** -/
theorem rfc4648_eq (inp : List UInt8) : ∃ o, Encodes inp o ∧ rfc4648 inp = textOf o := by
  induction inp using rfc4648.induct with
  | case1 => exact ⟨[], ⟨by simp, 0, by decide, rfl⟩, rfl⟩
  | case2 a =>
    refine ⟨(quantum (a.toNat * 2 ^ 16)).take 2, ⟨fun n hn => ?_, 4, by decide, ?_⟩, rfl⟩
    · exact quantum_lt _ n (List.mem_of_mem_take hn)
    · have hbits := bits_octets a 0 0
      simp only [UInt8.toNat_zero, Nat.zero_mul, Nat.add_zero] at hbits
      rw [bitStream_take, hbits]
      simp
  | case3 a b =>
    refine ⟨(quantum (a.toNat * 2 ^ 16 + b.toNat * 2 ^ 8)).take 3,
      ⟨fun n hn => ?_, 2, by decide, ?_⟩, rfl⟩
    · exact quantum_lt _ n (List.mem_of_mem_take hn)
    · have hbits := bits_octets a b 0
      simp only [UInt8.toNat_zero, Nat.add_zero] at hbits
      rw [bitStream_take, hbits]
      simp
  | case4 a b c l ih =>
    obtain ⟨o, ho, htext⟩ := ih
    refine ⟨quantum (a.toNat * 2 ^ 16 + b.toNat * 2 ^ 8 + c.toNat) ++ o, ⟨fun n hn => ?_, ?_⟩, ?_⟩
    · exact (List.mem_append.mp hn).elim (quantum_lt _ n) (ho.lt n)
    · obtain ⟨z, hz, hstream⟩ := ho.stream
      refine ⟨z, hz, ?_⟩
      rw [bitStream_append, bitStream_quantum, bits_octets, hstream]
      simp
    · rw [rfc4648, htext]
      simp [textOf, padding, quantum]
      omega

/-! ## The decoder -/

/-- A character that does not end the text. -/
def inText (c : UInt8) : Bool := isspace c || (valueOf c).isSome

/-- The groups of six bits in a text. -/
def sextets (inp : List UInt8) : List ℕ := (inp.takeWhile inText).filterMap valueOf

/-- The character that ends the text is taken for a negative one. -/
def overrun (signed : Bool) (inp : List UInt8) : Bool :=
  signed && (inp.dropWhile inText).head?.any fun c => 128 ≤ c

/-- There is such a character. -/
def stops (inp : List UInt8) : Bool := !(inp.dropWhile inText).isEmpty

section

variable {c : UInt8} {signed : Bool}

theorem inText_of_isspace (h : isspace c = true) : inText c = true := by
  simp [inText, h]

theorem inText_of_valueOf {n : ℕ} (h : valueOf c = some n) : inText c = true := by
  simp [inText, h]

theorem inText_of_not (hs : isspace c = false) (h : valueOf c = none) : inText c = false := by
  simp [inText, hs, h]

theorem sextets_isspace (h : isspace c = true) : sextets (c :: inp) = sextets inp := by
  simp [sextets, inText_of_isspace h, valueOf_isspace h]

theorem sextets_valueOf {n : ℕ} (h : valueOf c = some n) :
    sextets (c :: inp) = n :: sextets inp := by
  simp [sextets, inText_of_valueOf h, h]

theorem sextets_stop (h : inText c = false) : sextets (c :: inp) = [] := by
  simp [sextets, h]

theorem overrun_cons (h : inText c = true) : overrun signed (c :: inp) = overrun signed inp := by
  simp [overrun, h]

theorem stops_cons (h : inText c = true) : stops (c :: inp) = stops inp := by
  simp [stops, h]

theorem stops_stop (h : inText c = false) : stops (c :: inp) = true := by
  simp [stops, h]

theorem overrun_stop (h : inText c = false) :
    overrun signed (c :: inp) = (signed && decide (128 ≤ c)) := by
  simp [overrun, h]

end

/-- The call does not come back if it looks behind the table. -/
def unlessOverrun {α : Type} (signed : Bool) (inp : List UInt8) (x : Writes α) : Writes α :=
  if overrun signed inp then Call.stop .fault else x

/-- A character of the text goes into the accumulator. -/
theorem bits_sextet (v : UInt32) {c : UInt8} {n rem : ℕ} (hrem : rem < 8)
    (h : valueOf c = some n) :
    (decodeMap.getD c.toNat 0xFF) ≠ 0xFF ∧
      bits (rem + 6) ((v <<< 6) ||| (decodeMap.getD c.toNat 0xFF).toUInt32).toNat
        = bits rem v.toNat ++ bits 6 n := by
  have hpad : c ≠ padChar := by
    rintro rfl
    rw [valueOf_padChar] at h
    cases h
  have hlt := (valueOf_eq_some h).1
  have hval := decodeMap_eq hpad
  rw [h, Option.getD_some] at hval
  refine ⟨fun hff => ?_, ?_⟩
  · rw [hff] at hval
    have hff : (0xFF : UInt8).toNat = 255 := rfl
    omega
  · rw [← hval]
    exact bits_shift_in v _ (by omega) (by decide) (by omega)

theorem ne_padChar {c : UInt8} {n : ℕ} (h : valueOf c = some n) : c ≠ padChar := by
  rintro rfl
  rw [valueOf_padChar] at h
  cases h

/-- A turn that goes on. -/
theorem decodeLoop_char (signed : Bool) (inp : List UInt8) (v : UInt32) {c : UInt8} {n rem : ℕ}
    (hne : decodeMap.getD c.toNat 0xFF ≠ 0xFF) (h : valueOf c = some n) :
    decodeLoop outLen signed (c :: inp) v rem =
      (let v := (v <<< 6) ||| (decodeMap.getD c.toNat 0xFF).toUInt32
      if 8 ≤ rem + 6 then do
        put outLen ((v >>> UInt32.ofNat (rem + 6 - 8)) &&& 255).toUInt8
        decodeLoop outLen signed inp v (rem + 6 - 8)
      else decodeLoop outLen signed inp v (rem + 6)) := by
  have hspace : ¬isspace c = true := by
    intro hs
    rw [valueOf_isspace hs] at h
    cases h
  have hlow : ¬128 ≤ c := by
    intro hhigh
    rw [valueOf_high hhigh] at h
    cases h
  rw [decodeLoop, if_neg hspace, if_neg (ne_padChar h), lookup, decide_eq_false hlow,
    Bool.and_false]
  change (if decodeMap.getD c.toNat 0xFF = 0xFF then _ else _) = _
  rw [if_neg hne]

/-- The last turn. -/
theorem decodeLoop_stop (signed : Bool) (inp : List UInt8) (v : UInt32) (rem : ℕ) {c : UInt8}
    (hspace : isspace c = false) (h : valueOf c = none) :
    decodeLoop outLen signed (c :: inp) v rem
      = unlessOverrun signed (c :: inp) (pure (true, v, rem)) := by
  rw [decodeLoop, if_neg (by simp [hspace]), unlessOverrun, overrun_stop (inText_of_not hspace h)]
  by_cases hpad : c = padChar
  · have hlow : ¬128 ≤ c := by rw [hpad]; decide
    rw [if_pos hpad, decide_eq_false hlow, Bool.and_false]
    rfl
  · rw [if_neg hpad, lookup]
    by_cases hover : (signed && decide (128 ≤ c)) = true
    · rw [if_pos hover, if_pos hover]
      rfl
    · have hff : decodeMap.getD c.toNat 0xFF = 0xFF := by
        have hval := decodeMap_eq hpad
        rw [h] at hval
        exact UInt8.toNat_inj.mp hval
      rw [if_neg hover, if_neg hover, hff]
      rfl

/-- The loop. It has written all bits but fewer than eight. -/
theorem decodeLoop_emits (signed : Bool) (inp : List UInt8) (v : UInt32) (rem : ℕ) (hrem : rem < 8) :
    ∃ o v' rem', rem' < 8 ∧
      bits rem v.toNat ++ bitStream 6 (sextets inp)
        = bitStream 8 (o.map UInt8.toNat) ++ bits rem' (UInt32.toNat v') ∧
      ∀ p, Output.Emits uintRange outLen p (decodeLoop outLen signed inp v rem) o
        (unlessOverrun signed inp (pure (stops inp, v', rem'))) := by
  induction inp generalizing v rem with
  | nil =>
    refine ⟨[], v, rem, hrem, by simp [sextets], fun p => ?_⟩
    have hnil : overrun signed [] = false := by simp [overrun]
    rw [unlessOverrun, hnil]
    exact .refl
  | cons c inp ih =>
    by_cases hspace : isspace c = true
    · obtain ⟨o, v', rem', hrem', hbits, hemits⟩ := ih v rem hrem
      have htext := inText_of_isspace hspace
      refine ⟨o, v', rem', hrem', by rw [sextets_isspace hspace, hbits], fun p => ?_⟩
      rw [decodeLoop, if_pos hspace, unlessOverrun, overrun_cons htext, stops_cons htext]
      exact hemits p
    · rw [Bool.not_eq_true] at hspace
      cases hvalue : valueOf c with
      | none =>
        have hstop := inText_of_not hspace hvalue
        refine ⟨[], v, rem, hrem, by simp [sextets_stop hstop], fun p => ?_⟩
        rw [decodeLoop_stop signed inp v rem hspace hvalue, stops_stop hstop]
        exact .refl
      | some n =>
        obtain ⟨hne, hpush⟩ := bits_sextet v hrem hvalue
        have htext := inText_of_valueOf hvalue
        rw [decodeLoop_char signed inp v hne hvalue, sextets_valueOf hvalue, bitStream_cons,
          ← List.append_assoc, ← hpush]
        generalize (v <<< 6) ||| (decodeMap.getD c.toNat 0xFF).toUInt32 = v₁
        unfold unlessOverrun
        rw [overrun_cons htext, stops_cons htext]
        by_cases hfull : 8 ≤ rem + 6
        · obtain ⟨o, v', rem', hrem', hbits, hemits⟩ := ih v₁ (rem + 6 - 8) (by omega)
          refine ⟨((v₁ >>> UInt32.ofNat (rem + 6 - 8)) &&& 255).toUInt8 :: o, v', rem', hrem', ?_,
            fun p => ?_⟩
          · have htake := @bits_take_out 256 8 (rem + 6 - 8) v₁.toNat rfl
            rw [show 8 + (rem + 6 - 8) = rem + 6 by omega] at htake
            rw [htake, List.append_assoc, hbits, List.map_cons, bitStream_cons,
              toNat_octet v₁ (by omega), List.append_assoc]
          · simp only [if_pos hfull]
            exact .bind (.store _) (hemits _)
        · obtain ⟨o, v', rem', hrem', hbits, hemits⟩ := ih v₁ (rem + 6) (by omega)
          refine ⟨o, v', rem', hrem', hbits, fun p => ?_⟩
          simp only [if_neg hfull]
          exact hemits p

/-- The bytes that have the bits of the sextets `l`, with fewer than eight bits left. -/
def Decodes (l : List ℕ) (o : List UInt8) : Prop :=
  ∃ r : List Bool, r.length < 8 ∧ bitStream 6 l = bitStream 8 (o.map UInt8.toNat) ++ r

/-- **What the decoder writes** for a text that ends. -/
theorem decode_emits (k : ℕ) (signed : Bool) (inp : List UInt8)
    (hend : stops (inp.take uintRange) = true ∨ inp.length < uintRange) :
    ∃ o, Decodes (sextets (inp.take uintRange)) o ∧
      Output.Emits uintRange outLen 0 (base64Decode outLen k signed inp) o
        (unlessOverrun signed (inp.take uintRange) (Call.look Output.pos)) := by
  obtain ⟨o, v', rem', hrem', hbits, hemits⟩ := @decodeLoop_emits outLen signed
    (inp.take uintRange) 0 0 (by decide)
  refine ⟨o, ⟨bits rem' v'.toNat, by simpa using hrem', by simpa using hbits⟩, ?_⟩
  unfold unlessOverrun at hemits ⊢
  by_cases hover : overrun signed (inp.take uintRange) = true
  · simp only [if_pos hover] at hemits ⊢
    unfold base64Decode
    cases k with
    | zero => exact ((hemits 0).then).then
    | succ k => exact ((hemits 0).then).then
  · simp only [if_neg hover] at hemits ⊢
    have hlast : ¬8 ≤ rem' := by omega
    have hcond : (stops (inp.take uintRange) || decide (inp.length < uintRange)) = true := by
      rcases hend with h | h <;> simp [h]
    have hloops : Output.Emits uintRange outLen 0 (decodeLoops outLen signed inp k 0 0) o
        (pure (v', rem')) := by
      rw [← List.append_nil o]
      cases k with
      | zero =>
        refine .bind (hemits 0) ?_
        simp only [hcond, if_true]
        exact .refl
      | succ k =>
        refine .bind (hemits 0) ?_
        simp only [hcond, if_true]
        exact .refl
    unfold base64Decode
    rw [← List.append_nil o]
    refine .bind hloops ?_
    simp only [if_neg hlast]
    exact .refl

theorem Decodes.length {l : List ℕ} {o : List UInt8} (h : Decodes l o) :
    o.length = l.length * 6 / 8 := by
  obtain ⟨r, hr, hstream⟩ := h
  have hlen := congrArg List.length hstream
  simp only [length_bitStream, List.length_append, List.length_map] at hlen
  omega

/-- What the decoder writes first, however it goes on. -/
theorem decode_emits_first (k : ℕ) (signed : Bool) (inp : List UInt8) :
    ∃ o y, Decodes (sextets (inp.take uintRange)) o ∧
      Output.Emits uintRange outLen 0 (base64Decode outLen k signed inp) o y := by
  obtain ⟨o, v', rem', hrem', hbits, hemits⟩ := @decodeLoop_emits outLen signed
    (inp.take uintRange) 0 0 (by decide)
  have hdec : Decodes (sextets (inp.take uintRange)) o :=
    ⟨bits rem' v'.toNat, by simpa using hrem', by simpa using hbits⟩
  unfold base64Decode
  cases k with
  | zero => exact ⟨o, _, hdec, ((hemits 0).then).then⟩
  | succ k => exact ⟨o, _, hdec, ((hemits 0).then).then⟩

/-- A text that does not end is read again and again. -/
theorem decodeLoops_endless (k : ℕ) (signed : Bool) (inp : List UInt8) (v : UInt32) (rem : ℕ)
    (hrem : rem < 8) (hstop : stops (inp.take uintRange) = false) (hlen : uintRange ≤ inp.length) :
    ∃ o r, r.length < 8 ∧
      bits rem v.toNat
          ++ bitStream 6 (List.replicate (k + 1) (sextets (inp.take uintRange))).flatten
        = bitStream 8 (o.map UInt8.toNat) ++ r ∧
      ∀ p, Output.Emits uintRange outLen p (decodeLoops outLen signed inp k v rem) o
        (Call.stop .waits) := by
  have hcond : ¬(stops (inp.take uintRange) || decide (inp.length < uintRange)) = true := by
    simp [hstop, hlen]
  have hover : ¬overrun signed (inp.take uintRange) = true := by
    unfold stops at hstop
    rw [Bool.not_eq_false', List.isEmpty_iff] at hstop
    simp [overrun, hstop]
  induction k generalizing v rem with
  | zero =>
    obtain ⟨o, v', rem', hrem', hbits, hemits⟩ := @decodeLoop_emits outLen signed
      (inp.take uintRange) v rem hrem
    refine ⟨o, bits rem' v'.toNat, by simpa using hrem', by simpa using hbits, fun p => ?_⟩
    unfold unlessOverrun at hemits
    rw [if_neg hover] at hemits
    rw [← List.append_nil o, decodeLoops]
    refine .bind (hemits p) ?_
    simp only [if_neg hcond]
    exact .refl
  | succ k ih =>
    obtain ⟨o, v', rem', hrem', hbits, hemits⟩ := @decodeLoop_emits outLen signed
      (inp.take uintRange) v rem hrem
    obtain ⟨o', r, hr, hbits', hemits'⟩ := ih v' rem' hrem'
    refine ⟨o ++ o', r, hr, ?_, fun p => ?_⟩
    · rw [List.replicate_succ, List.flatten_cons, bitStream_append, ← List.append_assoc, hbits,
        List.append_assoc, hbits', List.map_append, bitStream_append, List.append_assoc]
    · unfold unlessOverrun at hemits
      rw [if_neg hover] at hemits
      rw [decodeLoops]
      refine .bind (hemits p) ?_
      simp only [if_neg hcond]
      exact hemits' _

/-- **What the decoder writes** for a text that does not end. -/
theorem decode_emits_endless (k : ℕ) (signed : Bool) (inp : List UInt8)
    (hstop : stops (inp.take uintRange) = false) (hlen : uintRange ≤ inp.length) :
    ∃ o, o.length = (k + 1) * (sextets (inp.take uintRange)).length * 6 / 8 ∧
      Output.Emits uintRange outLen 0 (base64Decode outLen k signed inp) o (Call.stop .waits) := by
  obtain ⟨o, r, hr, hbits, hemits⟩ := @decodeLoops_endless outLen k signed inp 0 0 (by decide) hstop
    hlen
  refine ⟨o, ?_, (hemits 0).then⟩
  have hsize := congrArg List.length hbits
  simp only [bits_zero, List.nil_append, length_bitStream, List.length_append, List.length_map,
    List.length_flatten, List.map_replicate, List.sum_replicate_nat] at hsize
  omega

/-! ## Texts that are encodings -/

theorem sextets_append {o : List ℕ} (h : ∀ n ∈ o, n < 64) (r : List UInt8) :
    sextets (o.map charOf ++ r) = o ++ sextets r := by
  induction o with
  | nil => rfl
  | cons n o ih =>
    obtain ⟨hn, ho⟩ := List.forall_mem_cons.mp h
    rw [List.map_cons, List.cons_append, sextets_valueOf (valueOf_charOf hn), ih ho]
    rfl

theorem overrun_append (signed : Bool) {o : List ℕ} (h : ∀ n ∈ o, n < 64) (r : List UInt8) :
    overrun signed (o.map charOf ++ r) = overrun signed r := by
  induction o with
  | nil => rfl
  | cons n o ih =>
    obtain ⟨hn, ho⟩ := List.forall_mem_cons.mp h
    rw [List.map_cons, List.cons_append, overrun_cons (inText_of_valueOf (valueOf_charOf hn)), ih ho]

/-- The padding ends the text. -/
theorem padding_ends (signed : Bool) (k : ℕ) :
    sextets (padding k) = [] ∧ overrun signed (padding k) = false := by
  have hstop : inText padChar = false := by decide +kernel
  unfold padding
  cases (4 - k % 4) % 4 with
  | zero => exact ⟨rfl, by simp [overrun]⟩
  | succ k =>
    rw [List.replicate_succ]
    refine ⟨sextets_stop hstop, ?_⟩
    rw [overrun_stop hstop, show decide (128 ≤ padChar) = false from by decide, Bool.and_false]

theorem sextets_textOf {o : List ℕ} (h : ∀ n ∈ o, n < 64) : sextets (textOf o) = o := by
  rw [textOf, sextets_append h, (padding_ends false _).1, List.append_nil]

theorem overrun_textOf (signed : Bool) {o : List ℕ} (h : ∀ n ∈ o, n < 64) :
    overrun signed (textOf o) = false := by
  rw [textOf, overrun_append signed h, (padding_ends signed _).2]

theorem toNat_lt_of_mem {o : List UInt8} : ∀ n ∈ o.map UInt8.toNat, n < 2 ^ 8 := by
  simp only [List.mem_map]
  rintro n ⟨b, -, rfl⟩
  exact b.toNat_lt

theorem Decodes.unique {l : List ℕ} {o o' : List UInt8} (h : Decodes l o) (h' : Decodes l o') :
    o = o' := by
  obtain ⟨r, hr, hstream⟩ := h
  obtain ⟨r', hr', hstream'⟩ := h'
  rw [hstream] at hstream'
  have hmap := (bitStream_append_inj toNat_lt_of_mem toNat_lt_of_mem hr hr' hstream').1
  exact List.map_injective_iff.mpr (fun _ _ => UInt8.toNat_inj.mp) hmap

/-- **The decoder undoes the encoding.** -/
theorem decodes_rfc4648 (inp : List UInt8) : Decodes (sextets (rfc4648 inp)) inp := by
  obtain ⟨o, ho, htext⟩ := rfc4648_eq inp
  obtain ⟨z, hz, hstream⟩ := ho.stream
  refine ⟨List.replicate z false, by simp; omega, ?_⟩
  rw [htext, sextets_textOf ho.lt, hstream]

theorem overrun_rfc4648 (signed : Bool) (inp : List UInt8) :
    overrun signed (rfc4648 inp) = false := by
  obtain ⟨o, ho, htext⟩ := rfc4648_eq inp
  rw [htext, overrun_textOf signed ho.lt]

/-- The length of the encoding of `n` bytes. -/
def textLen (n : ℕ) : ℕ := 4 * ((n + 2) / 3)

@[simp] theorem length_rfc4648 (inp : List UInt8) : (rfc4648 inp).length = textLen inp.length := by
  obtain ⟨o, ho, htext⟩ := rfc4648_eq inp
  rw [htext, ho.length, textLen]

/-- Every canonical text is an encoding. -/
theorem Canonical.exists {t : List UInt8} (h : Canonical t) : ∃ inp, rfc4648 inp = t := by
  induction h with
  | nil => exact ⟨[], rfl⟩
  | @pad2 a b ha hb hzero =>
    have hbyte : (UInt8.ofNat (a * 4 + b / 16)).toNat = a * 4 + b / 16 := by
      rw [UInt8.toNat_ofNat']
      omega
    refine ⟨[UInt8.ofNat (a * 4 + b / 16)], ?_⟩
    simp only [rfc4648, hbyte, quantum, List.take_succ_cons, List.take_zero, List.map_cons,
      List.map_nil, List.cons_append, List.nil_append]
    rw [show (a * 4 + b / 16) * 2 ^ 16 / 2 ^ 18 % 64 = a by omega,
      show (a * 4 + b / 16) * 2 ^ 16 / 2 ^ 12 % 64 = b by omega]
  | @pad1 a b c ha hb hc hzero =>
    have hx : (UInt8.ofNat (a * 4 + b / 16)).toNat = a * 4 + b / 16 := by
      rw [UInt8.toNat_ofNat']
      omega
    have hy : (UInt8.ofNat (b % 16 * 16 + c / 4)).toNat = b % 16 * 16 + c / 4 := by
      rw [UInt8.toNat_ofNat']
      omega
    refine ⟨[UInt8.ofNat (a * 4 + b / 16), UInt8.ofNat (b % 16 * 16 + c / 4)], ?_⟩
    simp only [rfc4648, hx, hy, quantum, List.take_succ_cons, List.take_zero, List.map_cons,
      List.map_nil, List.cons_append, List.nil_append]
    generalize hn : (a * 4 + b / 16) * 2 ^ 16 + (b % 16 * 16 + c / 4) * 2 ^ 8 = n
    rw [show n / 2 ^ 18 % 64 = a by omega, show n / 2 ^ 12 % 64 = b by omega,
      show n / 2 ^ 6 % 64 = c by omega]
  | @quad a b c d l ha hb hc hd _ ih =>
    obtain ⟨inp, hinp⟩ := ih
    have hx : (UInt8.ofNat (a * 4 + b / 16)).toNat = a * 4 + b / 16 := by
      rw [UInt8.toNat_ofNat']
      omega
    have hy : (UInt8.ofNat (b % 16 * 16 + c / 4)).toNat = b % 16 * 16 + c / 4 := by
      rw [UInt8.toNat_ofNat']
      omega
    have hz : (UInt8.ofNat (c % 4 * 64 + d)).toNat = c % 4 * 64 + d := by
      rw [UInt8.toNat_ofNat']
      omega
    refine ⟨UInt8.ofNat (a * 4 + b / 16) :: UInt8.ofNat (b % 16 * 16 + c / 4) ::
      UInt8.ofNat (c % 4 * 64 + d) :: inp, ?_⟩
    simp only [rfc4648, hx, hy, hz, hinp, quantum, List.map_cons, List.map_nil, List.cons_append,
      List.nil_append]
    generalize hn : (a * 4 + b / 16) * 2 ^ 16 + (b % 16 * 16 + c / 4) * 2 ^ 8 + (c % 4 * 64 + d) = n
    rw [show n / 2 ^ 18 % 64 = a by omega, show n / 2 ^ 12 % 64 = b by omega,
      show n / 2 ^ 6 % 64 = c by omega, show n % 64 = d by omega]

/-! ## What the functions return -/

theorem asInt_eq {n : ℕ} (h : n < 2 ^ 31) : asInt n = n := by
  unfold asInt uintRange
  rw [Int.bmod_eq_of_le] <;> omega

theorem asInt_textLen (n : ℕ) : asInt (textLen n) ≠ -1 := by
  unfold asInt uintRange textLen Int.bmod
  dsimp only
  split <;> omega

/-- The encoder, when the text and the character behind it fit. -/
theorem encode_large (out : ℕ → UInt8) (h : textLen inp.length < 2 ^ 32)
    (hlen : textLen inp.length < outLen) :
    returned (base64Encode outLen inp) out
      = .ok (asInt (textLen inp.length), patch out 0 (rfc4648 inp ++ [0])) := by
  obtain ⟨o, ho, hemits⟩ := @encode_emits outLen inp h
  obtain ⟨o', ho', htext⟩ := rfc4648_eq inp
  obtain rfl := ho.unique ho'
  have hsize : (rfc4648 inp).length = textLen inp.length := length_rfc4648 inp
  rw [← htext] at hemits
  have hall : (rfc4648 inp ++ [0]).length = textLen inp.length + 1 := by simp
  have hmul : textLen inp.length % 4 = 0 := Nat.mul_mod_right 4 _
  have hrun := hemits.run (o := ⟨out, 0⟩) rfl (by omega) (by unfold uintRange; omega)
  rw [returned, hrun, hsize]
  rfl

/-- The encoder, when they do not. -/
theorem encode_small (out : ℕ → UInt8) (h : textLen inp.length < 2 ^ 32)
    (hlen : outLen ≤ textLen inp.length) :
    returned (base64Encode outLen inp) out
      = .ok (-1, patch out 0 ((rfc4648 inp).take outLen)) := by
  obtain ⟨o, ho, hemits⟩ := @encode_emits outLen inp h
  obtain ⟨o', ho', htext⟩ := rfc4648_eq inp
  obtain rfl := ho.unique ho'
  rw [← htext] at hemits
  have hall : (rfc4648 inp ++ [0]).length = textLen inp.length + 1 := by simp
  have hmul : textLen inp.length % 4 = 0 := Nat.mul_mod_right 4 _
  have hrun := hemits.full (o := ⟨out, 0⟩) rfl (Nat.zero_le _) (by omega)
    (by unfold uintRange; omega)
  rw [returned, hrun, Nat.sub_zero, List.take_append_of_le_length (by simpa using hlen)]

/-- What the decoder writes for an encoding. -/
theorem decode_rfc4648_emits (k : ℕ) (signed : Bool) (h : textLen inp.length < 2 ^ 32) :
    Output.Emits uintRange outLen 0 (base64Decode outLen k signed (rfc4648 inp)) inp
      (Call.look Output.pos) := by
  have hlt : (rfc4648 inp).length < uintRange := by
    rw [length_rfc4648]
    exact h
  obtain ⟨o, ho, hemits⟩ := @decode_emits outLen k signed (rfc4648 inp) (.inr hlt)
  rw [List.take_of_length_le hlt.le] at ho hemits
  obtain rfl := ho.unique (decodes_rfc4648 inp)
  rw [unlessOverrun, overrun_rfc4648] at hemits
  exact hemits

theorem le_textLen (n : ℕ) : n ≤ textLen n := by
  unfold textLen
  omega

/-- The decoder on an encoding, when the bytes fit. -/
theorem decode_large (k : ℕ) (signed : Bool) (out : ℕ → UInt8) (h : textLen inp.length < 2 ^ 32)
    (hlen : inp.length ≤ outLen) :
    returned (base64Decode outLen k signed (rfc4648 inp)) out
      = .ok (asInt inp.length, patch out 0 inp) := by
  have hle := le_textLen inp.length
  have hrun := (@decode_rfc4648_emits outLen inp k signed h).run (o := ⟨out, 0⟩) rfl (by omega)
    (by unfold uintRange; omega)
  rw [returned, hrun]
  simp [Call.look]

/-- The decoder on an encoding, when they do not. -/
theorem decode_small (k : ℕ) (signed : Bool) (out : ℕ → UInt8) (h : textLen inp.length < 2 ^ 32)
    (hlen : outLen < inp.length) :
    returned (base64Decode outLen k signed (rfc4648 inp)) out
      = .ok (-1, patch out 0 (inp.take outLen)) := by
  have hle := le_textLen inp.length
  have hrun := (@decode_rfc4648_emits outLen inp k signed h).full (o := ⟨out, 0⟩) rfl
    (Nat.zero_le _) (by omega) (by unfold uintRange; omega)
  rw [returned, hrun, Nat.sub_zero]

/-! ## The codec -/

/-- What the encoder returns and leaves in memory; `ret` is how it returns a length. -/
structure EncodeOk (ret : ℕ → ℤ) (inp : List UInt8) (out : ℕ → UInt8) (outLen : ℕ) (r : ℤ)
    (mem : ℕ → UInt8) : Prop where
  refused : r = -1 ↔ outLen ≤ textLen inp.length
  size : textLen inp.length < outLen → r = ret (textLen inp.length)
  text : textLen inp.length < outLen → mem = patch out 0 (rfc4648 inp ++ [0])
  outside : ∀ i, outLen ≤ i → mem i = out i

/-- The same for the decoder and the bytes `inp`. -/
structure DecodeOk (ret : ℕ → ℤ) (inp : List UInt8) (out : ℕ → UInt8) (outLen : ℕ) (r : ℤ)
    (mem : ℕ → UInt8) : Prop where
  refused : outLen < inp.length → r = -1
  size : inp.length ≤ outLen → r = ret inp.length
  bytes : inp.length ≤ outLen → mem = patch out 0 inp
  outside : ∀ i, outLen ≤ i → mem i = out i

/-- The two functions are the two directions of one encoding. -/
structure Codec (ret : ℕ → ℤ) : Prop where
  encode : ∀ inp out outLen, textLen inp.length < 2 ^ 32 →
    ∃ r mem, returned (base64Encode outLen inp) out = .ok (r, mem) ∧
      EncodeOk ret inp out outLen r mem
  decode : ∀ k signed inp out outLen, textLen inp.length < 2 ^ 32 →
    ∃ r mem, returned (base64Decode outLen k signed (rfc4648 inp)) out = .ok (r, mem) ∧
      DecodeOk ret inp out outLen r mem
  canonical : ∀ k signed t, Canonical t → t.length < 2 ^ 32 →
    ∃ inp, (∀ out outLen, inp.length ≤ outLen →
        returned (base64Decode outLen k signed t) out = .ok (ret inp.length, patch out 0 inp)) ∧
      ∀ out outLen, t.length < outLen →
        returned (base64Encode outLen inp) out = .ok (ret t.length, patch out 0 (t ++ [0]))

theorem patch_outside {mem : ℕ → UInt8} {xs : List UInt8} {i n : ℕ} (h : xs.length ≤ n)
    (hi : n ≤ i) : patch mem 0 xs i = mem i := patch_of_le (by omega)

theorem codec_asInt : Codec asInt where
  encode inp out outLen h := by
    by_cases hlen : textLen inp.length < outLen
    · refine ⟨_, _, encode_large out h hlen, ?_, fun _ => rfl, fun _ => rfl, fun i hi => ?_⟩
      · exact iff_of_false (asInt_textLen _) (by omega)
      · refine patch_outside ?_ hi
        simp only [List.length_append, length_rfc4648, List.length_singleton]
        omega
    · refine ⟨_, _, encode_small out h (by omega), iff_of_true rfl (by omega), fun h => absurd h hlen,
        fun h => absurd h hlen, fun i hi => patch_outside ?_ hi⟩
      exact List.length_take_le _ _
  decode k signed inp out outLen h := by
    by_cases hlen : inp.length ≤ outLen
    · exact ⟨_, _, decode_large k signed out h hlen, fun h => absurd h (by omega), fun _ => rfl,
        fun _ => rfl, fun i hi => patch_outside hlen hi⟩
    · refine ⟨_, _, decode_small k signed out h (by omega), fun _ => rfl, fun h => absurd h hlen,
        fun h => absurd h hlen, fun i hi => patch_outside ?_ hi⟩
      exact List.length_take_le _ _
  canonical k signed t ht hlen := by
    obtain ⟨inp, rfl⟩ := ht.exists
    rw [length_rfc4648] at hlen ⊢
    exact ⟨inp, fun out outLen h => decode_large k signed out hlen h,
      fun out outLen h => encode_large out hlen h⟩

/-- **The codec.** Lengths are returned as an `int`. -/
theorem base64_codec : Codec asInt ∧ ∀ n < 2 ^ 31, asInt n = n :=
  ⟨codec_asInt, fun _ h => asInt_eq h⟩

/-- The text for `3 * 2 ^ 29` bytes has `2 ^ 31` characters. -/
theorem base64_codec_int : ¬Codec Nat.cast := by
  intro h
  have hlen : textLen (List.replicate (3 * 2 ^ 29) (0 : UInt8)).length = 2 ^ 31 := by
    rw [List.length_replicate]
    rfl
  obtain ⟨r, mem, hrun, hok⟩ := h.encode (List.replicate (3 * 2 ^ 29) 0) (fun _ => 0) (2 ^ 32)
    (by rw [hlen]; decide)
  have hsize := hok.size (by rw [hlen]; decide)
  rw [encode_large _ (by rw [hlen]; decide) (by rw [hlen]; decide), hlen] at hrun
  injection hrun with hrun
  injection hrun with hr
  rw [hlen, ← hr] at hsize
  exact absurd hsize (by decide)

end Libdill.Utils
