import Libdill.Foundations.BigEndian
import Mathlib.Data.List.Basic

/-!
# Frames of the WebSocket protocol

The frames RFC 6455 defines for a sender, independently of the code: a bit for the last frame of a
message, an opcode, a payload whose length is given in one of three forms, and for frames to a
server a key of four bytes the payload is combined with.

* `unmask_mask`: a payload is unmasked by masking it again.
-/

namespace Libdill.Ws

open Foundations

/-! ## Masking -/

/-- A masking key. -/
structure Key where
  bytes : List UInt8
  length_bytes : bytes.length = 4

/-- The byte of the key for position `pos` of a payload. -/
def Key.at (key : Key) (pos : ℕ) : UInt8 := key.bytes.getD (pos % 4) 0

/-- The bytes `bs`, which stand at position `pos` of a payload, combined with the key. -/
def Key.mask (key : Key) : ℕ → List UInt8 → List UInt8
  | _, [] => []
  | pos, b :: bs => (b ^^^ key.at pos) :: key.mask (pos + 1) bs

variable {key : Key} {pos : ℕ} {bs bs' : List UInt8}

@[simp] theorem mask_nil (key : Key) (pos : ℕ) : key.mask pos [] = [] := rfl

@[simp] theorem length_mask : (key.mask pos bs).length = bs.length := by
  induction bs generalizing pos with
  | nil => rfl
  | cons b bs ih => rw [Key.mask, List.length_cons, List.length_cons, ih]

theorem mask_append :
    key.mask pos (bs ++ bs') = key.mask pos bs ++ key.mask (pos + bs.length) bs' := by
  induction bs generalizing pos with
  | nil => rfl
  | cons b bs ih =>
    rw [List.cons_append, Key.mask, ih, Key.mask, List.cons_append, List.length_cons,
      show pos + 1 + bs.length = pos + (bs.length + 1) by omega]

theorem mask_take (n : ℕ) : (key.mask pos bs).take n = key.mask pos (bs.take n) := by
  induction bs generalizing pos n with
  | nil => simp
  | cons b bs ih =>
    cases n with
    | zero => rfl
    | succ n => rw [Key.mask, List.take_succ_cons, ih, List.take_succ_cons, Key.mask]

theorem mask_drop (n : ℕ) : (key.mask pos bs).drop n = key.mask (pos + n) (bs.drop n) := by
  induction bs generalizing pos n with
  | nil => simp
  | cons b bs ih =>
    cases n with
    | zero => rfl
    | succ n =>
      rw [Key.mask, List.drop_succ_cons, ih, List.drop_succ_cons,
        show pos + 1 + n = pos + (n + 1) by omega]

/-- Masking at one position and unmasking at another gives back the payload exactly when the key
has the same bytes at both, as far as the payload goes. -/
theorem mask_mask_iff {pos' : ℕ} :
    key.mask pos' (key.mask pos bs) = bs ↔
      ∀ i < bs.length, key.at (pos' + i) = key.at (pos + i) := by
  induction bs generalizing pos pos' with
  | nil => simp
  | cons b bs ih =>
    have hhead : b ^^^ key.at pos ^^^ key.at pos' = b ↔ key.at pos' = key.at pos := by
      constructor
      · intro h
        have hxor := congrArg (fun c => b ^^^ key.at pos ^^^ c) h
        simp only [← UInt8.xor_assoc, UInt8.xor_self, UInt8.zero_xor] at hxor
        rw [hxor, UInt8.xor_assoc, UInt8.xor_comm, UInt8.xor_assoc, UInt8.xor_self,
          UInt8.xor_zero]
      · intro h
        rw [h, UInt8.xor_assoc, UInt8.xor_self, UInt8.xor_zero]
    rw [Key.mask, Key.mask, List.cons.injEq, hhead, ih]
    constructor
    · rintro ⟨h0, hs⟩ i hi
      cases i with
      | zero => exact h0
      | succ i =>
        have h := hs i (by simpa using hi)
        rw [show pos' + (i + 1) = pos' + 1 + i by omega, show pos + (i + 1) = pos + 1 + i by omega]
        exact h
    · intro h
      constructor
      · exact h 0 (by simp)
      · intro i hi
        have h' := h (i + 1) (by simpa using hi)
        rw [show pos' + 1 + i = pos' + (i + 1) by omega, show pos + 1 + i = pos + (i + 1) by omega]
        exact h'

/-- A payload is unmasked by masking it again. -/
theorem unmask_mask (key : Key) (pos : ℕ) (bs : List UInt8) :
    key.mask pos (key.mask pos bs) = bs :=
  mask_mask_iff.mpr fun _ _ => rfl

/-! ## Frames -/

/-- The three forms of a length: in the header itself, in two or in eight bytes that follow it. -/
inductive LenForm
  | short
  | medium
  | long
  deriving DecidableEq

/-- The form can express the length `n`. The highest bit of a long one is zero. -/
def LenForm.Fits : LenForm → ℕ → Prop
  | .short, n => n ≤ 125
  | .medium, n => n < 2 ^ 16
  | .long, n => n < 2 ^ 63

instance (form : LenForm) (n : ℕ) : Decidable (form.Fits n) := by
  cases form <;> unfold LenForm.Fits <;> infer_instance

/-- The shortest form for the length `n`. -/
def LenForm.minimal (n : ℕ) : LenForm :=
  if n ≤ 125 then .short else if n < 2 ^ 16 then .medium else .long

/-- The seven bits of the header. -/
def LenForm.code : LenForm → ℕ → ℕ
  | .short, n => n
  | .medium, _ => 126
  | .long, _ => 127

/-- The bytes that follow the header. -/
def LenForm.ext : LenForm → ℕ → List UInt8
  | .short, _ => []
  | .medium, n => bigEndian 2 n
  | .long, n => bigEndian 8 n

theorem LenForm.minimal_fits {n : ℕ} (h : n < 2 ^ 63) : (LenForm.minimal n).Fits n := by
  unfold LenForm.minimal
  split
  · assumption
  · split
    · assumption
    · exact h

theorem LenForm.Fits.lt {form : LenForm} {n : ℕ} (h : form.Fits n) : n < 2 ^ 63 := by
  cases form with
  | short =>
    have hn : n ≤ 125 := h
    omega
  | medium =>
    have hn : n < 2 ^ 16 := h
    omega
  | long => exact h

theorem LenForm.code_lt {form : LenForm} {n : ℕ} (h : form.Fits n) : form.code n < 128 := by
  cases form with
  | short =>
    have hn : n ≤ 125 := h
    show n < 128
    omega
  | medium =>
    show 126 < 128
    omega
  | long =>
    show 127 < 128
    omega

/-- A key as it is sent, if there is one. -/
def keyBytes : Option Key → List UInt8
  | none => []
  | some key => key.bytes

/-- The two bytes every frame starts with. -/
def hdrBytes (fin : Bool) (opcode : UInt8) (masked : Bool) (code : ℕ) : List UInt8 :=
  [(if fin then 0x80 else 0) ||| opcode, (if masked then 0x80 else 0) ||| UInt8.ofNat code]

/-- A frame. The payload is the one before masking. -/
structure Frame where
  fin : Bool
  opcode : UInt8
  key : Option Key
  form : LenForm
  payload : List UInt8
  fits : form.Fits payload.length

namespace Frame


/-- The payload as it is sent. -/
def body (f : Frame) : List UInt8 :=
  match f.key with
  | none => f.payload
  | some key => key.mask 0 f.payload

/-- The bytes of a frame. -/
def encode (f : Frame) : List UInt8 :=
  hdrBytes f.fin f.opcode f.key.isSome (f.form.code f.payload.length) ++
    f.form.ext f.payload.length ++ keyBytes f.key ++ f.body

@[simp] theorem length_body (f : Frame) : f.body.length = f.payload.length := by
  unfold body
  split
  · rfl
  · exact length_mask

end Frame

end Libdill.Ws
