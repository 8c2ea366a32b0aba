import Mathlib.Data.Nat.Bitwise
import Mathlib.Data.List.Basic

/-!
# Streams of bits

Numbers of a fixed width as one sequence of bits, the highest bit of each of them first. A program
that turns numbers of one width into numbers of another one keeps the bits it has not written yet in
an accumulator.

* `bits_push`, `bits_append`: a number is shifted into an accumulator, or taken out of it.
* `bitStream_append_inj`: the sequence determines the numbers, and what is left behind them.
-/

namespace Foundations

/-- The `w` lowest bits of `n`, the highest of them first. -/
def bits : ℕ → ℕ → List Bool
  | 0, _ => []
  | w + 1, n => n.testBit w :: bits w n

/-- The numbers `l`, of `w` bits each, as one sequence. -/
def bitStream (w : ℕ) (l : List ℕ) : List Bool := l.flatMap (bits w)

variable {w k n m a b d : ℕ} {l l' : List ℕ} {r r' : List Bool}

@[simp] theorem bits_zero (n : ℕ) : bits 0 n = [] := rfl

@[simp] theorem bits_succ (w n : ℕ) : bits (w + 1) n = n.testBit w :: bits w n := rfl

@[simp] theorem length_bits (w n : ℕ) : (bits w n).length = w := by
  induction w with
  | zero => rfl
  | succ w ih => simp [ih]

theorem bits_congr (h : ∀ i < w, n.testBit i = m.testBit i) : bits w n = bits w m := by
  induction w with
  | zero => rfl
  | succ w ih => simp [h w (Nat.lt_succ_self w), ih fun i hi => h i (Nat.lt_succ_of_lt hi)]

theorem testBit_of_bits (h : bits w n = bits w m) {i : ℕ} (hi : i < w) :
    n.testBit i = m.testBit i := by
  induction w with
  | zero => exact absurd hi (Nat.not_lt_zero i)
  | succ w ih =>
    rw [bits_succ, bits_succ, List.cons.injEq] at h
    rcases Nat.lt_succ_iff_lt_or_eq.mp hi with hi | rfl
    · exact ih h.2 hi
    · exact h.1

theorem bits_inj (h : bits w n = bits w m) (hn : n < 2 ^ w) (hm : m < 2 ^ w) : n = m := by
  apply Nat.eq_of_testBit_eq
  intro i
  by_cases hi : i < w
  · exact testBit_of_bits h hi
  · have hle : 2 ^ w ≤ 2 ^ i := Nat.pow_le_pow_right (by decide) (Nat.le_of_not_lt hi)
    rw [Nat.testBit_lt_two_pow (hn.trans_le hle), Nat.testBit_lt_two_pow (hm.trans_le hle)]

/-- Bits above the width do not matter. -/
theorem bits_mod (h : w ≤ k) : bits w (n % 2 ^ k) = bits w n := by
  apply bits_congr
  intro i hi
  simp [Nat.testBit_mod_two_pow, hi.trans_le h]

/-- The highest bits of an accumulator, and those that are left. -/
theorem bits_append (a b n : ℕ) : bits (a + b) n = bits a (n / 2 ^ b) ++ bits b n := by
  induction a with
  | zero => simp
  | succ a ih => rw [Nat.succ_add, bits_succ, bits_succ, ih, Nat.testBit_div_two_pow]; rfl

/-- A number is shifted into an accumulator. -/
theorem bits_push (hd : d < 2 ^ b) : bits (a + b) (n <<< b ||| d) = bits a n ++ bits b d := by
  have hlow : bits b (n <<< b ||| d) = bits b d := by
    apply bits_congr
    intro i hi
    simp [Nat.testBit_or, Nat.testBit_shiftLeft, hi]
  have hhigh : (n <<< b ||| d) / 2 ^ b = n := by
    apply Nat.eq_of_testBit_eq
    intro i
    have hi : d.testBit (i + b) = false :=
      Nat.testBit_lt_two_pow (hd.trans_le (Nat.pow_le_pow_right (by decide) (Nat.le_add_left b i)))
    rw [Nat.testBit_div_two_pow, Nat.testBit_or, Nat.testBit_shiftLeft, hi]
    simp
  rw [bits_append, hlow, hhigh]

/-- What an accumulator of `k` bits loses is not looked at. -/
theorem bits_push_mod (h : a + b ≤ k) (hd : d < 2 ^ b) :
    bits (a + b) ((n <<< b) % 2 ^ k ||| d) = bits a n ++ bits b d := by
  rw [← bits_push hd]
  apply bits_congr
  intro i hi
  simp [Nat.testBit_or, Nat.testBit_mod_two_pow, hi.trans_le h]

theorem bits_zero_right (w : ℕ) : bits w 0 = List.replicate w false := by
  induction w with
  | zero => rfl
  | succ w ih => rw [bits_succ, ih, Nat.zero_testBit, List.replicate_succ]

/-- A number in the accumulator is followed by zeros. -/
theorem bits_pad (w k n : ℕ) : bits (w + k) (n <<< k) = bits w n ++ List.replicate k false := by
  have h : bits (w + k) (n <<< k ||| 0) = bits w n ++ bits k 0 := bits_push (Nat.two_pow_pos k)
  rwa [Nat.or_zero, bits_zero_right] at h

/-! ## Streams -/

@[simp] theorem bitStream_nil (w : ℕ) : bitStream w [] = [] := rfl

@[simp] theorem bitStream_cons (w n : ℕ) (l : List ℕ) :
    bitStream w (n :: l) = bits w n ++ bitStream w l := rfl

@[simp] theorem bitStream_append (w : ℕ) (l l' : List ℕ) :
    bitStream w (l ++ l') = bitStream w l ++ bitStream w l' := List.flatMap_append

@[simp] theorem length_bitStream (w : ℕ) (l : List ℕ) : (bitStream w l).length = l.length * w := by
  induction l with
  | nil => simp
  | cons n l ih => simp [ih, Nat.succ_mul, Nat.add_comm]

/-- **The numbers in a stream.** What is left behind the last of them is shorter than a number. -/
theorem bitStream_append_inj (hl : ∀ n ∈ l, n < 2 ^ w) (hl' : ∀ n ∈ l', n < 2 ^ w)
    (hr : r.length < w) (hr' : r'.length < w) (h : bitStream w l ++ r = bitStream w l' ++ r') :
    l = l' ∧ r = r' := by
  induction l generalizing l' with
  | nil =>
    cases l' with
    | nil => exact ⟨rfl, h⟩
    | cons m l' =>
      have hlen := congrArg List.length h
      simp at hlen
      omega
  | cons n l ih =>
    cases l' with
    | nil =>
      have hlen := congrArg List.length h
      simp at hlen
      omega
    | cons m l' =>
      obtain ⟨hn, hl⟩ := List.forall_mem_cons.mp hl
      obtain ⟨hm, hl'⟩ := List.forall_mem_cons.mp hl'
      simp only [bitStream_cons, List.append_assoc] at h
      obtain ⟨hbits, hrest⟩ := List.append_inj h (by simp)
      obtain ⟨rfl, rfl⟩ := ih hl hl' hrest
      exact ⟨by rw [bits_inj hbits hn hm], rfl⟩

end Foundations
