import Mathlib.Algebra.Order.Ring.Nat
import Mathlib.Data.Nat.Basic
import Mathlib.Tactic.Ring

/-!
# Numerals of a fixed length

A numeral of `k` digits in base `b`, written by taking the lowest digit `k` times and read by the
Horner scheme from the highest digit down.

* `horner b d k`: the value of the digits `d (k - 1), …, d 0`, read in this order.
* `horner_digit`: reading back the lowest `k` digits of `n` gives `n % b ^ k`.
* `fold_horner`: the Horner scheme as a left fold over the turns of a loop.
* `fold_set`: a loop that fills the slots of a buffer in any order writes each slot once.
-/

namespace Foundations

variable {α : Type*}

/-- The value of the numeral with the digits `d (k - 1), …, d 0`. -/
def horner (b : ℕ) (d : ℕ → ℕ) : ℕ → ℕ
  | 0 => 0
  | k + 1 => d k * b ^ k + horner b d k

/-- Reading back the `k` lowest digits of `n`. -/
theorem horner_digit (b n k : ℕ) : horner b (fun i => n / b ^ i % b) k = n % b ^ k := by
  induction k with
  | zero => simp [horner, Nat.mod_one]
  | succ k ih =>
    unfold horner
    rw [ih, pow_succ, Nat.mod_mul, Nat.mul_comm]
    omega

/-- The Horner scheme as a loop: the digits are read from the highest down, and every turn shifts
what has been read by one place. -/
theorem fold_horner (b : ℕ) (d : ℕ → ℕ) (m : ℕ) {k : ℕ} (hk : k ≤ m) :
    ((List.range k).foldl (fun acc i => acc * b + d (m - i - 1)) 0) * b ^ (m - k)
      + horner b d (m - k) = horner b d m := by
  induction k with
  | zero => simp
  | succ k ih =>
    have hm : m - k = (m - (k + 1)) + 1 := by omega
    have hi : m - k - 1 = m - (k + 1) := by omega
    have h := ih (by omega)
    rw [hm, horner, pow_succ] at h
    rw [List.range_succ, List.foldl_append, List.foldl_cons, List.foldl_nil, hi, ← h]
    ring

/-- A loop over `k` turns that writes `v i` into the slot `p i` of a buffer. -/
theorem fold_set (p : ℕ → ℕ) (v : ℕ → α) (buf : List α) (k j : ℕ)
    (hp : ∀ i < k, ∀ i' < k, p i = p i' → i = i') (hj : j < k) (hlt : p j < buf.length) :
    ((List.range k).foldl (fun b i => b.set (p i) (v i)) buf)[p j]? = some (v j) := by
  have hlen : ∀ n, ((List.range n).foldl (fun b i => b.set (p i) (v i)) buf).length
      = buf.length := by
    intro n
    induction n with
    | zero => rfl
    | succ n ih => rw [List.range_succ, List.foldl_append]; simpa using ih
  induction k with
  | zero => omega
  | succ k ih =>
    rw [List.range_succ, List.foldl_append, List.foldl_cons, List.foldl_nil]
    by_cases hjk : j = k
    · subst hjk
      rw [List.getElem?_set_self (by rw [hlen]; exact hlt)]
    · have hne : p k ≠ p j := fun h => hjk (hp _ (by omega) _ (by omega) h).symm
      rw [List.getElem?_set_ne hne]
      exact ih (fun i hi i' hi' => hp i (by omega) i' (by omega)) (by omega)

end Foundations
