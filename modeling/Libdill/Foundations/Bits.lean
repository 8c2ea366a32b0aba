import Mathlib.Data.BitVec

/-!
# Masks

A mask is made of flags, each of which may be set. What is contained in a mask and is not zero has
something in common with one of the flags that are set, if only what they have in common.
-/

namespace Foundations

variable {n : ℕ} {x y a r : BitVec n} {p q : Bool}

/-- The flags `x` and `y`, each if it is set. -/
def maskOf (x y : BitVec n) (p q : Bool) : BitVec n := (if p then x else 0) ||| (if q then y else 0)

/-- Of two flags with the common part `a`, one has something in common with `r`. -/
theorem exists_flag (hr : r ≠ 0) (hmask : maskOf x y p q ≠ 0)
    (hsub : r &&& (maskOf x y p q ||| a) = r) :
    p = true ∧ r &&& (x ||| a) ≠ 0 ∨ q = true ∧ r &&& (y ||| a) ≠ 0 := by
  unfold maskOf at hmask hsub
  cases p with
  | true =>
    by_cases hx : r &&& (x ||| a) = 0
    · cases q with
      | true =>
        refine .inr ⟨rfl, fun hy => hr ?_⟩
        have hsum : x ||| y ||| a = (x ||| a) ||| (y ||| a) := by
          ext i hi
          simp only [BitVec.getElem_or]
          cases x[i] <;> cases y[i] <;> cases a[i] <;> rfl
        rw [if_pos rfl, if_pos rfl, hsum, BitVec.and_or_distrib_left, hx, hy] at hsub
        rw [← hsub]
        exact BitVec.or_self
      | false =>
        rw [if_pos rfl, if_neg (by decide)] at hsub
        have hzero : x ||| 0 = x := BitVec.or_zero
        rw [hzero, hx] at hsub
        exact absurd hsub.symm hr
    · exact .inl ⟨rfl, hx⟩
  | false =>
    cases q with
    | true =>
      refine .inr ⟨rfl, fun hy => hr ?_⟩
      have hzero : 0 ||| y = y := BitVec.zero_or
      rw [if_pos rfl, if_neg (by decide), hzero, hy] at hsub
      exact hsub.symm
    | false =>
      rw [if_neg (by decide), if_neg (by decide)] at hmask
      exact absurd BitVec.or_self hmask

end Foundations
