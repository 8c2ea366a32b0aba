import Mathlib.Data.Nat.Notation

/-!
# While loops

`whileLoop n cond body s` is the loop `while (cond) body` started in `s`, given up after `n` turns.
The rule `whileLoop_spec` is total correctness: an invariant that carries a bound on the turns to
come shows that the loop ends within its budget, in a state where the invariant holds and the
condition does not.
-/

namespace Foundations

variable {σ : Type*}

/-- `while (cond) body`; `none` when the loop has not ended after `n` turns. -/
def whileLoop (cond : σ → Bool) (body : σ → σ) : ℕ → σ → Option σ
  | n, s =>
    if cond s then
      match n with
      | 0 => none
      | n + 1 => whileLoop cond body n (body s)
    else some s

/-- **The rule for loops.** `I k s` says that the invariant holds in `s` and that the loop makes at
most `k` further turns. -/
theorem whileLoop_spec {cond : σ → Bool} {body : σ → σ} {I : ℕ → σ → Prop}
    (hbody : ∀ k s, I k s → cond s = true → ∃ k' < k, I k' (body s)) {n k : ℕ} {s : σ}
    (hs : I k s) (hn : k ≤ n) :
    ∃ s', whileLoop cond body n s = some s' ∧ cond s' = false ∧ ∃ k', I k' s' := by
  induction n generalizing k s with
  | zero =>
    cases hc : cond s with
    | false =>
      refine ⟨s, ?_, hc, k, hs⟩
      rw [whileLoop, if_neg (by simp [hc])]
    | true =>
      obtain ⟨k', hk', -⟩ := hbody k s hs hc
      omega
  | succ n ih =>
    cases hc : cond s with
    | false =>
      refine ⟨s, ?_, hc, k, hs⟩
      rw [whileLoop, if_neg (by simp [hc])]
    | true =>
      obtain ⟨k', hk', hI⟩ := hbody k s hs hc
      obtain ⟨s', hs', hend⟩ := ih hI (by omega)
      refine ⟨s', ?_, hend⟩
      rw [whileLoop, if_pos hc]
      exact hs'

end Foundations
