import Mathlib.Data.Nat.Notation
import Mathlib.Logic.Basic

/-!
# Systems in which the order of steps does not matter

A step relation has the diamond property if two steps from a state lead to the same state, or to
states from which one more step each leads to the same state. Then one run to a final state is enough
to know all runs.

* `leads_of_run`: if some run leads to a final state, every run can be continued to this state, and
  all runs that end have the same length.
-/

namespace Foundations

variable {σ : Type*} {step : σ → σ → Prop}

/-- A run of `k` steps. -/
inductive Leads (step : σ → σ → Prop) : ℕ → σ → σ → Prop
  | refl (p : σ) : Leads step 0 p p
  | cons {k : ℕ} {p q r : σ} : step p q → Leads step k q r → Leads step (k + 1) p r

/-- Two steps from a state lead to the same state, at once or after one more step each. -/
def Diamond (step : σ → σ → Prop) : Prop :=
  ∀ p q r, step p q → step p r → q = r ∨ ∃ s, step q s ∧ step r s

/-- No step is possible. -/
def Final (step : σ → σ → Prop) (p : σ) : Prop := ∀ q, ¬ step p q

theorem Leads.trans {i j : ℕ} {p q r : σ} (h : Leads step i p q) (h' : Leads step j q r) :
    Leads step (i + j) p r := by
  induction h with
  | refl p =>
    rw [Nat.zero_add]
    exact h'
  | cons hstep _ ih =>
    rw [Nat.succ_add]
    exact .cons hstep (ih h')

/-- The first step of any run is on the way to the final state. -/
theorem leads_of_step (hd : Diamond step) {k : ℕ} {p q F : σ} (hF : Final step F)
    (h : Leads step k p F) (hq : step p q) : ∃ j, k = j + 1 ∧ Leads step j q F := by
  induction h generalizing q with
  | refl p => exact absurd hq (hF q)
  | @cons k p p₁ F hp h ih =>
    rcases hd p p₁ q hp hq with heq | ⟨s, hs, hs'⟩
    · exact ⟨k, rfl, heq ▸ h⟩
    · obtain ⟨j, hj, hrest⟩ := ih hF hs
      exact ⟨k, rfl, hj ▸ .cons hs' hrest⟩

/-- **All runs.** -/
theorem leads_of_run (hd : Diamond step) {i k : ℕ} {p q F : σ} (hF : Final step F)
    (h : Leads step k p F) (hq : Leads step i p q) : ∃ j, k = i + j ∧ Leads step j q F := by
  induction hq generalizing k with
  | refl p => exact ⟨k, (Nat.zero_add k).symm, h⟩
  | cons hstep _ ih =>
    obtain ⟨k', hk, hrest⟩ := leads_of_step hd hF h hstep
    obtain ⟨j, hj, hend⟩ := ih hrest
    exact ⟨j, by omega, hend⟩

end Foundations
