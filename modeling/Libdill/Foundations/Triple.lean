import Mathlib.Logic.Basic

/-!
# Triples

Partial correctness of computations with a state that may stop: `Triple P x Q` says that from a
state with `P` the computation `x`, if it has a result at all, ends with `Q`. The rules are those
for sequencing, for results and for weaker conditions.
-/

namespace Foundations

variable {σ ε α β : Type}

/-- From `P`, a result of `x` satisfies `Q`. -/
def Triple (P : σ → Prop) (x : StateT σ (Except ε) α) (Q : α → σ → Prop) : Prop :=
  ∀ s r s', P s → x s = .ok (r, s') → Q r s'

variable {P P' : σ → Prop} {Q Q' : α → σ → Prop} {R : β → σ → Prop} {x : StateT σ (Except ε) α}
  {f : α → StateT σ (Except ε) β}

theorem bind_ok {s s' : σ} {r : β} (h : (x >>= f) s = .ok (r, s')) :
    ∃ a s₁, x s = .ok (a, s₁) ∧ f a s₁ = .ok (r, s') := by
  have hb : (x s >>= fun p => f p.1 p.2) = .ok (r, s') := h
  cases hx : x s with
  | error e =>
    rw [hx] at hb
    cases hb
  | ok p =>
    rw [hx] at hb
    exact ⟨p.1, p.2, rfl, hb⟩

theorem Triple.bind (hx : Triple P x Q) (hf : ∀ a, Triple (Q a) (f a) R) :
    Triple P (x >>= f) R := by
  intro s r s' hp h
  obtain ⟨a, s₁, ha, hr⟩ := bind_ok h
  exact hf a s₁ r s' (hx s a s₁ hp ha) hr

theorem Triple.pure {a : α} (h : ∀ s, P s → Q a s) :
    Triple P (Pure.pure a : StateT σ (Except ε) α) Q := by
  intro s r s' hp hr
  cases hr
  exact h s hp

theorem Triple.mono (h : Triple P x Q) (hp : ∀ s, P' s → P s) (hq : ∀ a s, Q a s → Q' a s) :
    Triple P' x Q' :=
  fun s r s' hs hr => hq r s' (h s r s' (hp s hs) hr)

/-- A triple from a fact that holds in every state with `P`. -/
theorem Triple.given {p : Prop} (hp : ∀ s, P s → p) (h : p → Triple P x Q) : Triple P x Q :=
  fun s r s' hs hr => h (hp s hs) s r s' hs hr

/-- The computation has a result, and it passes the test `p`. -/
def endsIn (r : Except ε α) (p : α → Bool) : Bool :=
  match r with
  | .ok a => p a
  | .error _ => false

theorem exists_of_endsIn {r : Except ε α} (p : α → Bool) (h : endsIn r p = true) :
    ∃ a, r = .ok a ∧ p a = true := by
  unfold endsIn at h
  split at h
  · rename_i a
    exact ⟨a, rfl, h⟩
  · cases h

end Foundations
