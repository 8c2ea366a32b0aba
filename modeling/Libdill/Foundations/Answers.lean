import Mathlib.Data.Option.Basic

/-!
# Machines that answer

A machine `step : σ → α → Option (σ × β)` takes an input in a state and gives an answer, or blocks.
`answers step s as` is the run along the inputs `as`. Two machines that stay related answer alike:
`answers_rel` is the rule for refinement, step by step, and `answers_sim` the one for a machine that
does what another one can do.
-/

namespace Foundations

variable {σ τ α β : Type*}

/-- The last state and the answers of the run along a list of inputs, if it does not block. -/
def answers (step : σ → α → Option (σ × β)) : σ → List α → Option (σ × List β)
  | s, [] => some (s, [])
  | s, a :: as =>
    (step s a).bind fun r => (answers step r.1 as).map fun r' => (r'.1, r.2 :: r'.2)

variable {step : σ → α → Option (σ × β)} {step' : τ → α → Option (τ × β)}

theorem answers_cons {s s' s'' : σ} {a : α} {as : List α} {b : β} {bs : List β}
    (h : step s a = some (s', b)) (hs : answers step s' as = some (s'', bs)) :
    answers step s (a :: as) = some (s'', b :: bs) := by
  unfold answers
  rw [h, Option.bind_some, hs, Option.map_some]

theorem answers_cons_eq_some {s s'' : σ} {a : α} {as : List α} {bs : List β}
    (h : answers step s (a :: as) = some (s'', bs)) :
    ∃ s' b bs', step s a = some (s', b) ∧ answers step s' as = some (s'', bs') ∧ bs = b :: bs' := by
  unfold answers at h
  obtain ⟨⟨s', b⟩, ha, hr⟩ := Option.bind_eq_some_iff.mp h
  obtain ⟨⟨s₂, bs'⟩, has, heq⟩ := Option.map_eq_some_iff.mp hr
  cases heq
  exact ⟨s', b, bs', ha, has, rfl⟩

theorem answers_append {s s' s'' : σ} {as as' : List α} {bs bs' : List β}
    (h : answers step s as = some (s', bs)) (h' : answers step s' as' = some (s'', bs')) :
    answers step s (as ++ as') = some (s'', bs ++ bs') := by
  induction as generalizing s bs with
  | nil =>
    cases h
    exact h'
  | cons a as ih =>
    obtain ⟨s₁, b, bs₂, ha, has, rfl⟩ := answers_cons_eq_some h
    exact answers_cons ha (ih has)

/-- Facts about a state and its history, by induction on the history. -/
theorem answers_induction {I : σ → List α → List β → Prop} {s₀ s : σ} {as : List α} {bs : List β}
    (h0 : I s₀ [] [])
    (hs : ∀ s as bs a s' b, I s as bs → step s a = some (s', b) → I s' (as ++ [a]) (bs ++ [b]))
    (hr : answers step s₀ as = some (s, bs)) : I s as bs := by
  have hgen : ∀ (as : List α) (s₁ : σ) (pas : List α) (pbs bs : List β), I s₁ pas pbs →
      answers step s₁ as = some (s, bs) → I s (pas ++ as) (pbs ++ bs) := by
    intro as
    induction as with
    | nil =>
      intro s₁ pas pbs bs hi hr
      cases hr
      rw [List.append_nil, List.append_nil]
      exact hi
    | cons a as ih =>
      intro s₁ pas pbs bs hi hr
      obtain ⟨s₂, b, bs₃, ha, has, rfl⟩ := answers_cons_eq_some hr
      have hnext := ih s₂ (pas ++ [a]) (pbs ++ [b]) bs₃ (hs s₁ pas pbs a s₂ b hi ha) has
      rw [List.append_assoc, List.append_assoc] at hnext
      exact hnext
  exact hgen as s₀ [] [] bs h0 hr

/-- The machine that takes only the steps that meet a condition. -/
def guarded (P : σ → α → Prop) [∀ s a, Decidable (P s a)] (step : σ → α → Option (σ × β)) (s : σ)
    (a : α) : Option (σ × β) :=
  if P s a then step s a else none

theorem guarded_eq_some {P : σ → α → Prop} [∀ s a, Decidable (P s a)] {s : σ} {a : α} {r : σ × β}
    (h : guarded P step s a = some r) : P s a ∧ step s a = some r := by
  unfold guarded at h
  split at h
  · rename_i hp
    exact ⟨hp, h⟩
  · cases h

/-- Every answer of a run is the answer of a step from a state with an invariant. -/
theorem answers_invariant {I : σ → Prop} {Q : β → Prop}
    (h : ∀ s a s' b, I s → step s a = some (s', b) → I s' ∧ Q b) {s s' : σ} {as : List α}
    {bs : List β} (hs : I s) (hr : answers step s as = some (s', bs)) :
    I s' ∧ ∀ b ∈ bs, Q b := by
  induction as generalizing s bs with
  | nil =>
    cases hr
    exact ⟨hs, fun b hb => absurd hb List.not_mem_nil⟩
  | cons a as ih =>
    obtain ⟨s₁, b, bs₂, ha, has, rfl⟩ := answers_cons_eq_some hr
    obtain ⟨h₁, hb⟩ := h s a s₁ b hs ha
    obtain ⟨h₂, hbs⟩ := ih h₁ has
    exact ⟨h₂, List.forall_mem_cons.mpr ⟨hb, hbs⟩⟩

/-- A machine that can follow every step of another one can follow its runs. -/
theorem answers_sim {R : σ → τ → Prop}
    (h : ∀ s t a t' b, R s t → step' t a = some (t', b) → ∃ s', step s a = some (s', b) ∧ R s' t')
    {s : σ} {t t' : τ} {as : List α} {bs : List β} (hR : R s t)
    (hr : answers step' t as = some (t', bs)) :
    ∃ s', answers step s as = some (s', bs) ∧ R s' t' := by
  induction as generalizing s t bs with
  | nil =>
    cases hr
    exact ⟨s, rfl, hR⟩
  | cons a as ih =>
    obtain ⟨t₁, b, bs₂, ha, has, rfl⟩ := answers_cons_eq_some hr
    obtain ⟨s₁, hs₁, hR₁⟩ := h s t a t₁ b hR ha
    obtain ⟨s₂, hs₂, hR₂⟩ := ih hR₁ has
    exact ⟨s₂, answers_cons hs₁ hs₂, hR₂⟩

/-- Machines whose steps keep a relation and answer alike have related runs. -/
theorem answers_rel {R : σ → τ → Prop} {ok : α → Prop}
    (h : ∀ s t a, ok a → R s t →
      Option.Rel (fun x y => R x.1 y.1 ∧ x.2 = y.2) (step s a) (step' t a))
    {s : σ} {t : τ} {as : List α} (hok : ∀ a ∈ as, ok a) (hR : R s t) :
    Option.Rel (fun x y => R x.1 y.1 ∧ x.2 = y.2) (answers step s as) (answers step' t as) := by
  induction as generalizing s t with
  | nil => exact .some ⟨hR, rfl⟩
  | cons a as ih =>
    obtain ⟨ha, has⟩ := List.forall_mem_cons.mp hok
    unfold answers
    cases hx : step s a with
    | none =>
      have hrel := h s t a ha hR
      rw [hx] at hrel
      cases hy : step' t a with
      | none => exact .none
      | some y => rw [hy] at hrel; cases hrel
    | some x =>
      have hrel := h s t a ha hR
      rw [hx] at hrel
      cases hy : step' t a with
      | none => rw [hy] at hrel; cases hrel
      | some y =>
        rw [hy] at hrel
        cases hrel with
        | some hxy =>
          have hrest := ih has hxy.1
          rw [Option.bind_some, Option.bind_some]
          cases hx' : answers step x.1 as with
          | none =>
            rw [hx'] at hrest
            cases hy' : answers step' y.1 as with
            | none => exact .none
            | some y' => rw [hy'] at hrest; cases hrest
          | some x' =>
            rw [hx'] at hrest
            cases hy' : answers step' y.1 as with
            | none => rw [hy'] at hrest; cases hrest
            | some y' =>
              rw [hy'] at hrest
              cases hrest with
              | some hxy' =>
                refine .some ⟨hxy'.1, ?_⟩
                show x.2 :: x'.2 = y.2 :: y'.2
                rw [hxy.2, hxy'.2]

end Foundations
