import Mathlib.Logic.Function.Basic
import Mathlib.Order.Basic
import Mathlib.Data.Nat.Notation

/-!
# Forests of owners

Objects are reached by handles, and an object may own the handle of another one: the objects form
stacks. `Forest f n` says that no handle has two owners, that an owned handle leads to an object,
and that numbers of objects, which are below `n`, decrease downwards. The top of a stack is a
handle without an owner, and `Over f i h` says that the stack from `h` contains the object `i`.

* `Forest.erase`, `Forest.add`, `Forest.move`: the changes at the tops.
-/

namespace Foundations

/-- An object: its number, its kind and the handle it owns. -/
structure Node (η κ : Type*) where
  id : ℕ
  kind : κ
  under : Option η
  deriving DecidableEq

variable {η κ : Type*}

/-- Owned handles lead to objects with smaller numbers, and have one owner. -/
structure Forest (f : η → Option (Node η κ)) (n : ℕ) : Prop where
  fresh : ∀ {h o}, f h = some o → o.id < n
  below : ∀ {h o u}, f h = some o → o.under = some u → ∃ o', f u = some o' ∧ o'.id < o.id
  owner : ∀ {h h' o o' u}, f h = some o → f h' = some o' → o.under = some u →
    o'.under = some u → h = h'

/-- An object that nobody owns. -/
structure Top (f : η → Option (Node η κ)) (h : η) (o : Node η κ) : Prop where
  eq : f h = some o
  free : ∀ {h' o'}, f h' = some o' → o'.under ≠ some h

/-- The stack from a handle contains the object `i`. -/
inductive Over (f : η → Option (Node η κ)) (i : ℕ) : η → Prop
  | here {h : η} {o : Node η κ} : f h = some o → o.id = i → Over f i h
  | above {h u : η} {o : Node η κ} : f h = some o → o.under = some u → Over f i u → Over f i h

variable {f g : η → Option (Node η κ)} {n i : ℕ} {h u r : η} {o o' : Node η κ}

theorem forest_none : Forest (fun _ => none : η → Option (Node η κ)) n where
  fresh := nofun
  below := nofun
  owner := nofun

theorem Forest.mono (hf : Forest f n) {m : ℕ} (hnm : n ≤ m) : Forest f m :=
  ⟨fun he => Nat.lt_of_lt_of_le (hf.fresh he) hnm, hf.below, hf.owner⟩

theorem Over.le (hf : Forest f n) (ho : Over f i h) (he : f h = some o) : i ≤ o.id := by
  induction ho generalizing o with
  | here he' hi =>
    rw [he] at he'
    cases he'
    exact Nat.le_of_eq hi.symm
  | above he' hu _ ih =>
    rw [he] at he'
    cases he'
    obtain ⟨o', hu', hlt⟩ := hf.below he hu
    exact Nat.le_trans (ih hu') (Nat.le_of_lt hlt)

/-- The handle of a stack leads to an object. -/
theorem Over.defined (ho : Over f i h) : ∃ o, f h = some o := by
  cases ho with
  | here he _ => exact ⟨_, he⟩
  | above he _ _ => exact ⟨_, he⟩

/-- A stack is the same in a table that agrees with the first one away from a handle that is not
in it. -/
theorem Over.congr (ho : Over f i h) (hne : h ≠ r) (hfree : ∀ {h' o'}, f h' = some o' →
    o'.under ≠ some r) (hg : ∀ k, k ≠ r → g k = f k) : Over g i h := by
  induction ho with
  | here he hi => exact .here ((hg _ hne).trans he) hi
  | above he hu _ ih =>
    refine .above ((hg _ hne).trans he) hu (ih ?_)
    rintro rfl
    exact hfree he hu

section Update

variable [DecidableEq η]

theorem update_none {k : η} (hk : Function.update f h none k = some o) : k ≠ h ∧ f k = some o := by
  by_cases hkh : k = h
  · rw [hkh, Function.update_self] at hk
    cases hk
  · rw [Function.update_of_ne hkh] at hk
    exact ⟨hkh, hk⟩

/-- The top of a stack is taken away. -/
theorem Forest.erase (hf : Forest f n) (ht : Top f h o) : Forest (Function.update f h none) n where
  fresh he := hf.fresh (update_none he).2
  below he hu := by
    obtain ⟨-, he₁⟩ := update_none he
    obtain ⟨o', hu', hlt⟩ := hf.below he₁ hu
    refine ⟨o', ?_, hlt⟩
    rw [Function.update_of_ne]
    · exact hu'
    · rintro rfl
      exact ht.free he₁ hu
  owner he he' := hf.owner (update_none he).2 (update_none he').2

/-- What a top has owned is a top without it. -/
theorem Forest.top_erase (hf : Forest f n) (ht : Top f h o) (hu : o.under = some u) :
    ∃ o', Top (Function.update f h none) u o' ∧ o'.id < o.id := by
  obtain ⟨o', hu', hlt⟩ := hf.below ht.eq hu
  refine ⟨o', ⟨?_, fun he hu₁ => ?_⟩, hlt⟩
  · rw [Function.update_of_ne]
    · exact hu'
    · rintro rfl
      exact ht.free ht.eq hu
  · obtain ⟨hne, he⟩ := update_none he
    exact hne (hf.owner he ht.eq hu₁ hu)

/-- The rest of a stack is the same without its top. -/
theorem Forest.over_erase (hf : Forest f n) (ht : Top f h o) (hu : o.under = some u) :
    Over (Function.update f h none) i u ↔ Over f i h ∧ i ≠ o.id := by
  obtain ⟨o', htu, hlt⟩ := hf.top_erase ht hu
  have hne : u ≠ h := (update_none htu.eq).1
  constructor
  · intro ho
    have ho' : Over f i u := by
      refine ho.congr hne (fun he hu' => ht.free (update_none he).2 hu') fun k hk => ?_
      rw [Function.update_of_ne hk]
    have hle := ho'.le hf (update_none htu.eq).2
    exact ⟨.above ht.eq hu ho', by omega⟩
  · rintro ⟨ho, hi⟩
    have ho' : Over f i u := by
      cases ho with
      | here he hi' =>
        rw [ht.eq] at he
        cases he
        exact absurd hi'.symm hi
      | above he hu' ho =>
        rw [ht.eq] at he
        cases he
        rw [hu] at hu'
        cases hu'
        exact ho
    exact ho'.congr hne ht.free fun k hk => Function.update_of_ne hk _ _

/-- A new object, which may own a top. -/
theorem Forest.add (hf : Forest f n) (hn : f h = none) (hi : o.id < n)
    (hu : ∀ u, o.under = some u → ∃ o', Top f u o' ∧ o'.id < o.id) :
    Forest (Function.update f h (some o)) n ∧ Top (Function.update f h (some o)) h o := by
  have hcases : ∀ {k o₁}, Function.update f h (some o) k = some o₁ →
      k = h ∧ o₁ = o ∨ k ≠ h ∧ f k = some o₁ := by
    intro k o₁ hk
    by_cases hkh : k = h
    · rw [hkh, Function.update_self] at hk
      cases hk
      exact .inl ⟨hkh, rfl⟩
    · rw [Function.update_of_ne hkh] at hk
      exact .inr ⟨hkh, hk⟩
  have hold : ∀ {k o₁}, f k = some o₁ → Function.update f h (some o) k = some o₁ := by
    intro k o₁ hk
    rw [Function.update_of_ne]
    · exact hk
    · rintro rfl
      rw [hn] at hk
      cases hk
  have hself : o.under ≠ some h := by
    intro hs
    obtain ⟨o', ht, -⟩ := hu h hs
    have heq := ht.eq
    rw [hn] at heq
    cases heq
  refine ⟨⟨?_, ?_, ?_⟩, ⟨Function.update_self _ _ _, ?_⟩⟩
  · intro k o₁ hk
    rcases hcases hk with ⟨-, rfl⟩ | ⟨-, hk⟩
    · exact hi
    · exact hf.fresh hk
  · intro k o₁ u hk hku
    rcases hcases hk with ⟨-, rfl⟩ | ⟨-, hk⟩
    · obtain ⟨o', ht, hlt⟩ := hu u hku
      exact ⟨o', hold ht.eq, hlt⟩
    · obtain ⟨o', hk', hlt⟩ := hf.below hk hku
      exact ⟨o', hold hk', hlt⟩
  · intro k k' o₁ o₂ u hk hk' hku hku'
    rcases hcases hk with ⟨hkh, ho⟩ | ⟨-, hk₁⟩ <;>
      rcases hcases hk' with ⟨hkh', ho'⟩ | ⟨-, hk₂⟩
    · exact hkh.trans hkh'.symm
    · obtain ⟨o', ht, -⟩ := hu u (ho ▸ hku)
      exact absurd hku' (ht.free hk₂)
    · obtain ⟨o', ht, -⟩ := hu u (ho' ▸ hku')
      exact absurd hku (ht.free hk₁)
    · exact hf.owner hk₁ hk₂ hku hku'
  · intro k o₁ hk hku
    rcases hcases hk with ⟨-, rfl⟩ | ⟨-, hk⟩
    · exact hself hku
    · obtain ⟨o', hk', -⟩ := hf.below hk hku
      rw [hn] at hk'
      cases hk'

/-- The top of a stack gets another handle. -/
theorem Forest.move (hf : Forest f n) (ht : Top f h o) (hr : f r = none) :
    Forest (Function.update (Function.update f h none) r (some o)) n ∧
      Top (Function.update (Function.update f h none) r (some o)) r o := by
  have hne : r ≠ h := by
    rintro rfl
    rw [ht.eq] at hr
    cases hr
  apply (hf.erase ht).add
  · rw [Function.update_of_ne hne]
    exact hr
  · exact hf.fresh ht.eq
  · exact fun u hu => hf.top_erase ht hu

end Update

end Foundations
