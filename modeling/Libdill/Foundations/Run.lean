import Mathlib.Data.Nat.Notation
import Mathlib.Logic.Relation

/-!
# Runs of a step function that can stop

A system is a step function `step : σ → α → Except ε σ`: in a state, an action either leads to
the next state or stops the run with a reason. `Reach step init ok` is the set of states that
the runs from `init` reach when every step is allowed by `ok`; it is the setting of every
"for all runs" statement about a program that can abort.

* `Reach.invariant`: the induction rule for invariants.
* `Reach.mono`: fewer allowed steps reach fewer states.
* `run`: the run along a list of actions, `reach_of_run`, which turns an evaluated run into a
  reachable state, and `runsTo`, a test on its last state; `runIf` also checks the steps.
* `CanReach`: a state that some run reaches from here; `canReach_of_rank` is the progress rule.
* `Post x Q E`: the computation `x` ends in a result with `Q` or stops for a reason with `E`;
  `Post.bind` is the rule for sequencing.
* `bind_eq_map`, `run_eq_map`: two computations, and the runs of two systems, that agree up to a
  map of their results.
-/

namespace Foundations

universe u v w

variable {σ : Type u} {α : Type v} {ε : Type w}

/-! ## Postconditions -/

section Post

variable {β : Type u}

/-- The result of `x` satisfies `Q`, or it stops for a reason that satisfies `E`. -/
def Post (x : Except ε σ) (Q : σ → Prop) (E : ε → Prop) : Prop :=
  match x with
  | .ok a => Q a
  | .error e => E e

variable {x : Except ε σ} {Q Q' : σ → Prop} {E E' : ε → Prop} {f : σ → Except ε β}
  {R : β → Prop}

@[simp] theorem post_ok {a : σ} : Post (.ok a : Except ε σ) Q E ↔ Q a := Iff.rfl

@[simp] theorem post_error {e : ε} : Post (.error e : Except ε σ) Q E ↔ E e := Iff.rfl

theorem Post.bind (h : Post x Q E) (hf : ∀ a, Q a → Post (f a) R E) : Post (x >>= f) R E := by
  cases x with
  | error e => exact h
  | ok a => exact hf a h

theorem Post.mono (h : Post x Q E) (hQ : ∀ a, Q a → Q' a) (hE : ∀ e, E e → E' e) :
    Post x Q' E' := by
  cases x with
  | error e => exact hE e h
  | ok a => exact hQ a h

theorem Post.and (h : Post x Q E) (h' : Post x Q' E') :
    Post x (fun a => Q a ∧ Q' a) fun e => E e ∧ E' e := by
  cases x with
  | error e => exact ⟨h, h'⟩
  | ok a => exact ⟨h, h'⟩

theorem Post.of_ok (h : Post x Q E) {a : σ} (hx : x = .ok a) : Q a := by
  subst hx; exact h

/-- A computation that cannot stop has a result. -/
theorem Post.get (h : Post x Q fun _ => False) : ∃ a, x = .ok a ∧ Q a := by
  cases x with
  | error e => exact h.elim
  | ok a => exact ⟨a, rfl, h⟩

/-- Why a computation stops, if it does. -/
def stopOf : Except ε σ → Option ε
  | .ok _ => none
  | .error e => some e

theorem eq_of_stopOf {e : ε} (h : stopOf x = some e) : x = .error e := by
  cases x with
  | error e' =>
    cases h
    rfl
  | ok a => cases h

theorem Post.of_error (h : Post x Q E) {e : ε} (hx : x = .error e) : E e := by
  subst hx; exact h

end Post

/-! ## Runs -/

section Reach

variable (step : σ → α → Except ε σ) (init : σ → Prop) (ok : σ → α → Prop)

/-- The states reached from `init` by steps that `ok` allows. -/
inductive Reach : σ → Prop
  | init {s : σ} : init s → Reach s
  | step {s s' : σ} (a : α) : Reach s → ok s a → step s a = .ok s' → Reach s'

/-- The run along a list of actions. -/
def run : σ → List α → Except ε σ
  | s, [] => .ok s
  | s, a :: as => step s a >>= fun s' => run s' as

/-- The run along `as` does not stop and ends in a state that passes the test `p`. -/
def runsTo (s : σ) (as : List α) (p : σ → Bool) : Bool :=
  match run step s as with
  | .ok s' => p s'
  | .error _ => false

/-- The run along `as`, if no step of it stops or is forbidden. -/
def runIf [∀ s a, Decidable (ok s a)] : σ → List α → Option σ
  | s, [] => some s
  | s, a :: as =>
    if ok s a then
      match step s a with
      | .ok s' => runIf s' as
      | .error _ => none
    else none

end Reach

variable {step : σ → α → Except ε σ} {init : σ → Prop} {ok ok' : σ → α → Prop}

/-- **The invariant rule**: what holds initially and is kept by every allowed step holds in
every reachable state. -/
theorem Reach.invariant {I : σ → Prop} (h0 : ∀ s, init s → I s)
    (hs : ∀ s a s', I s → ok s a → step s a = .ok s' → I s') {s : σ}
    (h : Reach step init ok s) : I s := by
  induction h with
  | init hi => exact h0 _ hi
  | step a _ ha he ih => exact hs _ a _ ih ha he

theorem Reach.mono (hok : ∀ s a, ok s a → ok' s a) {s : σ} (h : Reach step init ok s) :
    Reach step init ok' s := by
  induction h with
  | init hi => exact .init hi
  | step a _ ha he ih => exact .step a ih (hok _ _ ha) he

theorem run_singleton (s : σ) (a : α) : run step s [a] = step s a := by
  rw [run]
  cases step s a <;> rfl

/-- A run without restrictions ends in a reachable state. -/
theorem reach_of_run (hok : ∀ s a, ok s a) {as : List α} {s s' : σ} (h : Reach step init ok s)
    (hr : run step s as = .ok s') : Reach step init ok s' := by
  induction as generalizing s with
  | nil =>
    cases hr
    exact h
  | cons a as ih =>
    cases hs : step s a with
    | error e =>
      rw [run, hs] at hr
      cases hr
    | ok s₁ =>
      rw [run, hs] at hr
      exact ih (.step a h (hok _ _) hs) hr

theorem reach_of_runIf [∀ s a, Decidable (ok s a)] {as : List α} {s s' : σ}
    (h : Reach step init ok s) (hr : runIf step ok s as = some s') : Reach step init ok s' := by
  induction as generalizing s with
  | nil =>
    cases hr
    exact h
  | cons a as ih =>
    rw [runIf] at hr
    split at hr
    · rename_i ha
      cases hs : step s a with
      | error e =>
        rw [hs] at hr
        cases hr
      | ok s₁ =>
        rw [hs] at hr
        exact ih (.step a h ha hs) hr
    · cases hr

theorem exists_of_runIf (step : σ → α → Except ε σ) (ok : σ → α → Prop)
    [∀ s a, Decidable (ok s a)] (s : σ) (as : List α) (p : σ → Bool)
    (h : (runIf step ok s as).any p = true) : ∃ s', runIf step ok s as = some s' ∧ p s' = true := by
  cases hr : runIf step ok s as with
  | none =>
    rw [hr] at h
    cases h
  | some s' =>
    rw [hr] at h
    exact ⟨s', rfl, h⟩

theorem exists_of_runsTo (step : σ → α → Except ε σ) (s : σ) (as : List α) (p : σ → Bool)
    (h : runsTo step s as p = true) :
    ∃ s', run step s as = .ok s' ∧ p s' = true := by
  unfold runsTo at h
  split at h
  · rename_i s' hs
    exact ⟨s', hs, h⟩
  · cases h

/-! ## Agreement up to a map -/

/-- Two computations agree up to `g` if their first parts do up to `f` and what follows keeps the
agreement. -/
theorem bind_eq_map {σ' β β' : Type u} {f : σ → σ'} {g : β → β'} {x : Except ε σ}
    {y : Except ε σ'} {k : σ → Except ε β} {k' : σ' → Except ε β'} (hy : y = x.map f)
    (h : ∀ a, k' (f a) = (k a).map g) : (y >>= k') = (x >>= k).map g := by
  rw [hy]
  cases x with
  | error e => rfl
  | ok a => exact h a

/-- If every step agrees with its counterpart up to `f`, where an invariant holds, so does every
run. -/
theorem run_eq_map {σ' : Type u} {step' : σ' → α → Except ε σ'} {I : σ → Prop} {f : σ → σ'}
    (hI : ∀ s a s', I s → step s a = .ok s' → I s')
    (hf : ∀ s a, I s → step' (f s) a = (step s a).map f) {s : σ} (hs : I s) (as : List α) :
    run step' (f s) as = (run step s as).map f := by
  induction as generalizing s with
  | nil => rfl
  | cons a as ih =>
    rw [run, run, hf s a hs]
    cases hstep : step s a with
    | error e => rfl
    | ok s' => exact ih (hI s a s' hs hstep)

/-! ## Progress -/

/-- From the state, steps that `ok` allows can lead to a state with `P`. -/
inductive CanReach (step : σ → α → Except ε σ) (ok : σ → α → Prop) (P : σ → Prop) : σ → Prop
  | here {s : σ} : P s → CanReach step ok P s
  | step {s s' : σ} (a : α) : ok s a → step s a = .ok s' → CanReach step ok P s' →
      CanReach step ok P s

variable {P Q I : σ → Prop} {s : σ}

theorem CanReach.one {s' : σ} (a : α) (ha : ok s a) (hs : step s a = .ok s') (hP : P s') :
    CanReach step ok P s := .step a ha hs (.here hP)

theorem CanReach.trans (h : CanReach step ok P s) (hPQ : ∀ s', P s' → CanReach step ok Q s') :
    CanReach step ok Q s := by
  induction h with
  | here hP => exact hPQ _ hP
  | step a ha hs _ ih => exact .step a ha hs ih

theorem CanReach.mono {ok' : σ → α → Prop} (h : CanReach step ok P s) (hok : ∀ s a, ok s a → ok' s a)
    (hPQ : ∀ s', P s' → Q s') : CanReach step ok' Q s := by
  induction h with
  | here hP => exact .here (hPQ _ hP)
  | step a ha hs _ ih => exact .step a (hok _ _ ha) hs ih

/-- What the steps keep holds on the way. -/
theorem CanReach.keep (h : CanReach step ok P s) (hI : I s)
    (hstep : ∀ s a s', I s → ok s a → step s a = .ok s' → I s') :
    CanReach step ok (fun s' => I s' ∧ P s') s := by
  induction h with
  | here hP => exact .here ⟨hI, hP⟩
  | step a ha hs _ ih => exact .step a ha hs (ih (hstep _ a _ hI ha hs))

theorem CanReach.exists (h : CanReach step ok P s) : ∃ s', P s' := by
  induction h with
  | here hP => exact ⟨_, hP⟩
  | step _ _ _ _ ih => exact ih

/-- **The progress rule**: if some run lowers the rank whenever `P` does not hold yet, then `P`
can be reached. -/
theorem canReach_of_rank (rank : σ → ℕ)
    (h : ∀ s, I s → P s ∨ CanReach step ok (fun s' => I s' ∧ rank s' < rank s) s) (hI : I s) :
    CanReach step ok P s := by
  have hind : ∀ n s, rank s < n → I s → CanReach step ok P s := by
    intro n
    induction n with
    | zero => exact fun s hn => absurd hn (Nat.not_lt_zero _)
    | succ n ih =>
      intro s hn hI
      rcases h s hI with hP | hlower
      · exact .here hP
      · exact hlower.trans fun s' hs' => ih s' (by omega) hs'.1
  exact hind _ s (Nat.lt_succ_self _) hI

end Foundations
