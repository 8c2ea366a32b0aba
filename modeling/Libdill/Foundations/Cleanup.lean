import Libdill.Foundations.Call

/-!
# Calls that clean up

A call that has got hold of something and then fails lets go of it on its way out.

* `unwind c x`: the call `x`, with the cleanup `c` where it fails.
* `Meets`: a postcondition for calls that return and a condition on the reasons for which they stop,
  with its rules `Meets.bind`, `Meets.unwind`, `Meets.ret`, `Meets.fail` and `Meets.mono`.
-/

namespace Foundations.Call

variable {τ ρ ε α β : Type}

/-- The call of `x`; when it fails, `c` is run and the call fails with the error of `x`. -/
def unwind (c : Call τ ρ ε Unit) (x : Call τ ρ ε α) : Call τ ρ ε α := fun s =>
  match x s with
  | .error r => .error r
  | .ok (.ok a, s) => .ok (.ok a, s)
  | .ok (.error e, s) =>
    match c s with
    | .error r => .error r
    | .ok (_, s) => .ok (.error e, s)

/-- If the call returns, the outcome and the state satisfy `Q`, and if it stops the reason satisfies
`E`. -/
def Meets (x : Call τ ρ ε α) (s : τ) (Q : Except ε α → τ → Prop) (E : ρ → Prop) : Prop :=
  match x s with
  | .error r => E r
  | .ok (o, s') => Q o s'

variable {x : Call τ ρ ε α} {f : α → Call τ ρ ε β} {c : Call τ ρ ε Unit} {s : τ} {a : α} {e : ε}
  {r : ρ} {Q Q' : Except ε α → τ → Prop} {R : Except ε β → τ → Prop} {E : ρ → Prop}

theorem Meets.of_ok {o : Except ε α} {s' : τ} (hr : x s = .ok (o, s')) (h : Q o s') :
    Meets x s Q E := by
  unfold Meets
  rw [hr]
  exact h

theorem Meets.of_error (hr : x s = .error r) (h : E r) : Meets x s Q E := by
  unfold Meets
  rw [hr]
  exact h

theorem Meets.returns (h : Meets x s Q E) {o : Except ε α} {s' : τ} (hr : x s = .ok (o, s')) :
    Q o s' := by
  unfold Meets at h
  rw [hr] at h
  exact h

theorem Meets.stops (h : Meets x s Q E) (hr : x s = .error r) : E r := by
  unfold Meets at h
  rw [hr] at h
  exact h

theorem Meets.mono (h : Meets x s Q E) (hq : ∀ o s', Q o s' → Q' o s') : Meets x s Q' E := by
  cases hr : x s with
  | error r => exact .of_error hr (h.stops hr)
  | ok p => exact .of_ok hr (hq p.1 p.2 (h.returns hr))

theorem Meets.ret (h : Q (.ok a) s) : Meets (pure a : Call τ ρ ε α) s Q E := .of_ok rfl h

theorem Meets.fail (h : Q (.error e) s) : Meets (Call.fail e : Call τ ρ ε α) s Q E := .of_ok rfl h

/-- **Sequencing.** A failure of the first call is one of the whole. -/
theorem Meets.bind (hx : Meets x s Q E) (he : ∀ e s', Q (.error e) s' → R (.error e) s')
    (hf : ∀ a s', Q (.ok a) s' → Meets (f a) s' R E) : Meets (x >>= f) s R E := by
  cases hr : x s with
  | error r => exact .of_error (bind_stop hr) (hx.stops hr)
  | ok p =>
    obtain ⟨o, s'⟩ := p
    have hq := hx.returns hr
    cases o with
    | error e => exact .of_ok (bind_fail hr) (he e s' hq)
    | ok a =>
      have hrest := hf a s' hq
      unfold Meets at hrest ⊢
      rw [bind_ret hr]
      exact hrest

/-- **Cleaning up.** The cleanup starts where the call has failed; its own result is dropped. -/
theorem Meets.unwind (hx : Meets x s Q E) (ha : ∀ a s', Q (.ok a) s' → Q' (.ok a) s')
    (hc : ∀ e s', Q (.error e) s' → Meets c s' (fun _ s'' => Q' (.error e) s'') E) :
    Meets (Call.unwind c x) s Q' E := by
  cases hr : x s with
  | error r => exact .of_error (by rw [Call.unwind, hr]) (hx.stops hr)
  | ok p =>
    obtain ⟨o, s'⟩ := p
    have hq := hx.returns hr
    cases o with
    | ok a => exact .of_ok (by rw [Call.unwind, hr]) (ha a s' hq)
    | error e =>
      have hclean := hc e s' hq
      cases hr' : c s' with
      | error r => exact .of_error (by rw [Call.unwind, hr]; simp only [hr']) (hclean.stops hr')
      | ok p => exact .of_ok (by rw [Call.unwind, hr]; simp only [hr']) (hclean.returns hr')

end Foundations.Call
