import Mathlib.Logic.Basic

/-!
# Calls

A call of a function that works on a state returns a value or fails with an error, and in both
cases it leaves a new state; or it does not return at all, for a reason `ρ`.

* `bind_ret`, `bind_fail`, `bind_stop`: running a call step by step; `ret_of_bind` goes back.
* `bind_assoc`, `bind_congr`: calls in sequence.
* `Ends`: a postcondition over values and errors, with its rules `Ends.bind`, `Ends.ret`,
  `Ends.mono`.
* `Follows`: a call does what another one does in a larger state, as long as it does not give up;
  with its rule `Follows.bind`.
-/

namespace Foundations

/-- A function on a state `τ` that returns an `α`, fails with an `ε` or stops for a reason `ρ`. -/
def Call (τ ρ ε α : Type) : Type := τ → Except ρ (Except ε α × τ)

variable {τ ρ ε α β : Type}

namespace Call

/-- The call of `x` and then, if it returns a value, that of `f`. -/
def andThen (x : Call τ ρ ε α) (f : α → Call τ ρ ε β) : Call τ ρ ε β := fun s =>
  match x s with
  | .error r => .error r
  | .ok (.error e, s) => .ok (.error e, s)
  | .ok (.ok a, s) => f a s

instance : Monad (Call τ ρ ε) where
  pure a := fun s => .ok (.ok a, s)
  bind := andThen

/-- The call fails. -/
def fail (e : ε) : Call τ ρ ε α := fun s => .ok (.error e, s)

/-- The call does not return. -/
def stop (r : ρ) : Call τ ρ ε α := fun _ => .error r

/-- The call fails unless `c`. -/
def require (c : Bool) (e : ε) : Call τ ρ ε Unit := fun s =>
  if c then .ok (.ok (), s) else .ok (.error e, s)

/-- A part of the state. -/
def look (f : τ → α) : Call τ ρ ε α := fun s => .ok (.ok (f s), s)

/-- A change of the state. -/
def change (f : τ → τ) : Call τ ρ ε Unit := fun s => .ok (.ok (), f s)

/-! ## Running a call -/

variable {x : Call τ ρ ε α} {f : α → Call τ ρ ε β} {s s' : τ} {a : α} {e : ε} {r : ρ}

theorem bind_ret (h : x s = .ok (.ok a, s')) : (x >>= f) s = f a s' := by
  change andThen x f s = _
  rw [andThen, h]

theorem ret_bind : ((pure a : Call τ ρ ε α) >>= f) = f a := by
  funext s
  rfl

theorem bind_fail (h : x s = .ok (.error e, s')) : (x >>= f) s = .ok (.error e, s') := by
  change andThen x f s = _
  rw [andThen, h]

theorem bind_stop (h : x s = .error r) : (x >>= f) s = .error r := by
  change andThen x f s = _
  rw [andThen, h]

@[simp] theorem pure_run : (pure a : Call τ ρ ε α) s = .ok (.ok a, s) := rfl

@[simp] theorem fail_run : (fail e : Call τ ρ ε α) s = .ok (.error e, s) := rfl

@[simp] theorem stop_run : (stop r : Call τ ρ ε α) s = .error r := rfl

theorem require_true : (require true e : Call τ ρ ε Unit) s = .ok (.ok (), s) := rfl

theorem require_false : (require false e : Call τ ρ ε Unit) s = .ok (.error e, s) := rfl

theorem require_ok {c : Bool} (h : (require c e : Call τ ρ ε Unit) s = .ok (.ok (), s')) :
    c = true ∧ s' = s := by
  cases c with
  | true =>
    cases h
    exact ⟨rfl, rfl⟩
  | false => cases h

theorem require_error {c : Bool} {e' : ε}
    (h : (require c e : Call τ ρ ε Unit) s = .ok (.error e', s')) : c = false ∧ e' = e ∧ s' = s := by
  cases c with
  | true => cases h
  | false =>
    cases h
    exact ⟨rfl, rfl, rfl⟩

theorem look_bind {g : τ → α} : (look g >>= f) s = f (g s) s := rfl

theorem change_bind {g : τ → τ} {y : Unit → Call τ ρ ε β} : (change g >>= y) s = y () (g s) := rfl

/-- A call that has returned a value went through its parts. -/
theorem ret_of_bind {b : β} (h : (x >>= f) s = .ok (.ok b, s')) :
    ∃ a s₁, x s = .ok (.ok a, s₁) ∧ f a s₁ = .ok (.ok b, s') := by
  cases hx : x s with
  | error r =>
    rw [bind_stop hx] at h
    cases h
  | ok p =>
    obtain ⟨o, s₁⟩ := p
    cases o with
    | error e =>
      rw [bind_fail hx] at h
      cases h
    | ok a =>
      rw [bind_ret hx] at h
      exact ⟨a, s₁, rfl, h⟩

/-- A call that has failed did so in one of its parts. -/
theorem error_of_bind (h : (x >>= f) s = .ok (.error e, s')) :
    x s = .ok (.error e, s') ∨ ∃ a s₁, x s = .ok (.ok a, s₁) ∧ f a s₁ = .ok (.error e, s') := by
  cases hx : x s with
  | error r =>
    rw [bind_stop hx] at h
    cases h
  | ok p =>
    obtain ⟨o, s₁⟩ := p
    cases o with
    | error e' =>
      rw [bind_fail hx] at h
      cases h
      exact .inl rfl
    | ok a =>
      rw [bind_ret hx] at h
      exact .inr ⟨a, s₁, rfl, h⟩

theorem bind_assoc {γ : Type} {g : β → Call τ ρ ε γ} :
    ((x >>= f) >>= g) s = (x >>= fun a => f a >>= g) s := by
  cases h : x s with
  | error r => rw [bind_stop (bind_stop h), bind_stop h]
  | ok p =>
    obtain ⟨o, s'⟩ := p
    cases o with
    | error e => rw [bind_fail (bind_fail h), bind_fail h]
    | ok a =>
      rw [bind_ret h]
      change andThen (andThen x f) g s = andThen (f a) g s'
      unfold andThen
      rw [h]

theorem bind_bind {γ : Type} {g : β → Call τ ρ ε γ} :
    ((x >>= f) >>= g) = (x >>= fun a => f a >>= g) := by
  funext s
  exact bind_assoc

theorem bind_unit {x : Call τ ρ ε Unit} : (x >>= fun _ => pure ()) = x := by
  funext s
  cases h : x s with
  | error r => rw [bind_stop h]
  | ok p =>
    obtain ⟨o, s'⟩ := p
    cases o with
    | error e => rw [bind_fail h]
    | ok a => rw [bind_ret h, pure_run]

theorem bind_congr {f' : α → Call τ ρ ε β} (hf : ∀ a s', f a s' = f' a s') :
    (x >>= f) s = (x >>= f') s := by
  cases h : x s with
  | error r => rw [bind_stop h, bind_stop h]
  | ok p =>
    obtain ⟨o, s'⟩ := p
    cases o with
    | error e => rw [bind_fail h, bind_fail h]
    | ok a => rw [bind_ret h, bind_ret h, hf]

theorem bind_ext {f' : α → Call τ ρ ε β} (hf : ∀ a, f a = f' a) : (x >>= f) = (x >>= f') := by
  rw [funext hf]

/-- Behind a check. -/
theorem require_ext {c : Bool} {y y' : Unit → Call τ ρ ε β} (h : c = true → y () = y' ()) :
    (require c e >>= y) = (require c e >>= y') := by
  funext s
  cases c with
  | true => rw [bind_ret require_true, bind_ret require_true, h rfl]
  | false => rw [bind_fail require_false, bind_fail require_false]

/-! ## Postconditions -/

/-- However the call ends when it returns, the outcome and the state satisfy `Q`. -/
def Ends (x : Call τ ρ ε α) (s : τ) (Q : Except ε α → τ → Prop) : Prop :=
  ∀ o s', x s = .ok (o, s') → Q o s'

variable {Q Q' : Except ε α → τ → Prop} {R : Except ε β → τ → Prop}

theorem Ends.mono (h : Ends x s Q) (hq : ∀ o s', Q o s' → Q' o s') : Ends x s Q' :=
  fun o s' hr => hq o s' (h o s' hr)

theorem Ends.ret (h : Q (.ok a) s) : Ends (pure a : Call τ ρ ε α) s Q := by
  intro o s' hr
  cases hr
  exact h

theorem Ends.fail (h : Q (.error e) s) : Ends (Call.fail e : Call τ ρ ε α) s Q := by
  intro o s' hr
  cases hr
  exact h

theorem Ends.stop : Ends (Call.stop r : Call τ ρ ε α) s Q := by
  intro o s' hr
  cases hr

theorem Ends.change_bind {g : τ → τ} {y : Unit → Call τ ρ ε β} (h : Ends (y ()) (g s) R) :
    Ends (change g >>= y) s R := h

/-- **Sequencing.** A failure of the first call is one of the whole. -/
theorem Ends.bind (hx : Ends x s Q) (he : ∀ e s', Q (.error e) s' → R (.error e) s')
    (hf : ∀ a s', Q (.ok a) s' → Ends (f a) s' R) : Ends (x >>= f) s R := by
  intro o s' hr
  cases h : x s with
  | error r =>
    rw [bind_stop h] at hr
    cases hr
  | ok p =>
    obtain ⟨o', s₁⟩ := p
    have hq := hx o' s₁ h
    cases o' with
    | error e =>
      rw [bind_fail h] at hr
      cases hr
      exact he e _ hq
    | ok a =>
      rw [bind_ret h] at hr
      exact hf a _ hq o s' hr

/-- **A relation that calls keep.** It holds over the whole call if it is transitive and holds over
the parts. -/
theorem Ends.bind_of_trans {T : τ → τ → Prop} (ht : ∀ s₁ s₂ s₃, T s₁ s₂ → T s₂ s₃ → T s₁ s₃)
    (hx : Ends x s fun _ s' => T s s')
    (hf : ∀ a s', x s = .ok (.ok a, s') → T s s' → Ends (f a) s' fun _ s'' => T s' s'') :
    Ends (x >>= f) s fun _ s'' => T s s'' := by
  have hval : Ends x s fun o s' => T s s' ∧ x s = .ok (o, s') :=
    fun o s' hr => ⟨hx o s' hr, hr⟩
  refine hval.bind ?_ ?_
  · intro e s' h
    exact h.1
  · intro a s' h
    refine (hf a s' h.2 h.1).mono ?_
    intro o s'' h'
    exact ht s s' s'' h.1 h'

/-- **What holds when a call succeeds.** Then its parts have succeeded. -/
theorem Ends.bind_ok {Q : β → τ → Prop}
    (hf : ∀ a s', x s = .ok (.ok a, s') →
      Ends (f a) s' fun o s'' => ∀ b, o = .ok b → Q b s'') :
    Ends (x >>= f) s fun o s'' => ∀ b, o = .ok b → Q b s'' := by
  have hval : Ends x s fun o s' => x s = .ok (o, s') := fun o s' hr => hr
  refine hval.bind ?_ ?_
  · intro e s' _ b hb
    cases hb
  · exact hf

theorem Ends.require {c : Bool} {Q : Except ε Unit → τ → Prop} (ht : c = true → Q (.ok ()) s)
    (hf : c = false → Q (.error e) s) : Ends (Call.require c e : Call τ ρ ε Unit) s Q := by
  intro o s' hr
  cases c with
  | true =>
    cases hr
    exact ht rfl
  | false =>
    cases hr
    exact hf rfl

/-! ## Calls that follow another one -/

section Follows

variable {τ' : Type} {ext : τ → τ'} {D : τ → Prop} {w : ρ} {y : Call τ' ρ ε α}
  {g : α → Call τ' ρ ε β}

/-- Called in `s`, `x` does what `y` does in `ext s`, unless it fails in a state in `D` or stops for
the reason `w`. -/
def Follows (ext : τ → τ') (D : τ → Prop) (w : ρ) (x : Call τ ρ ε α) (y : Call τ' ρ ε α) (s : τ) :
    Prop :=
  (∀ o s', x s = .ok (o, s') → y (ext s) = .ok (o, ext s') ∨ ((∃ e, o = .error e) ∧ D s')) ∧
    ∀ r, x s = .error r → y (ext s) = .error r ∨ r = w

theorem Follows.ret (a : α) :
    Follows ext D w (pure a : Call τ ρ ε α) (pure a : Call τ' ρ ε α) s := by
  constructor
  · intro o s' h
    cases h
    exact .inl rfl
  · intro r h
    cases h

theorem Follows.fail (e : ε) :
    Follows ext D w (Call.fail e : Call τ ρ ε α) (Call.fail e) s := by
  constructor
  · intro o s' h
    cases h
    exact .inl rfl
  · intro r h
    cases h

theorem Follows.stop (r : ρ) :
    Follows ext D w (Call.stop r : Call τ ρ ε α) (Call.stop r) s := by
  constructor
  · intro o s' h
    cases h
  · intro r' h
    cases h
    exact .inl rfl

theorem Follows.require (c : Bool) (e : ε) :
    Follows ext D w (Call.require c e) (Call.require c e) s := by
  cases c with
  | true => exact Follows.ret ()
  | false => exact Follows.fail e

theorem Follows.change {f : τ → τ} {f' : τ' → τ'} (h : ext (f s) = f' (ext s)) :
    Follows ext D w (Call.change f : Call τ ρ ε Unit) (Call.change f') s := by
  constructor
  · intro o s' hr
    cases hr
    left
    rw [h]
    rfl
  · intro r hr
    cases hr

theorem Follows.look {f : τ → α} {f' : τ' → α} (h : f s = f' (ext s)) :
    Follows ext D w (Call.look f : Call τ ρ ε α) (Call.look f') s := by
  constructor
  · intro o s' hr
    cases hr
    left
    rw [h]
    rfl
  · intro r hr
    cases hr

/-- **Sequencing.** What gives up in the first call gives up in the whole. -/
theorem Follows.bind (hx : Follows ext D w x y s)
    (hf : ∀ a s', x s = .ok (.ok a, s') → Follows ext D w (f a) (g a) s') :
    Follows ext D w (x >>= f) (y >>= g) s := by
  cases h : x s with
  | error r =>
    have hy := hx.2 r h
    constructor
    · intro o s' hr
      rw [bind_stop h] at hr
      cases hr
    · intro r' hr
      rw [bind_stop h] at hr
      cases hr
      rcases hy with hy | hy
      · exact .inl (bind_stop hy)
      · exact .inr hy
  | ok p =>
    obtain ⟨o, s₁⟩ := p
    have hy := hx.1 o s₁ h
    cases o with
    | error e =>
      constructor
      · intro o' s' hr
        rw [bind_fail h] at hr
        cases hr
        rcases hy with hy | hy
        · exact .inl (bind_fail hy)
        · exact .inr ⟨⟨e, rfl⟩, hy.2⟩
      · intro r hr
        rw [bind_fail h] at hr
        cases hr
    | ok a =>
      have hy' : y (ext s) = .ok (.ok a, ext s₁) := by
        rcases hy with hy | ⟨⟨e, he⟩, -⟩
        · exact hy
        · cases he
      have hrest := hf a s₁ h
      unfold Follows
      rw [bind_ret h, bind_ret hy']
      exact hrest

end Follows

end Call

end Foundations
