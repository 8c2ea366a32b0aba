import Libdill.Foundations.Call
import Mathlib.Data.List.Basic
import Mathlib.Logic.Function.Basic

/-!
# Frames

A map that calls work on, and the keys that a call has for itself: what it must not have changed
when it is over is the map at all other keys.

* `Intact`: two maps are the same but for the keys `own`.
* `Spares`: a call leaves the map intact, however it ends; with its rules `Spares.bind`,
  `Spares.mono` and one for each call there is.
-/

namespace Foundations

variable {κ ν : Type}

/-- The maps differ at the keys `own` at most. -/
def Intact (own : List κ) (m m' : κ → ν) : Prop := ∀ k ∉ own, m' k = m k

variable {own own' : List κ} {m m' m'' : κ → ν}

theorem Intact.refl (own : List κ) (m : κ → ν) : Intact own m m := fun _ _ => rfl

theorem Intact.trans (h : Intact own m m') (h' : Intact own m' m'') : Intact own m m'' :=
  fun k hk => (h' k hk).trans (h k hk)

theorem Intact.mono (h : Intact own m m') (hsub : own ⊆ own') : Intact own' m m' :=
  fun k hk => h k fun hk' => hk (hsub hk')

theorem intact_nil : Intact [] m m' ↔ m' = m :=
  ⟨fun h => funext fun k => h k List.not_mem_nil, fun h k _ => congrFun h k⟩

theorem intact_update [DecidableEq κ] {k : κ} (hk : k ∈ own) (m : κ → ν) (v : ν) :
    Intact own m (Function.update m k v) := by
  intro k' hk'
  have hne : k' ≠ k := fun h => hk' (h ▸ hk)
  exact Function.update_of_ne hne v m

/-- A key that was changed for a while has its old value again. -/
theorem Intact.restore [DecidableEq κ] {k : κ} {v : ν} (h : Intact own (Function.update m k v) m') :
    Intact own m (Function.update m' k (m k)) := by
  intro k' hk'
  by_cases hk : k' = k
  · rw [hk, Function.update_self]
  · have hsame := h k' hk'
    rw [Function.update_of_ne hk] at hsame ⊢
    exact hsame

namespace Call

variable {τ ρ ε α β : Type} {field : τ → κ → ν} {x : Call τ ρ ε α} {f : α → Call τ ρ ε β} {s : τ}

/-- However the call ends when it returns, the map is intact. -/
def Spares (field : τ → κ → ν) (own : List κ) (x : Call τ ρ ε α) (s : τ) : Prop :=
  Ends x s fun _ s' => Intact own (field s) (field s')

namespace Spares

theorem ret (a : α) : Spares field own (pure a : Call τ ρ ε α) s := Ends.ret (.refl own _)

theorem fail (e : ε) : Spares field own (Call.fail e : Call τ ρ ε α) s := Ends.fail (.refl own _)

theorem stop (r : ρ) : Spares field own (Call.stop r : Call τ ρ ε α) s := Ends.stop

theorem require (c : Bool) (e : ε) : Spares field own (Call.require c e : Call τ ρ ε Unit) s :=
  Ends.require (fun _ => .refl own _) fun _ => .refl own _

theorem look (g : τ → α) : Spares field own (Call.look g : Call τ ρ ε α) s := by
  intro o s' hr
  cases hr
  exact .refl own _

theorem change {g : τ → τ} (h : Intact own (field s) (field (g s))) :
    Spares field own (Call.change g : Call τ ρ ε Unit) s := by
  intro o s' hr
  cases hr
  exact h

/-- A change of other parts of the state. -/
theorem change_other {g : τ → τ} (h : field (g s) = field s) :
    Spares field own (Call.change g : Call τ ρ ε Unit) s :=
  change fun k _ => congrFun h k

theorem mono (h : Spares field own x s) (hsub : own ⊆ own') : Spares field own' x s :=
  Ends.mono h fun _ _ hi => hi.mono hsub

theorem congr {y : Call τ ρ ε α} (hxy : x s = y s) (h : Spares field own y s) :
    Spares field own x s := fun o s' hr => h o s' (hxy ▸ hr)

/-- **Sequencing.** What comes next finds the map intact. -/
theorem bind (hx : Spares field own x s)
    (hf : ∀ a s', x s = .ok (.ok a, s') → Intact own (field s) (field s') →
      Spares field own (f a) s') : Spares field own (x >>= f) s :=
  Ends.bind_of_trans (T := fun s s' => Intact own (field s) (field s'))
    (fun _ _ _ => Intact.trans) hx hf

/-- What comes next can use what the first call has ensured. -/
theorem bind_ends {Q : Except ε α → τ → Prop} (hx : Ends x s Q)
    (hi : ∀ o s', Q o s' → Intact own (field s) (field s'))
    (hf : ∀ a s', Q (.ok a) s' → Spares field own (f a) s') : Spares field own (x >>= f) s := by
  refine Ends.bind hx (fun e s' hq => hi _ _ hq) fun a s' hq => ?_
  exact Ends.mono (hf a s' hq) fun _ _ hi' => (hi _ _ hq).trans hi'

/-- What comes next leaves the map intact in any state. -/
theorem andThen (hx : Spares field own x s) (hf : ∀ a s', Spares field own (f a) s') :
    Spares field own (x >>= f) s :=
  hx.bind fun a s' _ _ => hf a s'

/-- A part of the state that is used by what comes next. -/
theorem look_bind {g : τ → α} (h : Spares field own (f (g s)) s) :
    Spares field own (Call.look g >>= f) s := h

/-- A change of other parts of the state, before what comes next. -/
theorem change_bind {g : τ → τ} {y : Unit → Call τ ρ ε β} (hg : field (g s) = field s)
    (h : Spares field own (y ()) (g s)) : Spares field own (Call.change g >>= y) s :=
  (change_other hg).bind fun _ _ hr _ => by
    cases hr
    exact h

/-- One of two calls. -/
theorem cond {c : Prop} [Decidable c] {y : Call τ ρ ε α} (ht : c → Spares field own x s)
    (hf : ¬c → Spares field own y s) : Spares field own (if c then x else y) s := by
  by_cases hc : c
  · rw [if_pos hc]
    exact ht hc
  · rw [if_neg hc]
    exact hf hc

/-- Behind a check. -/
theorem require_bind {c : Bool} {e : ε} {y : Unit → Call τ ρ ε β}
    (h : c = true → Spares field own (y ()) s) : Spares field own (Call.require c e >>= y) s := by
  cases c with
  | true => exact h rfl
  | false => exact Ends.fail (.refl own _)

end Spares

end Call

end Foundations
