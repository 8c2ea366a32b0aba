import Libdill.Foundations.Run
import Libdill.Pollset.Clauses

/-!
# Waiting

The loop of `dill_wait` in `cr.c` over the poll function of a pollset, up to the resumption of the
next coroutine. The expired timers of each turn come from outside.

* `dillWait_spec`: with a poll function that returns a positive number only when it has made a
  coroutine ready, `dill_wait` never pops from an empty ready queue.
-/

namespace Libdill.Pollset

open Foundations

/-- The functions of a pollset with the state `σ`: the cancel callbacks and `dill_pollset_poll`,
whose answers from the kernel are of the type `A`. -/
structure Backend (σ A : Type) where
  cancel : Dir → ℕ → σ → Except Stop σ
  poll : A → σ × Crs → Except Stop (ℤ × (σ × Crs))

/-- `ETIMEDOUT`. -/
def ETIMEDOUT : ℤ := 110

/-- A turn of the loop of `dill_wait`: what the kernel answers and the timers that are expired
then, with the coroutines and the ids of their clauses. -/
structure Round (A : Type) where
  answer : A
  timers : List (ℕ × ℤ)

section Loop

variable {σ A : Type} (b : Backend σ A)

/-- The expired timers are fired. A timer of a coroutine that is ready has been cancelled. The flag
says whether any was left. -/
def fireTimers : List (ℕ × ℤ) → σ × Crs → Except Stop (Bool × (σ × Crs))
  | [], w => .ok (false, w)
  | (cr, id) :: l, w =>
    if w.2.isReady cr then fireTimers l w
    else do
      let w ← docancel b.cancel cr id ETIMEDOUT w
      let p ← fireTimers l w
      return (true, p.2)

/-- A turn of the loop, and whether it is the last one. -/
def waitTurn (block : Bool) (r : Round A) (w : σ × Crs) : Except Stop (Bool × (σ × Crs)) := do
  let p ← b.poll r.answer w
  if p.1 < 0 then return (false, p.2)
  else
    let q ← fireTimers b r.timers p.2
    return (!block || decide (p.1 > 0) || q.1, q.2)

def waitLoop (block : Bool) : List (Round A) → σ × Crs → Except Stop (σ × Crs)
  | [], _ => .error .blocked
  | r :: rounds, w => do
    let p ← waitTurn b block r w
    if p.1 then return p.2 else waitLoop block rounds p.2

/-- `dill_wait` from the call to the resumption of the next coroutine; `due` says that the last poll
is more than a second ago. -/
def dillWait (due : Bool) (rounds : List (Round A)) (w : σ × Crs) : Except Stop (σ × Crs) := do
  let block := w.2.ready.isEmpty
  let w ← if block || due then waitLoop b block rounds w else pure w
  let c ← w.2.pop
  return (w.1, c)

/-- What holds of the answers that the loop gets, in the states in which it gets them. -/
def Along (P : σ → A → Prop) (block : Bool) : List (Round A) → σ × Crs → Prop
  | [], _ => True
  | r :: rounds, w =>
    P w.1 r.answer ∧ ∀ w', waitTurn b block r w = .ok (false, w') → Along P block rounds w'

end Loop

variable {σ A : Type} {b : Backend σ A} {Good : σ × Crs → Prop} {Kernel Heard : σ → A → Prop}

/-- What the functions of a pollset keep: with answers from the kernel that satisfy `Kernel` they
have results, and poll returns a positive number only when it has made a coroutine ready, provided
that the answer satisfies `Heard`. -/
structure Sound (b : Backend σ A) (Good : σ × Crs → Prop) (Kernel Heard : σ → A → Prop) : Prop where
  docancel : ∀ {w cr} (id err), Good w → w.2.isReady cr = false →
    ∃ w', docancel b.cancel cr id err w = .ok w' ∧ Good w' ∧
      w'.2.ready = w.2.ready ++ [⟨cr, id, err⟩]
  poll : ∀ {w answer}, Good w → Kernel w.1 answer →
    ∃ r w', b.poll answer w = .ok (r, w') ∧ Good w' ∧ w.2.ready.length ≤ w'.2.ready.length ∧
      (Heard w.1 answer → 0 < r → w.2.ready.length < w'.2.ready.length)
  pop : ∀ {w c}, Good w → w.2.pop = .ok c → Good (w.1, c)

variable {w : σ × Crs}

theorem fireTimers_spec (hb : Sound b Good Kernel Heard) {l : List (ℕ × ℤ)} (hg : Good w) :
    ∃ fired w', fireTimers b l w = .ok (fired, w') ∧ Good w' ∧
      w.2.ready.length ≤ w'.2.ready.length ∧
      (fired = true → w.2.ready.length < w'.2.ready.length) := by
  induction l generalizing w with
  | nil => exact ⟨false, w, rfl, hg, Nat.le_refl _, nofun⟩
  | cons t l ih =>
    obtain ⟨cr, id⟩ := t
    cases hr : w.2.isReady cr with
    | true =>
      obtain ⟨fired, w', hw', hspec⟩ := ih hg
      refine ⟨fired, w', ?_, hspec⟩
      unfold fireTimers
      rw [hr, if_pos rfl]
      exact hw'
    | false =>
      obtain ⟨w₁, hw₁, hg₁, hready⟩ := hb.docancel id ETIMEDOUT hg hr
      obtain ⟨fired, w', hw', hg', hle, -⟩ := ih hg₁
      have hlt : w.2.ready.length < w'.2.ready.length := by
        rw [hready, List.length_append] at hle
        exact hle
      refine ⟨true, w', ?_, hg', Nat.le_of_lt hlt, fun _ => hlt⟩
      unfold fireTimers
      rw [hr, if_neg (by decide), hw₁]
      simp only [bind, Except.bind, hw']
      rfl

/-- A turn of the loop is the last one only if a coroutine is ready. -/
theorem waitTurn_spec (hb : Sound b Good Kernel Heard) {block : Bool} {r : Round A} (hg : Good w)
    (hk : Kernel w.1 r.answer) (hh : Heard w.1 r.answer)
    (hblock : block = false → 0 < w.2.ready.length) :
    ∃ last w', waitTurn b block r w = .ok (last, w') ∧ Good w' ∧
      w.2.ready.length ≤ w'.2.ready.length ∧ (last = true → 0 < w'.2.ready.length) := by
  obtain ⟨fired, w₁, hpoll, hg₁, hle₁, hfired⟩ := hb.poll hg hk
  by_cases hneg : fired < 0
  · refine ⟨false, w₁, ?_, hg₁, hle₁, nofun⟩
    unfold waitTurn
    rw [hpoll]
    simp only [bind, Except.bind, if_pos hneg]
    rfl
  · obtain ⟨expired, w₂, hfire, hg₂, hle₂, hexp⟩ := fireTimers_spec hb (l := r.timers) hg₁
    refine ⟨!block || decide (fired > 0) || expired, w₂, ?_, hg₂, Nat.le_trans hle₁ hle₂,
      fun hlast => ?_⟩
    · unfold waitTurn
      rw [hpoll]
      simp only [bind, Except.bind, if_neg hneg, hfire]
      rfl
    · rw [Bool.or_eq_true, Bool.or_eq_true, Bool.not_eq_true', decide_eq_true_eq] at hlast
      rcases hlast with (hb' | hpos) | hb'
      · have hready := hblock hb'
        omega
      · have hlt := hfired hh hpos
        omega
      · have hlt := hexp hb'
        omega

theorem waitLoop_spec (hb : Sound b Good Kernel Heard) {block : Bool} {rounds : List (Round A)}
    (hg : Good w) (hk : Along b Kernel block rounds w) (hh : Along b Heard block rounds w)
    (hblock : block = false → 0 < w.2.ready.length) :
    Post (waitLoop b block rounds w) (fun w' => Good w' ∧ 0 < w'.2.ready.length)
      fun e => e = .blocked := by
  induction rounds generalizing w with
  | nil => exact rfl
  | cons r rounds ih =>
    obtain ⟨hk, hks⟩ := hk
    obtain ⟨hh, hhs⟩ := hh
    obtain ⟨last, w₁, hturn, hg₁, hle, hlast⟩ := waitTurn_spec hb hg hk hh hblock
    unfold waitLoop
    rw [hturn]
    cases last with
    | true => exact ⟨hg₁, hlast rfl⟩
    | false =>
      exact ih hg₁ (hks w₁ hturn) (hhs w₁ hturn) fun hf => Nat.lt_of_lt_of_le (hblock hf) hle

theorem pop_spec (hb : Sound b Good Kernel Heard) (hg : Good w) (hr : 0 < w.2.ready.length) :
    Post (w.2.pop >>= fun c => (.ok (w.1, c) : Except Stop (σ × Crs))) Good
      fun e => e = .blocked := by
  cases hp : w.2.pop with
  | ok c => exact hb.pop hg hp
  | error e =>
    unfold Crs.pop at hp
    split at hp
    · rename_i hnil
      rw [hnil] at hr
      cases hr
    · cases hp

/-- **`dill_wait` does not pop from an empty ready queue.** -/
theorem dillWait_spec (hb : Sound b Good Kernel Heard) {due : Bool} {rounds : List (Round A)}
    (hg : Good w) (hk : Along b Kernel w.2.ready.isEmpty rounds w)
    (hh : Along b Heard w.2.ready.isEmpty rounds w) :
    Post (dillWait b due rounds w) Good fun e => e = .blocked := by
  have hblock : w.2.ready.isEmpty = false → 0 < w.2.ready.length := by
    intro hne
    exact List.length_pos_iff.mpr (List.isEmpty_eq_false_iff.mp hne)
  unfold dillWait
  dsimp only
  split
  · exact (waitLoop_spec hb hg hk hh hblock).bind fun w₁ hw₁ => pop_spec hb hw₁.1 hw₁.2
  · rename_i hno
    rw [Bool.or_eq_true, not_or, Bool.not_eq_true] at hno
    exact pop_spec hb hg (hblock hno.1)

end Libdill.Pollset
