import Libdill.Foundations.Call
import Mathlib.Data.Nat.Notation
import Mathlib.Data.List.Basic
import Mathlib.Data.List.GetD
import Mathlib.Logic.Function.Basic

/-!
# Output into a buffer

A function that writes a sequence of characters into a buffer, one after the other, and gives up when
the buffer is full. Its position counts modulo `N`.

* `Emits`: a call writes a sequence of characters and goes on as another one; with its rules
  `Emits.refl`, `Emits.store`, `Emits.look`, `Emits.then`, `Emits.bind`.
* `Emits.run`, `Emits.full`: what is in memory then, when there is room and when there is not.
-/

namespace Foundations

/-- The memory from the beginning of the buffer on, and the position of the next character. -/
structure Output (α : Type) where
  mem : ℕ → α
  pos : ℕ

/-- The memory with `xs` in it from `k` on. -/
def patch {α : Type} (mem : ℕ → α) (k : ℕ) (xs : List α) : ℕ → α := fun i =>
  if i < k then mem i else xs.getD (i - k) (mem i)

section Patch

variable {α : Type} {mem : ℕ → α} {k i : ℕ} {x : α} {xs ys : List α}

@[simp] theorem patch_nil : patch mem k [] = mem := by
  ext i
  simp [patch]

theorem patch_of_le (h : k + xs.length ≤ i) : patch mem k xs i = mem i := by
  unfold patch
  rw [if_neg (by omega), List.getD_eq_default _ _ (by omega)]

theorem patch_get (h : i < xs.length) : patch mem k xs (k + i) = xs[i] := by
  unfold patch
  rw [if_neg (by omega), Nat.add_sub_cancel_left, List.getD_eq_getElem _ _ h]

theorem patch_cons : patch (Function.update mem k x) (k + 1) xs = patch mem k (x :: xs) := by
  ext i
  unfold patch
  rcases Nat.lt_trichotomy i k with hi | rfl | hi
  · rw [if_pos (by omega), if_pos hi, Function.update_of_ne (by omega)]
  · rw [if_pos (by omega), if_neg (by omega), Function.update_self, Nat.sub_self]
    rfl
  · obtain ⟨j, rfl⟩ : ∃ j, i = k + 1 + j := ⟨i - (k + 1), by omega⟩
    rw [if_neg (by omega), if_neg (by omega), Function.update_of_ne (by omega),
      show k + 1 + j - k = j + 1 by omega, Nat.add_sub_cancel_left]
    rfl

end Patch

namespace Output

variable {α β γ ρ : Type} (N len : ℕ)

/-- A character is written, if there is room for it. -/
def store (x : α) : Call (Output α) ρ Unit Unit := do
  let pos ← Call.look Output.pos
  Call.require (decide (pos < len)) ()
  Call.change fun o => ⟨Function.update o.mem o.pos x, (o.pos + 1) % N⟩

/-- Several characters are written. -/
def stores : List α → Call (Output α) ρ Unit Unit
  | [] => pure ()
  | x :: xs => do
    store N len x
    stores xs

/-- From the position `p` on the call writes `xs` and then does what `y` does. -/
def Emits (p : ℕ) (x : Call (Output α) ρ Unit β) (xs : List α) (y : Call (Output α) ρ Unit β) :
    Prop :=
  ∀ o, o.pos = p → p < N → x o = (stores N len xs >>= fun _ => y) o

variable {N len} {o o' : Output α} {p : ℕ} {x y : Call (Output α) ρ Unit β}
  {f : β → Call (Output α) ρ Unit γ} {z : Call (Output α) ρ Unit γ} {xs ys : List α} {b : β}

theorem store_run (a : α) (h : o.pos < len) :
    (store N len a : Call (Output α) ρ Unit Unit) o
      = .ok (.ok (), ⟨Function.update o.mem o.pos a, (o.pos + 1) % N⟩) := by
  unfold store
  rw [Call.look_bind, decide_eq_true h, Call.bind_ret Call.require_true]
  rfl

theorem store_full (a : α) (h : len ≤ o.pos) :
    (store N len a : Call (Output α) ρ Unit Unit) o = .ok (.error (), o) := by
  unfold store
  rw [Call.look_bind, decide_eq_false (Nat.not_lt.mpr h), Call.bind_fail Call.require_false]

/-- There is room. -/
theorem stores_run (hlen : o.pos + xs.length ≤ len) (hN : o.pos + xs.length < N) :
    (stores N len xs : Call (Output α) ρ Unit Unit) o
      = .ok (.ok (), ⟨patch o.mem o.pos xs, o.pos + xs.length⟩) := by
  induction xs generalizing o with
  | nil =>
    rw [patch_nil]
    rfl
  | cons x xs ih =>
    rw [List.length_cons] at hlen hN
    have hnext : (o.pos + 1) % N = o.pos + 1 := Nat.mod_eq_of_lt (by omega)
    unfold stores
    rw [Call.bind_ret (store_run x (by omega)), hnext, ih (by simp only; omega) (by simp only; omega)]
    simp only [patch_cons, List.length_cons, Nat.add_assoc, Nat.add_comm 1]

/-- There is not. -/
theorem stores_full (hpos : o.pos ≤ len) (hlen : len < o.pos + xs.length) (hN : len < N) :
    (stores N len xs : Call (Output α) ρ Unit Unit) o
      = .ok (.error (), ⟨patch o.mem o.pos (xs.take (len - o.pos)), len⟩) := by
  induction xs generalizing o with
  | nil => simp at hlen; omega
  | cons x xs ih =>
    rw [List.length_cons] at hlen
    unfold stores
    by_cases hfull : len ≤ o.pos
    · obtain rfl : o.pos = len := by omega
      rw [Call.bind_fail (store_full x hfull), Nat.sub_self, List.take_zero, patch_nil]
    · have hnext : (o.pos + 1) % N = o.pos + 1 := Nat.mod_eq_of_lt (by omega)
      rw [Call.bind_ret (store_run x (by omega)), hnext,
        ih (by simp only; omega) (by simp only; omega)]
      simp only [patch_cons, ← List.take_succ_cons]
      rw [show len - (o.pos + 1) + 1 = len - o.pos by omega]

/-- The position behind the characters that have been written. -/
theorem pos_of_stores (hpos : o.pos < N)
    (h : (stores N len xs : Call (Output α) ρ Unit Unit) o = .ok (.ok (), o')) :
    o'.pos = (o.pos + xs.length) % N := by
  induction xs generalizing o with
  | nil =>
    cases h
    exact (Nat.mod_eq_of_lt hpos).symm
  | cons x xs ih =>
    obtain ⟨_, o₁, h₁, hrest⟩ := Call.ret_of_bind h
    have hlt : o.pos < len := by
      by_contra hge
      rw [store_full x (Nat.le_of_not_lt hge)] at h₁
      cases h₁
    rw [store_run x hlt] at h₁
    cases h₁
    have hnext := ih (Nat.mod_lt _ (by omega)) hrest
    simp only [hnext, List.length_cons, Nat.mod_add_mod, Nat.add_assoc, Nat.add_comm 1]

theorem stores_append (xs ys : List α) (o : Output α) :
    (stores N len (xs ++ ys) : Call (Output α) ρ Unit Unit) o
      = (stores N len xs >>= fun _ => stores N len ys) o := by
  induction xs generalizing o with
  | nil => rfl
  | cons x xs ih =>
    rw [List.cons_append, stores, stores, Call.bind_assoc]
    exact Call.bind_congr fun _ o' => ih o'

/-! ## The rules -/

theorem Emits.refl : Emits N len p x [] x := fun _ _ _ => rfl

theorem Emits.store (a : α) :
    Emits N len p (Output.store N len a : Call (Output α) ρ Unit Unit) [a] (pure ()) := by
  intro o _ _
  unfold stores stores
  rw [Call.bind_assoc]
  by_cases h : o.pos < len
  · rw [Call.bind_ret (store_run a h), store_run a h]
    rfl
  · have hfull := @store_full α ρ N len o a (Nat.le_of_not_lt h)
    rw [Call.bind_fail hfull, hfull]

theorem Emits.look {f : ℕ → Call (Output α) ρ Unit γ} (h : Emits N len p (f p) xs z) :
    Emits N len p (Call.look Output.pos >>= f) xs z := by
  intro o ho hp
  rw [Call.look_bind, ho]
  exact h o ho hp

theorem Emits.then (hx : Emits N len p x xs y) : Emits N len p (x >>= f) xs (y >>= f) := by
  intro o ho hp
  have hcongr : (x >>= f) o = ((stores N len xs >>= fun _ => y) >>= f) o := by
    change Call.andThen x f o = Call.andThen (stores N len xs >>= fun _ => y) f o
    unfold Call.andThen
    rw [hx o ho hp]
  rw [hcongr, Call.bind_assoc]

/-- **Sequencing.** -/
theorem Emits.bind (hx : Emits N len p x xs (pure b))
    (hf : Emits N len ((p + xs.length) % N) (f b) ys z) : Emits N len p (x >>= f) (xs ++ ys) z := by
  intro o ho hp
  have happ : (stores N len (xs ++ ys) >>= fun _ => z) o
      = ((stores N len xs >>= fun _ => stores N len ys) >>= fun _ => z) o := by
    change Call.andThen (stores N len (xs ++ ys)) (fun _ => z) o
      = Call.andThen (stores N len xs >>= fun _ => stores N len ys) (fun _ => z) o
    unfold Call.andThen
    rw [stores_append]
  rw [hx.then o ho hp, happ, Call.bind_assoc]
  cases hrun : (stores N len xs : Call (Output α) ρ Unit Unit) o with
  | error r => rw [Call.bind_stop hrun, Call.bind_stop hrun]
  | ok r =>
    obtain ⟨res, o'⟩ := r
    cases res with
    | error e => rw [Call.bind_fail hrun, Call.bind_fail hrun]
    | ok u =>
      have hpos := pos_of_stores (by omega) hrun
      rw [ho] at hpos
      rw [Call.bind_ret hrun, Call.bind_ret hrun]
      exact hf o' hpos (Nat.mod_lt _ (by omega))

theorem Emits.run (h : Emits N len p x xs y) (ho : o.pos = p) (hlen : p + xs.length ≤ len)
    (hN : p + xs.length < N) : x o = y ⟨patch o.mem p xs, p + xs.length⟩ := by
  subst ho
  rw [h o rfl (by omega), Call.bind_ret (stores_run hlen hN)]

theorem Emits.full (h : Emits N len p x xs y) (ho : o.pos = p) (hpos : p ≤ len)
    (hlen : len < p + xs.length) (hN : len < N) :
    x o = .ok (.error (), ⟨patch o.mem p (xs.take (len - p)), len⟩) := by
  subst ho
  rw [h o rfl (by omega), Call.bind_fail (stores_full hpos hlen hN)]

end Output

end Foundations
