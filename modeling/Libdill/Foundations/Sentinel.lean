import Mathlib.Data.Nat.Notation
import Mathlib.Data.List.TakeWhile
import Mathlib.Data.List.Infix

/-!
# Buffers with a sentinel

A text in a buffer, with an element behind it that marks its end, and positions in it that only move
forward: they stop at the sentinel, so that what lies behind it is never looked at.

* `Here`: what is left of the text at a position; with its rules `Here.skip`, `Here.char`,
  `Here.tail`, `Here.slice`, `Here.differs`.
* `splits_iff`: where a token ends and what separates it from the next one.
-/

namespace Foundations

variable {α : Type}

/-- The number of elements at the front that satisfy `p`; nothing, if there is none that does not. -/
def countWhile (p : α → Bool) : List α → Option ℕ
  | [] => none
  | x :: rest => if p x then (countWhile p rest).map (· + 1) else some 0

/-- The position at or behind `pos` where `p` does not hold; nothing, if the loop that looks for it
leaves the buffer. -/
def skip (p : α → Bool) (buf : List α) (pos : ℕ) : Option ℕ :=
  (countWhile p (buf.drop pos)).map (pos + ·)

/-- Comparing as many elements as `s` has, up to the first difference: whether there is one; nothing,
if the buffer ends before. -/
def differs [DecidableEq α] : List α → List α → Option Bool
  | _, [] => some false
  | [], _ :: _ => none
  | x :: xs, y :: ys => if x = y then differs xs ys else some true

/-- At `pos` in the buffer there is `rest`, up to the sentinel `z` at `size`. -/
structure Here (z : α) (buf : List α) (size pos : ℕ) (rest : List α) : Prop where
  size : pos + rest.length = size
  drop : rest ++ [z] <+: buf.drop pos

variable {z : α} {buf rest s : List α} {size pos : ℕ} {p : α → Bool}

theorem countWhile_append (h : p z = false) (rest t : List α) :
    countWhile p (rest ++ z :: t) = some (rest.takeWhile p).length := by
  induction rest with
  | nil => simp [countWhile, h]
  | cons x rest ih =>
    rw [List.cons_append, countWhile, ih, List.takeWhile_cons]
    cases p x <;> simp

namespace Here

theorem eq (h : Here z buf size pos rest) : ∃ t, buf.drop pos = rest ++ z :: t := by
  obtain ⟨t, ht⟩ := h.drop
  exact ⟨t, by simpa using ht.symm⟩

theorem pos_lt (h : Here z buf size pos rest) : size < buf.length := by
  have hlen := h.drop.length_le
  have hsize := h.size
  rw [List.length_append, List.length_drop, List.length_singleton] at hlen
  omega

/-- Moving on. -/
theorem move (h : Here z buf size pos (s ++ rest)) : Here z buf size (pos + s.length) rest := by
  obtain ⟨t, ht⟩ := h.drop
  have hsize := h.size
  rw [List.length_append] at hsize
  refine ⟨by omega, t, ?_⟩
  rw [← List.drop_drop, ← ht]
  simp

theorem tail {x : α} (h : Here z buf size pos (x :: rest)) : Here z buf size (pos + 1) rest :=
  @move α z buf rest [x] size pos h

/-- The end of the text. -/
theorem last (h : Here z buf size pos rest) : Here z buf size size [] := by
  have hend : Here z buf size (pos + rest.length) [] := by
    apply move
    rw [List.append_nil]
    exact h
  rw [h.size] at hend
  exact hend

/-- **A loop that moves on.** -/
theorem skip (h : Here z buf size pos rest) (hz : p z = false) :
    Foundations.skip p buf pos = some (pos + (rest.takeWhile p).length) ∧
      Here z buf size (pos + (rest.takeWhile p).length) (rest.dropWhile p) := by
  obtain ⟨t, ht⟩ := h.eq
  constructor
  · rw [Foundations.skip, ht, countWhile_append hz]
    rfl
  · apply move
    rw [List.takeWhile_append_dropWhile]
    exact h

theorem char (h : Here z buf size pos rest) : buf[pos]? = some (rest.headD z) := by
  obtain ⟨t, ht⟩ := h.eq
  rw [← Nat.add_zero pos, ← List.getElem?_drop, ht]
  cases rest <;> rfl

theorem slice (h : Here z buf size pos (s ++ rest)) : (buf.drop pos).take s.length = s := by
  obtain ⟨t, ht⟩ := h.eq
  rw [ht]
  simp

/-- A string that does not contain the sentinel is compared inside the text. -/
theorem differs [DecidableEq α] (h : Here z buf size pos rest) (hs : z ∉ s) :
    Foundations.differs (buf.drop pos) s = some (decide ¬ s <+: rest) := by
  obtain ⟨t, ht⟩ := h.eq
  rw [ht]
  clear ht h
  induction s generalizing rest with
  | nil => simp [Foundations.differs]
  | cons y s ih =>
    rw [List.mem_cons, not_or] at hs
    obtain ⟨hy, hs⟩ := hs
    cases rest with
    | nil => simp [Foundations.differs, hy]
    | cons x rest =>
      rw [List.cons_append, Foundations.differs, ih hs]
      by_cases hxy : x = y
      · simp [hxy]
      · simp [hxy, Ne.symm hxy]

end Here

/-! ## Tokens -/

theorem takeWhile_append_stop {a b : List α} (ha : ∀ x ∈ a, p x = true)
    (hb : ∀ x ∈ b.head?, p x = false) : (a ++ b).takeWhile p = a := by
  rw [List.takeWhile_append_of_pos ha]
  cases b with
  | nil => simp
  | cons x b => simp [hb x rfl]

theorem dropWhile_append_stop {a b : List α} (ha : ∀ x ∈ a, p x = true)
    (hb : ∀ x ∈ b.head?, p x = false) : (a ++ b).dropWhile p = b := by
  rw [List.dropWhile_append_of_pos ha]
  cases b with
  | nil => rfl
  | cons x b => simp [hb x rfl]

theorem head_dropWhile {x : α} (h : x ∈ (s.dropWhile p).head?) : p x = false := by
  have hnot := List.head?_dropWhile_not p s
  rw [Option.mem_def.mp h] at hnot
  simpa using hnot

/-- **Where a token ends.** -/
theorem splits_iff {a b : List α} :
    s.takeWhile p = a ∧ s.dropWhile p = b
      ↔ s = a ++ b ∧ (∀ x ∈ a, p x = true) ∧ ∀ x ∈ b.head?, p x = false := by
  constructor
  · rintro ⟨rfl, rfl⟩
    exact ⟨List.takeWhile_append_dropWhile.symm, fun x hx => List.mem_takeWhile_imp hx,
      fun x hx => head_dropWhile hx⟩
  · rintro ⟨rfl, ha, hb⟩
    exact ⟨takeWhile_append_stop ha hb, dropWhile_append_stop ha hb⟩

end Foundations
