import Mathlib.Data.List.Sort

/-!
# Stable insertion into a sorted list

`insertAfter key a l` puts `a` behind every element whose key is at most its own: the list view
of a priority queue that serves equal keys in the order of their arrival.
-/

namespace Foundations

variable {α κ : Type*} [LinearOrder κ]

/-- Insert `a` after all elements with a key at most its own. -/
def insertAfter (key : α → κ) (a : α) : List α → List α
  | [] => [a]
  | b :: l => if key b ≤ key a then b :: insertAfter key a l else a :: b :: l

theorem insertAfter_perm (key : α → κ) (a : α) (l : List α) :
    (insertAfter key a l).Perm (a :: l) := by
  induction l with
  | nil => exact .refl _
  | cons b l ih =>
    rw [insertAfter]
    split
    · exact (ih.cons b).trans (.swap a b l)
    · exact .refl _

@[simp] theorem mem_insertAfter {key : α → κ} {a b : α} {l : List α} :
    b ∈ insertAfter key a l ↔ b = a ∨ b ∈ l := by
  rw [(insertAfter_perm key a l).mem_iff, List.mem_cons]

/-- Insertion keeps an order that refines the order of the keys, if the new element comes after the
elements with the same key in it. -/
theorem pairwise_insertAfter {key : α → κ} {R : α → α → Prop} {a : α} {l : List α}
    (hl : l.Pairwise R) (hkey : ∀ b c, R b c → key b ≤ key c)
    (hbefore : ∀ b ∈ l, key b ≤ key a → R b a) (hafter : ∀ b, key a < key b → R a b) :
    (insertAfter key a l).Pairwise R := by
  induction l with
  | nil => exact List.pairwise_singleton R a
  | cons b l ih =>
    obtain ⟨hb, hl⟩ := List.pairwise_cons.mp hl
    rw [insertAfter]
    split
    · rename_i hba
      have hrest := ih hl fun c hc => hbefore c (List.mem_cons_of_mem _ hc)
      refine List.pairwise_cons.mpr ⟨fun c hc => ?_, hrest⟩
      rcases mem_insertAfter.mp hc with rfl | hc
      · exact hbefore b List.mem_cons_self hba
      · exact hb c hc
    · rename_i hba
      have hab : key a < key b := lt_of_not_ge hba
      refine List.pairwise_cons.mpr ⟨fun c hc => ?_, List.pairwise_cons.mpr ⟨hb, hl⟩⟩
      rcases List.mem_cons.mp hc with rfl | hc
      · exact hafter c hab
      · exact hafter c (hab.trans_le (hkey b c (hb c hc)))

/-- The place of the new element in a list that is cut there. -/
theorem insertAfter_append {key : α → κ} {a : α} {l r : List α} (hl : ∀ b ∈ l, key b ≤ key a)
    (hr : ∀ b ∈ r, key a < key b) : insertAfter key a (l ++ r) = l ++ a :: r := by
  induction l with
  | nil =>
    cases r with
    | nil => rfl
    | cons b r =>
      have hb : ¬key b ≤ key a := not_le_of_gt (hr b (by simp))
      rw [List.nil_append, insertAfter, if_neg hb]
      rfl
  | cons b l ih =>
    rw [List.cons_append, insertAfter, if_pos (hl b (by simp)), ih fun c hc => hl c (by simp [hc])]
    rfl

end Foundations
