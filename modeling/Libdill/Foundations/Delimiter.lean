import Mathlib.Data.List.Basic
import Mathlib.Data.List.Infix
import Mathlib.Data.Nat.Find

/-!
# Cutting a list at a delimiter

* `CutAt t s p r`: `p` is what comes before the leftmost occurrence of `t` in `s`, and `r` what
  comes behind it; `Cuts` for repeated cutting.
* `cutAt_append`: a list in which, followed by the delimiter, the delimiter first occurs at its end
  is found again when it is followed by the delimiter and by anything else.
-/

namespace Foundations

variable {α : Type*} {t s p r m : List α} {b : α}

/-- The list `t` occurs in `s` at position `k`. -/
def OccursAt (t s : List α) (k : ℕ) : Prop := t <+: s.drop k

/-- `t` occurs in `s` for the first time behind `p`, and then comes `r`. -/
structure CutAt (t s p r : List α) : Prop where
  eq : s = p ++ t ++ r
  leftmost : ∀ k < p.length, ¬ OccursAt t s k

/-- A list cut repeatedly: the pieces, and what comes behind the last of their delimiters. -/
inductive Cuts (t : List α) : List α → List (List α) → List α → Prop
  | nil (s : List α) : Cuts t s [] s
  | cons {s p s' : List α} {ps : List (List α)} {r : List α} :
    CutAt t s p s' → Cuts t s' ps r → Cuts t s (p :: ps) r

theorem occursAt_zero : OccursAt t s 0 ↔ t <+: s := Iff.rfl

theorem CutAt.occurs (h : CutAt t s p r) : OccursAt t s p.length := by
  rw [h.eq, OccursAt, List.append_assoc, List.drop_left]
  exact List.prefix_append t r

/-- Cutting behind the first element. -/
theorem CutAt.tail (h : CutAt t s (b :: p) r) : ∃ s', s = b :: s' ∧ ¬ t <+: s ∧ CutAt t s' p r := by
  have heq := h.eq
  refine ⟨p ++ t ++ r, by simpa using heq, h.leftmost 0 (by simp), rfl, ?_⟩
  intro k hk hocc
  apply h.leftmost (k + 1) (by simpa using hk)
  rw [heq]
  exact hocc

theorem CutAt.unique {p' r' : List α} (h : CutAt t s p r) (h' : CutAt t s p' r') :
    p = p' ∧ r = r' := by
  have hlen : p.length = p'.length := by
    by_contra hne
    rcases Nat.lt_or_gt_of_ne hne with hlt | hlt
    · exact h'.leftmost _ hlt h.occurs
    · exact h.leftmost _ hlt h'.occurs
  have heq := h.eq.symm.trans h'.eq
  rw [List.append_assoc, List.append_assoc] at heq
  obtain ⟨rfl, heq⟩ := List.append_inj heq hlen
  exact ⟨rfl, List.append_cancel_left (List.append_cancel_left heq)⟩

/-- A list in which the delimiter occurs can be cut at it. -/
theorem exists_cutAt {k : ℕ} (h : OccursAt t s k) : ∃ p r, CutAt t s p r ∧ p.length ≤ k := by
  classical
  have hex : ∃ j, OccursAt t s j := ⟨k, h⟩
  obtain ⟨r, hr⟩ := Nat.find_spec hex
  have hlen : (s.take (Nat.find hex)).length ≤ Nat.find hex := List.length_take_le _ s
  refine ⟨s.take (Nat.find hex), r, ⟨?_, fun j hj => Nat.find_min hex (by omega)⟩,
    hlen.trans (Nat.find_min' hex h)⟩
  rw [List.append_assoc, hr, List.take_append_drop]

/-- The delimiter first occurs in `m`, followed by it, at the end of `m`. -/
def Free (t m : List α) : Prop := ∀ k < m.length, ¬ OccursAt t (m ++ t) k

instance [DecidableEq α] : Decidable (Free t m) :=
  inferInstanceAs (Decidable (∀ k < m.length, ¬ t <+: (m ++ t).drop k))

theorem occursAt_append {k : ℕ} (h : OccursAt t m k) (r : List α) : OccursAt t (m ++ r) k := by
  by_cases hk : k ≤ m.length
  · unfold OccursAt at h ⊢
    rw [List.drop_append_of_le_length hk]
    exact h.trans (List.prefix_append _ r)
  · unfold OccursAt at h ⊢
    rw [List.drop_eq_nil_of_le (by omega)] at h
    rw [List.prefix_nil.mp h]
    exact List.nil_prefix

/-- What is cut off in front of its own delimiter is a part of the message, and all of it only if it
is free of the delimiter. -/
theorem cutAt_message (h : CutAt t (m ++ t ++ r) p s) (hle : p.length ≤ m.length) :
    p = m.take p.length ∧ (p = m → Free t m) := by
  constructor
  · have heq := h.eq
    rw [List.append_assoc, List.append_assoc] at heq
    have htake := congrArg (List.take p.length) heq
    rw [List.take_left, List.take_append_of_le_length hle] at htake
    exact htake.symm
  · rintro rfl k hk hocc
    exact h.leftmost k hk (occursAt_append hocc r)

/-- **Messages free of the delimiter** are found again. -/
theorem cutAt_append (h : Free t m) (r : List α) : CutAt t (m ++ t ++ r) m r := by
  refine ⟨rfl, fun k hk hocc => h k hk ?_⟩
  have hle : t.length ≤ ((m ++ t).drop k).length := by
    rw [List.length_drop, List.length_append]
    omega
  unfold OccursAt at hocc ⊢
  rw [List.drop_append_of_le_length (by rw [List.length_append]; omega)] at hocc
  exact List.prefix_of_prefix_length_le hocc (List.prefix_append _ r) hle

end Foundations
