import Libdill.Foundations.Chain
import Mathlib.Data.List.Perm.Subperm

/-!
# Lists that are linked by indices

The elements of an array are numbered from 1, and the link of each of them is the number of the next
one, an end mark, or 0 when the element is not on the list; the link 0 is the head of the list. The
end mark is any number but 0.

* `links_update`, `links_head`: the links of a table after a change of one element or of the head.
* `IndexList.push`, `IndexList.put`: a new first element.
* `IndexList.tail`: the first element is taken off.
* `IndexList.unlink`: an element is taken out; `IndexList.search` is the search for the link that
  leads to it.
* `IndexList.le`, `IndexList.length_le`: bounds when only so many elements can be on the list.
-/

namespace Foundations

/-! ## Tables -/

section Table

variable {α β : Type} {next : α → ℕ} {t : ℕ → α} {x : α} {g : α → β} {head head' i : ℕ}

/-- The links in a table of elements that have a field for the link. -/
def links (next : α → ℕ) (head : ℕ) (t : ℕ → α) : ℕ → ℕ
  | 0 => head
  | i + 1 => next (t i)

theorem links_update :
    links next head (Function.update t i x) = Function.update (links next head t) (i + 1) (next x) := by
  funext p
  cases p with
  | zero =>
    rw [Function.update_of_ne (Nat.succ_ne_zero i).symm]
    rfl
  | succ k =>
    by_cases hk : k = i
    · subst hk
      rw [links, Function.update_self, Function.update_self]
    · rw [links, Function.update_of_ne hk, Function.update_of_ne (by omega), links]

theorem links_head : links next head' t = Function.update (links next head t) 0 head' := by
  funext p
  cases p with
  | zero =>
    rw [Function.update_self]
    rfl
  | succ k =>
    rw [Function.update_of_ne (Nat.succ_ne_zero k)]
    rfl

/-- A change of one element that `g` does not see. -/
theorem apply_update_same (h : g x = g (t i)) (k : ℕ) : g (Function.update t i x k) = g (t k) := by
  by_cases hk : k = i
  · rw [hk, Function.update_self, h]
  · rw [Function.update_of_ne hk]

end Table

/-! ## Lists -/

/-- The links `nx` are those of the list `l`, which ends in `e`. -/
structure IndexList (nx : ℕ → ℕ) (e : ℕ) (l : List ℕ) : Prop where
  chain : Chain nx (nx 0) l e
  nodup : l.Nodup
  mem : ∀ {k}, k ∈ l ↔ 0 < k ∧ nx k ≠ 0

namespace IndexList

variable {nx nx' : ℕ → ℕ} {e i k n p : ℕ} {l l₁ l₂ : List ℕ}

theorem congr (h : IndexList nx e l) (hnx : nx' = nx) : IndexList nx' e l := hnx ▸ h

theorem zero_notMem (h : IndexList nx e l) : 0 ∉ l := fun hm => Nat.lt_irrefl 0 (h.mem.mp hm).1

theorem head_ne (h : IndexList nx e l) (he : e ≠ 0) : nx 0 ≠ 0 := by
  cases l with
  | nil =>
    have hend : nx 0 = e := h.chain
    rw [hend]
    exact he
  | cons k l =>
    obtain ⟨hhead, -⟩ := h.chain
    have hpos := (h.mem.mp (List.mem_cons_self (l := l))).1
    omega

/-- A new first element. -/
theorem push (h : IndexList nx e l) (he : e ≠ 0) (hpos : 0 < i) (hi : nx i = 0) :
    IndexList (Function.update (Function.update nx i (nx 0)) 0 i) e (i :: l) := by
  have hno : i ∉ l := fun hm => (h.mem.mp hm).2 hi
  have hi0 : i ≠ 0 := Nat.ne_of_gt hpos
  refine ⟨?_, List.nodup_cons.mpr ⟨hno, h.nodup⟩, fun {k} => ?_⟩
  · rw [Function.update_self]
    apply (h.chain.push hno).congr
    intro k hk
    have hk0 : k ≠ 0 := by
      rcases List.mem_cons.mp hk with rfl | hk
      · exact hi0
      · exact Nat.ne_of_gt (h.mem.mp hk).1
    exact Function.update_of_ne hk0 _ _
  · rw [List.mem_cons, h.mem]
    by_cases hk0 : k = 0
    · subst hk0
      exact iff_of_false (by omega) (by omega)
    · rw [Function.update_of_ne hk0]
      by_cases hki : k = i
      · subst hki
        rw [Function.update_self]
        exact iff_of_true (.inl rfl) ⟨hpos, h.head_ne he⟩
      · rw [Function.update_of_ne hki]
        exact or_iff_right hki

/-- A new first element, unless it is on the list. -/
theorem put (h : IndexList nx e l) (he : e ≠ 0) (hpos : 0 < i)
    (hnew : nx i = 0 → nx' = Function.update (Function.update nx i (nx 0)) 0 i)
    (hold : nx i ≠ 0 → nx' = nx) : ∃ l₀, IndexList nx' e (l₀ ++ l) ∧ i ∈ l₀ ++ l := by
  by_cases hi : nx i = 0
  · rw [hnew hi]
    exact ⟨[i], h.push he hpos hi, List.mem_cons_self⟩
  · rw [hold hi]
    exact ⟨[], h, h.mem.mpr ⟨hpos, hi⟩⟩

/-- The first element is taken off. -/
theorem tail (h : IndexList nx e (i :: l)) :
    IndexList (Function.update (Function.update nx 0 (nx i)) i 0) e l := by
  obtain ⟨-, hchain⟩ := h.chain
  obtain ⟨hno, hnd⟩ := List.nodup_cons.mp h.nodup
  have hi0 : 0 ≠ i := fun hi => h.zero_notMem (hi ▸ List.mem_cons_self)
  have hkept : ∀ k ∈ l, Function.update (Function.update nx 0 (nx i)) i 0 k = nx k := by
    intro k hk
    have hk0 : k ≠ 0 := fun hk0 => h.zero_notMem (hk0 ▸ List.mem_cons_of_mem i hk)
    have hki : k ≠ i := fun hki => hno (hki ▸ hk)
    rw [Function.update_of_ne hki, Function.update_of_ne hk0]
  refine ⟨?_, hnd, fun {k} => ?_⟩
  · rw [Function.update_of_ne hi0, Function.update_self]
    exact hchain.congr hkept
  · constructor
    · intro hk
      rw [hkept k hk]
      exact h.mem.mp (List.mem_cons_of_mem i hk)
    · rintro ⟨hpos, hne⟩
      by_cases hki : k = i
      · rw [hki, Function.update_self] at hne
        exact absurd rfl hne
      · rw [Function.update_of_ne hki, Function.update_of_ne (Nat.ne_of_gt hpos)] at hne
        exact (List.mem_cons.mp (h.mem.mpr ⟨hpos, hne⟩)).resolve_left hki

/-- The list with the link that leads to it. -/
theorem chain_zero (h : IndexList nx e l) : Chain nx 0 (0 :: l) e := ⟨rfl, h.chain⟩

theorem nodup_zero (h : IndexList nx e l) : (0 :: l).Nodup :=
  List.nodup_cons.mpr ⟨h.zero_notMem, h.nodup⟩

/-- The element `i` is taken out. -/
theorem unlink (h : IndexList nx e l) (hl : 0 :: l = l₁ ++ p :: i :: l₂) :
    IndexList (Function.update (Function.update nx p (nx i)) i 0) e (l.erase i) := by
  have hnd := h.nodup_zero
  have hch := h.chain_zero
  rw [hl] at hnd hch
  obtain ⟨-, hnd', hdisj⟩ := List.nodup_append.mp hnd
  have hp : p ≠ i := fun hpi => (List.nodup_cons.mp hnd').1 (hpi ▸ List.mem_cons_self)
  have hno : i ∉ l₁ := fun hm => hdisj _ hm i (List.mem_cons_of_mem _ List.mem_cons_self) rfl
  have hi0 : i ≠ 0 := by
    rintro rfl
    cases l₁ with
    | nil =>
      cases hl
      exact hp rfl
    | cons x l₁ =>
      cases hl
      exact hno List.mem_cons_self
  have herase : 0 :: l.erase i = l₁ ++ p :: l₂ := by
    have heq : (0 :: l).erase i = (l₁ ++ p :: i :: l₂).erase i := by rw [hl]
    have hzero : (0 == i) = false := beq_eq_false_iff_ne.mpr hi0.symm
    rw [List.erase_append_right _ hno, List.erase_cons_tail (by simpa using hzero),
      List.erase_cons_tail (by simpa using hp), List.erase_cons_head] at heq
    exact heq
  have hpl : p ≠ 0 → nx i ≠ 0 ∧ nx p ≠ 0 := by
    intro hp0
    have hmem : p ∈ 0 :: l ∧ i ∈ 0 :: l := by
      rw [hl]
      simp
    have hpm := (List.mem_cons.mp hmem.1).resolve_left hp0
    have him := (List.mem_cons.mp hmem.2).resolve_left hi0
    exact ⟨(h.mem.mp him).2, (h.mem.mp hpm).2⟩
  refine ⟨?_, h.nodup.erase _, fun {k} => ?_⟩
  · have hunlinked := hch.unlink hnd (v := 0)
    rw [← herase] at hunlinked
    exact hunlinked.2
  · rw [h.nodup.mem_erase_iff, h.mem]
    by_cases hki : k = i
    · rw [hki, Function.update_self]
      simp
    · rw [Function.update_of_ne hki]
      by_cases hkp : k = p
      · subst hkp
        rw [Function.update_self]
        constructor
        · rintro ⟨-, hk, -⟩
          exact ⟨hk, (hpl (by omega)).1⟩
        · rintro ⟨hk, -⟩
          exact ⟨hki, hk, (hpl (by omega)).2⟩
      · rw [Function.update_of_ne hkp]
        exact and_iff_right hki

/-- A step of the search: the link of `p` leads to the next element. -/
theorem next (h : IndexList nx e l) (he : e ∉ l) (hl : 0 :: l = l₁ ++ p :: k :: l₂) :
    nx p = k ∧ k ≠ 0 ∧ k ≠ e := by
  have hch := h.chain_zero
  have hnd := h.nodup_zero
  rw [hl] at hch hnd
  obtain ⟨b, -, rfl, hk, -⟩ := chain_append.mp hch
  obtain ⟨-, hnd', hdisj⟩ := List.nodup_append.mp hnd
  have hk0 : k ≠ 0 := by
    rintro rfl
    cases l₁ with
    | nil =>
      cases hl
      exact (List.nodup_cons.mp hnd').1 List.mem_cons_self
    | cons x l₁ =>
      cases hl
      exact hdisj 0 List.mem_cons_self 0 (List.mem_cons_of_mem _ List.mem_cons_self) rfl
  have hmem : k ∈ 0 :: l := by
    rw [hl]
    simp
  have hkl := (List.mem_cons.mp hmem).resolve_left hk0
  exact ⟨hk, hk0, fun hke => he (hke ▸ hkl)⟩

/-- **The search** for the link that leads to an element of the list. It fails at the end of the
list. -/
theorem search {ρ : Type} {r : ρ} {find : ℕ → ℕ → Except ρ ℕ}
    (hfind : ∀ n p, find (n + 1) p = if nx p = 0 ∨ nx p = e then .error r
      else if nx p - 1 = i then .ok p else find n (nx p))
    (h : IndexList nx e l) (he : e ∉ l) {l₀ : List ℕ} (hm : i + 1 ∈ l₁)
    (hl : 0 :: l = l₀ ++ p :: l₁) (hn : l₁.length ≤ n) :
    ∃ q l₂ l₃, find n p = .ok q ∧ 0 :: l = l₂ ++ q :: (i + 1) :: l₃ := by
  induction n generalizing l₀ l₁ p with
  | zero =>
    have hnil : l₁ = [] := List.length_eq_zero_iff.mp (Nat.le_zero.mp hn)
    rw [hnil] at hm
    cases hm
  | succ n ih =>
    cases l₁ with
    | nil => cases hm
    | cons k l₁ =>
      obtain ⟨hk, hk0, hke⟩ := h.next he hl
      rw [hfind, hk, if_neg (by rintro (h₁ | h₁); exacts [hk0 h₁, hke h₁])]
      by_cases hfound : k - 1 = i
      · have hki : k = i + 1 := by omega
        rw [if_pos hfound]
        exact ⟨p, l₀, l₁, rfl, hki ▸ hl⟩
      · rw [if_neg hfound]
        have hm' : i + 1 ∈ l₁ := by
          rcases List.mem_cons.mp hm with hki | hm'
          · omega
          · exact hm'
        have hl' : 0 :: l = (l₀ ++ [p]) ++ k :: l₁ := by
          rw [hl, List.append_assoc]
          rfl
        exact ih hm' hl' (Nat.le_of_succ_le_succ hn)

/-! ## Bounds -/

section Bounds

variable (hn : ∀ i, nx (i + 1) ≠ 0 → i < n)

include hn

theorem le (h : IndexList nx e l) (hk : k ∈ l) : 0 < k ∧ k ≤ n := by
  obtain ⟨hpos, hne⟩ := h.mem.mp hk
  obtain ⟨i, rfl⟩ := Nat.exists_eq_add_of_lt hpos
  rw [Nat.zero_add] at hne ⊢
  have hlt := hn i hne
  omega

theorem end_notMem (h : IndexList nx e l) (hlt : n < e) : e ∉ l := by
  intro hm
  have hle := (h.le hn hm).2
  omega

theorem length_le (h : IndexList nx e l) : l.length ≤ n := by
  have hsub : l ⊆ List.range' 1 n := by
    intro k hk
    obtain ⟨hpos, hle⟩ := h.le hn hk
    rw [List.mem_range'_1]
    omega
  have hlen := (List.subperm_of_subset h.nodup hsub).length_le
  rw [List.length_range'] at hlen
  exact hlen

end Bounds

end IndexList

end Foundations
