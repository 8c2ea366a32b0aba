import Mathlib.Data.List.Nodup
import Mathlib.Logic.Function.Basic

/-!
# Chains of links

`Chain nx a l b`: following the links `nx` from `a` one visits the nodes of `l` and arrives at
`b`. A singly linked list with the end mark `e` is a chain that arrives at `e`.

* `Chain.congr`: only the links of the visited nodes matter.
* `chain_concat`: the last node of a chain.
* `Chain.push`, `Chain.snoc`: a new first node, and a new last node.
* `Chain.unlink`: a node is taken out by changing the link that leads to it.
-/

namespace Foundations

variable {κ : Type*}

/-- From `a` the links `nx` visit the nodes of `l` and arrive at `b`. -/
def Chain (nx : κ → κ) : κ → List κ → κ → Prop
  | a, [], b => a = b
  | a, i :: l, b => a = i ∧ Chain nx (nx i) l b

variable {nx nx' : κ → κ} {a b c i : κ} {l l' : List κ}

@[simp] theorem chain_nil : Chain nx a [] b ↔ a = b := Iff.rfl

@[simp] theorem chain_cons : Chain nx a (i :: l) b ↔ a = i ∧ Chain nx (nx i) l b := Iff.rfl

theorem Chain.congr (h : Chain nx a l b) (hnx : ∀ i ∈ l, nx' i = nx i) : Chain nx' a l b := by
  induction l generalizing a with
  | nil => exact h
  | cons i l ih =>
    obtain ⟨hi, hl⟩ := List.forall_mem_cons.mp hnx
    refine ⟨h.1, ?_⟩
    rw [hi]
    exact ih h.2 hl

theorem chain_append : Chain nx a (l ++ l') c ↔ ∃ b, Chain nx a l b ∧ Chain nx b l' c := by
  induction l generalizing a with
  | nil => simp
  | cons i l ih =>
    rw [List.cons_append, chain_cons, ih]
    constructor
    · rintro ⟨rfl, b, hl, hl'⟩
      exact ⟨b, ⟨rfl, hl⟩, hl'⟩
    · rintro ⟨b, ⟨rfl, hl⟩, hl'⟩
      exact ⟨rfl, b, hl, hl'⟩

theorem chain_concat : Chain nx a (l ++ [i]) b ↔ Chain nx a l i ∧ nx i = b := by
  rw [chain_append]
  constructor
  · rintro ⟨c, hl, rfl, hi⟩
    exact ⟨hl, hi⟩
  · rintro ⟨hl, hi⟩
    exact ⟨i, hl, rfl, hi⟩

/-- The nodes say where a chain arrives. -/
theorem Chain.arrives (h : Chain nx a l b) (h' : Chain nx a l c) : b = c := by
  induction l generalizing a with
  | nil => exact h.symm.trans h'
  | cons i l ih => exact ih h.2 h'.2

/-- The end of a chain is where it stops: a chain to a node that it does not visit is empty when
it starts there. -/
theorem Chain.eq_nil (h : Chain nx b l b) (hb : b ∉ l) : l = [] := by
  cases l with
  | nil => rfl
  | cons i l => exact absurd (h.1 ▸ List.mem_cons_self) hb

theorem Chain.ne_nil (h : Chain nx a l b) (hab : a ≠ b) : l ≠ [] := by
  rintro rfl
  exact hab h

/-- A chain arrives where it starts, or it visits the first node. -/
theorem Chain.eq_or_mem (h : Chain nx a l b) : a = b ∨ a ∈ l := by
  cases l with
  | nil => exact .inl h
  | cons i l => exact .inr (h.1 ▸ List.mem_cons_self)

/-- Two chains to the same end that do not visit it are equal. -/
theorem Chain.unique (h : Chain nx a l b) (h' : Chain nx a l' b) (hb : b ∉ l) (hb' : b ∉ l') :
    l = l' := by
  induction l generalizing a l' with
  | nil =>
    cases h
    exact (h'.eq_nil hb').symm
  | cons i l ih =>
    cases l' with
    | nil =>
      cases h'
      exact absurd (h.1 ▸ List.mem_cons_self) hb
    | cons i' l' =>
      obtain ⟨rfl, h⟩ := h
      obtain ⟨rfl, h'⟩ := h'
      rw [ih h h' (fun hm => hb (List.mem_cons_of_mem _ hm))
        (fun hm => hb' (List.mem_cons_of_mem _ hm))]

/-- A chain to an end that another one has not reached yet goes on from there. -/
theorem Chain.rest (h : Chain nx a l b) (h' : Chain nx a l' c) (hc : c ∉ l) :
    ∃ m, l' = l ++ m ∧ Chain nx b m c := by
  induction l generalizing a l' with
  | nil =>
    cases h
    exact ⟨l', rfl, h'⟩
  | cons i l ih =>
    obtain ⟨rfl, h⟩ := h
    cases l' with
    | nil => exact absurd (h' ▸ List.mem_cons_self) hc
    | cons i' l' =>
      obtain ⟨rfl, h'⟩ := h'
      obtain ⟨m, rfl, hm⟩ := ih h h' (fun hmem => hc (List.mem_cons_of_mem _ hmem))
      exact ⟨m, rfl, hm⟩

/-- A chain to an end that it does not visit visits no node twice. -/
theorem Chain.nodup (h : Chain nx a l b) (hb : b ∉ l) : l.Nodup := by
  induction l generalizing a with
  | nil => exact List.nodup_nil
  | cons i l ih =>
    obtain ⟨rfl, h⟩ := h
    have hbl : b ∉ l := fun hm => hb (List.mem_cons_of_mem _ hm)
    refine List.nodup_cons.mpr ⟨fun hi => ?_, ih h hbl⟩
    obtain ⟨m, m', rfl⟩ := List.append_of_mem hi
    obtain ⟨c, -, rfl, hm'⟩ := chain_append.mp h
    have hshort : Chain nx c (c :: m') b := ⟨rfl, hm'⟩
    have hlong : Chain nx c (c :: (m ++ c :: m')) b := ⟨rfl, h⟩
    have heq := hshort.unique hlong (fun hm => hbl (List.mem_append_right _ hm)) hb
    have hlen := congrArg List.length heq
    simp only [List.length_cons, List.length_append] at hlen
    omega

/-- Only the last node leads to an end that is not visited. -/
theorem Chain.eq_last {t x : κ} (h : Chain nx a (l ++ [t]) b) (hb : b ∉ l ++ [t])
    (hx : x ∈ l ++ [t]) (hnx : nx x = b) : x = t := by
  obtain ⟨m, m', heq⟩ := List.append_of_mem hx
  rw [heq] at h hb
  obtain ⟨c, -, rfl, hm'⟩ := chain_append.mp h
  rw [hnx] at hm'
  have hnil := hm'.eq_nil fun hm => hb (List.mem_append_right _ (List.mem_cons_of_mem _ hm))
  rw [hnil] at heq
  exact (List.append_inj' heq rfl).2 |> List.cons.inj |>.1.symm

variable [DecidableEq κ]

/-- A new node leads to the first one. -/
theorem Chain.push (h : Chain nx a l b) (hi : i ∉ l) :
    Chain (Function.update nx i a) i (i :: l) b := by
  refine ⟨rfl, ?_⟩
  rw [Function.update_self]
  apply h.congr
  intro j hj
  have hji : j ≠ i := fun hji => hi (hji ▸ hj)
  exact Function.update_of_ne hji _ _

/-- The node `i` is taken out; its own link is changed, too. -/
theorem Chain.unlink {e p v : κ} (h : Chain nx a (l ++ p :: i :: l') e)
    (hnd : (l ++ p :: i :: l').Nodup) :
    Chain (Function.update (Function.update nx p (nx i)) i v) a (l ++ p :: l') e := by
  obtain ⟨b, hl, rfl, hpi, hl'⟩ := chain_append.mp h
  obtain ⟨-, hnd', hdisj⟩ := List.nodup_append.mp hnd
  obtain ⟨hp, hi⟩ := List.nodup_cons.mp hnd'
  have hne : b ≠ i := fun hbi => hp (hbi ▸ List.mem_cons_self)
  have hkeep : ∀ j, j ≠ b → j ≠ i →
      Function.update (Function.update nx b (nx i)) i v j = nx j := by
    intro j hjb hji
    rw [Function.update_of_ne hji, Function.update_of_ne hjb]
  rw [chain_append]
  refine ⟨b, hl.congr fun j hj => ?_, rfl, ?_⟩
  · apply hkeep
    · exact hdisj j hj b List.mem_cons_self
    · exact hdisj j hj i (List.mem_cons_of_mem _ List.mem_cons_self)
  · rw [Function.update_of_ne hne, Function.update_self]
    apply hl'.congr
    intro j hj
    apply hkeep
    · exact fun hjb => hp (hjb ▸ List.mem_cons_of_mem _ hj)
    · exact fun hji => (List.nodup_cons.mp hi).1 (hji ▸ hj)

/-- A new node is linked behind the last one. -/
theorem Chain.snoc {e t : κ} (h : Chain nx a (l ++ [t]) e) (hnd : (l ++ [t]).Nodup)
    (hi : i ∉ l ++ [t]) :
    Chain (Function.update (Function.update nx i e) t i) a (l ++ [t] ++ [i]) e := by
  have hti : i ≠ t := fun hit => hi (List.mem_append_right _ (List.mem_singleton.mpr hit))
  obtain ⟨hl, -⟩ := chain_concat.mp h
  have htl : t ∉ l := by
    intro htl
    exact (List.nodup_append.mp hnd).2.2 t htl t (List.mem_singleton.mpr rfl) rfl
  have hl' : Chain (Function.update (Function.update nx i e) t i) a l t := by
    apply hl.congr
    intro j hj
    have hjt : j ≠ t := fun hjt => htl (hjt ▸ hj)
    have hji : j ≠ i := fun hji => hi (hji ▸ List.mem_append_left _ hj)
    rw [Function.update_of_ne hjt, Function.update_of_ne hji]
  rw [chain_concat, chain_concat]
  refine ⟨⟨hl', Function.update_self _ _ _⟩, ?_⟩
  rw [Function.update_of_ne hti, Function.update_self]

end Foundations
