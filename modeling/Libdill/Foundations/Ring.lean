import Libdill.Foundations.Chain

/-!
# Rings of links

`Ring f l`: following the links `f` from the first node of `l` one visits the nodes of `l` in turn
and comes back to the first one. A circular list with the head `h` and the items `l` is the ring
`h :: l`; where one starts does not matter (`Ring.rotate`). `DoubleRing nx pv l` adds the links
back.

* `Ring.snoc`, `Ring.unsnoc`: a node is put behind the last one, and taken out again; `Ring.push`,
  `Ring.pop`: the same behind the first one.
* `DoubleRing.insert`, `DoubleRing.erase`: the same anywhere in a ring with both directions.
* `rounds`: the loop over the items, and `Ring.rounds_eq`.
-/

namespace Foundations

variable {κ : Type*}

/-- From its first node the links `f` visit the nodes of the list and return to it. -/
def Ring (f : κ → κ) : List κ → Prop
  | [] => True
  | a :: l => Chain f (f a) l a

variable {f g : κ → κ} {a b i t : κ} {l l₁ l₂ : List κ}

@[simp] theorem ring_cons : Ring f (a :: l) ↔ Chain f (f a) l a := Iff.rfl

theorem Ring.congr (h : Ring f l) (hfg : ∀ a ∈ l, g a = f a) : Ring g l := by
  cases l with
  | nil => trivial
  | cons a l =>
    obtain ⟨ha, hl⟩ := List.forall_mem_cons.mp hfg
    rw [ring_cons, ha]
    exact Chain.congr h hl

theorem Ring.rotate_one (h : Ring f (a :: l)) : Ring f (l ++ [a]) := by
  cases l with
  | nil => exact h
  | cons b l =>
    obtain ⟨hab, hl⟩ := h
    exact chain_concat.mpr ⟨hl, hab⟩

/-- A ring may be entered anywhere. -/
theorem Ring.rotate (h : Ring f (l₁ ++ l₂)) : Ring f (l₂ ++ l₁) := by
  induction l₁ generalizing l₂ with
  | nil => simpa using h
  | cons a l ih =>
    have h' : Ring f (l ++ (l₂ ++ [a])) := by
      rw [← List.append_assoc]
      exact h.rotate_one
    simpa using ih h'

/-- The first node follows the last one. -/
theorem Ring.last (h : Ring f (a :: l ++ [t])) : f t = a := (chain_concat.mp h).2

theorem Ring.head? (h : Ring f (l ++ [t])) : (l ++ [t]).head? = some (f t) := by
  cases l with
  | nil => exact congrArg some (Eq.symm h)
  | cons a l => exact congrArg some h.last.symm

theorem Ring.second (h : Ring f (a :: b :: l)) : f a = b := h.1

/-- A node follows itself only in a ring of one node. -/
theorem Ring.next_eq_self (h : Ring f (a :: l)) (ha : a ∉ l) : f a = a ↔ l = [] := by
  constructor
  · intro hf
    have hc : Chain f (f a) l a := h
    rw [hf] at hc
    exact hc.eq_nil ha
  · rintro rfl
    exact h

theorem Ring.next_mem (h : Ring f l) (ha : a ∈ l) : f a ∈ l := by
  obtain ⟨l₁, l₂, rfl⟩ := List.append_of_mem ha
  have hr : Ring f (a :: (l₂ ++ l₁)) := h.rotate
  have hperm : (a :: (l₂ ++ l₁)).Perm (l₁ ++ a :: l₂) := @List.perm_append_comm _ (a :: l₂) l₁
  apply hperm.subset
  cases hm : l₂ ++ l₁ with
  | nil =>
    rw [hm] at hr
    exact List.mem_singleton.mpr hr
  | cons b m =>
    rw [hm] at hr
    rw [hr.second]
    exact List.mem_cons_of_mem _ List.mem_cons_self

/-! ## The loop over the items -/

section Rounds

variable [DecidableEq κ]

/-- The loop that follows the links from `it` until it comes back to `self`; the number bounds its
turns. -/
def rounds (f : κ → κ) (self : κ) : ℕ → κ → Option (List κ)
  | 0, it => if it = self then some [] else none
  | n + 1, it => if it = self then some [] else (rounds f self n (f it)).map (it :: ·)

theorem Chain.rounds_eq (h : Chain f a l b) (hb : b ∉ l) {n : ℕ} (hn : l.length ≤ n) :
    rounds f b n a = some l := by
  induction l generalizing a n with
  | nil =>
    cases h
    cases n <;> simp [rounds]
  | cons i l ih =>
    obtain ⟨rfl, hl⟩ := h
    rw [List.mem_cons, not_or] at hb
    cases n with
    | zero => cases hn
    | succ n =>
      rw [rounds, if_neg (Ne.symm hb.1), ih hl hb.2 (Nat.le_of_succ_le_succ hn), Option.map_some]

theorem Ring.rounds_eq (h : Ring f (a :: l)) (ha : a ∉ l) {n : ℕ} (hn : l.length ≤ n) :
    rounds f a n (f a) = some l :=
  Chain.rounds_eq h ha hn

/-! ## A new last node, and the last node taken out -/

theorem Ring.snoc (h : Ring f (l ++ [t])) (hnd : (l ++ [t]).Nodup) (hi : i ∉ l ++ [t]) :
    Ring (Function.update (Function.update f i (f t)) t i) (l ++ [t, i]) := by
  have hti : i ≠ t := fun hit => hi (List.mem_append_right _ (List.mem_singleton.mpr hit))
  cases l with
  | nil =>
    have ht : f t = t := h
    refine ⟨Function.update_self _ _ _, ?_⟩
    rw [Function.update_of_ne hti, Function.update_self]
    exact ht
  | cons a l =>
    rw [List.cons_append, List.nodup_cons] at hnd
    have hat : a ≠ t := fun h' => hnd.1 (h' ▸ List.mem_append_right _ (List.mem_singleton_self _))
    have hai : a ≠ i := fun h' => hi (h' ▸ List.mem_cons_self)
    have hc := Chain.snoc h hnd.2 fun hm => hi (List.mem_cons_of_mem _ hm)
    rw [List.cons_append, ring_cons, Function.update_of_ne hat, Function.update_of_ne hai, h.last]
    simpa using hc

theorem Ring.unsnoc (h : Ring f (l ++ [t, i])) (hnd : (l ++ [t, i]).Nodup) :
    Ring (Function.update f t (f i)) (l ++ [t]) := by
  have htl : t ∉ l := fun hm => (List.nodup_append.mp hnd).2.2 t hm t List.mem_cons_self rfl
  cases l with
  | nil =>
    obtain ⟨-, hi⟩ := h
    exact (Function.update_self _ _ _).trans hi
  | cons a l =>
    have hc : Chain f (f a) (l ++ [t] ++ [i]) a := by
      rw [List.append_assoc]
      exact h
    obtain ⟨hc, hi⟩ := chain_concat.mp hc
    obtain ⟨hc, -⟩ := chain_concat.mp hc
    rw [List.mem_cons, not_or] at htl
    rw [List.cons_append, ring_cons, Function.update_of_ne (Ne.symm htl.1)]
    refine chain_concat.mpr ⟨hc.congr fun j hj => ?_, (Function.update_self _ _ _).trans hi⟩
    have hjt : j ≠ t := fun hjt => htl.2 (hjt ▸ hj)
    exact Function.update_of_ne hjt _ _

/-- A node is put behind the first one. -/
theorem Ring.push (h : Ring f (a :: l)) (hnd : (a :: l).Nodup) (hi : i ∉ a :: l) :
    Ring (Function.update (Function.update f i (f a)) a i) (a :: i :: l) := by
  have hr : Ring f (l ++ [a]) := h.rotate_one
  have hs := hr.snoc (List.nodup_append_comm.mp hnd) (by simpa [or_comm] using hi)
  exact hs.rotate

/-- The node behind the first one is taken out. -/
theorem Ring.pop (h : Ring f (a :: i :: l)) (hnd : (a :: i :: l).Nodup) :
    Ring (Function.update f a (f i)) (a :: l) := by
  have hsplit : Ring f ([a, i] ++ l) := h
  have hsplitnd : ([a, i] ++ l).Nodup := hnd
  exact (hsplit.rotate.unsnoc (List.nodup_append_comm.mp hsplitnd)).rotate

end Rounds

/-! ## Rings with links back -/

/-- The links `nx` go around the ring, and the links `pv` go around it the other way. -/
structure DoubleRing (nx pv : κ → κ) (l : List κ) : Prop where
  fwd : Ring nx l
  bwd : Ring pv l.reverse
  nodup : l.Nodup

namespace DoubleRing

variable {nx pv nx' pv' : κ → κ}

theorem congr (h : DoubleRing nx pv l) (hn : ∀ a ∈ l, nx' a = nx a) (hp : ∀ a ∈ l, pv' a = pv a) :
    DoubleRing nx' pv' l where
  fwd := h.fwd.congr hn
  bwd := h.bwd.congr fun a ha => hp a (List.mem_reverse.mp ha)
  nodup := h.nodup

theorem rotate (h : DoubleRing nx pv (l₁ ++ l₂)) : DoubleRing nx pv (l₂ ++ l₁) where
  fwd := h.fwd.rotate
  bwd := by
    rw [List.reverse_append]
    apply Ring.rotate
    rw [← List.reverse_append]
    exact h.bwd
  nodup := List.nodup_append_comm.mp h.nodup

/-- The node before the first one is the last one. -/
theorem prev_head (h : DoubleRing nx pv (a :: l)) : (a :: l).getLast? = some (pv a) := by
  have hb : Ring pv (l.reverse ++ [a]) := by
    rw [← List.reverse_cons]
    exact h.bwd
  rw [← List.head?_reverse, List.reverse_cons]
  exact hb.head?

/-- The ring, entered at the node `a`. -/
theorem enter (h : DoubleRing nx pv l) (ha : a ∈ l) :
    ∃ m, DoubleRing nx pv (a :: m) ∧ (a :: m).Perm l := by
  obtain ⟨l₁, l₂, rfl⟩ := List.append_of_mem ha
  exact ⟨l₂ ++ l₁, h.rotate, @List.perm_append_comm _ (a :: l₂) l₁⟩

theorem prev_mem (h : DoubleRing nx pv l) (ha : a ∈ l) : pv a ∈ l := by
  obtain ⟨m, hm, hperm⟩ := h.enter ha
  exact hperm.subset (List.mem_of_getLast? hm.prev_head)

theorem next_eq_self (h : DoubleRing nx pv (a :: l)) : nx a = a ↔ l = [] :=
  h.fwd.next_eq_self (List.nodup_cons.mp h.nodup).1

theorem prev_eq_self (h : DoubleRing nx pv (a :: l)) : pv a = a ↔ l = [] := by
  constructor
  · intro hp
    by_contra hl
    have hlast := h.prev_head
    rw [hp, List.getLast?_cons_of_ne_nil hl] at hlast
    exact (List.nodup_cons.mp h.nodup).1 (List.mem_of_getLast? hlast)
  · rintro rfl
    exact h.bwd

/-- The nodes on both sides of a node are the same in a ring of two nodes, and of one. -/
theorem next_eq_prev (h : DoubleRing nx pv (a :: l)) : nx a = pv a ↔ l.length ≤ 1 := by
  cases l with
  | nil => exact iff_of_true (h.next_eq_self.mpr rfl |>.trans (h.prev_eq_self.mpr rfl).symm) (by simp)
  | cons b l =>
    rw [h.fwd.second]
    have hlast := h.prev_head
    rw [List.getLast?_cons_cons] at hlast
    cases l with
    | nil => exact iff_of_true (Option.some.inj hlast) (by simp)
    | cons c l =>
      rw [List.getLast?_cons_cons] at hlast
      refine iff_of_false (fun hb => ?_) (by simp)
      have hnd := (List.nodup_cons.mp h.nodup).2
      exact (List.nodup_cons.mp hnd).1 (hb ▸ List.mem_of_getLast? hlast)

variable [DecidableEq κ]

/-- A node is inserted before the first one, which is to say, behind the last one. -/
theorem insert_head (h : DoubleRing nx pv (b :: l)) (hi : i ∉ b :: l) :
    DoubleRing (Function.update (Function.update nx i b) (pv b) i)
      (Function.update (Function.update pv i (pv b)) b i) (b :: l ++ [i]) := by
  obtain ⟨k, hk⟩ := List.getLast?_eq_some_iff.mp h.prev_head
  refine ⟨?_, ?_, ?_⟩
  · have hfwd := h.fwd
    have hnd := h.nodup
    rw [hk] at hfwd hnd hi
    have hb : nx (pv b) = b := by
      have hhead := hfwd.head?
      rw [← hk] at hhead
      exact (Option.some.inj hhead).symm
    have hs := hfwd.snoc hnd hi
    rw [hb] at hs
    rw [hk, List.append_assoc]
    exact hs
  · have hs : Ring pv (l.reverse ++ [b]) := by
      rw [← List.reverse_cons]
      exact h.bwd
    have hnd : (l.reverse ++ [b]).Nodup := by
      rw [← List.reverse_cons]
      exact List.nodup_reverse.mpr h.nodup
    have hs := hs.snoc hnd (by simpa [or_comm] using hi)
    have hr : Ring (Function.update (Function.update pv i (pv b)) b i) ((b :: l).reverse ++ [i]) := by
      simpa using hs
    simpa using hr.rotate
  · exact List.nodup_append.mpr ⟨h.nodup, List.nodup_singleton i, fun x hx y hy hxy =>
      hi (by rw [List.mem_singleton.mp hy] at hxy; exact hxy ▸ hx)⟩

/-- A node is inserted before the node `b`. -/
theorem insert (h : DoubleRing nx pv (l₁ ++ b :: l₂)) (hi : i ∉ l₁ ++ b :: l₂) :
    DoubleRing (Function.update (Function.update nx i b) (pv b) i)
      (Function.update (Function.update pv i (pv b)) b i) (l₁ ++ i :: b :: l₂) := by
  have hb : DoubleRing nx pv (b :: (l₂ ++ l₁)) := h.rotate
  have hr := hb.insert_head fun hm => hi (by simpa [or_assoc, or_comm, or_left_comm] using hm)
  rw [show b :: (l₂ ++ l₁) ++ [i] = (b :: l₂) ++ (l₁ ++ [i]) by simp] at hr
  simpa using hr.rotate

/-- The last node is taken out, and its own links stay as they are. -/
theorem erase_last (h : DoubleRing nx pv (l ++ [i])) (hl : l ≠ []) :
    DoubleRing (Function.update nx (pv i) (nx i)) (Function.update pv (nx i) (pv i)) l := by
  obtain ⟨k, t, rfl⟩ := (List.eq_nil_or_concat' l).resolve_left hl
  have hpi : pv i = t := by
    have hb := h.bwd
    rw [List.reverse_append, List.reverse_append] at hb
    exact hb.second
  refine ⟨?_, ?_, (List.nodup_append.mp h.nodup).1⟩
  · have hf := h.fwd
    have hnd := h.nodup
    rw [List.append_assoc] at hf hnd
    rw [hpi]
    exact hf.unsnoc hnd
  · obtain ⟨b, m, hm⟩ := List.exists_cons_of_ne_nil hl
    have hf := h.fwd
    have hnd := h.nodup
    have hb := h.bwd
    rw [hm] at hf hnd hb ⊢
    have hni : nx i = b := hf.last
    have hr : Ring pv (m.reverse ++ [b, i]) := by
      have hr : Ring pv ([i] ++ (b :: m).reverse) := by simpa using hb
      simpa using hr.rotate
    have hrnd : (m.reverse ++ [b, i]).Nodup := by
      have hr := List.nodup_reverse.mpr hnd
      rw [List.reverse_append] at hr
      simpa using List.nodup_append_comm.mp hr
    rw [hni, List.reverse_cons]
    exact hr.unsnoc hrnd

/-- The node `i` is taken out. -/
theorem erase (h : DoubleRing nx pv (l₁ ++ i :: l₂)) (hl : l₁ ++ l₂ ≠ []) :
    DoubleRing (Function.update nx (pv i) (nx i)) (Function.update pv (nx i) (pv i)) (l₁ ++ l₂) := by
  have hr : DoubleRing nx pv ((l₂ ++ l₁) ++ [i]) := by
    have hsplit : DoubleRing nx pv ((l₁ ++ [i]) ++ l₂) := by simpa using h
    simpa using hsplit.rotate
  refine (hr.erase_last fun hnil => hl ?_).rotate
  rw [List.append_eq_nil_iff] at hnil ⊢
  exact hnil.symm

end DoubleRing

end Foundations
