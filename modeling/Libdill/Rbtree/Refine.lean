import Libdill.Foundations.SortedInsert
import Libdill.Rbtree.Erase

/-!
# The tree is a queue

What the tree is for: a list of entries, sorted by key, those of one key in the order of their arrival.
`Op.call` is a call of `dill_rbtree_insert` or `dill_rbtree_erase` on the memory, `Op.effect` what it
does to the list.

`Inv` is the relation between the two; `Inv.call` is its step lemma. `rbtree_refines_list` is the
result about every sequence of calls.
-/

namespace Libdill.Rbtree

open Foundations CTree Mem

/-- An item in the queue, with the number of the call that put it there. -/
structure Entry (ι : Type) where
  item : ι
  val : ℤ
  since : ℕ
  deriving DecidableEq, Repr

/-- A smaller key, or the same one and an earlier arrival. -/
def Entry.Before {ι : Type} (a b : Entry ι) : Prop := a.val < b.val ∨ a.val = b.val ∧ a.since < b.since

/-- A call to change the tree. -/
inductive Op (ι : Type)
  | insert (val : ℤ) (item : ι)
  | erase (item : ι)

variable {ι : Type} [DecidableEq ι] {m m' : Mem ι} {l : List (Entry ι)} {n now : ℕ}

namespace Op

/-- The call on the memory. -/
def call (n : ℕ) (m : Mem ι) : Op ι → Option (Mem ι)
  | .insert val item => m.insert n val item
  | .erase item => m.erase n item

/-- The call number `now` on the list. -/
def effect (now : ℕ) (l : List (Entry ι)) : Op ι → List (Entry ι)
  | .insert val item => insertAfter Entry.val ⟨item, val, now⟩ l
  | .erase item => l.filter fun e => e.item ≠ item

/-- An item that is inserted is not in the tree, one that is erased is. -/
def Allowed (l : List (Entry ι)) : Op ι → Prop
  | .insert _ item => item ∉ l.map Entry.item
  | .erase item => item ∈ l.map Entry.item

instance (l : List (Entry ι)) (op : Op ι) : Decidable (op.Allowed l) :=
  match op with
  | .insert _ _ => inferInstanceAs (Decidable (¬_))
  | .erase _ => inferInstanceAs (Decidable (_ ∈ _))

end Op

/-- A sequence of calls. -/
def calls (n : ℕ) : Mem ι → List (Op ι) → Option (Mem ι)
  | m, [] => some m
  | m, op :: ops => (op.call n m).bind fun m => calls n m ops

/-- The list after a sequence of calls. -/
def queue : ℕ → List (Entry ι) → List (Op ι) → List (Entry ι)
  | _, l, [] => l
  | now, l, op :: ops => queue (now + 1) (op.effect now l) ops

/-- Each call of the sequence is allowed. -/
def Legal : ℕ → List (Entry ι) → List (Op ι) → Prop
  | _, _, [] => True
  | now, l, op :: ops => op.Allowed l ∧ Legal (now + 1) (op.effect now l) ops

instance decidableLegal : ∀ (now : ℕ) (l : List (Entry ι)) (ops : List (Op ι)),
    Decidable (Legal now l ops)
  | _, _, [] => inferInstanceAs (Decidable True)
  | now, l, op :: ops =>
    haveI := decidableLegal (now + 1) (op.effect now l) ops
    inferInstanceAs (Decidable (_ ∧ _))

/-- The loop `while(it) it = dill_rbtree_next(tree, it)` of a user, with the items it sees. -/
def itemsFrom (n : ℕ) (m : Mem ι) : ℕ → Option ι → Option (List ι)
  | _, none => some []
  | 0, some _ => none
  | k + 1, some it => do
    let next ← m.next n it
    let its ← itemsFrom n m k next
    some (it :: its)

/-- The items from `dill_rbtree_first` on. -/
def items (n : ℕ) (m : Mem ι) : Option (List ι) := (m.first n).bind (itemsFrom n m n)

/-- What the tree has to do with the list. -/
structure Refines (n : ℕ) (m : Mem ι) (l : List (Entry ι)) : Prop where
  /-- A red-black search tree with the right parent pointers, and the items of it in order. -/
  tree : ∃ t k, Sub m .root ((m .root).child .left) t ∧ RB false k t ∧ t.Bst (key m) ∧
    t.toList = l.map Entry.item
  keys : ∀ e ∈ l, key m e.item = e.val
  /-- The head of the list is the oldest item with the smallest key. -/
  ordered : l.Pairwise Entry.Before
  nodup : (l.map Entry.item).Nodup
  first : m.first n = some (l.head?.map Entry.item)
  /-- Every item is seen once. -/
  items : items n m = some (l.map Entry.item)

/-! ## The invariant -/

/-- The memory holds the list after `now` calls. -/
structure Inv (now : ℕ) (m : Mem ι) (l : List (Entry ι)) : Prop where
  tree : ∃ t k, Zip m .root ((m .root).child .left) t [] ∧ RB false k t ∧
    t.toList = l.map Entry.item
  keys : ∀ e ∈ l, key m e.item = e.val
  ordered : l.Pairwise Entry.Before
  since : ∀ e ∈ l, e.since < now

theorem inv_init (m : Mem ι) : Inv 0 m.init [] := by
  refine ⟨⟨.leaf, 0, ⟨⟨?_, ?_, ?_⟩, ?_, ⟨rfl, rfl⟩, List.nodup_nil⟩, .leaf, rfl⟩, nofun, .nil, nofun⟩
  · simp [Mem.init]
  · simp [Mem.init]
  · simp [Mem.init]
  · show (m.init .root).child .left = .nil
    simp [Mem.init]

omit [DecidableEq ι] in
theorem Inv.sorted (h : Inv now m l) : Sorted m (l.map Entry.item) := by
  refine List.pairwise_map.2 (h.ordered.imp_of_mem fun {a b} ha hb hab => ?_)
  have hle : a.val ≤ b.val := by
    rcases hab with hlt | ⟨heq, -⟩
    · omega
    · omega
  rw [h.keys a ha, h.keys b hb]
  exact hle

omit [DecidableEq ι] in
theorem Inv.nodup (h : Inv now m l) : (l.map Entry.item).Nodup := by
  obtain ⟨t, k, hz, -, hl⟩ := h.tree
  rw [← hl]
  exact hz.nodup

omit [DecidableEq ι] in
/-- A new entry behind those with a key at most its own. -/
theorem ordered_insert {l r : List (Entry ι)} {e : Entry ι} (h : (l ++ r).Pairwise Entry.Before)
    (hs : ∀ b ∈ l ++ r, b.since < e.since) (hl : ∀ b ∈ l, b.val ≤ e.val)
    (hr : ∀ b ∈ r, e.val < b.val) : (l ++ e :: r).Pairwise Entry.Before := by
  rw [List.pairwise_append] at h
  obtain ⟨hll, hrr, hlr⟩ := h
  refine List.pairwise_append.2 ⟨hll, List.pairwise_cons.2 ⟨fun b hb => .inl (hr b hb), hrr⟩, ?_⟩
  intro a ha b hb
  rcases List.mem_cons.1 hb with rfl | hb
  · have hle := hl a ha
    have hlt := hs a (by simp [ha])
    unfold Entry.Before
    omega
  · exact hlr a ha b hb

theorem Inv.insert {val : ℤ} {z : ι} (h : Inv now m l) (hz : z ∉ l.map Entry.item)
    (hn : l.length ≤ n) :
    ∃ m', m.insert n val z = some m' ∧ Inv (now + 1) m' (insertAfter Entry.val ⟨z, val, now⟩ l) := by
  obtain ⟨t, k, hzip, hrb, hl⟩ := h.tree
  have hlen : t.toList.length ≤ n := by
    rw [hl, List.length_map]
    exact hn
  obtain ⟨m', t', k', a, b, hm', hzip', hrb', hab, hl', ha, hb, hkz, hk⟩ :=
    insert_spec hzip hrb (by rw [hl]; exact h.sorted) (by rw [hl]; exact hz) hlen val
  obtain ⟨la, lb, rfl, rfl, rfl⟩ := List.map_eq_append_iff.1 (hl.symm.trans hab)
  have hla : ∀ e ∈ la, e.val ≤ val := fun e he => by
    rw [← h.keys e (by simp [he])]
    exact ha e.item (List.mem_map_of_mem he)
  have hlb : ∀ e ∈ lb, val < e.val := fun e he => by
    rw [← h.keys e (by simp [he])]
    exact hb e.item (List.mem_map_of_mem he)
  refine ⟨m', hm', ?_⟩
  rw [insertAfter_append hla hlb]
  refine ⟨⟨t', k', hzip', hrb', ?_⟩, fun e he => ?_, ordered_insert h.ordered h.since hla hlb,
    fun e he => ?_⟩
  · rw [hl']
    simp
  · rw [List.mem_append, List.mem_cons, or_left_comm, ← List.mem_append] at he
    rcases he with rfl | he
    · exact hkz
    · have hne : e.item ≠ z := by
        rintro rfl
        exact hz (List.mem_map_of_mem he)
      rw [hk e.item hne, h.keys e he]
  · rw [List.mem_append, List.mem_cons, or_left_comm, ← List.mem_append] at he
    rcases he with rfl | he
    · exact Nat.lt_succ_self now
    · have hlt := h.since e he
      omega

/-- Without repetitions, one entry is filtered out. -/
theorem filter_item {l r : List (Entry ι)} {e : Entry ι}
    (h : ((l ++ e :: r).map Entry.item).Nodup) :
    ((l ++ e :: r).filter fun b => b.item ≠ e.item) = l ++ r := by
  rw [List.map_append, List.map_cons, List.nodup_middle, List.nodup_cons, ← List.map_append] at h
  have hne : ∀ b ∈ l ++ r, b.item ≠ e.item := fun b hb heq =>
    h.1 (heq ▸ List.mem_map_of_mem hb)
  rw [List.filter_append, List.filter_cons_of_neg (by simp), ← List.filter_append]
  exact List.filter_eq_self.2 fun b hb => by simpa using hne b hb

theorem Inv.erase {z : ι} (h : Inv now m l) (hz : z ∈ l.map Entry.item) (hn : l.length ≤ n) :
    ∃ m', m.erase n z = some m' ∧ Inv (now + 1) m' (l.filter fun e => e.item ≠ z) := by
  obtain ⟨t, k, hzip, hrb, hl⟩ := h.tree
  have hlen : t.toList.length ≤ n := by
    rw [hl, List.length_map]
    exact hn
  obtain ⟨e, he, rfl⟩ := List.mem_map.1 hz
  obtain ⟨la, lb, rfl⟩ := List.append_of_mem he
  have hcut : t.toList = la.map Entry.item ++ e.item :: lb.map Entry.item := by
    rw [hl]
    simp
  obtain ⟨m', t', k', hm', hzip', hrb', hl', hval⟩ := erase_spec hzip hrb hcut hlen
  refine ⟨m', hm', ⟨t', k', hzip', hrb', ?_⟩, fun b hb => ?_, h.ordered.filter _, fun b hb => ?_⟩
  · rw [hl', filter_item h.nodup, List.map_append]
  · rw [key, hval]
    exact h.keys b (List.mem_filter.1 hb).1
  · have hlt := h.since b (List.mem_filter.1 hb).1
    omega

theorem length_effect (now : ℕ) (l : List (Entry ι)) (op : Op ι) :
    (op.effect now l).length ≤ l.length + 1 := by
  cases op with
  | insert val item => exact (insertAfter_perm Entry.val _ l).length_eq.le
  | erase item =>
    have hle := List.length_filter_le (fun e : Entry ι => e.item ≠ item) l
    exact Nat.le_succ_of_le hle

/-- One call. -/
theorem Inv.call {op : Op ι} (h : Inv now m l) (hop : op.Allowed l) (hn : l.length ≤ n) :
    ∃ m', op.call n m = some m' ∧ Inv (now + 1) m' (op.effect now l) := by
  cases op with
  | insert val item => exact h.insert hop hn
  | erase item => exact h.erase hop hn

/-- A sequence of calls. -/
theorem Inv.calls {ops : List (Op ι)} (h : Inv now m l) (hops : Legal now l ops)
    (hn : l.length + ops.length ≤ n) :
    ∃ m', calls n m ops = some m' ∧ Inv (now + ops.length) m' (queue now l ops) := by
  induction ops generalizing now m l with
  | nil => exact ⟨m, rfl, h⟩
  | cons op ops ih =>
    obtain ⟨hop, hops⟩ := hops
    rw [List.length_cons] at hn
    obtain ⟨m₁, hm₁, h₁⟩ := h.call (n := n) hop (by omega)
    have hlen := length_effect now l op
    obtain ⟨m', hm', h'⟩ := ih h₁ hops (by omega)
    refine ⟨m', ?_, ?_⟩
    · rw [Rbtree.calls, hm₁]
      exact hm'
    · rw [List.length_cons, ← Nat.add_assoc, Nat.add_right_comm]
      exact h'

theorem length_queue (now : ℕ) (l : List (Entry ι)) (ops : List (Op ι)) :
    (queue now l ops).length ≤ l.length + ops.length := by
  induction ops generalizing now l with
  | nil => exact Nat.le_refl _
  | cons op ops ih =>
    have hlen := length_effect now l op
    have hq := ih (now + 1) (op.effect now l)
    rw [queue, List.length_cons]
    omega

/-! ## The items a user sees -/

theorem itemsFrom_spec {t : CTree ι} {a r : List ι} {k : ℕ}
    (h : Zip m .root ((m .root).child .left) t []) (ht : t.toList = a ++ r)
    (hn : t.toList.length ≤ n) (hk : r.length ≤ k) : itemsFrom n m k r.head? = some r := by
  induction r generalizing a k with
  | nil => cases k <;> rfl
  | cons z r ih =>
    cases k with
    | zero => cases hk
    | succ k =>
      have hnext := next_spec h ht hn
      have hrest := ih (a := a ++ [z]) (by rw [ht]; simp) (Nat.le_of_succ_le_succ hk)
      rw [List.head?_cons, itemsFrom, hnext]
      simp only [Option.bind_eq_bind, Option.bind_some, hrest]

theorem Inv.refines (h : Inv now m l) (hn : l.length ≤ n) : Refines n m l := by
  obtain ⟨t, k, hz, hrb, hl⟩ := h.tree
  have hlen : t.toList.length ≤ n := by
    rw [hl, List.length_map]
    exact hn
  have hfirst := first_spec hz hlen
  refine ⟨⟨t, k, hz.sub, hrb, bst_of_sorted ?_, hl⟩, h.keys, h.ordered, h.nodup, ?_, ?_⟩
  · rw [hl]
    exact h.sorted
  · rw [hfirst, hl, List.head?_map]
  · rw [items, hfirst, ← hl]
    exact itemsFrom_spec (a := []) hz rfl hlen hlen

/-- **The tree refines a sorted list**, for every sequence of calls from `dill_rbtree_init` on, however
long; the loops make no more turns than there are calls. -/
theorem rbtree_refines_list {ops : List (Op ι)} (m : Mem ι) (h : Legal 0 [] ops)
    (hn : ops.length ≤ n) :
    ∃ m', calls n m.init ops = some m' ∧ Refines n m' (queue 0 [] ops) := by
  obtain ⟨m', hm', hinv⟩ := (inv_init m).calls (n := n) h (by simpa using hn)
  have hlen := length_queue 0 [] ops
  refine ⟨m', hm', hinv.refines ?_⟩
  rw [List.length_nil] at hlen
  omega

/-- The calls of the test in the repository. -/
def testOps : List (Op ℕ) :=
  (List.range 10).map (fun i => .insert i i) ++ [.erase 0, .erase 4, .erase 5, .erase 9]

theorem rbtree_refines_list_test : (queue 0 [] testOps).map Entry.item = [1, 2, 3, 6, 7, 8] ∧
    ∃ m', calls 14 (Mem.init fun _ => ⟨true, fun _ => .root, .root, 0⟩) testOps = some m' ∧
      Refines 14 m' (queue 0 [] testOps) :=
  ⟨by decide, rbtree_refines_list _ (by decide) (by decide)⟩

end Libdill.Rbtree
