import Libdill.Foundations.Ring
import Mathlib.Data.List.Perm.Basic

/-!
# Blocks kept for later use

Blocks of memory are allocated, used and kept for later use; those that are kept are linked to each
other by nodes inside of the blocks themselves, in a ring with a head. `Pool` says that a memory
with the links `next` is in such a state: `heap` are the blocks that are allocated, `out` those in
use and `bs` those kept.

* `Pool.take`, `Pool.put`: a block leaves the ring, or is put there.
* `Pool.add`, `Pool.release`: a block is allocated, or freed.
* `Pool.store`: the links of the other nodes do not matter.
-/

namespace Foundations

variable {κ β : Type*} {node : β → κ} {next : κ → κ} {head : κ} {heap out bs : List β} {b : β}

/-- Every block is in use or kept, and those that are kept are in the ring. -/
structure Pool (node : β → κ) (next : κ → κ) (head : κ) (heap out bs : List β) : Prop where
  ring : Ring next (head :: bs.map node)
  split : heap.Perm (out ++ bs)
  nodup : (head :: heap.map node).Nodup

namespace Pool

/-- No block is kept. -/
theorem empty (h : next head = head) : Pool node next head [] [] [] :=
  ⟨h, .nil, List.nodup_singleton _⟩

theorem heap_nodup (h : Pool node next head heap out bs) : heap.Nodup :=
  (List.nodup_cons.mp h.nodup).2.of_map node

theorem mem_heap (h : Pool node next head heap out bs) (hb : b ∈ bs) : b ∈ heap :=
  h.split.mem_iff.mpr (List.mem_append_right _ hb)

theorem out_mem (h : Pool node next head heap out bs) (hb : b ∈ out) : b ∈ heap :=
  h.split.mem_iff.mpr (List.mem_append_left _ hb)

/-- A block in use is not kept. -/
theorem out_notMem (h : Pool node next head heap out bs) (hb : b ∈ out) : b ∉ bs := fun hm =>
  (List.nodup_append.mp (h.split.nodup_iff.mp h.heap_nodup)).2.2 b hb b hm rfl

theorem out_nodup (h : Pool node next head heap out bs) : out.Nodup :=
  (List.nodup_append.mp (h.split.nodup_iff.mp h.heap_nodup)).1

theorem node_ne (h : Pool node next head heap out bs) (hb : b ∈ heap) : node b ≠ head := fun he =>
  (List.nodup_cons.mp h.nodup).1 (he ▸ List.mem_map_of_mem hb)

theorem node_inj (h : Pool node next head heap out bs) {b' : β} (hb : b ∈ heap) (hb' : b' ∈ heap)
    (he : node b = node b') : b = b' :=
  List.inj_on_of_nodup_map (List.nodup_cons.mp h.nodup).2 hb hb' he

theorem ring_nodup (h : Pool node next head heap out bs) : (head :: bs.map node).Nodup := by
  have hn := List.nodup_cons.mp h.nodup
  refine List.nodup_cons.mpr ⟨fun hm => ?_, ?_⟩
  · obtain ⟨b, hb, he⟩ := List.mem_map.mp hm
    exact h.node_ne (h.mem_heap hb) he
  · have hmap := (h.split.map node).nodup_iff.mp hn.2
    rw [List.map_append] at hmap
    exact (List.nodup_append.mp hmap).2.1

theorem eq_head_iff (h : Pool node next head heap out bs) : next head = head ↔ bs = [] := by
  rw [h.ring.next_eq_self (List.nodup_cons.mp h.ring_nodup).1, List.map_eq_nil_iff]

theorem perm (h : Pool node next head heap out bs) {out' : List β} (hp : out.Perm out') :
    Pool node next head heap out' bs :=
  { h with split := h.split.trans (hp.append_right bs) }

variable [DecidableEq κ]

/-- The first block of the ring is taken out and used. -/
theorem take (h : Pool node next head heap out (b :: bs)) :
    next head = node b ∧
      Pool node (Function.update next head (next (node b))) head heap (b :: out) bs where
  left := h.ring.second
  right :=
    { ring := h.ring.pop h.ring_nodup
      split := h.split.trans List.perm_middle
      nodup := h.nodup }

/-- The link of a node that is not in the ring does not matter. -/
theorem store (h : Pool node next head heap out bs) {p : κ} (hp : p ∉ head :: bs.map node) (v : κ) :
    Pool node (Function.update next p v) head heap out bs :=
  { h with ring := h.ring.congr fun _ hx => Function.update_of_ne (ne_of_mem_of_not_mem hx hp) _ _ }

variable [DecidableEq β]

/-- A block that was in use is put into the ring. -/
theorem put (h : Pool node next head heap out bs) (hb : b ∈ out) :
    Pool node (Function.update (Function.update next (node b) (next head)) head (node b)) head heap
      (out.erase b) (b :: bs) where
  ring := by
    refine h.ring.push h.ring_nodup fun hm => ?_
    rcases List.mem_cons.mp hm with he | hm
    · exact h.node_ne (h.out_mem hb) he
    · obtain ⟨b', hb', he⟩ := List.mem_map.mp hm
      have heq := h.node_inj (h.mem_heap hb') (h.out_mem hb) he
      exact h.out_notMem hb (heq ▸ hb')
  split :=
    (h.split.trans ((List.perm_cons_erase hb).append_right bs)).trans List.perm_middle.symm
  nodup := h.nodup

omit [DecidableEq κ] in
/-- A block in use is freed. -/
theorem release (h : Pool node next head heap (b :: out) bs) :
    b ∈ heap ∧ Pool node next head (heap.erase b) out bs where
  left := h.out_mem List.mem_cons_self
  right :=
    { ring := h.ring
      split :=
        ((List.perm_cons_erase (h.out_mem List.mem_cons_self)).symm.trans h.split).cons_inv
      nodup := ((List.erase_sublist.map node).cons_cons head).nodup h.nodup }

omit [DecidableEq κ] [DecidableEq β] in
/-- A new block is allocated, and used. -/
theorem add (h : Pool node next head heap out bs) (hb : node b ∉ head :: heap.map node) :
    Pool node next head (b :: heap) (b :: out) bs where
  ring := h.ring
  split := h.split.cons b
  nodup := by
    rw [List.mem_cons, not_or] at hb
    have hn := List.nodup_cons.mp h.nodup
    rw [List.map_cons, List.nodup_cons, List.nodup_cons, List.mem_cons, not_or]
    exact ⟨⟨Ne.symm hb.1, hn.1⟩, hb.2, hn.2⟩

end Pool

end Foundations
