import Libdill.Foundations.Pool
import Libdill.Utils.Queues
import Mathlib.Data.Int.Notation
import Mathlib.Data.List.Pairwise

/-!
# The cache of stacks

`stack.c` hands out stacks for coroutines and keeps up to 64 of those that were given back in a
cache, a `dill_slist` whose nodes lie at the top of the stacks themselves. Blocks come from
`posix_memalign` with a guard page below the stack, or from `malloc` when there are no guard pages;
whether they are there, and how long a page is, is left open. A coroutine that ends frees the stack
it runs on, which is why `dill_freestack` never gives the stack it is passed back to the allocator.

* `Stacks.Inv`: every block is either handed out or in the cache.
* `stacks_safe`: what this means for the stacks, for guard pages and for the end of the program.
-/

namespace Libdill.Sched

open Foundations Libdill.Utils

/-- How the library was compiled, and the page size of the system. -/
structure StackConfig where
  /-- `(HAVE_POSIX_MEMALIGN && HAVE_MPROTECT) & !defined DILL_NOGUARD`. -/
  guard : Bool
  page : ℕ
  page_pos : 0 < page

/-- `dill_stack_size`. -/
def stackSize : ℕ := 256 * 1024

/-- `dill_max_cached_stacks`. -/
def maxCachedStacks : ℕ := 64

/-- `sizeof(struct dill_slist)`. -/
def slistSize : ℕ := 8

/-- `dill_align`. -/
def align (val unit : ℕ) : ℕ := if val % unit ≠ 0 then val + unit - val % unit else val

namespace StackConfig

variable (C : StackConfig)

/-- The bytes that are allocated for a stack. -/
def blockSize : ℕ := if C.guard then align stackSize C.page + C.page else stackSize

/-- The stack in the block at `ptr`: a pointer to its top. -/
def top (ptr : ℕ) : ℕ := if C.guard then ptr + C.page + stackSize else ptr + stackSize

/-- The block of the stack with this top, as it is computed to free it. -/
def base (top : ℕ) : ℕ := if C.guard then top - stackSize - C.page else top - stackSize

/-- The node at the top of the stack in the block at `ptr`. -/
def node (ptr : ℕ) : ℕ := C.top ptr - slistSize

/-- Two blocks do not overlap. -/
def Apart (b b' : ℕ) : Prop := b + C.blockSize ≤ b' ∨ b' + C.blockSize ≤ b

end StackConfig

/-- Why the program would be stopped by the C library or the system. -/
inductive StackStop
  /-- `free` of a block that is not allocated. -/
  | badFree
  /-- `mprotect` on memory that is not allocated: an assertion fails. -/
  | badProtect
  /-- `mprotect` fails on a block that is to be freed, which the code asserts it does not. -/
  | protect
  /-- A loop would not end. -/
  | diverge
  deriving DecidableEq, Repr

/-- `struct dill_ctx_stack` and the memory: the links of the cached stacks, the blocks that are
allocated, and whether the first page of a block is inaccessible. `live` is history: the stacks
that are handed out. -/
structure Stacks where
  nodes : Nodes ℕ
  /-- The address of `ctx->cache`. -/
  cache : ℕ
  count : ℤ
  heap : List ℕ
  guarded : ℕ → Bool
  live : List ℕ

namespace Stacks

/-- Give a block back: make its guard page accessible again, and free it; `prot` tells whether
`mprotect` succeeds. -/
def release (C : StackConfig) (s : Stacks) (prot : Bool) (ptr : ℕ) : Except StackStop Stacks :=
  if ptr ∉ s.heap then .error (if C.guard then .badProtect else .badFree)
  else if C.guard && !prot then .error .protect
  else .ok { s with heap := s.heap.erase ptr, guarded := Function.update s.guarded ptr false }

/-- `dill_ctx_stack_init`. -/
def ctxInit (s : Stacks) : Stacks := { s with count := 0, nodes := s.nodes.slistInit s.cache }

/-- The loop of `dill_ctx_stack_term`; the number bounds its turns, and `prot` tells in which of
them `mprotect` succeeds. -/
def ctxTerm (C : StackConfig) (prot : ℕ → Bool) : ℕ → Stacks → Except StackStop Stacks
  | n, s =>
    let p := s.nodes.slistPop s.cache
    let s := { s with nodes := p.2 }
    if p.1 = s.cache then .ok s
    else
      match n with
      | 0 => .error .diverge
      | n + 1 => do
        let s ← s.release C (prot n) (C.base (p.1 + slistSize))
        ctxTerm C prot n s

/-- `dill_allocstack`: `mem` is the block that the allocator returns, if it does, and `prot` tells
whether `mprotect` succeeds. -/
def allocstack (C : StackConfig) (s : Stacks) (mem : Option ℕ) (prot : Bool) : Option ℕ × Stacks :=
  if !s.nodes.slistEmpty s.cache then
    let p := s.nodes.slistPop s.cache
    let stack := p.1 + slistSize
    (some stack, { s with count := s.count - 1, nodes := p.2, live := stack :: s.live })
  else
    match mem with
    | none => (none, s)
    | some ptr =>
      -- without `mprotect` the block is freed again
      if C.guard && !prot then (none, s)
      else
        (some (C.top ptr), { s with
          heap := ptr :: s.heap
          guarded := Function.update s.guarded ptr C.guard
          live := C.top ptr :: s.live })

/-- `dill_freestack`. -/
def freestack (C : StackConfig) (s : Stacks) (stack : ℕ) (prot : Bool) :
    Except StackStop Stacks := do
  let item := stack - slistSize
  let s ←
    if s.count ≥ maxCachedStacks then
      let p := s.nodes.slistPop s.cache
      { s with nodes := p.2, count := s.count - 1 }.release C prot (C.base (p.1 + slistSize))
    else .ok s
  .ok { s with
    nodes := s.nodes.slistPush s.cache item
    count := s.count + 1
    live := s.live.erase stack }

/-- What happens to the stacks. -/
inductive Op
  | alloc (mem : Option ℕ) (prot : Bool)
  | free (stack : ℕ) (prot : Bool)
  /-- The program stores to a word of its memory, be it on a stack or elsewhere. -/
  | store (p v : ℕ)

def step (C : StackConfig) (s : Stacks) : Op → Except StackStop Stacks
  | .alloc mem prot => .ok (s.allocstack C mem prot).2
  | .free stack prot => s.freestack C stack prot
  | .store p v => .ok { s with nodes := s.nodes.setNext p v }

/-- The allocator returns memory that is in use for nothing else, a stack is freed by who has it,
and the program stores neither to `ctx->cache` nor to stacks that were given back. -/
def Allowed (C : StackConfig) (s : Stacks) : Op → Prop
  | .alloc mem _ => ∀ ptr, mem = some ptr → (∀ b ∈ s.heap, C.Apart ptr b) ∧
      (s.cache + slistSize ≤ ptr ∨ ptr + C.blockSize ≤ s.cache)
  | .free stack _ => stack ∈ s.live
  | .store p _ => p ≠ s.cache ∧
      ∀ b ∈ s.heap, b ≤ p → p < b + C.blockSize → C.top b ∈ s.live

/-- No stack has been allocated yet. -/
def IsInit (s : Stacks) : Prop := ∃ s₀ : Stacks, s₀.heap = [] ∧ s₀.live = [] ∧ s = s₀.ctxInit

end Stacks

/-! ## The layout of a block -/

theorem le_align {val unit : ℕ} (hu : 0 < unit) : val ≤ align val unit := by
  rw [align]
  split
  · have := Nat.mod_lt val hu
    omega
  · exact Nat.le_refl _

namespace StackConfig

variable {C : StackConfig} {b b' t : ℕ}

theorem base_top : C.base (C.top b) = b := by
  unfold base top
  split <;> omega

theorem node_add : C.node b + slistSize = C.top b := by
  unfold node top slistSize stackSize
  split <;> omega

/-- The stack is inside of its block, above the guard page. -/
theorem top_inside : b + stackSize ≤ C.top b ∧ C.top b ≤ b + C.blockSize ∧
    (C.guard = true → b + C.page + stackSize = C.top b) := by
  have ha := @le_align stackSize C.page C.page_pos
  unfold top blockSize
  split
  · exact ⟨by omega, by omega, fun _ => rfl⟩
  · rename_i hg
    exact ⟨Nat.le_refl _, Nat.le_refl _, fun h => absurd h hg⟩

theorem node_inside : b ≤ C.node b ∧ C.node b + slistSize ≤ b + C.blockSize := by
  have h := @top_inside C b
  have hn := @node_add C b
  unfold stackSize at h
  unfold slistSize at hn ⊢
  omega

theorem apart_comm : C.Apart b b' ↔ C.Apart b' b := or_comm

instance symm_apart : Std.Symm C.Apart := ⟨fun _ _ => apart_comm.mp⟩

theorem Apart.ne (h : C.Apart b b') : b ≠ b' := by
  have hpos := @node_inside C b
  unfold slistSize at hpos
  rintro rfl
  rcases h with h | h <;> omega

theorem Apart.node_ne (h : C.Apart b b') : C.node b ≠ C.node b' := by
  have h₁ := @node_inside C b
  have h₂ := @node_inside C b'
  unfold slistSize at h₁ h₂
  rcases h with h | h <;> omega

end StackConfig

namespace Stacks

variable {C : StackConfig} {s s' : Stacks} {b ptr t : ℕ} {bs L : List ℕ}

/-- **The invariant.** The cache holds the blocks `bs`, and every block is there or handed out. -/
structure Inv (C : StackConfig) (s : Stacks) (bs : List ℕ) : Prop where
  pool : Pool C.node s.nodes.next s.cache s.heap (s.live.map C.base) bs
  count : s.count = bs.length
  room : bs.length ≤ maxCachedStacks
  tops : ∀ t ∈ s.live, C.top (C.base t) = t
  apart : s.heap.Pairwise C.Apart
  head : ∀ b ∈ s.heap, s.cache + slistSize ≤ b ∨ b + C.blockSize ≤ s.cache
  guarded : ∀ b ∈ s.heap, s.guarded b = C.guard

theorem Inv.base_mem (h : Inv C s bs) (ht : t ∈ s.live) : C.base t ∈ s.heap :=
  h.pool.out_mem (List.mem_map_of_mem ht)

/-! ## Taking a stack from the cache, putting one there, and freeing one -/

/-- The first cached stack is handed out. -/
theorem Inv.take (h : Inv C s (b :: bs)) :
    (s.nodes.slistPop s.cache).1 = C.node b ∧
      Inv C { s with count := s.count - 1, nodes := (s.nodes.slistPop s.cache).2,
                     live := C.top b :: s.live } bs := by
  obtain ⟨hp, hr⟩ := h.pool.take
  refine ⟨hp, { h with pool := ?_, count := ?_, room := Nat.le_of_succ_le h.room, tops := ?_ }⟩
  · rw [List.map_cons, StackConfig.base_top]
    change Pool C.node (Function.update s.nodes.next s.cache (s.nodes.next (s.nodes.next s.cache)))
      _ _ _ _
    rw [hp]
    exact hr
  · change s.count - 1 = _
    rw [h.count, List.length_cons]
    omega
  · intro t ht
    rcases List.mem_cons.mp ht with rfl | ht
    · rw [StackConfig.base_top]
    · exact h.tops t ht

theorem map_base_erase (ht : t ∈ s.live) :
    ((s.live.erase t).map C.base).Perm ((s.live.map C.base).erase (C.base t)) := by
  have hp := (List.perm_cons_erase ht).map C.base
  rw [List.map_cons] at hp
  exact (hp.symm.trans (List.perm_cons_erase (List.mem_map_of_mem ht))).cons_inv

/-- A stack that was handed out is put into the cache. -/
theorem Inv.put (h : Inv C s bs) (ht : t ∈ s.live) (hroom : bs.length < maxCachedStacks) :
    Inv C { s with nodes := s.nodes.slistPush s.cache (t - slistSize), count := s.count + 1,
                   live := s.live.erase t } (C.base t :: bs) := by
  have hnode : t - slistSize = C.node (C.base t) := by rw [StackConfig.node, h.tops t ht]
  have hput := h.pool.put (List.mem_map_of_mem ht)
  refine { h with pool := ?_, count := ?_, room := hroom, tops := ?_ }
  · rw [hnode]
    exact hput.perm (map_base_erase ht).symm
  · change s.count + 1 = _
    rw [h.count, List.length_cons]
    omega
  · exact fun t' ht' => h.tops t' (List.mem_of_mem_erase ht')

/-- The block is free again. -/
def released (s : Stacks) (ptr : ℕ) : Stacks :=
  { s with heap := s.heap.erase ptr, guarded := Function.update s.guarded ptr false }

theorem release_eq (hb : ptr ∈ s.heap) (prot : Bool) :
    s.release C prot ptr = if C.guard && !prot then .error .protect else .ok (s.released ptr) := by
  rw [release, if_neg (not_not_intro hb)]
  rfl

/-- A stack that was handed out is freed. -/
theorem Inv.release (h : Inv C s bs) (hl : s.live = C.top b :: L) :
    b ∈ s.heap ∧ Inv C { s.released b with live := L } bs := by
  have hpool := h.pool
  rw [hl, List.map_cons, StackConfig.base_top] at hpool
  obtain ⟨hb, hrel⟩ := hpool.release
  have hsub : ∀ x ∈ s.heap.erase b, x ∈ s.heap := fun x hx => List.mem_of_mem_erase hx
  refine ⟨hb, hrel, h.count, h.room, fun t ht => ?_, h.apart.sublist List.erase_sublist,
    fun x hx => h.head x (hsub x hx), fun x hx => ?_⟩
  · exact h.tops t (by rw [hl]; exact List.mem_cons_of_mem _ ht)
  · have hne : x ≠ b := by
      rintro rfl
      exact h.pool.heap_nodup.not_mem_erase hx
    exact (Function.update_of_ne hne _ _).trans (h.guarded x (hsub x hx))

/-- A new block is allocated, and its stack handed out. -/
theorem Inv.add (h : Inv C s bs) (hap : ∀ b ∈ s.heap, C.Apart ptr b)
    (hhead : s.cache + slistSize ≤ ptr ∨ ptr + C.blockSize ≤ s.cache) :
    Inv C { s with heap := ptr :: s.heap, guarded := Function.update s.guarded ptr C.guard,
                   live := C.top ptr :: s.live } bs where
  pool := by
    rw [List.map_cons, StackConfig.base_top]
    refine h.pool.add fun hm => ?_
    rcases List.mem_cons.mp hm with he | hm
    · have hin := @StackConfig.node_inside C ptr
      unfold slistSize at hin hhead
      omega
    · obtain ⟨b, hb, he⟩ := List.mem_map.mp hm
      exact (hap b hb).node_ne he.symm
  count := h.count
  room := h.room
  tops t ht := by
    rcases List.mem_cons.mp ht with rfl | ht
    · rw [StackConfig.base_top]
    · exact h.tops t ht
  apart := List.pairwise_cons.mpr ⟨hap, h.apart⟩
  head b hb := by
    rcases List.mem_cons.mp hb with rfl | hb
    · exact hhead
    · exact h.head b hb
  guarded b hb := by
    rcases List.mem_cons.mp hb with rfl | hb
    · exact Function.update_self _ _ _
    · exact (Function.update_of_ne (hap b hb).ne.symm _ _).trans (h.guarded b hb)

/-! ## The functions -/

theorem Inv.empty_iff (h : Inv C s bs) : s.nodes.slistEmpty s.cache = true ↔ bs = [] := by
  rw [Nodes.slistEmpty, decide_eq_true_eq, h.pool.eq_head_iff]

/-- **`dill_allocstack`** hands out a cached stack if there is one. -/
theorem Inv.allocstack (h : Inv C s bs) {mem : Option ℕ} (prot : Bool)
    (ha : s.Allowed C (.alloc mem prot)) :
    ∃ bs', Inv C (s.allocstack C mem prot).2 bs' ∧ s.heap ⊆ (s.allocstack C mem prot).2.heap ∧
      ∀ t, (s.allocstack C mem prot).1 = some t → (s.allocstack C mem prot).2.live = t :: s.live := by
  cases bs with
  | nil =>
    have he := h.empty_iff.mpr rfl
    unfold Stacks.allocstack
    rw [he]
    cases mem with
    | none => exact ⟨[], h, List.Subset.refl _, nofun⟩
    | some ptr =>
      obtain ⟨hap, hhead⟩ := ha ptr rfl
      simp only [Bool.not_true, Bool.false_eq_true, if_false]
      split
      · exact ⟨[], h, List.Subset.refl _, nofun⟩
      · refine ⟨[], h.add hap hhead, List.subset_cons_self _ _, ?_⟩
        rintro t ⟨⟩
        rfl
  | cons b bs =>
    have he : s.nodes.slistEmpty s.cache = false := by
      rw [Bool.eq_false_iff, Ne, h.empty_iff]
      exact List.cons_ne_nil b bs
    obtain ⟨hp, htake⟩ := h.take
    unfold Stacks.allocstack
    rw [he]
    simp only [Bool.not_false, if_true, hp, StackConfig.node_add]
    refine ⟨bs, htake, List.Subset.refl _, ?_⟩
    rintro t ⟨⟩
    rfl

/-- **`dill_freestack`** keeps the stack it is passed, and frees another one when the cache is
full, unless an assertion fails. -/
theorem Inv.freestack (h : Inv C s bs) (ht : t ∈ s.live) (prot : Bool) :
    (prot = false ∧ s.freestack C t prot = .error .protect) ∨
    ∃ s' bs', s.freestack C t prot = .ok s' ∧ Inv C s' bs' ∧ C.base t ∈ bs' ∧
      s'.live = s.live.erase t := by
  by_cases hfull : s.count ≥ maxCachedStacks
  · -- the cache is not empty, so that there is another stack to be freed
    cases bs with
    | nil =>
      rw [h.count] at hfull
      exact absurd hfull (by decide)
    | cons b bs =>
      obtain ⟨hp, htake⟩ := h.take
      obtain ⟨hb, hrel⟩ := htake.release rfl
      have hroom : bs.length < maxCachedStacks := h.room
      rw [Stacks.freestack, if_pos hfull]
      simp only [hp, StackConfig.node_add, StackConfig.base_top]
      rw [release_eq (by exact hb)]
      by_cases hprot : (C.guard && !prot) = true
      · rw [if_pos hprot]
        rw [Bool.and_eq_true, Bool.not_eq_true'] at hprot
        exact .inl ⟨hprot.2, rfl⟩
      · rw [if_neg hprot]
        exact .inr ⟨_, _, rfl, hrel.put ht hroom, List.mem_cons_self, rfl⟩
  · have hroom : bs.length < maxCachedStacks := by
      rw [h.count] at hfull
      omega
    refine .inr ⟨_, _, ?_, h.put ht hroom, List.mem_cons_self, rfl⟩
    rw [Stacks.freestack, if_neg hfull]
    rfl

/-- **`dill_ctx_stack_term`** frees what is in the cache, unless an assertion fails. It leaves the
count as it is, so that the invariant holds in the loop only up to the count. -/
theorem ctxTerm_frees {c : ℤ} (h : Inv C { s with count := c } bs) (prot : ℕ → Bool) {n : ℕ}
    (hn : bs.length ≤ n) :
    ((∃ i < n, prot i = false) ∧ ctxTerm C prot n s = .error .protect) ∨
      ∃ s', ctxTerm C prot n s = .ok s' ∧ s'.heap.Perm (s.live.map C.base) := by
  induction bs generalizing s c n with
  | nil =>
    have hp : (s.nodes.slistPop s.cache).1 = s.cache := h.pool.eq_head_iff.mpr rfl
    have hheap : s.heap.Perm (s.live.map C.base ++ []) := h.pool.split
    rw [List.append_nil] at hheap
    refine .inr ⟨{ s with nodes := (s.nodes.slistPop s.cache).2 }, ?_, hheap⟩
    unfold Stacks.ctxTerm
    exact if_pos hp
  | cons b bs ih =>
    obtain ⟨hp, htake⟩ := h.take
    obtain ⟨hb, hrel⟩ := htake.release rfl
    have hne : C.node b ≠ s.cache := h.pool.node_ne hb
    cases n with
    | zero => cases hn
    | succ n =>
      have hrest := ih
        (s := ({ s with nodes := (s.nodes.slistPop s.cache).2 } : Stacks).released b)
        hrel (Nat.le_of_succ_le_succ hn)
      unfold Stacks.ctxTerm
      have hp : (s.nodes.slistPop s.cache).1 = C.node b := hp
      simp only [hp, if_neg hne, StackConfig.node_add, StackConfig.base_top]
      rw [release_eq (by exact hb)]
      by_cases hprot : (C.guard && !prot n) = true
      · rw [if_pos hprot]
        rw [Bool.and_eq_true, Bool.not_eq_true'] at hprot
        exact .inl ⟨⟨n, Nat.lt_succ_self n, hprot.2⟩, rfl⟩
      · rw [if_neg hprot]
        refine hrest.imp_left ?_
        rintro ⟨⟨i, hi, hfail⟩, he⟩
        exact ⟨⟨i, Nat.lt_succ_of_lt hi, hfail⟩, he⟩

theorem Inv.store (h : Inv C s bs) {p v : ℕ} (ha : s.Allowed C (.store p v)) :
    Inv C { s with nodes := s.nodes.setNext p v } bs := by
  refine { h with pool := h.pool.store (fun hm => ?_) v }
  rcases List.mem_cons.mp hm with he | hm
  · exact ha.1 he
  · obtain ⟨b, hb, rfl⟩ := List.mem_map.mp hm
    have hin := @StackConfig.node_inside C b
    unfold slistSize at hin
    have hlive := ha.2 b (h.pool.mem_heap hb) hin.1 (by omega)
    have hnot := h.pool.out_notMem (List.mem_map_of_mem hlive)
    rw [StackConfig.base_top] at hnot
    exact hnot hb

/-- One operation. -/
theorem Inv.step (h : Inv C s bs) {op : Op} (ha : s.Allowed C op) :
    ((∃ t, op = .free t false) ∧ s.step C op = .error .protect) ∨
      ∃ s' bs', s.step C op = .ok s' ∧ Inv C s' bs' ∧
        ∀ t prot, op = .free t prot → C.base t ∈ s'.heap := by
  cases op with
  | alloc mem prot =>
    obtain ⟨bs', hinv, -, -⟩ := h.allocstack prot ha
    exact .inr ⟨_, bs', rfl, hinv, nofun⟩
  | free t prot =>
    rcases h.freestack ha prot with ⟨rfl, he⟩ | ⟨s', bs', he, hinv, hb, -⟩
    · exact .inl ⟨⟨t, rfl⟩, he⟩
    · refine .inr ⟨s', bs', he, hinv, ?_⟩
      rintro t prot ⟨⟩
      exact hinv.pool.mem_heap hb
  | store p v => exact .inr ⟨_, bs, rfl, h.store ha, nofun⟩

theorem Inv.start (hs : s.IsInit) : Inv C s [] := by
  obtain ⟨⟨nodes, cache, count, heap, guarded, live⟩, rfl, rfl, rfl⟩ := hs
  exact ⟨.empty (Function.update_self _ _ _), rfl, Nat.zero_le _, nofun, .nil, nofun, nofun⟩

/-- The stacks that are handed out do not overlap. -/
theorem Inv.live_apart (h : Inv C s bs) :
    s.live.Pairwise fun t t' => t ≤ t' - stackSize ∨ t' ≤ t - stackSize := by
  have hp := (h.pool.split.pairwise_iff fun hab => StackConfig.apart_comm.mp hab).mp h.apart
  have hl := List.pairwise_map.mp (List.pairwise_append.mp hp).1
  refine hl.imp_of_mem fun {t t'} ht ht' hap => ?_
  have hin := @StackConfig.top_inside C (C.base t)
  have hin' := @StackConfig.top_inside C (C.base t')
  rw [h.tops t ht] at hin
  rw [h.tops t' ht'] at hin'
  rcases hap with hap | hap
  · exact .inl (by omega)
  · exact .inr (by omega)

end Stacks

open Stacks

/-- **The cache of stacks is safe.** In every run, whatever the allocator, `mprotect` and the programs
on the stacks do: no two stacks that are handed out overlap, each of them lies in a block that is
allocated, above an inaccessible page if there are such pages; at most 64 more blocks are kept;
no operation frees or unprotects memory that is not allocated; a stack that is freed, on which the
program may still be running, stays allocated; and at the end of the program `dill_ctx_stack_term`
leaves no block allocated but those whose stacks were never given back. When `mprotect` fails on a
block that is to be freed the program stops at the assertion that it does not. -/
theorem stacks_safe {C : StackConfig} {s : Stacks}
    (hs : Reach (Stacks.step C) IsInit (Allowed C) s) :
    (s.live.Pairwise fun t t' => t ≤ t' - stackSize ∨ t' ≤ t - stackSize) ∧
    (∀ t ∈ s.live, C.base t ∈ s.heap ∧ C.base t ≤ t - stackSize ∧ t ≤ C.base t + C.blockSize ∧
      (C.guard = true → s.guarded (C.base t) = true ∧ C.base t + C.page = t - stackSize)) ∧
    (0 ≤ s.count ∧ s.count ≤ maxCachedStacks ∧ (s.heap.length : ℤ) = s.live.length + s.count) ∧
    (∀ op, s.Allowed C op →
      ((∃ t, op = .free t false) ∧ s.step C op = .error .protect) ∨
        ∃ s', s.step C op = .ok s' ∧ ∀ t prot, op = .free t prot → C.base t ∈ s'.heap) ∧
    ∀ prot, ((∃ i < s.count.toNat, prot i = false) ∧
        s.ctxTerm C prot s.count.toNat = .error .protect) ∨
      ∃ s', s.ctxTerm C prot s.count.toNat = .ok s' ∧ s'.heap.Perm (s.live.map C.base) := by
  obtain ⟨bs, h⟩ : ∃ bs, Inv C s bs := by
    refine Reach.invariant (I := fun s => ∃ bs, Inv C s bs) (fun s hi => ⟨[], Inv.start hi⟩) ?_ hs
    rintro s op s' ⟨bs, hinv⟩ ha he
    rcases hinv.step ha with ⟨-, he'⟩ | ⟨s₁, bs', he', hinv', -⟩
    · cases he'.symm.trans he
    · cases he'.symm.trans he
      exact ⟨bs', hinv'⟩
  refine ⟨h.live_apart, fun t ht => ?_, ⟨?_, ?_, ?_⟩, fun op ha => ?_, fun prot => ?_⟩
  · have hin := @StackConfig.top_inside C (C.base t)
    rw [h.tops t ht] at hin
    refine ⟨h.base_mem ht, by omega, hin.2.1, fun hg => ⟨?_, ?_⟩⟩
    · rw [h.guarded _ (h.base_mem ht), hg]
    · have := hin.2.2 hg
      omega
  · rw [h.count]
    exact Int.natCast_nonneg _
  · rw [h.count]
    exact Int.ofNat_le.mpr h.room
  · rw [h.count, h.pool.split.length_eq, List.length_append, List.length_map]
    rfl
  · refine (h.step ha).imp_right ?_
    rintro ⟨s', -, he, -, hfree⟩
    exact ⟨s', he, hfree⟩
  · exact ctxTerm_frees (c := s.count) h prot (by rw [h.count]; exact Nat.le_refl _)

/-- Pages of 4096 bytes, and guard pages. -/
def guarded4096 : StackConfig := ⟨true, 4096, by decide⟩

/-- No stack yet, and the cache at address 64. -/
def noStacks : Stacks :=
  ctxInit { nodes := ⟨fun _ => 0, fun _ => 0⟩, cache := 64, count := 0, heap := [],
            guarded := fun _ => false, live := [] }

/-- The stack in the block at 4096 is given back, used again, and given back again, while there is
another one in the block at 274432. -/
def reuse : List Stacks.Op :=
  [.alloc (some 4096) true, .free 270336 true, .alloc none true, .alloc (some 274432) true,
    .store 5000 7, .free 270336 true]

instance (C : StackConfig) (b b' : ℕ) : Decidable (C.Apart b b') :=
  inferInstanceAs (Decidable (_ ∨ _))

instance (C : StackConfig) (s : Stacks) : ∀ op, Decidable (s.Allowed C op)
  | .alloc none _ => .isTrue nofun
  | .alloc (some ptr) _ => decidable_of_iff ((∀ b ∈ s.heap, C.Apart ptr b) ∧
      (s.cache + slistSize ≤ ptr ∨ ptr + C.blockSize ≤ s.cache))
      ⟨fun h _ hptr => Option.some.inj hptr ▸ h, fun h => h ptr rfl⟩
  | .free stack _ => inferInstanceAs (Decidable (stack ∈ s.live))
  | .store p _ => inferInstanceAs (Decidable (p ≠ s.cache ∧
      ∀ b ∈ s.heap, b ≤ p → p < b + C.blockSize → C.top b ∈ s.live))

/-- One stack is handed out at its end, and one is in the cache. -/
theorem stacks_safe_reuse : ∃ s,
    runIf (Stacks.step guarded4096) (Allowed guarded4096) noStacks reuse = some s ∧
      s.live = [540672] ∧ s.count = 1 ∧ s.heap.length = 2 ∧
      guarded4096.base 540672 ∈ s.heap ∧ s.guarded (guarded4096.base 540672) = true ∧
      ∀ prot, prot 0 = true → ∃ s', s.ctxTerm guarded4096 prot 1 = .ok s' ∧
        s'.heap.Perm [guarded4096.base 540672] := by
  obtain ⟨s, hr, hp⟩ := exists_of_runIf (Stacks.step guarded4096) (Allowed guarded4096) noStacks
    reuse (fun s => s.live = [540672] && s.count = 1) (by decide)
  simp only [Bool.and_eq_true, decide_eq_true_eq] at hp
  obtain ⟨hl, hc⟩ := hp
  obtain ⟨-, hlive, ⟨-, -, hlen⟩, -, hterm⟩ :=
    stacks_safe (reach_of_runIf (.init ⟨_, rfl, rfl, rfl⟩) hr)
  rw [hl, hc] at hlen hterm
  rw [hl] at hlive
  obtain ⟨hheap, -, -, hguard⟩ := hlive 540672 (.head _)
  refine ⟨s, hr, hl, hc, Int.ofNat.inj hlen, hheap, (hguard rfl).1, fun prot hprot => ?_⟩
  refine (hterm prot).resolve_left ?_
  rintro ⟨⟨i, hi, hfail⟩, -⟩
  obtain rfl : i = 0 := Nat.lt_one_iff.mp hi
  cases hprot.symm.trans hfail

end Libdill.Sched
