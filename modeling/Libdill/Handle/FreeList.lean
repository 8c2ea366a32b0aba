import Libdill.Foundations.Chain
import Libdill.Handle.Table
import Mathlib.Algebra.Order.Ring.Int
import Mathlib.Data.List.Range

/-!
# The list of unused handles

What the operations of `handle.c` do to the table, seen as a map from the handles in use to their
objects together with the list of unused handles.

* `FreeList c free`: from `ctx->first` the links visit the handles of `free`, all of them unused,
  and end in -1.
* `Table c free lost`: the invariant. The entries of `lost` are unused and not on the list; there
  are at most 8 of them, which is what the test for growth leaves room for.
* `Table.hmake`, `Table.release`, `Table.hquery`: one specification for each operation.
-/

namespace Libdill.Handle

open Foundations

variable {ω τ π : Type} {c c' : Ctx ω τ π} {free lost : List ℤ} {h i : ℤ}

/-- The object of a handle in use. -/
def Ctx.objs (c : Ctx ω τ π) (h : ℤ) : Option ω := if c.InUse h then (c.handles h).vfs else none

/-- The links of the table. -/
def Ctx.nx (c : Ctx ω τ π) (i : ℤ) : ℤ := (c.handles i).next

/-- The list of unused handles: acyclic, ending in -1, with its last element in `ctx->last`. -/
structure FreeList (c : Ctx ω τ π) (free : List ℤ) : Prop where
  chain : Chain c.nx c.first free (-1)
  nodup : free.Nodup
  unused : ∀ i ∈ free, 0 ≤ i ∧ i < c.nhandles ∧ ¬ c.InUse i
  last : ∀ t, free.getLast? = some t → c.last = t

/-- The invariant of the table. -/
structure Table (query : ω → τ → Option π) (c : Ctx ω τ π) (free lost : List ℤ) : Prop
    extends FreeList c free where
  apart : (free ++ lost).Nodup
  lostUnused : ∀ i ∈ lost, 0 ≤ i ∧ i < c.nhandles ∧ ¬ c.InUse i
  all : ∀ i, 0 ≤ i → i < c.nhandles → ¬ c.InUse i → i ∈ free ++ lost
  count : c.nhandles = c.nused + free.length + lost.length
  few : lost.length ≤ 8
  nonneg : 0 ≤ c.nhandles
  room : c.nhandles = 0 ∨ 8 ≤ c.nhandles - c.nused
  cached : ∀ h, c.InUse h → ∃ v, (c.handles h).vfs = some v ∧
    ∀ p, (c.handles h).ptr = some p → ∃ ty, (c.handles h).type = some ty ∧ query v ty = some p

variable {query : ω → τ → Option π}

theorem objs_of_inUse (hu : c.InUse h) : c.objs h = (c.handles h).vfs := if_pos hu

theorem objs_of_not (hu : ¬ c.InUse h) : c.objs h = none := if_neg hu

theorem Table.objs_eq_none (ht : Table query c free lost) : c.objs h = none ↔ ¬ c.InUse h := by
  by_cases hu : c.InUse h
  · obtain ⟨v, hv, -⟩ := ht.cached h hu
    rw [objs_of_inUse hu, hv]
    simp [hu]
  · simp [objs_of_not hu, hu]

theorem FreeList.not_mem_end (hf : FreeList c free) : (-1 : ℤ) ∉ free := by
  intro hm
  have hneg := (hf.unused (-1) hm).1
  omega

theorem Table.mem_unused (ht : Table query c free lost) (hi : i ∈ free ++ lost) :
    0 ≤ i ∧ i < c.nhandles ∧ ¬ c.InUse i := by
  rcases List.mem_append.mp hi with hi | hi
  · exact ht.unused i hi
  · exact ht.lostUnused i hi

/-- The table of a new process. -/
theorem table_init : Table query (.init : Ctx ω τ π) [] [] where
  chain := rfl
  nodup := List.nodup_nil
  unused _ hi := absurd hi List.not_mem_nil
  last _ ht := by cases ht
  apart := List.nodup_nil
  lostUnused _ hi := absurd hi List.not_mem_nil
  all i h0 hi _ := by
    have hlt : i < 0 := hi
    omega
  count := rfl
  few := by decide
  nonneg := le_refl _
  room := .inl rfl
  cached h hu := by
    obtain ⟨h0, hlt, -⟩ := hu
    have hlt : h < 0 := hlt
    omega

/-! ## Growth -/

/-- The entries added by a growth. -/
def Ctx.added (c : Ctx ω τ π) : List ℤ :=
  (List.range (c.grown - c.nhandles).toNat).map fun k : ℕ => c.nhandles + (k : ℤ)

theorem mem_added : i ∈ c.added ↔ c.nhandles ≤ i ∧ i < c.grown := by
  unfold Ctx.added
  rw [List.mem_map]
  constructor
  · rintro ⟨k, hk, rfl⟩
    have hlt := List.mem_range.mp hk
    omega
  · rintro ⟨hle, hlt⟩
    exact ⟨(i - c.nhandles).toNat, List.mem_range.mpr (by omega), by omega⟩

theorem nodup_added : c.added.Nodup := by
  unfold Ctx.added
  apply List.Nodup.map _ List.nodup_range
  intro k k' hk
  simp only at hk
  omega

theorem chain_range {nx : ℤ → ℤ} {a e : ℤ} {n : ℕ} (hnx : ∀ k < n, nx (a + k) = a + k + 1)
    (hlast : nx (a + n) = e) :
    Chain nx a ((List.range (n + 1)).map fun k : ℕ => a + (k : ℤ)) e := by
  have hpre : ∀ m ≤ n, Chain nx a ((List.range m).map fun k : ℕ => a + (k : ℤ)) (a + m) := by
    intro m hm
    induction m with
    | zero => simp
    | succ m ih =>
      have hk := hnx m (by omega)
      rw [List.range_succ, List.map_append, List.map_singleton, chain_concat]
      refine ⟨ih (by omega), ?_⟩
      rw [hk]
      push_cast
      omega
  rw [List.range_succ, List.map_append, List.map_singleton, chain_concat]
  exact ⟨hpre n (le_refl n), hlast⟩

theorem Table.nhandles_lt_grown (ht : Table query c free lost) : c.nhandles < c.grown := by
  have hnonneg := ht.nonneg
  unfold Ctx.grown
  split <;> omega

theorem grow_nx (m : Bool) :
    (i < c.nhandles → (c.grow m).handles i = c.handles i) ∧
    (c.nhandles ≤ i → i < c.grown → (c.grow m).nx i = if i = c.grown - 1 then -1 else i + 1) := by
  constructor
  · intro hi
    show (if c.nhandles ≤ i ∧ i < c.grown then _ else c.handles i) = _
    rw [if_neg (by omega)]
  · intro hi hlt
    show (if c.nhandles ≤ i ∧ i < c.grown then _ else c.handles i : Slot ω τ π).next = _
    rw [if_pos ⟨hi, hlt⟩]

theorem Table.grow_inUse (ht : Table query c free lost) (m : Bool) :
    (c.grow m).InUse i ↔ c.InUse i := by
  have hlt := ht.nhandles_lt_grown
  have h0 := ht.nonneg
  obtain ⟨hold, hnew⟩ := @grow_nx _ _ _ c i m
  constructor
  · rintro ⟨hi, hig, hnx⟩
    by_cases hin : i < c.nhandles
    · rw [hold hin] at hnx
      exact ⟨hi, hin, hnx⟩
    · have hnx' : (c.grow m).nx i = -2 := hnx
      rw [hnew (by omega) hig] at hnx'
      split at hnx' <;> omega
  · rintro ⟨hi, hin, hnx⟩
    refine ⟨hi, show i < c.grown by omega, ?_⟩
    rw [hold hin]
    exact hnx

theorem Table.grow_objs (ht : Table query c free lost) (m : Bool) :
    (c.grow m).objs = c.objs := by
  funext i
  by_cases hu : c.InUse i
  · have hu' := (ht.grow_inUse m).mpr hu
    rw [objs_of_inUse hu, objs_of_inUse hu', (grow_nx m).1 hu.2.1]
  · have hu' : ¬ (c.grow m).InUse i := fun h => hu ((ht.grow_inUse m).mp h)
    rw [objs_of_not hu, objs_of_not hu']

/-- A growth makes a new list of the new entries; the unused entries it had are lost. -/
theorem Table.grow (ht : Table query c free lost) (hfull : c.Full) (m : Bool) :
    Table query (c.grow m) c.added (free ++ lost) where
  chain := by
    have hlt := ht.nhandles_lt_grown
    obtain ⟨n, hn⟩ : ∃ n : ℕ, (c.grown - c.nhandles).toNat = n + 1 :=
      ⟨(c.grown - c.nhandles).toNat - 1, by omega⟩
    unfold Ctx.added
    rw [hn]
    show Chain _ c.nhandles _ _
    apply chain_range
    · intro k hk
      rw [(grow_nx m).2 (by omega) (by omega), if_neg (by omega)]
    · rw [(grow_nx m).2 (by omega) (by omega), if_pos (by omega)]
  nodup := nodup_added
  unused i hi := by
    have h0 := ht.nonneg
    obtain ⟨hle, hlt⟩ := mem_added.mp hi
    refine ⟨by omega, hlt, fun hu => ?_⟩
    have hold := ((ht.grow_inUse m).mp hu).2.1
    omega
  last t hlast := by
    have hlt := ht.nhandles_lt_grown
    obtain ⟨n, hn⟩ : ∃ n : ℕ, (c.grown - c.nhandles).toNat = n + 1 :=
      ⟨(c.grown - c.nhandles).toNat - 1, by omega⟩
    unfold Ctx.added at hlast
    rw [hn, List.range_succ, List.map_append, List.map_singleton, List.getLast?_concat] at hlast
    cases hlast
    show c.grown - 1 = _
    omega
  apart := by
    rw [List.nodup_append]
    refine ⟨nodup_added, ht.apart, ?_⟩
    intro i hi j hj hij
    have hnew := (mem_added.mp hi).1
    have hold := (ht.mem_unused hj).2.1
    omega
  lostUnused i hi := by
    have hlt := ht.nhandles_lt_grown
    obtain ⟨h0, hin, hu⟩ := ht.mem_unused hi
    exact ⟨h0, show i < c.grown by omega, fun h => hu ((ht.grow_inUse m).mp h)⟩
  all i h0 hi hu := by
    have hu' : ¬ c.InUse i := fun h => hu ((ht.grow_inUse m).mpr h)
    by_cases hin : i < c.nhandles
    · exact List.mem_append_right _ (ht.all i h0 hin hu')
    · exact List.mem_append_left _ (mem_added.mpr ⟨by omega, hi⟩)
  count := by
    have hlt := ht.nhandles_lt_grown
    have hcount := ht.count
    have hlen : c.added.length = (c.grown - c.nhandles).toNat := by
      unfold Ctx.added
      rw [List.length_map, List.length_range]
    show c.grown = c.nused + _ + _
    rw [hlen, List.length_append]
    push_cast
    omega
  few := by
    have hcount := ht.count
    have hfull : c.nhandles - c.nused ≤ 8 := hfull
    rw [List.length_append]
    omega
  nonneg := by
    have hlt := ht.nhandles_lt_grown
    have h0 := ht.nonneg
    show 0 ≤ c.grown
    omega
  room := by
    have hcount := ht.count
    have hroom := ht.room
    have hnonneg := ht.nonneg
    right
    show 8 ≤ c.grown - c.nused
    unfold Ctx.grown
    split <;> omega
  cached h hu := by
    have hu' := (ht.grow_inUse m).mp hu
    have hsame : (c.grow m).handles h = c.handles h := (grow_nx m).1 hu'.2.1
    rw [hsame]
    exact ht.cached h hu'

/-- After a growth there is room for one more than 8 handles. -/
theorem Table.grow_room (ht : Table query c free lost) (m : Bool) :
    9 ≤ (c.grow m).nhandles - (c.grow m).nused := by
  have hcount := ht.count
  have hroom := ht.room
  have hnonneg := ht.nonneg
  show 9 ≤ c.grown - c.nused
  unfold Ctx.grown
  split <;> omega

/-! ## Taking and returning a handle -/

@[simp] theorem upd_self (f : Slot ω τ π → Slot ω τ π) :
    (c.upd h f).handles h = f (c.handles h) := Function.update_self _ _ _

theorem upd_of_ne (f : Slot ω τ π → Slot ω τ π) (hi : i ≠ h) :
    (c.upd h f).handles i = c.handles i := Function.update_of_ne hi _ _

theorem upd_nx (f : Slot ω τ π → Slot ω τ π) :
    (c.upd h f).nx = Function.update c.nx h (f (c.handles h)).next := by
  funext i
  unfold Ctx.nx
  by_cases hi : i = h
  · rw [hi, upd_self, Function.update_self]
  · rw [upd_of_ne f hi, Function.update_of_ne hi]

theorem slow_ne (x : ℤ) : slow x ≠ -1 := by
  unfold slow
  split <;> decide

theorem Table.take (ht : Table query c free lost) (hroom : 9 ≤ c.nhandles - c.nused) (v : ω) :
    ∃ h free' c', free = h :: free' ∧ c.take v = .ok (h, c') ∧ Table query c' free' lost ∧
      c.objs h = none ∧ c'.objs = Function.update c.objs h (some v) ∧ c'.block = c.block ∧
      c'.nhandles = c.nhandles := by
  have hcount := ht.count
  have hfew := ht.few
  cases hfree : free with
  | nil =>
    rw [hfree, List.length_nil] at hcount
    omega
  | cons h free' =>
    subst hfree
    obtain ⟨hfirst, hrest⟩ := ht.chain
    obtain ⟨h0, hlt, hu⟩ := ht.unused h List.mem_cons_self
    obtain ⟨hnot, hnd⟩ := List.nodup_cons.mp ht.nodup
    let c' : Ctx ω τ π := { c.upd h fun _ => ⟨some v, -2, none, none⟩ with
      nused := c.nused + 1
      first := c.nx h
      last := c.last }
    have htake : c.take v = .ok (h, c') := by
      unfold Ctx.take
      rw [if_neg (by omega), hfirst]
      simp only [if_neg (slow_ne _)]
      rfl
    have hself : c'.handles h = ⟨some v, -2, none, none⟩ :=
      upd_self fun _ => (⟨some v, -2, none, none⟩ : Slot ω τ π)
    have hother : ∀ i, i ≠ h → c'.handles i = c.handles i := fun i hi =>
      upd_of_ne (fun _ => (⟨some v, -2, none, none⟩ : Slot ω τ π)) hi
    have hin : ∀ i, c'.InUse i ↔ i = h ∨ c.InUse i := by
      intro i
      unfold Ctx.InUse
      by_cases hi : i = h
      · rw [hi, hself]
        exact ⟨fun _ => .inl rfl, fun _ => ⟨h0, hlt, rfl⟩⟩
      · rw [hother i hi]
        exact ⟨.inr, fun h => h.resolve_left hi⟩
    have happart : h ∉ free' ++ lost := (List.nodup_cons.mp ht.apart).1
    refine ⟨h, free', c', rfl, htake, ?_, objs_of_not hu, ?_, rfl, rfl⟩
    · refine
        { chain := ?_, nodup := hnd, unused := ?_, last := ?_
          apart := (List.nodup_cons.mp ht.apart).2
          lostUnused := ?_, all := ?_, count := ?_, few := ht.few, nonneg := ht.nonneg
          room := ?_, cached := ?_ }
      · show Chain c'.nx (c.nx h) free' (-1)
        apply hrest.congr
        intro i hi
        have hne : i ≠ h := fun hih => hnot (hih ▸ hi)
        show (c'.handles i).next = (c.handles i).next
        rw [hother i hne]
      · intro i hi
        obtain ⟨hi0, hilt, hiu⟩ := ht.unused i (List.mem_cons_of_mem h hi)
        refine ⟨hi0, hilt, fun hu' => ?_⟩
        rcases (hin i).mp hu' with rfl | hu'
        · exact hnot hi
        · exact hiu hu'
      · intro t hlast
        apply ht.last
        rw [List.getLast?_cons, hlast]
        rfl
      · intro i hi
        obtain ⟨hi0, hilt, hiu⟩ := ht.lostUnused i hi
        refine ⟨hi0, hilt, fun hu' => ?_⟩
        rcases (hin i).mp hu' with rfl | hu'
        · exact happart (List.mem_append_right _ hi)
        · exact hiu hu'
      · intro i hi0 hilt hiu
        have hne : i ≠ h := fun hih => hiu ((hin i).mpr (.inl hih))
        have hiu' : ¬ c.InUse i := fun hu' => hiu ((hin i).mpr (.inr hu'))
        exact (List.mem_cons.mp (ht.all i hi0 hilt hiu')).resolve_left hne
      · show c.nhandles = c.nused + 1 + _ + _
        rw [hcount, List.length_cons]
        push_cast
        omega
      · right
        show 8 ≤ c.nhandles - (c.nused + 1)
        omega
      · intro i hi
        by_cases hih : i = h
        · rw [hih, hself]
          exact ⟨v, rfl, fun p hp => by cases hp⟩
        · rw [hother i hih]
          exact ht.cached i (((hin i).mp hi).resolve_left hih)
    · funext i
      by_cases hih : i = h
      · rw [hih, Function.update_self, objs_of_inUse ((hin h).mpr (.inl rfl)), hself]
      · rw [Function.update_of_ne hih]
        unfold Ctx.objs
        rw [hother i hih]
        by_cases hiu : c.InUse i
        · rw [if_pos hiu, if_pos ((hin i).mpr (.inr hiu))]
        · have hiu' : ¬ c'.InUse i := fun hu' => hiu (((hin i).mp hu').resolve_left hih)
          rw [if_neg hiu, if_neg hiu']

/-- What returning the handle `h` to the list `free` writes. -/
structure Released (c c' : Ctx ω τ π) (free : List ℤ) (h : ℤ) : Prop where
  nx : c'.nx = match free.getLast? with
    | none => Function.update c.nx h (-1)
    | some t => Function.update (Function.update c.nx h (-1)) t h
  first : c'.first = if free = [] then h else c.first
  last : c'.last = h
  nused : c'.nused = c.nused - 1
  nhandles : c'.nhandles = c.nhandles
  same : ∀ i, i ≠ h → (c'.handles i).vfs = (c.handles i).vfs ∧
    (c'.handles i).type = (c.handles i).type ∧ (c'.handles i).ptr = (c.handles i).ptr

theorem FreeList.released (hf : FreeList c free) (h : ℤ) :
    Released c (c.release h c.block) free h := by
  have hretire : c.retire h c.block =
      c.upd h fun hndl => { hndl with ptr := none, next := -1 } := if_pos rfl
  have hnx : (c.retire h c.block).nx = Function.update c.nx h (-1) := by
    rw [hretire, upd_nx]
  have hsame : ∀ i, i ≠ h → (c.retire h c.block).handles i = c.handles i := by
    intro i hi
    rw [hretire, upd_of_ne _ hi]
  unfold Ctx.release
  by_cases hfirst : c.first = -1
  · have hnil : free = [] := by
      have hchain := hf.chain
      rw [hfirst] at hchain
      exact hchain.eq_nil hf.not_mem_end
    have hpush : (c.retire h c.block).push h =
        { c.retire h c.block with first := h, last := h, nused := c.nused - 1 } := by
      unfold Ctx.push
      rw [hretire]
      exact if_pos hfirst
    rw [hpush]
    subst hnil
    refine ⟨hnx, rfl, rfl, rfl, by rw [hretire]; rfl, fun i hi => ?_⟩
    have hi' := hsame i hi
    simp only [hi', and_self]
  · have hne : free ≠ [] := hf.chain.ne_nil hfirst
    obtain ⟨l, t, hl⟩ := List.eq_nil_or_concat free |>.resolve_left hne
    have hlast : free.getLast? = some t := by rw [hl, List.concat_eq_append, List.getLast?_concat]
    have htail := hf.last t hlast
    have hpush : (c.retire h c.block).push h =
        { (c.retire h c.block).upd t fun hndl => { hndl with next := h } with
          last := h, nused := c.nused - 1 } := by
      unfold Ctx.push
      rw [hretire, ← htail]
      exact if_neg hfirst
    have hlink : ((c.retire h c.block).upd t fun hndl => { hndl with next := h }).nx
        = Function.update (Function.update c.nx h (-1)) t h := by
      rw [upd_nx, hnx]
    rw [hpush]
    refine ⟨?_, by rw [if_neg hne, hretire]; rfl, rfl, rfl, by rw [hretire]; rfl, fun i hi => ?_⟩
    · rw [hlast]
      exact hlink
    · have hi' := hsame i hi
      by_cases hit : i = t
      · subst hit
        have hself := upd_self (c := c.retire h c.block) (h := i)
          fun hndl => { hndl with next := h }
        simp only [hself, hi', and_self]
      · have hother := upd_of_ne (c := c.retire h c.block)
          (fun hndl => { hndl with next := h }) hit
        simp only [hother, hi', and_self]

/-- Only the returned handle is not in use any more. -/
theorem Released.inUse (hr : Released c c' free h) (hf : FreeList c free) (hu : c.InUse h) :
    c'.InUse i ↔ i ≠ h ∧ c.InUse i := by
  have hnx : (c'.handles i).next = c'.nx i := rfl
  have hh : h ∉ free := fun hm => (hf.unused h hm).2.2 hu
  unfold Ctx.InUse
  rw [hnx, hr.nx, hr.nhandles]
  cases hlast : free.getLast? with
  | none =>
    by_cases hi : i = h
    · subst hi
      simp
    · simp [hi, Ctx.nx]
  | some t =>
    have htm : t ∈ free := List.mem_of_getLast? hlast
    obtain ⟨-, hlt, htu⟩ := hf.unused t htm
    have h0 := hu.1
    by_cases hit : i = t
    · subst hit
      have hne : i ≠ h := fun hih => hh (hih ▸ htm)
      simp only [Function.update_self]
      constructor
      · rintro ⟨-, -, hneg⟩
        omega
      · rintro ⟨-, hiu⟩
        exact absurd hiu htu
    · by_cases hi : i = h
      · subst hi
        simp [Function.update_of_ne hit]
      · simp [hit, hi, Ctx.nx]

/-- The returned handle is the new end of the list. -/
theorem Released.chain (hr : Released c c' free h) (hf : FreeList c free) (hu : c.InUse h) :
    Chain c'.nx c'.first (free ++ [h]) (-1) := by
  have hh : h ∉ free := fun hm => (hf.unused h hm).2.2 hu
  rw [hr.nx, hr.first]
  rcases List.eq_nil_or_concat free with rfl | ⟨l, t, rfl⟩
  · rw [if_pos rfl]
    exact ⟨rfl, Function.update_self _ _ _⟩
  · rw [List.concat_eq_append] at hf hh ⊢
    rw [if_neg (by simp), List.getLast?_concat]
    exact hf.chain.snoc hf.nodup hh

theorem Table.release (ht : Table query c free lost) (hu : c.InUse h) :
    Table query (c.release h c.block) (free ++ [h]) lost ∧
      (c.release h c.block).objs = Function.update c.objs h none := by
  have hr := ht.released h
  have hin : ∀ i, (c.release h c.block).InUse i ↔ i ≠ h ∧ c.InUse i := fun i =>
    hr.inUse ht.toFreeList hu
  have hh : h ∉ free ++ lost := fun hm => (ht.mem_unused hm).2.2 hu
  have hhf : h ∉ free := fun hm => hh (List.mem_append_left _ hm)
  refine ⟨?_, ?_⟩
  · refine
      { chain := hr.chain ht.toFreeList hu, nodup := ?_, unused := ?_, last := ?_, apart := ?_
        lostUnused := ?_, all := ?_, count := ?_, few := ht.few, nonneg := ?_
        room := ?_, cached := ?_ }
    · rw [List.nodup_append]
      refine ⟨ht.nodup, List.nodup_singleton h, fun i hi j hj hij => ?_⟩
      rw [hij, List.mem_singleton.mp hj] at hi
      exact hhf hi
    · intro i hi
      rw [hr.nhandles, hin]
      rcases List.mem_append.mp hi with hi | hi
      · obtain ⟨h0, hlt, hiu⟩ := ht.unused i hi
        exact ⟨h0, hlt, fun h => hiu h.2⟩
      · rw [List.mem_singleton.mp hi]
        exact ⟨hu.1, hu.2.1, fun h => h.1 rfl⟩
    · intro t hlast
      rw [List.getLast?_concat] at hlast
      cases hlast
      exact hr.last
    · rw [List.append_assoc, List.singleton_append, List.nodup_middle, List.nodup_cons]
      exact ⟨hh, ht.apart⟩
    · intro i hi
      obtain ⟨h0, hlt, hiu⟩ := ht.lostUnused i hi
      rw [hr.nhandles, hin]
      exact ⟨h0, hlt, fun h => hiu h.2⟩
    · intro i h0 hlt hiu
      rw [hr.nhandles] at hlt
      by_cases hih : i = h
      · rw [hih]
        exact List.mem_append_left _ (List.mem_append_right _ (List.mem_singleton.mpr rfl))
      · have hold := ht.all i h0 hlt fun h => hiu ((hin i).mpr ⟨hih, h⟩)
        rcases List.mem_append.mp hold with hm | hm
        · exact List.mem_append_left _ (List.mem_append_left _ hm)
        · exact List.mem_append_right _ hm
    · have hcount := ht.count
      rw [hr.nhandles, hr.nused, List.length_append, List.length_singleton]
      push_cast
      omega
    · rw [hr.nhandles]
      exact ht.nonneg
    · have hroom := ht.room
      rw [hr.nhandles, hr.nused]
      omega
    · intro i hi
      obtain ⟨hne, hiu⟩ := (hin i).mp hi
      obtain ⟨hv, hty, hp⟩ := hr.same i hne
      rw [hv, hty, hp]
      exact ht.cached i hiu
  · funext i
    by_cases hih : i = h
    · rw [hih, Function.update_self, objs_of_not fun hu' => ((hin h).mp hu').1 rfl]
    · rw [Function.update_of_ne hih]
      unfold Ctx.objs
      by_cases hiu : c.InUse i
      · rw [if_pos hiu, if_pos ((hin i).mpr ⟨hih, hiu⟩), (hr.same i hih).1]
      · rw [if_neg hiu, if_neg fun h => hiu ((hin i).mp h).2]

/-! ## The calls -/

/-- A handle `h` for `v` is given out: either it was the first of the list, or the list was
discarded by a growth. -/
structure Made (query : ω → τ → Option π) (c c' : Ctx ω τ π) (free lost free' lost' : List ℤ)
    (h : ℤ) (v : ω) : Prop where
  table : Table query c' free' lost'
  fresh : c.objs h = none
  objs : c'.objs = Function.update c.objs h (some v)
  how : c.Full ∧ lost' = free ++ lost ∨
    ¬ c.Full ∧ free = h :: free' ∧ lost' = lost ∧ c'.nhandles = c.nhandles
  used : c'.nhandles ≠ 0

/-- Why `dill_hmake` fails. -/
inductive Refused (vfs : Option ω) (canblock : Bool) (a : Alloc) : Errno → Prop
  | noObject : vfs = none → Refused vfs canblock a .EINVAL
  | canceled : canblock = false → Refused vfs canblock a .ECANCELED
  | noMemory : a = .failed → Refused vfs canblock a .ENOMEM

theorem Table.hmakeFull (ht : Table query c free lost) (hfull : c.Full) (m : Bool) (v : ω) :
    ∃ h free' lost' c', (c.grow m).take v = .ok (h, c') ∧
      Made query c c' free lost free' lost' h v ∧ c'.block = (c.grow m).block := by
  obtain ⟨h, free', c', -, htake, ht', hfresh, hobjs, hblock, hn⟩ :=
    (ht.grow hfull m).take (ht.grow_room m) v
  rw [ht.grow_objs m] at hfresh hobjs
  have hlt := ht.nhandles_lt_grown
  have h0 := ht.nonneg
  have hused : c'.nhandles ≠ 0 := by
    rw [hn]
    show c.grown ≠ 0
    omega
  exact ⟨h, free', free ++ lost, c', htake, ⟨ht', hfresh, hobjs, .inl ⟨hfull, rfl⟩, hused⟩, hblock⟩

/-- `dill_hmake` gives out a handle that was not in use, or fails and changes nothing. It never
finds the list empty. -/
theorem Table.hmake (ht : Table query c free lost) (vfs : Option ω) (canblock : Bool) (a : Alloc) :
    (∃ e, c.hmake vfs canblock a = .ok (.error e, c) ∧ Refused vfs canblock a e) ∨
    ∃ v h free' lost' c', vfs = some v ∧ canblock = true ∧
      c.hmake vfs canblock a = .ok (.ok h, c') ∧ Made query c c' free lost free' lost' h v ∧
      (c.Full → a ≠ .failed) ∧ (¬ (c.Full ∧ a = .moved) → c'.block = c.block) := by
  unfold Ctx.hmake
  cases vfs with
  | none => exact .inl ⟨_, rfl, .noObject rfl⟩
  | some v =>
    cases canblock with
    | false => exact .inl ⟨_, rfl, .canceled rfl⟩
    | true =>
      by_cases hfull : c.Full
      · cases a with
        | failed => exact .inl ⟨.ENOMEM, by simp [hfull], .noMemory rfl⟩
        | inPlace =>
          right
          obtain ⟨h, free', lost', c', htake, hmade, hblock⟩ := ht.hmakeFull hfull false v
          refine ⟨v, h, free', lost', c', rfl, rfl, ?_, hmade, fun _ => nofun, fun _ => hblock⟩
          simp only [Bool.true_eq_false, if_false, if_pos hfull, htake]
          rfl
        | moved =>
          right
          obtain ⟨h, free', lost', c', htake, hmade, hblock⟩ := ht.hmakeFull hfull true v
          refine ⟨v, h, free', lost', c', rfl, rfl, ?_, hmade, fun _ => nofun,
            fun hn => absurd ⟨hfull, rfl⟩ hn⟩
          simp only [Bool.true_eq_false, if_false, if_pos hfull, htake]
          rfl
      · right
        have hroom : 9 ≤ c.nhandles - c.nused := by
          unfold Ctx.Full at hfull
          omega
        obtain ⟨h, free', c', hfree, htake, ht', hfresh, hobjs, hblock, hn⟩ := ht.take hroom v
        have hused : c'.nhandles ≠ 0 := by
          obtain ⟨h0, hlt, -⟩ := ht.unused h (hfree ▸ List.mem_cons_self)
          rw [hn]
          omega
        refine ⟨v, h, free', lost, c', rfl, rfl, ?_,
          ⟨ht', hfresh, hobjs, .inr ⟨hfull, hfree, rfl, hn⟩, hused⟩, fun hf => absurd hf hfull,
          fun _ => hblock⟩
        simp only [Bool.true_eq_false, if_false, if_neg hfull, htake]
        rfl

/-- What a query of the handle `h` is to answer. -/
def queried (query : ω → τ → Option π) (objs : ℤ → Option ω) (h : ℤ) (type : τ) : Except Errno π :=
  match objs h with
  | none => .error .EBADF
  | some v =>
    match query v type with
    | none => .error .ENOTSUP
    | some p => .ok p

/-- The invariant does not read the cache, but for its consistency. -/
theorem Table.congr (ht : Table query c free lost) (hnx : c'.nx = c.nx)
    (hfirst : c'.first = c.first) (hlast : c'.last = c.last) (hused : c'.nused = c.nused)
    (hn : c'.nhandles = c.nhandles)
    (hcached : ∀ h, c.InUse h → ∃ v, (c'.handles h).vfs = some v ∧
      ∀ p, (c'.handles h).ptr = some p →
        ∃ ty, (c'.handles h).type = some ty ∧ query v ty = some p) :
    Table query c' free lost := by
  have hin : ∀ i, c'.InUse i ↔ c.InUse i := by
    intro i
    have hi : (c'.handles i).next = (c.handles i).next := congrFun hnx i
    unfold Ctx.InUse
    rw [hn, hi]
  refine
    { chain := ?_, nodup := ht.nodup, unused := ?_, last := ?_, apart := ht.apart
      lostUnused := ?_, all := ?_, count := ?_, few := ht.few, nonneg := ?_, room := ?_
      cached := fun h hu => hcached h ((hin h).mp hu) }
  · rw [hnx, hfirst]
    exact ht.chain
  · intro i hi
    rw [hn, hin]
    exact ht.unused i hi
  · rw [hlast]
    exact ht.last
  · intro i hi
    rw [hn, hin]
    exact ht.lostUnused i hi
  · intro i h0 hi hu
    rw [hn] at hi
    rw [hin] at hu
    exact ht.all i h0 hi hu
  · rw [hn, hused]
    exact ht.count
  · rw [hn]
    exact ht.nonneg
  · rw [hn, hused]
    exact ht.room

theorem Table.ask (ht : Table query c free lost) (hu : c.InUse h) (type : τ) :
    ∃ c', c.ask query h type = .ok (queried query c.objs h type, c') ∧
      Table query c' free lost ∧ c'.objs = c.objs ∧ c'.block = c.block ∧
      c'.nhandles = c.nhandles := by
  obtain ⟨v, hv, -⟩ := ht.cached h hu
  unfold Ctx.ask queried
  rw [objs_of_inUse hu, hv]
  cases hq : query v type with
  | none => exact ⟨c, by simp only [hq], ht, rfl, rfl, rfl⟩
  | some p =>
    let f : Slot ω τ π → Slot ω τ π := fun hndl => { hndl with type := some type, ptr := some p }
    have hnx : (c.upd h f).nx = c.nx := by
      rw [upd_nx]
      exact Function.update_eq_self h c.nx
    have ht' : Table query (c.upd h f) free lost := by
      apply ht.congr hnx rfl rfl rfl rfl
      intro i hi
      by_cases hih : i = h
      · rw [hih, upd_self]
        refine ⟨v, hv, fun p' hp' => ?_⟩
        cases hp'
        exact ⟨type, rfl, hq⟩
      · rw [upd_of_ne f hih]
        exact ht.cached i hi
    refine ⟨c.upd h f, by simp only [hq]; rfl, ht', ?_, rfl, rfl⟩
    funext i
    have hin : (c.upd h f).InUse i ↔ c.InUse i := by
      have hi : ((c.upd h f).handles i).next = (c.handles i).next := congrFun hnx i
      unfold Ctx.InUse
      rw [hi]
      rfl
    have hvfs : ((c.upd h f).handles i).vfs = (c.handles i).vfs := by
      by_cases hih : i = h
      · rw [hih, upd_self]
      · rw [upd_of_ne f hih]
    unfold Ctx.objs
    rw [hvfs]
    by_cases hiu : c.InUse i
    · rw [if_pos hiu, if_pos (hin.mpr hiu)]
    · rw [if_neg hiu, if_neg fun h => hiu (hin.mp h)]

/-- `dill_hquery` answers what the object of the handle answers, cached or not. -/
theorem Table.hquery [DecidableEq τ] (ht : Table query c free lost) (h : ℤ) (type : τ) :
    ∃ c', c.hquery query h type = .ok (queried query c.objs h type, c') ∧
      Table query c' free lost ∧ c'.objs = c.objs ∧ c'.block = c.block ∧
      c'.nhandles = c.nhandles := by
  unfold Ctx.hquery
  by_cases hu : c.InUse h
  · rw [if_pos hu]
    have hask := ht.ask hu type
    obtain ⟨v, hv, hcache⟩ := ht.cached h hu
    cases hp : (c.handles h).ptr with
    | none => exact hask
    | some p =>
      by_cases hty : (c.handles h).type = some type
      · obtain ⟨ty, hty', hq⟩ := hcache p hp
        rw [hty] at hty'
        cases hty'
        refine ⟨c, ?_, ht, rfl, rfl, rfl⟩
        simp only [if_pos hty]
        unfold queried
        rw [objs_of_inUse hu, hv]
        simp only [hq]
      · simp only [if_neg hty]
        exact hask
  · rw [if_neg hu]
    refine ⟨c, ?_, ht, rfl, rfl, rfl⟩
    unfold queried
    rw [objs_of_not hu]

end Libdill.Handle
