import Libdill.Handle.Registry

/-!
# Runs of the handle table

The table refines the registry as long as nothing happens while an object is being closed that
`handle.c` is not made for (`Calm`): the array is not moved to another place, and the handle is not
closed or owned a second time.

* `SysInv.step`: every such call has a result, keeps the invariant and is a step of the registry.
-/

namespace Libdill.Handle

open Foundations

variable {ω τ π : Type} {query : ω → τ → Option π} {s s' : Sys ω τ π}
  {a : Act ω τ} {free lost : List ℤ}

/-- The call gives out a handle and grows the array for it. -/
def Sys.Grows (s : Sys ω τ π) (a : Act ω τ) : Prop :=
  s.canblock a = true ∧ s.ctx.Full ∧ a.alloc ≠ .failed ∧
    match a.call with
    | .hmake vfs => vfs ≠ none
    | .hown h => s.ctx.InUse h
    | _ => False

/-- The call closes or owns the handle `h`. -/
def Act.GivesUp (a : Act ω τ) (h : ℤ) : Prop := a.call = .hclose h ∨ a.call = .hown h

/-- The call leaves the closes in progress alone: it does not move the array under them, and it
does not close or own a handle that is being closed. -/
structure Calm (s : Sys ω τ π) (a : Act ω τ) : Prop where
  still : s.Grows a → a.alloc = .moved → s.closing = []
  apart : ∀ p ∈ s.closing, ¬ a.GivesUp p.h

/-- The invariant of the table and of the closes in progress. -/
structure SysInv (query : ω → τ → Option π) (s : Sys ω τ π) (free lost : List ℤ) : Prop where
  table : Table query s.ctx free lost
  held : ∀ p ∈ s.closing, s.ctx.InUse p.h ∧ p.block = s.ctx.block
  once : (s.closing.map Closing.h).Nodup
  empty : s.ctx.nhandles = 0 → s.log = []
  rotation : lost = [] → Rotation s.log free

theorem sysInv_init : SysInv query (.init : Sys ω τ π) [] [] where
  table := table_init
  held p hp := absurd hp List.not_mem_nil
  once := List.nodup_nil
  empty _ := rfl
  rotation _ :=
    { delayed := fun h post mid pre heq _ => by
        have hlen := congrArg List.length heq
        rw [List.length_append, List.length_cons] at hlen
        exact absurd hlen.symm (by rw [show (Sys.init : Sys ω τ π).log = [] by rfl]; simp)
      waits := fun l h r heq _ _ _ _ => by
        have hlen := congrArg List.length heq
        rw [List.length_append, List.length_cons, List.length_nil] at hlen
        omega }

theorem Sys.canblock_registry (s : Sys ω τ π) (a : Act ω τ) :
    s.registry.canblock a = s.canblock a := by
  have hiff : (∃ p ∈ s.registry.closing, p.cr = a.cr) ↔ s.Inside a.cr := by
    constructor
    · rintro ⟨p, hp, hcr⟩
      obtain ⟨q, hq, rfl⟩ := List.mem_map.mp hp
      exact ⟨q, hq, hcr⟩
    · rintro ⟨q, hq, hcr⟩
      exact ⟨q.pending, List.mem_map.mpr ⟨q, hq, rfl⟩, hcr⟩
  unfold Registry.canblock Sys.canblock
  simp only [hiff]

/-- A handle in use has an object. -/
theorem Table.obj {c : Ctx ω τ π} {h : ℤ} (ht : Table query c free lost) (hu : c.InUse h) :
    ∃ v, c.objs h = some v ∧ (c.handles h).vfs = some v := by
  obtain ⟨v, hv, -⟩ := ht.cached h hu
  exact ⟨v, by rw [objs_of_inUse hu, hv], hv⟩

theorem Table.inUse_of_objs {c : Ctx ω τ π} {h : ℤ} (ht : Table query c free lost)
    (ho : c.objs h ≠ none) : c.InUse h :=
  not_not.mp fun hu => ho (ht.objs_eq_none.mpr hu)

/-! ## The operations on the system -/

variable {ctx : Ctx ω τ π} {h : ℤ} {v : ω} {free' lost' : List ℤ}

/-- A handle is given out. -/
theorem SysInv.issue (hs : SysInv query s free lost)
    (hm : Made query s.ctx ctx free lost free' lost' h v)
    (hblock : s.closing ≠ [] → ctx.block = s.ctx.block) :
    SysInv query { s with ctx := ctx, log := .issued h :: s.log } free' lost' where
  table := hm.table
  held p hp := by
    obtain ⟨hu, hb⟩ := hs.held p hp
    have hne : p.h ≠ h := by
      intro hph
      have hnone := hs.table.objs_eq_none.mp hm.fresh
      exact hnone (hph ▸ hu)
    have hobj : ctx.objs p.h ≠ none := by
      obtain ⟨w, hw, -⟩ := hs.table.obj hu
      rw [hm.objs, Function.update_of_ne hne, hw]
      exact Option.some_ne_none w
    exact ⟨hm.table.inUse_of_objs hobj, hb.trans (hblock (List.ne_nil_of_mem hp)).symm⟩
  once := hs.once
  empty h0 := absurd h0 hm.used
  rotation hlost := by
    rcases hm.how with ⟨-, hl⟩ | ⟨-, hfree, hl, -⟩
    · -- The list was discarded, so it and the table were empty.
      rw [hlost] at hl
      obtain ⟨hf, hl'⟩ := List.append_eq_nil_iff.mp hl.symm
      have hcount := hs.table.count
      rw [hf, hl', List.length_nil] at hcount
      have h0 : s.ctx.nhandles = 0 := by
        rcases hs.table.room with h0 | h8
        · exact h0
        · simp only [Int.natCast_zero, Int.add_zero] at hcount
          omega
      rw [hs.empty h0]
      exact rotation_fresh free' h
    · rw [hlost] at hl
      have hr := hs.rotation hl.symm
      rw [hfree] at hr
      exact hr.issue

/-- A handle that nobody is closing is returned to the pool. -/
theorem SysInv.release (hs : SysInv query s free lost) (hu : s.ctx.InUse h) {cl : List Closing}
    (hcl : cl.Sublist s.closing) (hne : ∀ p ∈ cl, p.h ≠ h) :
    SysInv query ⟨s.ctx.release h s.ctx.block, cl, .released h :: s.log⟩ (free ++ [h]) lost where
  table := (hs.table.release hu).1
  held p hp := by
    obtain ⟨hup, hb⟩ := hs.held p (hcl.subset hp)
    have hr := hs.table.released h
    have hin := (hr.inUse (i := p.h) hs.table.toFreeList hu).mpr ⟨hne p hp, hup⟩
    have hblock : (s.ctx.release h s.ctx.block).block = s.ctx.block := by
      unfold Ctx.release Ctx.push Ctx.retire
      rw [if_pos rfl]
      split <;> rfl
    exact ⟨hin, hb.trans hblock.symm⟩
  once := (hcl.map Closing.h).nodup hs.once
  empty h0 := by
    have hn := (hs.table.released h).nhandles
    have hlt := hu.2.1
    have hpos := hu.1
    have h0' : (s.ctx.release h s.ctx.block).nhandles = 0 := h0
    omega
  rotation hlost := by
    have hlen : 8 ≤ free.length := by
      have hcount := hs.table.count
      have hroom := hs.table.room
      have hlt := hu.2.1
      have hpos := hu.1
      rw [hlost, List.length_nil] at hcount
      push_cast at hcount
      omega
    exact (hs.rotation hlost).release hlen fun hm => (hs.table.unused h hm).2.2 hu

/-- A close callback is entered. -/
theorem SysInv.enter (hs : SysInv query s free lost) (hu : s.ctx.InUse h)
    (hne : ∀ p ∈ s.closing, p.h ≠ h) (cr : ℕ) (own : Option Errno) :
    SysInv query (s.enter cr h own) free lost where
  table := hs.table
  held p hp := by
    rcases List.mem_cons.mp hp with rfl | hp
    · exact ⟨hu, rfl⟩
    · exact hs.held p hp
  once := by
    show ((⟨cr, h, s.ctx.block, own⟩ :: s.closing : List Closing).map Closing.h).Nodup
    rw [List.map_cons, List.nodup_cons]
    refine ⟨fun hm => ?_, hs.once⟩
    obtain ⟨p, hp, hph⟩ := List.mem_map.mp hm
    exact hne p hp hph
  empty := hs.empty
  rotation := hs.rotation

/-! ## One step -/

theorem Made.kept {c : Ctx ω τ π} (hm : Made query c ctx free lost free' lost' h v)
    (ht : Table query c free lost) (hfull : ¬ (c.Full ∧ c.nhandles ≠ 0)) (hlost : lost = []) :
    lost' = [] := by
  rcases hm.how with ⟨hf, hl⟩ | ⟨-, -, hl, -⟩
  · have h0 : c.nhandles = 0 := by
      by_contra hn
      exact hfull ⟨hf, hn⟩
    have hcount := ht.count
    have hfree : free = [] := by
      cases hfr : free with
      | nil => rfl
      | cons i l =>
        obtain ⟨hi0, hilt, -⟩ := ht.unused i (hfr ▸ List.mem_cons_self)
        omega
    rw [hl, hfree, hlost, List.append_nil]
  · rw [hl, hlost]

/-- The array is not moved under a close in progress. -/
theorem Calm.block {c' : Ctx ω τ π} (hc : Calm s a) (hb : s.canblock a = true)
    (hfull : s.ctx.Full → a.alloc ≠ .failed)
    (hblock : ¬ (s.ctx.Full ∧ a.alloc = .moved) → c'.block = s.ctx.block)
    (hcall : match a.call with
      | .hmake vfs => vfs ≠ none
      | .hown h => s.ctx.InUse h
      | _ => False) : s.closing ≠ [] → c'.block = s.ctx.block := by
  intro hne
  apply hblock
  rintro ⟨hf, hmoved⟩
  exact hne (hc.still ⟨hb, hf, hfull hf, hcall⟩ hmoved)

variable [DecidableEq τ]

/-- What one call does: it has a result, keeps the invariant and is a step of the registry. The
entries of the list are lost only when a table that is not empty grows, and a handle whose close
has ended is the last of the list. -/
structure Goes (query : ω → τ → Option π) (s : Sys ω τ π) (a : Act ω τ) (s' : Sys ω τ π)
    (o : Option (Ans π)) (lost free' lost' : List ℤ) : Prop where
  step : s.step query a = .ok (s', o)
  inv : SysInv query s' free' lost'
  registry : s.registry.Step query a s'.registry o
  kept : ¬ (s.Grows a ∧ s.ctx.nhandles ≠ 0) → lost = [] → lost' = []
  returned : ∀ p, a.call = .ret → s.closing.find? (fun p => p.cr = a.cr) = some p →
    ∃ l, free' = l ++ [p.h]

theorem SysInv.hmake (hs : SysInv query s free lost) (hc : Calm s a) {vfs : Option ω}
    (ha : a.call = .hmake vfs) : ∃ s' o free' lost', Goes query s a s' o lost free' lost' := by
  rcases hs.table.hmake vfs (s.canblock a) a.alloc with
    ⟨e, hmake, href⟩ | ⟨v, h, free', lost', ctx, rfl, hb, hmake, hm, hfull, hblock⟩
  · refine ⟨s, some (.handle (.error e)), free, lost, ?_, hs, ?_, fun _ hl => hl, ?_⟩
    · unfold Sys.step
      simp only [ha, hmake]
    · exact .hmakeRefused ha (by rw [s.canblock_registry]; exact href)
    · intro p hp
      rw [ha] at hp
      cases hp
  · have hcall : match a.call with
        | .hmake vfs => vfs ≠ none
        | .hown h => s.ctx.InUse h
        | _ => False := by
      rw [ha]
      exact Option.some_ne_none v
    refine ⟨{ s with ctx := ctx, log := .issued h :: s.log }, some (.handle (.ok h)), free', lost',
      ?_, hs.issue hm (hc.block hb hfull hblock hcall), ?_, ?_, ?_⟩
    · unfold Sys.step
      simp only [ha, hmake]
    · have hreg : ({ s with ctx := ctx, log := .issued h :: s.log } : Sys ω τ π).registry
          = { s.registry with objs := Function.update s.registry.objs h (some v) } := by
        unfold Sys.registry
        rw [hm.objs]
      rw [hreg]
      exact .hmake ha hm.fresh
    · intro hg
      apply hm.kept hs.table
      rintro ⟨hf, hn⟩
      exact hg ⟨⟨hb, hf, hfull hf, hcall⟩, hn⟩
    · intro p hp
      rw [ha] at hp
      cases hp

theorem SysInv.hown (hs : SysInv query s free lost) (hc : Calm s a) {h : ℤ}
    (ha : a.call = .hown h) : ∃ s' o free' lost', Goes query s a s' o lost free' lost' := by
  have hret : ∀ p, a.call = .ret → s.closing.find? (fun p => p.cr = a.cr) = some p →
      ∃ l, free = l ++ [p.h] := by
    intro p hp
    rw [ha] at hp
    cases hp
  have hnot : ∀ p ∈ s.closing, p.h ≠ h := fun p hp hph => hc.apart p hp (.inr (hph ▸ ha))
  by_cases hu : s.ctx.InUse h
  · obtain ⟨v, hobj, hvfs⟩ := hs.table.obj hu
    rcases hs.table.hmake (s.ctx.handles h).vfs (s.canblock a) a.alloc with
      ⟨e, hmake, href⟩ | ⟨w, res, free', lost', ctx, hw, hb, hmake, hm, hfull, hblock⟩
    · refine ⟨s.enter a.cr h (some e), none, free, lost, ?_, hs.enter hu hnot a.cr (some e), ?_,
        fun _ hl => hl, hret⟩
      · unfold Sys.step
        simp only [ha, if_pos hu, hmake]
      · rw [hvfs] at href
        exact .hownRefused ha hobj (by rw [s.canblock_registry]; exact href)
    · have hcall : match a.call with
          | .hmake vfs => vfs ≠ none
          | .hown h => s.ctx.InUse h
          | _ => False := by
        rw [ha]
        exact hu
      have hvw : v = w := by
        rw [hvfs] at hw
        exact Option.some.inj hw
      subst hvw
      have hs₁ := hs.issue hm (hc.block hb hfull hblock hcall)
      have hne : h ≠ res := by
        rintro rfl
        rw [hm.fresh] at hobj
        cases hobj
      have hobj₁ : ctx.objs h = some v := by
        rw [hm.objs, Function.update_of_ne hne, hobj]
      have hu₁ : ctx.InUse h := hm.table.inUse_of_objs (by rw [hobj₁]; exact Option.some_ne_none v)
      have hs₂ := hs₁.release hu₁ (List.Sublist.refl _) hnot
      refine ⟨_, some (.handle (.ok res)), free' ++ [h], lost', ?_, hs₂, ?_, ?_, ?_⟩
      · unfold Sys.step
        simp only [ha, if_pos hu, hmake]
      · have hreg : (⟨ctx.release h ctx.block, s.closing,
            .released h :: .issued res :: s.log⟩ : Sys ω τ π).registry
            = { s.registry with
                objs := Function.update (Function.update s.registry.objs res (some v)) h none } := by
          unfold Sys.registry
          rw [(hm.table.release hu₁).2, hm.objs]
        exact hreg ▸ Registry.Step.hown ha hobj hm.fresh
      · intro hg
        apply hm.kept hs.table
        rintro ⟨hf, hn⟩
        exact hg ⟨⟨hb, hf, hfull hf, hcall⟩, hn⟩
      · intro p hp
        rw [ha] at hp
        cases hp
  · refine ⟨s, some (.handle (.error .EBADF)), free, lost, ?_, hs, ?_, fun _ hl => hl, hret⟩
    · unfold Sys.step
      simp only [ha, if_neg hu]
    · exact .hownBad ha (objs_of_not hu)

theorem SysInv.hquery (hs : SysInv query s free lost) {h : ℤ} {type : τ}
    (ha : a.call = .hquery h type) : ∃ s' o free' lost', Goes query s a s' o lost free' lost' := by
  obtain ⟨ctx, hq, ht, hobjs, hblock, hn⟩ := hs.table.hquery h type
  refine ⟨{ s with ctx := ctx }, some (.ptr (queried query s.ctx.objs h type)), free, lost, ?_,
    ?_, ?_, fun _ hl => hl, ?_⟩
  · unfold Sys.step
    simp only [ha, hq]
  · refine ⟨ht, fun p hp => ?_, hs.once, fun h0 => hs.empty (hn ▸ h0), hs.rotation⟩
    obtain ⟨hu, hb⟩ := hs.held p hp
    obtain ⟨w, hw, -⟩ := hs.table.obj hu
    have hobj : ctx.objs p.h ≠ none := by
      rw [hobjs, hw]
      exact Option.some_ne_none w
    exact ⟨ht.inUse_of_objs hobj, hb.trans hblock.symm⟩
  · have hreg : ({ s with ctx := ctx } : Sys ω τ π).registry = s.registry := by
      unfold Sys.registry
      rw [hobjs]
    rw [hreg]
    exact .hquery ha
  · intro p hp
    rw [ha] at hp
    cases hp

theorem SysInv.hclose (hs : SysInv query s free lost) (hc : Calm s a) {h : ℤ}
    (ha : a.call = .hclose h) : ∃ s' o free' lost', Goes query s a s' o lost free' lost' := by
  have hret : ∀ p, a.call = .ret → s.closing.find? (fun p => p.cr = a.cr) = some p →
      ∃ l, free = l ++ [p.h] := by
    intro p hp
    rw [ha] at hp
    cases hp
  by_cases hu : s.ctx.InUse h
  · obtain ⟨v, hobj, -⟩ := hs.table.obj hu
    have hnot : ∀ p ∈ s.closing, p.h ≠ h := fun p hp hph => hc.apart p hp (.inl (hph ▸ ha))
    refine ⟨s.enter a.cr h none, none, free, lost, ?_, hs.enter hu hnot a.cr none, .hclose ha hobj,
      fun _ hl => hl, hret⟩
    unfold Sys.step
    simp only [ha, if_pos hu]
  · refine ⟨s, some (.closed (.error .EBADF)), free, lost, ?_, hs, .hcloseBad ha (objs_of_not hu),
      fun _ hl => hl, hret⟩
    unfold Sys.step
    simp only [ha, if_neg hu]

omit [DecidableEq τ] in
theorem find_registry (s : Sys ω τ π) (cr : ℕ) :
    s.registry.closing.find? (fun p => p.cr = cr)
      = (s.closing.find? fun p => p.cr = cr).map Closing.pending := by
  unfold Sys.registry
  rw [List.find?_map]
  rfl

theorem SysInv.ret (hs : SysInv query s free lost) (ha : a.call = .ret) :
    ∃ s' o free' lost', Goes query s a s' o lost free' lost' := by
  cases hfind : s.closing.find? fun p => p.cr = a.cr with
  | none =>
    refine ⟨s, none, free, lost, ?_, hs, ?_, fun _ hl => hl, ?_⟩
    · unfold Sys.step
      simp only [ha, hfind]
    · exact .idle ha (by rw [find_registry, hfind]; rfl)
    · intro p _ hp
      rw [hfind] at hp
      cases hp
  | some p =>
    obtain ⟨hcr, l₁, l₂, hl, hl₁⟩ := List.find?_eq_some_iff_append.mp hfind
    have herase : s.closing.eraseP (fun p => p.cr = a.cr) = l₁ ++ l₂ := by
      have hhead : (p :: l₂).eraseP (fun p => p.cr = a.cr) = l₂ := List.eraseP_cons_of_pos hcr
      rw [hl, List.eraseP_append_right _ (fun q hq => by simpa using hl₁ q hq), hhead]
    have hp : p ∈ s.closing := hl ▸ List.mem_append_right _ List.mem_cons_self
    obtain ⟨hu, hblock⟩ := hs.held p hp
    have hne : ∀ q ∈ l₁ ++ l₂, q.h ≠ p.h := by
      have honce := hs.once
      rw [hl, List.map_append, List.map_cons, List.nodup_middle, List.nodup_cons,
        ← List.map_append] at honce
      intro q hq hqp
      exact honce.1 (hqp ▸ List.mem_map_of_mem hq)
    have hsub : (l₁ ++ l₂).Sublist s.closing := herase ▸ List.eraseP_sublist
    have hs' := hs.release hu hsub hne
    refine ⟨_, some (Pending.answer p.pending), free ++ [p.h], lost, ?_, hs', ?_, fun _ hl => hl, ?_⟩
    · unfold Sys.step
      simp only [ha, hfind, herase, hblock]
      rfl
    · have hreg : (⟨s.ctx.release p.h s.ctx.block, l₁ ++ l₂, .released p.h :: s.log⟩ :
          Sys ω τ π).registry
          = ⟨Function.update s.registry.objs p.pending.h none,
              s.registry.closing.eraseP fun p => p.cr = a.cr⟩ := by
        unfold Sys.registry
        rw [(hs.table.release hu).2, List.eraseP_map, ← herase]
        rfl
      exact hreg ▸ Registry.Step.ret ha (by rw [find_registry, hfind]; rfl)
    · intro q _ hq
      rw [hfind] at hq
      cases hq
      exact ⟨free, rfl⟩

/-- One call that leaves the closes in progress alone. -/
theorem SysInv.step (hs : SysInv query s free lost) (hc : Calm s a) :
    ∃ s' o free' lost', Goes query s a s' o lost free' lost' := by
  cases ha : a.call with
  | hmake vfs => exact hs.hmake hc ha
  | hown h => exact hs.hown hc ha
  | hquery h type => exact hs.hquery ha
  | hclose h => exact hs.hclose hc ha
  | ret => exact hs.ret ha

end Libdill.Handle
