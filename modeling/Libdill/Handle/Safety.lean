import Libdill.Handle.Calls

/-!
# Handle table safety

* `handle_table_safe`: without interleaving the table is a registry of objects; a close callback
  may close other handles.
* `concurrent_close_safe`: so it is when other coroutines run during a close, as long as they leave
  it alone; `closed_handle_in_use` is a run in which the array moves under a close.
* `no_handle_lost`: as long as only the empty table grows, every unused handle is on the list and a
  handle waits for 8 others before it is used again; `handle_reissued` is a run with a second
  growth.
-/

namespace Libdill.Handle

open Foundations

variable {ω τ π : Type} {query : ω → τ → Option π} {r r' : Registry ω} {a : Act ω τ}
  {o : Option (Ans π)}

/-! ## Consequences for a handle -/

/-- The call is over for the handle `h`: it was owned away or its close has ended. -/
def Registry.Ends (r : Registry ω) (a : Act ω τ) (h : ℤ) : Prop :=
  a.call = .hown h ∨
    a.call = .ret ∧ ∃ p, r.closing.find? (fun p => p.cr = a.cr) = some p ∧ p.h = h

/-- The call takes the handle `h`. -/
def Act.Names (a : Act ω τ) (h : ℤ) : Prop :=
  a.call = .hclose h ∨ a.call = .hown h ∨ ∃ type, a.call = .hquery h type

/-- The answer is `EBADF`. -/
def Ans.IsBad : Ans π → Prop
  | .handle r => r = .error .EBADF
  | .ptr r => r = .error .EBADF
  | .closed r => r = .error .EBADF

/-- A handle refers to its object until it is owned away or its close has ended. -/
theorem Registry.Step.keeps (hs : r.Step query a r' o) {h : ℤ} {v : ω} (hv : r.objs h = some v) :
    r'.objs h = some v ∨ r.Ends a h := by
  cases hs with
  | @hmake w h' ha hfresh =>
    left
    have hne : h ≠ h' := by
      rintro rfl
      rw [hfresh] at hv
      cases hv
    show Function.update r.objs h' (some w) h = _
    rw [Function.update_of_ne hne, hv]
  | hmakeRefused => exact .inl hv
  | @hown h' res w ha hw hfresh =>
    by_cases hh : h = h'
    · exact .inr (.inl (hh ▸ ha))
    · left
      have hne : h ≠ res := by
        rintro rfl
        rw [hfresh] at hv
        cases hv
      show Function.update (Function.update r.objs res (some w)) h' none h = _
      rw [Function.update_of_ne hh, Function.update_of_ne hne, hv]
  | hownRefused => exact .inl hv
  | hownBad => exact .inl hv
  | hquery => exact .inl hv
  | hclose => exact .inl hv
  | hcloseBad => exact .inl hv
  | @ret p ha hfind =>
    by_cases hh : h = p.h
    · exact .inr (.inr ⟨ha, p, hfind, hh.symm⟩)
    · left
      show Function.update r.objs p.h none h = _
      rw [Function.update_of_ne hh, hv]
  | idle => exact .inl hv

/-- A handle that is not in use stays so until it is given out again. -/
theorem Registry.Step.stays (hs : r.Step query a r' o) {h : ℤ} (hn : r.objs h = none) :
    r'.objs h = none ∨ o = some (.handle (.ok h)) := by
  cases hs with
  | @hmake w h' ha hfresh =>
    by_cases hh : h = h'
    · exact .inr (by rw [hh])
    · left
      show Function.update r.objs h' (some w) h = _
      rw [Function.update_of_ne hh, hn]
  | hmakeRefused => exact .inl hn
  | @hown h' res w ha hw hfresh =>
    by_cases hh : h = res
    · exact .inr (by rw [hh])
    · left
      show Function.update (Function.update r.objs res (some w)) h' none h = _
      by_cases hh' : h = h'
      · rw [hh', Function.update_self]
      · rw [Function.update_of_ne hh', Function.update_of_ne hh, hn]
  | hownRefused => exact .inl hn
  | hownBad => exact .inl hn
  | hquery => exact .inl hn
  | hclose => exact .inl hn
  | hcloseBad => exact .inl hn
  | @ret p ha hfind =>
    left
    show Function.update r.objs p.h none h = _
    by_cases hh : h = p.h
    · rw [hh, Function.update_self]
    · rw [Function.update_of_ne hh, hn]
  | idle => exact .inl hn

/-- A call on a handle that is not in use fails with `EBADF` and changes nothing. -/
theorem Registry.Step.bad (hs : r.Step query a r' o) {h : ℤ} (hn : r.objs h = none)
    (ha : a.Names h) : r' = r ∧ ∃ x, o = some x ∧ x.IsBad := by
  have hcall : ∀ c, a.call = c → (c = .hclose h ∨ c = .hown h ∨ ∃ type, c = .hquery h type) := by
    rintro c rfl
    exact ha
  cases hs with
  | hmake hc => rcases hcall _ hc with hc | hc | ⟨ty, hc⟩ <;> cases hc
  | hmakeRefused hc => rcases hcall _ hc with hc | hc | ⟨ty, hc⟩ <;> cases hc
  | hown hc hv =>
    rcases hcall _ hc with hc | hc | ⟨ty, hc⟩ <;> cases hc
    rw [hn] at hv
    cases hv
  | hownRefused hc hv =>
    rcases hcall _ hc with hc | hc | ⟨ty, hc⟩ <;> cases hc
    rw [hn] at hv
    cases hv
  | hownBad => exact ⟨rfl, _, rfl, rfl⟩
  | hquery hc =>
    rcases hcall _ hc with hc | hc | ⟨ty, hc⟩ <;> cases hc
    refine ⟨rfl, _, rfl, ?_⟩
    show queried query r.objs h _ = _
    unfold queried
    rw [hn]
  | hclose hc hv =>
    rcases hcall _ hc with hc | hc | ⟨ty, hc⟩ <;> cases hc
    rw [hn] at hv
    cases hv
  | hcloseBad => exact ⟨rfl, _, rfl, rfl⟩
  | ret hc => rcases hcall _ hc with hc | hc | ⟨ty, hc⟩ <;> cases hc
  | idle hc => rcases hcall _ hc with hc | hc | ⟨ty, hc⟩ <;> cases hc

/-! ## Safety -/

variable [DecidableEq τ] {s s' : Sys ω τ π}

/-- What holds of the table in every state, for the calls that `ok` allows in it. -/
structure Sound (query : ω → τ → Option π) (ok : Sys ω τ π → Act ω τ → Prop) (s : Sys ω τ π) :
    Prop where
  /-- The list of unused handles is acyclic, ends in -1, and its last element is `ctx->last`. -/
  list : ∃ free, FreeList s.ctx free
  /-- The handles in use are those with an object. -/
  live : ∀ h, s.ctx.InUse h ↔ ∃ v, s.ctx.objs h = some v
  /-- Every call has a result (no handle is taken from an empty list) and does to the handles what
  it does to the registry. -/
  step : ∀ a, ok s a → ∃ s' o, s.step query a = .ok (s', o) ∧
    s.registry.Step query a s'.registry o
  /-- A handle refers to its object until it is owned away or its close has ended. -/
  keeps : ∀ a s' o, ok s a → s.step query a = .ok (s', o) → ∀ h v, s.ctx.objs h = some v →
    s'.ctx.objs h = some v ∨ s.registry.Ends a h
  /-- After that it is not in use until it is given out again. -/
  stays : ∀ a s' o, ok s a → s.step query a = .ok (s', o) → ∀ h, s.ctx.objs h = none →
    s'.ctx.objs h = none ∨ o = some (.handle (.ok h))
  /-- Until then every call on it fails with `EBADF`. -/
  bad : ∀ a s' o, ok s a → s.step query a = .ok (s', o) → ∀ h, s.ctx.objs h = none →
    a.Names h → ∃ x, o = some x ∧ x.IsBad

/-- The invariant holds in every run of calls that leave the closes in progress alone. -/
theorem reach_sysInv {ok : Sys ω τ π → Act ω τ → Prop} (hok : ∀ s a, ok s a → Calm s a)
    (h : Reach (Sys.next query) (fun s => s = .init) ok s) :
    ∃ free lost, SysInv query s free lost := by
  apply h.invariant (I := fun s => ∃ free lost, SysInv query s free lost)
  · rintro s rfl
    exact ⟨[], [], sysInv_init⟩
  · rintro s a s' ⟨free, lost, hs⟩ ha he
    obtain ⟨s₁, o, free', lost', hg⟩ := hs.step (hok s a ha)
    unfold Sys.next at he
    rw [hg.step] at he
    cases he
    exact ⟨free', lost', hg.inv⟩

theorem SysInv.sound {free lost : List ℤ} {ok : Sys ω τ π → Act ω τ → Prop}
    (hs : SysInv query s free lost) (hok : ∀ a, ok s a → Calm s a) : Sound query ok s := by
  have hstep : ∀ a s' o, ok s a → s.step query a = .ok (s', o) →
      s.registry.Step query a s'.registry o := by
    intro a s' o ha he
    obtain ⟨s₁, o₁, free', lost', hg⟩ := hs.step (hok a ha)
    rw [hg.step] at he
    cases he
    exact hg.registry
  refine ⟨⟨free, hs.table.toFreeList⟩, ?_, ?_, ?_, ?_, ?_⟩
  · intro h
    constructor
    · intro hu
      obtain ⟨v, hv, -⟩ := hs.table.obj hu
      exact ⟨v, hv⟩
    · rintro ⟨v, hv⟩
      exact hs.table.inUse_of_objs (by rw [hv]; exact Option.some_ne_none v)
  · intro a ha
    obtain ⟨s', o, free', lost', hg⟩ := hs.step (hok a ha)
    exact ⟨s', o, hg.step, hg.registry⟩
  · intro a s' o ha he h v hv
    exact (hstep a s' o ha he).keeps hv
  · intro a s' o ha he h hn
    exact (hstep a s' o ha he).stays hn
  · intro a s' o ha he h hn hname
    exact ((hstep a s' o ha he).bad hn hname).2

/-- While a close callback runs only its coroutine runs, and it does not close or own a handle that
is being closed. -/
structure SingleFile (s : Sys ω τ π) (a : Act ω τ) : Prop where
  alone : ∀ p ∈ s.closing, p.cr = a.cr
  others : ∀ p ∈ s.closing, ¬ a.GivesUp p.h

omit [DecidableEq τ] in
theorem SingleFile.calm (h : SingleFile s a) : Calm s a where
  apart := h.others
  still hg _ := by
    have hcan := hg.1
    unfold Sys.canblock at hcan
    rw [Bool.and_eq_true, Bool.not_eq_true', Bool.not_eq_true', decide_eq_false_iff_not] at hcan
    apply List.eq_nil_iff_forall_not_mem.mpr
    intro p hp
    exact hcan.2 ⟨p, hp, h.alone p hp⟩

/-- **Handle table safety.** -/
theorem handle_table_safe (h : Reach (Sys.next query) (fun s => s = .init) SingleFile s) :
    Sound query SingleFile s := by
  obtain ⟨free, lost, hs⟩ := reach_sysInv (fun _ _ h => h.calm) h
  exact hs.sound fun _ ha => ha.calm

/-- One object with one type, whose query always succeeds. -/
def unitQuery : Unit → Unit → Option Unit := fun _ _ => some ()

/-- A call of `hmake` by the coroutine `cr`; a growth moves the array. -/
def making (cr : ℕ) : Act Unit Unit := ⟨cr, false, .moved, .hmake (some ())⟩

def closing (cr : ℕ) (h : ℤ) : Act Unit Unit := ⟨cr, false, .moved, .hclose h⟩

def returning (cr : ℕ) : Act Unit Unit := ⟨cr, false, .moved, .ret⟩

theorem handle_table_safe_closingOne :
    ∃ s : Sys Unit Unit Unit, s.closing ≠ [] ∧ s.ctx.InUse 0 ∧ Sound unitQuery SingleFile s := by
  have h₀ : Reach (Sys.next unitQuery) (fun s => s = .init) SingleFile .init := .init rfl
  have h₁ := h₀.step (making 0) ⟨fun p hp => absurd hp List.not_mem_nil,
    fun p hp => absurd hp List.not_mem_nil⟩ rfl
  have h₂ := h₁.step (closing 0 0) ⟨fun p hp => absurd hp List.not_mem_nil,
    fun p hp => absurd hp List.not_mem_nil⟩ rfl
  exact ⟨_, List.cons_ne_nil _ _, by decide, handle_table_safe h₂⟩

/-! ## Closing while others run -/

/-- **A close is atomic for the others**, as long as they leave it alone: then the handle is not in
use any more, it is the last of the list of unused handles, and all other handles are as they
were. -/
theorem concurrent_close_safe (h : Reach (Sys.next query) (fun s => s = .init) Calm s) :
    Sound query Calm s ∧
    ∀ a p, a.call = .ret → s.closing.find? (fun p => p.cr = a.cr) = some p → p.own = none →
      ∃ s', s.step query a = .ok (s', some (.closed (.ok ()))) ∧ ¬ s'.ctx.InUse p.h ∧
        (∀ type, s'.ctx.hquery query p.h type = .ok (.error .EBADF, s'.ctx)) ∧
        (∃ l, FreeList s'.ctx (l ++ [p.h])) ∧
        ∀ i, i ≠ p.h → s'.ctx.objs i = s.ctx.objs i := by
  obtain ⟨free, lost, hs⟩ := reach_sysInv (fun _ _ h => h) h
  refine ⟨hs.sound fun _ ha => ha, ?_⟩
  intro a p ha hfind hown
  obtain ⟨s', o, free', lost', hg⟩ := hs.ret ha
  obtain ⟨l, hl⟩ := hg.returned p ha hfind
  have hreg := hg.registry
  have hfind' : s.registry.closing.find? (fun p => p.cr = a.cr) = some p.pending := by
    rw [find_registry, hfind]
    rfl
  have hlist := hg.inv.table.toFreeList
  rw [hl] at hlist
  have hu : ¬ s'.ctx.InUse p.h := (hlist.unused p.h (List.mem_append_right _
    (List.mem_singleton.mpr rfl))).2.2
  have hres : o = some (.closed (.ok ())) ∧ ∀ i, i ≠ p.h → s'.ctx.objs i = s.ctx.objs i := by
    cases hr : s'.registry with
    | mk objs cl =>
      rw [hr] at hreg
      have hobjs : s'.ctx.objs = objs := congrArg Registry.objs hr
      rw [hobjs]
      cases hreg with
      | ret _ hf =>
        rw [hfind'] at hf
        cases hf
        refine ⟨?_, fun i hi => Function.update_of_ne hi _ _⟩
        unfold Pending.answer Closing.pending
        rw [hown]
      | idle _ hf => rw [hfind'] at hf; cases hf
      | hmake hc => rw [ha] at hc; cases hc
      | hmakeRefused hc => rw [ha] at hc; cases hc
      | hown hc => rw [ha] at hc; cases hc
      | hownRefused hc => rw [ha] at hc; cases hc
      | hownBad hc => rw [ha] at hc; cases hc
      | hquery hc => rw [ha] at hc; cases hc
      | hclose hc => rw [ha] at hc; cases hc
      | hcloseBad hc => rw [ha] at hc; cases hc
  refine ⟨s', ?_, hu, fun type => if_neg hu, ⟨l, hlist⟩, hres.2⟩
  rw [hg.step, hres.1]

theorem concurrent_close_safe_openedMeanwhile :
    ∃ s s' : Sys Unit Unit Unit, s.step unitQuery (returning 0) = .ok (s', some (.closed (.ok ()))) ∧
      s.ctx.InUse 1 ∧ ¬ s'.ctx.InUse 0 := by
  have h₀ : Reach (Sys.next unitQuery) (fun s => s = .init) Calm .init := .init rfl
  have h₁ := h₀.step (making 0) ⟨fun _ _ => rfl, fun p hp => absurd hp List.not_mem_nil⟩ rfl
  have h₂ := h₁.step (closing 0 0) ⟨fun _ _ => rfl, fun p hp => absurd hp List.not_mem_nil⟩ rfl
  have h₃ := h₂.step (making 1)
    ⟨fun hg _ => absurd hg.2.1 (by decide), fun p _ hg => by rcases hg with hg | hg <;> cases hg⟩
    rfl
  obtain ⟨s', hs', hu, -⟩ := (concurrent_close_safe h₃).2 (returning 0) ⟨0, 0, 1, none⟩ rfl rfl rfl
  exact ⟨_, s', hs', by decide, hu⟩

/-- The first coroutine makes a handle and is inside its close while the second one makes 249
others, for which the array is moved; then the callback returns. -/
def movedTrace : List (Act Unit Unit) :=
  making 0 :: closing 0 0 :: (List.replicate 249 (making 1) ++ [returning 0])

/-- After `hclose(0)` has returned the handle 0 is in use, and it is an element of the list. -/
theorem closed_handle_in_use :
    ∃ s : Sys Unit Unit Unit, run (Sys.next unitQuery) .init movedTrace = .ok s ∧
      s.closing = [] ∧ s.log.head? = some (.released 0) ∧ s.ctx.InUse 0 ∧ s.ctx.last = 0 := by
  obtain ⟨s, hr, hp⟩ := exists_of_runsTo (Sys.next unitQuery) .init movedTrace
    (fun s => s.closing.isEmpty && s.log.head? == some (.released 0) && decide (s.ctx.InUse 0) &&
      s.ctx.last == 0) (by decide +kernel)
  simp only [Bool.and_eq_true, List.isEmpty_iff, beq_iff_eq, decide_eq_true_eq] at hp
  exact ⟨s, hr, hp.1.1.1, hp.1.1.2, hp.1.2, hp.2⟩

/-! ## Unused handles -/

/-- The call grows no table but the empty one. -/
def Sys.GrowsEmpty (s : Sys ω τ π) (a : Act ω τ) : Prop := s.Grows a → s.ctx.nhandles = 0

/-- **No handle is lost**, and at least 8 others are given out before a handle is used again, as
long as no table that is not empty grows. -/
theorem no_handle_lost
    (h : Reach (Sys.next query) (fun s => s = .init) (fun s a => Calm s a ∧ s.GrowsEmpty a) s) :
    (∃ free, FreeList s.ctx free ∧ (free.length : ℤ) = s.ctx.nhandles - s.ctx.nused ∧
      ∀ i, 0 ≤ i → i < s.ctx.nhandles → ¬ s.ctx.InUse i → i ∈ free) ∧
    Delayed s.log := by
  have hinv : ∃ free, SysInv query s free [] := by
    apply h.invariant (I := fun s => ∃ free, SysInv query s free [])
    · rintro s rfl
      exact ⟨[], sysInv_init⟩
    · rintro s a s' ⟨free, hs⟩ ⟨hc, hg⟩ he
      obtain ⟨s₁, o, free', lost', hgo⟩ := hs.step hc
      unfold Sys.next at he
      rw [hgo.step] at he
      cases he
      have hlost : lost' = [] := hgo.kept (fun hn => hn.2 (hg hn.1)) rfl
      exact ⟨free', hlost ▸ hgo.inv⟩
  obtain ⟨free, hs⟩ := hinv
  have hcount := hs.table.count
  rw [List.length_nil] at hcount
  refine ⟨⟨free, hs.table.toFreeList, by push_cast at hcount; omega, ?_⟩, (hs.rotation rfl).delayed⟩
  intro i h0 hi hu
  have hm := hs.table.all i h0 hi hu
  rwa [List.append_nil] at hm

theorem no_handle_lost_closedOne :
    ∃ s : Sys Unit Unit Unit, s.log = [.released 0, .issued 0] ∧ Delayed s.log := by
  have h₀ : Reach (Sys.next unitQuery) (fun s => s = .init)
    (fun s a => Calm s a ∧ s.GrowsEmpty a) .init := .init rfl
  have h₁ := h₀.step (making 0)
    ⟨⟨fun _ _ => rfl, fun p hp => absurd hp List.not_mem_nil⟩, fun _ => rfl⟩ rfl
  have h₂ := h₁.step (closing 0 0)
    ⟨⟨fun _ _ => rfl, fun p hp => absurd hp List.not_mem_nil⟩, fun hg => hg.2.2.2.elim⟩ rfl
  have h₃ := h₂.step (returning 0)
    ⟨⟨fun hg => hg.2.2.2.elim, fun p _ hg => by rcases hg with hg | hg <;> cases hg⟩,
      fun hg => hg.2.2.2.elim⟩ rfl
  exact ⟨_, rfl, (no_handle_lost h₃).2⟩

/-- 504 handles are made, one of them is closed and another one is made. -/
def grownTrace : List (Act Unit Unit) :=
  List.replicate 504 (making 0) ++ [closing 0 300, returning 0, making 0]

/-- The table grows to 512 entries; 8 entries are not in use when the list is empty, and the closed
handle is given out at once. -/
theorem handle_reissued :
    ∃ s : Sys Unit Unit Unit, run (Sys.next unitQuery) .init grownTrace = .ok s ∧
      s.ctx.nhandles - s.ctx.nused = 8 ∧ (∀ free, FreeList s.ctx free → free = []) ∧
      ¬ Delayed s.log := by
  obtain ⟨s, hr, hp⟩ := exists_of_runsTo (Sys.next unitQuery) .init grownTrace
    (fun s => s.ctx.nhandles - s.ctx.nused == 8 && s.ctx.first == -1 &&
      s.log.take 2 == [.issued 300, .released 300]) (by decide +kernel)
  simp only [Bool.and_eq_true, beq_iff_eq] at hp
  refine ⟨s, hr, hp.1.1, fun free hf => ?_, fun hd => ?_⟩
  · have hchain := hf.chain
    rw [hp.1.2] at hchain
    exact hchain.eq_nil hf.not_mem_end
  · have hlog := List.take_append_drop 2 s.log
    rw [hp.2] at hlog
    have hcount := hd 300 [] [] (s.log.drop 2) hlog.symm List.not_mem_nil
    rw [List.countP_nil] at hcount
    omega

end Libdill.Handle
