import Libdill.Sched.Members

/-!
# Waiting for a bundle

A bundle has one slot, `waiter`, for the clause of `dill_bundle_wait`. The clause has no cancel
callback: the slot is overwritten by the next caller and cleared only when a caller runs again. The
end of the last coroutine of the bundle triggers whatever the slot holds.

Two things go wrong. A caller that has been woken otherwise (by its deadline, by a cancellation, by
an earlier end) and has not run yet is still in the slot, and triggering it fails on the assertion
of `dill_docancel`. And of several callers only the one in the slot is resumed. The theorems say
exactly when this happens: `bundle_waiter_safe` for a single caller over whole runs, and
`bundle_waiters_resumed` for any number of them at the end of the last coroutine.
-/

namespace Libdill.Sched

open Foundations

namespace Ctx

variable {k k' : Cur} {s s' : Ctx} {c : CrId} {id : ℤ} {err : Errno} {op i : ℕ} {f : Frame}
  {j : Job} {b : BundleId}

/-- The bundle a coroutine is in `dill_bundle_wait` on. -/
def waitsOn (s : Ctx) (c : CrId) : Option BundleId :=
  match (s.crs c).frame with
  | some (_, .bundleWait b) => some b
  | _ => none

theorem waitsOn_iff : s.waitsOn c = some b ↔ ∃ op, (s.crs c).frame = some (op, .bundleWait b) := by
  unfold waitsOn
  constructor
  · intro h
    split at h
    · rename_i op b' hf
      cases h
      exact ⟨op, hf⟩
    · cases h
  · rintro ⟨op, hf⟩
    rw [hf]

/-! ## The end of a coroutine -/

/-- The clause that `dill_epilogue` triggers: the waiter of the bundle, if the running coroutine
is the last one of it and is not being closed. -/
def exitTriggers (s : Ctx) : Option ClauseRef :=
  if (s.crs s.r).noBlocking1 then none
  else (s.crs s.r).bundle.bind fun b =>
    if (s.bundles b).crs.length = 1 then (s.bundles b).waiter else none

/-- What the change does to a coroutine that is suspended in `dill_bundle_wait`: nothing, or it is
resumed. -/
def Resumes (s s' : Ctx) (t : Option ClauseRef) : Prop :=
  ∀ c b, s.waitsOn c = some b → c ∉ s.ready → s'.waitsOn c = some b ∧
    ((∀ w, t = some w → w.cr ≠ c) → c ∉ s'.ready) ∧
    ∀ w, t = some w → w.cr = c → c ∈ s'.ready ∧ (s'.crs c).id = w.id ∧ (s'.crs c).err = .ok

theorem resumes_none (hw : ∀ c, s'.waitsOn c = s.waitsOn c)
    (hr : ∀ c b, s.waitsOn c = some b → c ∉ s.ready → c ∉ s'.ready) : Resumes s s' none := by
  intro c b hb hc
  refine ⟨by rw [hw, hb], fun _ => hr c b hb hc, ?_⟩
  intro w ht
  cases ht

theorem Resumes.trans {s'' : Ctx} {t : Option ClauseRef} (h : Resumes s s' none)
    (h' : Resumes s' s'' t) : Resumes s s'' t := by
  intro c b hb hc
  obtain ⟨hb', hr, -⟩ := h c b hb hc
  exact h' c b hb' (hr (by simp))

/-- Changes of other fields afterwards. -/
theorem Resumes.congr {s'' : Ctx} {t : Option ClauseRef} (h : Resumes s s' t)
    (hr : s''.ready = s'.ready) (hw : ∀ c b, s'.waitsOn c = some b → s''.waitsOn c = some b)
    (hid : ∀ c, (s''.crs c).id = (s'.crs c).id) (he : ∀ c, (s''.crs c).err = (s'.crs c).err) :
    Resumes s s'' t := by
  intro c b hb hc
  rw [hr, hid, he]
  exact ⟨hw c b (h c b hb hc).1, (h c b hb hc).2⟩

theorem waitsOn_wake (x : CrId) : (s.wake c id err).waitsOn x = s.waitsOn x := by
  unfold waitsOn
  rw [wake_frame]

theorem waitsOn_updCr {g : Cr → Cr} (hf : ∀ x, (g x).frame = x.frame) (s : Ctx) (c x : CrId) :
    (s.updCr c g).waitsOn x = s.waitsOn x := by
  unfold waitsOn
  rw [updCr_proj Cr.frame hf]

theorem resumes_wake {w : ClauseRef} : Resumes s (s.wake w.cr w.id .ok) (some w) := by
  intro c b hb hc
  refine ⟨by rw [waitsOn_wake, hb], fun hne => ?_, ?_⟩
  · rw [wake_ready, List.mem_append, List.mem_singleton, not_or]
    exact ⟨hc, fun he => hne w rfl he.symm⟩
  · rintro w' hw' rfl
    cases hw'
    rw [wake_crs, if_pos rfl, wake_ready]
    exact ⟨List.mem_append_right _ (.head _), rfl, rfl⟩

/-- The closer is not suspended in `dill_bundle_wait`. -/
theorem wakeCloser_resumes (h : Good .exiting s) :
    Post s.wakeCloser (fun s' => Resumes s s' none) fun _ => True := by
  have he : s.Exiting := h.cur
  rw [Ctx.wakeCloser]
  split
  · rename_i p hp
    by_cases hr : p ∈ s.ready
    · rw [cancel, docancel_of_ready h.toCore hr]
      trivial
    · rw [cancel, docancel_eq h.toCore hr]
      refine resumes_none (fun _ => waitsOn_wake _) fun c b hb hc => ?_
      rw [wake_ready, List.mem_append, List.mem_singleton, not_or]
      refine ⟨hc, ?_⟩
      rintro rfl
      obtain ⟨op, b', x, old, hf⟩ := he.closer c hp
      obtain ⟨op', hf'⟩ := waitsOn_iff.1 hb
      rw [hf] at hf'
      cases hf'
  · exact resumes_none (fun _ => rfl) fun _ _ _ hc => hc

theorem freeCr_resumes {t : Option ClauseRef} {s₀ : Ctx} (h : Resumes s₀ s t) :
    Post (s.freeCr c) (fun s' => Resumes s₀ s' t) fun _ => True := by
  rw [freeCr]
  split
  · exact h
  split
  · trivial
  · refine h.congr rfl (fun x b hb => ?_) (fun x => ?_) fun x => ?_
    · rw [waitsOn_updCr (by simp)]
      exact hb
    · rw [updCr_proj Cr.id (by simp)]
    · rw [updCr_proj Cr.err (by simp)]

theorem leaveBundle_resumes (h : Good .exiting s) :
    Post s.leaveBundle (fun s' => Resumes s s' s.exitTriggers) fun _ => True := by
  rw [leaveBundle]
  split
  · rename_i hn
    rw [exitTriggers, if_pos hn]
    exact resumes_none (fun _ => rfl) fun _ _ _ hc => hc
  rename_i hn
  rw [exitTriggers, if_neg hn]
  split
  · rename_i hb
    rw [hb]
    exact resumes_none (fun _ => rfl) fun _ _ _ hc => hc
  rename_i b hb
  rw [hb]
  have hw : Post (s.wakeWaiter b) (fun s' => Resumes s s'
      (if (s.bundles b).crs.length = 1 then (s.bundles b).waiter else none)) fun _ => True := by
    rw [Ctx.wakeWaiter]
    split
    · split
      · rename_i w hw
        rw [hw]
        by_cases hr : w.cr ∈ s.ready
        · rw [trigger, docancel_of_ready h.toCore hr]
          trivial
        · rw [trigger, docancel_eq h.toCore hr]
          exact resumes_wake
      · rename_i hw
        rw [hw]
        exact resumes_none (fun _ => rfl) fun _ _ _ hc => hc
    · exact resumes_none (fun _ => rfl) fun _ _ _ hc => hc
  refine hw.bind fun s₁ h₁ => ?_
  have h₂ : Resumes s (s₁.updBundle b fun x => { x with crs := x.crs.erase s₁.r }) _ :=
    h₁.congr rfl (fun _ _ hb => hb) (fun _ => rfl) fun _ => rfl
  exact freeCr_resumes h₂

/-- The flag `done` does not matter. -/
theorem exitTriggers_done :
    (s.updCr s.r fun cr => { cr with done := true }).exitTriggers = s.exitTriggers := by
  have hproj : ∀ {β : Type} (p : Cr → β), (∀ x, p { x with done := true } = p x) →
      p ((s.updCr s.r fun cr => { cr with done := true }).crs s.r) = p (s.crs s.r) :=
    fun p hp => updCr_proj p hp s s.r s.r
  change (if ((s.updCr s.r fun cr => { cr with done := true }).crs s.r).noBlocking1 then none
    else ((s.updCr s.r fun cr => { cr with done := true }).crs s.r).bundle.bind _) = _
  rw [hproj Cr.noBlocking1 fun _ => rfl, hproj Cr.bundle fun _ => rfl]
  rfl

theorem epilogue_resumes (h : Good .idle s) (hu : s.phase = .user) :
    Post s.epilogue (fun s' => Resumes s s' s.exitTriggers) fun _ => True := by
  have h₁ : Good .exiting (s.updCr s.r fun cr => { cr with done := true }) := h.finish hu
  have hr₁ : Resumes s (s.updCr s.r fun cr => { cr with done := true }) none := by
    refine resumes_none (fun c => ?_) fun _ _ _ hc => hc
    rw [waitsOn_updCr (by simp)]
  rw [epilogue]
  refine (((wakeCloser_post (l := false) h₁).and (wakeCloser_resumes h₁)).mono (fun _ hx => hx)
    fun _ _ => trivial).bind fun s₂ hw => ?_
  obtain ⟨⟨hm₂, hr, hbs, hn, hb, -⟩, hr₂⟩ := hw
  have h₂ := h₁.micros hm₂
  have ht : s₂.exitTriggers = s.exitTriggers := by
    rw [← exitTriggers_done (s := s)]
    unfold exitTriggers
    rw [hr, hbs, hn, hb]
  refine (((leaveBundle_post (l := false) h₂).and (leaveBundle_resumes h₂)).mono (fun _ hx => hx)
    fun _ _ => trivial).bind fun s₃ hl => ?_
  obtain ⟨hm₃, hr₃⟩ := hl
  have h₃ := h₂.micros hm₃
  have he : s₃.Exiting := h₃.cur
  rw [ht] at hr₃
  rw [if_pos he.clauses]
  refine ((hr₁.trans hr₂).trans hr₃).congr rfl (fun c b hc => ?_)
    (block_proj Cr.id (fun _ _ => rfl) s₃ 0 .epilogue) (block_proj Cr.err (fun _ _ => rfl) s₃ 0 _)
  obtain ⟨op, hf⟩ := waitsOn_iff.1 hc
  have hne : c ≠ s₃.r := by
    rintro rfl
    rw [he.frame] at hf
    cases hf
  refine waitsOn_iff.2 ⟨op, ?_⟩
  rw [block_crs, if_neg hne]
  exact hf

/-- **What the end of a coroutine does to those who wait for bundles.** -/
theorem exit_resumes (h : Good .idle s) (hs : s.step .exit = .ok s') :
    s.phase = .user ∧ Resumes s s' s.exitTriggers := by
  rw [step] at hs
  split at hs
  · rename_i hu
    exact ⟨hu.1, (epilogue_resumes h hu.1).of_ok hs⟩
  · cases hs

/-! ## The slot of the bundle -/

/-- At most one coroutine at a time is in `dill_bundle_wait` on each bundle. -/
def SingleWaiter (s : Ctx) : Prop :=
  ∀ c < s.ncrs, ∀ c' < s.ncrs, s.waitsOn c ≠ none → s.waitsOn c = s.waitsOn c' → c = c'

instance (s : Ctx) : Decidable s.SingleWaiter := by
  unfold SingleWaiter
  infer_instance

/-- With one caller for each bundle, the slot of a bundle holds it from the call until it runs
again. In the middle of a call of `dill_bundle_wait` the slot may be ahead of the frames. -/
structure Slots (k : Cur) (s : Ctx) : Prop where
  valid : ∀ b w, (s.bundles b).waiter = some w → b < s.nbundles
  slot : s.SingleWaiter ∨ s.phase = .switch → ∀ c b, s.waitsOn c = some b →
    (∀ j, k ≠ .waiting j (.bundleWait b)) → (s.bundles b).waiter = some ⟨c, 0⟩

theorem SingleWaiter.of_waits (h : s'.SingleWaiter) (hn : s.ncrs ≤ s'.ncrs)
    (hw : ∀ c b, s.waitsOn c = some b → s'.waitsOn c = some b) : s.SingleWaiter := by
  intro c hc c' hc' hne heq
  obtain ⟨b, hb⟩ := Option.ne_none_iff_exists'.1 hne
  have hb' := heq.symm.trans hb
  apply h c (hc.trans_le hn) c' (hc'.trans_le hn)
  · rw [hw c b hb]
    simp
  · rw [hw c b hb, hw c' b hb']

/-- The change leaves the slots and those who wait alone. -/
structure SameWaits (s s' : Ctx) : Prop where
  phase : s'.phase = .switch → s.phase = .switch
  ncrs : s.ncrs ≤ s'.ncrs
  nbundles : s'.nbundles = s.nbundles
  waitsOn : ∀ c, s'.waitsOn c = s.waitsOn c
  waiter : ∀ b, (s'.bundles b).waiter = (s.bundles b).waiter

theorem waitsOn_of_frame (h : (s'.crs c).frame = (s.crs c).frame) : s'.waitsOn c = s.waitsOn c := by
  unfold waitsOn
  rw [h]

theorem SameWaits.of_frames (hp : s'.phase = s.phase) (hn : s'.ncrs = s.ncrs)
    (hnb : s'.nbundles = s.nbundles) (hf : ∀ c, (s'.crs c).frame = (s.crs c).frame)
    (hb : ∀ b, (s'.bundles b).waiter = (s.bundles b).waiter) : SameWaits s s' :=
  ⟨fun h => hp ▸ h, hn.ge, hnb, fun c => waitsOn_of_frame (hf c), hb⟩

theorem SameWaits.trans {s'' : Ctx} (h : SameWaits s s') (h' : SameWaits s' s'') :
    SameWaits s s'' where
  phase hp := h.phase (h'.phase hp)
  ncrs := h.ncrs.trans h'.ncrs
  nbundles := h'.nbundles.trans h.nbundles
  waitsOn c := (h'.waitsOn c).trans (h.waitsOn c)
  waiter b := (h'.waiter b).trans (h.waiter b)

theorem Slots.congr (h : Slots k s) (e : SameWaits s s')
    (hk : ∀ j b, k = .waiting j (.bundleWait b) → k' = k) : Slots k' s' where
  valid b w hb := by
    rw [e.waiter] at hb
    rw [e.nbundles]
    exact h.valid b w hb
  slot ho c b hc hne := by
    rw [e.waitsOn] at hc
    rw [e.waiter]
    refine h.slot ?_ c b hc fun j hj => ?_
    · exact ho.imp (fun hs => hs.of_waits e.ncrs fun c b hc => by rw [e.waitsOn, hc]) e.phase
    · have hk' := hk j b hj
      rw [hj] at hk'
      exact hne j hk'

theorem sameWaits_wake (s : Ctx) (c : CrId) (id : ℤ) (err : Errno) : SameWaits s (s.wake c id err) :=
  .of_frames rfl rfl rfl wake_frame fun _ => rfl

theorem sameWaits_updCr {g : Cr → Cr} (hf : ∀ x, (g x).frame = x.frame) (s : Ctx) (c : CrId) :
    SameWaits s (s.updCr c g) :=
  .of_frames rfl rfl rfl (updCr_proj Cr.frame hf s c) fun _ => rfl

/-- The running coroutine is suspended elsewhere. -/
theorem sameWaits_block (hr : (s.crs s.r).frame = none) (hf : ∀ b, f ≠ .bundleWait b) :
    SameWaits s (s.block op f) := by
  refine ⟨by simp [Ctx.block], le_rfl, rfl, fun c => ?_, fun _ => rfl⟩
  by_cases hc : c = s.r
  · unfold Ctx.waitsOn
    rw [block_crs, if_pos hc, hc, hr]
    cases f with
    | bundleWait b => exact absurd rfl (hf b)
    | _ => rfl
  · apply waitsOn_of_frame
    rw [block_crs, if_neg hc]

theorem sameWaits_met (s : Ctx) (op i : ℕ) (a : ChanArg) (e : ChanClause) :
    SameWaits s (s.met op i a e) := by
  rw [met]
  split
  · refine .of_frames rfl rfl rfl (fun c => ?_) fun _ => rfl
    exact wake_frame (s := s) c
  · refine .of_frames rfl rfl rfl (fun c => ?_) fun _ => rfl
    exact wake_frame (s := s) c

theorem sameWaits_closeWaited {x : Handle} {old : Bool} (hr : (s.crs s.r).frame = none) :
    SameWaits s (s.closeWaited op b x old c) := by
  have h₁ := sameWaits_updCr (g := fun cr => { cr with noBlocking1 := true }) (by simp) s c
  have h₂ : SameWaits (s.updCr c fun cr => { cr with noBlocking1 := true })
      (if c ∈ s.ready then s.updCr c fun cr => { cr with noBlocking1 := true }
        else (s.updCr c fun cr => { cr with noBlocking1 := true }).wake c (-1) .ECANCELED) := by
    split
    · exact .of_frames rfl rfl rfl (fun _ => rfl) fun _ => rfl
    · exact sameWaits_wake ..
  have hr₂ : ((if c ∈ s.ready then s.updCr c fun cr => { cr with noBlocking1 := true }
      else (s.updCr c fun cr => { cr with noBlocking1 := true }).wake c (-1) .ECANCELED).crs
        s.r).frame = none := by
    split
    · rw [updCr_proj Cr.frame (by simp), hr]
    · rw [wake_frame, updCr_proj Cr.frame (by simp), hr]
  have hr₃ : (if c ∈ s.ready then s.updCr c fun cr => { cr with noBlocking1 := true }
      else (s.updCr c fun cr => { cr with noBlocking1 := true }).wake c (-1) .ECANCELED).r = s.r := by
    split <;> rfl
  rw [closeWaited]
  refine ((h₁.trans h₂).trans (sameWaits_block ?_ (by simp))).trans (sameWaits_updCr (by simp) _ c)
  rw [hr₃]
  exact hr₂

theorem sameWaits_launch (hr : (s.crs s.r).frame = none) (hlt : s.r < s.ncrs)
    (hnew : s.crs s.ncrs = {}) (mem : Bool) (v : Handle) : SameWaits s (s.launch op b mem v) := by
  have hcrs := launch_crs hlt op b mem v
  refine ⟨fun hp => hp, Nat.le_succ _, rfl, fun c => ?_, fun x => ?_⟩
  · by_cases hcn : c = s.ncrs
    · unfold Ctx.waitsOn
      rw [hcrs, if_pos hcn, hcn, hnew]
    · by_cases hcr : c = s.r
      · unfold Ctx.waitsOn
        rw [hcrs, if_neg hcn, if_pos hcr, hcr, hr]
      · apply waitsOn_of_frame
        rw [hcrs, if_neg hcn, if_neg hcr]
  · rw [launch_bundles]
    split
    · rename_i hx
      rw [hx]
    · rfl

/-- The one who waits is in the slot as soon as it is suspended. -/
theorem Slots.block (h : Slots (.waiting j f) s) (hc : s.Waiting j f)
    (hw : ∀ b, f = .bundleWait b → (s.bundles b).waiter = some ⟨s.r, 0⟩) (hlt : s.r < s.ncrs)
    (hfr : ∀ c, s.ncrs ≤ c → s.crs c = {}) : Slots .idle (s.block j.op f) := by
  by_cases hf : ∀ b, f ≠ .bundleWait b
  · refine h.congr (sameWaits_block hc.frame hf) ?_
    intro j' b hk
    cases hk
    exact absurd rfl (hf b)
  · obtain ⟨b, hf⟩ := not_forall.1 hf
    obtain rfl := not_not.1 hf
    refine ⟨h.valid, fun ho c b' hcb _ => ?_⟩
    have hr : ∀ x, x ≠ s.r → (s.block j.op (.bundleWait b)).waitsOn x = s.waitsOn x := fun x hx =>
      waitsOn_of_frame (by rw [block_crs, if_neg hx])
    have hself : (s.block j.op (.bundleWait b)).waitsOn s.r = some b :=
      waitsOn_iff.2 ⟨j.op, by rw [block_crs, if_pos rfl]⟩
    have hnone : s.waitsOn s.r = none := by
      unfold waitsOn
      rw [hc.frame]
    have hs : (s.block j.op (.bundleWait b)).SingleWaiter := by
      rcases ho with hs | hp
      · exact hs
      · cases hp
    by_cases hcr : c = s.r
    · rw [hcr, hself] at hcb
      cases hcb
      rw [hcr]
      exact hw b rfl
    · have hlt' : c < s.ncrs := by
        by_contra hge
        rw [hr c hcr] at hcb
        unfold waitsOn at hcb
        rw [hfr c (not_lt.1 hge)] at hcb
        cases hcb
      -- another one on the same bundle would be a second waiter
      have hne : b' ≠ b := by
        rintro rfl
        exact hcr (hs c hlt' s.r hlt (by rw [hcb]; simp) (hcb.trans hself.symm))
      rw [hr c hcr] at hcb
      refine h.slot (.inl (hs.of_waits le_rfl fun x y hx => ?_)) c b' hcb ?_
      · rw [hr x (by rintro rfl; rw [hnone] at hx; cases hx), hx]
      · intro j' hj'
        cases hj'
        exact hne rfl

/-- Nobody waits that did not wait before; the coroutine that goes on does not. -/
theorem waitsOn_popped {rest : List CrId} {x : CrId} (h : (s.popped c rest).waitsOn x = some b) :
    x ≠ c ∧ s.waitsOn x = some b := by
  obtain ⟨op, hf⟩ := waitsOn_iff.1 h
  by_cases hx : x = c
  · rw [popped_crs, if_pos hx] at hf
    cases hf
  · rw [popped_crs, if_neg hx] at hf
    exact ⟨hx, waitsOn_iff.2 ⟨op, hf⟩⟩

theorem Slots.popped (h : Slots .idle s) (hp : s.phase = .switch) (rest : List CrId) :
    Slots k (s.popped c rest) where
  valid := h.valid
  slot _ x b hx _ := h.slot (.inr hp) x b (waitsOn_popped hx).2 (by simp)

/-- The slot is cleared; it was that of the coroutine that goes on. -/
theorem Slots.poppedWait (h : Slots .idle s) (hp : s.phase = .switch) (rest : List CrId)
    (hc : s.waitsOn c = some b) : Slots (.busy j none)
      ((s.popped c rest).updBundle b fun x => { x with waiter := none }) := by
  have hold : ∀ b', b' ≠ b → (((s.popped c rest).updBundle b fun x =>
      { x with waiter := none }).bundles b') = s.bundles b' := fun b' hb' => by
    simp [updBundle, Ctx.popped, updCr, hb']
  have hnew : (((s.popped c rest).updBundle b fun x =>
      { x with waiter := none }).bundles b).waiter = none := by
    simp [updBundle]
  refine ⟨fun b' w hw => ?_, fun _ x b' hx _ => ?_⟩
  · by_cases hb' : b' = b
    · rw [hb', hnew] at hw
      cases hw
    · rw [hold b' hb'] at hw
      exact h.valid b' w hw
  · have hpop : (s.popped c rest).waitsOn x = some b' := hx
    obtain ⟨hne, hx'⟩ := waitsOn_popped hpop
    have hslot := h.slot (.inr hp) x b' hx' (by simp)
    by_cases hb' : b' = b
    · have hslot' := h.slot (.inr hp) c b hc (by simp)
      rw [hb', hslot'] at hslot
      cases hslot
      exact absurd rfl hne
    · rw [hold b' hb']
      exact hslot

theorem Slots.setWaiter (h : Slots (.waiting j (.bundleWait b)) s) (hb : b < s.nbundles) :
    Slots (.waiting j (.bundleWait b))
      ((s.updBundle b fun x => { x with waiter := some ⟨s.r, 0⟩ }).waitfor ⟨0, .null⟩) := by
  have hold : ∀ b', b' ≠ b → (((s.updBundle b fun x => { x with waiter := some ⟨s.r, 0⟩ }).waitfor
      ⟨0, .null⟩).bundles b') = s.bundles b' := fun b' hb' => by
    simp [updBundle, waitfor, updCr, hb']
  have hw : ∀ x, ((s.updBundle b fun x => { x with waiter := some ⟨s.r, 0⟩ }).waitfor
      ⟨0, .null⟩).waitsOn x = s.waitsOn x := fun x =>
    waitsOn_of_frame ((registered_waitfor _ 0).proj Cr.frame (fun _ _ => rfl) x)
  refine ⟨fun b' w hw' => ?_, fun ho x b' hx hne => ?_⟩
  · by_cases hb' : b' = b
    · rw [hb']
      exact hb
    · rw [hold b' hb'] at hw'
      exact h.valid b' w hw'
  · have hb' : b' ≠ b := by
      rintro rfl
      exact hne j rfl
    rw [hw] at hx
    rw [hold b' hb']
    refine h.slot (ho.imp (fun hs => hs.of_waits le_rfl fun y z hy => ?_) id) x b' hx hne
    rw [hw, hy]

theorem Slots.bundleMade (h : Slots (.busy j none) s) (mem : Bool) (x : Handle) :
    Slots (.busy j none) (s.bundleMade mem x) := by
  have hb : ∀ b, (s.bundleMade mem x).bundles b =
      if b = s.nbundles then { mem := mem, owner := s.r } else s.bundles b := fun b => by
    simp [Ctx.bundleMade, setHandle, Function.update_apply]
  refine ⟨fun b w hw => ?_, fun ho c b hc hne => ?_⟩
  · rw [hb] at hw
    split at hw
    · cases hw
    · exact Nat.lt_succ_of_lt (h.valid b w hw)
  · have hslot := h.slot ho c b hc hne
    rw [hb, if_neg (h.valid b _ hslot).ne]
    exact hslot

/-- **Every move keeps the slots.** -/
theorem Slots.micro {l : Bool} (h : Slots k s) (hg : Good k s) (hb : Members k s)
    (hm : Micro l k s k' s') : Slots k' s' := by
  cases hm with
  | quiet hq =>
    refine h.congr (.of_frames hq.phase hq.ncrs hq.nbundles (hq.proj Cr.frame fun _ _ _ => rfl)
      fun b => ?_) fun _ _ _ => rfl
    obtain ⟨fr, hfr⟩ := hq.bundle b
    rw [hfr]
  | trigger hk hl he hq => exact h.congr (sameWaits_wake ..) fun _ _ _ => rfl
  | meet ha hd hq => exact h.congr (sameWaits_met ..) (by simp)
  | ret hv hc => exact h.congr (.of_frames rfl rfl rfl (fun _ => rfl) fun _ => rfl) (by simp)
  | hold hj => exact h.congr (sameWaits_updCr (by simp) s s.r) (by simp)
  | unhold hu hc hj hh => exact h.congr (sameWaits_updCr (by simp) s s.r) (by simp)
  | chmake h₀ h₁ => exact h.congr (.of_frames rfl rfl rfl (fun _ => rfl) fun _ => rfl) (by simp)
  | bundle mem x => exact h.bundleMade mem x
  | startTerm ch hn => exact h.congr (.of_frames rfl rfl rfl (fun _ => rfl) fun _ => rfl) (by simp)
  | endTerm hq => exact h.congr (.of_frames rfl rfl rfl (fun _ => rfl) fun _ => rfl) (by simp)
  | startWait hb' hw hf hn =>
    exact h.congr (.of_frames rfl rfl rfl (fun _ => rfl) fun _ => rfl) (by simp)
  | @enqueue l s j f i a hi hf ha hlt hn hd hp =>
    exact h.congr (.of_frames rfl rfl rfl ((registered_enqueue s j.op i a.sd a.half a.val a.len).proj
      Cr.frame fun _ _ => rfl) fun _ => rfl) fun _ _ _ => rfl
  | @timer l s j f i deadline hi hf =>
    by_cases hd : deadline < 0
    · rw [Ctx.timer, if_pos hd]
      exact h
    · have hreg := registered_timer s i hd
      have hfr := hreg.proj Cr.frame fun _ _ => rfl
      rw [Ctx.timer, if_neg hd] at hfr ⊢
      exact h.congr (.of_frames rfl rfl rfl hfr fun _ => rfl) fun _ _ _ => rfl
  | linkFd hi hc hw =>
    exact h.congr (.of_frames rfl rfl rfl ((registered_linkFd s _ _ hw).proj Cr.frame
      fun _ _ => rfl) fun _ => rfl) fun _ _ _ => rfl
  | @setWaiter l s j b hi hne =>
    obtain ⟨x, hx⟩ := List.exists_mem_of_ne_nil _ hne
    exact h.setWaiter (hb.bundle x b (hb.mem b x hx)).1
  | @block l s j f hw => exact h.block hg.cur hw hg.r_lt hg.fresh
  | @yield l s j hb' hj =>
    have hc : s.Busy j := hg.cur
    rw [hg.toCore.resume_eq_wake hc.clauses 0 .ok]
    refine h.congr ((sameWaits_wake s s.r 0 .ok).trans (sameWaits_block ?_ (by simp))) (by simp)
    rw [wake_frame]
    exact hc.frame
  | @launch l s j b mem v hb' hj hh =>
    have hc : s.Busy j := hg.cur
    exact h.congr (sameWaits_launch hc.frame hg.r_lt (hg.fresh _ le_rfl) mem v) (by simp)
  | popped hp hr hf hj ho hn hc => exact h.popped hp _
  | @poppedWait l s c rest j b hp hr hf hj ho =>
    exact h.poppedWait hp rest (waitsOn_iff.2 ⟨_, hf⟩)
  | poppedClose hp hr hf hj ho he => exact h.popped hp _
  | startClose old hj ho hh =>
    exact h.congr (.of_frames rfl rfl rfl (fun _ => rfl) fun _ => rfl) (by simp)
  | closeNext hd => exact h.congr (.of_frames rfl rfl rfl (fun _ => rfl) fun _ => rfl) (by simp)
  | closeWait hd =>
    exact h.congr (sameWaits_closeWaited (Closing.toBusy hg.cur).frame) (by simp)
  | closeEnd hh => exact h.congr (.of_frames rfl rfl rfl (fun _ => rfl) fun _ => rfl) (by simp)
  | finish hu => exact h.congr (sameWaits_updCr (by simp) s s.r) (by simp)
  | wakeCloser hp hr => exact h.congr (sameWaits_wake ..) (by simp)
  | wakeWaiter hn hb' hl hw hr => exact h.congr (sameWaits_wake ..) (by simp)
  | leave hn hb' =>
    exact h.congr (.of_frames rfl rfl rfl (fun _ => rfl) (updBundle_proj Bundle.waiter (by simp) s _))
      (by simp)
  | sleep => exact h.congr (sameWaits_block (Exiting.frame hg.cur) (by simp)) (by simp)

/-- What holds between two actions. -/
structure SlotsRun (s : Ctx) : Prop where
  valid : ∀ b w, (s.bundles b).waiter = some w → b < s.nbundles
  slot : s.SingleWaiter → ∀ c b, s.waitsOn c = some b → (s.bundles b).waiter = some ⟨c, 0⟩

theorem SlotsRun.step {a : Act} (h : SlotsRun s) (hg : Good .idle s) (hb : Book .idle s)
    (h1 : s.SingleWaiter) (hs : s.step a = .ok s') : SlotsRun s' := by
  have hi : Slots .idle s := ⟨h.valid, fun _ c b hc _ => h.slot h1 c b hc⟩
  have hend : ∀ s, Slots .idle s → SlotsRun s := fun s hk =>
    ⟨hk.valid, fun h1 c b hc => hk.slot (.inl h1) c b hc (by simp)⟩
  refine ((step_post hg a).of_ok hs).post (I := fun k s => Book k s ∧ Slots k s) (J := SlotsRun)
    (fun _ k s k' s' hg hk hm => ⟨hk.1.micro hg hm, hk.2.micro hg hk.1.members hm⟩) hg ⟨hb, hi⟩
    ?_ ?_ ?_ ?_
  · intro x _ hu
    exact ⟨outer_book.enter s x hg hu hb,
      hi.congr (.of_frames rfl rfl rfl (fun _ => rfl) fun _ => rfl) (by simp)⟩
  · exact fun x y _ => ⟨h.valid, h.slot⟩
  · exact fun s hk => hend s hk.2
  · exact fun s _ _ hk => ⟨(hend s hk.2).valid, (hend s hk.2).slot⟩

/-! ## One caller at a time -/

/-- The running coroutine is the last one of the bundle, and not being closed. -/
def EndsBundle (s : Ctx) (b : BundleId) : Prop :=
  (s.crs s.r).noBlocking1 = false ∧ (s.crs s.r).bundle = some b ∧ (s.bundles b).crs.length = 1

instance (s : Ctx) (b : BundleId) : Decidable (s.EndsBundle b) :=
  inferInstanceAs (Decidable (_ ∧ _ ∧ _))

/-- When the last coroutine of a bundle ends, no caller of `dill_bundle_wait` on it that has been
made ready is still waiting for its turn; and no bundle is freed while such a call is in progress. -/
def CleanWait (s : Ctx) : Act → Prop
  | .exit => ∀ c ∈ s.ready, ∀ b < s.nbundles, s.EndsBundle b → s.waitsOn c ≠ some b
  | .switch => ∀ c ∈ s.ready.head?, ∀ b ∈ s.waitsOn c, (s.bundles b).freed = false
  | _ => True

instance (s : Ctx) (a : Act) : Decidable (s.CleanWait a) := by
  unfold CleanWait
  split <;> infer_instance

/-- The results of `dill_bundle_wait` on a bundle. -/
def WaitResult (v : ℤ) (e : Errno) : Prop :=
  (v = 0 ∧ e = .ok) ∨ (v = -1 ∧ (e = .ETIMEDOUT ∨ e = .ECANCELED))

/-- What the action does to the callers of `dill_bundle_wait`. -/
structure WaitSafe (s : Ctx) (a : Act) : Prop where
  /-- If the assertion fails at the end of a coroutine, it does not fail on the waiter. -/
  asserts : a = .exit → s.step a = .error .assertDocancel → s.CloserReady
  /-- The end of the last coroutine finds the waiter suspended and resumes it. -/
  wakes : a = .exit → ∀ b c s', s.EndsBundle b → s.waitsOn c = some b → s.step a = .ok s' →
    c ∉ s.ready ∧ c ∈ s'.ready ∧ (s'.crs c).id = 0 ∧ (s'.crs c).err = .ok
  /-- A caller that goes on returns. -/
  returns : a = .switch → s.phase = .switch → ∀ c rest op b, s.ready = c :: rest →
    (s.crs c).frame = some (op, .bundleWait b) →
    ∃ s' v e, s.step a = .ok s' ∧ s'.log = s.log ++ [.ret op v e] ∧ WaitResult v e
  /-- A call returns at once or suspends its caller. -/
  calls : ∀ x d b, a = .call (.bundleWait x d) → s.phase = .user → s.handles x = some (.bundle b) →
    ∃ s', s.step a = .ok s' ∧ ((∃ v e, WaitResult v e ∧
      s'.log = s.log ++ [.call s.nops s.r (.bundleWait x d) [some (.bundle b)], .ret s.nops v e]) ∨
      (s'.phase = .wait ∧ s'.waitsOn s.r = some b))

/-- The results a caller is resumed with. -/
theorem waitResult_of_outcome {e : Errno} (h : (Frame.bundleWait b).Outcome id e) :
    ¬(0 ≤ id ∧ id ≠ 1 ∧ id ≠ 0) ∧
      WaitResult (result (.bundleWait b) id e).1 (result (.bundleWait b) id e).2 := by
  rcases h with ⟨rfl, rfl⟩ | ⟨cl, rfl | rfl, rfl, he⟩
  · exact ⟨by simp, .inr ⟨rfl, .inr rfl⟩⟩
  · have he : e = .ok := he
    subst he
    exact ⟨by simp, .inl ⟨rfl, rfl⟩⟩
  · have he : e = .ETIMEDOUT := he
    subst he
    exact ⟨by simp, .inr ⟨rfl, .inl rfl⟩⟩

theorem switch_waitResult (hg : Good .idle s) (hp : s.phase = .switch) {rest : List CrId}
    (hr : s.ready = c :: rest) (hf : (s.crs c).frame = some (op, .bundleWait b))
    (hb : (s.bundles b).freed = false) :
    ∃ s' v e, s.step .switch = .ok s' ∧ s'.log = s.log ++ [.ret op v e] ∧ WaitResult v e := by
  have hc : c ∈ s.ready := by
    rw [hr]
    exact .head _
  obtain ⟨hid, hres⟩ := waitResult_of_outcome ((hg.inv.pending hf).outcome hc)
  have hs : s.step .switch = .ok (((s.popped c rest).updBundle b fun x =>
      { x with waiter := none }).ret op (result (.bundleWait b) (s.crs c).id (s.crs c).err).1
        (result (.bundleWait b) (s.crs c).id (s.crs c).err).2) := by
    rw [step, if_pos hp, switch, hr]
    simp only [hf, hb, if_neg hid]
    rfl
  exact ⟨_, _, _, hs, rfl, hres⟩

theorem call_waitResult (hu : s.phase = .user) {x : Handle} {d : ℤ}
    (hx : s.handles x = some (.bundle b)) :
    ∃ s', s.step (.call (.bundleWait x d)) = .ok s' ∧ ((∃ v e, WaitResult v e ∧
      s'.log = s.log ++ [.call s.nops s.r (.bundleWait x d) [some (.bundle b)], .ret s.nops v e]) ∨
      (s'.phase = .wait ∧ s'.waitsOn s.r = some b)) := by
  have hlog : (s.enter (.bundleWait x d)).log =
      s.log ++ [.call s.nops s.r (.bundleWait x d) [some (.bundle b)]] := by
    simp [enter, Call.handles, hx]
  have hq : (s.enter (.bundleWait x d)).hqueryBundle x = .ok b := by
    have hx' : (s.enter (.bundleWait x d)).handles x = some (.bundle b) := hx
    unfold hqueryBundle
    rw [hx']
  have hret : ∀ v e, ((s.enter (.bundleWait x d)).ret s.nops v e).log = s.log ++
      [.call s.nops s.r (.bundleWait x d) [some (.bundle b)], .ret s.nops v e] := fun v e => by
    rw [ret]
    simp only [hlog, List.append_assoc, List.cons_append, List.nil_append]
  have hr : ∀ (s : Ctx) (i : ℕ), (s.timer i d).r = s.r := fun s i => by
    rw [timer]
    split <;> rfl
  rw [step, if_pos hu, doCall, bundleWait, hq]
  dsimp only
  refine ⟨_, rfl, ?_⟩
  split
  · exact .inl ⟨_, _, .inr ⟨rfl, .inr rfl⟩, hret _ _⟩
  · split
    · exact .inl ⟨_, _, .inl ⟨rfl, rfl⟩, hret _ _⟩
    · refine .inr ⟨rfl, waitsOn_iff.2 ⟨s.nops, ?_⟩⟩
      rw [block_crs, hr]
      exact congrArg Cr.frame (if_pos rfl)

/-- The end of a coroutine triggers the waiter of its bundle. -/
theorem exitTriggers_eq (h : s.EndsBundle b) : s.exitTriggers = (s.bundles b).waiter := by
  obtain ⟨hn, hb, hl⟩ := h
  simp [exitTriggers, hn, hb, hl]

theorem SlotsRun.safe {a : Act} (h : SlotsRun s) (hg : Good .idle s) (hb : Members .idle s)
    (h1 : s.SingleWaiter) (ha : s.CleanWait a) : s.WaitSafe a where
  asserts := by
    rintro rfl he
    cases (step_post hg .exit).of_error he with
    | docancel hd =>
      rcases hd with hc | ⟨b, w, hn, hbr, hl, hw, hr⟩
      · exact hc
      · obtain ⟨-, ⟨op, hf⟩ | ⟨-, j, hj⟩⟩ := hg.frames.waiter b w hw
        · exact absurd (waitsOn_iff.2 ⟨op, hf⟩)
            (ha w.cr hr b (hb.bundle s.r b hbr).1 ⟨hn, hbr, hl⟩)
        · cases hj
  wakes := by
    rintro rfl b c s' he hc hs
    have hr : c ∉ s.ready := fun hr => ha c hr b (hb.bundle s.r b he.2.1).1 he hc
    have ht : s.exitTriggers = some ⟨c, 0⟩ := (exitTriggers_eq he).trans (h.slot h1 c b hc)
    obtain ⟨-, hres⟩ := exit_resumes hg hs
    exact ⟨hr, (hres c b hc hr).2.2 ⟨c, 0⟩ ht rfl⟩
  returns := by
    rintro rfl hp c rest op b hr hf
    have hb' : (s.bundles b).freed = false :=
      ha c (by rw [hr]; rfl) b (waitsOn_iff.2 ⟨op, hf⟩)
    exact switch_waitResult hg hp hr hf hb'
  calls := by
    rintro x d b rfl hu hx
    exact call_waitResult hu hx

end Ctx

open Ctx

/-- One caller of `dill_bundle_wait` for each bundle at a time, none left in the ready queue. -/
abbrev WaitsAlone (s : Ctx) (a : Act) : Prop := s.SingleWaiter ∧ s.CleanWait a

/-- **Waiting for a bundle is safe** in runs with one caller for each bundle at a time, as long as
the last coroutine of a bundle never ends while the caller is in the ready queue and no bundle is
freed under its caller. -/
theorem bundle_waiter_safe {s : Ctx} (h : Reach Ctx.step Ctx.IsInit WaitsAlone s)
    (h1 : s.SingleWaiter) {a : Act} (ha : s.CleanWait a) : s.WaitSafe a := by
  have hinv : Good .idle s ∧ Book .idle s ∧ SlotsRun s := by
    refine Reach.invariant (I := fun s => Good .idle s ∧ Book .idle s ∧ SlotsRun s) ?_ ?_ h
    · intro s hi
      refine ⟨.init hi, ⟨.init hi, .init hi⟩, ?_, ?_⟩
      · simp [hi.bundles]
      · intro _ c b hc
        obtain ⟨op, hf⟩ := waitsOn_iff.1 hc
        rw [hi.crs] at hf
        cases hf
    · intro s a s' hk hok hs
      obtain ⟨hg, hb, hr⟩ := hk
      exact ⟨hg.step hs, ((step_post hg a).of_ok hs).keeps outer_book
        (fun _ _ _ _ _ hg hk hm => hk.micro hg hm) hg hb, hr.step hg hb hok.1 hs⟩
  exact hinv.2.2.safe hinv.1 hinv.2.1.members h1 ha

/-- The main coroutine waits for a worker, longer than the worker takes. -/
def waitForWorker : List Act :=
  [.call (.go (-1) false true 0), .call (.msleep 10), .poll 0 [], .switch,
    .call (.bundleWait 0 100), .poll 0 [⟨some [], 10⟩], .switch]

theorem bundle_waiter_safe_waitForWorker :
    ∃ s, runIf Ctx.step WaitsAlone Ctx.init waitForWorker = some s ∧ s.EndsBundle 0 ∧
      s.waitsOn 0 = some 0 ∧ (stopOf (s.step .exit)).isNone ∧ s.WaitSafe .exit := by
  obtain ⟨s, hr, hp⟩ := exists_of_runIf Ctx.step WaitsAlone Ctx.init waitForWorker
    (fun s => decide (s.EndsBundle 0 ∧ s.waitsOn 0 = some 0 ∧ (stopOf (s.step .exit)).isNone ∧
      s.SingleWaiter ∧ s.CleanWait .exit)) (by decide)
  rw [decide_eq_true_eq] at hp
  obtain ⟨he, hw, hs, h1, hc⟩ := hp
  exact ⟨s, hr, he, hw, hs, bundle_waiter_safe (reach_of_runIf (.init Ctx.init_isInit) hr) h1 hc⟩

/-- The main coroutine waits for a worker exactly as long as the worker takes: both timers expire
in the same turn of the loop, and the worker ends before the main coroutine runs. -/
def waitSameDeadline : List Act :=
  [.call (.go (-1) false true 0), .call (.msleep 10), .poll 0 [], .switch,
    .call (.bundleWait 0 10), .poll 0 [⟨some [], 10⟩], .switch]

theorem bundle_waiter_asserts :
    ¬∀ s, Reach Ctx.step Ctx.IsInit (fun s _ => s.SingleWaiter) s → s.SingleWaiter →
      s.step .exit = .error .assertDocancel → s.CloserReady := by
  intro h
  obtain ⟨s, hr, hp⟩ := exists_of_runIf Ctx.step (fun s _ => s.SingleWaiter) Ctx.init
    waitSameDeadline (fun s => decide (stopOf (s.step .exit) = some .assertDocancel ∧
      s.SingleWaiter ∧ (s.crs s.r).closer = none)) (by decide)
  rw [decide_eq_true_eq] at hp
  obtain ⟨he, h1, hc⟩ := hp
  obtain ⟨p, hp, -⟩ := h s (reach_of_runIf (.init Ctx.init_isInit) hr) h1 (eq_of_stopOf he)
  rw [hc] at hp
  cases hp

/-! ## Several callers -/

/-- The coroutine is suspended in `dill_bundle_wait` on the bundle. -/
def Ctx.Blocked (s : Ctx) (b : BundleId) (c : CrId) : Prop := s.waitsOn c = some b ∧ c ∉ s.ready

/-- The coroutine is ready to return 0 from `dill_bundle_wait`. -/
def Ctx.Resumed (s : Ctx) (b : BundleId) (c : CrId) : Prop :=
  s.waitsOn c = some b ∧ c ∈ s.ready ∧ (s.crs c).id = 0 ∧ (s.crs c).err = .ok

/-- The last coroutine of a bundle ends; who has ended already may still be on the list if the
bundle is being closed. -/
def Ctx.LastOf (s : Ctx) (b : BundleId) : Prop :=
  (s.crs s.r).bundle = some b ∧ ∀ c ∈ (s.bundles b).crs, c ≠ s.r → (s.crs c).done = true

/-- The last coroutine of a bundle is on its list. -/
theorem Ctx.LastOf.endsBundle_iff {s : Ctx} {b : BundleId} (hl : s.LastOf b) (hb : Members .idle s)
    (hr : (s.crs s.r).done = false) :
    s.EndsBundle b ↔ (s.crs s.r).noBlocking1 = false ∧ (s.bundles b).crs = [s.r] := by
  have hmem : s.r ∈ (s.bundles b).crs := by
    rcases (hb.bundle s.r b hl.1).2 with hm | hd
    · exact hm
    · rw [hr] at hd
      cases hd
  constructor
  · rintro ⟨hn, -, hlen⟩
    obtain ⟨x, hx⟩ := List.length_eq_one_iff.1 hlen
    rw [hx, List.mem_singleton] at hmem
    exact ⟨hn, by rw [hx, hmem]⟩
  · rintro ⟨hn, hx⟩
    exact ⟨hn, hl.1, by rw [hx]; rfl⟩

/-- A coroutine is triggered only at the end of the last coroutine of a bundle. -/
theorem Ctx.endsBundle_of_exitTriggers {s : Ctx} {b : BundleId} {w : ClauseRef}
    (hb : (s.crs s.r).bundle = some b) (h : s.exitTriggers = some w) :
    s.EndsBundle b ∧ (s.bundles b).waiter = some w := by
  unfold exitTriggers at h
  rw [hb] at h
  split at h
  · cases h
  · rename_i hn
    rw [Option.bind_some] at h
    split at h
    · rename_i hlen
      exact ⟨⟨by simpa using hn, hb, hlen⟩, h⟩
    · cases h

/-- **Who is resumed at the end of the last coroutine of a bundle**: all who wait for it, if and
only if nobody does or the bundle is not being closed and the slot holds the only one. -/
theorem bundle_waiters_resumed {s s' : Ctx} {b : BundleId} (h : Reachable s)
    (hs : s.step .exit = .ok s') (hl : s.LastOf b) :
    (∀ c, s.Blocked b c → s'.Resumed b c) ↔
      ((∀ c, ¬s.Blocked b c) ∨ ((s.crs s.r).noBlocking1 = false ∧ (s.bundles b).crs = [s.r] ∧
        ∀ c, s.Blocked b c → (s.bundles b).waiter = some ⟨c, 0⟩)) := by
  obtain ⟨hg, hi⟩ : Good .idle s ∧ Book .idle s := ⟨h.good, h.book⟩
  obtain ⟨hu, hres⟩ := exit_resumes hg hs
  have hend := hl.endsBundle_iff hi.members (hg.cur hu).not_done
  constructor
  · intro hall
    by_cases hnone : ∀ c, ¬s.Blocked b c
    · exact .inl hnone
    · obtain ⟨c₀, hc₀⟩ := not_forall.1 hnone
      -- a blocked coroutine that is resumed has been triggered through the slot
      have htr : ∀ c, s.Blocked b c → s.EndsBundle b ∧ (s.bundles b).waiter = some ⟨c, 0⟩ := by
        intro c hc
        obtain ⟨-, hnot, -⟩ := hres c b hc.1 hc.2
        have hw : ∃ w, s.exitTriggers = some w ∧ w.cr = c := by
          by_contra hno
          exact hnot (fun w hw hwc => hno ⟨w, hw, hwc⟩) (hall c hc).2.1
        obtain ⟨⟨cr, i⟩, hw, rfl⟩ := hw
        obtain ⟨he, hslot⟩ := endsBundle_of_exitTriggers hl.1 hw
        have hid : i = 0 := (hg.frames.waiter b _ hslot).1
        rw [hid] at hslot
        exact ⟨he, hslot⟩
      have he := hend.1 (htr c₀ (not_not.1 hc₀)).1
      exact .inr ⟨he.1, he.2, fun c hc => (htr c hc).2⟩
  · rintro (hnone | ⟨hn, hcrs, hslot⟩) c hc
    · exact absurd hc (hnone c)
    · have ht : s.exitTriggers = some ⟨c, 0⟩ :=
        (exitTriggers_eq (hend.2 ⟨hn, hcrs⟩)).trans (hslot c hc)
      obtain ⟨hw, -, hyes⟩ := hres c b hc.1 hc.2
      exact ⟨hw, hyes ⟨c, 0⟩ ht rfl⟩

theorem bundle_waiters_resumed_waitForWorker :
    ∃ s s', run Ctx.step Ctx.init waitForWorker = .ok s ∧ s.step .exit = .ok s' ∧ s.LastOf 0 ∧
      s.Blocked 0 0 ∧ ((∀ c, s.Blocked 0 c → s'.Resumed 0 c) ↔
        ((∀ c, ¬s.Blocked 0 c) ∨ ((s.crs s.r).noBlocking1 = false ∧ (s.bundles 0).crs = [s.r] ∧
          ∀ c, s.Blocked 0 c → (s.bundles 0).waiter = some ⟨c, 0⟩))) := by
  obtain ⟨s, hr, hp⟩ := exists_of_runsTo Ctx.step Ctx.init waitForWorker
    (fun s => decide (runsTo Ctx.step s [.exit] (fun _ => true) = true ∧
      (s.crs s.r).bundle = some 0 ∧ (s.bundles 0).crs = [s.r] ∧ s.waitsOn 0 = some 0 ∧
      0 ∉ s.ready)) (by decide)
  rw [decide_eq_true_eq] at hp
  obtain ⟨hs, hb, hcrs, hw, hn⟩ := hp
  obtain ⟨s', hs', -⟩ := exists_of_runsTo Ctx.step s [.exit] _ hs
  rw [run_singleton] at hs'
  have hl : s.LastOf 0 := ⟨hb, fun c hc hne => absurd (by simpa [hcrs] using hc) hne⟩
  exact ⟨s, s', hr, hs', hl, ⟨hw, hn⟩, bundle_waiters_resumed (reachable_of_run hr) hs' hl⟩

/-- Two coroutines wait for the same worker, without a deadline. -/
def twoWaiters : List Act :=
  [.call (.bundle false 0), .call (.go 0 false true 0), .call (.msleep 10), .poll 0 [], .switch,
    .call (.go (-1) false true 1), .call (.bundleWait 0 (-1)), .poll 0 [], .switch,
    .call (.bundleWait 0 (-1)), .poll 0 [⟨some [], 10⟩], .switch]

/-- Coroutine 2 keeps waiting after the end of the worker. -/
theorem bundle_waiter_lost :
    ¬∀ s s' b, Reachable s → s.step .exit = .ok s' → s.LastOf b →
      ∀ c, s.Blocked b c → s'.Resumed b c := by
  intro h
  obtain ⟨s, hr, hp⟩ := exists_of_runsTo Ctx.step Ctx.init twoWaiters
    (fun s => decide (runsTo Ctx.step s [.exit] (fun s' => decide (2 ∉ s'.ready)) = true ∧
      (s.crs s.r).bundle = some 0 ∧ (s.bundles 0).crs = [s.r] ∧ s.waitsOn 2 = some 0 ∧
      2 ∉ s.ready)) (by decide)
  rw [decide_eq_true_eq] at hp
  obtain ⟨hs, hb, hcrs, hw, hn⟩ := hp
  obtain ⟨s', hs', hn'⟩ := exists_of_runsTo Ctx.step s [.exit] _ hs
  rw [run_singleton] at hs'
  have hl : s.LastOf 0 := ⟨hb, fun c hc hne => absurd (by simpa [hcrs] using hc) hne⟩
  rw [decide_eq_true_eq] at hn'
  exact hn' (h s s' 0 (reachable_of_run hr) hs' hl 2 ⟨hw, hn⟩).2.1

end Libdill.Sched
