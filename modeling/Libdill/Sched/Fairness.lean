import Libdill.Sched.Refine

/-!
# The ready queue is fair

`dill_resume` stores a result in the coroutine and appends it to the ready queue; `dill_wait`
takes the first coroutine from there and hands it the result that is stored. Read together, the
queue and the results are a queue of *wake-ups*, and a run is fair to them: they are delivered in
the order in which they were sent, none is lost or delivered twice, and no result is overwritten
while it waits. Only the head leaves the queue (`switch_delivers`), every other move appends to it
and leaves the coroutines in it alone (`Micro.grows`), and `wakeUps_in_turn` is what this comes to
over a run.
-/

namespace Libdill.Sched

open Foundations

/-- A coroutine, and the result it is resumed with: what `dill_wait` returns, and `errno`. -/
structure WakeUp where
  cr : CrId
  id : ℤ
  err : Errno
  deriving DecidableEq, Repr

namespace Ctx

variable {l : Bool} {k k' : Cur} {s s' s'' : Ctx} {c : CrId} {id : ℤ} {err : Errno} {a : Act}

/-- The result that is stored in a coroutine. -/
def wakeUp (s : Ctx) (c : CrId) : WakeUp := ⟨c, (s.crs c).id, (s.crs c).err⟩

/-- The wake-ups that wait for their turn. -/
def wakeUps (s : Ctx) : List WakeUp := s.ready.map s.wakeUp

/-- What an action that leads from `s` to `s'` delivers: `dill_wait` jumps to the coroutine that
runs afterwards, with the result it finds there. -/
def delivers (s : Ctx) : Act → Ctx → List WakeUp
  | .switch, s' => [s.wakeUp s'.r]
  | _, _ => []

/-- The wake-ups delivered along a run, in their order. -/
def delivered (s : Ctx) : List Act → List WakeUp
  | [] => []
  | a :: as =>
    match s.step a with
    | .ok s' => s.delivers a s' ++ s'.delivered as
    | .error _ => []

/-! ## What the moves do to the queue -/

/-- The ready queue has grown at its end, and those who were in it keep their results. -/
structure Grows (s s' : Ctx) : Prop where
  phase : s'.phase ≠ .switch
  ready : s.ready <+: s'.ready
  stored : ∀ c ∈ s.ready, s'.wakeUp c = s.wakeUp c

theorem Grows.trans (h : Grows s s') (h' : Grows s' s'') : Grows s s'' where
  phase := h'.phase
  ready := h.ready.trans h'.ready
  stored c hc := (h'.stored c (h.ready.subset hc)).trans (h.stored c hc)

/-- A change that is neither to the queue nor to the results. -/
theorem Grows.same (hp : s'.phase ≠ .switch) (hr : s'.ready = s.ready)
    (hc : ∀ c, s'.wakeUp c = s.wakeUp c) : Grows s s' where
  phase := hp
  ready := hr ▸ List.prefix_rfl
  stored c _ := hc c

theorem Grows.refl (hp : s.phase ≠ .switch) : Grows s s := .same hp rfl fun _ => rfl

theorem Grows.wakeUps (h : Grows s s') : s.wakeUps <+: s'.wakeUps := by
  obtain ⟨t, ht⟩ := h.ready
  refine ⟨t.map s'.wakeUp, ?_⟩
  rw [Ctx.wakeUps, Ctx.wakeUps, ← ht, List.map_append]
  congr 1
  exact List.map_congr_left fun c hc => (h.stored c hc).symm

theorem grows_updCr (hp : s.phase ≠ .switch) (c : CrId) {g : Cr → Cr}
    (hi : ∀ x, (g x).id = x.id) (he : ∀ x, (g x).err = x.err) : Grows s (s.updCr c g) :=
  .same hp rfl fun x => by
    rw [wakeUp, wakeUp, updCr_proj Cr.id hi, updCr_proj Cr.err he]

theorem grows_wake (hp : s.phase ≠ .switch) (hc : c ∉ s.ready) : Grows s (s.wake c id err) where
  phase := hp
  ready := List.prefix_append _ _
  stored x hx := by
    have hne : x ≠ c := fun h => hc (h ▸ hx)
    rw [wakeUp, wakeUp, wake_crs, if_neg hne]

theorem grows_resume (hp : s.phase ≠ .switch) (hc : c ∉ s.ready) :
    Grows s (s.resume c id err) where
  phase := hp
  ready := List.prefix_append _ _
  stored x hx := by
    have hne : x ≠ c := fun h => hc (h ▸ hx)
    rw [wakeUp, wakeUp, resume_crs, if_neg hne]

theorem grows_block (s : Ctx) (op : ℕ) (f : Frame) : Grows s (s.block op f) :=
  .same (by simp [block]) rfl fun x => by
    rw [wakeUp, wakeUp, block_proj Cr.id fun _ _ => rfl, block_proj Cr.err fun _ _ => rfl]

theorem Registered.grows {i : ℕ} {e : Cancel} (h : Registered s s' i e) (hp : s.phase ≠ .switch) :
    Grows s s' :=
  .same (by rw [h.phase]; exact hp) h.ready fun x => by
    rw [wakeUp, wakeUp, h.proj Cr.id fun _ _ => rfl, h.proj Cr.err fun _ _ => rfl]

theorem grows_timer (hp : s.phase ≠ .switch) (i : ℕ) (deadline : ℤ) :
    Grows s (s.timer i deadline) := by
  by_cases hd : deadline < 0
  · rw [timer, if_pos hd]
    exact .refl hp
  · exact (registered_timer s i hd).grows hp

theorem grows_launch (h : Good k s) (hp : s.phase ≠ .switch) (hr : s.r ∉ s.ready) (op : ℕ)
    (b : BundleId) (mem : Bool) (v : Handle) : Grows s (s.launch op b mem v) where
  phase := hp
  ready := List.prefix_append _ _
  stored x hx := by
    have hnew : x ≠ s.ncrs := (h.ready_lt x hx).ne
    have hne : x ≠ s.r := fun e => hr (e ▸ hx)
    simp only [wakeUp, launch, resume, updCr, updBundle, Function.update_of_ne hne,
      Function.update_of_ne hnew]

theorem grows_closeWaited (hp : s.phase ≠ .switch) (op : ℕ) (b : BundleId) (h : Handle)
    (old : Bool) (c : CrId) : Grows s (s.closeWaited op b h old c) := by
  have h₁ : Grows s (s.updCr c fun cr => { cr with noBlocking1 := true }) :=
    grows_updCr hp c (fun _ => rfl) fun _ => rfl
  have h₂ : ∀ {s₁ : Ctx}, Grows s s₁ →
      Grows s ((s₁.block op (.crClose b h old c)).updCr c fun cr => { cr with closer := some s.r }) :=
    fun hs => (hs.trans (grows_block _ op _)).trans
      (grows_updCr (grows_block _ op _).phase c (fun _ => rfl) fun _ => rfl)
  rw [closeWaited]
  by_cases hc : c ∈ s.ready
  · rw [if_pos hc]
    exact h₂ h₁
  · rw [if_neg hc]
    exact h₂ (h₁.trans (grows_wake hp hc))

theorem notReady_of_busy {j : Job} {m : Option (ℕ × Errno)} (h : Good (.busy j m) s) :
    s.r ∉ s.ready :=
  (h.cur : s.Busy j).not_ready

/-- Outside of the jump at the end of `dill_wait`, a move only appends to the ready queue. -/
theorem Micro.grows (h : Good k s) (hp : s.phase ≠ .switch) (hm : Micro l k s k' s') :
    Grows s s' := by
  cases hm with
  | quiet hq =>
    refine .same (by rw [hq.phase]; exact hp) hq.ready fun c => ?_
    obtain ⟨nb, fr, hc⟩ := hq.cr c
    rw [wakeUp, wakeUp, hc]
  | trigger hk hl he hq => exact grows_wake hp (h.linked _ _ _ hl).2.1
  | @meet _ j i ar c rest ha hd hq =>
    have hn : c.cr ∉ s.ready := (h.linked _ _ _ (linked_head hq)).2.1
    rw [met]
    split
    · have hcopy : Grows s (s.memcpy (meeting ar.half ar.sd j.op i ar.val ar.len c .ok).dst
          (meeting ar.half ar.sd j.op i ar.val ar.len c .ok).src ar.len) := .same hp rfl fun _ => rfl
      exact (hcopy.trans (grows_wake hp hn)).trans (.same hp rfl fun _ => rfl)
    · exact (grows_wake hp hn).trans (.same hp rfl fun _ => rfl)
  | hold hj => exact grows_updCr hp _ (fun _ => rfl) fun _ => rfl
  | unhold hu hc hj hh => exact grows_updCr hp _ (fun _ => rfl) fun _ => rfl
  | enqueue hi hf ha hlt hn hd hq => exact (registered_enqueue s _ _ _ _ _ _).grows hp
  | timer deadline hi hf => exact grows_timer hp _ deadline
  | linkFd hi hc hw => exact (registered_linkFd s _ _ hw).grows hp
  | @setWaiter _ _ j b hi hb =>
    have hw : Grows s (s.updBundle b fun x => { x with waiter := some ⟨s.r, 0⟩ }) :=
      .same hp rfl fun _ => rfl
    exact hw.trans ((registered_waitfor _ 0).grows hw.phase)
  | block hw => exact grows_block s _ _
  | yield hb hj => exact (grows_resume hp (notReady_of_busy h)).trans (grows_block _ _ _)
  | launch mem v hb hj hh => exact grows_launch h hp (notReady_of_busy h) _ _ mem v
  | popped hs => exact absurd hs hp
  | poppedWait hs => exact absurd hs hp
  | poppedClose hs => exact absurd hs hp
  | closeWait hd => exact grows_closeWaited hp _ _ _ _ _
  | finish hu => exact grows_updCr hp _ (fun _ => rfl) fun _ => rfl
  | wakeCloser hc hr => exact grows_wake hp hr
  | wakeWaiter hn hb hl hw hr => exact grows_wake hp hr
  | sleep => exact grows_block s _ _
  | _ => exact .same hp rfl fun _ => rfl

theorem Micros.grows (hm : Micros l k s k' s') (h : Good k s) (hp : s.phase ≠ .switch) :
    Grows s s' := by
  induction hm with
  | refl => exact .refl hp
  | cons h₁ _ ih =>
    have hg := Micro.grows h hp h₁
    exact hg.trans (ih (h.micro h₁) hg.phase)

/-! ## What an action does to the queue -/

/-- An action other than the jump appends to the queue. -/
theorem Moves.grows (hm : Moves s a s') (h : Good .idle s) (hu : s.phase ≠ .switch)
    (hs : a ≠ .switch) :
    s.wakeUps <+: s'.wakeUps := by
  cases hm with
  | call hp hc => exact (Micros.grows hc.micros (h.enter_job hp _) hu).wakeUps
  | write x y => exact List.prefix_rfl
  | poll nw answers hp hw => exact (Micros.grows hp h hu).wakeUps
  | hcloseEnd hp => exact (Micros.grows hp h hu).wakeUps
  | exit hp => exact (Micros.grows hp h hu).wakeUps
  | switch hp => exact absurd rfl hs

/-! ## The jump -/

theorem docancel_r : Post (s.docancel c id err) (fun s' => s'.r = s.r) fun _ => True := by
  rw [docancel, foldl_cancelClause]
  split
  · trivial
  · exact rfl

theorem freeCr_r : Post (s.freeCr c) (fun s' => s'.r = s.r) fun _ => True := by
  rw [freeCr]
  split
  · exact rfl
  · split
    · trivial
    · exact rfl

/-- The loop of `dill_bundle_close` does not leave the coroutine that is in it. -/
theorem closeCrs_r {op : ℕ} {b : BundleId} {x : Handle} {old : Bool} (rest : List CrId) :
    Post (closeCrs op b x old rest s) (fun s' => s'.r = s.r) fun _ => True := by
  induction rest generalizing s with
  | nil =>
    rw [closeCrs, finishClose]
    split
    · trivial
    · exact rfl
  | cons c rest ih =>
    rw [closeCrs]
    split
    · trivial
    split
    · exact freeCr_r.bind fun s₁ h₁ => ih.mono (fun _ h => h.trans h₁) fun _ => id
    · simp only
      split
      · exact rfl
      · have hstop : ∀ t : Ctx, Post (t.cancel c .ECANCELED) (fun s' => s'.r = t.r) fun _ => True :=
          fun t => docancel_r
        exact (hstop _).bind fun s₁ h₁ => h₁

/-- The state after the jump, with the coroutine `c` at the head of the queue. -/
structure Jumped (s : Ctx) (c : CrId) (rest : List CrId) (s' : Ctx) : Prop where
  r : s'.r = c
  grows : Grows (s.popped c rest) s'

/-- **`dill_wait`** jumps to the head of the ready queue, and what the coroutine does before it is
back in the code of the user, or suspended again, only appends to the rest. -/
theorem switch_jumps (h : Good .idle s) (hp : s.phase = .switch) :
    Post s.switch (fun s' => ∃ c rest, s.ready = c :: rest ∧ Jumped s c rest s') fun _ => True := by
  rw [switch]
  split
  · trivial
  rename_i c rest hr
  have hlt := h.ready_lt c (by rw [hr]; exact .head _)
  have hpend : ∀ {op f}, (s.crs c).frame = some (op, f) → s.Pending c op f := fun hf =>
    h.toMid.pending hlt hf (by rw [hp]; simp)
  have hpop : (s.popped c rest).phase ≠ .switch := by simp [popped]
  simp only
  split
  · trivial
  · trivial
  · -- `dill_cr_close` goes on
    rename_i op b x old it hf
    obtain ⟨hid, ho⟩ := (hpend hf).outcome (by rw [hr]; exact .head _)
    obtain ⟨j, rfl, hj, hof⟩ := h.frames.logged c op _ hf (by simp)
    split
    · trivial
    rename_i hc
    have herr : (s.crs c).err = .ok := ho.resolve_right fun he => hc ⟨hid, he⟩
    rw [if_neg (by simp [hid, herr])]
    have hm : Micro true .idle s (.closing j b x old (after it (s.bundles b).crs)) (s.popped c rest) :=
      .poppedClose hp hr hf hj hof herr
    have hit : it < s.ncrs := by
      by_contra hge
      have hd := h.frames.closed c (by rw [hr]; exact .head _) j.op b x old it hf herr
      rw [h.fresh it (not_lt.1 hge)] at hd
      cases hd
    have hfree : Post ((s.popped c rest).freeCr it)
        (fun s₁ => Quiet (s.popped c rest) s₁ ∧ s₁.r = c) fun _ => True :=
      ((freeCr_post (s := s.popped c rest) hit).and freeCr_r).mono (fun _ => id) fun _ _ => trivial
    refine hfree.bind fun s₁ hfreed => ?_
    obtain ⟨hq, hr₁⟩ := hfreed
    have hg := (h.micro hm).micro (.quiet (l := true) hq)
    have hgrow := Micro.grows (h.micro hm) hpop (.quiet (l := true) hq)
    have hcrs : (s₁.bundles b).crs = (s.bundles b).crs := hq.keepsFrames.crs b
    rw [hcrs]
    refine ((closeCrs_post (l := true) _ hg).and (closeCrs_r _)).mono (fun s₂ hclosed => ?_)
      fun _ _ => trivial
    obtain ⟨hm₂, hr₂⟩ := hclosed
    exact ⟨c, rest, hr, hr₂.trans hr₁, hgrow.trans (Micros.grows hm₂ hg hgrow.phase)⟩
  · -- `dill_bundle_wait` goes on
    split
    · trivial
    split
    · trivial
    · exact ⟨c, rest, hr, rfl, .same hpop rfl fun _ => rfl⟩
  · -- any other call returns
    exact ⟨c, rest, hr, rfl, .same hpop rfl fun _ => rfl⟩

theorem wakeUp_popped (s : Ctx) (c x : CrId) (rest : List CrId) :
    (s.popped c rest).wakeUp x = s.wakeUp x := by
  have hi := updCr_proj (g := fun cr => { cr with readyNext := false, frame := none, clauses := [] })
    Cr.id (fun _ => rfl) s c x
  have he := updCr_proj (g := fun cr => { cr with readyNext := false, frame := none, clauses := [] })
    Cr.err (fun _ => rfl) s c x
  simp only [wakeUp, popped]
  rw [hi, he]

/-- The jump delivers the wake-up at the head of the queue. -/
theorem switch_delivers (h : Good .idle s) (hp : s.phase = .switch) (hs : s.switch = .ok s') :
    s.wakeUps <+: s.delivers .switch s' ++ s'.wakeUps := by
  obtain ⟨c, rest, hr, hj⟩ := (switch_jumps h hp).of_ok hs
  rw [delivers, hj.r, wakeUps, hr, List.map_cons, List.singleton_append, List.prefix_cons_inj]
  have hrest : (s.popped c rest).wakeUps = rest.map s.wakeUp :=
    List.map_congr_left fun x _ => wakeUp_popped s c x rest
  rw [← hrest]
  exact hj.grows.wakeUps

/-! ## Runs -/

theorem phase_of_step (ha : a ≠ .switch) (hs : s.step a = .ok s') : s.phase ≠ .switch := by
  intro hp
  cases a with
  | switch => exact ha rfl
  | _ =>
    simp only [step, hp] at hs
    simp at hs

/-- One action: what it delivers is taken from the head of the queue, and nothing else is. -/
theorem step_delivers (h : Good .idle s) (hs : s.step a = .ok s') :
    s.wakeUps <+: s.delivers a s' ++ s'.wakeUps := by
  by_cases ha : a = .switch
  · subst ha
    rw [step] at hs
    split at hs
    · rename_i hp
      exact switch_delivers h hp hs
    · cases hs
  · have hnone : s.delivers a s' = [] := by cases a <;> first | rfl | exact absurd rfl ha
    rw [hnone, List.nil_append]
    exact ((step_post h a).of_ok hs).grows h (phase_of_step ha hs) ha

theorem delivered_cons {as : List Act} (hs : s.step a = .ok s') :
    s.delivered (a :: as) = s.delivers a s' ++ s'.delivered as := by
  rw [delivered, hs]

theorem run_delivers (h : Good .idle s) {as : List Act} (hr : run Ctx.step s as = .ok s') :
    s.wakeUps <+: s.delivered as ++ s'.wakeUps := by
  induction as generalizing s with
  | nil =>
    cases hr
    exact List.prefix_rfl
  | cons a as ih =>
    cases hs : s.step a with
    | error e =>
      rw [run, hs] at hr
      cases hr
    | ok s₁ =>
      rw [run, hs] at hr
      rw [delivered_cons hs, List.append_assoc]
      exact (step_delivers h hs).trans ((List.prefix_append_right_inj _).2 (ih (h.step hs) hr))

end Ctx

open Ctx

/-- **Wake-ups are delivered in turn.** Along every run the wake-ups that are waiting at its start
are the first ones delivered, in their order and with the results stored at the start; those for
which the run is too short wait at the head of the queue at its end, with the same results; and no
coroutine waits in two places. -/
theorem wakeUps_in_turn {s s' : Ctx} {as : List Act} (h : Reachable s)
    (hr : run Ctx.step s as = .ok s') :
    s.wakeUps <+: s.delivered as ++ s'.wakeUps ∧ (s'.wakeUps.map WakeUp.cr).Nodup ∧
      ∀ n w, s.wakeUps[n]? = some w →
        if n < (s.delivered as).length then (s.delivered as)[n]? = some w
        else s'.wakeUps[n - (s.delivered as).length]? = some w := by
  have hd := run_delivers h.good hr
  refine ⟨hd, ?_, fun n w hw => ?_⟩
  · have h' : Reachable s' := reach_of_run (fun _ _ => trivial) h hr
    have hcr : s'.wakeUps.map WakeUp.cr = s'.ready := by
      rw [wakeUps, List.map_map]
      exact List.map_id _
    rw [hcr]
    exact h'.good.ready_nodup
  · obtain ⟨t, ht⟩ := hd
    have hget : (s.delivered as ++ s'.wakeUps)[n]? = some w := by
      rw [← ht, List.getElem?_append_left (List.getElem?_eq_some_iff.1 hw).1, hw]
    split
    · rename_i hn
      rwa [List.getElem?_append_left hn] at hget
    · rename_i hn
      rwa [List.getElem?_append_right (not_lt.1 hn)] at hget

/-- The main coroutine starts a second one, which yields. -/
def twoReady : List Act := [.call (.go (-1) false true 0), .call .yield]

theorem wakeUps_in_turn_twoReady :
    ∃ s s', run Ctx.step Ctx.init twoReady = .ok s ∧
      run Ctx.step s [.poll 0 [], .switch, .call .yield] = .ok s' ∧
      s.wakeUps = [⟨0, 0, .ok⟩, ⟨1, 0, .ok⟩] ∧
      s.wakeUps <+: s.delivered [.poll 0 [], .switch, .call .yield] ++ s'.wakeUps ∧
      s'.wakeUps[0]? = some ⟨1, 0, .ok⟩ := by
  obtain ⟨s, hr, hp⟩ := exists_of_runsTo Ctx.step Ctx.init twoReady
    (fun s => decide (runsTo Ctx.step s [.poll 0 [], .switch, .call .yield] (fun _ => true) = true ∧
      s.wakeUps = [⟨0, 0, .ok⟩, ⟨1, 0, .ok⟩] ∧
      (s.delivered [.poll 0 [], .switch, .call .yield]).length = 1)) (by decide)
  rw [decide_eq_true_eq] at hp
  obtain ⟨hs, hw, hlen⟩ := hp
  obtain ⟨s', hs', -⟩ := exists_of_runsTo Ctx.step s _ _ hs
  obtain ⟨hpre, -, hturn⟩ := wakeUps_in_turn (reachable_of_run hr) hs'
  refine ⟨s, s', hr, hs', hw, hpre, ?_⟩
  have h1 := hturn 1 ⟨1, 0, .ok⟩ (by rw [hw]; rfl)
  rw [hlen] at h1
  exact h1

end Libdill.Sched
