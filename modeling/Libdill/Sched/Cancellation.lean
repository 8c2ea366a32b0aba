import Libdill.Sched.Members

/-!
# Structured cancellation

`dill_hclose` on a bundle returns after all coroutines of the bundle have ended. A coroutine that
is being closed has `no_blocking1` set, for good: none of its clauses is linked any more, and every
call that could suspend it fails at once with `ECANCELED`.
-/

namespace Libdill.Sched

open Foundations

namespace Ctx

variable {k k' : Cur} {s s' : Ctx} {c : CrId} {id : ℤ} {err : Errno} {op i : ℕ} {f : Frame}
  {j : Job} {b : BundleId}

/-! ## Coroutines that are being closed -/

/-- The flag `no_blocking1` is not cleared, only coroutines without it register clauses, and it is
set on coroutines without linked clauses. -/
structure KeepsStopped (s s' : Ctx) : Prop where
  mono : ∀ c, (s.crs c).noBlocking1 = true → (s'.crs c).noBlocking1 = true
  linked : ∀ e c i, s'.Linked e c i → s.Linked e c i ∨ (s'.crs c).noBlocking1 = false
  stopped : ∀ c, (s'.crs c).noBlocking1 = true →
    (s.crs c).noBlocking1 = true ∨ ∀ e i, ¬s'.Linked e c i

theorem KeepsStopped.of_eq (hc : ∀ c, (s'.crs c).noBlocking1 = (s.crs c).noBlocking1)
    (hl : ∀ e c i, s'.Linked e c i → s.Linked e c i) : KeepsStopped s s' := by
  refine ⟨?_, fun e c i h => .inl (hl e c i h), ?_⟩
  · intro c; rw [hc]; exact fun h => h
  · intro c; rw [hc]; exact .inl

theorem KeepsStopped.trans {s'' : Ctx} (h : KeepsStopped s s') (h' : KeepsStopped s' s'') :
    KeepsStopped s s'' := by
  refine ⟨fun c hc => h'.mono c (h.mono c hc), fun e c i hl => ?_, fun c hc => ?_⟩
  · rcases h'.linked e c i hl with hl' | hn
    · rcases h.linked e c i hl' with hl'' | hn
      · exact .inl hl''
      · -- a flag that is set in the meantime leaves no clause linked
        by_cases hn' : (s''.crs c).noBlocking1 = true
        · rcases h'.stopped c hn' with hs | hs
          · rw [hn] at hs
            cases hs
          · exact absurd hl (hs e i)
        · exact .inr (by simpa using hn')
    · exact .inr hn
  · rcases h'.stopped c hc with hs | hs
    · rcases h.stopped c hs with hs' | hs'
      · exact .inl hs'
      · refine .inr fun e i hl => ?_
        rcases h'.linked e c i hl with hl' | hn
        · exact hs' e i hl'
        · rw [hc] at hn
          cases hn
    · exact .inr hs

theorem keepsStopped_wake (s : Ctx) (c : CrId) (id : ℤ) (err : Errno) :
    KeepsStopped s (s.wake c id err) :=
  .of_eq (wake_proj Cr.noBlocking1 fun _ _ _ _ => rfl) fun _ _ _ hl => (linked_wake.1 hl).2

/-- The running coroutine registers a clause while its flag is not set. -/
theorem Registered.keepsStopped {e : Cancel} (h : Registered s s' i e)
    (hn : (s.crs s.r).noBlocking1 = false) : KeepsStopped s s' := by
  have hproj := h.proj Cr.noBlocking1 fun _ _ => rfl
  refine ⟨?_, fun e' c i' hl => ?_, ?_⟩
  · intro c; rw [hproj]; exact fun h => h
  · rcases (h.linked e' c i').1 hl with hl | ⟨-, -, rfl, -⟩
    · exact .inl hl
    · exact .inr (by rw [hproj]; exact hn)
  · intro c; rw [hproj]; exact .inl

theorem keepsStopped_closeWaited (hg : Good k s) (op : ℕ) (b : BundleId) (x : Handle) (old : Bool)
    (c : CrId) : KeepsStopped s (s.closeWaited op b x old c) := by
  have hn : ∀ y, y ≠ c → ((s.closeWaited op b x old c).crs y).noBlocking1 =
      (s.crs y).noBlocking1 := by
    intro y hy
    rw [closeWaited, updCr_proj Cr.noBlocking1 (by simp), block_proj Cr.noBlocking1 fun _ _ => rfl]
    split
    · rw [updCr_crs, if_neg hy]
    · rw [wake_proj Cr.noBlocking1 fun _ _ _ _ => rfl, updCr_crs, if_neg hy]
  have hset : ((s.closeWaited op b x old c).crs c).noBlocking1 = true := by
    rw [closeWaited, updCr_proj Cr.noBlocking1 (by simp), block_proj Cr.noBlocking1 fun _ _ => rfl]
    split
    · rw [updCr_crs, if_pos rfl]
    · rw [wake_proj Cr.noBlocking1 fun _ _ _ _ => rfl, updCr_crs, if_pos rfl]
  have hl : ∀ e y i, (s.closeWaited op b x old c).Linked e y i → s.Linked e y i ∧ y ≠ c := by
    intro e y i hl
    rw [closeWaited] at hl
    have hl' : (if c ∈ s.ready then s.updCr c fun cr => { cr with noBlocking1 := true }
        else (s.updCr c fun cr => { cr with noBlocking1 := true }).wake c (-1) .ECANCELED).Linked e y
          i := by
      cases e <;> exact hl
    split at hl'
    · rename_i hr
      have hl₁ : s.Linked e y i := by cases e <;> exact hl'
      refine ⟨hl₁, ?_⟩
      rintro rfl
      exact (hg.linked e y i hl₁).2.1 hr
    · obtain ⟨hne, hl₁⟩ := linked_wake.1 hl'
      exact ⟨by cases e <;> exact hl₁, hne⟩
  refine ⟨fun y hy => ?_, fun e y i h => .inl (hl e y i h).1, fun y hy => ?_⟩
  · by_cases hyc : y = c
    · rw [hyc]; exact hset
    · rw [hn y hyc]; exact hy
  · by_cases hyc : y = c
    · exact .inr fun e i h => (hl e y i h).2 hyc
    · exact .inl (by rw [← hn y hyc]; exact hy)

/-- **Every move respects the flag.** -/
theorem Micro.keepsStopped {l : Bool} (hg : Good k s) (hm : Micro l k s k' s') :
    KeepsStopped s s' := by
  cases hm with
  | quiet hq =>
    exact .of_eq (hq.proj Cr.noBlocking1 fun _ _ _ => rfl) fun _ _ _ => hq.sameSched.linked.1
  | trigger hk hl he hq => exact keepsStopped_wake ..
  | @meet s j i a c rest ha hd hq =>
    rw [met]
    split
    · refine .of_eq (fun x => ?_) fun e x i hl => ?_
      · exact wake_proj Cr.noBlocking1 (fun _ _ _ _ => rfl) x
      · have hl' : (s.wake c.cr c.id .ok).Linked e x i := by cases e <;> exact hl
        exact (linked_wake.1 hl').2
    · refine .of_eq (fun x => ?_) fun e x i hl => ?_
      · exact wake_proj Cr.noBlocking1 (fun _ _ _ _ => rfl) x
      · have hl' : (s.wake c.cr c.id .EMSGSIZE).Linked e x i := by cases e <;> exact hl
        exact (linked_wake.1 hl').2
  | ret hv hc => exact .of_eq (fun _ => rfl) fun e _ _ hl => by cases e <;> exact hl
  | hold hj =>
    exact .of_eq (updCr_proj Cr.noBlocking1 (by simp) s s.r) fun e _ _ hl => by cases e <;> exact hl
  | unhold hu hc hj hh =>
    exact .of_eq (updCr_proj Cr.noBlocking1 (by simp) s s.r) fun e _ _ hl => by cases e <;> exact hl
  | chmake h₀ h₁ =>
    refine .of_eq (fun _ => rfl) fun e x i hl => ?_
    have hh := chmade_half hg.tables h₀ h₁
    cases e with
    | ch y sd =>
      rw [Linked, hh] at hl
      exact hl
    | null => exact hl
    | timer => exact hl
    | fd y sd => exact hl
  | bundle mem x => exact .of_eq (fun _ => rfl) fun e _ _ hl => by cases e <;> exact hl
  | startTerm ch hn =>
    refine .of_eq (fun _ => rfl) fun e x i hl => ?_
    exact (sameSched_updHalf s ch (g := fun x => { x with done := true }) fun _ => rfl).linked.1 hl
  | endTerm hq => exact .of_eq (fun _ => rfl) fun _ _ _ hl => hl
  | startWait hb hw hf hn => exact .of_eq (fun _ => rfl) fun _ _ _ hl => hl
  | enqueue hi hf ha hlt hn hd hp =>
    exact (registered_enqueue s _ _ _ _ _ _).keepsStopped (Waiting.unblocked hg.cur)
  | @timer l s j f i deadline hi hf =>
    by_cases hd : deadline < 0
    · rw [Ctx.timer, if_pos hd]
      exact .of_eq (fun _ => rfl) fun _ _ _ hl => hl
    · exact (registered_timer s i hd).keepsStopped (Waiting.unblocked hg.cur)
  | linkFd hi hc hw => exact (registered_linkFd s _ _ hw).keepsStopped (Waiting.unblocked hg.cur)
  | @setWaiter l s j b hi hb =>
    have hn : (s.crs s.r).noBlocking1 = false := Waiting.unblocked hg.cur
    have h₁ : KeepsStopped s (s.updBundle b fun x => { x with waiter := some ⟨s.r, 0⟩ }) :=
      .of_eq (fun _ => rfl) fun e _ _ hl => by cases e <;> exact hl
    exact h₁.trans ((registered_waitfor _ 0).keepsStopped hn)
  | block hw =>
    exact .of_eq (block_proj Cr.noBlocking1 (fun _ _ => rfl) s _ _) fun _ _ _ hl => linked_block.1 hl
  | @yield l s j hb hj =>
    have hc : s.Busy j := hg.cur
    rw [hg.toCore.resume_eq_wake hc.clauses 0 .ok]
    exact (keepsStopped_wake ..).trans (.of_eq (block_proj Cr.noBlocking1 (fun _ _ => rfl) _ _ _)
      fun _ _ _ hl => linked_block.1 hl)
  | @launch l s j b mem v hb hj hh =>
    exact .of_eq (launch_proj_new hg.r_lt (hg.fresh s.ncrs le_rfl) Cr.noBlocking1
      (fun _ _ _ _ _ => rfl) rfl) fun _ _ _ hl => linked_launch.1 hl
  | popped hp hr hf hj ho hn hc =>
    exact .of_eq (popped_proj Cr.noBlocking1 (fun _ => rfl) _) fun _ _ _ hl => linked_popped.1 hl
  | @poppedWait l s c rest j b hp hr hf hj ho =>
    refine .of_eq (popped_proj Cr.noBlocking1 (fun _ => rfl) rest) fun e _ _ hl => ?_
    cases e <;> exact hl
  | poppedClose hp hr hf hj ho he =>
    exact .of_eq (popped_proj Cr.noBlocking1 (fun _ => rfl) _) fun _ _ _ hl => linked_popped.1 hl
  | startClose old hj ho hh => exact .of_eq (fun _ => rfl) fun _ _ _ hl => hl
  | closeNext hd => exact .of_eq (fun _ => rfl) fun _ _ _ hl => hl
  | closeWait hd => exact keepsStopped_closeWaited hg _ _ _ _ _
  | closeEnd hh => exact .of_eq (fun _ => rfl) fun e _ _ hl => by cases e <;> exact hl
  | finish hu =>
    exact .of_eq (updCr_proj Cr.noBlocking1 (by simp) s s.r) fun e _ _ hl => by cases e <;> exact hl
  | wakeCloser hp hr => exact keepsStopped_wake ..
  | wakeWaiter hn hb hl hw hr => exact keepsStopped_wake ..
  | leave hn hb => exact .of_eq (fun _ => rfl) fun e _ _ hl => by cases e <;> exact hl
  | sleep =>
    exact .of_eq (block_proj Cr.noBlocking1 (fun _ _ => rfl) s _ _) fun _ _ _ hl => linked_block.1 hl

/-- A coroutine with the flag has no clause linked. -/
def Stopped (s : Ctx) : Prop := ∀ c, (s.crs c).noBlocking1 = true → ∀ e i, ¬s.Linked e c i

theorem Stopped.keeps (h : s.Stopped) (hk : KeepsStopped s s') : s'.Stopped := by
  intro c hc e i hl
  rcases hk.stopped c hc with hs | hs
  · rcases hk.linked e c i hl with hl' | hn
    · exact h c hs e i hl'
    · rw [hc] at hn
      cases hn
  · exact hs e i hl

theorem outer_stopped : Outer fun _ s => s.Stopped where
  enter _ _ _ _ h := h.keeps (.of_eq (fun _ => rfl) fun e _ _ hl => by cases e <;> exact hl)
  write _ _ _ h := h.keeps (.of_eq (fun _ => rfl) fun e _ _ hl => by cases e <;> exact hl)
  endPoll _ _ _ h := h.keeps (.of_eq (fun _ => rfl) fun e _ _ hl => by cases e <;> exact hl)

end Ctx

open Ctx

theorem Reachable.stopped {s : Ctx} (h : Reachable s) : s.Stopped := by
  refine (h.invariant (I := fun _ s => s.Stopped) (fun s hi => ?_) outer_stopped
    fun _ _ _ _ _ hg hs hm => hs.keeps (Micro.keepsStopped hg hm)).2
  intro c hc
  rw [hi.crs] at hc
  cases hc

/-- The flag stays set for the rest of the run. -/
theorem run_noBlocking1 {s s' : Ctx} {as : List Act} {c : CrId} (h : Reachable s)
    (hc : (s.crs c).noBlocking1 = true) (hr : run Ctx.step s as = .ok s') :
    Reachable s' ∧ (s'.crs c).noBlocking1 = true := by
  induction as generalizing s with
  | nil =>
    cases hr
    exact ⟨h, hc⟩
  | cons a as ih =>
    cases hs : s.step a with
    | error e =>
      rw [run, hs] at hr
      cases hr
    | ok s₁ =>
      rw [run, hs] at hr
      have hc₁ := ((step_post h.good a).of_ok hs).keeps
        (I := fun _ s => (s.crs c).noBlocking1 = true)
        ⟨fun _ _ _ _ h => h, fun _ _ _ h => h, fun _ _ _ h => h⟩
        (fun _ _ _ _ _ hg hc hm => (Micro.keepsStopped hg hm).mono c hc) h.good hc
      exact ih (.step a h trivial hs) hc₁ hr

/-! ## The guarantee -/

/-- The calls that a coroutine under cancellation may not make: those that can suspend it, and
`hmake` on a valid table of functions. -/
def Call.needsBlocking : Call → Bool
  | .go .. => true
  | .yield => true
  | .msleep _ => true
  | .fdwait .. => true
  | .chsend .. => true
  | .chrecv .. => true
  | .choose .. => true
  | .bundleWait .. => true
  | .hmake valid _ => valid
  | _ => false

/-- Such a call fails at once. -/
theorem step_canceled {s : Ctx} (hu : s.phase = .user) (hn : (s.crs s.r).noBlocking1 = true)
    {x : Call} (hx : x.needsBlocking = true) :
    s.step (.call x) = .ok ((s.enter x).ret s.nops (-1) .ECANCELED) := by
  have hb : (s.enter x).canblock = false := by
    change (!((s.crs s.r).noBlocking1 || (s.crs s.r).noBlocking2)) = false
    rw [hn]
    rfl
  rw [step, if_pos hu]
  cases x with
  | go bndl mem stack h =>
    rw [doCall, prologue, hb]
    rfl
  | yield =>
    rw [doCall, Ctx.yield, hb]
    rfl
  | msleep d =>
    rw [doCall, msleep, hb]
    rfl
  | fdwait sd fd d ctl =>
    rw [doCall, Ctx.fdwait, hb]
    rfl
  | chsend h val len d =>
    rw [doCall, chsend, chanOp, hb]
    rfl
  | chrecv h val len d =>
    rw [doCall, chrecv, chanOp, hb]
    rfl
  | choose cls d =>
    rw [doCall, choose.eq_def, hb]
    rfl
  | bundleWait h d =>
    rw [doCall, Ctx.bundleWait, hb]
    rfl
  | hmake valid h =>
    have hv : valid = true := hx
    rw [doCall, hmake, hb, hv]
    rfl
  | _ => cases hx

/-- What closing a bundle guarantees. -/
structure StructuredCancellation (s : Ctx) : Prop where
  /-- When `hclose` on a bundle has returned, every coroutine that was ever in it has ended. -/
  closed : ∀ c j b v e, s.Called c j → j.closes = some b → s.Returned j.op v e →
    ∀ c', (s.crs c').bundle = some b → (s.crs c').done = true
  /-- A coroutine that is being closed stays so, and never waits on a channel, a timer or a
  descriptor again. -/
  stays : ∀ c, (s.crs c).noBlocking1 = true → ∀ as s', run Ctx.step s as = .ok s' →
    (s'.crs c).noBlocking1 = true ∧ ∀ e i, ¬s'.Linked e c i
  /-- Every call of it that could suspend it fails at once. -/
  fails : s.phase = .user → (s.crs s.r).noBlocking1 = true → ∀ x : Call, x.needsBlocking = true →
    s.step (.call x) = .ok ((s.enter x).ret s.nops (-1) .ECANCELED)

/-- **Structured cancellation.** -/
theorem structured_cancellation {s : Ctx} (h : Reachable s) : StructuredCancellation s where
  closed c j b v e hc hj hr := (h.book.members.returned c j b v e hc hj hr).2.1
  stays c hc as s' hr := by
    obtain ⟨h', hc'⟩ := run_noBlocking1 h hc hr
    exact ⟨hc', h'.stopped c hc'⟩
  fails hu hn x hx := step_canceled hu hn hx

/-- A run in which a bundle with two coroutines is closed: one waits on a channel, the other one
yields. -/
def closedBundle : List Act :=
  [.call (.chmake 0 1), .call (.bundle false 2), .call (.go 2 false true 3),
    .call (.chrecv 0 100 4 (-1)), .poll 0 [], .switch, .call (.go 2 false true 3), .call .yield,
    .poll 0 [], .switch, .call (.hclose 2), .poll 0 [], .switch, .exit, .poll 0 [], .switch,
    .call .yield, .exit, .poll 0 [], .switch]

theorem structured_cancellation_closedBundle :
    ∃ s, run Ctx.step Ctx.init closedBundle = .ok s ∧
      Event.ret 6 0 .ok ∈ s.log ∧ Event.call 6 0 (.hclose 2) [some (.bundle 0)] ∈ s.log ∧
      (s.crs 1).bundle = some 0 ∧ (s.crs 2).bundle = some 0 ∧ StructuredCancellation s := by
  obtain ⟨s, hr, hp⟩ := exists_of_runsTo Ctx.step Ctx.init closedBundle
    (fun s => decide (Event.ret 6 0 .ok ∈ s.log ∧
      Event.call 6 0 (.hclose 2) [some (.bundle 0)] ∈ s.log ∧
      (s.crs 1).bundle = some 0 ∧ (s.crs 2).bundle = some 0)) (by decide)
  rw [decide_eq_true_eq] at hp
  exact ⟨s, hr, hp.1, hp.2.1, hp.2.2.1, hp.2.2.2, structured_cancellation (reachable_of_run hr)⟩

/-- A run in which a coroutine is cancelled and goes on. -/
def canceledCoroutine : List Act :=
  [.call (.go (-1) false true 2), .call .yield, .poll 0 [], .switch, .call (.hclose 2), .poll 0 [],
    .switch]

/-- In a coroutine that is being closed, `hmake` on an invalid table does not fail with
`ECANCELED`. -/
theorem canceled_hmake_not_ecanceled :
    ¬∀ s, Reachable s → s.phase = .user → (s.crs s.r).noBlocking1 = true → ∀ valid h,
      ∃ s', s.step (.call (.hmake valid h)) = .ok s' ∧
        s'.log.getLast? = some (.ret s.nops (-1) .ECANCELED) := by
  intro h
  obtain ⟨s, hr, hp⟩ := exists_of_runsTo Ctx.step Ctx.init canceledCoroutine
    (fun s => decide (s.phase = .user ∧ (s.crs s.r).noBlocking1 = true ∧
      runsTo Ctx.step s [.call (.hmake false 5)]
        (fun s' => decide (s'.log.getLast? = some (.ret s.nops (-1) .EINVAL))) = true)) (by decide)
  rw [decide_eq_true_eq] at hp
  obtain ⟨hu, hn, hs⟩ := hp
  obtain ⟨s₁, hs₁, hlog₁⟩ := h s (reachable_of_run hr) hu hn false 5
  obtain ⟨s₂, hs₂, hlog₂⟩ := exists_of_runsTo _ _ _ _ hs
  rw [run, hs₁] at hs₂
  cases hs₂
  rw [decide_eq_true_eq, hlog₁] at hlog₂
  cases hlog₂

end Libdill.Sched
