import Libdill.Sched.NestedClose
import Libdill.Sched.Timers
import Libdill.Sched.Relabel

/-!
# `choose` against `chsend` and `chrecv`

A `choose` of one clause runs like the channel operation it names (`run_single`, the relabelling
of `Sched/Relabel.lean`). A `choose` of several clauses does what the `choose` of the first clause
that does not have to wait does; if every clause has to wait, it registers all of them, and then
the first event on one of them resumes the caller once, with the number of that clause, and
removes all other registrations. `ChooseLaw` puts this together.

* `left_micro`: what one move does to a coroutine that is suspended in a `choose`.
* `Waits`, `ResumedOnce`, `Finished`: the three states of such a call, and `Waits.run`,
  `ResumedOnce.run`: what every run makes of them.
* `choose_first`, `choose_registers`: the two ways a call goes.
-/

namespace Libdill.Sched

open Foundations

/-- The results that the clauses `regs` are triggered with, or that of a cancellation. -/
def Wakes (regs : Clause → Prop) (id : ℤ) (err : Errno) : Prop :=
  (id = -1 ∧ err = .ECANCELED) ∨ ∃ cl, regs cl ∧ id = cl.id ∧ cl.cancel.Fires err

namespace Ctx

variable {l : Bool} {k k' : Cur} {s s' : Ctx} {c : CrId} {op n : ℕ} {id : ℤ} {err : Errno}
  {regs : Clause → Prop}

/-! ## A coroutine suspended in a `choose` -/

/-- Coroutine `c` has the same result and clauses, and is suspended or queued as before. -/
structure Alike (c : CrId) (s s' : Ctx) : Prop where
  frame : (s'.crs c).frame = (s.crs c).frame
  clauses : (s'.crs c).clauses = (s.crs c).clauses
  id : (s'.crs c).id = (s.crs c).id
  err : (s'.crs c).err = (s.crs c).err
  ready : c ∈ s'.ready ↔ c ∈ s.ready

/-- The coroutine has been resumed with the result of one of its clauses or of a cancellation. -/
structure Woken (c : CrId) (s s' : Ctx) : Prop where
  frame : (s'.crs c).frame = (s.crs c).frame
  clauses : (s'.crs c).clauses = (s.crs c).clauses
  before : c ∉ s.ready
  ready : c ∈ s'.ready
  wakes : Wakes (· ∈ (s.crs c).clauses) (s'.crs c).id (s'.crs c).err

/-- What a move does to a suspended coroutine. -/
def Left (c : CrId) (s s' : Ctx) : Prop := Alike c s s' ∨ Woken c s s'

theorem Alike.of_crs (hc : s'.crs c = s.crs c) (hr : c ∈ s'.ready ↔ c ∈ s.ready) : Alike c s s' :=
  ⟨by rw [hc], by rw [hc], by rw [hc], by rw [hc], hr⟩

theorem alike_updCr {g : Cr → Cr} (hf : ∀ x, (g x).frame = x.frame)
    (hcl : ∀ x, (g x).clauses = x.clauses) (hid : ∀ x, (g x).id = x.id)
    (herr : ∀ x, (g x).err = x.err) (s : Ctx) (x : CrId) : Alike c s (s.updCr x g) :=
  ⟨updCr_proj Cr.frame hf s x c, updCr_proj Cr.clauses hcl s x c, updCr_proj Cr.id hid s x c,
    updCr_proj Cr.err herr s x c, .rfl⟩

theorem Alike.trans {s₁ : Ctx} (h : Alike c s s₁) (h' : Alike c s₁ s') : Alike c s s' :=
  ⟨h'.frame.trans h.frame, h'.clauses.trans h.clauses, h'.id.trans h.id, h'.err.trans h.err,
    h'.ready.trans h.ready⟩

theorem Alike.left_trans {s₁ : Ctx} (h : Alike c s s₁) (h' : Left c s₁ s') : Left c s s' := by
  rcases h' with h' | h'
  · exact .inl (h.trans h')
  · refine .inr ⟨h'.frame.trans h.frame, h'.clauses.trans h.clauses, ?_, h'.ready, ?_⟩
    · exact fun hin => h'.before (h.ready.mpr hin)
    · rw [← h.clauses]
      exact h'.wakes

theorem Left.trans_alike {s₁ : Ctx} (h : Left c s s₁) (h' : Alike c s₁ s') : Left c s s' := by
  rcases h with h | h
  · exact .inl (h.trans h')
  · refine .inr ⟨h'.frame.trans h.frame, h'.clauses.trans h.clauses, h.before, ?_, ?_⟩
    · exact h'.ready.mpr h.ready
    · rw [h'.id, h'.err]
      exact h.wakes

theorem left_wake {x : CrId} (hx : x ∉ s.ready)
    (hw : x = c → Wakes (· ∈ (s.crs c).clauses) id err) : Left c s (s.wake x id err) := by
  by_cases hxc : x = c
  · subst hxc
    refine .inr ⟨wake_frame _, wake_clauses _, hx, by simp, ?_⟩
    rw [wake_crs, if_pos rfl]
    exact hw rfl
  · refine .inl (.of_crs (by rw [wake_crs, if_neg (Ne.symm hxc)]) ?_)
    rw [wake_ready, List.mem_append, List.mem_singleton, or_iff_left (Ne.symm hxc)]

/-- The running coroutine is not suspended. -/
theorem Good.frame_none (h : Good k s) (hu : s.phase = .user) : (s.crs s.r).frame = none := by
  have hk := h.cur
  cases k with
  | idle => exact (hk hu).frame
  | busy j m => exact hk.frame
  | waiting j f => exact hk.frame
  | terming j ch => exact hk.frame
  | closing j b x old rest => exact hk.frame
  | exiting => exact hk.frame

/-- Another coroutine is about to be resumed. -/
def Elsewhere (c : CrId) (s : Ctx) : Prop :=
  s.phase = .switch → ∃ c' rest, s.ready = c' :: rest ∧ c' ≠ c

/-- **What a move does to a coroutine suspended in a `choose`.** -/
theorem left_micro (hg : Good k s) (hf : (s.crs c).frame = some (op, .choose n))
    (he : Elsewhere c s) (hm : Micro l k s k' s') : Left c s s' := by
  have hlt : c < s.ncrs := by
    by_contra hge
    rw [hg.fresh c (not_lt.mp hge)] at hf
    cases hf
  have hrun : s.phase = .user → c ≠ s.r := by
    rintro hu rfl
    rw [hg.frame_none hu] at hf
    cases hf
  have hother : ∀ {x : CrId} {op' : ℕ} {f : Frame}, (s.crs x).frame = some (op', f) →
      f ≠ .choose n → x ≠ c := by
    rintro x op' f hx hne rfl
    rw [hf] at hx
    cases hx
    exact hne rfl
  -- a linked clause wakes its coroutine with its number
  have hlink : ∀ {e : Cancel} {x : CrId} {i : ℕ} {err : Errno}, s.Linked e x i → e.Fires err →
      Left c s (s.wake x i err) := by
    intro e x i err hl hfire
    obtain ⟨-, hn, hmem⟩ := hg.linked e x i hl
    refine left_wake hn ?_
    rintro rfl
    exact .inr ⟨_, hmem, rfl, hfire⟩
  have hreg : ∀ {s₁ : Ctx} {i : ℕ} {e : Cancel}, s.phase = .user → Registered s s₁ i e →
      Left c s s₁ := by
    intro s₁ i e hu hr
    exact .inl (.of_crs (by rw [hr.crs, if_neg (hrun hu)]) (by rw [hr.ready]))
  have hqueue : ∀ {x : CrId}, c ≠ x → (c ∈ s.ready ++ [x] ↔ c ∈ s.ready) := by
    intro x hx
    rw [List.mem_append, List.mem_singleton, or_iff_left hx]
  have hpop : ∀ {x : CrId} {rest : List CrId}, s.phase = .switch → s.ready = x :: rest →
      Alike c s (s.popped x rest) := by
    intro x rest hp hready
    obtain ⟨x', rest', hready', hne⟩ := he hp
    rw [hready] at hready'
    obtain ⟨rfl, rfl⟩ := List.cons.inj hready'
    refine .of_crs (by rw [popped_crs, if_neg (Ne.symm hne)]) ?_
    rw [hready, List.mem_cons, or_iff_right (Ne.symm hne)]
    rfl
  have hflag : ∀ {s₁ : Ctx} (x : CrId) {g : Cr → Cr}, (∀ y, (g y).frame = y.frame) →
      (∀ y, (g y).clauses = y.clauses) → (∀ y, (g y).id = y.id) → (∀ y, (g y).err = y.err) →
      Alike c s₁ (s₁.updCr x g) := fun x _ hf hcl hid herr => alike_updCr hf hcl hid herr _ x
  cases hm with
  | quiet hq =>
    exact .inl ⟨hq.proj Cr.frame (fun _ _ _ => rfl) c, hq.proj Cr.clauses (fun _ _ _ => rfl) c,
      hq.proj Cr.id (fun _ _ _ => rfl) c, hq.proj Cr.err (fun _ _ _ => rfl) c, by rw [hq.ready]⟩
  | trigger hk hl hfire hq => exact hlink hl hfire
  | @meet s j i a e rest ha hd hq =>
    have hl := linked_head hq
    unfold met
    split
    · exact (hlink hl (.inl rfl)).trans_alike (.of_crs rfl .rfl)
    · exact (hlink hl (.inr (.inl rfl))).trans_alike (.of_crs rfl .rfl)
  | hold hj => exact .inl (hflag s.r (by simp) (by simp) (by simp) (by simp))
  | unhold hu hc hj hh => exact .inl (hflag s.r (by simp) (by simp) (by simp) (by simp))
  | enqueue hi hfr ha hl hn hd hp =>
    exact hreg (Waiting.phase hg.cur) (registered_enqueue s _ _ _ _ _ _)
  | timer deadline hi hfr =>
    by_cases hd : deadline < 0
    · rw [Ctx.timer, if_pos hd]
      exact .inl (.of_crs rfl .rfl)
    · exact hreg (Waiting.phase hg.cur) (registered_timer s _ hd)
  | linkFd hi hc hw => exact hreg (Waiting.phase hg.cur) (registered_linkFd s _ _ hw)
  | setWaiter hi hb =>
    have hr := hrun (Waiting.phase hg.cur)
    exact .inl (.of_crs (((registered_waitfor _ 0).crs c).trans (if_neg hr)) .rfl)
  | block hw =>
    exact .inl (.of_crs (by rw [block_crs, if_neg (hrun (Waiting.phase hg.cur))]) .rfl)
  | yield hb hj =>
    have hr := hrun (Busy.phase hg.cur)
    refine .inl (.of_crs ?_ (hqueue hr))
    rw [block_crs]
    exact (if_neg hr).trans (by rw [resume_crs, if_neg hr])
  | launch mem v hb hj hh =>
    have hr := hrun (Busy.phase hg.cur)
    refine .inl (.of_crs ?_ (hqueue hr))
    rw [launch_crs hg.r_lt, if_neg hlt.ne, if_neg hr]
  | popped hp hr hfr hj ho hn hc => exact .inl (hpop hp hr)
  | poppedWait hp hr hfr hj ho => exact .inl ((hpop hp hr).trans (.of_crs rfl .rfl))
  | poppedClose hp hr hfr hj ho herr => exact .inl (hpop hp hr)
  | @closeWait l s j b x old d rest hd =>
    have hr := hrun (Closing.toBusy hg.cur).phase
    have h₁ : Alike c s (s.updCr d fun cr => { cr with noBlocking1 := true }) :=
      hflag d (by simp) (by simp) (by simp) (by simp)
    have hblock : ∀ {s₂ : Ctx}, s₂.r = s.r → Alike c s₂ (s₂.block j.op (.crClose b x old d)) :=
      fun hr₂ => .of_crs (by rw [block_crs, hr₂, if_neg hr]) .rfl
    unfold closeWaited
    dsimp only
    refine Left.trans_alike ?_ (hflag d (by simp) (by simp) (by simp) (by simp))
    split
    · exact .inl (h₁.trans (hblock rfl))
    · rename_i hin
      refine (h₁.left_trans (left_wake hin fun _ => .inl ⟨rfl, rfl⟩)).trans_alike (hblock rfl)
  | finish hu => exact .inl (hflag s.r (by simp) (by simp) (by simp) (by simp))
  | wakeCloser hp hr =>
    obtain ⟨op', b, x, old, hfr⟩ := Exiting.closer hg.cur _ hp
    exact left_wake hr fun hx => absurd hx (hother hfr (by simp))
  | wakeWaiter hn hb hl hw hr =>
    refine left_wake hr fun hx => absurd hx ?_
    obtain ⟨-, ⟨op', hfr⟩ | ⟨-, j, hj⟩⟩ := hg.frames.waiter _ _ hw
    · exact hother hfr (by simp)
    · cases hj
  | sleep => exact .inl (.of_crs (by rw [block_crs, if_neg (hrun (Exiting.phase hg.cur))]) .rfl)
  | _ => exact .inl (.of_crs rfl .rfl)

theorem Elsewhere.append (h : Elsewhere c s) (hp : s'.phase = s.phase) {L : List CrId}
    (hr : s'.ready = s.ready ++ L) : Elsewhere c s' := by
  intro hs
  obtain ⟨x, rest, hready, hne⟩ := h (hp ▸ hs)
  exact ⟨x, rest ++ L, by rw [hr, hready, List.cons_append], hne⟩

theorem Elsewhere.of_phase (hp : s.phase ≠ .switch) : Elsewhere c s := fun hs => absurd hs hp

/-- In the middle of a call nobody is about to be resumed. -/
theorem Good.elsewhere (h : Good k s) (hk : k ≠ .idle) : Elsewhere c s := by
  have hu : s.phase = .user := by
    have hc := h.cur
    cases k with
    | idle => exact absurd rfl hk
    | busy j m => exact Busy.phase hc
    | waiting j f => exact Waiting.phase hc
    | terming j ch => exact Busy.phase hc
    | closing j b x old rest => exact (Closing.toBusy hc).phase
    | exiting => exact Exiting.phase hc
  exact .of_phase (by rw [hu]; simp)

theorem elsewhere_micro (hg : Good k s) (h : Elsewhere c s) (hm : Micro l k s k' s') :
    Elsewhere c s' := by
  by_cases hk : k' = .idle
  · cases hm with
    | quiet hq => exact h.append hq.phase (L := []) (by rw [hq.ready, List.append_nil])
    | trigger hk' hl hfire hq => exact h.append rfl rfl
    | ret hv hc => exact h.append rfl (List.append_nil _).symm
    | hold hj => exact h.append rfl (List.append_nil _).symm
    | block hw => exact .of_phase (by simp [Ctx.block])
    | yield hb hj => exact .of_phase (by simp [Ctx.block])
    | launch mem v hb hj hh => exact h.append rfl rfl
    | closeWait hd => exact .of_phase (by simp [closeWaited, Ctx.block, updCr])
    | closeEnd hh => exact h.append rfl (List.append_nil _).symm
    | sleep => exact .of_phase (by simp [Ctx.block])
    | _ => cases hk
  · exact (hg.micro hm).elsewhere hk

/-! ## Until it runs again -/

/-- Coroutine `c` is suspended in call `op`, a `choose` of `n` clauses that has registered the
clauses `regs`. When it has been resumed, it is with the result of one of them. -/
structure Suspended (c : CrId) (op n : ℕ) (regs : Clause → Prop) (s : Ctx) : Prop where
  frame : (s.crs c).frame = some (op, .choose n)
  clauses : ∀ cl, cl ∈ (s.crs c).clauses ↔ regs cl
  result : c ∈ s.ready → Wakes regs (s.crs c).id (s.crs c).err

/-- The call has been resumed with this result and has not run yet. -/
structure Queued (c : CrId) (op n : ℕ) (id : ℤ) (err : Errno) (s : Ctx) : Prop where
  frame : (s.crs c).frame = some (op, .choose n)
  ready : c ∈ s.ready
  id : (s.crs c).id = id
  err : (s.crs c).err = err

theorem Suspended.left (h : Suspended c op n regs s) (hl : Left c s s') :
    Suspended c op n regs s' := by
  have hregs : (· ∈ (s.crs c).clauses) = regs := funext fun cl => propext (h.clauses cl)
  rcases hl with hl | hl
  · refine ⟨hl.frame.trans h.frame, fun cl => ?_, fun hr => ?_⟩
    · rw [hl.clauses, h.clauses]
    · rw [hl.id, hl.err]
      exact h.result (hl.ready.mp hr)
  · refine ⟨hl.frame.trans h.frame, fun cl => ?_, fun hr => ?_⟩
    · rw [hl.clauses, h.clauses]
    · rw [← hregs]
      exact hl.wakes

theorem Queued.left (h : Queued c op n id err s) (hl : Left c s s') : Queued c op n id err s' := by
  rcases hl with hl | hl
  · exact ⟨hl.frame.trans h.frame, hl.ready.mpr h.ready, hl.id.trans h.id, hl.err.trans h.err⟩
  · exact absurd h.ready hl.before

/-- A property of a suspended coroutine that survives the moves lasts until it runs again. -/
theorem step_suspended {I : Ctx → Prop} (hI : ∀ s s', I s → Left c s s' → I s')
    (hf : ∀ s, I s → (s.crs c).frame = some (op, .choose n)) (hg : Good .idle s) (h : I s)
    {a : Act} (hs : s.step a = .ok s') :
    I s' ∨ a = .switch ∧ c ∈ s.ready ∧
      s'.Returned op (result (.choose n) (s.crs c).id (s.crs c).err).1
        (result (.choose n) (s.crs c).id (s.crs c).err).2 := by
  have halike : ∀ {s₁ s₂ : Ctx}, I s₁ → s₂.crs = s₁.crs → s₂.ready = s₁.ready → I s₂ :=
    fun h₁ hc hr => hI _ _ h₁ (.inl (.of_crs (by rw [hc]) (by rw [hr])))
  by_cases he : Elsewhere c s
  · refine .inl (((step_post hg a).of_ok hs).post (I := fun _ s => I s ∧ Elsewhere c s)
      (fun l k s k' s' hg h hm => ⟨hI s s' h.1 (left_micro hg (hf s h.1) h.2 hm),
        elsewhere_micro hg h.2 hm⟩) hg ⟨h, he⟩ ?_ ?_ (fun _ h => h.1) fun _ _ _ h => ?_)
    · intro x _ hu
      have hu' : (s.enter x).phase = .user := hu
      exact ⟨halike h rfl rfl, .of_phase (by rw [hu']; simp)⟩
    · exact fun x y _ => halike h rfl rfl
    · exact halike h.1 rfl rfl
  · -- the coroutine itself is resumed
    obtain ⟨hp, hno⟩ := Classical.not_imp.mp he
    obtain rfl := step_switch hp hs
    rw [step, if_pos hp, switch] at hs
    cases hready : s.ready with
    | nil =>
      rw [hready] at hs
      cases hs
    | cons x rest =>
      obtain rfl : x = c := by
        by_contra hne
        exact hno ⟨x, rest, hready, hne⟩
      rw [hready] at hs
      simp only [hf s h] at hs
      cases hs
      exact .inr ⟨rfl, List.mem_cons_self, List.mem_append_right _ (.head _)⟩

theorem mem_log_run (hs : Reachable s) {as : List Act} (hr : run step s as = .ok s') {x : Event}
    (hx : x ∈ s.log) : x ∈ s'.log := by
  induction as generalizing s with
  | nil =>
    cases hr
    exact hx
  | cons a as ih =>
    cases hstep : s.step a with
    | error e =>
      rw [run, hstep] at hr
      cases hr
    | ok s₁ =>
      rw [run, hstep] at hr
      exact ih (.step a hs trivial hstep) hr (mem_log_step hs.good hstep hx)

/-- The same for a run: what the call returns is the result it was resumed with. -/
theorem run_suspended {I : Ctx → Prop} (hI : ∀ s s', I s → Left c s s' → I s')
    (hf : ∀ s, I s → (s.crs c).frame = some (op, .choose n)) (hr : Reachable s) (h : I s)
    {as : List Act} (hs : run step s as = .ok s') :
    I s' ∨ ∃ s₁, I s₁ ∧ c ∈ s₁.ready ∧
      s'.Returned op (result (.choose n) (s₁.crs c).id (s₁.crs c).err).1
        (result (.choose n) (s₁.crs c).id (s₁.crs c).err).2 := by
  induction as generalizing s with
  | nil =>
    cases hs
    exact .inl h
  | cons a as ih =>
    cases hstep : s.step a with
    | error e =>
      rw [run, hstep] at hs
      cases hs
    | ok s₁ =>
      rw [run, hstep] at hs
      have hr₁ : Reachable s₁ := .step a hr trivial hstep
      rcases step_suspended hI hf hr.good h hstep with h₁ | ⟨-, hin, hret⟩
      · exact ih hr₁ h₁ hs
      · exact .inr ⟨s, h, hin, mem_log_run hr₁ hs hret⟩

/-! ## The three states of the call -/

/-- The call waits, and exactly the clauses `regs` of the coroutine are linked. -/
structure Waits (s : Ctx) (c : CrId) (op n : ℕ) (regs : Clause → Prop) : Prop where
  frame : (s.crs c).frame = some (op, .choose n)
  not_ready : c ∉ s.ready
  links : ∀ e i, s.Linked e c i ↔ regs ⟨i, e⟩

/-- The coroutine has been resumed, once, and none of its clauses is linked any more. -/
structure ResumedOnce (s : Ctx) (c : CrId) (op n : ℕ) (id : ℤ) (err : Errno) : Prop where
  frame : (s.crs c).frame = some (op, .choose n)
  once : s.ready.count c = 1
  id : (s.crs c).id = id
  err : (s.crs c).err = err
  gone : ∀ e i, ¬s.Linked e c i

/-- The call has returned, once and for all. -/
structure Finished (s : Ctx) (op : ℕ) (v : ℤ) (e : Errno) : Prop where
  returned : s.Returned op v e
  once : ∀ v' e', s.Returned op v' e' → v' = v ∧ e' = e
  ended : ∀ c f, (s.crs c).frame = some (op, f) → f = .epilogue

theorem Waits.suspended (h : s.Waits c op n regs) (hg : Good .idle s) :
    Suspended c op n regs s := by
  have hlt : c < s.ncrs := by
    by_contra hge
    have hf := h.frame
    rw [hg.fresh c (not_lt.mp hge)] at hf
    cases hf
  refine ⟨h.frame, fun cl => ⟨fun hcl => ?_, fun hcl => ?_⟩, fun hr => absurd hr h.not_ready⟩
  · have hrun : s.phase = .user → c ≠ s.r := by
      rintro hu rfl
      have hf := h.frame
      rw [hg.frame_none hu] at hf
      cases hf
    have ha := (hg.toMid.pending hlt h.frame hrun).allows h.not_ready cl hcl
    have hne : cl.cancel ≠ .null := by
      rcases ha with ⟨-, x, sd, hx⟩ | rfl
      · rw [hx]
        simp
      · simp
    exact (h.links _ _).mp (hg.links c h.not_ready cl hcl hne)
  · exact (hg.linked _ _ _ ((h.links cl.cancel cl.id).mpr hcl)).2.2

theorem Suspended.waits (h : Suspended c op n regs s) (hg : Good .idle s) (hr : c ∉ s.ready)
    (hregs : ∀ i, ¬regs ⟨i, .null⟩) : s.Waits c op n regs := by
  refine ⟨h.frame, hr, fun e i => ⟨fun hl => ?_, fun hreg => ?_⟩⟩
  · exact (h.clauses _).mp (hg.linked e c i hl).2.2
  · refine hg.links c hr ⟨i, e⟩ ((h.clauses _).mpr hreg) ?_
    rintro rfl
    exact hregs i hreg

theorem Queued.resumed (h : Queued c op n id err s) (hg : Good .idle s) :
    s.ResumedOnce c op n id err where
  frame := h.frame
  once := List.count_eq_one_of_mem hg.ready_nodup h.ready
  id := h.id
  err := h.err
  gone e i hl := (hg.linked e c i hl).2.1 h.ready

theorem ResumedOnce.queued (h : s.ResumedOnce c op n id err) : Queued c op n id err s :=
  ⟨h.frame, List.count_pos_iff.mp (by rw [h.once]; exact Nat.one_pos), h.id, h.err⟩

theorem Suspended.resumed (h : Suspended c op n regs s) (hg : Good .idle s) (hr : c ∈ s.ready) :
    ∃ id err, Wakes regs id err ∧ s.ResumedOnce c op n id err :=
  ⟨_, _, h.result hr, Queued.resumed ⟨h.frame, hr, rfl, rfl⟩ hg⟩

/-- A call of `choose` that has returned does not come back. -/
theorem Returned.finished {j : Job} {v : ℤ} {e : Errno} (hs : Reachable s) (hj : s.Called c j)
    (hc : j.call.isChan = true) (hr : s.Returned j.op v e) : s.Finished j.op v e where
  returned := hr
  once v' e' hr' := hs.hist.ret_unique c j v' e' v e hj hc hr' hr
  ended c' f hf := by
    by_contra he
    obtain ⟨j', hop, hj', -⟩ := hs.good.frames.logged c' j.op f hf he
    obtain ⟨-, rfl⟩ := hs.hist.called_unique _ _ _ _ hj' hj hop
    exact hs.hist.frame_open c' j' f hf he hj' hc v e hr

/-- The call that a coroutine is suspended in. -/
theorem choose_called (hs : Reachable s) (hf : (s.crs c).frame = some (op, .choose n)) :
    ∃ j, j.op = op ∧ s.Called c j ∧ j.call.isChan = true := by
  obtain ⟨j, hop, hj, hof⟩ := hs.good.frames.logged c op _ hf (by simp)
  refine ⟨j, hop, hj, ?_⟩
  cases hcall : j.call <;> rw [hcall] at hof <;> first | rfl | exact hof.elim

theorem run_reachable (hs : Reachable s) {as : List Act} (hr : run step s as = .ok s') :
    Reachable s' := reach_of_run (fun _ _ => trivial) hs hr

/-- **A `choose` that waits is resumed once**, with the result of one of its clauses; then it
returns what this comes to. -/
theorem Waits.run (h : s.Waits c op n regs) (hs : Reachable s) (hregs : ∀ i, ¬regs ⟨i, .null⟩)
    {as : List Act} (hr : Foundations.run step s as = .ok s') :
    s'.Waits c op n regs ∨ ∃ id err, Wakes regs id err ∧ (s'.ResumedOnce c op n id err ∨
      s'.Finished op (result (.choose n) id err).1 (result (.choose n) id err).2) := by
  obtain ⟨j, rfl, hj, hch⟩ := choose_called hs h.frame
  have hs' := run_reachable hs hr
  rcases run_suspended (I := Suspended c j.op n regs) (fun _ _ h hl => h.left hl)
    (fun _ h => h.frame) hs (h.suspended hs.good) hr with h' | ⟨s₁, h₁, hin, hret⟩
  · by_cases hin : c ∈ s'.ready
    · obtain ⟨id, err, hw, hres⟩ := h'.resumed hs'.good hin
      exact .inr ⟨id, err, hw, .inl hres⟩
    · exact .inl (h'.waits hs'.good hin hregs)
  · exact .inr ⟨_, _, h₁.result hin, .inr (Returned.finished hs' (mem_log_run hs hr hj) hch hret)⟩

/-- Its result does not change any more. -/
theorem ResumedOnce.run (h : s.ResumedOnce c op n id err) (hs : Reachable s) {as : List Act}
    (hr : Foundations.run step s as = .ok s') :
    s'.ResumedOnce c op n id err ∨
      s'.Finished op (result (.choose n) id err).1 (result (.choose n) id err).2 := by
  obtain ⟨j, rfl, hj, hch⟩ := choose_called hs h.frame
  have hs' := run_reachable hs hr
  rcases run_suspended (I := Queued c j.op n id err) (fun _ _ h hl => h.left hl)
    (fun _ h => h.frame) hs h.queued hr with h' | ⟨s₁, h₁, -, hret⟩
  · exact .inl (h'.resumed hs'.good)
  · rw [h₁.id, h₁.err] at hret
    exact .inr (Returned.finished hs' (mem_log_run hs hr hj) hch hret)

/-! ## Registering the clauses -/

/-- What clause `cl` of a `choose` is registered as. -/
def Registers (s : Ctx) (cl : ChClause) (i : ℕ) (reg : Clause) : Prop :=
  ∃ ch sd, s.handles cl.ch = some (.half ch) ∧ cl.op = some sd ∧ reg = ⟨i, .ch (target ch sd) sd⟩

/-- The clauses that a `choose` with these arguments registers. -/
def chooseRegs (s : Ctx) (cls : List ChClause) (d : ℤ) (reg : Clause) : Prop :=
  (∃ i cl, cls[i]? = some cl ∧ s.Registers cl i reg) ∨ (0 ≤ d ∧ reg = ⟨cls.length, .timer⟩)

theorem chooseRegs_not_null {cls : List ChClause} {d : ℤ} (i : ℕ) :
    ¬s.chooseRegs cls d ⟨i, .null⟩ := by
  rintro (⟨j, cl, -, ch, sd, -, -, hreg⟩ | ⟨-, hreg⟩)
  · cases hreg
  · cases hreg

/-- The running coroutine has registered the clauses `L` and nothing else has changed that the
scheduler looks at. -/
structure Adds (s s' : Ctx) (L : Clause → Prop) : Prop where
  r : s'.r = s.r
  ready : s'.ready = s.ready
  handles : s'.handles = s.handles
  others : ∀ x, x ≠ s.r → s'.crs x = s.crs x
  linked : ∀ e x i, s'.Linked e x i ↔ s.Linked e x i ∨ (x = s.r ∧ L ⟨i, e⟩)

theorem Adds.of_registered {i : ℕ} {e : Cancel} (h : Registered s s' i e) (he : e ≠ .null)
    (hh : s'.handles = s.handles) : Adds s s' (· = ⟨i, e⟩) := by
  refine ⟨h.r, h.ready, hh, fun x hx => by rw [h.crs, if_neg hx], fun e' x j => ?_⟩
  rw [h.linked]
  constructor
  · rintro (hl | ⟨-, rfl, rfl, rfl⟩)
    · exact .inl hl
    · exact .inr ⟨rfl, rfl⟩
  · rintro (hl | ⟨rfl, hreg⟩)
    · exact .inl hl
    · cases hreg
      exact .inr ⟨he, rfl, rfl, rfl⟩

theorem Adds.trans {s₁ : Ctx} {L L' : Clause → Prop} (h : Adds s s₁ L) (h' : Adds s₁ s' L') :
    Adds s s' (fun reg => L reg ∨ L' reg) := by
  refine ⟨h'.r.trans h.r, h'.ready.trans h.ready, h'.handles.trans h.handles, fun x hx => ?_,
    fun e x i => ?_⟩
  · rw [h'.others x (by rw [h.r]; exact hx), h.others x hx]
  · rw [h'.linked, h.linked, h.r]
    tauto

theorem Adds.congr {L L' : Clause → Prop} (h : Adds s s' L) (hL : ∀ reg, L reg ↔ L' reg) :
    Adds s s' L' := by
  have heq : L = L' := funext fun reg => propext (hL reg)
  rwa [← heq]

theorem enqueueAll_adds (op : ℕ) (cls : List ChClause) (i : ℕ)
    (hcls : ∀ cl ∈ cls, ∃ ch sd, s.handles cl.ch = some (.half ch) ∧ cl.op = some sd) :
    ∃ s', enqueueAll op i cls s = .ok s' ∧
      Adds s s' (fun reg => ∃ m cl, cls[m]? = some cl ∧ s.Registers cl (i + m) reg) := by
  induction cls generalizing i s with
  | nil => exact ⟨s, rfl, rfl, rfl, rfl, fun _ _ => rfl, by simp⟩
  | cons cl cls ih =>
    obtain ⟨ch, sd, hx, hop⟩ := hcls cl List.mem_cons_self
    have hq : s.hqueryHalf cl.ch = .ok ch := by rw [hqueryHalf, hx]
    have hside : (if cl.op = some Side.inn then Side.inn else Side.out) = sd := by
      rw [hop]
      cases sd <;> rfl
    have hone := Adds.of_registered (registered_enqueue s op i sd (target ch sd) cl.val cl.len)
      (by simp) rfl
    obtain ⟨s', hs', hadds⟩ := ih (s := s.enqueue op i sd (target ch sd) cl.val cl.len) (i + 1)
      fun cl' hcl' => hcls cl' (List.mem_cons_of_mem _ hcl')
    refine ⟨s', ?_, (hone.trans hadds).congr fun reg => ?_⟩
    · rw [enqueueAll, hq]
      simp only [hside]
      exact hs'
    · have hshift : ∀ m, i + 1 + m = i + (m + 1) := fun m => by omega
      constructor
      · rintro (rfl | ⟨m, cl', hm, hreg⟩)
        · exact ⟨0, cl, rfl, ch, sd, hx, hop, rfl⟩
        · exact ⟨m + 1, cl', hm, by rw [← hshift]; exact hreg⟩
      · rintro ⟨m, cl', hm, hreg⟩
        cases m with
        | zero =>
          obtain rfl := Option.some.inj hm
          obtain ⟨ch', sd', hx', hop', rfl⟩ := hreg
          rw [hx] at hx'
          rw [hop] at hop'
          cases hx'
          cases hop'
          exact .inl rfl
        | succ m => exact .inr ⟨m, cl', hm, by rw [hshift]; exact hreg⟩

theorem timer_adds (i : ℕ) (d : ℤ) :
    Adds s (s.timer i d) (fun reg => 0 ≤ d ∧ reg = ⟨i, .timer⟩) := by
  by_cases hd : d < 0
  · rw [Ctx.timer, if_pos hd]
    refine ⟨rfl, rfl, rfl, fun _ _ => rfl, fun e x j => ?_⟩
    have hnot : ¬(0 : ℤ) ≤ d := not_le.mpr hd
    simp [hnot]
  · refine (Adds.of_registered (registered_timer s i hd) (by simp) ?_).congr fun reg => ?_
    · rw [Ctx.timer, if_neg hd]
      rfl
    · rw [and_iff_right (not_lt.mp hd)]

/-! ## The first loop -/

/-- Clauses that have to wait are passed over. -/
theorem scan_skip {cls : List ChClause} (m : ℕ) (i : ℕ)
    (hb : ∀ n < m, ∀ cl, cls[n]? = some cl → s.Blocks cl) (hm : m ≤ cls.length) :
    scan op i cls s = scan op (i + m) (cls.drop m) s := by
  induction m generalizing i cls with
  | zero => rfl
  | succ m ih =>
    cases cls with
    | nil => exact absurd hm (Nat.not_succ_le_zero m)
    | cons cl cls =>
      obtain ⟨hval, ch, sd, hx, hop, hd, hq⟩ := hb 0 (Nat.succ_pos m) cl rfl
      have hquery : s.hqueryHalf cl.ch = .ok ch := by rw [hqueryHalf, hx]
      have hrec : scan op (i + 1) cls s = scan op (i + 1 + m) (cls.drop m) s :=
        ih (i + 1) (fun n hn cl' hcl' => hb (n + 1) (Nat.succ_lt_succ hn) cl' hcl')
          (Nat.le_of_succ_le_succ hm)
      have hi : i + 1 + m = i + (m + 1) := by omega
      rw [scan, hquery]
      simp only [if_neg hval, hop, tryClause, hd, hq, Bool.false_eq_true, if_false,
        List.drop_succ_cons]
      rw [← hi]
      exact hrec

/-- What a `choose` does to the endpoints when clause `cl` completes or fails at once: nothing, or
the first coroutine in the queue of the other side is resumed. -/
inductive Touches (s : Ctx) (cl : ChClause) (s' : Ctx) : Prop
  | fails (hh : s'.half = s.half) (hr : s'.ready = s.ready) (ht : s'.timers = s.timers)
      (hm : s'.mem = s.mem)
  | meets {ch : HalfRef} {sd : Side} {e : ChanClause} {rest : List ChanClause}
      (hx : s.handles cl.ch = some (.half ch)) (hop : cl.op = some sd)
      (hq : (s.half (target ch sd)).queue sd.peer = e :: rest) (hr : s'.ready = s.ready ++ [e.cr])
      (ht : s'.timers = s.timers.filter fun t => t.cr ≠ e.cr)
      (hd : ∀ x, (s'.half x).done = (s.half x).done)
      (hcl : ∀ x, (s'.half x).closed = (s.half x).closed)
      (hh : ∀ x sd', (s'.half x).queue sd' = ((s.half x).queue sd').filter fun y => y.cr ≠ e.cr)

/-- The states differ in the history only. -/
def SameButLog (s s' : Ctx) : Prop := s' = { s with nops := s'.nops, log := s'.log }

theorem met_sameButLog {op' i i' : ℕ} {a : ChanArg} {e : ChanClause} (h : SameButLog s s') :
    SameButLog (s.met op i a e) (s'.met op' i' a e) := by
  unfold SameButLog at h ⊢
  rw [h]
  obtain ⟨sd, ch, val, len⟩ := a
  unfold met
  -- the buffers do not depend on the numbers of the two parties
  cases sd <;> split <;> rfl

theorem met_touches {cl : ChClause} {ch : HalfRef} {sd : Side} {e : ChanClause}
    {rest : List ChanClause} {s₀ : Ctx} (hs : SameButLog s s₀) (i : ℕ)
    (hx : s.handles cl.ch = some (.half ch)) (hop : cl.op = some sd)
    (hq : (s.half (target ch sd)).queue sd.peer = e :: rest) :
    Touches s cl (s₀.met op i ⟨sd, target ch sd, cl.val, cl.len⟩ e) := by
  unfold SameButLog at hs
  rw [hs]
  unfold met
  split
  · exact .meets hx hop hq rfl rfl (fun _ => rfl) (fun _ => rfl) fun _ _ => rfl
  · exact .meets hx hop hq rfl rfl (fun _ => rfl) (fun _ => rfl) fun _ _ => rfl

/-- **The clause that stops the loop**: it ends the same way whatever its number, whatever follows
it and whatever the history is. -/
theorem scan_head {cl : ChClause} (hb : ¬s.Blocks cl) :
    (∃ e, ∀ s₁ op i rest, SameButLog s s₁ → scan op i (cl :: rest) s₁ = .ok (some (i, e, s₁))) ∨
    ∃ ch sd e tl, s.handles cl.ch = some (.half ch) ∧ cl.op = some sd ∧
      (s.half (target ch sd)).queue sd.peer = e :: tl ∧
      ∀ s₁ k op i rest, Good k s₁ → SameButLog s s₁ → scan op i (cl :: rest) s₁ =
        .ok (some (i, if cl.len = e.len then .ok else .EMSGSIZE,
          s₁.met op i ⟨sd, target ch sd, cl.val, cl.len⟩ e)) := by
  have hquery : ∀ {s₁}, SameButLog s s₁ → s₁.hqueryHalf cl.ch = s.hqueryHalf cl.ch := by
    intro s₁ h
    unfold SameButLog at h
    rw [h]
    rfl
  have hhalf : ∀ {s₁}, SameButLog s s₁ → s₁.half = s.half := by
    intro s₁ h
    unfold SameButLog at h
    rw [h]
  cases hq : s.hqueryHalf cl.ch with
  | error e =>
    refine .inl ⟨e, fun s₁ op i rest h => ?_⟩
    rw [scan, hquery h, hq]
  | ok ch =>
    by_cases hval : cl.len > 0 ∧ cl.val = 0
    · refine .inl ⟨.EINVAL, fun s₁ op i rest h => ?_⟩
      rw [scan, hquery h, hq]
      exact if_pos hval
    · cases hop : cl.op with
      | none =>
        refine .inl ⟨.EINVAL, fun s₁ op i rest h => ?_⟩
        rw [scan, hquery h, hq]
        simp only [if_neg hval, hop]
      | some sd =>
        cases hd : (s.half (target ch sd)).done with
        | true =>
          refine .inl ⟨.EPIPE, fun s₁ op i rest h => ?_⟩
          rw [scan, hquery h, hq]
          simp only [if_neg hval, hop, tryClause, hhalf h, hd, if_true]
          rfl
        | false =>
          have hx := hqueryHalf_ok hq
          cases hqueue : (s.half (target ch sd)).queue sd.peer with
          | nil => exact absurd ⟨hval, ch, sd, hx, hop, hd, hqueue⟩ hb
          | cons e tl =>
            refine .inr ⟨ch, sd, e, tl, hx, rfl, hqueue, fun s₁ k op i rest hg h => ?_⟩
            obtain ⟨o, ho, htried⟩ :=
              (tryClause_post hg op i ⟨sd, target ch sd, cl.val, cl.len⟩).get
            rw [scan, hquery h, hq]
            simp only [if_neg hval, hop]
            have hd₁ : (s₁.half (target ch sd)).done = false := by rw [hhalf h, hd]
            have hq₁ : (s₁.half (target ch sd)).queue sd.peer = e :: tl := by rw [hhalf h, hqueue]
            cases htried with
            | pipe hd' =>
              rw [hd₁] at hd'
              cases hd'
            | wait hd' hq' =>
              rw [hq₁] at hq'
              cases hq'
            | met hd' hq' =>
              rw [hq₁] at hq'
              obtain ⟨rfl, rfl⟩ := List.cons.inj hq'
              rw [ho]
              rfl

/-! ## The call -/

theorem step_choose (hu : s.phase = .user) (hb : s.canblock = true) (cls : List ChClause) (d : ℤ) :
    s.step (.call (.choose (some cls) d)) =
      (scan s.nops 0 cls (s.enter (.choose (some cls) d)) >>= fun
        | some (i, e, s') => .ok (s'.ret s.nops i e)
        | none =>
          if d = 0 then .ok ((s.enter (.choose (some cls) d)).ret s.nops (-1) .ETIMEDOUT)
          else do
            let s' ← enqueueAll s.nops 0 cls (s.enter (.choose (some cls) d))
            .ok ((s'.timer cls.length d).block s.nops (.choose cls.length))) := by
  have hb' : (s.enter (.choose (some cls) d)).canblock = true := hb
  rw [step, if_pos hu, doCall, choose.eq_def, hb']
  rfl

/-- **The first clause that need not wait decides**: the call does what the `choose` of this clause
alone does. -/
theorem choose_first (hs : Reachable s) (hu : s.phase = .user) (hb : s.canblock = true)
    {cls : List ChClause} {i : ℕ} {cl : ChClause} (d : ℤ) (hcl : cls[i]? = some cl)
    (hbefore : ∀ m < i, ∀ cl', cls[m]? = some cl' → s.Blocks cl') (hnow : ¬s.Blocks cl) :
    ∃ s₁ s₂ e, s.step (.call (.choose (some [cl]) d)) = .ok (s₁.ret s.nops 0 e) ∧
      s.step (.call (.choose (some cls) d)) = .ok (s₂.ret s.nops i e) ∧ SameButLog s₁ s₂ ∧
      Touches s cl s₁ := by
  have hlt : i < cls.length := (List.getElem?_eq_some_iff.mp hcl).1
  have hdrop : cls.drop i = cl :: cls.drop (i + 1) := by
    rw [List.drop_eq_getElem_cons hlt, (List.getElem?_eq_some_iff.mp hcl).2]
  have hg₁ := hs.good.enter_job hu (.choose (some [cl]) d)
  have hg₂ := hs.good.enter_job hu (.choose (some cls) d)
  have hskip : scan s.nops 0 cls (s.enter (.choose (some cls) d)) =
      scan s.nops (0 + i) (cl :: cls.drop (i + 1)) (s.enter (.choose (some cls) d)) := by
    rw [← hdrop]
    exact scan_skip i 0 hbefore hlt.le
  rw [Nat.zero_add] at hskip
  rw [step_choose hu hb, step_choose hu hb, hskip]
  have h₁ : SameButLog s (s.enter (.choose (some [cl]) d)) := rfl
  have h₂ : SameButLog s (s.enter (.choose (some cls) d)) := rfl
  rcases scan_head hnow with ⟨e, hstop⟩ | ⟨ch, sd, e, tl, hx, hop, hq, hstop⟩
  · rw [hstop _ _ _ _ h₁, hstop _ _ _ _ h₂]
    exact ⟨_, _, e, rfl, rfl, rfl, .fails rfl rfl rfl rfl⟩
  · rw [hstop _ _ _ _ _ hg₁ h₁, hstop _ _ _ _ _ hg₂ h₂]
    exact ⟨_, _, _, rfl, rfl, met_sameButLog rfl, met_touches h₁ 0 hx hop hq⟩

theorem scan_blocks {cls : List ChClause} (hb : ∀ cl ∈ cls, s.Blocks cl) (i : ℕ) :
    scan op i cls s = .ok none := by
  have hskip : scan op i cls s = scan op (i + cls.length) (cls.drop cls.length) s :=
    scan_skip cls.length i (fun n _ cl hcl => hb cl (List.mem_of_getElem? hcl)) le_rfl
  rw [hskip, List.drop_length]
  rfl

/-- All clauses have to wait and the deadline is zero. -/
theorem choose_polls (hu : s.phase = .user) (hb : s.canblock = true) {cls : List ChClause}
    (hall : ∀ cl ∈ cls, s.Blocks cl) :
    s.step (.call (.choose (some cls) 0)) =
      .ok ((s.enter (.choose (some cls) 0)).ret s.nops (-1) .ETIMEDOUT) := by
  have hscan : scan s.nops 0 cls (s.enter (.choose (some cls) 0)) = .ok none :=
    scan_blocks (s := s.enter (.choose (some cls) 0)) hall 0
  rw [step_choose hu hb, hscan]
  rfl

/-- **All clauses have to wait and the call blocks**: every clause is registered. -/
theorem choose_registers (hs : Reachable s) (hu : s.phase = .user) (hb : s.canblock = true)
    {cls : List ChClause} {d : ℤ} (hd : d ≠ 0) (hall : ∀ cl ∈ cls, s.Blocks cl) :
    ∃ s', s.step (.call (.choose (some cls) d)) = .ok s' ∧
      s'.Waits s.r s.nops cls.length (s.chooseRegs cls d) ∧ s'.ready = s.ready ∧
      ∀ e x i, x ≠ s.r → (s'.Linked e x i ↔ s.Linked e x i) := by
  have hscan : scan s.nops 0 cls (s.enter (.choose (some cls) d)) = .ok none :=
    scan_blocks (s := s.enter (.choose (some cls) d)) hall 0
  obtain ⟨s₁, hs₁, h₁⟩ := enqueueAll_adds (s := s.enter (.choose (some cls) d)) s.nops cls 0
    fun cl hcl => by
      obtain ⟨-, ch, sd, hx, hop, -⟩ := hall cl hcl
      exact ⟨ch, sd, hx, hop⟩
  have h₂ : Adds (s.enter (.choose (some cls) d)) (s₁.timer cls.length d) (s.chooseRegs cls d) :=
    (h₁.trans (timer_adds cls.length d)).congr fun reg => by
      unfold chooseRegs
      simp only [Nat.zero_add]
      rfl
  have hr₂ : (s₁.timer cls.length d).r = s.r := h₂.r
  have hrun := hs.good.cur hu
  have hnone : ∀ e i, ¬s.Linked e s.r i := by
    intro e i hl
    have hmem := (hs.good.linked e s.r i hl).2.2
    rw [hrun.clauses] at hmem
    cases hmem
  rw [step_choose hu hb, hscan]
  refine ⟨(s₁.timer cls.length d).block s.nops (.choose cls.length), ?_, ⟨?_, ?_, ?_⟩, h₂.ready, ?_⟩
  · simp only [hs₁]
    show (if d = 0 then _ else _) = _
    rw [if_neg hd]
    rfl
  · rw [block_crs, hr₂, if_pos rfl]
  · show s.r ∉ (s₁.timer cls.length d).ready
    rw [h₂.ready]
    exact hrun.not_ready
  · intro e i
    rw [linked_block, h₂.linked]
    constructor
    · rintro (hl | ⟨-, hreg⟩)
      · exact absurd hl (hnone e i)
      · exact hreg
    · exact fun hreg => .inr ⟨rfl, hreg⟩
  · intro e x i hx
    rw [linked_block, h₂.linked]
    constructor
    · rintro (hl | ⟨heq, -⟩)
      · exact hl
      · exact absurd heq hx
    · exact .inl

/-! ## The events -/

/-- A suspended `choose` stays suspended in a step that is not its own resumption. -/
theorem Waits.step (h : s.Waits c op n regs) (hs : Reachable s) {a : Act} (ha : a ≠ .switch)
    (hstep : s.step a = .ok s') : Suspended c op n regs s' := by
  rcases step_suspended (I := Suspended c op n regs) (fun _ _ h hl => h.left hl)
    (fun _ h => h.frame) hs.good (h.suspended hs.good) hstep with h' | ⟨h', -⟩
  · exact h'
  · exact absurd h' ha

/-- The coroutine at the head of the queue is resumed. -/
theorem met_wakes (s : Ctx) (op i : ℕ) (a : ChanArg) (e : ChanClause) :
    (s.met op i a e).ready = s.ready ++ [e.cr] ∧ (s.met op i a e).crs e.cr =
      { s.crs e.cr with
        id := e.id, err := if a.len = e.len then .ok else .EMSGSIZE, readyNext := true } := by
  unfold met
  by_cases hlen : a.len = e.len
  · rw [if_pos hlen, if_pos hlen]
    exact ⟨rfl, (wake_crs e.cr).trans (if_pos rfl)⟩
  · rw [if_neg hlen, if_neg hlen]
    exact ⟨rfl, (wake_crs e.cr).trans (if_pos rfl)⟩

/-- A channel operation that meets the first clause in the queue. -/
theorem Waits.meets (h : s.Waits c op n regs) (hs : Reachable s) (hu : s.phase = .user)
    (hb : s.canblock = true) {sd : Side} {x : Handle} {ch : HalfRef} (val : Addr) (len : ℕ) (d : ℤ)
    (hx : s.handles x = some (.half ch)) (hd : (s.half (target ch sd)).done = false)
    {e : ChanClause} {rest : List ChanClause}
    (hq : (s.half (target ch sd)).queue sd.peer = e :: rest) (hc : e.cr = c) :
    ∃ s', s.step (.call (.chan sd x val len d)) = .ok s' ∧ regs ⟨e.id, .ch (target ch sd) sd.peer⟩ ∧
      s'.ResumedOnce c op n e.id (if len = e.len then .ok else .EMSGSIZE) := by
  have hg₁ := hs.good.enter_job hu (.chan sd x val len d)
  have hb₁ : (s.enter (.chan sd x val len d)).canblock = true := hb
  have hx₁ : (s.enter (.chan sd x val len d)).hqueryHalf x = .ok ch := by
    have hx' : (s.enter (.chan sd x val len d)).handles x = some (.half ch) := hx
    rw [hqueryHalf, hx']
  have hd₁ : ((s.enter (.chan sd x val len d)).half (target ch sd)).done = false := hd
  have hq₁ : ((s.enter (.chan sd x val len d)).half (target ch sd)).queue sd.peer = e :: rest := hq
  obtain ⟨s', hstep, hready, hcrs⟩ : ∃ s', s.step (.call (.chan sd x val len d)) = .ok s' ∧
      s'.ready = s.ready ++ [c] ∧
      s'.crs c = { s.crs c with
        id := e.id, err := if len = e.len then .ok else .EMSGSIZE, readyNext := true } := by
    obtain ⟨o, ho, htried⟩ :=
      (tryClause_post hg₁ s.nops 0 ⟨sd, target ch sd, val, len⟩).get
    cases htried with
    | pipe hd' =>
      rw [hd₁] at hd'
      cases hd'
    | wait hd' hq' =>
      rw [hq₁] at hq'
      cases hq'
    | met hd' hq' =>
      rw [hq₁] at hq'
      obtain ⟨rfl, rfl⟩ := List.cons.inj hq'
      obtain ⟨hready, hcrs⟩ := met_wakes (s.enter (.chan sd x val len d)) s.nops 0
        ⟨sd, target ch sd, val, len⟩ e
      rw [hc] at hready hcrs
      have hstep : s.step (.call (.chan sd x val len d)) = .ok (ret
          ((s.enter (.chan sd x val len d)).met s.nops 0 ⟨sd, target ch sd, val, len⟩ e) s.nops
          (if (if len = e.len then Errno.ok else .EMSGSIZE) = .ok then 0 else -1)
          (if len = e.len then .ok else .EMSGSIZE)) := by
        rw [step_chan hu, chanOp, hb₁, hx₁]
        simp only [ho]
        rfl
      exact ⟨_, hstep, hready, hcrs⟩
  have hg' := hs.good.step hstep
  have hsusp := h.step hs (by simp) hstep
  refine ⟨s', hstep, (h.links _ _).mp (by rw [← hc]; exact linked_head hq), ?_⟩
  refine Queued.resumed ⟨hsusp.frame, ?_, by rw [hcrs], by rw [hcrs]⟩ hg'
  rw [hready]
  exact List.mem_append_right _ (.head _)

/-- Everybody who waits on the half-channels `P` has been resumed, and so has `c`. -/
theorem Waits.closed (h : s.Waits c op n regs) (hs : Reachable s) {a : Act} (ha : a ≠ .switch)
    (hstep : s.step a = .ok s') {P : HalfRef → Prop} (hres : ResumesWaiters P s s')
    (hlink : ∃ x sd i, P x ∧ regs ⟨i, .ch x sd⟩) :
    ∃ x sd i, P x ∧ regs ⟨i, .ch x sd⟩ ∧ s'.ResumedOnce c op n i .EPIPE := by
  obtain ⟨L, hready, -, hL, hw⟩ := hres.resumed
  obtain ⟨x, sd, i, hx, hreg⟩ := hlink
  obtain ⟨e, he, hec, -⟩ := (h.links _ _).mpr hreg
  have hin : c ∈ L := (hL c).mpr ⟨x, sd, hx, e, he, hec⟩
  obtain ⟨herr, x', sd', hx', e', he', hec', hid⟩ := hw c hin
  refine ⟨x', sd', e'.id, hx', (h.links _ _).mp ⟨e', he', hec', rfl⟩, ?_⟩
  refine Queued.resumed ⟨(h.step hs ha hstep).frame, ?_, hid, herr⟩ (hs.good.step hstep)
  rw [hready]
  exact List.mem_append_right _ hin

/-- The deadline has passed when the poll ends. -/
theorem Waits.expires (h : s.Waits c op n regs) (hs : Reachable s) (hw : s.phase = .wait) {nw : ℤ}
    {answers : List PollAnswer} (henter : s.ready = [] ∨ nw > s.lastPoll + 1000)
    (hstep : s.step (.poll nw answers) = .ok s') {t : Timer} (ht : t ∈ s.timers) (hc : t.cr = c)
    (hval : t.val ≤ s'.lastPoll) : s'.ResumedOnce c op n n .ETIMEDOUT := by
  obtain ⟨a, -, evs, W, -, hfires⟩ := (poll_fires hs hw nw answers henter).of_ok hstep
  have hallow : ∀ {e : Cancel} {i : ℕ}, s.Linked e c i → (Frame.choose n).Allows ⟨i, e⟩ := by
    intro e i hl
    obtain ⟨-, op', f, hp, hf⟩ := hs.good.linked_pending (by simp) hl
    have hframe := hp.frame.symm.trans h.frame
    cases hframe
    exact hf
  have hW : t.cr ∉ W := by
    rw [hfires.woken]
    rintro ⟨id, fd, sd, i, -, hwaiter, -⟩
    have hl : s.Linked (.fd fd sd) c i := by
      rw [← hc]
      exact hwaiter
    rcases hallow hl with ⟨-, x, sd', hx⟩ | hx <;> cases hx
  have hid : t.id = n := by
    rcases hallow (e := .timer) ⟨t, ht, hc, rfl⟩ with ⟨-, x, sd, hx⟩ | hx
    · cases hx
    · exact congrArg Clause.id hx
  have hfired : t ∈ s.fired s'.lastPoll W := List.mem_filter.mpr ⟨ht, by simpa using ⟨hval, hW⟩⟩
  obtain ⟨hid', herr⟩ := hfires.timerResult t hfired
  rw [hc, hid] at hid'
  rw [hc] at herr
  refine Queued.resumed ⟨(h.step hs (by simp) hstep).frame, ?_, hid', herr⟩ (hs.good.step hstep)
  rw [hfires.ready]
  exact List.mem_append_right _ (List.mem_map.mpr ⟨t, hfired, hc⟩)

end Ctx

open Ctx

/-- What `choose` does in a state. -/
structure ChooseLaw (s : Ctx) : Prop where
  /-- With one clause, it runs like `chsend` or `chrecv`, whatever the program does afterwards; only
  the call, its result and the place where the caller waits are recorded under another name. -/
  single : ∀ sd x val len d, val ≠ 0 ∨ len = 0 → ∀ as,
    run step s (.call (.choose (some [⟨some sd, x, val, len⟩]) d) :: as) =
      (run step s (.call (.chan sd x val len d) :: as)).map (asChoose s.nops)
  /-- It reports success when the other call returns 0, and the same `errno` otherwise. -/
  report : ∀ v e, (chooseReport v e = (0, .ok) ↔ v = 0) ∧ (v ≠ 0 → (chooseReport v e).2 = e)
  /-- In a coroutine that is being cancelled it fails, as these calls do. -/
  canceled : s.phase = .user → s.canblock = false → ∀ cls d,
    s.step (.call (.choose cls d)) = .ok ((s.enter (.choose cls d)).ret s.nops (-1) .ECANCELED)
  /-- The first clause that need not wait decides. -/
  first : s.phase = .user → s.canblock = true → ∀ (cls : List ChClause) d (i : ℕ) cl,
    cls[i]? = some cl →
    (∀ m < i, ∀ cl', cls[m]? = some cl' → s.Blocks cl') → ¬s.Blocks cl →
    ∃ s₁ s₂ e, s.step (.call (.choose (some [cl]) d)) = .ok (s₁.ret s.nops 0 e) ∧
      s.step (.call (.choose (some cls) d)) = .ok (s₂.ret s.nops i e) ∧ SameButLog s₁ s₂ ∧
      Touches s cl s₁
  /-- If there is none, a zero deadline has expired. -/
  polls : s.phase = .user → s.canblock = true → ∀ cls, (∀ cl ∈ cls, s.Blocks cl) →
    s.step (.call (.choose (some cls) 0)) =
      .ok ((s.enter (.choose (some cls) 0)).ret s.nops (-1) .ETIMEDOUT)
  /-- Otherwise every clause is registered, and the deadline with the number after them; the call
  waits until it is resumed, once, by one of these or by a cancellation. -/
  registers : s.phase = .user → s.canblock = true → ∀ (cls : List ChClause) d, d ≠ 0 →
    (∀ cl ∈ cls, s.Blocks cl) →
    ∃ s₁, s.step (.call (.choose (some cls) d)) = .ok s₁ ∧
      s₁.Waits s.r s.nops cls.length (s.chooseRegs cls d) ∧ s₁.ready = s.ready ∧
      (∀ e x i, x ≠ s.r → (s₁.Linked e x i ↔ s.Linked e x i)) ∧
      ∀ as s₂, run step s₁ as = .ok s₂ →
        s₂.Waits s.r s.nops cls.length (s.chooseRegs cls d) ∨
        ∃ id err, Wakes (s.chooseRegs cls d) id err ∧
          (s₂.ResumedOnce s.r s.nops cls.length id err ∨
            s₂.Finished s.nops (result (.choose cls.length) id err).1
              (result (.choose cls.length) id err).2)
  /-- A channel operation that comes to a clause of a waiting `choose` resumes it. -/
  meets : s.phase = .user → s.canblock = true → ∀ c op n regs, s.Waits c op n regs →
    ∀ sd x ch val len d, s.handles x = some (.half ch) → (s.half (target ch sd)).done = false →
    ∀ e rest, (s.half (target ch sd)).queue sd.peer = e :: rest → e.cr = c →
    ∃ s', s.step (.call (.chan sd x val len d)) = .ok s' ∧
      regs ⟨e.id, .ch (target ch sd) sd.peer⟩ ∧
      s'.ResumedOnce c op n e.id (if len = e.len then .ok else .EMSGSIZE)
  /-- So does `chdone` on a half-channel it waits on. -/
  chdone : s.phase = .user → ∀ c op n regs, s.Waits c op n regs → ∀ x ch,
    s.handles x = some (.half ch) → (s.half ch.other).done = false →
    (∃ sd i, regs ⟨i, .ch ch.other sd⟩) →
    ∃ s' sd i, s.step (.call (.chdone x)) = .ok s' ∧ regs ⟨i, .ch ch.other sd⟩ ∧
      s'.ResumedOnce c op n i .EPIPE
  /-- So does the second `hclose` of its channel. -/
  hclose : s.phase = .user → ∀ c op n regs, s.Waits c op n regs → ∀ x ch,
    s.handles x = some (.half ch) → (s.half ch).closed = false → (s.half ch.other).closed = true →
    (∃ y sd i, y.chan = ch.chan ∧ regs ⟨i, .ch y sd⟩) →
    ∃ s' y sd i, s.step (.call (.hclose x)) = .ok s' ∧ y.chan = ch.chan ∧ regs ⟨i, .ch y sd⟩ ∧
      s'.ResumedOnce c op n i .EPIPE
  /-- So does a poll that ends when the deadline has passed. -/
  expires : s.phase = .wait → ∀ c op n regs, s.Waits c op n regs → ∀ nw answers s',
    (s.ready = [] ∨ nw > s.lastPoll + 1000) → s.step (.poll nw answers) = .ok s' →
    ∀ t ∈ s.timers, t.cr = c → t.val ≤ s'.lastPoll → s'.ResumedOnce c op n n .ETIMEDOUT
  /-- Once resumed, it keeps its result until it returns what this comes to. -/
  returns : ∀ c op n id err, s.ResumedOnce c op n id err → ∀ as s', run step s as = .ok s' →
    s'.ResumedOnce c op n id err ∨
      s'.Finished op (result (.choose n) id err).1 (result (.choose n) id err).2

theorem chooseReport_spec (v : ℤ) (e : Errno) :
    (chooseReport v e = (0, .ok) ↔ v = 0) ∧ (v ≠ 0 → (chooseReport v e).2 = e) := by
  unfold chooseReport
  by_cases hv : v = 0
  · simp [hv]
  · simp only [hv, iff_false]
    cases e <;> simp

/-- **`choose` refines `chsend` and `chrecv`.** -/
theorem choose_refines {s : Ctx} (hs : Reachable s) : ChooseLaw s where
  single sd x val len d hval as := run_single hs d hval as
  report := chooseReport_spec
  canceled hu hb cls d := by
    have hb' : (s.enter (.choose cls d)).canblock = false := hb
    rw [step, if_pos hu, doCall, choose.eq_def, hb']
    rfl
  first hu hb cls d i cl hcl hbefore hnow := choose_first hs hu hb d hcl hbefore hnow
  polls hu hb cls hall := choose_polls hu hb hall
  registers hu hb cls d hd hall := by
    obtain ⟨s₁, hstep, hw, hready, hothers⟩ := choose_registers hs hu hb hd hall
    refine ⟨s₁, hstep, hw, hready, hothers, fun as s₂ hr => ?_⟩
    exact hw.run (.step _ hs trivial hstep) chooseRegs_not_null hr
  meets hu hb c op n regs h sd x ch val len d hx hd e rest hq hc :=
    h.meets hs hu hb val len d hx hd hq hc
  chdone hu c op n regs h x ch hx hd hlink := by
    obtain ⟨s', hstep, -, hres⟩ := chdone_resumes hs.good hu hx hd
    obtain ⟨sd, i, hreg⟩ := hlink
    obtain ⟨y, sd', i', rfl, hreg', hres'⟩ :=
      h.closed hs (by simp) hstep hres ⟨_, sd, i, rfl, hreg⟩
    exact ⟨s', sd', i', hstep, hreg', hres'⟩
  hclose hu c op n regs h x ch hx hc ho hlink := by
    obtain ⟨s', hstep, hres⟩ := hclose_resumes hs.good hu hx hc ho
    obtain ⟨y, sd, i, hy, hreg⟩ := hlink
    obtain ⟨y', sd', i', hy', hreg', hres'⟩ :=
      h.closed hs (by simp) hstep hres ⟨y, sd, i, hy, hreg⟩
    exact ⟨s', y', sd', i', hstep, hy', hreg', hres'⟩
  expires hw c op n regs h nw answers s' henter hstep t ht hc hval :=
    h.expires hs hw henter hstep ht hc hval
  returns c op n id err h as s' hr := h.run hs hr

/-- A run in which one coroutine waits to receive from two channels. -/
def waitingOnTwo : List Act :=
  [.call (.chmake 0 1), .call (.chmake 2 3), .call (.go (-1) false true 4),
    .call (.choose (some [⟨some .inn, 0, 100, 4⟩, ⟨some .inn, 2, 200, 4⟩]) 50), .poll 0 [], .switch]

theorem choose_refines_waitingOnTwo :
    ∃ s, run step Ctx.init waitingOnTwo = .ok s ∧ s.phase = .user ∧
      ((s.half ⟨0, false⟩).queue .inn).length = 1 ∧ ((s.half ⟨1, false⟩).queue .inn).length = 1 ∧
      ChooseLaw s := by
  obtain ⟨s, hr, hp⟩ := exists_of_runsTo step Ctx.init waitingOnTwo
    (fun s => decide (s.phase = .user ∧ ((s.half ⟨0, false⟩).queue .inn).length = 1 ∧
      ((s.half ⟨1, false⟩).queue .inn).length = 1)) (by decide)
  rw [decide_eq_true_eq] at hp
  exact ⟨s, hr, hp.1, hp.2.1, hp.2.2, choose_refines (reachable_of_run hr)⟩

/-- The coroutine that is resumed leaves the queues of the other channels too. -/
theorem choose_touches_other_channel :
    ¬∀ s, Reachable s → s.phase = .user → s.canblock = true → ∀ (cls : List ChClause) d (i : ℕ) cl,
      ∀ ch sd, cls[i]? = some cl → (∀ m < i, ∀ cl', cls[m]? = some cl' → s.Blocks cl') → ¬s.Blocks cl →
      s.handles cl.ch = some (.half ch) → cl.op = some sd →
      ∃ s', s.step (.call (.choose (some cls) d)) = .ok s' ∧
        ∀ x, x ≠ target ch sd → ∀ sd', (s'.half x).queue sd' = (s.half x).queue sd' := by
  intro h
  obtain ⟨s, hr, hp⟩ := exists_of_runsTo step Ctx.init waitingOnTwo
    (fun s => decide (s.phase = .user ∧ s.canblock = true ∧
      s.handles 1 = some (.half ⟨0, true⟩) ∧ (s.half ⟨0, false⟩).queue .inn ≠ [] ∧
      (s.half ⟨1, false⟩).queue .inn ≠ [] ∧
      runsTo step s [.call (.choose (some [⟨some .out, 1, 300, 4⟩]) 0)]
        (fun s' => decide ((s'.half ⟨1, false⟩).queue .inn = [])) = true)) (by decide)
  rw [decide_eq_true_eq] at hp
  obtain ⟨hu, hb, hx, hq, hq', hrun⟩ := hp
  have hnow : ¬s.Blocks ⟨some .out, 1, 300, 4⟩ := by
    rintro ⟨-, ch, sd, hch, hsd, -, hnil⟩
    rw [hx] at hch
    cases hch
    cases hsd
    exact hq hnil
  obtain ⟨s₁, hs₁, hsame⟩ := h s (reachable_of_run hr) hu hb [⟨some .out, 1, 300, 4⟩] 0 0 _
    ⟨0, true⟩ .out rfl (by simp) hnow hx rfl
  obtain ⟨s₂, hs₂, hgone⟩ := exists_of_runsTo _ _ _ _ hrun
  rw [run_singleton, hs₁] at hs₂
  cases hs₂
  rw [decide_eq_true_eq, hsame ⟨1, false⟩ (by decide)] at hgone
  exact hq' hgone

end Libdill.Sched
