import Libdill.Sched.Refine

/-!
# No missed rendezvous

A half-channel never has a waiting receiver next to a waiting sender of another coroutine, and
one on which `chdone` was called has no waiting clauses at all, now and forever. Both are
invariants of the moves (`Apart`). Closing a channel, by `chdone` or by the second `hclose`, is
described by `ResumesWaiters`: everybody who waits there becomes ready once, with `EPIPE`.
-/

namespace Libdill.Sched

open Foundations

namespace Ctx

/-! ## The invariant -/

/-- Only clauses of one coroutine wait on both sides of a half-channel, and none on a half-channel
that is done. -/
structure Apart (k : Cur) (s : Ctx) : Prop where
  done : ∀ x, (s.half x).done = true → (∀ sd, (s.half x).queue sd = []) ∨ ∃ j, k = .terming j x
  apart : ∀ x, ∀ e ∈ (s.half x).queue .inn, ∀ e' ∈ (s.half x).queue .out, e.cr = e'.cr

variable {k k' : Cur} {s s' : Ctx}

/-- Clauses may leave the queues. -/
theorem Apart.shrink (h : Apart k s)
    (hq : ∀ x sd, ((s'.half x).queue sd).Sublist ((s.half x).queue sd))
    (hd : ∀ x, (s'.half x).done = (s.half x).done) (hk : ∀ j x, k = .terming j x → k' = k) :
    Apart k' s' where
  done x hx := by
    rw [hd] at hx
    rcases h.done x hx with hempty | ⟨j, hj⟩
    · refine .inl fun sd => ?_
      have := hq x sd
      rw [hempty sd] at this
      exact List.sublist_nil.1 this
    · exact .inr ⟨j, by rw [hk j x hj, hj]⟩
  apart x e he e' he' := h.apart x e ((hq x .inn).subset he) e' ((hq x .out).subset he')

theorem Apart.same (h : Apart k s) (hh : s'.half = s.half) (hk : ∀ j x, k = .terming j x → k' = k) :
    Apart k' s' :=
  h.shrink (fun x sd => by rw [hh]) (fun x => by rw [hh]) hk

theorem Apart.wake (h : Apart k s) (c : CrId) (id : ℤ) (err : Errno) : Apart k (s.wake c id err) :=
  h.shrink (fun _ _ => List.filter_sublist) (fun _ => rfl) fun _ _ _ => rfl

theorem met_queue (op i : ℕ) (a : ChanArg) (c : ChanClause) (x : HalfRef) (sd : Side) :
    ((s.met op i a c).half x).queue sd = ((s.half x).queue sd).filter fun e => e.cr ≠ c.cr := by
  rw [met]
  split <;> rfl

theorem met_done (op i : ℕ) (a : ChanArg) (c : ChanClause) (x : HalfRef) :
    ((s.met op i a c).half x).done = (s.half x).done := by
  rw [met]
  split <;> rfl

/-- Every queued clause has on the other side only clauses of the coroutine that queues it. -/
theorem Apart.enqueue {j : Job} {f : Frame} {i : ℕ} {a : ChanArg} (h : Apart (.waiting j f) s)
    (hd : (s.half a.half).done = false)
    (hp : ∀ e ∈ (s.half a.half).queue a.sd.peer, e.cr = s.r) :
    Apart (.waiting j f) (s.enqueue j.op i a.sd a.half a.val a.len) := by
  have hdone : ∀ x, ((s.enqueue j.op i a.sd a.half a.val a.len).half x).done =
      (s.half x).done := fun x => by
    by_cases hx : x = a.half
    · subst hx
      simp [Ctx.enqueue, waitfor, updCr, updHalf]
    · simp [Ctx.enqueue, waitfor, updCr, updHalf, hx]
  refine ⟨fun x hx => ?_, fun x e he e' he' => ?_⟩
  · rw [hdone] at hx
    have hne : x ≠ a.half := by
      rintro rfl
      rw [hd] at hx
      cases hx
    rcases h.done x hx with hempty | ⟨j', hj'⟩
    · refine .inl fun sd => ?_
      rw [enqueue_queue, if_neg fun hc => hne hc.1]
      exact hempty sd
    · cases hj'
  · rw [enqueue_queue] at he he'
    by_cases hx : x = a.half
    · subst hx
      cases hsd : a.sd with
      | inn =>
        rw [hsd] at hp he he'
        rw [if_neg (by simp)] at he'
        rw [if_pos ⟨rfl, rfl⟩] at he
        rcases List.mem_append.1 he with he | he
        · exact h.apart a.half e he e' he'
        · rw [List.mem_singleton.1 he]
          exact (hp e' he').symm
      | out =>
        rw [hsd] at hp he he'
        rw [if_neg (by simp)] at he
        rw [if_pos ⟨rfl, rfl⟩] at he'
        rcases List.mem_append.1 he' with he' | he'
        · exact h.apart a.half e he e' he'
        · rw [List.mem_singleton.1 he']
          exact hp e he
    · rw [if_neg fun hc => hx hc.1] at he he'
      exact h.apart x e he e' he'

theorem Apart.micro {l : Bool} (hg : Good k s) (h : Apart k s) (hm : Micro l k s k' s') :
    Apart k' s' := by
  cases hm with
  | quiet hq =>
    refine h.shrink (fun x sd => ?_) (fun x => ?_) fun _ _ _ => rfl
    · obtain ⟨cl, hx⟩ := hq.half x
      rw [hx]
    · obtain ⟨cl, hx⟩ := hq.half x
      rw [hx]
  | trigger hk hl he hq => exact h.wake _ _ _
  | meet ha hd hq =>
    refine h.shrink (fun x sd => ?_) (fun x => met_done _ _ _ _ x) (by simp)
    rw [met_queue]
    exact List.filter_sublist
  | chmake h₀ h₁ => exact h.same (chmade_half hg.tables h₀ h₁) (by simp)
  | startTerm ch hn =>
    have hq : ∀ x sd, ((s.updHalf ch fun x => { x with done := true }).half x).queue sd =
        (s.half x).queue sd :=
      (sameSched_updHalf s ch (g := fun x => { x with done := true }) fun _ => rfl).queue
    refine ⟨fun x hx => ?_, fun x e he e' he' => ?_⟩
    · by_cases hxc : x = ch
      · exact .inr ⟨_, by rw [hxc]⟩
      · simp only [updHalf, Function.update_of_ne hxc] at hx
        rcases h.done x hx with hempty | ⟨j', hj'⟩
        · exact .inl fun sd => (hq x sd).trans (hempty sd)
        · cases hj'
    · rw [hq] at he he'
      exact h.apart x e he e' he'
  | @endTerm l s j ch hq =>
    refine ⟨fun x hx => .inl ?_, h.apart⟩
    rcases h.done x hx with hempty | ⟨j', hj'⟩
    · exact hempty
    · cases hj'
      exact hq
  | enqueue hi hf ha hlt hn hd hp => exact h.enqueue hd hp
  | timer deadline hi hf =>
    refine h.same ?_ fun _ _ _ => rfl
    rw [timer]
    split <;> rfl
  | wakeCloser hp hr => exact h.wake _ _ _
  | wakeWaiter hn hb hl hw hr => exact h.wake _ _ _
  | @closeWait l s j b x old c rest hd =>
    have h₁ : Apart (.closing j b x old (c :: rest))
        (s.updCr c fun cr => { cr with noBlocking1 := true }) := h.same rfl fun _ _ _ => rfl
    have h₂ := h₁.wake c (-1) .ECANCELED
    rw [closeWaited]
    split
    · exact h₁.same rfl (by simp)
    · exact h₂.same rfl (by simp)
  | _ => exact h.same rfl (by simp)

theorem outer_apart : Outer Apart where
  enter _ _ _ _ h := h.same rfl (by simp)
  write _ _ _ h := h.same rfl (by simp)
  endPoll _ _ _ h := h.same rfl (by simp)

/-- A half-channel that is done stays so. -/
theorem done_micro {l : Bool} (hg : Good k s) {x : HalfRef} (h : (s.half x).done = true)
    (hm : Micro l k s k' s') : (s'.half x).done = true := by
  cases hm with
  | quiet hq =>
    obtain ⟨cl, hx⟩ := hq.half x
    rw [hx]
    exact h
  | meet ha hd hq => rw [met_done]; exact h
  | chmake h₀ h₁ => rw [chmade_half hg.tables]; exact h
  | startTerm ch hn =>
    by_cases hx : x = ch
    · subst hx; simp [updHalf]
    · simpa [updHalf, hx] using h
  | enqueue hi hf ha hlt hn hd hp =>
    rename_i a
    by_cases hx : x = a.half
    · subst hx
      simpa [Ctx.enqueue, waitfor, updCr, updHalf] using h
    · simpa [Ctx.enqueue, waitfor, updCr, updHalf, hx] using h
  | timer deadline hi hf =>
    rw [timer]
    split <;> exact h
  | closeWait hd =>
    rw [closeWaited]
    split <;> exact h
  | _ => exact h

/-! ## Operations on a half-channel that is done -/

/-- `chsend` and `chrecv` fail at once. -/
theorem chanOp_done {op : ℕ} {sd : Side} {x : Handle} {ch : HalfRef} (val : Addr) (len : ℕ)
    (deadline : ℤ) (hb : s.canblock = true) (hx : s.handles x = some (.half ch))
    (hd : (s.half (target ch sd)).done = true) :
    s.chanOp op sd x val len deadline = .ok (s.ret op (-1) .EPIPE) := by
  have hq : s.hqueryHalf x = .ok ch := by rw [hqueryHalf, hx]
  rw [chanOp, hb, hq]
  simp only [tryClause, hd]
  rfl

/-- The clause of a `choose` has to wait. -/
def Blocks (s : Ctx) (cl : ChClause) : Prop :=
  ¬(cl.len > 0 ∧ cl.val = 0) ∧ ∃ ch sd, s.handles cl.ch = some (.half ch) ∧ cl.op = some sd ∧
    (s.half (target ch sd)).done = false ∧ (s.half (target ch sd)).queue sd.peer = []

/-- The clause of a `choose` is on a half-channel that is done. -/
def AtDone (s : Ctx) (cl : ChClause) : Prop :=
  ¬(cl.len > 0 ∧ cl.val = 0) ∧ ∃ ch sd, s.handles cl.ch = some (.half ch) ∧ cl.op = some sd ∧
    (s.half (target ch sd)).done = true

/-- The scan of a `choose` stops at a clause on such a half-channel, if it gets there. -/
theorem scan_done {op : ℕ} (cls : List ChClause) (i n : ℕ) {cl : ChClause}
    (hcls : cls[n]? = some cl) (hb : ∀ m < n, ∀ cl', cls[m]? = some cl' → s.Blocks cl')
    (hd : s.AtDone cl) : scan op i cls s = .ok (some (i + n, .EPIPE, s)) := by
  induction cls generalizing i n with
  | nil => simp at hcls
  | cons cl' cls ih =>
    cases n with
    | zero =>
      simp only [List.getElem?_cons_zero, Option.some.injEq] at hcls
      subst hcls
      obtain ⟨hval, ch, sd, hx, hop, hd⟩ := hd
      have hq : s.hqueryHalf cl'.ch = .ok ch := by rw [hqueryHalf, hx]
      rw [scan, hq]
      simp only [if_neg hval, hop, tryClause, hd]
      rfl
    | succ n =>
      obtain ⟨hval', ch', sd', hx', hop', hd', hq'⟩ := hb 0 (Nat.succ_pos n) cl' rfl
      have hq : s.hqueryHalf cl'.ch = .ok ch' := by rw [hqueryHalf, hx']
      have hrec := ih (i + 1) n (by simpa using hcls) fun m hm cl'' hcl'' =>
        hb (m + 1) (Nat.succ_lt_succ hm) cl'' (by simpa using hcl'')
      rw [scan, hq]
      simp only [if_neg hval', hop', tryClause, hd', hq', Bool.false_eq_true, if_false]
      rw [Nat.add_assoc, Nat.add_comm 1 n] at hrec
      exact hrec

/-! ## Emptying the queues -/

/-- Every coroutine that waits on a half-channel with `P` becomes ready, once and with `EPIPE`
for one of its clauses there, and nobody else does. -/
structure ResumesWaiters (P : HalfRef → Prop) (s s' : Ctx) : Prop where
  empty : ∀ x, P x → ∀ sd, (s'.half x).queue sd = []
  resumed : ∃ L : List CrId, s'.ready = s.ready ++ L ∧ s'.ready.Nodup ∧
    (∀ c, c ∈ L ↔ ∃ x sd, P x ∧ ∃ e ∈ (s.half x).queue sd, e.cr = c) ∧
    ∀ c ∈ L, (s'.crs c).err = .EPIPE ∧
      ∃ x sd, P x ∧ ∃ e ∈ (s.half x).queue sd, e.cr = c ∧ (s'.crs c).id = e.id

theorem Drained.resumes {P : HalfRef → Prop} {L : List CrId} (h : Drained P s L s')
    (hnd : s'.ready.Nodup) (hq : ∀ x, P x → ∀ sd, (s'.half x).queue sd = []) :
    ResumesWaiters P s s' := by
  refine ⟨hq, L, h.ready, hnd, fun c => ⟨fun hc => ?_, ?_⟩, fun c hc => ?_⟩
  · obtain ⟨-, x, sd, e, hx, he, hec, -⟩ := h.woken c hc
    exact ⟨x, sd, hx, e, he, hec⟩
  · rintro ⟨x, sd, hx, e, he, rfl⟩
    -- a clause of a coroutine that was not woken would still be queued
    by_contra hc
    have hmem : e ∈ (s'.half x).queue sd := by
      rw [h.queue]
      exact List.mem_filter.2 ⟨he, by simpa using hc⟩
    rw [hq x hx sd] at hmem
    cases hmem
  · obtain ⟨herr, x, sd, e, hx, he, hec, hid⟩ := h.woken c hc
    exact ⟨herr, x, sd, hx, e, he, hec, hid⟩

theorem ResumesWaiters.congr {P : HalfRef → Prop} {s₁ s₂ : Ctx} (h : ResumesWaiters P s₁ s₂)
    (e : s.SameSched s₁) (e' : s₂.SameSched s') : ResumesWaiters P s s' := by
  obtain ⟨L, hr, hnd, hL, hw⟩ := h.resumed
  refine ⟨fun x hx sd => ?_, L, ?_, ?_, fun c => ?_, fun c hc => ?_⟩
  · rw [e'.queue, h.empty x hx sd]
  · rw [e'.ready, hr, e.ready]
  · rw [e'.ready]; exact hnd
  · rw [hL]
    simp only [e.queue]
  · obtain ⟨herr, x, sd, hx, c', hc', hec, hid⟩ := hw c hc
    rw [e.queue] at hc'
    exact ⟨by rw [e'.err, herr], x, sd, hx, c', hc', hec, by rw [e'.id, hid]⟩

/-- `chdone` on a half-channel that is not done yet. -/
theorem chdone_resumes (hg : Good .idle s) (hu : s.phase = .user) {x : Handle} {ch : HalfRef}
    (hx : s.handles x = some (.half ch)) (hd : (s.half ch.other).done = false) :
    ∃ s', s.step (.call (.chdone x)) = .ok s' ∧ (s'.half ch.other).done = true ∧
      ResumesWaiters (· = ch.other) s s' := by
  have h₀ := hg.enter_job hu (.chdone x)
  have hq : (s.enter (.chdone x)).hqueryHalf x = .ok ch := by
    have hx' : (s.enter (.chdone x)).handles x = some (.half ch) := hx
    rw [hqueryHalf, hx']
  have hm : Micro false (.busy (s.job (.chdone x)) none) (s.enter (.chdone x))
      (.terming (s.job (.chdone x)) ch.other)
      ((s.enter (.chdone x)).updHalf ch.other fun y => { y with done := true }) :=
    .startTerm ch.other (hg.tables.handle x ch hx)
  have h₁ := h₀.micro hm
  obtain ⟨s₂, hs₂, hm₂, hempty, L, hL⟩ :=
    (halfchanTerm_post (l := false) (by simp) h₁ ch.other).get
  have hs₁ : s.SameSched ((s.enter (.chdone x)).updHalf ch.other fun y => { y with done := true }) :=
    (sameSched_enter s _).trans (sameSched_updHalf _ ch.other fun _ => rfl)
  refine ⟨s₂.ret s.nops 0 .ok, ?_, ?_, ?_⟩
  · rw [step, if_pos hu, doCall, chdone, hq]
    have hd' : ((s.enter (.chdone x)).half ch.other).done = false := hd
    simp only [hd', Bool.false_eq_true, if_false, hs₂]
    rfl
  · change (s₂.half ch.other).done = true
    rw [hL.done]
    simp [updHalf]
  · have hr := hL.resumes (h₁.micros hm₂).ready_nodup fun y hy sd => by rw [hy]; exact hempty sd
    exact hr.congr hs₁ (sameSched_ret s₂ _ _ _)

theorem Drained.mono {P Q : HalfRef → Prop} {L : List CrId} (h : Drained P s L s')
    (hPQ : ∀ x, P x → Q x) : Drained Q s L s' :=
  { h with
    woken := fun c hc => by
      obtain ⟨he, x, sd, e, hx, hq, hec, hid⟩ := h.woken c hc
      exact ⟨he, x, sd, e, hPQ x hx, hq, hec, hid⟩ }

/-- The second `hclose` on a channel. -/
theorem hclose_resumes (hg : Good .idle s) (hu : s.phase = .user) {x : Handle} {ch : HalfRef}
    (hx : s.handles x = some (.half ch)) (hc : (s.half ch).closed = false)
    (ho : (s.half ch.other).closed = true) :
    ∃ s', s.step (.call (.hclose x)) = .ok s' ∧
      ResumesWaiters (fun y => y.chan = ch.chan) s s' := by
  have h₀ := hg.enter_job hu (.hclose x)
  have hm : Micro false (.busy (s.job (.hclose x)) none) (s.enter (.hclose x))
      (.busy (s.job (.hclose x)) none)
      ((s.enter (.hclose x)).updCr s.r fun cr => { cr with noBlocking2 := true }) :=
    .quiet (quiet_noBlocking2 h₀.toCore true)
  have h₁ := h₀.micro hm
  obtain ⟨s₂, hs₂, hm₂, hempty₂, L₂, hL₂⟩ :=
    (halfchanTerm_post (l := false) (by simp) h₁ ⟨ch.chan, false⟩).get
  have h₂ := h₁.micros hm₂
  obtain ⟨s₃, hs₃, hm₃, hempty₃, L₃, hL₃⟩ :=
    (halfchanTerm_post (l := false) (by simp) h₂ ⟨ch.chan, true⟩).get
  have h₃ := h₂.micros hm₃
  have hL : Drained (fun y => y.chan = ch.chan) _ (L₂ ++ L₃) s₃ :=
    (hL₂.mono fun y hy => by rw [hy]).trans (hL₃.mono fun y hy => by rw [hy])
  have hempty : ∀ y : HalfRef, y.chan = ch.chan → ∀ sd, (s₃.half y).queue sd = [] := by
    rintro ⟨n, idx⟩ rfl sd
    cases idx with
    | false => rw [hL₃.queue, hempty₂ sd]; rfl
    | true => exact hempty₃ sd
  have hr := hL.resumes h₃.ready_nodup hempty
  have hs₁ := (sameSched_enter s (.hclose x)).trans (quiet_noBlocking2 h₀.toCore true).sameSched
  refine ⟨((s₃.updCr s₃.r fun cr => { cr with noBlocking2 := (s.crs s.r).noBlocking2 }).setHandle x
    none).ret s.nops 0 .ok, ?_, ?_⟩
  · rw [step, if_pos hu, doCall, hclose]
    have hx' : (s.enter (.hclose x)).handles x = some (.half ch) := hx
    have hc' : (((s.enter (.hclose x)).updCr (s.enter (.hclose x)).r fun cr =>
        { cr with noBlocking2 := true }).half ch).closed = false := hc
    have ho' : (((s.enter (.hclose x)).updCr (s.enter (.hclose x)).r fun cr =>
        { cr with noBlocking2 := true }).half ch.other).closed = true := ho
    rw [hx']
    simp only [halfchanClose, hc', ho', Bool.false_eq_true, if_false, Bool.not_true]
    have hs₂' : ((s.enter (.hclose x)).updCr (s.enter (.hclose x)).r fun cr =>
        { cr with noBlocking2 := true }).halfchanTerm ⟨ch.chan, false⟩ = .ok s₂ := hs₂
    rw [hs₂']
    change (s₂.halfchanTerm ⟨ch.chan, true⟩ >>= _) = _
    rw [hs₃]
    rfl
  · have hq := quiet_noBlocking2 h₃.toCore (s.crs s.r).noBlocking2
    refine hr.congr hs₁ (hq.sameSched.trans (.trans ?_ (sameSched_ret _ _ _ _)))
    exact (quiet_setHandle x (.inl rfl)).sameSched

end Ctx

open Ctx

theorem Reachable.apart {s : Ctx} (h : Reachable s) : Apart .idle s := by
  refine (Reachable.invariant (I := Apart) (fun s hs => ?_) outer_apart
    (fun _ _ _ _ _ hg hi hm => hi.micro hg hm) h).2
  refine ⟨fun x hx => ?_, fun x e he => ?_⟩
  · rw [hs.half] at hx
    cases hx
  · rw [hs.half] at he
    cases he

/-- `chsend` (`out`) or `chrecv` (`inn`). -/
def Call.chan : Side → Handle → Addr → ℕ → ℤ → Call
  | .out => .chsend
  | .inn => .chrecv

theorem Ctx.step_chan {s : Ctx} (hu : s.phase = .user) (sd : Side) (x : Handle) (val : Addr)
    (len : ℕ) (d : ℤ) :
    s.step (.call (.chan sd x val len d)) =
      (s.enter (.chan sd x val len d)).chanOp s.nops sd x val len d := by
  rw [step, if_pos hu]
  cases sd <;> rfl

/-- What holds of the half-channels in a state. -/
structure NoMissedRendezvous (s : Ctx) : Prop where
  /-- A receiver and a sender that wait on the same half-channel are the same coroutine. -/
  apart : ∀ x, ∀ e ∈ (s.half x).queue .inn, ∀ e' ∈ (s.half x).queue .out, e.cr = e'.cr
  /-- Nobody waits on a half-channel that is done, in this state and in all later ones. -/
  done : ∀ x, (s.half x).done = true → ∀ as s', run Ctx.step s as = .ok s' →
    (s'.half x).done = true ∧ ∀ sd, (s'.half x).queue sd = []
  /-- Sending to it and receiving from it fails at once with `EPIPE`, or with `ECANCELED` in a
  coroutine that is being cancelled. -/
  fails : s.phase = .user → ∀ sd x ch val len d, s.handles x = some (.half ch) →
    (s.half (target ch sd)).done = true →
    s.step (.call (.chan sd x val len d)) = .ok ((s.enter (.chan sd x val len d)).ret s.nops (-1)
      (if s.canblock then .EPIPE else .ECANCELED))
  /-- So does a `choose` that comes to such a clause. -/
  chooseFails : s.phase = .user → s.canblock = true → ∀ (cls : List ChClause) (d : ℤ) (n : ℕ) cl,
    cls[n]? = some cl → (∀ m < n, ∀ cl', cls[m]? = some cl' → s.Blocks cl') → s.AtDone cl →
    s.step (.call (.choose (some cls) d)) =
      .ok ((s.enter (.choose (some cls) d)).ret s.nops n .EPIPE)
  /-- `chdone` resumes everybody who waits there. -/
  chdone : s.phase = .user → ∀ x ch, s.handles x = some (.half ch) →
    (s.half ch.other).done = false →
    ∃ s', s.step (.call (.chdone x)) = .ok s' ∧ (s'.half ch.other).done = true ∧
      ResumesWaiters (· = ch.other) s s'
  /-- The second `hclose` resumes everybody who waits on either half. -/
  hclose : s.phase = .user → ∀ x ch, s.handles x = some (.half ch) → (s.half ch).closed = false →
    (s.half ch.other).closed = true →
    ∃ s', s.step (.call (.hclose x)) = .ok s' ∧ ResumesWaiters (fun y => y.chan = ch.chan) s s'

theorem run_done {s s' : Ctx} {as : List Act} {x : HalfRef} (h : Reachable s)
    (hd : (s.half x).done = true) (hr : run Ctx.step s as = .ok s') :
    Reachable s' ∧ (s'.half x).done = true := by
  induction as generalizing s with
  | nil =>
    cases hr
    exact ⟨h, hd⟩
  | cons a as ih =>
    cases hs : s.step a with
    | error e =>
      rw [run, hs] at hr
      cases hr
    | ok s₁ =>
      rw [run, hs] at hr
      have hd₁ := ((step_post h.good a).of_ok hs).keeps (I := fun _ s => (s.half x).done = true)
        ⟨fun _ _ _ _ h => h, fun _ _ _ h => h, fun _ _ _ h => h⟩
        (fun _ _ _ _ _ hg hd hm => done_micro hg hd hm) h.good hd
      exact ih (.step a h trivial hs) hd₁ hr

/-- **No missed rendezvous.** -/
theorem no_missed_rendezvous {s : Ctx} (h : Reachable s) : NoMissedRendezvous s where
  apart := h.apart.apart
  done x hx as s' hr := by
    obtain ⟨h', hd⟩ := run_done h hx hr
    refine ⟨hd, ?_⟩
    rcases h'.apart.done x hd with hempty | ⟨j, hj⟩
    · exact hempty
    · cases hj
  fails hu sd x ch val len d hx hd := by
    rw [step_chan hu]
    by_cases hb : s.canblock = true
    · rw [if_pos hb]
      exact chanOp_done val len d hb hx hd
    · have hb' : (s.enter (.chan sd x val len d)).canblock = false := Bool.eq_false_iff.2 hb
      rw [if_neg hb, chanOp, hb']
      rfl
  chooseFails hu hb cls d n cl hcl hblocks hd := by
    have hb' : (s.enter (.choose (some cls) d)).canblock = true := hb
    have hs : scan s.nops 0 cls (s.enter (.choose (some cls) d)) =
        .ok (some (0 + n, .EPIPE, s.enter (.choose (some cls) d))) :=
      scan_done cls 0 n hcl hblocks hd
    rw [Nat.zero_add] at hs
    rw [step, if_pos hu, doCall, choose.eq_def, hb']
    simp only [Bool.not_true, Bool.false_eq_true, if_false, hs]
    rfl
  chdone hu x ch hx hd := chdone_resumes h.good hu hx hd
  hclose hu x ch hx hc ho := hclose_resumes h.good hu hx hc ho

/-- A run in which one coroutine waits on both sides of a half-channel and on the other half. -/
def waitingChooser : List Act :=
  [.call (.chmake 0 1), .call (.go (-1) false true 2),
    .call (.choose (some [⟨some .inn, 0, 100, 4⟩, ⟨some .out, 1, 200, 4⟩, ⟨some .inn, 1, 300, 8⟩]) 50),
    .poll 0 [], .switch]

theorem no_missed_rendezvous_waitingChooser :
    ∃ s, run Ctx.step Ctx.init waitingChooser = .ok s ∧
      ((s.half ⟨0, false⟩).queue .inn).length = 1 ∧ ((s.half ⟨0, false⟩).queue .out).length = 1 ∧
      NoMissedRendezvous s := by
  obtain ⟨s, hr, hp⟩ := exists_of_runsTo Ctx.step Ctx.init waitingChooser
    (fun s => decide (((s.half ⟨0, false⟩).queue .inn).length = 1 ∧
      ((s.half ⟨0, false⟩).queue .out).length = 1)) (by decide)
  rw [decide_eq_true_eq] at hp
  exact ⟨s, hr, hp.1, hp.2, no_missed_rendezvous (reachable_of_run hr)⟩

/-- A run in which a coroutine is cancelled after `chdone`. -/
def canceledSender : List Act :=
  [.call (.chmake 0 1), .call (.chdone 0), .call (.go (-1) false true 2), .call .yield, .poll 0 [],
    .switch, .call (.hclose 2), .poll 0 [], .switch]

/-- In a coroutine that is being cancelled, sending to a half-channel that is done does not fail
with `EPIPE`. -/
theorem canceled_send_not_epipe :
    ¬∀ s, Reachable s → s.phase = .user → ∀ x ch val len d, s.handles x = some (.half ch) →
      (s.half ch.other).done = true →
      ∃ s', s.step (.call (.chsend x val len d)) = .ok s' ∧
        s'.log.getLast? = some (.ret s.nops (-1) .EPIPE) := by
  intro h
  obtain ⟨s, hr, hp⟩ := exists_of_runsTo Ctx.step Ctx.init canceledSender
    (fun s => decide (s.phase = .user ∧ s.handles 0 = some (.half ⟨0, false⟩) ∧
      (s.half ⟨0, true⟩).done = true ∧
      runsTo Ctx.step s [.call (.chsend 0 100 4 (-1))]
        (fun s' => decide (s'.log.getLast? = some (.ret s.nops (-1) .ECANCELED))) = true))
    (by decide)
  rw [decide_eq_true_eq] at hp
  obtain ⟨hu, hx, hd, hs⟩ := hp
  obtain ⟨s₁, hs₁, hlog₁⟩ := h s (reachable_of_run hr) hu 0 ⟨0, false⟩ 100 4 (-1) hx hd
  obtain ⟨s₂, hs₂, hlog₂⟩ := exists_of_runsTo _ _ _ _ hs
  rw [run, hs₁] at hs₂
  cases hs₂
  rw [decide_eq_true_eq, hlog₁] at hlog₂
  cases hlog₂

end Libdill.Sched
