import Libdill.Sched.History

/-!
# Firing timers

What `dill_wait` does with the timers while it polls, and the timeout it polls with.

* `poll_fires`: in every reachable state, the branch that polls fires the timers that have expired
  when it is left, and no others, after the events of file descriptors, in the order of their
  deadlines, and of their registration where these are equal.
* `pollTimeout_right_iff`: for which deadlines the timeout, an `int`, is right. By
  `registered_timers` it is about the timers of every reachable state.

A suspended coroutine has registered its timer in its last call, and calls are numbered in the
order they are made, so the order of registration is that of `Ctx.lastCall`.
-/

namespace Libdill.Sched

open Foundations

/-- The numbers of the calls of a coroutine. -/
def callOps (log : List Event) (c : CrId) : List ℕ :=
  log.filterMap fun
    | .call op c' _ _ => if c' = c then some op else none
    | _ => none

/-- A coroutine waits for one timer at most. -/
theorem Frame.Allows.timer_unique {f : Frame} {i i' : ℕ} (h : f.Allows ⟨i, .timer⟩)
    (h' : f.Allows ⟨i', .timer⟩) : i = i' := by
  cases f <;> simp_all [Frame.Allows]

namespace Ctx

/-- The number of the last call of a coroutine. -/
def lastCall (s : Ctx) (c : CrId) : ℕ := (callOps s.log c).foldr max 0

/-- The order in which timers expire: that of the deadlines, and of the registration. -/
def ExpiresBefore (s : Ctx) (t t' : Timer) : Prop :=
  t.val < t'.val ∨ t.val = t'.val ∧ s.lastCall t.cr < s.lastCall t'.cr

/-- The timers are kept in that order. -/
def TimersOrder (s : Ctx) : Prop := s.timers.Pairwise s.ExpiresBefore

variable {l : Bool} {k k' : Cur} {s s' : Ctx} {c : CrId} {i : ℕ} {f : Frame} {j : Job}

/-! ## The order of the timers -/

theorem mem_callOps {op : ℕ} : op ∈ callOps s.log c ↔ ∃ j, s.Called c j ∧ j.op = op := by
  unfold callOps Called
  rw [List.mem_filterMap]
  constructor
  · rintro ⟨e, he, hop⟩
    cases e with
    | call op' c' call objs =>
      dsimp only at hop
      split at hop
      · rename_i hc
        rw [Option.some.inj hop, hc] at he
        exact ⟨⟨op, call, objs⟩, he, rfl⟩
      · cases hop
    | ret op v e => cases hop
    | meet m => cases hop
  · rintro ⟨j, hj, rfl⟩
    exact ⟨_, hj, if_pos rfl⟩

theorem le_foldr_max {a : ℕ} {l : List ℕ} (ha : a ∈ l) : a ≤ l.foldr max 0 := by
  induction l with
  | nil => cases ha
  | cons b l ih =>
    rcases List.mem_cons.mp ha with rfl | ha
    · exact le_max_left _ _
    · exact (ih ha).trans (le_max_right _ _)

theorem foldr_max_mem {l : List ℕ} (hl : l ≠ []) : l.foldr max 0 ∈ l := by
  induction l with
  | nil => exact absurd rfl hl
  | cons b l ih =>
    rw [List.foldr_cons]
    by_cases hnil : l = []
    · rw [hnil, List.foldr_nil, Nat.max_zero]
      exact List.mem_cons_self
    · rcases max_choice b (l.foldr max 0) with h | h <;> rw [h]
      · exact List.mem_cons_self
      · exact List.mem_cons_of_mem _ (ih hnil)

/-- The call in which timers are being registered is the last one of all. -/
theorem Hist.lastCall_waiting (h : Hist (.waiting j f) s) (hj : s.Called s.r j) :
    s.lastCall s.r = j.op := by
  have hne : callOps s.log s.r ≠ [] := List.ne_nil_of_mem (mem_callOps.mpr ⟨j, hj, rfl⟩)
  obtain ⟨j', hj', hop⟩ := mem_callOps.mp (foldr_max_mem hne)
  have hle : j.op ≤ s.lastCall s.r := le_foldr_max (mem_callOps.mpr ⟨j, hj, rfl⟩)
  have hlt := h.op_lt _ _ hj'
  rw [h.waiting_last j f rfl, hop] at hlt
  exact Nat.le_antisymm (Nat.le_of_lt_succ hlt) hle

/-- The other coroutines that have made a call have made it before. -/
theorem Hist.lastCall_lt (h : Hist (.waiting j f) s) (hj : s.Called s.r j) {j' : Job}
    (hj' : s.Called c j') (hc : c ≠ s.r) : s.lastCall c < j.op := by
  have hne : callOps s.log c ≠ [] := List.ne_nil_of_mem (mem_callOps.mpr ⟨j', hj', rfl⟩)
  obtain ⟨j'', hj'', hop⟩ := mem_callOps.mp (foldr_max_mem hne)
  have hlt := h.op_lt _ _ hj''
  rw [h.waiting_last j f rfl] at hlt
  have hdiff : j''.op ≠ j.op := fun he => hc (h.called_unique _ _ _ _ hj'' hj he).1
  have hop' : s.lastCall c = j''.op := hop.symm
  omega

/-- The order does not change when timers are taken away and calls return. -/
theorem TimersOrder.keep (h : s.TimersOrder) (ht : s'.timers.Sublist s.timers)
    (hlog : ∀ c, callOps s'.log c = callOps s.log c) : s'.TimersOrder := by
  have hcall : ∀ c, s'.lastCall c = s.lastCall c := fun c => by rw [lastCall, lastCall, hlog]
  refine (h.sublist ht).imp fun {t t'} hb => ?_
  unfold ExpiresBefore
  rwa [hcall, hcall]

/-- An event other than a call of the coroutine. -/
theorem callOps_append (log : List Event) {e : Event} (he : ∀ op x o, e ≠ .call op c x o) :
    callOps (log ++ [e]) c = callOps log c := by
  unfold callOps
  rw [List.filterMap_append, List.append_right_eq_self, List.filterMap_eq_nil_iff]
  intro e' he'
  rw [List.mem_singleton.mp he']
  cases e with
  | call op c' x o =>
    refine if_neg ?_
    rintro rfl
    exact he op x o rfl
  | ret op v e => rfl
  | meet m => rfl

theorem wake_order (h : s.TimersOrder) (c : CrId) (id : ℤ) (err : Errno) :
    (s.wake c id err).TimersOrder :=
  h.keep (List.filter_sublist) fun _ => rfl

theorem ret_order (h : s.TimersOrder) (op : ℕ) (v : ℤ) (e : Errno) : (s.ret op v e).TimersOrder :=
  h.keep (List.Sublist.refl _) fun _ => callOps_append _ (by simp)

/-- A new timer comes after all those with the same deadline. -/
theorem TimersOrder.timer (h : s.TimersOrder) (hg : Good (.waiting j f) s)
    (hh : Hist (.waiting j f) s) (deadline : ℤ) (hi : i ∉ (s.crs s.r).clauses.map Clause.id)
    (hf : f.Allows ⟨i, .timer⟩) : (s.timer i deadline).TimersOrder := by
  by_cases hd : deadline < 0
  · rw [Ctx.timer, if_pos hd]
    exact h
  · have hw : s.Waiting j f := hg.cur
    have hlast := hh.lastCall_waiting hw.called
    rw [Ctx.timer, if_neg hd]
    refine pairwise_insertAfter (R := s.ExpiresBefore) h ?_ ?_ ?_
    · rintro b c (hlt | ⟨heq, -⟩)
      · exact hlt.le
      · exact heq.le
    · intro b hb hle
      obtain ⟨hlt, hnr, hmem⟩ := hg.linked .timer b.cr b.id ⟨b, hb, rfl, rfl⟩
      have hne : b.cr ≠ s.r := by
        intro hbr
        rw [hbr] at hmem
        have hallow := hw.allows _ hmem
        have hid : b.id = i := Frame.Allows.timer_unique hallow hf
        exact hi (List.mem_map.mpr ⟨_, hmem, hid⟩)
      obtain ⟨op, g, hp⟩ := hg.settled b.cr hlt fun _ => hne
      have hepi : g ≠ .epilogue := by
        rintro rfl
        exact hp.allows hnr _ hmem
      obtain ⟨j', -, hj', -⟩ := hg.frames.logged b.cr op g hp.frame hepi
      have hbefore := hh.lastCall_lt hw.called hj' hne
      rcases lt_or_eq_of_le hle with hlt | heq
      · exact .inl hlt
      · exact .inr ⟨heq, by rw [hlast]; exact hbefore⟩
    · exact fun b hb => .inl hb

/-- **Every move keeps the timers in order.** -/
theorem TimersOrder.micro (h : s.TimersOrder) (hg : Good k s) (hh : Hist k s)
    (hm : Micro l k s k' s') : s'.TimersOrder := by
  have hsame : ∀ {s'' : Ctx}, s''.timers = s.timers → s''.log = s.log → s''.TimersOrder :=
    fun ht hl => h.keep (by rw [ht]) fun c => by rw [hl]
  cases hm with
  | quiet hq => exact hsame hq.timers hq.log
  | trigger hk hl he hq => exact wake_order h _ _ _
  | @meet s j i a c rest ha hd hq =>
    unfold met
    split <;> exact h.keep List.filter_sublist fun _ => callOps_append _ (by simp)
  | ret hv hc => exact ret_order h _ _ _
  | timer deadline hi hf => exact h.timer hg hh deadline hi hf
  | @closeWait l s j b x old c rest hd =>
    unfold closeWaited
    by_cases hc : c ∈ s.ready
    · simp only [if_pos hc]
      exact hsame rfl rfl
    · simp only [if_neg hc]
      exact h.keep List.filter_sublist fun _ => rfl
  | closeEnd hh => exact ret_order h _ _ _
  | wakeCloser hp hr => exact wake_order h _ _ _
  | wakeWaiter hn hb hl hw hr => exact wake_order h _ _ _
  | _ => exact h

theorem outer_timersOrder : Outer fun k s => Hist k s ∧ s.TimersOrder where
  enter s x hg hu h := by
    refine ⟨h.1.enter x, List.Pairwise.imp_of_mem ?_ h.2⟩
    -- the coroutine that makes the call is not waiting for a timer
    have hcall : ∀ t ∈ s.timers, (s.enter x).lastCall t.cr = s.lastCall t.cr := by
      intro t ht
      obtain ⟨hne, -⟩ := hg.linked_pending (by simp) (e := .timer) ⟨t, ht, rfl, rfl⟩
      have hnew : callOps (s.enter x).log t.cr = callOps s.log t.cr :=
        callOps_append _ fun op y o he => hne hu (Event.call.inj he).2.1.symm
      rw [lastCall, hnew, lastCall]
    intro t t' ht ht' hb
    unfold ExpiresBefore
    rwa [hcall t ht, hcall t' ht']
  write s a x h := ⟨outer_hist.write s a x h.1, h.2⟩
  endPoll s hg hp h := ⟨outer_hist.endPoll s hg hp h.1, h.2⟩

end Ctx

open Ctx

/-- **The timers are in order in every reachable state.** -/
theorem Reachable.timersOrder {s : Ctx} (h : Reachable s) : s.TimersOrder := by
  refine (h.invariant (I := fun k s => Hist k s ∧ s.TimersOrder) (fun s hi => ?_)
    outer_timersOrder fun _ _ _ _ _ hg hk hm => ⟨hk.1.micro hg hm, hk.2.micro hg hk.1 hm⟩).2.2
  refine ⟨Hist.init hi, ?_⟩
  unfold TimersOrder
  rw [hi.timers]
  exact List.Pairwise.nil

namespace Ctx

variable {s s' : Ctx} {c : CrId} {id : ℤ} {err : Errno}

/-! ## Waking a list of coroutines -/

/-- The coroutines `W` have been woken in this order, with results that satisfy `P`. -/
structure Woke (P : CrId → ℤ → Errno → Prop) (s : Ctx) (W : List CrId) (s' : Ctx) : Prop where
  ready : s'.ready = s.ready ++ W
  timers : s'.timers = s.timers.filter fun t => t.cr ∉ W
  waiter : ∀ fd sd, (s'.fds fd).waiter sd = ((s.fds fd).waiter sd).filter fun cl => cl.cr ∉ W
  others : ∀ c, c ∉ W → s'.crs c = s.crs c
  woken : ∀ c ∈ W, P c (s'.crs c).id (s'.crs c).err

variable {P Q : CrId → ℤ → Errno → Prop} {W W' : List CrId}

theorem Woke.refl (P : CrId → ℤ → Errno → Prop) (s : Ctx) : Woke P s [] s :=
  ⟨(List.append_nil _).symm, by simp,
    fun fd sd => by cases (s.fds fd).waiter sd <;> simp [Option.filter], fun _ _ => rfl, by simp⟩

theorem woke_wake (hP : P c id err) : Woke P s [c] (s.wake c id err) where
  ready := rfl
  timers := by simp
  waiter fd sd := by simp
  others x hx := by rw [wake_crs, if_neg (by simpa using hx)]
  woken x hx := by
    obtain rfl := List.mem_singleton.mp hx
    rwa [wake_crs, if_pos rfl]

theorem Woke.mono (h : Woke P s W s') (hPQ : ∀ c ∈ W, ∀ id err, P c id err → Q c id err) :
    Woke Q s W s' :=
  { h with woken := fun c hc => hPQ c hc _ _ (h.woken c hc) }

theorem Woke.trans {s'' : Ctx} (h : Woke P s W s') (h' : Woke P s' W' s'') :
    Woke P s (W ++ W') s'' where
  ready := by rw [h'.ready, h.ready, List.append_assoc]
  timers := by
    rw [h'.timers, h.timers, List.filter_filter]
    apply List.filter_congr
    intro t _
    rw [← Bool.decide_and, decide_eq_decide, List.mem_append, not_or, and_comm]
  waiter fd sd := by
    rw [h'.waiter, h.waiter]
    cases (s.fds fd).waiter sd with
    | none => rfl
    | some cl => by_cases hcl : cl.cr ∈ W <;> simp [Option.filter, hcl]
  others c hc := by
    rw [List.mem_append, not_or] at hc
    rw [h'.others c hc.2, h.others c hc.1]
  woken c hc := by
    by_cases hc' : c ∈ W'
    · exact h'.woken c hc'
    · rw [h'.others c hc']
      exact h.woken c ((List.mem_append.mp hc).resolve_right hc')

/-! ## The events of file descriptors -/

/-- The coroutine waits with clause `id` for one of the descriptors that `A` names. -/
def WaitsFd (A : ℕ → Side → Prop) (s : Ctx) (c : CrId) (id : ℤ) : Prop :=
  ∃ fd sd i, A fd sd ∧ (s.fds fd).waiter sd = some ⟨c, i⟩ ∧ id = i

/-- Exactly the coroutines that wait for a descriptor that `A` names have been woken, with the
clauses of these. -/
structure FdWoke (A : ℕ → Side → Prop) (s : Ctx) (W : List CrId) (s' : Ctx) : Prop
    extends Woke (fun c id err => s.WaitsFd A c id ∧ err = .ok) s W s' where
  all : ∀ c id, s.WaitsFd A c id → c ∈ W

variable {A A' : ℕ → Side → Prop}

theorem FdWoke.refl (hA : ∀ fd sd, ¬A fd sd) (s : Ctx) : FdWoke A s [] s :=
  ⟨Woke.refl _ s, fun _ _ ⟨fd, sd, _, ha, _⟩ => absurd ha (hA fd sd)⟩

theorem FdWoke.trans {s'' : Ctx} (h : FdWoke A s W s') (h' : FdWoke A' s' W' s'') :
    FdWoke (fun fd sd => A fd sd ∨ A' fd sd) s (W ++ W') s'' where
  toWoke := by
    refine (h.toWoke.mono ?_).trans (h'.toWoke.mono ?_)
    · rintro c - id err ⟨⟨fd, sd, i, ha, hw, hid⟩, herr⟩
      exact ⟨⟨fd, sd, i, .inl ha, hw, hid⟩, herr⟩
    · rintro c - id err ⟨⟨fd, sd, i, ha, hw, hid⟩, herr⟩
      rw [h.waiter, Option.filter_eq_some_iff] at hw
      exact ⟨⟨fd, sd, i, .inr ha, hw.1, hid⟩, herr⟩
  all := by
    rintro c id ⟨fd, sd, i, ha, hw, rfl⟩
    rw [List.mem_append]
    by_cases hc : c ∈ W
    · exact .inl hc
    · rcases ha with ha | ha
      · exact .inl (h.all c i ⟨fd, sd, i, ha, hw, rfl⟩)
      · refine .inr (h'.all c i ⟨fd, sd, i, ha, ?_, rfl⟩)
        rw [h.waiter, hw]
        simp [Option.filter, hc]

/-- What a part of the poll does: it wakes coroutines, and it tells whether it has woken any. -/
structure Polled (A : ℕ → Side → Prop) (s : Ctx) (p : Bool × Ctx) (W : List CrId) : Prop
    extends FdWoke A s W p.2 where
  good : Good .idle p.2
  idle : p.1 = false → p.2 = s
  fired : p.1 = true → W ≠ []

theorem fireFd_polled (h : Good .idle s) (ev : FdEvent) (sd : Side) :
    Post (fireFd ev sd s)
      (fun p => ∃ W, Polled (fun fd sd' => fd = ev.fd ∧ sd' = sd ∧ ev.fires sd' = true) s p W)
      fun _ => False := by
  rw [fireFd]
  split
  · rename_i cl hw hev
    have hl : s.Linked (.fd ev.fd sd) cl.cr cl.id := hw
    have hm : Micro false .idle s .idle (s.wake cl.cr cl.id .ok) := .trigger (by simp) hl rfl trivial
    rw [trigger_eq h.toCore hl]
    refine ⟨[cl.cr], ⟨woke_wake ⟨⟨ev.fd, sd, cl.id, ⟨rfl, rfl, hev⟩, hw, rfl⟩, rfl⟩, ?_⟩,
      h.micro hm, by simp, by simp⟩
    rintro c id ⟨fd, sd', i, ⟨rfl, rfl, -⟩, hw', -⟩
    rw [hw] at hw'
    rw [Option.some.inj hw']
    exact List.mem_singleton_self _
  · rename_i hno
    refine ⟨[], ⟨Woke.refl _ s, ?_⟩, h, fun _ => rfl, by simp⟩
    rintro c id ⟨fd, sd', i, ⟨rfl, rfl, hev⟩, hw, -⟩
    exact absurd hev (hno _ hw)

/-- The descriptors and sides that a list of events is about. -/
def Signals (evs : List FdEvent) (fd : ℕ) (sd : Side) : Prop :=
  ∃ ev ∈ evs, fd = ev.fd ∧ ev.fires sd = true

theorem signals_cons {ev : FdEvent} {evs : List FdEvent} {fd : ℕ} {sd : Side} :
    Signals (ev :: evs) fd sd ↔
      ((fd = ev.fd ∧ sd = .inn ∧ ev.fires sd = true) ∨
        (fd = ev.fd ∧ sd = .out ∧ ev.fires sd = true)) ∨ Signals evs fd sd := by
  unfold Signals
  rw [List.exists_mem_cons_iff]
  cases sd <;> simp

theorem pollsetPoll_polled (h : Good .idle s) (evs : List FdEvent) :
    Post (pollsetPoll evs s) (fun p => ∃ W, Polled (Signals evs) s p W) fun _ => False := by
  induction evs generalizing s with
  | nil =>
    refine ⟨[], .refl ?_ s, h, fun _ => rfl, by simp⟩
    rintro fd sd ⟨ev, hev, -⟩
    cases hev
  | cons ev evs ih =>
    rw [pollsetPoll]
    refine (fireFd_polled h ev .inn).bind ?_
    rintro p₁ ⟨W₁, h₁⟩
    refine (fireFd_polled h₁.good ev .out).bind ?_
    rintro p₂ ⟨W₂, h₂⟩
    refine (ih h₂.good).bind ?_
    rintro p₃ ⟨W₃, h₃⟩
    have hall := (h₁.toFdWoke.trans h₂.toFdWoke).trans h₃.toFdWoke
    have hA : (fun fd sd => ((fd = ev.fd ∧ sd = .inn ∧ ev.fires sd = true) ∨
        (fd = ev.fd ∧ sd = .out ∧ ev.fires sd = true)) ∨ Signals evs fd sd) =
        Signals (ev :: evs) := by
      funext fd sd
      exact propext signals_cons.symm
    rw [hA] at hall
    refine ⟨_, hall, h₃.good, fun hf => ?_, fun hf => ?_⟩
    · simp only [Bool.or_eq_false_iff] at hf
      exact (h₃.idle hf.2).trans ((h₂.idle hf.1.2).trans (h₁.idle hf.1.1))
    · simp only [Bool.or_eq_true] at hf
      rcases hf with (hf | hf) | hf
      · simp [h₁.fired hf]
      · simp [h₂.fired hf]
      · simp [h₃.fired hf]

/-! ## The expired timers -/

/-- The timers that have expired. -/
def expired (s : Ctx) (nw : ℤ) : List Timer := s.timers.filter fun t => t.val ≤ nw

theorem Good.timer_unique (h : Good .idle s) {t t' : Timer} (ht : t ∈ s.timers)
    (ht' : t' ∈ s.timers) (hc : t.cr = t'.cr) : t = t' := by
  obtain ⟨-, op, f, hp, hf⟩ := h.linked_pending (by simp) (e := .timer) ⟨t, ht, rfl, rfl⟩
  obtain ⟨-, op', f', hp', hf'⟩ := h.linked_pending (by simp) (e := .timer) ⟨t', ht', rfl, rfl⟩
  rw [hc] at hp
  have hframe := hp.frame.symm.trans hp'.frame
  cases hframe
  have hid := hf.timer_unique hf'
  exact List.inj_on_of_nodup_map h.timers_nodup ht ht' (by rw [hc, hid])

/-- The loop that fires timers wakes the coroutines of those that have expired. -/
theorem fireTimers_woke (h : Good .idle s) (hs : s.timers.Pairwise fun t t' => t.val ≤ t'.val)
    (nw : ℤ) (n : ℕ) (hn : s.timers.length ≤ n) :
    Post (fireTimers nw n s)
      (fun p => Good .idle p.2 ∧
        Woke (fun c id err => ∃ t ∈ s.expired nw, t.cr = c ∧ id = t.id ∧ err = .ETIMEDOUT) s
          ((s.expired nw).map Timer.cr) p.2 ∧
        (p.1 = false → p.2 = s) ∧ (p.1 = true → s.expired nw ≠ []))
      fun _ => False := by
  induction n generalizing s with
  | zero =>
    have ht : s.timers = [] := List.length_eq_zero_iff.mp (Nat.le_zero.mp hn)
    have he : s.expired nw = [] := by rw [expired, ht, List.filter_nil]
    rw [fireTimers_nil ht, he]
    exact ⟨h, Woke.refl _ s, fun _ => rfl, by simp⟩
  | succ n ih =>
    cases ht : s.timers with
    | nil =>
      have he : s.expired nw = [] := by rw [expired, ht, List.filter_nil]
      rw [fireTimers_nil ht, he]
      exact ⟨h, Woke.refl _ s, fun _ => rfl, by simp⟩
    | cons t rest =>
      rw [ht] at hs hn
      obtain ⟨hle, hrest⟩ := List.pairwise_cons.mp hs
      rw [fireTimers_cons ht]
      split
      · -- the first timer has not expired, so none has
        rename_i hgt
        have he : s.expired nw = [] := by
          rw [expired, ht, List.filter_eq_nil_iff]
          intro t' ht' hval
          rw [decide_eq_true_eq] at hval
          rcases List.mem_cons.mp ht' with rfl | ht'
          · exact absurd hval (not_le_of_gt hgt)
          · exact absurd hval (not_le_of_gt (lt_of_lt_of_le hgt (hle t' ht')))
        rw [he]
        exact ⟨h, Woke.refl _ s, fun _ => rfl, by simp⟩
      · rename_i hval
        rw [not_lt] at hval
        have hmem : t ∈ s.timers := by rw [ht]; exact List.mem_cons_self
        have hl : s.Linked .timer t.cr t.id := ⟨t, hmem, rfl, rfl⟩
        have hm : Micro false .idle s .idle (s.wake t.cr t.id .ETIMEDOUT) :=
          .trigger (by simp) hl rfl trivial
        -- the other timers are those of other coroutines
        have hkeep : (s.wake t.cr t.id .ETIMEDOUT).timers = rest := by
          rw [wake_timers, ht, List.filter_cons_of_neg (by simp), List.filter_eq_self]
          intro t' ht'
          rw [decide_eq_true_eq]
          intro hc
          have hmem' : t' ∈ s.timers := by rw [ht]; exact List.mem_cons_of_mem _ ht'
          have heq : t' = t := h.timer_unique hmem' hmem hc
          have hnd := h.timers_nodup
          rw [ht, List.map_cons, List.nodup_cons] at hnd
          exact hnd.1 (List.mem_map.mpr ⟨t', ht', by rw [heq]⟩)
        have hexp : s.expired nw = t :: (s.wake t.cr t.id .ETIMEDOUT).expired nw := by
          rw [expired, expired, hkeep, ht, List.filter_cons_of_pos (by simpa using hval)]
        rw [trigger_eq h.toCore hl]
        refine (ih (h.micro hm) (by rw [hkeep]; exact hrest)
          (by rw [hkeep]; exact Nat.le_of_succ_le_succ hn)).bind fun p ⟨hg, hw, _, _⟩ => ?_
        rw [hexp]
        refine ⟨hg, ?_, by simp, by simp⟩
        have h₁ : Woke (fun c id err => ∃ t' ∈ (t :: (s.wake t.cr t.id .ETIMEDOUT).expired nw),
            t'.cr = c ∧ id = t'.id ∧ err = .ETIMEDOUT) s [t.cr] (s.wake t.cr t.id .ETIMEDOUT) :=
          woke_wake ⟨t, List.mem_cons_self, rfl, rfl, rfl⟩
        refine h₁.trans (hw.mono ?_)
        rintro c - id err ⟨t', ht', hrest⟩
        exact ⟨t', List.mem_cons_of_mem _ ht', hrest⟩

/-! ## The poll -/

/-- The timers that fire when the poll ends at `nw` and the events of file descriptors have woken
the coroutines `W`. -/
def fired (s : Ctx) (nw : ℤ) (W : List CrId) : List Timer :=
  s.timers.filter fun t => t.val ≤ nw ∧ t.cr ∉ W

/-- **What the polling branch of `dill_wait` does**, when the last events are `evs`: it wakes the
coroutines `W` with them and then the coroutines of the timers that have expired. The final time
is kept in `last_poll`. -/
structure PollFires (s : Ctx) (evs : List FdEvent) (W : List CrId) (s' : Ctx) : Prop where
  woken : ∀ c, c ∈ W ↔ ∃ id, s.WaitsFd (Signals evs) c id
  timers : s'.timers = s.timers.filter fun t => s'.lastPoll < t.val ∧ t.cr ∉ W
  ready : s'.ready = s.ready ++ W ++ (s.fired s'.lastPoll W).map Timer.cr
  nodup : s'.ready.Nodup
  order : (s.fired s'.lastPoll W).Pairwise s.ExpiresBefore
  fdResult : ∀ c ∈ W, s.WaitsFd (Signals evs) c (s'.crs c).id ∧ (s'.crs c).err = .ok
  timerResult : ∀ t ∈ s.fired s'.lastPoll W,
    (s'.crs t.cr).id = t.id ∧ (s'.crs t.cr).err = .ETIMEDOUT
  others : ∀ c, c ∉ W → c ∉ (s.fired s'.lastPoll W).map Timer.cr → s'.crs c = s.crs c
  wakes : s.ready = [] → s'.ready ≠ []

theorem TimersOrder.sorted (h : s.TimersOrder) : s.timers.Pairwise fun t t' => t.val ≤ t'.val := by
  refine h.imp ?_
  rintro t t' (hlt | ⟨heq, -⟩)
  · exact hlt.le
  · exact heq.le

/-- The last turn of the loop. -/
theorem pollFires_turn (h : Good .idle s) (ho : s.TimersOrder) {evs : List FdEvent} {nw : ℤ}
    {s₁ s₂ : Ctx} (hg₁ : Good .idle s₁) (hw₁ : FdWoke (Signals evs) s W s₁) (hg₂ : Good .idle s₂)
    (hw₂ : Woke (fun c id err => ∃ t ∈ s₁.expired nw, t.cr = c ∧ id = t.id ∧ err = .ETIMEDOUT) s₁
      ((s₁.expired nw).map Timer.cr) s₂)
    (hne : s.ready = [] → s₂.ready ≠ []) : PollFires s evs W { s₂ with lastPoll := nw } := by
  have hfired : s₁.expired nw = s.fired nw W := by
    rw [expired, hw₁.timers, List.filter_filter, fired]
    apply List.filter_congr
    intro t _
    rw [← Bool.decide_and]
  rw [hfired] at hw₂
  have hmem₁ : ∀ t ∈ s.fired nw W, t ∈ s₁.timers := by
    intro t ht
    rw [← hfired] at ht
    exact List.mem_of_mem_filter ht
  refine ⟨?_, ?_, ?_, hg₂.ready_nodup, ho.sublist List.filter_sublist, ?_, ?_, ?_, hne⟩
  · intro c
    constructor
    · intro hc
      exact ⟨_, (hw₁.woken c hc).1⟩
    · rintro ⟨id, hid⟩
      exact hw₁.all c id hid
  · show s₂.timers = _
    rw [hw₂.timers, hw₁.timers, List.filter_filter]
    apply List.filter_congr
    intro t ht
    rw [← Bool.decide_and, decide_eq_decide]
    constructor
    · rintro ⟨hno, hW⟩
      refine ⟨lt_of_not_ge fun hle => hno ?_, hW⟩
      exact List.mem_map.mpr ⟨t, List.mem_filter.mpr ⟨ht, by simpa using ⟨hle, hW⟩⟩, rfl⟩
    · rintro ⟨hlt, hW⟩
      refine ⟨fun hyes => ?_, hW⟩
      obtain ⟨t', ht', hc⟩ := List.mem_map.mp hyes
      obtain ⟨hmem', hval⟩ := List.mem_filter.mp ht'
      rw [h.timer_unique hmem' ht hc, decide_eq_true_eq] at hval
      exact absurd hlt (not_lt_of_ge hval.1)
  · show s₂.ready = _
    rw [hw₂.ready, hw₁.ready]
  · intro c hc
    have hno : c ∉ (s.fired nw W).map Timer.cr := by
      intro hyes
      obtain ⟨t, ht, rfl⟩ := List.mem_map.mp hyes
      have hval := (List.mem_filter.mp ht).2
      rw [decide_eq_true_eq] at hval
      exact hval.2 hc
    have hres := hw₁.woken c hc
    rw [← hw₂.others c hno] at hres
    exact hres
  · intro t ht
    obtain ⟨t', ht', hc, hid, herr⟩ := hw₂.woken t.cr (List.mem_map_of_mem ht)
    obtain rfl : t' = t := hg₁.timer_unique (hmem₁ t' ht') (hmem₁ t ht) hc
    exact ⟨hid, herr⟩
  · intro c hW hno
    rw [show ({ s₂ with lastPoll := nw } : Ctx).crs = s₂.crs from rfl, hw₂.others c hno]
    exact hw₁.others c hW

theorem pollLoop_fires (h : Good .idle s) (ho : s.TimersOrder) {block : Bool}
    (hb : s.ready = [] → block = true) (answers : List PollAnswer) (nw : ℤ) :
    Post (pollLoop block answers nw s)
      (fun s' => ∃ a ∈ answers, ∃ evs W, a.events = some evs ∧ PollFires s evs W s')
      (· = .stuck) := by
  induction answers generalizing nw with
  | nil => exact rfl
  | cons a rest ih =>
    have hlater : ∀ nw, Post (pollLoop block rest nw s)
        (fun s' => ∃ a' ∈ (a :: rest), ∃ evs W, a'.events = some evs ∧ PollFires s evs W s')
        (· = .stuck) := fun nw =>
      (ih nw).mono (fun _ ha => Exists.imp (fun _ h => ⟨List.mem_cons_of_mem _ h.1, h.2⟩) ha) fun _ => id
    rw [pollLoop]
    simp only
    split
    · exact hlater _
    · rename_i evs hevs
      refine ((pollsetPoll_polled h evs).mono (fun _ => id) (fun _ => False.elim)).bind ?_
      rintro p₁ ⟨W, h₁⟩
      have hsorted : p₁.2.timers.Pairwise fun t t' => t.val ≤ t'.val := by
        rw [h₁.timers]
        exact ho.sorted.sublist List.filter_sublist
      refine ((fireTimers_woke h₁.good hsorted _ _ le_rfl).mono (fun _ => id)
        (fun _ => False.elim)).bind ?_
      rintro p₂ ⟨hg₂, hw₂, hidle₂, hfired₂⟩
      split
      · rename_i hend
        refine ⟨a, List.mem_cons_self, evs, W, hevs,
          pollFires_turn h ho h₁.good h₁.toFdWoke hg₂ hw₂ fun hr => ?_⟩
        rw [hb hr] at hend
        rw [hw₂.ready, h₁.ready, hr]
        cases hf : p₁.1 with
        | true => simp [h₁.fired hf]
        | false =>
          have hf₂ : p₂.1 = true := by simpa [hf] using hend
          intro hnil
          exact hfired₂ hf₂ (List.map_eq_nil_iff.mp (List.append_eq_nil_iff.mp hnil).2)
      · -- nothing has been woken, and the loop goes on from the same state
        rename_i hend
        simp only [Bool.or_eq_true, not_or, Bool.not_eq_true] at hend
        rw [hidle₂ hend.2, h₁.idle hend.1.2]
        exact hlater _

end Ctx

/-- **Timers fire in every poll as they should.** From every reachable state in which `dill_wait`
polls, whatever the poll and the clock answer, the branch that polls ends only with the right
coroutines woken in the right order; otherwise it is waiting for more answers. -/
theorem poll_fires {s : Ctx} (h : Reachable s) (hw : s.phase = .wait) (nw : ℤ)
    (answers : List Ctx.PollAnswer) (henter : s.ready = [] ∨ nw > s.lastPoll + 1000) :
    Post (s.step (.poll nw answers))
      (fun s' => ∃ a ∈ answers, ∃ evs W, a.events = some evs ∧ s.PollFires evs W s')
      (· = .stuck) := by
  rw [Ctx.step, if_pos hw, Ctx.poll, if_pos henter]
  refine (Ctx.pollLoop_fires h.good h.timersOrder (by simp) answers nw).bind ?_
  rintro s' ⟨a, ha, evs, W, hevs, hs'⟩
  exact ⟨a, ha, evs, W, hevs, hs'.woken, hs'.timers, hs'.ready, hs'.nodup, hs'.order,
    hs'.fdResult, hs'.timerResult, hs'.others, hs'.wakes⟩

/-- Two coroutines sleep until the same time. -/
def twoSleepers : List Act :=
  [.call (.go (-1) false true 1), .call (.msleep 20), .poll 0 [], .switch, .call (.msleep 20)]

theorem poll_fires_twoSleepers :
    ∃ s s', run Ctx.step Ctx.init twoSleepers = .ok s ∧ s.phase = .wait ∧ s.ready = [] ∧
      s.step (.poll 0 [⟨some [], 20⟩]) = .ok s' ∧
      ∃ a ∈ [(⟨some [], 20⟩ : Ctx.PollAnswer)], ∃ evs W, a.events = some evs ∧
        s.PollFires evs W s' := by
  obtain ⟨s, hr, hp⟩ := exists_of_runsTo Ctx.step Ctx.init twoSleepers
    (fun s => decide (s.phase = .wait ∧ s.ready = [] ∧
      runsTo Ctx.step s [.poll 0 [⟨some [], 20⟩]] fun _ => true)) (by decide)
  rw [decide_eq_true_eq] at hp
  obtain ⟨hw, hready, hrun⟩ := hp
  obtain ⟨s', hs', -⟩ := exists_of_runsTo Ctx.step s [.poll 0 [⟨some [], 20⟩]] _ hrun
  rw [run_singleton] at hs'
  exact ⟨s, s', hr, hw, hready, hs',
    (poll_fires (reachable_of_run hr) hw 0 _ (.inl hready)).of_ok hs'⟩

/-! ## The timeout -/

namespace Ctx

/-- The timers after those of `l` have been registered in this order. -/
def registered (l : List Timer) : List Timer :=
  l.foldl (fun timers t => insertAfter Timer.val t timers) []

/-- The earliest deadline of the timers. -/
def Earliest (l : List Timer) (d : ℤ) : Prop := (∃ t ∈ l, t.val = d) ∧ ∀ t ∈ l, d ≤ t.val

/-- **What the timeout has to be**: neither infinite nor longer than the time until the earliest
deadline, and zero only when that has been reached. -/
def TimeoutRight (nw : ℤ) (l : List Timer) (timeout : ℤ) : Prop :=
  ∀ d, Earliest l d → 0 ≤ timeout ∧ timeout ≤ max 0 (d - nw) ∧ (timeout = 0 → d ≤ nw)

theorem Earliest.unique {l : List Timer} {d d' : ℤ} (h : Earliest l d) (h' : Earliest l d') :
    d = d' := by
  obtain ⟨⟨t, ht, rfl⟩, hle⟩ := h
  obtain ⟨⟨t', ht', rfl⟩, hle'⟩ := h'
  exact le_antisymm (hle t' ht') (hle' t ht)

theorem mem_foldl_insertAfter {t : Timer} (l l' : List Timer) :
    t ∈ l.foldl (fun timers t => insertAfter Timer.val t timers) l' ↔ t ∈ l ∨ t ∈ l' := by
  induction l generalizing l' with
  | nil => simp
  | cons a l ih =>
    rw [List.foldl_cons, ih, mem_insertAfter, List.mem_cons]
    tauto

theorem sorted_foldl_insertAfter (l : List Timer) {l' : List Timer}
    (h : l'.Pairwise fun t t' => t.val ≤ t'.val) :
    (l.foldl (fun timers t => insertAfter Timer.val t timers) l').Pairwise
      fun t t' => t.val ≤ t'.val := by
  induction l generalizing l' with
  | nil => exact h
  | cons a l ih =>
    exact ih (pairwise_insertAfter h (fun _ _ hle => hle) (fun _ _ hle => hle) fun _ hlt => hlt.le)

/-- The first of the registered timers has the earliest deadline. -/
theorem earliest_registered (t : Timer) (l : List Timer) :
    ∃ t' rest, registered (t :: l) = t' :: rest ∧ Earliest (t :: l) t'.val := by
  have hmem : ∀ x, x ∈ registered (t :: l) ↔ x ∈ (t :: l) := fun x => by
    rw [registered, mem_foldl_insertAfter, or_iff_left List.not_mem_nil]
  have hs := sorted_foldl_insertAfter (t :: l) List.Pairwise.nil
  cases hreg : registered (t :: l) with
  | nil =>
    have ht := (hmem t).mpr List.mem_cons_self
    rw [hreg] at ht
    cases ht
  | cons t' rest =>
    refine ⟨t', rest, rfl, ⟨t', (hmem t').mp (by rw [hreg]; exact List.mem_cons_self), rfl⟩, ?_⟩
    intro x hx
    rw [registered] at hreg
    rw [hreg] at hs
    have hx' := (hmem x).mpr hx
    rw [registered, hreg] at hx'
    rcases List.mem_cons.mp hx' with rfl | hx'
    · exact le_rfl
    · exact (List.pairwise_cons.mp hs).1 x hx'

theorem foldl_insertAfter_of_sorted (l l' : List Timer)
    (h : (l' ++ l).Pairwise fun t t' => t.val ≤ t'.val) :
    l.foldl (fun timers t => insertAfter Timer.val t timers) l' = l' ++ l := by
  induction l generalizing l' with
  | nil => exact (List.append_nil l').symm
  | cons a l ih =>
    have hbefore : ∀ b ∈ l', b.val ≤ a.val := fun b hb =>
      (List.pairwise_append.mp h).2.2 b hb a List.mem_cons_self
    have hlast : insertAfter Timer.val a l' = l' ++ [a] := by
      have hcut := insertAfter_append (r := []) hbefore (by simp)
      rwa [List.append_nil] at hcut
    rw [List.foldl_cons, hlast, ih _ (by rwa [List.append_cons] at h), ← List.append_cons]

/-- In every reachable state the timers are those that can be registered in some order. -/
theorem registered_timers {s : Ctx} (h : Reachable s) : registered s.timers = s.timers :=
  foldl_insertAfter_of_sorted s.timers [] h.timersOrder.sorted

/-- The difference is cut to 32 bits. -/
theorem bmod_right_iff {x : ℤ} (hx : 0 < x) :
    (0 ≤ x.bmod (2 ^ 32) ∧ x.bmod (2 ^ 32) ≤ max 0 x ∧ (x.bmod (2 ^ 32) = 0 → x ≤ 0)) ↔
      0 < x % 2 ^ 32 ∧ x % 2 ^ 32 < 2 ^ 31 := by
  have h32 : ((2 ^ 32 : ℕ) : ℤ) = 2 ^ 32 := rfl
  rw [Int.bmod_def, h32]
  split <;> omega

/-- **When the timeout is right**: when the earliest deadline has been reached, or when the low
32 bits of the time until it are a positive `int`. -/
theorem pollTimeout_right_iff (s : Ctx) (nw : ℤ) (t : Timer) (l : List Timer) :
    TimeoutRight nw (t :: l) (pollTimeout true nw { s with timers := registered (t :: l) }) ↔
      ∀ d, Earliest (t :: l) d →
        d ≤ nw ∨ 0 < (d - nw) % 2 ^ 32 ∧ (d - nw) % 2 ^ 32 < 2 ^ 31 := by
  obtain ⟨t', rest, hreg, he⟩ := earliest_registered t l
  have hval : pollTimeout true nw { s with timers := registered (t :: l) } =
      (if nw ≥ t'.val then 0 else t'.val - nw).bmod (2 ^ 32) := by
    unfold pollTimeout
    rw [if_pos rfl]
    simp only [hreg]
  rw [hval]
  refine forall₂_congr fun d hd => ?_
  obtain rfl := he.unique hd
  by_cases hnw : t'.val ≤ nw
  · rw [if_pos hnw]
    exact iff_of_true ⟨le_rfl, le_max_left _ _, fun _ => hnw⟩ (.inl hnw)
  · rw [if_neg hnw, or_iff_right hnw]
    have hpos : 0 < t'.val - nw := by omega
    rw [← bmod_right_iff hpos, sub_nonpos]

/-- A timer in 25 days makes the poll wait for ever. -/
theorem pollTimeout_infinite :
    ¬TimeoutRight 0 [⟨2 ^ 31, 0, 1⟩]
      (pollTimeout true 0 { Ctx.init with timers := registered [⟨2 ^ 31, 0, 1⟩] }) := by
  intro h
  have hneg := (h (2 ^ 31) ⟨⟨_, List.mem_singleton_self _, rfl⟩, by simp⟩).1
  exact absurd hneg (by decide)

end Ctx

end Libdill.Sched
