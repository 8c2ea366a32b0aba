import Libdill.Sched.Good

/-!
# Every step is a sequence of moves

One theorem per function of `cr.c`, `chan.c`, `handle.c` and `libdill.c`: from a state with the
invariant of the moves, it either stops for one of the listed reasons or does a sequence of moves.
`step_post` puts them together for the actions, `Reachable.invariant` is the rule for all runs, and
`Reachable.good` the invariant of them.
-/

namespace Libdill.Sched

open Foundations

namespace Ctx

variable {l : Bool} {k : Cur} {s s' : Ctx} {c : CrId} {op i : ℕ} {f : Frame} {j : Job}
  {b : BundleId}

/-! ## Changes of flags -/

theorem Quiet.refl (s : Ctx) : Quiet s s :=
  ⟨rfl, rfl, rfl, rfl, rfl, rfl, rfl, rfl, rfl, rfl, fun _ => ⟨_, _, rfl⟩, fun _ _ => rfl,
    fun _ => ⟨_, rfl⟩, fun _ _ => rfl, fun _ => ⟨_, rfl⟩, fun _ _ => rfl, fun _ hf => .inl hf,
    fun _ => .inl rfl⟩

theorem quiet_updCr (hc : c < s.ncrs) {g : Cr → Cr}
    (hg : ∀ x, ∃ nb fr, g x = { x with noBlocking2 := nb, freed := fr }) :
    Quiet s (s.updCr c g) := by
  refine { Quiet.refl s with cr := fun x => ?_, fresh := fun x hx => ?_ }
  · rw [updCr_crs]
    split
    · rename_i hx; rw [hx]; exact hg _
    · exact ⟨_, _, rfl⟩
  · rw [updCr_crs, if_neg (hc.trans_le hx).ne']

theorem quiet_updBundle (b : BundleId) {g : Bundle → Bundle}
    (hg : ∀ x, ∃ fr, g x = { x with freed := fr }) :
    Quiet s (s.updBundle b g) := by
  refine { Quiet.refl s with bundle := fun x => ?_ }
  by_cases hx : x = b
  · subst hx
    simp only [updBundle, Function.update_self]
    exact hg _
  · simp only [updBundle, Function.update_of_ne hx]
    exact ⟨_, rfl⟩

theorem quiet_closed {ch : HalfRef} (hch : ch.chan < s.nchans) :
    Quiet s (s.updHalf ch fun x => { x with closed := true }) := by
  refine { Quiet.refl s with half := fun x => ?_, freshHalf := fun x hx => ?_ }
  · by_cases hx : x = ch
    · subst hx
      simp only [updHalf, Function.update_self]
      exact ⟨_, rfl⟩
    · simp only [updHalf, Function.update_of_ne hx]
      exact ⟨_, rfl⟩
  · have hne : x ≠ ch := by
      rintro rfl
      exact absurd hch (not_lt.2 hx)
    simp only [updHalf, Function.update_of_ne hne]

theorem quiet_updFd {fd : ℕ} {g : FdInfo → FdInfo}
    (hw : ∀ sd, (g (s.fds fd)).waiter sd = (s.fds fd).waiter sd)
    (hc : (g (s.fds fd)).cached = false → ∀ sd, (s.fds fd).waiter sd = none) :
    Quiet s (s.updFd fd g) := by
  refine { Quiet.refl s with waiter := fun x sd => ?_, cached := fun x hx => ?_ }
  · by_cases hxf : x = fd
    · subst hxf
      simp only [updFd, Function.update_self]
      exact hw sd
    · simp only [updFd, Function.update_of_ne hxf]
  · by_cases hxf : x = fd
    · subst hxf
      simp only [updFd, Function.update_self] at hx
      exact .inr (hc hx)
    · simp only [updFd, Function.update_of_ne hxf] at hx
      exact .inl hx

theorem quiet_setHandle (h : Handle) {o : Option Obj} (ho : o = none ∨ o = some .user) :
    Quiet s (s.setHandle h o) := by
  refine { Quiet.refl s with handles := fun x => ?_ }
  by_cases hx : x = h
  · subst hx
    simp only [setHandle, Function.update_self]
    exact .inr ho
  · simp only [setHandle, Function.update_of_ne hx]
    exact Or.inl trivial

theorem quiet_lastPoll (nw : ℤ) : Quiet s { s with lastPoll := nw } := { Quiet.refl s with }

/-! ## Loops that trigger clauses -/

/-- The coroutines `L`, which wait on half-channels with `P`, have been woken with `EPIPE`. -/
structure Drained (P : HalfRef → Prop) (s : Ctx) (L : List CrId) (s' : Ctx) : Prop where
  r : s'.r = s.r
  ready : s'.ready = s.ready ++ L
  queue : ∀ x sd, (s'.half x).queue sd = ((s.half x).queue sd).filter fun e => e.cr ∉ L
  done : ∀ x, (s'.half x).done = (s.half x).done
  others : ∀ c, c ∉ L → s'.crs c = s.crs c
  woken : ∀ c ∈ L, (s'.crs c).err = .EPIPE ∧
    ∃ x sd e, P x ∧ e ∈ (s.half x).queue sd ∧ e.cr = c ∧ (s'.crs c).id = e.id

theorem Drained.refl (P : HalfRef → Prop) (s : Ctx) : Drained P s [] s :=
  ⟨rfl, by simp, by simp, fun _ => rfl, fun _ _ => rfl, by simp⟩

theorem Drained.trans {P : HalfRef → Prop} {L L' : List CrId} {s'' : Ctx} (h : Drained P s L s')
    (h' : Drained P s' L' s'') : Drained P s (L ++ L') s'' where
  r := h'.r.trans h.r
  ready := by rw [h'.ready, h.ready, List.append_assoc]
  queue x sd := by
    rw [h'.queue, h.queue, List.filter_filter]
    apply List.filter_congr
    intro e _
    rw [← Bool.decide_and]
    congr 1
    rw [List.mem_append, not_or, and_comm]
  done x := (h'.done x).trans (h.done x)
  others c hc := by
    rw [List.mem_append, not_or] at hc
    rw [h'.others c hc.2, h.others c hc.1]
  woken c hc := by
    by_cases hc' : c ∈ L'
    · obtain ⟨he, x, sd, e, hx, hq, hec, hid⟩ := h'.woken c hc'
      rw [h.queue] at hq
      exact ⟨he, x, sd, e, hx, List.mem_of_mem_filter hq, hec, hid⟩
    · rw [h'.others c hc']
      exact h.woken c ((List.mem_append.1 hc).resolve_right hc')

theorem drained_wake {P : HalfRef → Prop} {x : HalfRef} {sd : Side} {e : ChanClause} (hx : P x)
    (he : e ∈ (s.half x).queue sd) : Drained P s [e.cr] (s.wake e.cr e.id .EPIPE) where
  r := rfl
  ready := rfl
  queue y sd' := by simp
  done _ := rfl
  others c hc := by rw [wake_crs, if_neg (by simpa using hc)]
  woken c hc := by
    rw [List.mem_singleton] at hc
    rw [wake_crs, if_pos hc]
    exact ⟨rfl, x, sd, e, hx, he, hc.symm, rfl⟩

theorem termQueue_nil {ch : HalfRef} {sd : Side} (hq : (s.half ch).queue sd = []) (n : ℕ) :
    termQueue ch sd n s = .ok s := by
  cases n <;> simp [termQueue, hq]

theorem termQueue_cons {ch : HalfRef} {sd : Side} {e : ChanClause} {rest : List ChanClause}
    (hq : (s.half ch).queue sd = e :: rest) (n : ℕ) :
    termQueue ch sd (n + 1) s = s.trigger ⟨e.cr, e.id⟩ .EPIPE >>= termQueue ch sd n := by
  conv_lhs => unfold termQueue
  rw [hq]

theorem fireTimers_nil {nw : ℤ} (ht : s.timers = []) (n : ℕ) :
    fireTimers nw n s = .ok (false, s) := by
  cases n <;> simp [fireTimers, ht]

theorem fireTimers_cons {nw : ℤ} {t : Timer} {rest : List Timer} (ht : s.timers = t :: rest)
    (n : ℕ) :
    fireTimers nw (n + 1) s =
      if t.val > nw then .ok (false, s)
      else s.trigger ⟨t.cr, t.id⟩ .ETIMEDOUT >>= fun s =>
        fireTimers nw n s >>= fun p => .ok (true, p.2) := by
  conv_lhs => unfold fireTimers
  rw [ht]

theorem termQueue_post (hk : ∀ j f, k ≠ .waiting j f) (ch : HalfRef) (sd : Side) (n : ℕ)
    (h : Good k s) (hn : ((s.half ch).queue sd).length ≤ n) :
    Post (termQueue ch sd n s)
      (fun s' => Micros l k s k s' ∧ (s'.half ch).queue sd = [] ∧ ∃ L, Drained (· = ch) s L s')
      fun _ => False := by
  induction n generalizing s with
  | zero =>
    have hq : (s.half ch).queue sd = [] := List.length_eq_zero_iff.1 (Nat.le_zero.1 hn)
    rw [termQueue_nil hq]
    exact ⟨.refl, hq, [], .refl _ s⟩
  | succ n ih =>
    cases hq : (s.half ch).queue sd with
    | nil =>
      rw [termQueue_nil hq]
      exact ⟨.refl, hq, [], .refl _ s⟩
    | cons e rest =>
      have hl : s.Linked (.ch ch sd) e.cr e.id := linked_head hq
      have hm : Micro l k s k (s.wake e.cr e.id .EPIPE) :=
        .trigger hk hl (Or.inr (Or.inr rfl)) rfl
      -- the triggered clause at least leaves the queue
      have hlen : (((s.wake e.cr e.id .EPIPE).half ch).queue sd).length ≤ n := by
        rw [wake_queue, hq, List.filter_cons_of_neg (by simp)]
        rw [hq, List.length_cons] at hn
        exact (List.length_filter_le _ rest).trans (Nat.le_of_succ_le_succ hn)
      rw [termQueue_cons hq, trigger_eq h.toCore hl]
      refine (ih (h.micro hm) hlen).mono (fun s₁ ⟨h₁, h₂, L, h₃⟩ => ⟨.cons hm h₁, h₂, ?_⟩)
        fun _ => id
      have hw : Drained (· = ch) s [e.cr] (s.wake e.cr e.id .EPIPE) :=
        drained_wake rfl (by rw [hq]; exact .head _)
      exact ⟨_, hw.trans h₃⟩

theorem halfchanTerm_post (hk : ∀ j f, k ≠ .waiting j f) (h : Good k s) (ch : HalfRef) :
    Post (s.halfchanTerm ch)
      (fun s' => Micros l k s k s' ∧ (∀ sd, (s'.half ch).queue sd = []) ∧
        ∃ L, Drained (· = ch) s L s') fun _ => False := by
  refine (termQueue_post (l := l) hk ch .inn _ h le_rfl).bind ?_
  rintro s₁ ⟨hm₁, hq₁, L₁, hd₁⟩
  refine (termQueue_post (l := l) hk ch .out _ (h.micros hm₁) le_rfl).mono ?_ fun _ => id
  rintro s₂ ⟨hm₂, hq₂, L₂, hd₂⟩
  refine ⟨hm₁.trans hm₂, fun sd => ?_, L₁ ++ L₂, hd₁.trans hd₂⟩
  cases sd with
  | inn => rw [hd₂.queue, hq₁]; rfl
  | out => exact hq₂

theorem fireFd_post (h : Good .idle s) (ev : FdEvent) (sd : Side) :
    Post (fireFd ev sd s) (fun p => Micros l .idle s .idle p.2 ∧ p.2.phase = s.phase)
      fun _ => False := by
  rw [fireFd]
  split
  · rename_i cl hw _
    have hl : s.Linked (.fd ev.fd sd) cl.cr cl.id := hw
    rw [trigger_eq h.toCore hl]
    exact ⟨(Micro.trigger (by simp) hl rfl trivial).one, rfl⟩
  · exact ⟨.refl, rfl⟩

theorem pollsetPoll_post (h : Good .idle s) (evs : List FdEvent) :
    Post (pollsetPoll evs s) (fun p => Micros l .idle s .idle p.2 ∧ p.2.phase = s.phase)
      fun _ => False := by
  induction evs generalizing s with
  | nil => exact ⟨.refl, rfl⟩
  | cons ev evs ih =>
    rw [pollsetPoll]
    refine (fireFd_post (l := l) h ev .inn).bind fun p₁ ⟨hm₁, hp₁⟩ => ?_
    have h₁ := h.micros hm₁
    refine (fireFd_post (l := l) h₁ ev .out).bind fun p₂ ⟨hm₂, hp₂⟩ => ?_
    have h₂ := h₁.micros hm₂
    refine (ih h₂).bind fun p₃ ⟨hm₃, hp₃⟩ => ?_
    exact ⟨(hm₁.trans hm₂).trans hm₃, hp₃.trans (hp₂.trans hp₁)⟩

theorem fireTimers_post (h : Good .idle s) (nw : ℤ) (n : ℕ) (hn : s.timers.length ≤ n) :
    Post (fireTimers nw n s) (fun p => Micros l .idle s .idle p.2 ∧ p.2.phase = s.phase)
      fun _ => False := by
  induction n generalizing s with
  | zero =>
    have ht : s.timers = [] := List.length_eq_zero_iff.1 (Nat.le_zero.1 hn)
    rw [fireTimers_nil ht]
    exact ⟨.refl, rfl⟩
  | succ n ih =>
    cases ht : s.timers with
    | nil =>
      rw [fireTimers_nil ht]
      exact ⟨.refl, rfl⟩
    | cons t rest =>
      rw [fireTimers_cons ht]
      split
      · exact ⟨.refl, rfl⟩
      · have hl : s.Linked .timer t.cr t.id := ⟨t, by rw [ht]; exact .head _, rfl, rfl⟩
        have hm : Micro l .idle s .idle (s.wake t.cr t.id .ETIMEDOUT) :=
          .trigger (by simp) hl rfl trivial
        have hlen : (s.wake t.cr t.id .ETIMEDOUT).timers.length ≤ n := by
          rw [wake_timers, ht, List.filter_cons_of_neg (by simp)]
          rw [ht, List.length_cons] at hn
          exact (List.length_filter_le _ rest).trans (Nat.le_of_succ_le_succ hn)
        rw [trigger_eq h.toCore hl]
        exact (ih (h.micro hm) hlen).bind fun p ⟨hm', hp⟩ => ⟨.cons hm hm', hp⟩

theorem pollLoop_post (h : Good .idle s) (block : Bool) (answers : List PollAnswer) (nw : ℤ) :
    Post (pollLoop block answers nw s) (fun s' => Micros l .idle s .idle s' ∧ s'.phase = s.phase)
      (· = .stuck) := by
  induction answers generalizing s nw with
  | nil => exact rfl
  | cons a rest ih =>
    rw [pollLoop]
    simp only
    split
    · exact ih h _
    · rename_i evs _
      refine ((pollsetPoll_post (l := l) h evs).mono (fun _ => id) (fun _ => False.elim)).bind
        fun p₁ ⟨hm₁, hp₁⟩ => ?_
      have h₁ := h.micros hm₁
      refine ((fireTimers_post (l := l) h₁ _ _ le_rfl).mono (fun _ => id)
        (fun _ => False.elim)).bind fun p₂ ⟨hm₂, hp₂⟩ => ?_
      have h₂ := h₁.micros hm₂
      split
      · exact ⟨(hm₁.trans hm₂).trans (Micro.quiet (quiet_lastPoll _)).one, hp₂.trans hp₁⟩
      · exact (ih h₂ _).mono (fun _ ⟨hm₃, hp₃⟩ => ⟨(hm₁.trans hm₂).trans hm₃,
          hp₃.trans (hp₂.trans hp₁)⟩) fun _ => id

/-! ## Channel operations -/

/-- What trying a channel operation at once comes to. -/
inductive Tried (s : Ctx) (op i : ℕ) (a : ChanArg) : Option (Errno × Ctx) → Prop
  | pipe (hd : (s.half a.half).done = true) : Tried s op i a (some (.EPIPE, s))
  | wait (hd : (s.half a.half).done = false) (hq : (s.half a.half).queue a.sd.peer = []) :
      Tried s op i a none
  | met {c : ChanClause} {rest : List ChanClause} (hd : (s.half a.half).done = false)
      (hq : (s.half a.half).queue a.sd.peer = c :: rest) :
      Tried s op i a (some (if a.len = c.len then .ok else .EMSGSIZE, s.met op i a c))

theorem tryClause_post (h : Good k s) (op i : ℕ) (a : ChanArg) :
    Post (s.tryClause op i a.sd a.half a.val a.len) (Tried s op i a) fun _ => False := by
  rw [tryClause]
  split
  · rename_i hd
    exact .pipe hd
  · rename_i hd
    have hd : (s.half a.half).done = false := by simpa using hd
    split
    · rename_i hq
      exact .wait hd hq
    · rename_i c rest hq
      have hmet : Tried s op i a (some (if a.len = c.len then .ok else .EMSGSIZE, s.met op i a c)) :=
        .met hd hq
      split
      · rename_i hne
        rw [trigger_eq h.toCore (linked_head hq)]
        rw [met, if_neg hne, if_neg hne] at hmet
        exact hmet
      · rename_i heq
        have heq : a.len = c.len := not_not.1 heq
        have h₁ := h.memcpy (meeting a.half a.sd op i a.val a.len c .ok).dst
          (meeting a.half a.sd op i a.val a.len c .ok).src a.len
        simp only
        rw [trigger_eq h₁.toCore (linked_head hq)]
        rw [met, if_pos heq, if_pos heq] at hmet
        exact hmet

/-- What a call that does channel operations comes to: it returns or is suspended without a
rendezvous, or the first thing it does is a rendezvous and then it returns. -/
inductive ChanStep (j : Job) (s : Ctx) : Ctx → Prop
  | silent {s' : Ctx} (hm : Micros false (.busy j none) s .idle s') : ChanStep j s s'
  | met {i : ℕ} {a : ChanArg} {c : ChanClause} {rest : List ChanClause} {v : ℤ} {e : Errno}
      (ha : j.call.chanArg j.objs i = some a) (hd : (s.half a.half).done = false)
      (hq : (s.half a.half).queue a.sd.peer = c :: rest)
      (hv : j.call.verdict v e = some (i, if a.len = c.len then .ok else .EMSGSIZE)) :
      ChanStep j s ((s.met j.op i a c).ret j.op v e)

theorem ChanStep.micros (h : ChanStep j s s') : Micros true (.busy j none) s .idle s' := by
  cases h with
  | silent hm => exact hm.loud
  | met ha hd hq hv => exact .cons (.meet ha hd hq) (Micro.ret hv (Job.closes_of_verdict hv)).one

theorem ChanStep.ret {v : ℤ} {e : Errno} (hv : j.call.verdict v e = none) (hc : j.closes = none) :
    ChanStep j s (s.ret j.op v e) :=
  .silent (Micro.ret hv hc).one

/-- The clause lists of a coroutine that has none yet. -/
theorem Good.waiting_clauses (h : Good (.busy j none) s) (i : ℕ) :
    i ∉ (s.crs s.r).clauses.map Clause.id := by
  rw [(Busy.toRunning h.cur).clauses]
  simp

theorem chanOp_post (h : Good (.busy j none) s) (hn : s.nops = j.op + 1) {sd : Side} {x : Handle}
    {val : Addr} {len : ℕ}
    (deadline : ℤ) (hcl : j.call.chanClauses = [⟨some sd, x, val, len⟩])
    (hobjs : j.objs = [s.handles x]) (hf : (Frame.chan sd).Of j.call j.objs)
    (hv : ∀ v e, j.call.verdict v e =
      if v = 0 then some (0, .ok) else if e = .EMSGSIZE then some (0, e) else none) :
    Post (s.chanOp j.op sd x val len deadline) (ChanStep j s) fun _ => False := by
  have hc : j.closes = none := Job.closes_of_verdict (hv 0 .ok)
  rw [chanOp]
  split
  · exact .ret (by rw [hv]; rfl) hc
  rename_i hb
  have hb : s.canblock = true := by simpa using hb
  split
  · rename_i e he
    refine .ret ?_ hc
    rw [hqueryHalf] at he
    rw [hv]
    split at he <;> cases he <;> rfl
  · rename_i ch hch
    have hx : s.handles x = some (.half ch) := by
      rw [hqueryHalf] at hch
      split at hch
      · cases hch
      · rename_i ch' hx; cases hch; exact hx
      · cases hch
    have ha : j.call.chanArg j.objs 0 = some ⟨sd, target ch sd, val, len⟩ := by
      simp [Call.chanArg, hcl, hobjs, hx]
    refine (tryClause_post h j.op 0 ⟨sd, target ch sd, val, len⟩).bind fun o ho => ?_
    cases ho with
    | pipe hd => exact .ret (by rw [hv]; rfl) hc
    | @met c rest hd hq =>
      refine .met ha hd hq ?_
      rw [hv]
      split <;> rfl
    | wait hd hq =>
      simp only
      split
      · exact .ret (by rw [hv]; rfl) hc
      · have hw : Micro false (.busy j none) s (.waiting j (.chan sd)) s :=
          .startWait hb trivial hf hn
        have hch : (target ch sd).chan < s.nchans := by
          have := h.tables.handle x ch hx
          cases sd <;> exact this
        have he : Micro false (.waiting j (.chan sd)) s (.waiting j (.chan sd))
            (s.enqueue j.op 0 sd (target ch sd) val len) :=
          .enqueue (a := ⟨sd, target ch sd, val, len⟩) (h.waiting_clauses 0) (.inl ⟨_, rfl⟩) ha
            (by rw [(Busy.toRunning h.cur).clauses]; simp) hch hd (by rw [hq]; simp)
        have ht : Micro false (.waiting j (.chan sd)) (s.enqueue j.op 0 sd (target ch sd) val len)
            (.waiting j (.chan sd)) ((s.enqueue j.op 0 sd (target ch sd) val len).timer 1 deadline) := by
          refine .timer deadline ?_ (.inr rfl)
          rw [(registered_enqueue s j.op 0 sd (target ch sd) val len).clauses,
            (Busy.toRunning h.cur).clauses]
          simp
        exact .silent (.cons hw (.cons he (.cons ht (Micro.block (by simp)).one)))

theorem hqueryHalf_ok {x : Handle} {ch : HalfRef} (h : s.hqueryHalf x = .ok ch) :
    s.handles x = some (.half ch) := by
  rw [hqueryHalf] at h
  split at h
  · cases h
  · rename_i ch' hx; cases h; exact hx
  · cases h

theorem hqueryHalf_error {x : Handle} {e : Errno} (h : s.hqueryHalf x = .error e) :
    e = .EBADF ∨ e = .ENOTSUP := by
  rw [hqueryHalf] at h
  split at h <;> cases h
  · exact .inl rfl
  · exact .inr rfl

/-- Clause `i` of a `choose` can neither complete nor fail at once: at most clauses of the caller
itself wait on the other side. -/
def Clear (j : Job) (s : Ctx) (i : ℕ) (cl : ChClause) : Prop :=
  ∃ ch sd, s.handles cl.ch = some (.half ch) ∧ cl.op = some sd ∧
    j.call.chanArg j.objs i = some ⟨sd, target ch sd, cl.val, cl.len⟩ ∧
    (s.half (target ch sd)).done = false ∧
    ∀ e ∈ (s.half (target ch sd)).queue sd.peer, e.cr = s.r

/-- What the first loop of `dill_choose` comes to. -/
inductive Scanned (j : Job) (s : Ctx) (i : ℕ) (cls : List ChClause) :
    Option (ℕ × Errno × Ctx) → Prop
  | clear (h : ∀ n cl, cls[n]? = some cl → Clear j s (i + n) cl) : Scanned j s i cls none
  | fail {n : ℕ} {e : Errno} (h : e ≠ .ok) (h' : e ≠ .EMSGSIZE) :
      Scanned j s i cls (some (n, e, s))
  | met {n : ℕ} {a : ChanArg} {c : ChanClause} {rest : List ChanClause}
      (ha : j.call.chanArg j.objs n = some a) (hd : (s.half a.half).done = false)
      (hq : (s.half a.half).queue a.sd.peer = c :: rest) :
      Scanned j s i cls (some (n, if a.len = c.len then .ok else .EMSGSIZE, s.met j.op n a c))

theorem scan_post (h : Good (.busy j none) s) {all : List ChClause}
    (hall : j.call.chanClauses = all) (hobjs : j.objs = all.map fun cl => s.handles cl.ch)
    (cls : List ChClause) (i : ℕ) (hcls : ∀ n cl, cls[n]? = some cl → all[i + n]? = some cl) :
    Post (scan j.op i cls s) (Scanned j s i cls) fun _ => False := by
  induction cls generalizing i with
  | nil => exact .clear (by simp)
  | cons cl cls ih =>
    rw [scan]
    split
    · rename_i e he
      rcases hqueryHalf_error he with rfl | rfl <;> exact .fail (by simp) (by simp)
    rename_i ch hch
    have hx := hqueryHalf_ok hch
    split
    · exact .fail (by simp) (by simp)
    split
    · exact .fail (by simp) (by simp)
    rename_i sd hsd
    have h0 : all[i]? = some cl := hcls 0 cl rfl
    have ha : j.call.chanArg j.objs i = some ⟨sd, target ch sd, cl.val, cl.len⟩ := by
      obtain ⟨op, x, val, len⟩ := cl
      simp only at hsd hx
      subst hsd
      simp [Call.chanArg, hall, hobjs, h0, hx]
    refine (tryClause_post h j.op i ⟨sd, target ch sd, cl.val, cl.len⟩).bind fun o ho => ?_
    cases ho with
    | pipe hd => exact .fail (by simp) (by simp)
    | met hd hq => exact .met ha hd hq
    | wait hd hq =>
      have hrest : ∀ n cl', cls[n]? = some cl' → all[i + 1 + n]? = some cl' := fun n cl' hn => by
        rw [Nat.add_assoc, Nat.add_comm 1 n]
        exact hcls (n + 1) cl' (by simpa using hn)
      refine (ih (i + 1) hrest).mono (fun o ho => ?_) fun _ => id
      cases ho with
      | fail h h' => exact .fail h h'
      | met ha hd hq => exact .met ha hd hq
      | clear hc =>
        refine .clear fun n cl' hn => ?_
        cases n with
        | zero =>
          simp only [List.getElem?_cons_zero, Option.some.injEq] at hn
          subst hn
          exact ⟨ch, sd, hx, hsd, ha, hd, fun e he => by rw [hq] at he; cases he⟩
        | succ n =>
          have := hc n cl' (by simpa using hn)
          rwa [Nat.add_assoc, Nat.add_comm 1 n] at this

/-- Queueing a clause of the caller leaves the other clauses clear. -/
theorem Clear.enqueue {n : ℕ} {cl : ChClause} (h : Clear j s n cl) (op i : ℕ) (sd : Side)
    (ch : HalfRef) (val : Addr) (len : ℕ) : Clear j (s.enqueue op i sd ch val len) n cl := by
  obtain ⟨ch', sd', hx, hsd, ha, hd, hp⟩ := h
  refine ⟨ch', sd', hx, hsd, ha, ?_, fun e he => ?_⟩
  · by_cases hc : target ch' sd' = ch
    · simp only [Ctx.enqueue, waitfor, updCr, updHalf, hc, Function.update_self]
      rw [← hc]
      exact hd
    · simp only [Ctx.enqueue, waitfor, updCr, updHalf, Function.update_of_ne hc]
      exact hd
  · rw [enqueue_queue] at he
    split at he
    · rcases List.mem_append.1 he with he | he
      · exact hp e he
      · rw [List.mem_singleton.1 he]; rfl
    · exact hp e he

theorem enqueueAll_post {all : ℕ} (cls : List ChClause) (i : ℕ)
    (h : Good (.waiting j (.choose all)) s) (hall : i + cls.length = all)
    (hcls : ∀ n cl, cls[n]? = some cl → Clear j s (i + n) cl)
    (hlt : ∀ cl ∈ (s.crs s.r).clauses, cl.id < i) :
    Post (enqueueAll j.op i cls s)
      (fun s' => Micros false (.waiting j (.choose all)) s (.waiting j (.choose all)) s' ∧
        ∀ cl ∈ (s'.crs s'.r).clauses, cl.id < all) fun _ => False := by
  induction cls generalizing s i with
  | nil =>
    rw [← hall]
    exact ⟨.refl, by simpa using hlt⟩
  | cons cl cls ih =>
    obtain ⟨ch, sd, hx, hsd, ha, hd, hp⟩ := hcls 0 cl rfl
    have hq : s.hqueryHalf cl.ch = .ok ch := by rw [hqueryHalf, hx]
    have hside : (if cl.op = some Side.inn then Side.inn else Side.out) = sd := by
      rw [hsd]; cases sd <;> rfl
    rw [enqueueAll, hq]
    simp only [hside]
    have hn : (target ch sd).chan < s.nchans := by
      have := h.tables.handle cl.ch ch hx
      cases sd <;> exact this
    have hi : i ∉ (s.crs s.r).clauses.map Clause.id := fun hmem => by
      obtain ⟨cl', hcl', he⟩ := List.mem_map.1 hmem
      exact absurd (hlt cl' hcl') (by rw [he]; exact lt_irrefl i)
    have hlen : i < all := by rw [← hall, List.length_cons]; omega
    have hm : Micro false (.waiting j (.choose all)) s (.waiting j (.choose all))
        (s.enqueue j.op i sd (target ch sd) cl.val cl.len) :=
      .enqueue (a := ⟨sd, target ch sd, cl.val, cl.len⟩) hi
        (.inl ⟨hlen, _, _, rfl⟩) ha hlt hn hd hp
    refine (ih (i + 1) (h.micro hm) ?_ (fun n cl' hn' => ?_) ?_).mono
      (fun s' ⟨h₁, h₂⟩ => ⟨.cons hm h₁, h₂⟩) fun _ => id
    · rw [← hall, List.length_cons]; omega
    · have := (hcls (n + 1) cl' (by simpa using hn')).enqueue j.op i sd (target ch sd) cl.val cl.len
      rwa [Nat.add_comm n 1, ← Nat.add_assoc] at this
    · rw [(registered_enqueue s j.op i sd (target ch sd) cl.val cl.len).clauses]
      intro cl' hcl'
      rcases List.mem_cons.1 hcl' with rfl | hcl'
      · exact Nat.lt_succ_self i
      · exact Nat.lt_succ_of_lt (hlt cl' hcl')

theorem choose_post (h : Good (.busy j none) s) (hn : s.nops = j.op + 1)
    {clauses : Option (List ChClause)} {deadline : ℤ}
    (hj : j.call = .choose clauses deadline) (hobjs : j.objs = j.call.handles.map s.handles) :
    Post (s.choose j.op clauses deadline) (ChanStep j s) fun _ => False := by
  have hv : ∀ v e, j.call.verdict v e =
      if 0 ≤ v ∧ (e = .ok ∨ e = .EMSGSIZE) then some (v.toNat, e) else none := by
    intro v e; rw [hj]; rfl
  have hnc : j.closes = none := Job.closes_of_call hj (by simp)
  rw [choose.eq_def]
  split
  · exact .ret (by rw [hv]; rfl) hnc
  rename_i hb
  have hb : s.canblock = true := by simpa using hb
  cases clauses with
  | none => exact .ret (by rw [hv]; rfl) hnc
  | some cls =>
    have hcl : j.call.chanClauses = cls := by rw [hj]; rfl
    have hobjs' : j.objs = cls.map fun cl => s.handles cl.ch := by
      rw [hobjs, hj]
      simp [Call.handles]
    refine (scan_post h hcl hobjs' cls 0 (by simp)).bind fun o ho => ?_
    cases ho with
    | fail he he' => exact .ret (by rw [hv, if_neg (by simp [he, he'])]) hnc
    | @met n a c rest ha hd hq =>
      refine .met ha hd hq ?_
      rw [hv]
      split <;> simp
    | clear hc =>
      simp only
      split
      · exact .ret (by rw [hv]; rfl) hnc
      · have hw : Micro false (.busy j none) s (.waiting j (.choose cls.length)) s :=
          .startWait hb trivial (by rw [hj]; rfl) hn
        refine (enqueueAll_post cls 0 (h.micro hw) (Nat.zero_add _) hc ?_).bind
          fun s' ⟨hm, hlt⟩ => ?_
        · rw [(Busy.toRunning h.cur).clauses]
          simp
        · refine .silent (.cons hw
            (hm.trans (.cons (.timer deadline ?_ (.inr rfl)) (Micro.block (by simp)).one)))
          intro hmem
          obtain ⟨cl, hcl', he⟩ := List.mem_map.1 hmem
          exact absurd (hlt cl hcl') (by rw [he]; exact lt_irrefl _)

/-! ## Making, finishing and closing channels -/

theorem chdone_post (h : Good (.busy j none) s) {x : Handle} (hj : j.call = .chdone x) :
    Post (s.chdone j.op x) (fun s' => Micros l (.busy j none) s .idle s') fun _ => False := by
  have hv : ∀ v e, j.call.verdict v e = none := fun v e => by rw [hj]; rfl
  have hc : j.closes = none := Job.closes_of_call hj (by simp)
  rw [chdone]
  split
  · exact (Micro.ret (hv _ _) hc).one
  · rename_i ch hch
    split
    · exact (Micro.ret (hv _ _) hc).one
    · have hm : Micro l (.busy j none) s (.terming j ch.other)
          (s.updHalf ch.other fun x => { x with done := true }) :=
        .startTerm ch.other (h.tables.handle x ch (hqueryHalf_ok hch))
      refine (halfchanTerm_post (l := l) (by simp) (h.micro hm) ch.other).bind
        fun s' ⟨hm', hq, _⟩ => ?_
      exact .cons hm (hm'.trans (.cons (.endTerm hq) (Micro.ret (hv _ _) hc).one))

theorem hmake_ok {x : Handle} {o : Obj} {r : Option Ctx} (h : s.hmake x o = .ok r) :
    (r = none ∧ s.canblock = false) ∨ (r = some (s.setHandle x (some o)) ∧ s.canblock = true) := by
  rw [hmake] at h
  split at h
  · rename_i hb
    cases h
    exact .inl ⟨rfl, by simpa using hb⟩
  · rename_i hb
    split at h
    · cases h
      exact .inr ⟨rfl, by simpa using hb⟩
    · cases h

theorem hmake_post (x : Handle) (o : Obj) :
    Post (s.hmake x o)
      (fun r => (r = none ∧ s.canblock = false) ∨
        (r = some (s.setHandle x (some o)) ∧ s.canblock = true)) (· = .stuck) := by
  cases h : s.hmake x o with
  | ok r => exact hmake_ok h
  | error e =>
    rw [hmake] at h
    split at h
    · cases h
    · split at h
      · cases h
      · cases h; exact rfl

theorem chmake_post {h₀ h₁ : Handle} (hj : j.call = .chmake h₀ h₁) :
    Post (s.chmake j.op h₀ h₁) (fun s' => Micros l (.busy j none) s .idle s') (· = .stuck) := by
  have hv : ∀ v e, j.call.verdict v e = none := fun v e => by rw [hj]; rfl
  have hc : j.closes = none := Job.closes_of_call hj (by simp)
  rw [chmake]
  refine (hmake_post h₀ _).bind fun r hr => ?_
  rcases hr with ⟨rfl, -⟩ | ⟨rfl, -⟩
  · exact (Micro.ret (hv _ _) hc).one
  · refine (hmake_post h₁ _).bind fun r hr => ?_
    rcases hr with ⟨rfl, -⟩ | ⟨rfl, -⟩
    · exact (Micro.ret (hv _ _) hc).one
    · exact .cons (.chmake h₀ h₁) (Micro.ret (hv _ _) hc).one

/-! ## Closing -/

theorem quiet_noBlocking2 (h : s.Core) (v : Bool) :
    Quiet s (s.updCr s.r fun cr => { cr with noBlocking2 := v }) :=
  quiet_updCr h.r_lt fun _ => ⟨_, _, rfl⟩

theorem freeCr_post (hc : c < s.ncrs) : Post (s.freeCr c) (Quiet s) (· = .undefined) := by
  rw [freeCr]
  split
  · exact Quiet.refl s
  · split
    · exact rfl
    · exact quiet_updCr hc fun _ => ⟨_, _, rfl⟩

theorem finishClose_post (h : s.Core) (b : BundleId) (x : Handle) (old : Bool) :
    Post (s.finishClose b x old) (fun s' => Micros l k s k s' ∧ s'.handles x = none)
      (· = .undefined) := by
  rw [finishClose]
  split
  · exact rfl
  · have h₁ : Quiet s (s.updBundle b fun x => { x with freed := !x.mem }) :=
      quiet_updBundle b fun _ => ⟨_, rfl⟩
    have h₂ := quiet_noBlocking2 (h.congr h₁.sameSched.toSameLinks) old
    refine ⟨.cons (.quiet h₁) (.cons (.quiet h₂) (Micro.quiet (quiet_setHandle x (.inl rfl))).one),
      ?_⟩
    simp [setHandle]

theorem updCr_block_comm (s : Ctx) (c : CrId) (op : ℕ) (f : Frame) (p : Option CrId) :
    (s.updCr c fun cr => { cr with closer := p }).block op f =
      (s.block op f).updCr c fun cr => { cr with closer := p } := by
  simp only [block, updCr]
  congr 1
  funext x
  by_cases hc : c = s.r
  · subst hc
    by_cases hx : x = s.r
    · subst hx; simp
    · simp [hx]
  · by_cases hx : x = s.r
    · subst hx; simp [Ne.symm hc, Function.update_of_ne hc]
    · by_cases hxc : x = c
      · subst hxc; simp [hx]
      · simp [hx, hxc]

/-- The branch of `dill_cr_close` for a coroutine that has not ended. -/
theorem closeCrs_wait {x : Handle} {old : Bool} {rest : List CrId} (h : s.Core)
    (hf : (s.crs c).freed = false) (hd : (s.crs c).done = false) :
    closeCrs op b x old (c :: rest) s = .ok (s.closeWaited op b x old c) := by
  have hg : KeepsLinks fun cr : Cr => { cr with noBlocking1 := true } :=
    ⟨fun _ => rfl, fun _ => rfl⟩
  have h₁ := h.congr (sameLinks_updCr hg s c)
  rw [closeCrs]
  simp only [hf, hd, Bool.false_eq_true, if_false]
  rw [closeWaited]
  by_cases hr : c ∈ s.ready
  · have hn : ((s.updCr c fun cr => { cr with noBlocking1 := true }).crs c).readyNext = true :=
      (h₁.next_iff c).2 hr
    simp only [hn, if_true, if_pos hr]
    rw [← updCr_block_comm]
    rfl
  · have hn : ((s.updCr c fun cr => { cr with noBlocking1 := true }).crs c).readyNext ≠ true :=
      fun hn => hr ((h₁.next_iff c).1 hn)
    have hw : (s.updCr c fun cr => { cr with noBlocking1 := true }).cancel c .ECANCELED =
        .ok ((s.updCr c fun cr => { cr with noBlocking1 := true }).wake c (-1) .ECANCELED) :=
      docancel_eq h₁ hr
    simp only [if_neg hn, if_neg hr, hw]
    rw [← updCr_block_comm]
    rfl

theorem closeCrs_post {x : Handle} {old : Bool} (rest : List CrId)
    (h : Good (.closing j b x old rest) s) :
    Post (closeCrs j.op b x old rest s)
      (fun s' => Micros l (.closing j b x old rest) s .idle s') (· = .undefined) := by
  induction rest generalizing s with
  | nil =>
    rw [closeCrs]
    refine (finishClose_post (l := l) (k := .closing j b x old []) h.toCore b x old).bind
      fun s' ⟨hm, hh⟩ => ?_
    exact hm.trans (Micro.closeEnd hh).one
  | cons c rest ih =>
    have hlt : c < s.ncrs := (h.cur : s.Closing j b x (c :: rest)).rest_lt c (.head _)
    by_cases hf : (s.crs c).freed = true
    · rw [closeCrs, if_pos hf]
      exact rfl
    by_cases hd : (s.crs c).done = true
    · rw [closeCrs, if_neg hf, if_pos hd]
      refine (freeCr_post hlt).bind fun s₁ hq => ?_
      have hm : Micro l (.closing j b x old (c :: rest)) s (.closing j b x old (c :: rest)) s₁ :=
        .quiet hq
      have hm' : Micro l (.closing j b x old (c :: rest)) s₁ (.closing j b x old rest) s₁ :=
        .closeNext (by rw [hq.proj Cr.done fun _ _ _ => rfl]; exact hd)
      exact (ih ((h.micro hm).micro hm')).mono (fun _ h' => .cons hm (.cons hm' h')) fun _ => id
    · rw [closeCrs_wait h.toCore (by simpa using hf) (by simpa using hd)]
      exact (Micro.closeWait (by simpa using hd)).one

theorem halfchanClose_post (h : Good (.busy j none) s) {ch : HalfRef} (hch : ch.chan < s.nchans) :
    Post (s.halfchanClose ch) (fun s' => Micros l (.busy j none) s (.busy j none) s')
      (· = .assertHalfchanClose) := by
  rw [halfchanClose]
  split
  · exact rfl
  split
  · exact (Micro.quiet (quiet_closed hch)).one
  · refine ((halfchanTerm_post (l := l) (by simp) h _).mono (fun _ => id)
      (fun _ => False.elim)).bind fun s₁ ⟨hm₁, _⟩ => ?_
    refine (halfchanTerm_post (l := l) (by simp) (h.micros hm₁) _).mono (fun s₂ ⟨hm₂, _⟩ => ?_)
      fun _ => False.elim
    exact hm₁.trans hm₂

theorem hclose_post (h : Good (.busy j none) s) {x : Handle} (hj : j.call = .hclose x)
    (hobjs : j.objs = [s.handles x]) :
    Post (s.hclose j.op x) (fun s' => Micros l (.busy j none) s .idle s')
      (fun e => e = .undefined ∨ e = .assertHalfchanClose) := by
  have hv : ∀ v e, j.call.verdict v e = none := fun v e => by rw [hj]; rfl
  have hq : Micro l (.busy j none) s (.busy j none)
      (s.updCr s.r fun cr => { cr with noBlocking2 := true }) :=
    .quiet (quiet_noBlocking2 h.toCore true)
  have h₁ := h.micro hq
  rw [hclose]
  split
  · rename_i hx
    exact (Micro.ret (hv _ _) (Job.closes_of_objs hobjs (by simp [hx]))).one
  · rename_i ch hx
    have hc : j.closes = none := Job.closes_of_objs hobjs (by simp [hx])
    refine ((halfchanClose_post (l := l) h₁ (h.tables.handle x ch hx)).mono (fun _ => id)
      (fun _ => .inr)).bind fun s₂ hm => ?_
    have h₂ := h₁.micros hm
    exact .cons hq (hm.trans (.cons (.quiet (quiet_noBlocking2 h₂.toCore _))
      (.cons (.quiet (quiet_setHandle x (.inl rfl))) (Micro.ret (hv _ _) hc).one)))
  · rename_i b' hx
    have hs : Micro l (.busy j none) (s.updCr s.r fun cr => { cr with noBlocking2 := true })
        (.closing j b' x (s.crs s.r).noBlocking2 (s.bundles b').crs)
        (s.updCr s.r fun cr => { cr with noBlocking2 := true }) :=
      .startClose _ hj (by rw [hobjs, hx]) hx
    exact (closeCrs_post (l := l) _ (h₁.micro hs)).mono
      (fun _ hm => .cons hq (.cons hs hm)) fun _ => .inl
  · rename_i hx
    exact .cons hq (Micro.hold ⟨hj, by rw [hobjs, hx]⟩).one

theorem hcloseEnd_post (h : Good .idle s) (hu : s.phase = .user) :
    Post s.hcloseEnd (fun s' => Micros l .idle s .idle s') (· = .stuck) := by
  rw [hcloseEnd]
  split
  · exact rfl
  · rename_i op x old rest hc
    obtain ⟨j, hop, hj, hh⟩ := h.frames.held s.r (op, x, old) (by rw [hc]; exact .head _)
    simp only at hop hh
    subst hop
    have hm : Micro l .idle s (.busy j none) (s.updCr s.r fun cr => { cr with closing := rest }) :=
      .unhold hu hc hj hh
    have h₁ := h.micro hm
    have heq : (s.updCr s.r fun cr => { cr with noBlocking2 := old, closing := rest }) =
        (s.updCr s.r fun cr => { cr with closing := rest }).updCr s.r
          fun cr => { cr with noBlocking2 := old } := by
      simp [updCr]
    rw [heq]
    exact .cons hm (.cons (.quiet (quiet_noBlocking2 h₁.toCore old))
      (.cons (.quiet (quiet_setHandle x (.inl rfl)))
        (Micro.ret (by rw [hh.1]; rfl) (Job.closes_of_objs hh.2 (by simp))).one))

/-! ## Timers, descriptors and bundles -/

theorem yield_micros (hj : j.call = .yield) : Micros l (.busy j none) s .idle (s.yield j.op) := by
  rw [yield]
  split
  · exact (Micro.ret (by rw [hj]; rfl) (Job.closes_of_call hj (by simp))).one
  · rename_i hb
    exact (Micro.yield (by simpa using hb) hj).one

theorem msleep_micros (h : Good (.busy j none) s) (hn : s.nops = j.op + 1) {deadline : ℤ}
    (hj : j.call = .msleep deadline) :
    Micros l (.busy j none) s .idle (s.msleep j.op deadline) := by
  rw [msleep]
  split
  · exact (Micro.ret (by rw [hj]; rfl) (Job.closes_of_call hj (by simp))).one
  · rename_i hb
    exact .cons (.startWait (f := .msleep) (by simpa using hb) trivial (by rw [hj]; exact trivial)
      hn) (.cons (.timer deadline (h.waiting_clauses 1) rfl) (Micro.block (by simp)).one)

theorem fdwait_micros (h : Good (.busy j none) s) (hn : s.nops = j.op + 1) {sd : Side}
    {fd deadline : ℤ} {ctl : Errno} (hj : j.call = .fdwait sd fd deadline ctl) :
    Micros l (.busy j none) s .idle (s.fdwait j.op sd fd deadline ctl) := by
  have hv : ∀ v e, j.call.verdict v e = none := fun v e => by rw [hj]; rfl
  have hc : j.closes = none := Job.closes_of_call hj (by simp)
  rw [fdwait]
  split
  · exact (Micro.ret (hv _ _) hc).one
  rename_i hb
  split
  · exact (Micro.ret (hv _ _) hc).one
  split
  · exact (Micro.ret (hv _ _) hc).one
  -- a descriptor that is not cached yet has no waiters, so adding it changes none
  have hq : Quiet s (if (s.fds fd.toNat).cached then s
      else s.updFd fd.toNat fun _ => { cached := true }) := by
    split
    · exact .refl s
    · rename_i hc
      refine quiet_updFd (fun sd => ?_) fun hc' => absurd hc' (by simp)
      exact (h.tables.cached _ (by simpa using hc) sd).symm
  have hcd : ((if (s.fds fd.toNat).cached then s
      else s.updFd fd.toNat fun _ => { cached := true }).fds fd.toNat).cached = true := by
    split
    · assumption
    · simp [updFd]
  have hb' : (if (s.fds fd.toNat).cached then s
      else s.updFd fd.toNat fun _ => { cached := true }).canblock = true := by
    split <;> simpa [canblock, updFd] using hb
  generalize (if (s.fds fd.toNat).cached then s
    else s.updFd fd.toNat fun _ => { cached := true }) = s₁ at hq hcd hb'
  have h₁ := h.micro (.quiet (l := l) hq)
  simp only
  split
  · exact .cons (.quiet hq) (Micro.ret (hv _ _) hc).one
  · rename_i hw
    have hl : Micro l (.waiting j .fdwait) s₁ (.waiting j .fdwait) (s₁.linkFd fd.toNat sd) :=
      .linkFd (h₁.waiting_clauses 1) hcd (by simpa using hw)
    have ht : Micro l (.waiting j .fdwait) (s₁.linkFd fd.toNat sd) (.waiting j .fdwait)
        ((s₁.linkFd fd.toNat sd).timer 2 deadline) := by
      refine .timer deadline ?_ (.inr rfl)
      rw [(registered_linkFd s₁ fd.toNat sd (by simpa using hw)).clauses,
        (Busy.toRunning h₁.cur).clauses]
      simp
    exact .cons (.quiet hq) (.cons
      (.startWait (f := .fdwait) hb' trivial (by rw [hj]; exact trivial) (by rw [hq.nops, hn]))
      (.cons hl (.cons ht (Micro.block (by simp)).one)))

theorem fdclean_post {fd : ℤ} (hj : j.call = .fdclean fd) :
    Post (s.fdclean j.op fd) (fun s' => Micros l (.busy j none) s .idle s') (· = .undefined) := by
  have hv : ∀ v e, j.call.verdict v e = none := fun v e => by rw [hj]; rfl
  have hc : j.closes = none := Job.closes_of_call hj (by simp)
  rw [fdclean]
  split
  · exact rfl
  split
  · exact (Micro.ret (hv _ _) hc).one
  split
  · exact (Micro.ret (hv _ _) hc).one
  · rename_i hw
    rw [not_or, not_not, not_not] at hw
    refine .cons (.quiet (quiet_updFd (fun _ => rfl) fun _ sd => ?_)) (Micro.ret (hv _ _) hc).one
    cases sd
    exacts [hw.1, hw.2]

theorem bundleMake_post (mem : Bool) (x : Handle) :
    Post (s.bundleMake mem x)
      (fun r => (r = none ∧ s.canblock = false) ∨
        (r = some (s.bundleMade mem x) ∧ s.canblock = true)) (· = .stuck) :=
  hmake_post x _

theorem hqueryBundle_ok {x : Handle} (h : s.hqueryBundle x = .ok b) :
    s.handles x = some (.bundle b) := by
  rw [hqueryBundle] at h
  split at h
  · cases h
  · rename_i b' hx; cases h; exact hx
  · cases h

theorem bundleWait_micros (h : Good (.busy j none) s) (hn : s.nops = j.op + 1) {x : Handle}
    {deadline : ℤ}
    (hj : j.call = .bundleWait x deadline) (hobjs : j.objs = [s.handles x]) :
    Micros l (.busy j none) s .idle (s.bundleWait j.op x deadline) := by
  have hv : ∀ v e, j.call.verdict v e = none := fun v e => by rw [hj]; rfl
  have hc : j.closes = none := Job.closes_of_call hj (by simp)
  rw [bundleWait]
  split
  · exact (Micro.ret (hv _ _) hc).one
  rename_i hb
  split
  · exact (Micro.ret (hv _ _) hc).one
  rename_i b' hq
  split
  · exact (Micro.ret (hv _ _) hc).one
  · rename_i hne
    have hf : (Frame.bundleWait b').Of j.call j.objs := by
      rw [hj, hobjs, hqueryBundle_ok hq]; rfl
    refine .cons (.startWait (f := .bundleWait b') (by simpa using hb) trivial hf hn)
      (.cons (.setWaiter (h.waiting_clauses 0) hne) (.cons (.timer deadline ?_ (.inr rfl))
        (Micro.block ?_).one))
    · rw [(registered_waitfor _ 0).clauses]
      change 1 ∉ List.map Clause.id (⟨0, .null⟩ :: (s.crs s.r).clauses)
      rw [(Busy.toRunning h.cur).clauses]
      simp
    · intro b hb
      cases hb
      rw [Ctx.timer]
      split <;> simp [waitfor, updCr, updBundle]

theorem prologue_post (h : Good (.busy j none) s) {bndl : Handle} {mem stack : Bool} {x : Handle}
    (hj : j.call = .go bndl mem stack x) :
    Post (s.prologue j.op bndl mem stack x) (fun s' => Micros l (.busy j none) s .idle s')
      (fun e => e = .stuck ∨ e = .undefined) := by
  have hv : ∀ v e, j.call.verdict v e = none := fun v e => by rw [hj]; rfl
  have hc : j.closes = none := Job.closes_of_call hj (by simp)
  have hgo : ∀ v, (Frame.go v).Of j.call j.objs := fun v => by rw [hj]; exact trivial
  rw [prologue]
  split
  · exact (Micro.ret (hv _ _) hc).one
  rename_i hb
  have hb : s.canblock = true := by simpa using hb
  split
  · refine ((bundleMake_post mem x).mono (fun _ => id) (fun _ => .inl)).bind fun r hr => ?_
    rcases hr with ⟨rfl, -⟩ | ⟨rfl, -⟩
    · exact (Micro.ret (hv _ _) hc).one
    · have hm : Micro l (.busy j none) s (.busy j none) (s.bundleMade mem x) := .bundle mem x
      simp only
      split
      · have hb' : (s.bundleMade mem x).canblock = true := hb
        refine .cons hm (Micro.launch mem x hb' (hgo x) ⟨x, ?_⟩).one
        simp [bundleMade, setHandle]
      · refine ((finishClose_post (l := l) (k := .busy j none) (h.micro hm).toCore _ x _).mono
          (fun _ => id) (fun _ => .inr)).bind fun s₁ hx => ?_
        obtain ⟨hm₁, -⟩ := hx
        exact .cons hm (hm₁.trans (Micro.ret (hv _ _) hc).one)
  · split
    · exact (Micro.ret (hv _ _) hc).one
    · rename_i b' hq
      split
      · exact (Micro.launch mem 0 hb (hgo 0) ⟨bndl, hqueryBundle_ok hq⟩).one
      · exact (Micro.ret (hv _ _) hc).one

/-! ## The end of a coroutine -/

/-- The coroutine that waits for the running one to end has already been made ready. -/
def CloserReady (s : Ctx) : Prop := ∃ p, (s.crs s.r).closer = some p ∧ p ∈ s.ready

/-- The running coroutine is the last one of its bundle, ends by itself, and the waiter of the
bundle has already been made ready. -/
def WaiterReady (s : Ctx) : Prop :=
  ∃ b w, (s.crs s.r).noBlocking1 = false ∧ (s.crs s.r).bundle = some b ∧
    (s.bundles b).crs.length = 1 ∧ (s.bundles b).waiter = some w ∧ w.cr ∈ s.ready

theorem wakeCloser_post (h : Good .exiting s) :
    Post s.wakeCloser
      (fun s' => Micros l .exiting s .exiting s' ∧ s'.r = s.r ∧ s'.bundles = s.bundles ∧
        (s'.crs s.r).noBlocking1 = (s.crs s.r).noBlocking1 ∧
        (s'.crs s.r).bundle = (s.crs s.r).bundle ∧
        ∀ b w, (s.bundles b).waiter = some w → w.cr ∈ s'.ready → w.cr ∈ s.ready)
      (fun e => e = .assertDocancel ∧ s.CloserReady) := by
  have he : s.Exiting := h.cur
  rw [Ctx.wakeCloser]
  split
  · rename_i p hp
    by_cases hr : p ∈ s.ready
    · rw [cancel, docancel_of_ready h.toCore hr]
      exact ⟨rfl, p, hp, hr⟩
    · rw [cancel, docancel_eq h.toCore hr]
      refine ⟨(Micro.wakeCloser hp hr).one, rfl, rfl, ?_, ?_, fun b w hw hmem => ?_⟩
      · rw [wake_proj Cr.noBlocking1 fun _ _ _ _ => rfl]
      · rw [wake_proj Cr.bundle fun _ _ _ _ => rfl]
      · -- a closer is not a waiter: it is suspended in another function
        rw [wake_ready, List.mem_append, List.mem_singleton] at hmem
        refine hmem.resolve_right fun hwp => ?_
        obtain ⟨op, b', x, old, hf⟩ := he.closer p hp
        obtain ⟨-, ⟨op', hf'⟩ | ⟨-, j', hj'⟩⟩ := h.frames.waiter b w hw
        · rw [hwp, hf] at hf'; cases hf'
        · cases hj'
  · exact ⟨.refl, rfl, rfl, rfl, rfl, fun _ _ _ => id⟩

theorem wakeWaiter_post (h : Good .exiting s) (hn : (s.crs s.r).noBlocking1 = false)
    (hb : (s.crs s.r).bundle = some b) :
    Post (s.wakeWaiter b)
      (fun s' => Micros l .exiting s .exiting s' ∧ s'.r = s.r ∧
        (s'.crs s.r).noBlocking1 = false ∧ (s'.crs s.r).bundle = some b)
      (fun e => e = .assertDocancel ∧ s.WaiterReady) := by
  rw [Ctx.wakeWaiter]
  split
  · rename_i hl
    split
    · rename_i w hw
      by_cases hr : w.cr ∈ s.ready
      · rw [trigger, docancel_of_ready h.toCore hr]
        exact ⟨rfl, b, w, hn, hb, hl, hw, hr⟩
      · rw [trigger, docancel_eq h.toCore hr]
        refine ⟨(Micro.wakeWaiter hn hb hl hw hr).one, rfl, ?_, ?_⟩
        · rw [wake_proj Cr.noBlocking1 fun _ _ _ _ => rfl]; exact hn
        · rw [wake_proj Cr.bundle fun _ _ _ _ => rfl]; exact hb
    · exact ⟨.refl, rfl, hn, hb⟩
  · exact ⟨.refl, rfl, hn, hb⟩

theorem leaveBundle_post (h : Good .exiting s) :
    Post s.leaveBundle (fun s' => Micros l .exiting s .exiting s')
      (fun e => e = .undefined ∨ (e = .assertDocancel ∧ s.WaiterReady)) := by
  rw [leaveBundle]
  split
  · exact .refl
  rename_i hn
  split
  · exact .refl
  rename_i b hb
  refine ((wakeWaiter_post (l := l) h (by simpa using hn) hb).mono (fun _ => id)
    (fun _ => .inr)).bind fun s₁ ⟨hm, hr, hn₁, hb₁⟩ => ?_
  rw [← hr] at hn₁ hb₁
  have hl : Micro l .exiting s₁ .exiting
      (s₁.updBundle b fun x => { x with crs := x.crs.erase s₁.r }) := .leave hn₁ hb₁
  refine (freeCr_post (s := s₁.updBundle b fun x => { x with crs := x.crs.erase s₁.r })
    (c := s₁.r) (h.micros hm).r_lt).mono (fun s₂ hq => ?_) fun e he => .inl he
  exact hm.trans (.cons hl (Micro.quiet hq).one)

theorem epilogue_post (h : Good .idle s) (hu : s.phase = .user) :
    Post s.epilogue (fun s' => Micros l .idle s .idle s') (fun e => e = .undefined ∨
      (e = .assertDocancel ∧ (s.CloserReady ∨ s.WaiterReady))) := by
  have hm₁ : Micro l .idle s .exiting (s.updCr s.r fun cr => { cr with done := true }) :=
    .finish hu
  have h₁ := h.micro hm₁
  have hproj : ∀ {β : Type} (p : Cr → β), (∀ x, p { x with done := true } = p x) →
      p ((s.updCr s.r fun cr => { cr with done := true }).crs s.r) = p (s.crs s.r) :=
    fun p hp => updCr_proj p hp s s.r s.r
  rw [epilogue]
  refine ((wakeCloser_post (l := l) h₁).mono (fun _ => id) ?_).bind
    fun s₂ ⟨hm₂, hr₂, hbs₂, hnb₂, hbd₂, hw₂⟩ => ?_
  · rintro e ⟨he, p, hp, hr⟩
    exact .inr ⟨he, .inl ⟨p, (hproj Cr.closer fun _ => rfl).symm.trans hp, hr⟩⟩
  have h₂ := h₁.micros hm₂
  refine ((leaveBundle_post (l := l) h₂).mono (fun _ => id) ?_).bind fun s₃ hm₃ => ?_
  · rintro e (he | ⟨he, b, w, hn, hb, hl, hw, hr⟩)
    · exact .inl he
    · rw [hbs₂] at hl hw
      rw [hr₂] at hn hb
      refine .inr ⟨he, .inr ⟨b, w, ?_, ?_, hl, hw, hw₂ b w hw hr⟩⟩
      · exact (hproj Cr.noBlocking1 fun _ => rfl).symm.trans (hnb₂.symm.trans hn)
      · exact (hproj Cr.bundle fun _ => rfl).symm.trans (hbd₂.symm.trans hb)
  have h₃ := h₂.micros hm₃
  rw [if_pos (Exiting.clauses h₃.cur)]
  exact .cons hm₁ (hm₂.trans (hm₃.trans Micro.sleep.one))

/-! ## Polling and switching -/

theorem poll_post (h : Good .idle s) (hp : s.phase = .wait) (nw : ℤ) (answers : List PollAnswer) :
    Post (s.poll nw answers) (fun s' => ∃ s₁ : Ctx, Micros l .idle s .idle s₁ ∧ s₁.phase = .wait ∧
      s' = { s₁ with phase := .switch }) (· = .stuck) := by
  rw [poll]
  split
  · exact (pollLoop_post (l := l) h _ answers nw).bind fun s' ⟨hm, hp'⟩ =>
      ⟨s', hm, hp'.trans hp, rfl⟩
  · exact ⟨s, .refl, hp, rfl⟩

/-- The coroutine at the head of the ready queue was cancelled while it closes a bundle. -/
def CanceledCloser (s : Ctx) : Prop :=
  ∃ c rest op b x old it, s.ready = c :: rest ∧
    (s.crs c).frame = some (op, .crClose b x old it) ∧ (s.crs c).err = .ECANCELED

/-- The verdict of a call is the one its frame is resumed with. -/
theorem Frame.verdict_result {f : Frame} {c : Call} {objs : List (Option Obj)} {id : ℤ} {e : Errno}
    (hf : f.Of c objs) (ho : f.Outcome id e) :
    c.verdict (result f id e).1 (result f id e).2 = f.verdict id e := by
  cases f with
  | chan sd =>
    have hc : ∀ v e, c.verdict v e =
        if v = 0 then some (0, .ok) else if e = .EMSGSIZE then some (0, e) else none := by
      cases sd <;> cases c <;> first | exact fun _ _ => rfl | exact hf.elim
    rw [hc]
    rcases ho with ⟨rfl, rfl⟩ | ⟨cl, ⟨h, rfl⟩ | rfl, rfl, he⟩
    · rfl
    · rcases he with rfl | rfl | rfl <;> rfl
    · cases he; rfl
  | choose n =>
    cases c with
    | choose cls d =>
      rcases ho with ⟨rfl, rfl⟩ | ⟨cl, ⟨hlt, h, sd, hc⟩ | rfl, rfl, he⟩
      · rfl
      · have hne : (cl.id : ℤ) ≠ n := by omega
        have hnn : ¬(cl.id : ℤ) < 0 := by omega
        simp only [result, if_neg hnn, if_neg hne, Call.verdict, Frame.verdict]
        simp [hne]
      · have hnn : ¬(n : ℤ) < 0 := by omega
        simp [result, hnn, Call.verdict, Frame.verdict]
    | _ => exact hf.elim
  | epilogue => exact ho.elim
  | go h => cases c <;> first | rfl | exact hf.elim
  | yield => cases c <;> first | rfl | exact hf.elim
  | msleep => cases c <;> first | rfl | exact hf.elim
  | fdwait => cases c <;> first | rfl | exact hf.elim
  | bundleWait b => cases c <;> first | rfl | exact hf.elim
  | crClose b h old it => cases c <;> first | rfl | exact hf.elim

/-- A call that is suspended elsewhere than in `dill_cr_close` does not close a bundle. -/
theorem Frame.Of.closes {f : Frame} (hf : f.Of j.call j.objs)
    (hn : ∀ b x old it, f ≠ .crClose b x old it) : j.closes = none := by
  refine Job.closes_of_call rfl fun x hx => ?_
  rw [hx] at hf
  cases f with
  | crClose b y old it => exact hn b y old it rfl
  | chan sd => cases sd <;> exact hf.elim
  | _ => exact hf.elim

theorem switch_post (h : Good .idle s) (hp : s.phase = .switch) :
    Post s.switch (fun s' => Micros l .idle s .idle s')
      (fun e => e = .undefined ∨ (e = .assertCrCanceled ∧ s.CanceledCloser)) := by
  rw [switch]
  split
  · exact .inl rfl
  rename_i c rest hr
  have hin : c ∈ s.ready := by rw [hr]; exact .head _
  have hlt := h.ready_lt c hin
  have hpend : ∀ {op f}, (s.crs c).frame = some (op, f) → s.Pending c op f := fun hf =>
    h.toMid.pending hlt hf (by rw [hp]; simp)
  simp only
  split
  · exact .inl rfl
  · exact .inl rfl
  · -- `dill_cr_close` goes on
    rename_i op b x old it hf
    obtain ⟨hid, ho⟩ := (hpend hf).outcome hin
    obtain ⟨j, rfl, hj, hof⟩ := h.frames.logged c op _ hf (by simp)
    split
    · rename_i hc
      exact .inr ⟨rfl, c, rest, j.op, b, x, old, it, hr, hf, hc.2⟩
    rename_i hc
    have herr : (s.crs c).err = .ok := ho.resolve_right fun he => hc ⟨hid, he⟩
    rw [if_neg (by simp [hid, herr])]
    have hm : Micro l .idle s (.closing j b x old (after it (s.bundles b).crs)) (s.popped c rest) :=
      .poppedClose hp hr hf hj hof herr
    have hit : it < s.ncrs := by
      by_contra hge
      have hd := h.frames.closed c hin j.op b x old it hf herr
      rw [h.fresh it (not_lt.1 hge)] at hd
      cases hd
    refine ((freeCr_post (s := s.popped c rest) hit).mono (fun _ => id) (fun _ => .inl)).bind
      fun s₁ hq => ?_
    have hm₁ : Micro l (.closing j b x old (after it (s.bundles b).crs)) (s.popped c rest)
        (.closing j b x old (after it (s.bundles b).crs)) s₁ := .quiet hq
    have hcrs : (s₁.bundles b).crs = (s.bundles b).crs := hq.keepsFrames.crs b
    rw [hcrs]
    exact (closeCrs_post (l := l) _ ((h.micro hm).micro hm₁)).mono
      (fun _ hm₂ => .cons hm (.cons hm₁ hm₂)) fun _ => .inl
  · -- `dill_bundle_wait` goes on
    rename_i op b hf
    have ho := (hpend hf).outcome hin
    obtain ⟨j, rfl, hj, hof⟩ := h.frames.logged c op _ hf (by simp)
    split
    · exact .inl rfl
    have hres : ¬(0 ≤ (s.crs c).id ∧ (s.crs c).id ≠ 1 ∧ (s.crs c).id ≠ 0) := by
      rcases ho with ⟨hid, -⟩ | ⟨cl, rfl | rfl, hid, -⟩ <;> rw [hid] <;> simp
    rw [if_neg hres]
    refine .cons (.poppedWait hp hr hf hj hof) (Micro.ret ?_ (Frame.Of.closes hof (by simp))).one
    cases hcall : j.call <;> rw [hcall] at hof <;> first | rfl | exact hof.elim
  · -- any other call returns
    rename_i op f hne hnc hnw hf
    have hfe : f ≠ .epilogue := hne
    obtain ⟨j, rfl, hj, hof⟩ := h.frames.logged c op f hf hfe
    refine .cons (.popped hp hr hf hj hof hnw hnc) (Micro.ret ?_ (Frame.Of.closes hof hnc)).one
    exact Frame.verdict_result hof ((hpend hf).outcome hin)

/-! ## Steps -/

theorem doCall_post (h : Good (.busy j none) s) (hn : s.nops = j.op + 1)
    (hobjs : j.objs = j.call.handles.map s.handles) :
    Post (s.doCall j.op j.call) (ChanStep j s)
      (fun e => e = .stuck ∨ e = .undefined ∨ e = .assertHalfchanClose) := by
  obtain ⟨op, call, objs⟩ := j
  simp only at hobjs
  cases call with
  | bundle mem x =>
    refine ((bundleMake_post mem x).mono (fun _ => id) (fun _ => .inl)).bind fun r hr => ?_
    rcases hr with ⟨rfl, -⟩ | ⟨rfl, -⟩
    · exact .ret rfl rfl
    · exact .silent (.cons (.bundle mem x) (Micro.ret rfl rfl).one)
  | go bndl mem stack x =>
    exact (prologue_post h rfl).mono (fun _ => .silent) fun _ he => he.imp id .inl
  | yield => exact .silent (yield_micros rfl)
  | msleep d => exact .silent (msleep_micros h hn rfl)
  | fdwait sd fd d ctl => exact .silent (fdwait_micros h hn rfl)
  | fdclean fd => exact (fdclean_post rfl).mono (fun _ => .silent) fun _ => .inr ∘ .inl
  | chmake h₀ h₁ => exact (chmake_post rfl).mono (fun _ => .silent) fun _ => .inl
  | chsend x val len d =>
    exact (chanOp_post h hn d rfl hobjs trivial fun _ _ => rfl).mono (fun _ => id)
      fun _ => False.elim
  | chrecv x val len d =>
    exact (chanOp_post h hn d rfl hobjs trivial fun _ _ => rfl).mono (fun _ => id)
      fun _ => False.elim
  | choose cls d => exact (choose_post h hn rfl hobjs).mono (fun _ => id) fun _ => False.elim
  | chdone x => exact (chdone_post h rfl).mono (fun _ => .silent) fun _ => False.elim
  | bundleWait x d => exact .silent (bundleWait_micros h hn rfl hobjs)
  | hmake valid x =>
    rw [doCall]
    split
    · exact .ret rfl rfl
    · refine ((hmake_post x .user).mono (fun _ => id) (fun _ => .inl)).bind fun r hr => ?_
      rcases hr with ⟨rfl, -⟩ | ⟨rfl, -⟩
      · exact .ret rfl rfl
      · exact .silent (.cons (.quiet (quiet_setHandle x (.inr rfl))) (Micro.ret rfl rfl).one)
  | hclose x =>
    exact (hclose_post h rfl hobjs).mono (fun _ => .silent) fun _ => .inr

/-- The call as it is entered in state `s`. -/
def job (s : Ctx) (c : Call) : Job := ⟨s.nops, c, c.handles.map s.handles⟩

theorem Good.enter_job (h : Good .idle s) (hu : s.phase = .user) (c : Call) :
    Good (.busy (s.job c) none) (s.enter c) := h.enter hu c

/-- What one action comes to. -/
inductive Moves (s : Ctx) : Act → Ctx → Prop
  | call {c : Call} {s' : Ctx} (hu : s.phase = .user) (h : ChanStep (s.job c) (s.enter c) s') :
      Moves s (.call c) s'
  | write (a : Addr) (x : UInt8) : Moves s (.write a x) { s with mem := Function.update s.mem a x }
  | poll {s' : Ctx} (nw : ℤ) (answers : List PollAnswer) (h : Micros false .idle s .idle s')
      (hp : s'.phase = .wait) : Moves s (.poll nw answers) { s' with phase := .switch }
  | hcloseEnd {s' : Ctx} (h : Micros false .idle s .idle s') : Moves s .hcloseEnd s'
  | exit {s' : Ctx} (h : Micros false .idle s .idle s') : Moves s .exit s'
  | switch {s' : Ctx} (h : Micros false .idle s .idle s') : Moves s .switch s'

/-- Why an action can stop the run. -/
inductive Stops (s : Ctx) : Act → Stop → Prop
  | stuck (a : Act) : Stops s a .stuck
  | undefined (a : Act) : Stops s a .undefined
  | halfchanClose (c : Call) : Stops s (.call c) .assertHalfchanClose
  | docancel (h : s.CloserReady ∨ s.WaiterReady) : Stops s .exit .assertDocancel
  | crCanceled (h : s.CanceledCloser) : Stops s .switch .assertCrCanceled

/-- **Every action is a sequence of moves, or stops for one of the listed reasons.** -/
theorem step_post (h : Good .idle s) (a : Act) : Post (s.step a) (Moves s a) (Stops s a) := by
  cases a with
  | call c =>
    rw [step]
    split
    · rename_i hu
      refine (doCall_post (h.enter_job hu c) rfl rfl).mono (fun _ => .call hu) ?_
      rintro e (rfl | rfl | rfl)
      exacts [.stuck _, .undefined _, .halfchanClose c]
    · exact .stuck _
  | write a x =>
    rw [step]
    split
    · exact .write a x
    · exact .stuck _
  | hcloseEnd =>
    rw [step]
    split
    · rename_i hu
      refine (hcloseEnd_post h hu).mono (fun _ => .hcloseEnd) ?_
      rintro e rfl
      exact .stuck _
    · exact .stuck _
  | exit =>
    rw [step]
    split
    · rename_i hu
      refine (epilogue_post h hu.1).mono (fun _ => .exit) ?_
      rintro e (rfl | ⟨rfl, he⟩)
      exacts [.undefined _, .docancel he]
    · exact .stuck _
  | poll nw answers =>
    rw [step]
    split
    · rename_i hp
      refine (poll_post (l := false) h hp nw answers).mono ?_ ?_
      · rintro _ ⟨s₁, hm, hp₁, rfl⟩
        exact .poll nw answers hm hp₁
      · rintro e rfl
        exact .stuck _
    · exact .stuck _
  | switch =>
    rw [step]
    split
    · rename_i hp
      refine (switch_post h hp).mono (fun _ => .switch) ?_
      rintro e (rfl | ⟨rfl, he⟩)
      exacts [.undefined _, .crCanceled he]
    · exact .stuck _

/-- What a property of the moves must survive besides the moves, in one action: recording a call,
a store of the user, and the end of the poll. -/
structure Outer (I : Cur → Ctx → Prop) : Prop where
  enter : ∀ s c, Good .idle s → s.phase = .user → I .idle s → I (.busy (s.job c) none) (s.enter c)
  write : ∀ s a x, I .idle s → I .idle { s with mem := Function.update s.mem a x }
  endPoll : ∀ s, Good .idle s → s.phase = .wait → I .idle s → I .idle { s with phase := .switch }

/-- The rule for one action: `I` holds at the start, is kept by the moves, and gives `J` at the
end. -/
theorem Moves.post {I : Cur → Ctx → Prop} {J : Ctx → Prop}
    (hI : ∀ l k s k' s', Good k s → I k s → Micro l k s k' s' → I k' s') {a : Act}
    (h : Moves s a s') (hg : Good .idle s) (hs : I .idle s)
    (henter : ∀ c, a = .call c → s.phase = .user → I (.busy (s.job c) none) (s.enter c))
    (hwrite : ∀ x y, a = .write x y → J { s with mem := Function.update s.mem x y })
    (hend : ∀ s, I .idle s → J s)
    (hpoll : ∀ s, Good .idle s → s.phase = .wait → I .idle s → J { s with phase := .switch }) :
    J s' := by
  have hmicros : ∀ {l k s k' s'}, Micros l k s k' s' → Good k s → I k s → I k' s' :=
    fun hm hg hs => (hm.keeps (I := fun k s => Good k s ∧ I k s)
      (fun k s k' s' hk hm => ⟨hk.1.micro hm, hI _ k s k' s' hk.1 hk.2 hm⟩) ⟨hg, hs⟩).2
  cases h with
  | call hu h => exact hend _ (hmicros h.micros (hg.enter_job hu _) (henter _ rfl hu))
  | write a x => exact hwrite a x rfl
  | poll nw answers hm hp => exact hpoll _ (hg.micros hm) hp (hmicros hm hg hs)
  | hcloseEnd hm => exact hend _ (hmicros hm hg hs)
  | exit hm => exact hend _ (hmicros hm hg hs)
  | switch hm => exact hend _ (hmicros hm hg hs)

/-- A property that every move keeps, and that survives the rest, is kept by every action. -/
theorem Moves.keeps {I : Cur → Ctx → Prop} (ho : Outer I)
    (hI : ∀ l k s k' s', Good k s → I k s → Micro l k s k' s' → I k' s') {a : Act}
    (h : Moves s a s') (hg : Good .idle s) (hs : I .idle s) : I .idle s' :=
  h.post hI hg hs (fun c _ hu => ho.enter s c hg hu hs) (fun x y _ => ho.write s x y hs)
    (fun _ h => h) fun s hg hp h => ho.endPoll s hg hp h

theorem outer_good : Outer Good where
  enter _ c hg hu _ := hg.enter_job hu c
  write _ a x hg := hg.write a x
  endPoll _ hg hp _ := hg.endPoll hp

theorem Good.step {a : Act} (h : Good .idle s) (hs : s.step a = .ok s') : Good .idle s' :=
  ((step_post h a).of_ok hs).keeps outer_good (fun _ _ _ _ _ hg _ hm => hg.micro hm) h h

end Ctx

open Ctx

/-- The rule for invariants of all runs: a property of the moves holds in every reachable
state. -/
theorem Reachable.invariant {I : Cur → Ctx → Prop} (h0 : ∀ s, s.IsInit → I .idle s)
    (ho : Outer I) (hI : ∀ l k s k' s', Good k s → I k s → Micro l k s k' s' → I k' s') {s : Ctx}
    (h : Reachable s) : Good .idle s ∧ I .idle s :=
  Reach.invariant (I := fun s => Good .idle s ∧ I .idle s) (fun s hs => ⟨Good.init hs, h0 s hs⟩)
    (fun _ a _ hi _ hs => ⟨hi.1.step hs, ((step_post hi.1 a).of_ok hs).keeps ho hI hi.1 hi.2⟩) h

/-- **The invariant of the moves holds in every reachable state.** -/
theorem Reachable.good {s : Ctx} (h : Reachable s) : Good .idle s :=
  Reach.invariant (fun _ => Good.init) (fun _ _ _ hi _ hs => hi.step hs) h

end Libdill.Sched
