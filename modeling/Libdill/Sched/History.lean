import Libdill.Sched.Refine

/-!
# The history of the channel operations

The log records the calls, what they returned and the rendezvous. `Hist` is the invariant that
ties it to the state: a queued clause belongs to a call that has been made and has not returned,
the queues are in the order of the calls, every rendezvous is between two operations that asked
for it, no operation takes part in two, and an operation reports a rendezvous exactly if it took
part in one. The last point is followed from the rendezvous to the return: the party that made it
returns at once, the other one is in the ready queue with the result until it runs.
-/

namespace Libdill.Sched

open Foundations

/-! ## Reading the log -/

/-- The side an operation takes in a rendezvous. -/
def Meeting.party (m : Meeting) : Side → Party
  | .out => m.snd
  | .inn => m.rcv

/-- The rendezvous in a log. -/
def meets (log : List Event) : List Meeting :=
  log.filterMap fun
    | .meet m => some m
    | _ => none

/-- The calls that took part in them. -/
def partyOps (log : List Event) : List ℕ := (meets log).flatMap fun m => [m.snd.op, m.rcv.op]

@[simp] theorem meets_append (l₁ l₂ : List Event) : meets (l₁ ++ l₂) = meets l₁ ++ meets l₂ :=
  List.filterMap_append

@[simp] theorem meets_call (op : ℕ) (c : CrId) (x : Call) (objs : List (Option Obj)) :
    meets [.call op c x objs] = [] := rfl

@[simp] theorem meets_ret (op : ℕ) (v : ℤ) (e : Errno) : meets [.ret op v e] = [] := rfl

@[simp] theorem meets_meet (m : Meeting) : meets [.meet m] = [m] := rfl

theorem mem_meets {log : List Event} {m : Meeting} : m ∈ meets log ↔ .meet m ∈ log := by
  rw [meets, List.mem_filterMap]
  constructor
  · rintro ⟨e, he, hm⟩
    cases e with
    | meet m' => cases hm; exact he
    | call _ _ _ _ => cases hm
    | ret _ _ _ => cases hm
  · exact fun h => ⟨_, h, rfl⟩

theorem mem_partyOps {log : List Event} {op : ℕ} :
    op ∈ partyOps log ↔ ∃ m sd, .meet m ∈ log ∧ (m.party sd).op = op := by
  rw [partyOps, List.mem_flatMap]
  constructor
  · rintro ⟨m, hm, ho⟩
    simp only [List.mem_cons, List.not_mem_nil, or_false] at ho
    rcases ho with rfl | rfl
    · exact ⟨m, .out, mem_meets.1 hm, rfl⟩
    · exact ⟨m, .inn, mem_meets.1 hm, rfl⟩
  · rintro ⟨m, sd, hm, rfl⟩
    refine ⟨m, mem_meets.2 hm, ?_⟩
    cases sd <;> simp [Meeting.party]

/-- The calls that do channel operations. -/
def Call.isChan : Call → Bool
  | .chsend .. => true
  | .chrecv .. => true
  | .choose .. => true
  | _ => false

theorem Call.isChan_of_verdict {c : Call} {v : ℤ} {e : Errno} {x : ℕ × Errno}
    (h : c.verdict v e = some x) : c.isChan = true := by
  cases c <;> first | rfl | cases h

theorem Call.isChan_of_chanArg {c : Call} {objs : List (Option Obj)} {i : ℕ} {a : ChanArg}
    (h : c.chanArg objs i = some a) : c.isChan = true := by
  cases c <;> first | rfl | simp [chanArg, chanClauses] at h

/-- The call the running coroutine is in. -/
def Cur.job : Cur → Option Job
  | .idle => none
  | .busy j _ => some j
  | .waiting j _ => some j
  | .terming j _ => some j
  | .closing j _ _ _ _ => some j
  | .exiting => none

/-- The rendezvous it has had there. -/
def Cur.met : Cur → Option (ℕ × Errno)
  | .busy _ m => m
  | _ => none

namespace Ctx

/-- The call has returned. -/
def Returned (s : Ctx) (op : ℕ) (v : ℤ) (e : Errno) : Prop := .ret op v e ∈ s.log

/-- Operation `i` of the call has taken part in a rendezvous. -/
def Met (s : Ctx) (op i : ℕ) (err : Errno) : Prop :=
  ∃ m sd, .meet m ∈ s.log ∧ m.party sd = ⟨op, i⟩ ∧ m.err = err

/-- The two calls asked for the rendezvous: a send and a receive on the same half-channel, of the
length that was transferred, or of different lengths. -/
def MeetOk (s : Ctx) (m : Meeting) : Prop :=
  ∃ c j c' j' n n', s.Called c j ∧ j.op = m.snd.op ∧
    j.call.chanArg j.objs m.snd.clause = some ⟨.out, m.half, m.src, n⟩ ∧
    s.Called c' j' ∧ j'.op = m.rcv.op ∧
    j'.call.chanArg j'.objs m.rcv.clause = some ⟨.inn, m.half, m.dst, n'⟩ ∧
    ((m.err = .ok ∧ n = m.len ∧ n' = m.len) ∨ (m.err = .EMSGSIZE ∧ n ≠ n'))

/-- Queued earlier: by an earlier call, or by an earlier clause of the same call. -/
def Earlier (e e' : ChanClause) : Prop := e.op < e'.op ∨ (e.op = e'.op ∧ e.id < e'.id)

/-- The invariant of the history. -/
structure Hist (k : Cur) (s : Ctx) : Prop where
  op_lt : ∀ c j, s.Called c j → j.op < s.nops
  ret_lt : ∀ op v e, s.Returned op v e → op < s.nops
  called_unique : ∀ c j c' j', s.Called c j → s.Called c' j' → j.op = j'.op → c = c' ∧ j = j'
  waiting_last : ∀ j f, k = .waiting j f → s.nops = j.op + 1
  ret_unique : ∀ c j v e v' e', s.Called c j → j.call.isChan = true → s.Returned j.op v e →
    s.Returned j.op v' e' → v = v' ∧ e = e'
  frame_open : ∀ c j f, (s.crs c).frame = some (j.op, f) → f ≠ .epilogue → s.Called c j →
    j.call.isChan = true → ∀ v e, ¬s.Returned j.op v e
  cur_open : ∀ j, k.job = some j → j.call.isChan = true → ∀ v e, ¬s.Returned j.op v e
  item : ∀ x sd, ∀ e ∈ (s.half x).queue sd, ∃ j, j.op = e.op ∧ s.Called e.cr j ∧
    j.call.chanArg j.objs e.id = some ⟨sd, x, e.val, e.len⟩ ∧
    ((∃ f, f ≠ .epilogue ∧ (s.crs e.cr).frame = some (e.op, f)) ∨ (e.cr = s.r ∧ k.job = some j))
  sorted : ∀ x sd, ((s.half x).queue sd).Pairwise Earlier
  meet_ok : ∀ m, .meet m ∈ s.log → s.MeetOk m
  meet_nodup : (partyOps s.log).Nodup
  meet_status : ∀ op i err, s.Met op i err →
    (∃ c j v e, s.Called c j ∧ j.op = op ∧ s.Returned op v e ∧
      j.call.verdict v e = some (i, err)) ∨
    (∃ c f, c ∈ s.ready ∧ f ≠ .epilogue ∧ (s.crs c).frame = some (op, f) ∧
      f.verdict (s.crs c).id (s.crs c).err = some (i, err)) ∨
    ∃ j, k.job = some j ∧ j.op = op ∧ k.met = some (i, err)
  ret_met : ∀ c j v e i err, s.Called c j → s.Returned j.op v e →
    j.call.verdict v e = some (i, err) → s.Met j.op i err
  ready_met : ∀ c ∈ s.ready, ∀ op f i err, (s.crs c).frame = some (op, f) →
    f.verdict (s.crs c).id (s.crs c).err = some (i, err) → s.Met op i err
  cur_met : ∀ j i err, k.job = some j → k.met = some (i, err) → s.Met j.op i err

variable {k k' : Cur} {s s' : Ctx} {c : CrId} {id : ℤ} {err : Errno} {op i : ℕ} {f : Frame}
  {j : Job}

/-! ## Changes that the history does not notice -/

/-- The two states agree on what the history is about; clauses may leave the queues. -/
structure SameHist (s s' : Ctx) : Prop where
  log : s'.log = s.log
  nops : s'.nops = s.nops
  frame : ∀ c, (s'.crs c).frame = (s.crs c).frame
  ready : ∀ c, c ∈ s'.ready ↔ c ∈ s.ready
  id : ∀ c, c ∈ s.ready → (s'.crs c).id = (s.crs c).id
  err : ∀ c, c ∈ s.ready → (s'.crs c).err = (s.crs c).err
  queue : ∀ x sd, ((s'.half x).queue sd).Sublist ((s.half x).queue sd)

/-- The place in the code may change with it, if no clause is queued for a call that is left. -/
theorem Hist.congr (h : Hist k s) (e : SameHist s s')
    (hw : ∀ j f, k' = .waiting j f → s'.nops = j.op + 1)
    (ho : ∀ j, k'.job = some j → k.job = some j ∨ j.call.isChan = false)
    (hi : (∀ j, k.job = some j → k'.job = some j ∧ s'.r = s.r) ∨
      ∀ x sd, ∀ e ∈ (s.half x).queue sd, e.cr ≠ s.r)
    (hm : k'.met = k.met) (hmj : k.met ≠ none → k'.job = k.job) : Hist k' s' := by
  have hcalled : ∀ c j, s'.Called c j ↔ s.Called c j := fun c j => by rw [Called, e.log]; rfl
  have hret : ∀ op v x, s'.Returned op v x ↔ s.Returned op v x := fun op v x => by
    rw [Returned, e.log]; rfl
  have hmet : ∀ op i x, s'.Met op i x ↔ s.Met op i x := fun op i x => by
    unfold Met; rw [e.log]
  refine ⟨?_, ?_, ?_, hw, ?_, ?_, ?_, ?_, ?_, ?_, ?_, ?_, ?_, ?_, ?_⟩
  · intro c j hj
    rw [e.nops]
    exact h.op_lt c j ((hcalled c j).1 hj)
  · intro op v x hx
    rw [e.nops]
    exact h.ret_lt op v x ((hret _ _ _).1 hx)
  · intro c j c' j' hj hj'
    exact h.called_unique c j c' j' ((hcalled c j).1 hj) ((hcalled c' j').1 hj')
  · intro c j v x v' x' hj hc hr hr'
    exact h.ret_unique c j v x v' x' ((hcalled c j).1 hj) hc ((hret _ _ _).1 hr) ((hret _ _ _).1 hr')
  · intro c j f hf hne hj hc v x hr
    rw [e.frame] at hf
    exact h.frame_open c j f hf hne ((hcalled c j).1 hj) hc v x ((hret _ _ _).1 hr)
  · intro j hj hc v x hr
    rcases ho j hj with hj | hn
    · exact h.cur_open j hj hc v x ((hret _ _ _).1 hr)
    · rw [hc] at hn
      cases hn
  · intro x sd y hy
    have hy := (e.queue x sd).subset hy
    obtain ⟨j, hop, hj, ha, hfr⟩ := h.item x sd y hy
    refine ⟨j, hop, (hcalled _ _).2 hj, ha, ?_⟩
    rw [e.frame]
    rcases hfr with hfr | ⟨hr, hk⟩
    · exact .inl hfr
    · rcases hi with hi | hi
      · exact .inr ⟨hr.trans (hi j hk).2.symm, (hi j hk).1⟩
      · exact absurd hr (hi x sd y hy)
  · exact fun x sd => (h.sorted x sd).sublist (e.queue x sd)
  · intro m hmem
    rw [e.log] at hmem
    unfold MeetOk
    simp only [hcalled]
    exact h.meet_ok m hmem
  · rw [e.log]
    exact h.meet_nodup
  · intro op i er hx
    rcases h.meet_status op i er ((hmet _ _ _).1 hx) with ⟨c, j, v, x, hj, hop, hr, hv⟩ |
      ⟨c, f, hc, hne, hf, hv⟩ | ⟨j, hj, hop, hv⟩
    · exact .inl ⟨c, j, v, x, (hcalled _ _).2 hj, hop, (hret _ _ _).2 hr, hv⟩
    · exact .inr (.inl ⟨c, f, (e.ready c).2 hc, hne, by rw [e.frame, hf], by
        rw [e.id c hc, e.err c hc, hv]⟩)
    · exact .inr (.inr ⟨j, by rw [hmj (by rw [hv]; simp), hj], hop, by rw [hm, hv]⟩)
  · intro c j v x i er hj hr hv
    exact (hmet _ _ _).2 (h.ret_met c j v x i er ((hcalled _ _).1 hj) ((hret _ _ _).1 hr) hv)
  · intro c hc op f i er hf hv
    have hc := (e.ready c).1 hc
    rw [e.frame] at hf
    rw [e.id c hc, e.err c hc] at hv
    exact (hmet _ _ _).2 (h.ready_met c hc op f i er hf hv)
  · intro j i er hj hv
    rw [hm] at hv
    rw [hmj (by rw [hv]; simp)] at hj
    exact (hmet _ _ _).2 (h.cur_met j i er hj hv)

theorem SameHist.of_eq (hl : s'.log = s.log) (hn : s'.nops = s.nops) (hc : s'.crs = s.crs)
    (hr : s'.ready = s.ready) (hq : ∀ x sd, (s'.half x).queue sd = (s.half x).queue sd) :
    SameHist s s' := by
  refine ⟨hl, hn, ?_, ?_, ?_, ?_, ?_⟩
  · intro c; rw [hc]
  · intro c; rw [hr]
  · intro c _; rw [hc]
  · intro c _; rw [hc]
  · intro x sd; rw [hq]

theorem sameHist_updCr {g : Cr → Cr} (hg : ∀ x, (g x).frame = x.frame ∧ (g x).id = x.id ∧
    (g x).err = x.err) (s : Ctx) (c : CrId) : SameHist s (s.updCr c g) where
  log := rfl
  nops := rfl
  frame := updCr_proj Cr.frame (fun x => (hg x).1) s c
  ready _ := Iff.rfl
  id x _ := updCr_proj Cr.id (fun x => (hg x).2.1) s c x
  err x _ := updCr_proj Cr.err (fun x => (hg x).2.2) s c x
  queue _ _ := .refl _

theorem Quiet.sameHist (h : Quiet s s') : SameHist s s' where
  log := h.log
  nops := h.nops
  frame := h.proj Cr.frame fun _ _ _ => rfl
  ready c := by rw [h.ready]
  id c _ := h.proj Cr.id (fun _ _ _ => rfl) c
  err c _ := h.proj Cr.err (fun _ _ _ => rfl) c
  queue x sd := by
    obtain ⟨cl, hx⟩ := h.half x
    rw [hx]

theorem Registered.sameHist {e : Cancel} (h : Registered s s' i e) (hl : s'.log = s.log)
    (hn : s'.nops = s.nops) (hq : ∀ x sd, (s'.half x).queue sd = (s.half x).queue sd) :
    SameHist s s' where
  log := hl
  nops := hn
  frame := h.proj Cr.frame fun _ _ => rfl
  ready c := by rw [h.ready]
  id c _ := h.proj Cr.id (fun _ _ => rfl) c
  err c _ := h.proj Cr.err (fun _ _ => rfl) c
  queue x sd := by rw [hq]

/-- The running coroutine stays where it is. -/
theorem Hist.same (h : Hist k s) (e : SameHist s s') (hr : s'.r = s.r) : Hist k s' := by
  refine h.congr e ?_ (fun _ hj => .inl hj) (.inl fun _ hj => ⟨hj, hr⟩) rfl fun _ => rfl
  intro j f hk
  rw [e.nops]
  exact h.waiting_last j f hk

/-- It goes on in another place of the same call. -/
theorem Hist.cur_of (h : Hist k s) (hj : k'.job = k.job) (hm : k'.met = k.met)
    (hw : ∀ j f, k' = .waiting j f → s.nops = j.op + 1) : Hist k' s := by
  refine h.congr (.of_eq rfl rfl rfl rfl fun _ _ => rfl) hw ?_ (.inl fun j hk => ⟨?_, rfl⟩) hm
    fun _ => hj
  · intro j hk
    exact .inl (hj ▸ hk)
  · rw [hj, hk]

/-! ## Waking without a rendezvous -/

theorem Hist.wake (h : Hist k s) (hc : c ∉ s.ready)
    (hv : ∀ op f, (s.crs c).frame = some (op, f) → f.verdict id err = none) :
    Hist k (s.wake c id err) := by
  refine ⟨h.op_lt, h.ret_lt, h.called_unique, h.waiting_last, h.ret_unique, ?_, h.cur_open, ?_, ?_,
    h.meet_ok, h.meet_nodup, ?_, h.ret_met, ?_, h.cur_met⟩
  · intro c' j f hf
    rw [wake_frame] at hf
    exact h.frame_open c' j f hf
  · intro x sd e he
    rw [wake_queue] at he
    rw [wake_frame]
    exact h.item x sd e (List.mem_of_mem_filter he)
  · intro x sd
    rw [wake_queue]
    exact (h.sorted x sd).sublist List.filter_sublist
  · intro op i er hm
    rcases h.meet_status op i er hm with hr | ⟨c', f, hc', hne, hf, hv'⟩ | hk
    · exact .inl hr
    · have hcc : c' ≠ c := by rintro rfl; exact hc hc'
      refine .inr (.inl ⟨c', f, ?_, hne, ?_, ?_⟩)
      · rw [wake_ready]; exact List.mem_append_left _ hc'
      · rw [wake_frame]; exact hf
      · rw [wake_crs, if_neg hcc]; exact hv'
    · exact .inr (.inr hk)
  · intro c' hc' op f i er hf hv'
    rw [wake_frame] at hf
    rw [wake_crs] at hv'
    by_cases hcc : c' = c
    · rw [if_pos hcc] at hv'
      rw [hcc] at hf
      simp only at hv'
      rw [hv op f hf] at hv'
      cases hv'
    · rw [if_neg hcc] at hv'
      rw [wake_ready, List.mem_append, List.mem_singleton] at hc'
      exact h.ready_met c' (hc'.resolve_right hcc) op f i er hf hv'

/-- A clause that is not triggered by a rendezvous reports none. -/
theorem Frame.verdict_quiet {f : Frame} {e : Cancel} (ha : f.Allows ⟨i, e⟩) (he : e.Fires err)
    (hq : e.Quiet err) : f.verdict i err = none := by
  cases f with
  | chan sd =>
    rcases ha with ⟨x, hx⟩ | hx
    · cases hx
      rw [show err = .EPIPE from hq]
      rfl
    · cases hx
      rfl
  | choose n =>
    rcases ha with ⟨-, x, sd, hx⟩ | hx
    · simp only at hx
      subst hx
      rw [show err = .EPIPE from hq]
      simp [Frame.verdict]
    · cases hx
      simp [Frame.verdict]
  | _ => rfl

theorem Frame.verdict_neg (f : Frame) (err : Errno) : f.verdict (-1) err = none := by
  cases f <;> simp [Frame.verdict]

theorem Hist.trigger (h : Hist k s) (hg : Good k s) (hk : ∀ j f, k ≠ .waiting j f) {e : Cancel}
    (hl : s.Linked e c i) (he : e.Fires err) (hq : e.Quiet err) : Hist k (s.wake c i err) := by
  obtain ⟨-, op, f, hp, ha⟩ := hg.linked_pending hk hl
  refine h.wake (hg.linked e c i hl).2.1 fun op' f' hf => ?_
  rw [hp.frame] at hf
  cases hf
  exact Frame.verdict_quiet ha he hq

/-! ## Calls that come and go -/

/-- The running coroutine made the call it is in, and is not suspended. -/
theorem Good.job (hg : Good k s) (hj : k.job = some j) :
    s.Called s.r j ∧ (s.crs s.r).frame = none := by
  have hc := hg.cur
  cases k with
  | idle => cases hj
  | busy j' m => cases hj; exact ⟨Busy.called hc, (Busy.toRunning hc).frame⟩
  | waiting j' f => cases hj; exact ⟨Waiting.called hc, Waiting.frame hc⟩
  | terming j' ch => cases hj; exact ⟨Busy.called hc, (Busy.toRunning hc).frame⟩
  | closing j' b x old rest =>
    cases hj
    exact ⟨(Closing.toBusy hc).called, (Closing.toBusy hc).toRunning.frame⟩
  | exiting => cases hj

/-- No clause of a coroutine without clauses is queued. -/
theorem Core.no_item (h : s.Core) (hc : (s.crs c).clauses = []) (x : HalfRef) (sd : Side) :
    ∀ e ∈ (s.half x).queue sd, e.cr ≠ c := by
  rintro e he rfl
  have hm := (h.linked (.ch x sd) e.cr e.id ⟨e, he, rfl, rfl⟩).2.2
  rw [hc] at hm
  cases hm

theorem called_enter {x : Call} : (s.enter x).Called c j ↔ s.Called c j ∨ (c = s.r ∧ j = s.job x) := by
  simp only [Called, enter, List.mem_append, List.mem_singleton, Event.call.injEq, job]
  obtain ⟨op, call, objs⟩ := j
  constructor
  · rintro (h | ⟨h₁, h₂, h₃, h₄⟩)
    · exact .inl h
    · exact .inr ⟨h₂, by simp_all⟩
  · rintro (h | ⟨h₁, h₂⟩)
    · exact .inl h
    · cases h₂; exact .inr ⟨rfl, h₁, rfl, rfl⟩

theorem returned_enter {x : Call} {v : ℤ} {e : Errno} :
    (s.enter x).Returned op v e ↔ s.Returned op v e := by
  simp [Returned, enter]

theorem met_enter {x : Call} : (s.enter x).Met op i err ↔ s.Met op i err := by
  simp [Met, enter]

theorem Met.called (h : Hist k s) (hm : s.Met op i err) : ∃ c j, s.Called c j ∧ j.op = op := by
  obtain ⟨m, sd, hm, hp, -⟩ := hm
  obtain ⟨c, j, c', j', n, n', hc, hj, -, hc', hj', -⟩ := h.meet_ok m hm
  cases sd with
  | out => exact ⟨c, j, hc, by rw [hj]; exact congrArg Party.op hp⟩
  | inn => exact ⟨c', j', hc', by rw [hj']; exact congrArg Party.op hp⟩

theorem MeetOk.mono {m : Meeting} (h : s.MeetOk m) (hc : ∀ c j, s.Called c j → s'.Called c j) :
    s'.MeetOk m := by
  obtain ⟨c, j, c', j', n, n', h₁, h₂, h₃, h₄, h₅⟩ := h
  exact ⟨c, j, c', j', n, n', hc c j h₁, h₂, h₃, hc c' j' h₄, h₅⟩

theorem Hist.enter (h : Hist .idle s) (x : Call) : Hist (.busy (s.job x) none) (s.enter x) := by
  have hmono : ∀ c j, s.Called c j → (s.enter x).Called c j := fun c j hj => called_enter.2 (.inl hj)
  have hold : ∀ {c j}, (s.enter x).Called c j → j.op ≠ s.nops → s.Called c j := fun hj hne =>
    (called_enter.1 hj).resolve_right fun he => hne (by rw [he.2]; rfl)
  refine ⟨?_, ?_, ?_, by simp, ?_, ?_, ?_, ?_, h.sorted, ?_, ?_, ?_, ?_, ?_, ?_⟩
  · intro c j hj
    change j.op < s.nops + 1
    rcases called_enter.1 hj with hj | ⟨-, rfl⟩
    · exact Nat.lt_succ_of_lt (h.op_lt c j hj)
    · exact Nat.lt_succ_self _
  · intro op v e hr
    exact Nat.lt_succ_of_lt (h.ret_lt op v e (returned_enter.1 hr))
  · intro c j c' j' hj hj' heq
    rcases called_enter.1 hj with hj | ⟨rfl, rfl⟩ <;> rcases called_enter.1 hj' with hj' | ⟨rfl, rfl⟩
    · exact h.called_unique c j c' j' hj hj' heq
    · exact absurd heq (h.op_lt c j hj).ne
    · exact absurd heq (h.op_lt c' j' hj').ne'
    · exact ⟨rfl, rfl⟩
  · intro c j v e v' e' hj hc hr hr'
    rw [returned_enter] at hr hr'
    exact h.ret_unique c j v e v' e' (hold hj (h.ret_lt _ _ _ hr).ne) hc hr hr'
  · intro c j f hf hne hj hc v e hr
    rw [returned_enter] at hr
    exact h.frame_open c j f hf hne (hold hj (h.ret_lt _ _ _ hr).ne) hc v e hr
  · intro j hj hc v e hr
    cases hj
    rw [returned_enter] at hr
    exact lt_irrefl _ (h.ret_lt _ _ _ hr)
  · intro y sd e he
    obtain ⟨j, hop, hj, ha, hfr | ⟨-, hk⟩⟩ := h.item y sd e he
    · exact ⟨j, hop, hmono _ _ hj, ha, .inl hfr⟩
    · cases hk
  · intro m hm
    have hm : .meet m ∈ s.log := by simpa [Ctx.enter] using hm
    exact (h.meet_ok m hm).mono hmono
  · have : partyOps (s.enter x).log = partyOps s.log := by simp [partyOps, Ctx.enter]
    rw [this]
    exact h.meet_nodup
  · intro op i er hm
    rw [met_enter] at hm
    rcases h.meet_status op i er hm with ⟨c, j, v, e, hj, hop, hr, hv⟩ | hready | ⟨j, hj, -⟩
    · exact .inl ⟨c, j, v, e, hmono _ _ hj, hop, returned_enter.2 hr, hv⟩
    · exact .inr (.inl hready)
    · cases hj
  · intro c j v e i er hj hr hv
    rw [returned_enter] at hr
    exact met_enter.2 (h.ret_met c j v e i er (hold hj (h.ret_lt _ _ _ hr).ne) hr hv)
  · intro c hc op f i er hf hv
    exact met_enter.2 (h.ready_met c hc op f i er hf hv)
  · intro j i er _ hv
    cases hv

theorem returned_ret {v v' : ℤ} {e e' : Errno} {op' : ℕ} :
    (s.ret op v e).Returned op' v' e' ↔ s.Returned op' v' e' ∨ (op' = op ∧ v' = v ∧ e' = e) := by
  simp [Returned, Ctx.ret]

theorem met_ret {v : ℤ} {e : Errno} {op' : ℕ} :
    (s.ret op v e).Met op' i err ↔ s.Met op' i err := by
  simp [Met, Ctx.ret]

theorem called_ret {v : ℤ} {e : Errno} : (s.ret op v e).Called c j ↔ s.Called c j := by
  simp [Called, Ctx.ret]

theorem Hist.ret {m : Option (ℕ × Errno)} {v : ℤ} {e : Errno} (h : Hist (.busy j m) s)
    (hg : Good (.busy j m) s) (hv : j.call.verdict v e = m) : Hist .idle (s.ret j.op v e) := by
  have hb : s.Busy j := hg.cur
  have hno := hg.toCore.no_item hb.clauses
  -- the call that returns is the one the running coroutine is in
  have huniq : ∀ {c j'}, s.Called c j' → j'.op = j.op → c = s.r ∧ j' = j := fun hj' heq =>
    h.called_unique _ _ _ _ hj' hb.called heq
  have hopen : ∀ {v' e'}, j.call.isChan = true → ¬s.Returned j.op v' e' := fun hc =>
    h.cur_open j rfl hc _ _
  refine ⟨?_, ?_, ?_, by simp, ?_, ?_, by simp [Cur.job], ?_, h.sorted, ?_, ?_, ?_, ?_, ?_,
    by simp [Cur.job]⟩
  · exact fun c j' hj' => h.op_lt c j' (called_ret.1 hj')
  · intro op v' e' hr
    rcases returned_ret.1 hr with hr | ⟨rfl, -⟩
    · exact h.ret_lt op v' e' hr
    · exact h.op_lt _ j hb.called
  · exact fun c j' c' j'' hj' hj'' =>
      h.called_unique c j' c' j'' (called_ret.1 hj') (called_ret.1 hj'')
  · intro c j' v₁ e₁ v₂ e₂ hj' hc hr₁ hr₂
    rw [called_ret] at hj'
    rw [returned_ret] at hr₁ hr₂
    rcases hr₁ with hr₁ | ⟨hop₁, rfl, rfl⟩ <;> rcases hr₂ with hr₂ | ⟨hop₂, rfl, rfl⟩
    · exact h.ret_unique c j' v₁ e₁ v₂ e₂ hj' hc hr₁ hr₂
    · obtain ⟨-, rfl⟩ := huniq hj' hop₂
      exact absurd hr₁ (hopen hc)
    · obtain ⟨-, rfl⟩ := huniq hj' hop₁
      exact absurd hr₂ (hopen hc)
    · exact ⟨rfl, rfl⟩
  · intro c j' f hf hne hj' hc v' e' hr
    rw [called_ret] at hj'
    rcases returned_ret.1 hr with hr | ⟨hop, -⟩
    · exact h.frame_open c j' f hf hne hj' hc v' e' hr
    · obtain ⟨rfl, rfl⟩ := huniq hj' hop
      have hf : (s.crs s.r).frame = some (j'.op, f) := hf
      rw [hb.frame] at hf
      cases hf
  · intro x sd y hy
    obtain ⟨j', hop, hj', ha, hfr | ⟨hr, -⟩⟩ := h.item x sd y hy
    · exact ⟨j', hop, called_ret.2 hj', ha, .inl hfr⟩
    · exact absurd hr (hno x sd y hy)
  · intro m hm
    have hm : .meet m ∈ s.log := by simpa [Ctx.ret] using hm
    exact (h.meet_ok m hm).mono fun _ _ => called_ret.2
  · have : partyOps (s.ret j.op v e).log = partyOps s.log := by simp [partyOps, Ctx.ret]
    rw [this]
    exact h.meet_nodup
  · intro op i er hm
    rw [met_ret] at hm
    rcases h.meet_status op i er hm with ⟨c, j', v', e', hj', hop, hr, hv'⟩ | hready |
      ⟨j', hj', hop, hm'⟩
    · exact .inl ⟨c, j', v', e', called_ret.2 hj', hop, returned_ret.2 (.inl hr), hv'⟩
    · exact .inr (.inl hready)
    · cases hj'
      exact .inl ⟨s.r, j, v, e, called_ret.2 hb.called, hop, returned_ret.2 (.inr ⟨hop.symm, rfl, rfl⟩),
        hv.trans hm'⟩
  · intro c j' v' e' i er hj' hr hv'
    rw [called_ret] at hj'
    rw [met_ret]
    rcases returned_ret.1 hr with hr | ⟨hop, rfl, rfl⟩
    · exact h.ret_met c j' v' e' i er hj' hr hv'
    · obtain ⟨-, rfl⟩ := huniq hj' hop
      exact h.cur_met j' i er rfl (hv.symm.trans hv')
  · intro c hc op f i er hf hv'
    exact met_ret.2 (h.ready_met c hc op f i er hf hv')

/-! ## Suspending and resuming -/

theorem Hist.block (h : Hist k s) (hr : (s.crs s.r).frame = none)
    (hcalled : ∀ j, k.job = some j → s.Called s.r j ∧ j.op = op ∧ f ≠ .epilogue)
    (hjob : f ≠ .epilogue → ∃ j, k.job = some j) (hm : k.met = none)
    (hv : s.r ∈ s.ready → f.verdict (s.crs s.r).id (s.crs s.r).err = none) :
    Hist .idle (s.block op f) := by
  have hne : ∀ {c x}, (s.crs c).frame = some x → c ≠ s.r := by
    rintro c x hf rfl
    rw [hr] at hf
    cases hf
  refine ⟨h.op_lt, h.ret_lt, h.called_unique, by simp, h.ret_unique, ?_, by simp [Cur.job], ?_,
    h.sorted, h.meet_ok, h.meet_nodup, ?_, h.ret_met, ?_, by simp [Cur.job]⟩
  · intro c j' f' hf hfe hj' hc
    rw [block_crs] at hf
    split at hf
    · rename_i hcr
      subst hcr
      obtain ⟨rfl, rfl⟩ := Prod.mk.inj (Option.some.inj hf)
      obtain ⟨j, hj⟩ := hjob hfe
      obtain ⟨hjc, hop, -⟩ := hcalled j hj
      obtain ⟨-, rfl⟩ := h.called_unique _ _ _ _ hj' hjc hop.symm
      exact h.cur_open j' hj hc
    · exact h.frame_open c j' f' hf hfe hj' hc
  · intro x sd e he
    obtain ⟨j, hop, hj, ha, ⟨f', hfe, hf⟩ | ⟨hcr, hk⟩⟩ := h.item x sd e he
    · refine ⟨j, hop, hj, ha, .inl ⟨f', hfe, ?_⟩⟩
      rw [block_crs, if_neg (hne hf)]
      exact hf
    · obtain ⟨-, hop', hfe⟩ := hcalled j hk
      refine ⟨j, hop, hj, ha, .inl ⟨f, hfe, ?_⟩⟩
      rw [block_crs, if_pos hcr, ← hop', hop]
  · intro op' i er hx
    rcases h.meet_status op' i er hx with hx | ⟨c, f', hc, hfe, hf, hv'⟩ | ⟨j, -, -, hm'⟩
    · exact .inl hx
    · refine .inr (.inl ⟨c, f', hc, hfe, ?_, ?_⟩)
      · rw [block_crs, if_neg (hne hf)]; exact hf
      · rw [block_crs, if_neg (hne hf)]; exact hv'
    · rw [hm] at hm'
      cases hm'
  · intro c hc op' f' i er hf hv'
    rw [block_proj Cr.id fun _ _ => rfl, block_proj Cr.err fun _ _ => rfl] at hv'
    rw [block_crs] at hf
    split at hf
    · rename_i hcr
      subst hcr
      obtain ⟨rfl, rfl⟩ := Prod.mk.inj (Option.some.inj hf)
      rw [hv hc] at hv'
      cases hv'
    · exact h.ready_met c hc op' f' i er hf hv'

theorem Hist.popped {rest : List CrId} (h : Hist .idle s) (hg : Good .idle s)
    (hr : s.ready = c :: rest) (hf : (s.crs c).frame = some (j.op, f)) (hne : f ≠ .epilogue)
    (hj : s.Called c j) :
    Hist (.busy j (f.verdict (s.crs c).id (s.crs c).err)) (s.popped c rest) := by
  have hin : c ∈ s.ready := by rw [hr]; exact .head _
  have hnd := hg.ready_nodup
  rw [hr, List.nodup_cons] at hnd
  have hno : ∀ x sd, ∀ e ∈ (s.half x).queue sd, e.cr ≠ c := by
    rintro x sd e he rfl
    exact (hg.linked (.ch x sd) e.cr e.id ⟨e, he, rfl, rfl⟩).2.1 hin
  refine ⟨h.op_lt, h.ret_lt, h.called_unique, by simp, h.ret_unique, ?_, ?_, ?_, h.sorted, h.meet_ok,
    h.meet_nodup, ?_, h.ret_met, ?_, ?_⟩
  · intro c' j' f' hf'
    rw [popped_crs] at hf'
    split at hf'
    · cases hf'
    · exact h.frame_open c' j' f' hf'
  · intro j' hj' hc
    cases hj'
    exact h.frame_open c j f hf hne hj hc
  · intro x sd e he
    obtain ⟨j', hop, hj', ha, hfr | ⟨-, hk⟩⟩ := h.item x sd e he
    · refine ⟨j', hop, hj', ha, .inl ?_⟩
      rw [popped_crs, if_neg (hno x sd e he)]
      exact hfr
    · cases hk
  · intro op i er hx
    rcases h.meet_status op i er hx with hx | ⟨c', f', hc', hfe, hf', hv'⟩ | ⟨j', hj', -⟩
    · exact .inl hx
    · by_cases hcc : c' = c
      · subst hcc
        rw [hf] at hf'
        obtain ⟨rfl, rfl⟩ := Prod.mk.inj (Option.some.inj hf')
        exact .inr (.inr ⟨j, rfl, rfl, hv'⟩)
      · rw [hr, List.mem_cons] at hc'
        refine .inr (.inl ⟨c', f', hc'.resolve_left hcc, hfe, ?_, ?_⟩)
        · rw [popped_crs, if_neg hcc]; exact hf'
        · rw [popped_crs, if_neg hcc]; exact hv'
    · cases hj'
  · intro c' hc' op f' i er hf' hv'
    have hc' : c' ∈ rest := hc'
    have hcc : c' ≠ c := by rintro rfl; exact hnd.1 hc'
    rw [popped_crs, if_neg hcc] at hf' hv'
    exact h.ready_met c' (by rw [hr]; exact .tail _ hc') op f' i er hf' hv'
  · intro j' i er hj' hv'
    cases hj'
    exact h.ready_met c hin j.op f i er hf hv'

/-! ## Queueing a clause -/

theorem Hist.enqueue {a : ChanArg} (h : Hist (.waiting j f) s) (hg : Good (.waiting j f) s)
    (ha : j.call.chanArg j.objs i = some a) (hlt : ∀ cl ∈ (s.crs s.r).clauses, cl.id < i) :
    Hist (.waiting j f) (s.enqueue j.op i a.sd a.half a.val a.len) := by
  have hc : s.Waiting j f := hg.cur
  have hreg := registered_enqueue s j.op i a.sd a.half a.val a.len
  have hframe := hreg.proj Cr.frame fun _ _ => rfl
  refine ⟨h.op_lt, h.ret_lt, h.called_unique, h.waiting_last, h.ret_unique, ?_, h.cur_open, ?_, ?_,
    h.meet_ok, h.meet_nodup, ?_, h.ret_met, ?_, h.cur_met⟩
  · intro c j' f' hf
    rw [hframe] at hf
    exact h.frame_open c j' f' hf
  · intro x sd e he
    rw [hframe]
    rw [enqueue_queue] at he
    split at he
    · rename_i hx
      rcases List.mem_append.1 he with he | he
      · exact h.item x sd e he
      · rw [List.mem_singleton.1 he, hx.1, hx.2]
        exact ⟨j, rfl, hc.called, ha, .inr ⟨rfl, rfl⟩⟩
    · exact h.item x sd e he
  · intro x sd
    rw [enqueue_queue]
    split
    · -- the new clause belongs to the last call, and has the largest number in it
      refine List.pairwise_append.2 ⟨h.sorted x sd, List.pairwise_singleton _ _, fun e he e' he' => ?_⟩
      rw [List.mem_singleton.1 he']
      obtain ⟨j', hop, hj', -, -⟩ := h.item x sd e he
      have hle : e.op < j.op + 1 := by
        rw [← h.waiting_last j f rfl, ← hop]
        exact h.op_lt _ _ hj'
      rcases Nat.lt_or_ge e.op j.op with hlt' | hge
      · exact .inl hlt'
      · have heq : e.op = j.op := by omega
        obtain ⟨hcr, -⟩ := h.called_unique _ _ _ _ hj' hc.called (hop.trans heq)
        have hmem := (hg.linked (.ch x sd) e.cr e.id ⟨e, he, rfl, rfl⟩).2.2
        rw [hcr] at hmem
        exact .inr ⟨heq, hlt _ hmem⟩
    · exact h.sorted x sd
  · intro op' i' er hx
    have hid := hreg.proj Cr.id fun _ _ => rfl
    have herr := hreg.proj Cr.err fun _ _ => rfl
    simp only [hframe, hid, herr]
    exact h.meet_status op' i' er hx
  · intro c hc' op' f' i' er hf hv
    rw [hframe] at hf
    rw [hreg.proj Cr.id fun _ _ => rfl, hreg.proj Cr.err fun _ _ => rfl] at hv
    exact h.ready_met c hc' op' f' i' er hf hv

/-! ## The rendezvous -/

theorem Frame.verdict_meet {f : Frame} {x : HalfRef} {sd : Side} (ha : f.Allows ⟨i, .ch x sd⟩)
    (he : err = .ok ∨ err = .EMSGSIZE) : f.verdict i err = some (i, err) := by
  cases f with
  | chan sd' =>
    rcases ha with ⟨y, hy⟩ | hy
    · cases hy
      simp [Frame.verdict, he]
    · cases hy
  | choose n =>
    rcases ha with ⟨hlt, -⟩ | hy
    · have hne : (i : ℤ) ≠ n := by
        have : i < n := hlt
        omega
      simp [Frame.verdict, he, hne]
    · cases hy
  | fdwait =>
    rcases ha with ⟨y, sd', hy⟩ | hy <;> cases hy
  | bundleWait b =>
    rcases ha with hy | hy <;> cases hy
  | msleep => cases ha
  | _ => exact ha.elim

section Meeting

variable (ch : HalfRef) (sd : Side) (op i : ℕ) (val : Addr) (len : ℕ) (c : ChanClause) (err : Errno)

theorem meeting_party : (meeting ch sd op i val len c err).party sd = ⟨op, i⟩ := by
  cases sd <;> rfl

theorem meeting_party_peer : (meeting ch sd op i val len c err).party sd.peer = ⟨c.op, c.id⟩ := by
  cases sd <;> rfl

@[simp] theorem meeting_err : (meeting ch sd op i val len c err).err = err := by
  cases sd <;> rfl

@[simp] theorem meeting_half : (meeting ch sd op i val len c err).half = ch := by
  cases sd <;> rfl

@[simp] theorem meeting_len : (meeting ch sd op i val len c err).len = len := by
  cases sd <;> rfl

end Meeting

theorem met_record {m : Meeting} :
    (s.record m).Met op i err ↔ s.Met op i err ∨ ∃ sd, m.party sd = ⟨op, i⟩ ∧ m.err = err := by
  simp only [Met, record, List.mem_append, List.mem_singleton, Event.meet.injEq]
  constructor
  · rintro ⟨m', sd, hm | rfl, h⟩
    · exact .inl ⟨m', sd, hm, h⟩
    · exact .inr ⟨sd, h⟩
  · rintro (⟨m', sd, hm, h⟩ | ⟨sd, h⟩)
    · exact ⟨m', sd, .inl hm, h⟩
    · exact ⟨m, sd, .inr rfl, h⟩

theorem called_record {m : Meeting} : (s.record m).Called c j ↔ s.Called c j := by
  simp [Called, record]

theorem returned_record {m : Meeting} {v : ℤ} {e : Errno} :
    (s.record m).Returned op v e ↔ s.Returned op v e := by
  simp [Returned, record]

/-- The call that made a queued clause, with the frame its coroutine is suspended in. -/
theorem Hist.queued {m : Option (ℕ × Errno)} (h : Hist (.busy j m) s) (hg : Good (.busy j m) s)
    {x : HalfRef} {sd : Side} {e : ChanClause} (he : e ∈ (s.half x).queue sd) :
    ∃ j' f, j'.op = e.op ∧ s.Called e.cr j' ∧ j'.call.chanArg j'.objs e.id = some ⟨sd, x, e.val, e.len⟩ ∧
      f ≠ .epilogue ∧ (s.crs e.cr).frame = some (e.op, f) ∧ f.Allows ⟨e.id, .ch x sd⟩ ∧
      e.cr ∉ s.ready ∧ e.cr ≠ s.r := by
  have hb : s.Busy j := hg.cur
  have hl : s.Linked (.ch x sd) e.cr e.id := ⟨e, he, rfl, rfl⟩
  obtain ⟨hne, op, f, hp, ha⟩ := hg.linked_pending (by simp) hl
  obtain ⟨j', hop, hj', hc, ⟨f', hfe, hf⟩ | ⟨hr, -⟩⟩ := h.item x sd e he
  · have hff := hf.symm.trans hp.frame
    cases hff
    exact ⟨j', f, hop, hj', hc, hfe, hf, ha, (hg.linked _ _ _ hl).2.1, hne hb.phase⟩
  · exact absurd hr (hne hb.phase)

/-- A coroutine that is suspended in a channel operation, or is in one, has not met anyone. -/
theorem Hist.unmet (h : Hist (.busy j none) s) (hg : Good (.busy j none) s) {j' : Job}
    (hj : s.Called c j') (hn : c ∉ s.ready)
    (hopen : ∀ v e, ¬s.Returned j'.op v e) : j'.op ∉ partyOps s.log := by
  intro hm
  obtain ⟨m, sd, hm, hop⟩ := mem_partyOps.1 hm
  have hmet : s.Met j'.op (m.party sd).clause m.err := ⟨m, sd, hm, by rw [← hop], rfl⟩
  rcases h.meet_status _ _ _ hmet with ⟨c', j'', v, e, -, -, hr, -⟩ | ⟨c', f, hr, hne, hf, -⟩ |
    ⟨_, -, -, hk⟩
  · exact hopen v e hr
  · obtain ⟨j'', hop', hj', -⟩ := hg.frames.logged c' _ f hf hne
    obtain ⟨hcc, -⟩ := h.called_unique _ _ _ _ hj' hj hop'
    rw [hcc] at hr
    exact hn hr
  · cases hk

/-- The meeting is about its two calls. -/
theorem met_meeting {a : ChanArg} {o k : ℕ} {e : ChanClause} {err' : Errno} :
    (s.record (meeting a.half a.sd o k a.val a.len e err)).Met op i err' ↔
      s.Met op i err' ∨ (op = o ∧ i = k ∧ err' = err) ∨ (op = e.op ∧ i = e.id ∧ err' = err) := by
  rw [met_record]
  refine or_congr Iff.rfl ⟨?_, ?_⟩
  · rintro ⟨sd, hp, he⟩
    rw [meeting_err] at he
    have hsd : sd = a.sd ∨ sd = a.sd.peer := by cases sd <;> cases a.sd <;> simp [Side.peer]
    rcases hsd with rfl | rfl
    · rw [meeting_party] at hp
      cases hp
      exact .inl ⟨rfl, rfl, he.symm⟩
    · rw [meeting_party_peer] at hp
      cases hp
      exact .inr ⟨rfl, rfl, he.symm⟩
  · rintro (⟨rfl, rfl, rfl⟩ | ⟨rfl, rfl, rfl⟩)
    · exact ⟨a.sd, meeting_party .., meeting_err ..⟩
    · exact ⟨a.sd.peer, meeting_party_peer .., meeting_err ..⟩

theorem meetOk_meeting {a : ChanArg} {e : ChanClause} {c' : CrId} {j' : Job} (hj : s.Called c j)
    (ha : j.call.chanArg j.objs i = some a) (hj' : s.Called c' j') (hop : j'.op = e.op)
    (hc' : j'.call.chanArg j'.objs e.id = some ⟨a.sd.peer, a.half, e.val, e.len⟩)
    (herr : (err = .ok ∧ a.len = e.len) ∨ (err = .EMSGSIZE ∧ a.len ≠ e.len)) :
    s.MeetOk (meeting a.half a.sd j.op i a.val a.len e err) := by
  obtain ⟨sd, x, val, len⟩ := a
  cases sd with
  | out =>
    refine ⟨c, j, c', j', len, e.len, hj, rfl, ha, hj', hop, hc', ?_⟩
    rcases herr with ⟨rfl, hl⟩ | ⟨rfl, hl⟩
    · exact .inl ⟨rfl, rfl, hl.symm⟩
    · exact .inr ⟨rfl, hl⟩
  | inn =>
    refine ⟨c', j', c, j, e.len, len, hj', hop, hc', hj, rfl, ha, ?_⟩
    rcases herr with ⟨rfl, hl⟩ | ⟨rfl, hl⟩
    · exact .inl ⟨rfl, hl.symm, rfl⟩
    · exact .inr ⟨rfl, fun h' => hl h'.symm⟩

/-- Two calls that have not met anyone meet. -/
theorem nodup_meeting {log : List Event} {x : HalfRef} {sd : Side} {val : Addr} {len : ℕ}
    {e : ChanClause} (h : (partyOps log).Nodup) (h₁ : op ∉ partyOps log)
    (h₂ : e.op ∉ partyOps log) (hne : op ≠ e.op) :
    (partyOps (log ++ [.meet (meeting x sd op i val len e err)])).Nodup := by
  have hpo : partyOps (log ++ [.meet (meeting x sd op i val len e err)]) = partyOps log ++
      [(meeting x sd op i val len e err).snd.op, (meeting x sd op i val len e err).rcv.op] := by
    simp [partyOps]
  rw [hpo, List.nodup_append]
  refine ⟨h, ?_, ?_⟩
  · cases sd
    · simpa [meeting] using hne.symm
    · simpa [meeting] using hne
  · rintro y hy z hz rfl
    cases sd <;> simp only [meeting, List.mem_cons, List.not_mem_nil, or_false] at hz <;>
      rcases hz with rfl | rfl <;> contradiction

theorem Hist.record {a : ChanArg} {e : ChanClause} {rest : List ChanClause}
    (h : Hist (.busy j none) s) (hg : Good (.busy j none) s)
    (ha : j.call.chanArg j.objs i = some a)
    (hq : (s.half a.half).queue a.sd.peer = e :: rest)
    (herr : (err = .ok ∧ a.len = e.len) ∨ (err = .EMSGSIZE ∧ a.len ≠ e.len)) :
    Hist (.busy j (some (i, err)))
      ((s.wake e.cr e.id err).record (meeting a.half a.sd j.op i a.val a.len e err)) := by
  have hb : s.Busy j := hg.cur
  have hjc := Call.isChan_of_chanArg ha
  have hjopen : ∀ v e, ¬s.Returned j.op v e := fun v e => h.cur_open j rfl hjc v e
  obtain ⟨j', f, hop, hj', hc', hfe, hf, hal, hnr, hner⟩ :=
    h.queued hg (e := e) (by rw [hq]; exact .head _)
  have hj'c := Call.isChan_of_chanArg hc'
  have hj'open : ∀ v x, ¬s.Returned j'.op v x := fun v x =>
    h.frame_open e.cr j' f (by rw [hop]; exact hf) hfe hj' hj'c v x
  have hops : j.op ≠ j'.op := fun heq => hner (h.called_unique _ _ _ _ hb.called hj' heq).1.symm
  have hv : f.verdict e.id err = some (e.id, err) :=
    Frame.verdict_meet hal (herr.imp And.left And.left)
  set m := meeting a.half a.sd j.op i a.val a.len e err with hm
  have hmet : ∀ {op' i' err'}, ((s.wake e.cr e.id err).record m).Met op' i' err' ↔
      s.Met op' i' err' ∨ (op' = j.op ∧ i' = i ∧ err' = err) ∨
        (op' = e.op ∧ i' = e.id ∧ err' = err) := met_meeting
  have hframe : ∀ x, (((s.wake e.cr e.id err).record m).crs x).frame = (s.crs x).frame :=
    fun x => wake_frame x
  refine ⟨?_, ?_, ?_, by simp, ?_, ?_, ?_, ?_, ?_, ?_, ?_, ?_, ?_, ?_, ?_⟩
  · exact fun c j hj => h.op_lt c j (called_record.1 hj)
  · exact fun op v x hr => h.ret_lt op v x (returned_record.1 hr)
  · exact fun c j c' j' hj hj' =>
      h.called_unique c j c' j' (called_record.1 hj) (called_record.1 hj')
  · intro c j v x v' x' hj hc hr hr'
    exact h.ret_unique c j v x v' x' (called_record.1 hj) hc (returned_record.1 hr)
      (returned_record.1 hr')
  · intro c j f hf hne hj hc v x hr
    rw [hframe] at hf
    exact h.frame_open c j f hf hne (called_record.1 hj) hc v x (returned_record.1 hr)
  · intro j' hj' hc v x hr
    exact h.cur_open j' hj' hc v x (returned_record.1 hr)
  · intro x sd y hy
    have hy : y ∈ ((s.half x).queue sd).filter fun y => y.cr ≠ e.cr := hy
    obtain ⟨j, hop, hj, ha, hfr⟩ := h.item x sd y (List.mem_of_mem_filter hy)
    rw [hframe]
    exact ⟨j, hop, called_record.2 hj, ha, hfr⟩
  · intro x sd
    exact (h.sorted x sd).sublist List.filter_sublist
  · intro m' hm'
    rcases List.mem_append.1 hm' with hm' | hm'
    · exact (h.meet_ok m' hm').mono fun _ _ => called_record.2
    · -- the two calls that meet now
      rw [List.mem_singleton, Event.meet.injEq] at hm'
      subst hm'
      exact meetOk_meeting (called_record.2 hb.called) ha (called_record.2 hj') hop hc' herr
  · have h₁ : j.op ∉ partyOps s.log := h.unmet hg hb.called hb.not_ready hjopen
    have h₂ : e.op ∉ partyOps s.log := hop ▸ h.unmet hg hj' hnr hj'open
    exact nodup_meeting h.meet_nodup h₁ h₂ (hop ▸ hops)
  · intro op i' err' hx
    rcases hmet.1 hx with hx | ⟨rfl, rfl, rfl⟩ | ⟨rfl, rfl, rfl⟩
    · rcases h.meet_status op i' err' hx with ⟨c, j, v, y, hj, hop, hr, hv⟩ |
        ⟨c, f', hc, hfe', hf', hv'⟩ | ⟨_, -, -, hk⟩
      · exact .inl ⟨c, j, v, y, called_record.2 hj, hop, returned_record.2 hr, hv⟩
      · have hce : c ≠ e.cr := by rintro rfl; exact hnr hc
        refine .inr (.inl ⟨c, f', List.mem_append_left _ hc, hfe', (hframe c).trans hf', ?_⟩)
        change f'.verdict ((s.wake e.cr e.id err).crs c).id ((s.wake e.cr e.id err).crs c).err = _
        rw [wake_crs, if_neg hce]
        exact hv'
      · cases hk
    · exact .inr (.inr ⟨j, rfl, rfl, rfl⟩)
    · refine .inr (.inl ⟨e.cr, f, List.mem_append_right _ (.head _), hfe, ?_, ?_⟩)
      · rw [hframe, hf]
      · change f.verdict ((s.wake e.cr e.id err').crs e.cr).id ((s.wake e.cr e.id err').crs e.cr).err
          = _
        rw [wake_crs, if_pos rfl]
        exact hv
  · intro c j v x i' err' hj hr hv'
    exact hmet.2 (.inl (h.ret_met c j v x i' err' (called_record.1 hj) (returned_record.1 hr) hv'))
  · intro c hc op f' i' err' hf' hv'
    rw [hframe] at hf'
    change f'.verdict ((s.wake e.cr e.id err).crs c).id ((s.wake e.cr e.id err).crs c).err = _ at hv'
    rw [wake_crs] at hv'
    by_cases hce : c = e.cr
    · subst hce
      rw [hf] at hf'
      obtain ⟨rfl, rfl⟩ := Prod.mk.inj (Option.some.inj hf')
      rw [if_pos rfl] at hv'
      obtain ⟨rfl, rfl⟩ := Prod.mk.inj (Option.some.inj (hv.symm.trans hv'))
      exact hmet.2 (.inr (.inr ⟨rfl, rfl, rfl⟩))
    · rw [if_neg hce] at hv'
      have hc : c ∈ s.ready ++ [e.cr] := hc
      rw [List.mem_append, List.mem_singleton] at hc
      exact hmet.2 (.inl (h.ready_met c (hc.resolve_right hce) op f' i' err' hf' hv'))
  · intro j'' i' err' hj'' hv'
    cases hj''
    cases hv'
    exact hmet.2 (.inr (.inl ⟨rfl, rfl, rfl⟩))

theorem Hist.meet {a : ChanArg} {e : ChanClause} {rest : List ChanClause}
    (h : Hist (.busy j none) s) (hg : Good (.busy j none) s)
    (ha : j.call.chanArg j.objs i = some a) (hq : (s.half a.half).queue a.sd.peer = e :: rest) :
    Hist (.busy j (some (i, if a.len = e.len then .ok else .EMSGSIZE))) (s.met j.op i a e) := by
  rw [met]
  split
  · rename_i hl
    set m := meeting a.half a.sd j.op i a.val a.len e .ok
    have h₁ : Hist (.busy j none) (s.memcpy m.dst m.src a.len) :=
      h.same (.of_eq rfl rfl rfl rfl fun _ _ => rfl) rfl
    exact h₁.record (hg.memcpy m.dst m.src a.len) ha hq (.inl ⟨rfl, hl⟩)
  · rename_i hl
    exact h.record hg ha hq (.inr ⟨rfl, hl⟩)

/-! ## The other moves -/

/-- The running coroutine queues itself and leaves. -/
theorem Hist.yield (h : Hist (.busy j none) s) (hg : Good (.busy j none) s) (hne : f ≠ .epilogue)
    (hv : f.verdict 0 .ok = none) : Hist .idle ((s.resume s.r 0 .ok).block j.op f) := by
  have hb : s.Busy j := hg.cur
  rw [hg.toCore.resume_eq_wake hb.clauses 0 .ok]
  have h₁ : Hist (.busy j none) (s.wake s.r 0 .ok) := by
    refine h.wake hb.not_ready fun op f hf => ?_
    rw [hb.frame] at hf
    cases hf
  refine h₁.block ?_ ?_ (fun _ => ⟨j, rfl⟩) rfl fun _ => ?_
  · rw [wake_frame]
    exact hb.frame
  · intro j' hj'
    cases hj'
    exact ⟨hb.called, rfl, hne⟩
  · change f.verdict ((s.wake s.r 0 .ok).crs s.r).id ((s.wake s.r 0 .ok).crs s.r).err = none
    rw [wake_crs, if_pos rfl]
    exact hv

theorem Hist.launch (h : Hist (.busy j none) s) (hg : Good (.busy j none) s) (b : BundleId)
    (mem : Bool) (v : Handle) : Hist .idle (s.launch j.op b mem v) := by
  have hb : s.Busy j := hg.cur
  have h₁ := h.yield hg (f := .go v) (by simp) rfl
  have hcrs : ∀ x, x ≠ s.ncrs → (s.launch j.op b mem v).crs x =
      ((s.resume s.r 0 .ok).block j.op (.go v)).crs x := by
    intro x hx
    rw [launch_crs hg.r_lt, if_neg hx, block_crs]
    change _ = if x = s.r then _ else _
    split
    · change _ = { (s.resume s.r 0 .ok).crs s.r with frame := some (j.op, .go v) }
      rw [resume_crs, if_pos rfl]
    · rename_i hxr
      rw [resume_crs, if_neg hxr]
  have hready : ∀ x, x ∈ s.ready ++ [s.r] → x ≠ s.ncrs := by
    rintro x hx rfl
    rw [List.mem_append, List.mem_singleton] at hx
    rcases hx with hx | hx
    · exact absurd (hg.ready_lt _ hx) (lt_irrefl _)
    · exact absurd hg.r_lt (hx ▸ lt_irrefl _)
  refine h₁.congr ⟨rfl, rfl, fun x => ?_, fun _ => Iff.rfl, fun x hx => ?_, fun x hx => ?_,
    fun _ _ => .refl _⟩ (by simp) (by simp [Cur.job]) (.inl (by simp [Cur.job])) rfl fun _ => rfl
  · by_cases hx : x = s.ncrs
    · have hr : s.ncrs ≠ s.r := hg.r_lt.ne'
      have hfr : ((s.resume s.r 0 .ok).crs s.ncrs).frame = none := by
        rw [resume_crs, if_neg hr, hg.fresh s.ncrs le_rfl]
      rw [hx, launch_crs hg.r_lt, if_pos rfl, block_crs]
      change none = Cr.frame (if s.ncrs = s.r then _ else _)
      rw [if_neg hr, hfr]
    · rw [hcrs x hx]
  · rw [hcrs x (hready x hx)]
  · rw [hcrs x (hready x hx)]

theorem Hist.closeWait {b : BundleId} {x : Handle} {old : Bool} {rest : List CrId}
    (h : Hist (.closing j b x old (c :: rest)) s) (hg : Good (.closing j b x old (c :: rest)) s) :
    Hist .idle (s.closeWaited j.op b x old c) := by
  have hb : s.Busy j := (hg.cur : s.Closing j b x (c :: rest)).toBusy
  set s₁ := s.updCr c fun cr => { cr with noBlocking1 := true } with hs₁
  have h₁ : Hist (.closing j b x old (c :: rest)) s₁ :=
    h.same (sameHist_updCr (by simp) s c) rfl
  have hfr₁ : (s₁.crs s.r).frame = none := by
    rw [hs₁, updCr_proj Cr.frame (by simp)]
    exact hb.frame
  obtain ⟨s₂, hs₂, h₂, hr₂, hfr₂, hlog₂⟩ : ∃ s₂ : Ctx,
      s₂ = (if c ∈ s.ready then s₁ else s₁.wake c (-1) .ECANCELED) ∧
      Hist (.closing j b x old (c :: rest)) s₂ ∧ s₂.r = s.r ∧ (s₂.crs s.r).frame = none ∧
      s₂.log = s.log := by
    refine ⟨_, rfl, ?_⟩
    split
    · exact ⟨h₁, rfl, hfr₁, rfl⟩
    · rename_i hn
      refine ⟨h₁.wake hn fun op f _ => Frame.verdict_neg f _, rfl, ?_, rfl⟩
      rw [wake_frame]
      exact hfr₁
  rw [closeWaited, ← hs₁, ← hs₂]
  have h₃ : Hist .idle (s₂.block j.op (.crClose b x old c)) := by
    refine h₂.block (by rw [hr₂]; exact hfr₂) ?_ (fun _ => ⟨j, rfl⟩) rfl fun _ => rfl
    intro j' hj'
    cases hj'
    refine ⟨?_, rfl, by simp⟩
    rw [Called, hlog₂, hr₂]
    exact hb.called
  exact h₃.same (sameHist_updCr (by simp) _ c) rfl

/-- **Every move keeps the invariant of the history.** -/
theorem Hist.micro {l : Bool} (h : Hist k s) (hg : Good k s) (hm : Micro l k s k' s') :
    Hist k' s' := by
  cases hm with
  | quiet hq => exact h.same hq.sameHist hq.r
  | trigger hk hl he hq => exact h.trigger hg hk hl he hq
  | meet ha hd hq => exact h.meet hg ha hq
  | ret hv hc => exact h.ret hg hv
  | hold hj =>
    exact h.congr (sameHist_updCr (by simp) s s.r) (by simp) (by simp [Cur.job])
      (.inr (hg.toCore.no_item (Busy.toRunning hg.cur).clauses)) rfl fun hn => absurd rfl hn
  | unhold hu hc hj hh =>
    refine h.congr (sameHist_updCr (by simp) s s.r) (by simp) ?_
      (.inl (by simp [Cur.job])) rfl fun hn => absurd rfl hn
    intro j' hj'
    cases hj'
    rw [hh.1]
    exact .inr rfl
  | chmake h₀ h₁ =>
    refine h.same (.of_eq rfl rfl rfl rfl fun x sd => ?_) rfl
    rw [chmade_half hg.tables]
  | bundle mem x => exact h.same (.of_eq rfl rfl rfl rfl fun _ _ => rfl) rfl
  | startTerm ch hn =>
    have h₁ : Hist (.terming _ ch) s := h.cur_of rfl rfl (by simp)
    exact h₁.same (.of_eq rfl rfl rfl rfl (sameSched_updHalf s ch (by simp)).queue) rfl
  | endTerm hq => exact h.cur_of rfl rfl (by simp)
  | startWait hb hw hf hn =>
    refine h.cur_of rfl rfl fun j f hk => ?_
    cases hk
    exact hn
  | enqueue hi hf ha hlt hn hd hp => exact h.enqueue hg ha hlt
  | @timer l s j f i deadline hi hf =>
    by_cases hd : deadline < 0
    · rw [Ctx.timer, if_pos hd]
      exact h
    · have hreg := registered_timer s i hd
      refine h.same (hreg.sameHist ?_ ?_ ?_) hreg.r <;> rw [Ctx.timer, if_neg hd]
      · rfl
      · rfl
      · exact fun _ _ => rfl
  | linkFd hi hc hw =>
    exact h.same ((registered_linkFd s _ _ hw).sameHist rfl rfl fun _ _ => rfl) rfl
  | @setWaiter l s j b hi hb =>
    have h₁ : Hist _ (s.updBundle b fun x => { x with waiter := some ⟨s.r, 0⟩ }) :=
      h.same (.of_eq rfl rfl rfl rfl fun _ _ => rfl) rfl
    exact h₁.same ((registered_waitfor _ 0).sameHist rfl rfl fun _ _ => rfl) rfl
  | @block l s j f _ =>
    have hw : s.Waiting j f := hg.cur
    refine h.block hw.frame ?_ (fun _ => ⟨j, rfl⟩) rfl fun hr => absurd hr hw.not_ready
    intro j' hj'
    cases hj'
    exact ⟨hw.called, rfl, Frame.Waits.ne_epilogue hw.waits⟩
  | yield hb hj => exact h.yield hg (by simp) rfl
  | launch mem v hb hj hh => exact h.launch hg _ mem v
  | popped hp hr hf hj ho hn hc =>
    refine h.popped hg hr hf ?_ hj
    rintro rfl
    exact ho.elim
  | poppedWait hp hr hf hj ho =>
    have h₁ := h.popped hg hr hf (by simp) hj
    exact h₁.same (.of_eq rfl rfl rfl rfl fun _ _ => rfl) rfl
  | poppedClose hp hr hf hj ho he =>
    exact (h.popped hg hr hf (by simp) hj).cur_of rfl rfl (by simp)
  | startClose old hj ho hh => exact h.cur_of rfl rfl (by simp)
  | closeNext hd => exact h.cur_of rfl rfl (by simp)
  | closeWait hd => exact h.closeWait hg
  | @closeEnd l s j b x old hh =>
    have hc : s.Closing j b x [] := hg.cur
    have h₁ : Hist (.busy j none) s := h.cur_of rfl rfl (by simp)
    have hb : (Cur.busy j none).Holds s := hc.toBusy
    refine h₁.ret (hg.cur_of hb (by simp)) ?_
    rw [(hc.of old 0).hclose.1]
    rfl
  | finish hu =>
    have h₁ := h.same (sameHist_updCr (g := fun cr => { cr with done := true }) (by simp) s s.r) rfl
    exact h₁.cur_of rfl rfl (by simp)
  | wakeCloser hp hr => exact h.wake hr fun op f _ => Frame.verdict_neg f _
  | wakeWaiter hn hb hl hw hr =>
    refine h.wake hr fun op f hf => ?_
    obtain ⟨-, ⟨op', hf'⟩ | ⟨-, j, hj⟩⟩ := hg.frames.waiter _ _ hw
    · rw [hf] at hf'
      cases hf'
      rfl
    · cases hj
  | leave hn hb => exact h.same (.of_eq rfl rfl rfl rfl fun _ _ => rfl) rfl
  | sleep =>
    have he : s.Exiting := hg.cur
    exact h.block he.frame (by simp [Cur.job]) (fun hne => absurd rfl hne) rfl fun _ => rfl

theorem Hist.init (h : s.IsInit) : Hist .idle s := by
  have hlog : s.log = [] := h.log
  refine ⟨?_, ?_, ?_, ?_, ?_, ?_, ?_, ?_, ?_, ?_, ?_, ?_, ?_, ?_, ?_⟩
  · simp [Called, hlog]
  · simp [Returned, hlog]
  · simp [Called, hlog]
  · simp
  · simp [Called, hlog]
  · simp [Called, hlog]
  · simp [Cur.job]
  · simp [h.half]
  · simp [h.half]
  · simp [hlog]
  · simp [hlog, partyOps, meets]
  · simp [Met, hlog]
  · simp [Called, hlog]
  · simp [h.ready]
  · simp [Cur.job]

theorem outer_hist : Outer Hist where
  enter _ c _ _ h := h.enter c
  write _ _ _ h := h.same (.of_eq rfl rfl rfl rfl fun _ _ => rfl) rfl
  endPoll _ _ _ h := h.same (.of_eq rfl rfl rfl rfl fun _ _ => rfl) rfl

end Ctx

/-- The history of a run is consistent. -/
theorem Reachable.hist {s : Ctx} (h : Reachable s) : Ctx.Hist .idle s :=
  (h.invariant (fun _ hi => Ctx.Hist.init hi) Ctx.outer_hist fun _ _ _ _ _ hg hk hm => hk.micro hg hm).2

end Libdill.Sched