import Libdill.Sched.History
import Libdill.Sched.Queues

/-!
# A channel operation as a `choose` of one clause

`dill_chsend` and `dill_chrecv` are run against a `dill_choose` with the same operation as its one
clause: `asChoose op` relabels call `op` in the history and the place where its caller is suspended.
No function of the scheduler looks at more of it than its own result.

* `step_asChoose`: every action does the same before and after the relabelling.
* `run_asChoose`: so does every run.
-/

namespace Libdill.Sched

open Foundations

/-! ## The relabelling -/

/-- What a `choose` of one clause reports where `chsend` or `chrecv` returns `v` with `errno` equal
to `e`: the index 0 stands for the clause that has failed as well. -/
def chooseReport (v : ℤ) (e : Errno) : ℤ × Errno :=
  if v = 0 then (0, .ok)
  else if e = .ok ∨ e = .ETIMEDOUT ∨ e = .ECANCELED then (-1, e)
  else (0, e)

/-- The `choose` with this operation as its one clause. -/
def Call.asChoose : Call → Call
  | .chsend h val len d => .choose (some [⟨some .out, h, val, len⟩]) d
  | .chrecv h val len d => .choose (some [⟨some .inn, h, val, len⟩]) d
  | c => c

def Frame.asChoose : Frame → Frame
  | .chan _ => .choose 1
  | f => f

def Event.asChoose (op : ℕ) : Event → Event
  | .call op' c x objs => .call op' c (if op' = op then x.asChoose else x) objs
  | .ret op' v e =>
    if op' = op then .ret op' (chooseReport v e).1 (chooseReport v e).2 else .ret op' v e
  | .meet m => .meet m

def Cr.asChoose (op : ℕ) (cr : Cr) : Cr :=
  { cr with frame := cr.frame.map fun p => (p.1, if p.1 = op then p.2.asChoose else p.2) }

namespace Ctx

/-- The state with call `op` as a `choose`. -/
def asChoose (op : ℕ) (s : Ctx) : Ctx :=
  { s with crs := fun c => (s.crs c).asChoose op, log := s.log.map (Event.asChoose op) }

variable {s s' : Ctx} {op op' : ℕ} {c : CrId} {id : ℤ} {err e : Errno} {b : BundleId} {h : Handle}

@[simp] theorem asChoose_r : (s.asChoose op).r = s.r := rfl

@[simp] theorem asChoose_phase : (s.asChoose op).phase = s.phase := rfl

@[simp] theorem asChoose_ready : (s.asChoose op).ready = s.ready := rfl

@[simp] theorem asChoose_timers : (s.asChoose op).timers = s.timers := rfl

@[simp] theorem asChoose_lastPoll : (s.asChoose op).lastPoll = s.lastPoll := rfl

@[simp] theorem asChoose_crs (c : CrId) : (s.asChoose op).crs c = (s.crs c).asChoose op := rfl

@[simp] theorem asChoose_half : (s.asChoose op).half = s.half := rfl

@[simp] theorem asChoose_bundles : (s.asChoose op).bundles = s.bundles := rfl

@[simp] theorem asChoose_nbundles : (s.asChoose op).nbundles = s.nbundles := rfl

@[simp] theorem asChoose_handles : (s.asChoose op).handles = s.handles := rfl

@[simp] theorem asChoose_nfdinfos : (s.asChoose op).nfdinfos = s.nfdinfos := rfl

@[simp] theorem asChoose_fds : (s.asChoose op).fds = s.fds := rfl

@[simp] theorem asChoose_nops : (s.asChoose op).nops = s.nops := rfl

@[simp] theorem asChoose_canblock : (s.asChoose op).canblock = s.canblock := rfl

@[simp] theorem asChoose_hqueryHalf (h : Handle) : (s.asChoose op).hqueryHalf h = s.hqueryHalf h :=
  rfl

@[simp] theorem asChoose_hqueryBundle (h : Handle) :
    (s.asChoose op).hqueryBundle h = s.hqueryBundle h := rfl

/-! ## Elementary operations -/

theorem asChoose_updHalf (ch : HalfRef) (g : Half → Half) :
    (s.asChoose op).updHalf ch g = (s.updHalf ch g).asChoose op := rfl

theorem asChoose_updBundle (b : BundleId) (g : Bundle → Bundle) :
    (s.asChoose op).updBundle b g = (s.updBundle b g).asChoose op := rfl

theorem asChoose_updFd (fd : ℕ) (g : FdInfo → FdInfo) :
    (s.asChoose op).updFd fd g = (s.updFd fd g).asChoose op := rfl

theorem asChoose_setHandle (h : Handle) (o : Option Obj) :
    (s.asChoose op).setHandle h o = (s.setHandle h o).asChoose op := rfl

theorem asChoose_updCr (op : ℕ) (s : Ctx) (c : CrId) {g : Cr → Cr}
    (hg : ∀ x, g (x.asChoose op) = (g x).asChoose op) :
    (s.asChoose op).updCr c g = (s.updCr c g).asChoose op := by
  unfold updCr asChoose
  congr 1
  funext x
  by_cases hx : x = c
  · subst hx
    simp only [Function.update_self]
    exact hg _
  · simp only [Function.update_of_ne hx]

theorem asChoose_ret (hop : op' ≠ op) (v : ℤ) (e : Errno) :
    (s.asChoose op).ret op' v e = (s.ret op' v e).asChoose op := by
  unfold ret asChoose
  rw [List.map_append]
  simp only [List.map_cons, List.map_nil, Event.asChoose, if_neg hop]

theorem asChoose_ret_self (v : ℤ) (e : Errno) :
    (s.ret op v e).asChoose op =
      (s.asChoose op).ret op (chooseReport v e).1 (chooseReport v e).2 := by
  unfold ret asChoose
  rw [List.map_append]
  simp only [List.map_cons, List.map_nil, Event.asChoose, if_true]

/-- Zero is reported as zero. -/
theorem asChoose_ret_ok (op' : ℕ) :
    (s.asChoose op).ret op' 0 .ok = (s.ret op' 0 .ok).asChoose op := by
  unfold ret asChoose
  rw [List.map_append]
  simp only [List.map_cons, List.map_nil, Event.asChoose, chooseReport, if_true, ite_self]

theorem asChoose_record (m : Meeting) :
    (s.asChoose op).record m = (s.record m).asChoose op := by
  unfold record asChoose
  rw [List.map_append]
  rfl

theorem asChoose_enter (hop : s.nops ≠ op) (x : Call) :
    (s.asChoose op).enter x = (s.enter x).asChoose op := by
  have hcall : Event.asChoose op (.call s.nops s.r x (x.handles.map s.handles)) =
      .call s.nops s.r x (x.handles.map s.handles) := by
    show Event.call _ _ (if s.nops = op then _ else _) _ = _
    rw [if_neg hop]
  unfold enter asChoose
  rw [List.map_append, List.map_singleton, hcall]

theorem asChoose_waitfor (cl : Clause) :
    (s.asChoose op).waitfor cl = (s.waitfor cl).asChoose op :=
  asChoose_updCr op s s.r fun _ => rfl

theorem asChoose_timer (i : ℕ) (d : ℤ) :
    (s.asChoose op).timer i d = (s.timer i d).asChoose op := by
  unfold timer
  split
  · rfl
  · exact asChoose_waitfor (s := { s with timers := insertAfter Timer.val ⟨d, s.r, i⟩ s.timers }) _

theorem asChoose_resume (c : CrId) (id : ℤ) (err : Errno) :
    (s.asChoose op).resume c id err = (s.resume c id err).asChoose op := by
  have hupd := asChoose_updCr op s c
    (g := fun cr => { cr with id := id, err := err, readyNext := true }) fun _ => rfl
  exact congrArg (fun x : Ctx => { x with ready := s.ready ++ [c] }) hupd

theorem asChoose_block {f : Frame} (hf : op' = op → f.asChoose = f) :
    (s.asChoose op).block op' f = (s.block op' f).asChoose op := by
  have hupd := asChoose_updCr op s s.r
    (g := fun cr => { cr with frame := some (op', f) }) fun x => by
      unfold Cr.asChoose
      by_cases hop : op' = op
      · simp only [Option.map_some, if_pos hop, hf hop]
      · simp only [Option.map_some, if_neg hop]
  exact congrArg (fun x : Ctx => { x with phase := .wait }) hupd

theorem asChoose_popped (c : CrId) (rest : List CrId) :
    (s.asChoose op).popped c rest = (s.popped c rest).asChoose op := by
  have hupd := asChoose_updCr op s c
    (g := fun cr => { cr with readyNext := false, frame := none, clauses := [] }) fun _ => rfl
  exact congrArg (fun x : Ctx => { x with ready := rest, r := c, phase := .user }) hupd

theorem asChoose_enqueue (op' i : ℕ) (sd : Side) (ch : HalfRef) (val : Addr) (len : ℕ) :
    (s.asChoose op).enqueue op' i sd ch val len = (s.enqueue op' i sd ch val len).asChoose op :=
  asChoose_waitfor (s := s.updHalf ch fun x => { x with
    queue := Function.update x.queue sd (x.queue sd ++ [⟨s.r, i, val, len, op'⟩]) }) _

/-! ## Waking -/

theorem asChoose_cancelClause (c : CrId) (cl : Clause) :
    cancelClause c (s.asChoose op) cl = (cancelClause c s cl).asChoose op := by
  unfold cancelClause
  cases cl.cancel <;> rfl

theorem asChoose_foldl (c : CrId) (cls : List Clause) :
    cls.foldl (cancelClause c) (s.asChoose op) = (cls.foldl (cancelClause c) s).asChoose op := by
  induction cls generalizing s with
  | nil => rfl
  | cons cl cls ih => rw [List.foldl_cons, List.foldl_cons, asChoose_cancelClause, ih]

theorem asChoose_docancel (c : CrId) (id : ℤ) (err : Errno) :
    (s.asChoose op).docancel c id err = (s.docancel c id err).map (asChoose op) := by
  have hnext : ((s.asChoose op).crs c).readyNext = (s.crs c).readyNext := rfl
  have hcls : ((s.asChoose op).crs c).clauses = (s.crs c).clauses := rfl
  unfold docancel
  rw [hnext, hcls, asChoose_foldl, asChoose_resume]
  split <;> rfl

theorem asChoose_trigger (cl : ClauseRef) (err : Errno) :
    (s.asChoose op).trigger cl err = (s.trigger cl err).map (asChoose op) :=
  asChoose_docancel cl.cr cl.id err

/-! ## Channels -/

theorem asChoose_tryClause (op' i : ℕ) (sd : Side) (ch : HalfRef) (val : Addr) (len : ℕ) :
    (s.asChoose op).tryClause op' i sd ch val len =
      (s.tryClause op' i sd ch val len).map (Option.map fun p => (p.1, p.2.asChoose op)) := by
  have hrecord (s' : Ctx) (m : Meeting) (e : Errno) :
      Except.ok (some (e, (s'.asChoose op).record m)) =
        Except.map (Option.map fun p => (p.1, asChoose op p.2))
          (Except.ok (some (e, s'.record m)) : Except Stop (Option (Errno × Ctx))) := by
    rw [asChoose_record]
    rfl
  unfold tryClause
  rw [asChoose_half]
  split
  · rfl
  · split
    · rfl
    · split
      · exact bind_eq_map (asChoose_trigger _ _) fun s' => hrecord s' _ _
      · exact bind_eq_map (asChoose_trigger (s := s.memcpy _ _ len) _ _) fun s' => hrecord s' _ _

/-- The result of a call other than `op` is the same. -/
theorem ok_ret (hop : op' ≠ op) (s : Ctx) (v : ℤ) (e : Errno) :
    Except.ok ((s.asChoose op).ret op' v e) =
      (Except.ok (s.ret op' v e) : Except Stop Ctx).map (asChoose op) :=
  congrArg Except.ok (asChoose_ret hop v e)

theorem asChoose_chanOp (hop : op' ≠ op) (sd : Side) (h : Handle) (val : Addr) (len : ℕ) (d : ℤ) :
    (s.asChoose op).chanOp op' sd h val len d =
      (s.chanOp op' sd h val len d).map (asChoose op) := by
  unfold chanOp
  rw [asChoose_canblock, asChoose_hqueryHalf]
  split
  · exact ok_ret hop _ _ _
  · split
    · exact ok_ret hop _ _ _
    · refine bind_eq_map (asChoose_tryClause _ _ _ _ _ _) fun o => ?_
      cases o with
      | some p => exact ok_ret hop _ _ _
      | none =>
        dsimp only [Option.map_none]
        split
        · exact ok_ret hop _ _ _
        · rw [asChoose_enqueue, asChoose_timer, asChoose_block fun h => absurd h hop]
          rfl

theorem asChoose_scan (op' i : ℕ) (cls : List ChClause) :
    scan op' i cls (s.asChoose op) =
      (scan op' i cls s).map (Option.map fun p => (p.1, p.2.1, p.2.2.asChoose op)) := by
  induction cls generalizing i with
  | nil => rfl
  | cons cl cls ih =>
    unfold scan
    rw [asChoose_hqueryHalf]
    split
    · rfl
    · split
      · rfl
      · split
        · rfl
        · refine bind_eq_map (asChoose_tryClause _ _ _ _ _ _) fun o => ?_
          cases o with
          | some p => rfl
          | none => exact ih (i + 1)

theorem asChoose_enqueueAll (op' i : ℕ) (cls : List ChClause) :
    enqueueAll op' i cls (s.asChoose op) = (enqueueAll op' i cls s).map (asChoose op) := by
  induction cls generalizing i s with
  | nil => rfl
  | cons cl cls ih =>
    unfold enqueueAll
    rw [asChoose_hqueryHalf]
    split
    · rfl
    · dsimp only
      rw [asChoose_enqueue]
      exact ih (i + 1)

theorem asChoose_choose (hop : op' ≠ op) (cls : Option (List ChClause)) (d : ℤ) :
    (s.asChoose op).choose op' cls d = (s.choose op' cls d).map (asChoose op) := by
  rw [choose.eq_def, choose.eq_def, asChoose_canblock]
  split
  · exact ok_ret hop _ _ _
  · cases cls with
    | none => exact ok_ret hop _ _ _
    | some cls =>
      refine bind_eq_map (asChoose_scan _ _ _) fun o => ?_
      cases o with
      | some p => exact ok_ret hop _ _ _
      | none =>
        dsimp only [Option.map_none]
        split
        · exact ok_ret hop _ _ _
        · refine bind_eq_map (asChoose_enqueueAll _ _ _) fun s' => ?_
          rw [asChoose_timer, asChoose_block fun _ => rfl]
          rfl

theorem asChoose_termQueue (ch : HalfRef) (sd : Side) (n : ℕ) :
    termQueue ch sd n (s.asChoose op) = (termQueue ch sd n s).map (asChoose op) := by
  induction n generalizing s with
  | zero =>
    unfold termQueue
    rw [asChoose_half]
    cases (s.half ch).queue sd <;> rfl
  | succ n ih =>
    unfold termQueue
    rw [asChoose_half]
    cases (s.half ch).queue sd with
    | nil => rfl
    | cons e rest => exact bind_eq_map (asChoose_trigger _ _) fun _ => ih

theorem asChoose_halfchanTerm (ch : HalfRef) :
    (s.asChoose op).halfchanTerm ch = (s.halfchanTerm ch).map (asChoose op) :=
  bind_eq_map (asChoose_termQueue ch .inn _) fun _ => asChoose_termQueue ch .out _

theorem asChoose_chdone (hop : op' ≠ op) (h : Handle) :
    (s.asChoose op).chdone op' h = (s.chdone op' h).map (asChoose op) := by
  unfold chdone
  rw [asChoose_hqueryHalf]
  split
  · exact ok_ret hop _ _ _
  · rw [asChoose_half]
    split
    · exact ok_ret hop _ _ _
    · rw [asChoose_updHalf]
      exact bind_eq_map (asChoose_halfchanTerm _) fun _ => ok_ret hop _ _ _

theorem asChoose_halfchanClose (ch : HalfRef) :
    (s.asChoose op).halfchanClose ch = (s.halfchanClose ch).map (asChoose op) := by
  unfold halfchanClose
  rw [asChoose_half]
  split
  · rfl
  · split
    · rfl
    · exact bind_eq_map (asChoose_halfchanTerm _) fun _ => asChoose_halfchanTerm _

/-! ## Handles and bundles -/

theorem asChoose_hmake (h : Handle) (o : Obj) :
    (s.asChoose op).hmake h o = (s.hmake h o).map (Option.map (asChoose op)) := by
  unfold hmake
  rw [asChoose_canblock, asChoose_handles]
  split
  · rfl
  · split <;> rfl

theorem asChoose_chmake (hop : op' ≠ op) (h₀ h₁ : Handle) :
    (s.asChoose op).chmake op' h₀ h₁ = (s.chmake op' h₀ h₁).map (asChoose op) := by
  refine bind_eq_map (asChoose_hmake (s := { s with
    nchans := s.nchans + 1
    half := Function.update (Function.update s.half ⟨s.nchans, false⟩ {}) ⟨s.nchans, true⟩ {} })
      h₀ _) fun o => ?_
  cases o with
  | none => exact ok_ret hop _ _ _
  | some s₁ =>
    refine bind_eq_map (asChoose_hmake h₁ _) fun o => ?_
    cases o <;> exact ok_ret hop _ _ _

theorem asChoose_bundleMake (mem : Bool) (h : Handle) :
    (s.asChoose op).bundleMake mem h = (s.bundleMake mem h).map (Option.map (asChoose op)) :=
  asChoose_hmake (s := { s with
    nbundles := s.nbundles + 1
    bundles := Function.update s.bundles s.nbundles { mem := mem, owner := s.r } }) h _

theorem asChoose_freeCr (c : CrId) : (s.asChoose op).freeCr c = (s.freeCr c).map (asChoose op) := by
  have hmem : ((s.asChoose op).crs c).mem = (s.crs c).mem := rfl
  have hfreed : ((s.asChoose op).crs c).freed = (s.crs c).freed := rfl
  unfold freeCr
  rw [hmem, hfreed]
  split
  · rfl
  · split
    · rfl
    · exact congrArg Except.ok (asChoose_updCr op s c fun _ => rfl)

theorem asChoose_finishClose (b : BundleId) (h : Handle) (old : Bool) :
    (s.asChoose op).finishClose b h old = (s.finishClose b h old).map (asChoose op) := by
  unfold finishClose
  rw [asChoose_bundles]
  split
  · rfl
  · rw [asChoose_updBundle, asChoose_r, asChoose_updCr, asChoose_setHandle]
    · rfl
    · exact fun _ => rfl

theorem asChoose_launch (hop : op' ≠ op) (b : BundleId) (mem : Bool) (v : Handle) :
    (s.asChoose op).launch op' b mem v = (s.launch op' b mem v).asChoose op := by
  let s₁ : Ctx := { s with
    ncrs := s.ncrs + 1
    crs := Function.update s.crs s.ncrs { bundle := some b, mem := mem } }
  have hs₁ : ({ s.asChoose op with
      ncrs := s.ncrs + 1
      crs := Function.update (s.asChoose op).crs s.ncrs { bundle := some b, mem := mem } } : Ctx) =
      s₁.asChoose op := by
    show Ctx.mk .. = Ctx.mk ..
    congr 1
    funext x
    by_cases hx : x = s.ncrs
    · subst hx
      rw [Function.update_self]
      show _ = (Function.update s.crs s.ncrs _ s.ncrs).asChoose op
      rw [Function.update_self]
      rfl
    · rw [Function.update_of_ne hx]
      show _ = (Function.update s.crs s.ncrs _ x).asChoose op
      rw [Function.update_of_ne hx]
      rfl
  have hresume : ((({ s.asChoose op with
      ncrs := s.ncrs + 1
      crs := Function.update (s.asChoose op).crs s.ncrs { bundle := some b, mem := mem } } :
      Ctx).updBundle b fun x => { x with crs := x.crs ++ [s.ncrs] }).updCr s.r fun cr =>
        { cr with frame := some (op', .go v) }).resume s.r 0 .ok =
      (((s₁.updBundle b fun x => { x with crs := x.crs ++ [s.ncrs] }).updCr s.r fun cr =>
        { cr with frame := some (op', .go v) }).resume s.r 0 .ok).asChoose op := by
    rw [hs₁, asChoose_updBundle, asChoose_updCr, asChoose_resume]
    intro x
    unfold Cr.asChoose
    simp only [Option.map_some, if_neg hop]
  exact congrArg (fun x : Ctx => { x with r := s.ncrs }) hresume

theorem asChoose_prologue (hop : op' ≠ op) (bndl : Handle) (mem stack : Bool) (h : Handle) :
    (s.asChoose op).prologue op' bndl mem stack h =
      (s.prologue op' bndl mem stack h).map (asChoose op) := by
  unfold prologue
  rw [asChoose_canblock, asChoose_hqueryBundle]
  split
  · exact ok_ret hop _ _ _
  · split
    · refine bind_eq_map (asChoose_bundleMake _ _) fun o => ?_
      cases o with
      | none => exact ok_ret hop _ _ _
      | some s' =>
        dsimp only [Option.map_some]
        split
        · exact congrArg Except.ok (asChoose_launch hop _ _ _)
        · exact bind_eq_map (asChoose_finishClose _ _ _) fun _ => ok_ret hop _ _ _
    · split
      · exact ok_ret hop _ _ _
      · split
        · exact congrArg Except.ok (asChoose_launch hop _ _ _)
        · exact ok_ret hop _ _ _

theorem asChoose_bundleWait (hop : op' ≠ op) (h : Handle) (d : ℤ) :
    (s.asChoose op).bundleWait op' h d = (s.bundleWait op' h d).asChoose op := by
  unfold bundleWait
  rw [asChoose_canblock, asChoose_hqueryBundle]
  split
  · exact asChoose_ret hop _ _
  · split
    · exact asChoose_ret hop _ _
    · rename_i b _
      rw [asChoose_bundles]
      split
      · exact asChoose_ret hop _ _
      · rw [asChoose_updBundle, asChoose_r, asChoose_waitfor, asChoose_timer,
          asChoose_block fun _ => rfl]

theorem asChoose_closeCrs (op' : ℕ) (b : BundleId) (h : Handle) (old : Bool) (cs : List CrId) :
    closeCrs op' b h old cs (s.asChoose op) = (closeCrs op' b h old cs s).map (asChoose op) := by
  induction cs generalizing s with
  | nil =>
    exact bind_eq_map (asChoose_finishClose _ _ _) fun _ => congrArg Except.ok (asChoose_ret_ok op')
  | cons c rest ih =>
    have hfreed : ((s.asChoose op).crs c).freed = (s.crs c).freed := rfl
    have hdone : ((s.asChoose op).crs c).done = (s.crs c).done := rfl
    have hnext : ((s.asChoose op).updCr c fun cr => { cr with noBlocking1 := true }) =
        (s.updCr c fun cr => { cr with noBlocking1 := true }).asChoose op :=
      asChoose_updCr op s c fun _ => rfl
    unfold closeCrs
    rw [hfreed, hdone]
    split
    · rfl
    · split
      · exact bind_eq_map (asChoose_freeCr c) fun _ => ih
      · dsimp only
        rw [hnext]
        generalize (s.updCr c fun cr => { cr with noBlocking1 := true }) = s₁
        have hready : ((s₁.asChoose op).crs c).readyNext = (s₁.crs c).readyNext := rfl
        have hwait (s₂ : Ctx) : Except.ok (((s₂.asChoose op).updCr c fun cr =>
            { cr with closer := some s₂.r }).block op' (.crClose b h old c)) =
              Except.map (asChoose op) (Except.ok ((s₂.updCr c fun cr =>
                { cr with closer := some s₂.r }).block op' (.crClose b h old c)) :
                  Except Stop Ctx) := by
          rw [asChoose_updCr, asChoose_block fun _ => rfl]
          · rfl
          · exact fun _ => rfl
        rw [hready]
        split
        · exact hwait s₁
        · exact bind_eq_map (asChoose_docancel c _ _) hwait

theorem asChoose_hclose (hop : op' ≠ op) (h : Handle) :
    (s.asChoose op).hclose op' h = (s.hclose op' h).map (asChoose op) := by
  have hold : ((s.asChoose op).crs s.r).noBlocking2 = (s.crs s.r).noBlocking2 := rfl
  have hs' : ((s.asChoose op).updCr s.r fun cr => { cr with noBlocking2 := true }) =
      (s.updCr s.r fun cr => { cr with noBlocking2 := true }).asChoose op :=
    asChoose_updCr op s s.r fun _ => rfl
  unfold hclose
  dsimp only
  rw [asChoose_r, asChoose_handles, hold, hs', asChoose_bundles]
  split
  · exact ok_ret hop _ _ _
  · refine bind_eq_map (asChoose_halfchanClose _) fun s₁ => ?_
    rw [asChoose_updCr, asChoose_setHandle, asChoose_ret_ok]
    · rfl
    · exact fun _ => rfl
  · exact asChoose_closeCrs _ _ _ _ _
  · rw [asChoose_updCr]
    · rfl
    · exact fun _ => rfl

theorem asChoose_hcloseEnd : (s.asChoose op).hcloseEnd = s.hcloseEnd.map (asChoose op) := by
  have hclosing : ((s.asChoose op).crs s.r).closing = (s.crs s.r).closing := rfl
  unfold hcloseEnd
  rw [asChoose_r, hclosing]
  split
  · rfl
  · rw [asChoose_updCr, asChoose_setHandle, asChoose_ret_ok]
    · rfl
    · exact fun _ => rfl

/-! ## Timers and descriptors -/

theorem asChoose_yield (hop : op' ≠ op) :
    (s.asChoose op).yield op' = (s.yield op').asChoose op := by
  unfold yield
  rw [asChoose_canblock]
  split
  · exact asChoose_ret hop _ _
  · rw [asChoose_r, asChoose_resume, asChoose_block fun _ => rfl]

theorem asChoose_msleep (hop : op' ≠ op) (d : ℤ) :
    (s.asChoose op).msleep op' d = (s.msleep op' d).asChoose op := by
  unfold msleep
  rw [asChoose_canblock]
  split
  · exact asChoose_ret hop _ _
  · rw [asChoose_timer, asChoose_block fun _ => rfl]

theorem asChoose_fdwait (hop : op' ≠ op) (sd : Side) (fd d : ℤ) (ctl : Errno) :
    (s.asChoose op).fdwait op' sd fd d ctl = (s.fdwait op' sd fd d ctl).asChoose op := by
  have hadd : (if ((s.asChoose op).fds fd.toNat).cached then s.asChoose op
      else (s.asChoose op).updFd fd.toNat fun _ => { cached := true }) =
      (if (s.fds fd.toNat).cached then s
        else s.updFd fd.toNat fun _ => { cached := true }).asChoose op := by
    rw [asChoose_fds]
    split <;> rfl
  unfold fdwait
  rw [asChoose_canblock, asChoose_nfdinfos]
  dsimp only
  rw [hadd, asChoose_fds]
  generalize (if (s.fds fd.toNat).cached then s
    else s.updFd fd.toNat fun _ => { cached := true }) = s₁
  split
  · exact asChoose_ret hop _ _
  · split
    · exact asChoose_ret hop _ _
    · split
      · exact asChoose_ret hop _ _
      · rw [asChoose_fds]
        split
        · exact asChoose_ret hop _ _
        · rw [asChoose_updFd, asChoose_r, asChoose_waitfor, asChoose_timer,
            asChoose_block fun _ => rfl]

theorem asChoose_fdclean (hop : op' ≠ op) (fd : ℤ) :
    (s.asChoose op).fdclean op' fd = (s.fdclean op' fd).map (asChoose op) := by
  unfold fdclean
  rw [asChoose_nfdinfos, asChoose_fds]
  split
  · rfl
  · split
    · exact ok_ret hop _ _ _
    · split
      · exact ok_ret hop _ _ _
      · exact ok_ret hop (s.updFd fd.toNat fun x => { x with cached := false }) _ _

/-! ## The end of a coroutine -/

theorem asChoose_wakeCloser : (s.asChoose op).wakeCloser = s.wakeCloser.map (asChoose op) := by
  have hcloser : ((s.asChoose op).crs s.r).closer = (s.crs s.r).closer := rfl
  unfold wakeCloser
  rw [asChoose_r, hcloser]
  split
  · exact asChoose_docancel _ _ _
  · rfl

theorem asChoose_wakeWaiter (b : BundleId) :
    (s.asChoose op).wakeWaiter b = (s.wakeWaiter b).map (asChoose op) := by
  unfold wakeWaiter
  rw [asChoose_bundles]
  split
  · split
    · exact asChoose_trigger _ _
    · rfl
  · rfl

theorem asChoose_leaveBundle : (s.asChoose op).leaveBundle = s.leaveBundle.map (asChoose op) := by
  have hstop : ((s.asChoose op).crs s.r).noBlocking1 = (s.crs s.r).noBlocking1 := rfl
  have hbundle : ((s.asChoose op).crs s.r).bundle = (s.crs s.r).bundle := rfl
  unfold leaveBundle
  rw [asChoose_r, hstop, hbundle]
  split
  · rfl
  · split
    · rfl
    · refine bind_eq_map (asChoose_wakeWaiter _) fun s₁ => ?_
      rw [asChoose_r, asChoose_updBundle, asChoose_freeCr]

theorem asChoose_epilogue : (s.asChoose op).epilogue = s.epilogue.map (asChoose op) := by
  have hdone : ((s.asChoose op).updCr s.r fun cr => { cr with done := true }) =
      (s.updCr s.r fun cr => { cr with done := true }).asChoose op :=
    asChoose_updCr op s s.r fun _ => rfl
  unfold epilogue
  dsimp only
  rw [asChoose_r, hdone]
  refine bind_eq_map asChoose_wakeCloser fun s₁ => ?_
  refine bind_eq_map asChoose_leaveBundle fun s₂ => ?_
  have hcls : ((s₂.asChoose op).crs s₂.r).clauses = (s₂.crs s₂.r).clauses := rfl
  rw [asChoose_r, hcls]
  split
  · exact congrArg Except.ok (asChoose_block fun _ => rfl)
  · rfl

/-! ## Polling -/

theorem asChoose_fireFd (ev : FdEvent) (sd : Side) :
    fireFd ev sd (s.asChoose op) =
      (fireFd ev sd s).map fun p => (p.1, p.2.asChoose op) := by
  unfold fireFd
  rw [asChoose_fds]
  split
  · exact bind_eq_map (asChoose_trigger _ _) fun _ => rfl
  · rfl

theorem asChoose_pollsetPoll (evs : List FdEvent) :
    pollsetPoll evs (s.asChoose op) =
      (pollsetPoll evs s).map fun p => (p.1, p.2.asChoose op) := by
  induction evs generalizing s with
  | nil => rfl
  | cons ev evs ih =>
    refine bind_eq_map (asChoose_fireFd ev .inn) fun p => ?_
    refine bind_eq_map (asChoose_fireFd ev .out) fun q => ?_
    exact bind_eq_map ih fun _ => rfl

theorem asChoose_fireTimers (nw : ℤ) (n : ℕ) :
    fireTimers nw n (s.asChoose op) =
      (fireTimers nw n s).map fun p => (p.1, p.2.asChoose op) := by
  induction n generalizing s with
  | zero =>
    unfold fireTimers
    rw [asChoose_timers]
    cases s.timers with
    | nil => rfl
    | cons t _ =>
      dsimp only
      split <;> rfl
  | succ n ih =>
    unfold fireTimers
    rw [asChoose_timers]
    cases s.timers with
    | nil => rfl
    | cons t _ =>
      dsimp only
      split
      · rfl
      · exact bind_eq_map (asChoose_trigger _ _) fun _ => bind_eq_map ih fun _ => rfl

theorem asChoose_pollLoop (block : Bool) (answers : List PollAnswer) (nw : ℤ) :
    pollLoop block answers nw (s.asChoose op) =
      (pollLoop block answers nw s).map (asChoose op) := by
  induction answers generalizing s nw with
  | nil => rfl
  | cons a rest ih =>
    have htimeout : pollTimeout block nw (s.asChoose op) = pollTimeout block nw s := rfl
    unfold pollLoop
    dsimp only
    rw [htimeout]
    split
    · exact ih _
    · refine bind_eq_map (asChoose_pollsetPoll _) fun p => ?_
      refine bind_eq_map (asChoose_fireTimers _ _) fun q => ?_
      dsimp only
      split
      · rfl
      · exact ih _

theorem asChoose_poll (nw : ℤ) (answers : List PollAnswer) :
    (s.asChoose op).poll nw answers = (s.poll nw answers).map (asChoose op) := by
  unfold poll
  rw [asChoose_ready, asChoose_lastPoll]
  split
  · exact bind_eq_map (asChoose_pollLoop _ _ _) fun _ => rfl
  · rfl

/-! ## Switching -/

/-- The result of a channel operation is reported as `choose` reports it. -/
theorem chooseReport_result {sd : Side} (ho : (Frame.chan sd).Outcome id e) :
    chooseReport (result (.chan sd) id e).1 (result (.chan sd) id e).2 =
      result (.choose 1) id e := by
  rcases ho with ⟨rfl, rfl⟩ | ⟨cl, ⟨h, rfl⟩ | rfl, rfl, he⟩
  · rfl
  · rcases he with rfl | rfl | rfl <;> rfl
  · cases he
    rfl

theorem asChoose_switch
    (h : ∀ c rest f, s.ready = c :: rest → (s.crs c).frame = some (op, f) →
      ∃ sd, f = .chan sd ∧ f.Outcome (s.crs c).id (s.crs c).err) :
    (s.asChoose op).switch = s.switch.map (asChoose op) := by
  unfold switch
  rw [asChoose_ready]
  cases hready : s.ready with
  | nil => rfl
  | cons c rest =>
    have hframe : ((s.asChoose op).crs c).frame =
        (s.crs c).frame.map fun p => (p.1, if p.1 = op then p.2.asChoose else p.2) := rfl
    have hid : ((s.asChoose op).crs c).id = (s.crs c).id := rfl
    have herr : ((s.asChoose op).crs c).err = (s.crs c).err := rfl
    dsimp only
    rw [hframe, hid, herr, asChoose_popped, asChoose_bundles]
    cases hf : (s.crs c).frame with
    | none => rfl
    | some p =>
      obtain ⟨op', f⟩ := p
      by_cases hop : op' = op
      · subst hop
        obtain ⟨sd, rfl, ho⟩ := h c rest f hready hf
        simp only [Option.map_some, if_true, Frame.asChoose]
        rw [← chooseReport_result ho]
        exact congrArg Except.ok (asChoose_ret_self _ _).symm
      · simp only [Option.map_some, if_neg hop]
        cases f with
        | epilogue => rfl
        | crClose b x old it =>
          dsimp only
          split
          · rfl
          · split
            · rfl
            · exact bind_eq_map (asChoose_freeCr it) fun _ => asChoose_closeCrs _ _ _ _ _
        | bundleWait b =>
          dsimp only
          split
          · rfl
          · split
            · rfl
            · exact ok_ret hop
                ((s.popped c rest).updBundle b fun x => { x with waiter := none }) _ _
        | _ => exact ok_ret hop (s.popped c rest) _ _

/-! ## Runs -/

theorem asChoose_doCall (hop : op' ≠ op) (x : Call) :
    (s.asChoose op).doCall op' x = (s.doCall op' x).map (asChoose op) := by
  cases x with
  | bundle mem h =>
    refine bind_eq_map (asChoose_bundleMake _ _) fun o => ?_
    cases o <;> exact ok_ret hop _ _ _
  | go bndl mem stack h => exact asChoose_prologue hop _ _ _ _
  | yield => exact congrArg Except.ok (asChoose_yield hop)
  | msleep d => exact congrArg Except.ok (asChoose_msleep hop _)
  | fdwait sd fd d ctl => exact congrArg Except.ok (asChoose_fdwait hop _ _ _ _)
  | fdclean fd => exact asChoose_fdclean hop _
  | chmake h₀ h₁ => exact asChoose_chmake hop _ _
  | chsend h val len d => exact asChoose_chanOp hop _ _ _ _ _
  | chrecv h val len d => exact asChoose_chanOp hop _ _ _ _ _
  | choose cls d => exact asChoose_choose hop _ _
  | chdone h => exact asChoose_chdone hop _
  | bundleWait h d => exact congrArg Except.ok (asChoose_bundleWait hop _ _)
  | hmake valid h =>
    unfold doCall
    dsimp only
    split
    · exact ok_ret hop _ _ _
    · refine bind_eq_map (asChoose_hmake _ _) fun o => ?_
      cases o <;> exact ok_ret hop _ _ _
  | hclose h => exact asChoose_hclose hop _

/-- Call `op` is a `chsend` or `chrecv`. -/
def ChanCalled (s : Ctx) (op : ℕ) : Prop :=
  ∃ c j sd h val len d, s.Called c j ∧ j.op = op ∧ j.call = Call.chan sd h val len d

/-- The log only grows. -/
theorem mem_log_micro {l : Bool} {k k' : Cur} (hm : Micro l k s k' s') {x : Event}
    (hx : x ∈ s.log) : x ∈ s'.log := by
  cases hm with
  | quiet hq =>
    rw [hq.log]
    exact hx
  | meet ha hd hq =>
    unfold met
    split <;> exact List.mem_append_left _ hx
  | ret hv hc => exact List.mem_append_left _ hx
  | timer deadline hi hf =>
    unfold Ctx.timer
    split <;> exact hx
  | closeWait hd =>
    unfold closeWaited
    dsimp only
    split <;> exact hx
  | closeEnd hh => exact List.mem_append_left _ hx
  | _ => exact hx

theorem mem_log_step (hg : Good .idle s) {a : Act} (hs : s.step a = .ok s') {x : Event}
    (hx : x ∈ s.log) : x ∈ s'.log :=
  ((step_post hg a).of_ok hs).keeps (I := fun _ s => x ∈ s.log)
    ⟨fun _ _ _ _ hx => List.mem_append_left _ hx, fun _ _ _ hx => hx, fun _ _ _ hx => hx⟩
    (fun _ _ _ _ _ _ hx hm => mem_log_micro hm hx) hg hx

theorem ChanCalled.step (h : s.ChanCalled op) (hg : Good .idle s) {a : Act}
    (hs : s.step a = .ok s') : s'.ChanCalled op := by
  obtain ⟨c, j, sd, x, val, len, d, hj, hop, hcall⟩ := h
  exact ⟨c, j, sd, x, val, len, d, mem_log_step hg hs hj, hop, hcall⟩

/-- The call is suspended as a channel operation only. -/
theorem ChanCalled.frame (h : s.ChanCalled op) (hs : Reachable s) {f : Frame}
    (hf : (s.crs c).frame = some (op, f)) (he : f ≠ .epilogue) : ∃ sd, f = .chan sd := by
  obtain ⟨c', j, sd, x, val, len, d, hj, rfl, hcall⟩ := h
  obtain ⟨j', hop, hj', hof⟩ := hs.good.frames.logged c j.op f hf he
  obtain ⟨-, rfl⟩ := hs.hist.called_unique _ _ _ _ hj' hj hop
  rw [hcall] at hof
  cases sd <;> cases f <;> first | exact hof.elim | exact ⟨_, rfl⟩

/-- **Every action does the same whether the call is a channel operation or a `choose`.** -/
theorem step_asChoose (h : s.ChanCalled op) (hs : Reachable s) (a : Act) :
    (s.asChoose op).step a = (s.step a).map (asChoose op) := by
  have hlt : op < s.nops := by
    obtain ⟨c, j, sd, x, val, len, d, hj, rfl, -⟩ := h
    exact hs.hist.op_lt c j hj
  have hop : s.nops ≠ op := hlt.ne'
  unfold step
  rw [asChoose_phase, asChoose_r]
  cases a with
  | call x =>
    dsimp only
    split
    · rw [asChoose_enter hop]
      exact asChoose_doCall hop x
    · rfl
  | write a x =>
    dsimp only
    split <;> rfl
  | hcloseEnd =>
    dsimp only
    split
    · exact asChoose_hcloseEnd
    · rfl
  | exit =>
    have hbundle : ((s.asChoose op).crs s.r).bundle = (s.crs s.r).bundle := rfl
    have hclosing : ((s.asChoose op).crs s.r).closing = (s.crs s.r).closing := rfl
    dsimp only
    rw [hbundle, hclosing]
    split
    · exact asChoose_epilogue
    · rfl
  | poll nw answers =>
    dsimp only
    split
    · exact asChoose_poll nw answers
    · rfl
  | switch =>
    dsimp only
    split
    · rename_i hp
      refine asChoose_switch fun c rest f hready hf => ?_
      have hin : c ∈ s.ready := by
        rw [hready]
        exact .head _
      have hpend := hs.good.toMid.pending (hs.good.ready_lt c hin) hf (by rw [hp]; simp)
      have hout := hpend.outcome hin
      have he : f ≠ .epilogue := by
        rintro rfl
        exact hout
      obtain ⟨sd, rfl⟩ := h.frame hs hf he
      exact ⟨sd, rfl, hout⟩
    · rfl

/-- **So does every run.** -/
theorem run_asChoose (h : s.ChanCalled op) (hs : Reachable s) (as : List Act) :
    run step (s.asChoose op) as = (run step s as).map (asChoose op) :=
  run_eq_map (I := fun s => Reachable s ∧ s.ChanCalled op)
    (fun _ a _ h hstep => ⟨.step a h.1 trivial hstep, h.2.step h.1.good hstep⟩)
    (fun _ a h => step_asChoose h.2 h.1 a) ⟨hs, h⟩ as

/-! ## The call itself -/

/-- Nothing is relabelled before the call. -/
theorem asChoose_new (hs : Reachable s) : s.asChoose s.nops = s := by
  have hlog : s.log.map (Event.asChoose s.nops) = s.log := by
    refine (List.map_congr_left fun e he => ?_).trans (List.map_id s.log)
    cases e with
    | call op' c x objs =>
      have hlt : op' < s.nops := hs.hist.op_lt c ⟨op', x, objs⟩ he
      simp only [Event.asChoose, if_neg hlt.ne, id]
    | ret op' v e =>
      have hlt : op' < s.nops := hs.hist.ret_lt op' v e he
      simp only [Event.asChoose, if_neg hlt.ne, id]
    | meet m => rfl
  have hcrs : (fun c => (s.crs c).asChoose s.nops) = s.crs := by
    funext c
    have hframe : (s.crs c).frame.map
        (fun p => (p.1, if p.1 = s.nops then p.2.asChoose else p.2)) = (s.crs c).frame := by
      cases hf : (s.crs c).frame with
      | none => rfl
      | some p =>
        obtain ⟨op', f⟩ := p
        by_cases he : f = .epilogue
        · rw [he]
          simp only [Option.map_some, Frame.asChoose, ite_self]
        · obtain ⟨j, rfl, hj, -⟩ := hs.good.frames.logged c op' f hf he
          have hlt : j.op < s.nops := hs.hist.op_lt c j hj
          simp only [Option.map_some, if_neg hlt.ne]
    unfold Cr.asChoose
    rw [hframe]
  unfold asChoose
  rw [hlog, hcrs]

/-- The call itself is recorded as a `choose`. -/
theorem asChoose_enter_chan (hs : Reachable s) (sd : Side) (h : Handle) (val : Addr) (len : ℕ)
    (d : ℤ) : (s.enter (Call.chan sd h val len d)).asChoose s.nops =
      s.enter (.choose (some [⟨some sd, h, val, len⟩]) d) := by
  have hevent : Event.asChoose s.nops
      (.call s.nops s.r (Call.chan sd h val len d)
        ((Call.chan sd h val len d).handles.map s.handles)) =
      .call s.nops s.r (.choose (some [⟨some sd, h, val, len⟩]) d) [s.handles h] := by
    simp only [Event.asChoose, if_true]
    cases sd <;> rfl
  have hbefore := asChoose_new hs
  have hlog : s.log.map (Event.asChoose s.nops) = s.log := congrArg Ctx.log hbefore
  have hcrs : (fun c => (s.crs c).asChoose s.nops) = s.crs := congrArg Ctx.crs hbefore
  unfold enter asChoose
  rw [List.map_append, hlog, hcrs, List.map_singleton, hevent]
  rfl

theorem asChoose_block_self (sd : Side) :
    (s.block op (.chan sd)).asChoose op = (s.asChoose op).block op (.choose 1) := by
  have hupd : (s.updCr s.r fun cr => { cr with frame := some (op, .chan sd) }).asChoose op =
      (s.asChoose op).updCr s.r fun cr => { cr with frame := some (op, .choose 1) } := by
    unfold updCr asChoose
    congr 1
    funext x
    by_cases hx : x = s.r
    · subst hx
      simp only [Function.update_self, Cr.asChoose, Option.map_some, if_true, Frame.asChoose]
    · simp only [Function.update_of_ne hx]
  exact congrArg (fun x : Ctx => { x with phase := .wait }) hupd

/-- The two functions compared, before their caller is suspended. -/
theorem choose_single {k : Cur} (hg : Good k s) {sd : Side} {h : Handle} {val : Addr} {len : ℕ}
    (d : ℤ) (hval : val ≠ 0 ∨ len = 0) :
    (s.asChoose op).choose op (some [⟨some sd, h, val, len⟩]) d =
      (s.chanOp op sd h val len d).map (asChoose op) := by
  have hret {v : ℤ} {e : Errno} {p : ℤ × Errno} (s' : Ctx) (hp : chooseReport v e = p) :
      Except.ok ((s'.asChoose op).ret op p.1 p.2) =
        (Except.ok (s'.ret op v e) : Except Stop Ctx).map (asChoose op) := by
    rw [← hp]
    exact congrArg Except.ok (asChoose_ret_self v e).symm
  have hval' : ¬(len > 0 ∧ val = 0) := by
    rintro ⟨hlen, hv⟩
    rcases hval with hne | hl
    · exact hne hv
    · exact hlen.ne' hl
  unfold chanOp
  rw [choose.eq_def, asChoose_canblock]
  split
  · exact hret (p := (-1, .ECANCELED)) s rfl
  · dsimp only
    rw [scan, asChoose_hqueryHalf]
    cases hq : s.hqueryHalf h with
    | error e =>
      have he : chooseReport (-1) e = (0, e) := by
        rcases hqueryHalf_error hq with rfl | rfl <;> rfl
      exact hret s he
    | ok ch =>
      dsimp only
      rw [if_neg hval', asChoose_tryClause]
      cases ht : s.tryClause op 0 sd (target ch sd) val len with
      | error r => rfl
      | ok o =>
        cases o with
        | some q =>
          obtain ⟨e, s'⟩ := q
          have htried := (tryClause_post hg op 0 ⟨sd, target ch sd, val, len⟩).of_ok ht
          have he : chooseReport (if e = .ok then 0 else -1) e = (0, e) := by
            cases htried with
            | pipe hd => rfl
            | met hd hq => split <;> rfl
          exact hret s' he
        | none =>
          show (if d = 0 then _ else _) = Except.map _ (if d = 0 then _ else _)
          split
          · exact hret (p := (-1, .ETIMEDOUT)) s rfl
          · have hsd : (if some sd = some Side.inn then Side.inn else Side.out) = sd := by
              cases sd <;> rfl
            have hall : enqueueAll op 0 [⟨some sd, h, val, len⟩] (s.asChoose op) =
                .ok ((s.enqueue op 0 sd (target ch sd) val len).asChoose op) := by
              rw [enqueueAll, asChoose_hqueryHalf, hq, ← asChoose_enqueue]
              dsimp only
              rw [hsd, enqueueAll]
            rw [hall]
            refine congrArg Except.ok ?_
            rw [asChoose_block_self, ← asChoose_timer]
            rfl

/-- The two calls compared. -/
theorem step_single (hs : Reachable s) {sd : Side} {h : Handle} {val : Addr} {len : ℕ} (d : ℤ)
    (hval : val ≠ 0 ∨ len = 0) :
    s.step (.call (.choose (some [⟨some sd, h, val, len⟩]) d)) =
      (s.step (.call (Call.chan sd h val len d))).map (asChoose s.nops) := by
  by_cases hu : s.phase = .user
  · rw [step_chan hu, ← choose_single (hs.good.enter_job hu _) d hval, asChoose_enter_chan hs, step,
      if_pos hu]
    rfl
  · rw [step, step, if_neg hu, if_neg hu]
    rfl

/-- **All runs that start with the one call do what those do that start with the other.** -/
theorem run_single (hs : Reachable s) {sd : Side} {h : Handle} {val : Addr} {len : ℕ} (d : ℤ)
    (hval : val ≠ 0 ∨ len = 0) (as : List Act) :
    run step s (.call (.choose (some [⟨some sd, h, val, len⟩]) d) :: as) =
      (run step s (.call (Call.chan sd h val len d) :: as)).map (asChoose s.nops) := by
  rw [run, run, step_single hs d hval]
  cases hstep : s.step (.call (Call.chan sd h val len d)) with
  | error r => rfl
  | ok s' =>
    refine run_asChoose ?_ (.step _ hs trivial hstep) as
    refine ⟨s.r, s.job (Call.chan sd h val len d), sd, h, val, len, d, ?_, rfl, rfl⟩
    cases (step_post hs.good _).of_ok hstep with
    | call hu hc =>
      exact hc.micros.keeps (I := fun _ t => t.Called s.r (s.job (Call.chan sd h val len d)))
        (fun _ _ _ _ hx hm => mem_log_micro hm hx) (List.mem_append_right _ (.head _))

end Ctx

end Libdill.Sched
