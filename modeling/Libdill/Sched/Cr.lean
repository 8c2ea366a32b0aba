import Libdill.Foundations.SortedInsert
import Libdill.Sched.State
import Mathlib.Algebra.Order.Ring.Nat

/-!
# Coroutines: suspending, resuming, bundles

The functions of `cr.c`, with `msleep`, `fdin`, `fdout` and `fdclean` of `libdill.c` and the part
of `handle.c` they need. A function returns the next state, or the reason why the run stops; a
call that returns to its caller records its result with `Ctx.ret`, a call that suspends its
caller ends with `Ctx.block`.
-/

namespace Libdill.Sched

open Foundations

namespace Ctx

/-! ## Suspend and resume -/

/-- `dill_resume`. -/
def resume (s : Ctx) (c : CrId) (id : ℤ) (err : Errno) : Ctx :=
  { s.updCr c fun cr => { cr with id := id, err := err, readyNext := true } with
    ready := s.ready ++ [c] }

/-- `dill_waitfor`: the running coroutine will wait on the clause. -/
def waitfor (s : Ctx) (cl : Clause) : Ctx :=
  s.updCr s.r fun cr => { cr with clauses := cl :: cr.clauses }

/-- `dill_timer`; a negative deadline is infinite. -/
def timer (s : Ctx) (id : ℕ) (deadline : ℤ) : Ctx :=
  if deadline < 0 then s
  else { s with timers := insertAfter Timer.val ⟨deadline, s.r, id⟩ s.timers }.waitfor ⟨id, .timer⟩

/-- `cl->cancel(cl)` for a clause of coroutine `c`: unlink it from its endpoint. -/
def cancelClause (c : CrId) (s : Ctx) (cl : Clause) : Ctx :=
  match cl.cancel with
  | .null => s
  | .timer => { s with timers := s.timers.filter fun t => ¬(t.cr = c ∧ t.id = cl.id) }
  | .ch h sd => s.updHalf h fun x => { x with
      queue := Function.update x.queue sd
        ((x.queue sd).filter fun e => ¬(e.cr = c ∧ e.id = cl.id)) }
  | .fd f sd => s.updFd f fun x => { x with waiter := Function.update x.waiter sd none }

/-- `dill_docancel`. -/
def docancel (s : Ctx) (c : CrId) (id : ℤ) (err : Errno) : Except Stop Ctx :=
  if (s.crs c).readyNext then .error .assertDocancel
  else .ok (((s.crs c).clauses.foldl (cancelClause c) s).resume c id err)

/-- `dill_trigger`. -/
def trigger (s : Ctx) (cl : ClauseRef) (err : Errno) : Except Stop Ctx := s.docancel cl.cr cl.id err

/-- `dill_cancel`. -/
def cancel (s : Ctx) (c : CrId) (err : Errno) : Except Stop Ctx := s.docancel c (-1) err

/-- `dill_yield`. -/
def yield (s : Ctx) (op : ℕ) : Ctx :=
  if !s.canblock then s.ret op (-1) .ECANCELED
  else (s.resume s.r 0 .ok).block op .yield

/-- `dill_msleep`. -/
def msleep (s : Ctx) (op : ℕ) (deadline : ℤ) : Ctx :=
  if !s.canblock then s.ret op (-1) .ECANCELED
  else (s.timer 1 deadline).block op .msleep

/-- `dill_fdin` (`inn`) and `dill_fdout` (`out`) with `dill_pollset_in` and `dill_pollset_out`. -/
def fdwait (s : Ctx) (op : ℕ) (sd : Side) (fd deadline : ℤ) (ctl : Errno) : Ctx :=
  if !s.canblock then s.ret op (-1) .ECANCELED
  else if fd < 0 ∨ s.nfdinfos ≤ fd then s.ret op (-1) .EBADF
  else if !(s.fds fd.toNat).cached ∧ ctl ≠ .ok then s.ret op (-1) ctl
  else
    let s := if (s.fds fd.toNat).cached then s else s.updFd fd.toNat fun _ => { cached := true }
    if (s.fds fd.toNat).waiter sd ≠ none then s.ret op (-1) .EBUSY
    else
      ((s.updFd fd.toNat fun x =>
        { x with waiter := Function.update x.waiter sd (some ⟨s.r, 1⟩) }).waitfor
          ⟨1, .fd fd.toNat sd⟩ |>.timer 2 deadline).block op .fdwait

/-- `dill_pollset_clean`; it does not check the range of the descriptor. -/
def fdclean (s : Ctx) (op : ℕ) (fd : ℤ) : Except Stop Ctx :=
  if fd < 0 ∨ s.nfdinfos ≤ fd then .error .undefined
  else if !(s.fds fd.toNat).cached then .ok (s.ret op 0 .ok)
  else if (s.fds fd.toNat).waiter .inn ≠ none ∨ (s.fds fd.toNat).waiter .out ≠ none then
    .ok (s.ret op (-1) .EBUSY)
  else .ok ((s.updFd fd.toNat fun x => { x with cached := false }).ret op 0 .ok)

/-! ## Handles and bundles -/

/-- `dill_hmake` on a valid table of functions; `none` is a failure with `ECANCELED`. -/
def hmake (s : Ctx) (h : Handle) (o : Obj) : Except Stop (Option Ctx) :=
  if !s.canblock then .ok none
  else if 0 ≤ h ∧ s.handles h = none then .ok (some (s.setHandle h (some o)))
  else .error .stuck

/-- `dill_hquery(h, dill_bundle_type)`. -/
def hqueryBundle (s : Ctx) (h : Handle) : Except Errno BundleId :=
  match s.handles h with
  | none => .error .EBADF
  | some (.bundle b) => .ok b
  | some _ => .error .ENOTSUP

/-- `dill_bundle` and `dill_bundle_mem`. -/
def bundleMake (s : Ctx) (mem : Bool) (h : Handle) : Except Stop (Option Ctx) :=
  { s with
    nbundles := s.nbundles + 1
    bundles := Function.update s.bundles s.nbundles { mem := mem, owner := s.r } }.hmake h
      (.bundle s.nbundles)

/-- `dill_bundle_wait`. -/
def bundleWait (s : Ctx) (op : ℕ) (h : Handle) (deadline : ℤ) : Ctx :=
  if !s.canblock then s.ret op (-1) .ECANCELED
  else match s.hqueryBundle h with
    | .error e => s.ret op (-1) e
    | .ok b =>
      if (s.bundles b).crs = [] then s.ret op 0 .ok
      else ((s.updBundle b fun x => { x with waiter := some ⟨s.r, 0⟩ }).waitfor ⟨0, .null⟩
        |>.timer 1 deadline).block op (.bundleWait b)

/-- The end of `dill_cr_close`: the stack goes back to the cache. -/
def freeCr (s : Ctx) (c : CrId) : Except Stop Ctx :=
  if (s.crs c).mem then .ok s
  else if (s.crs c).freed then .error .undefined
  else .ok (s.updCr c fun cr => { cr with freed := true })

/-- The end of `dill_bundle_close` and of the `dill_hclose` around it. -/
def finishClose (s : Ctx) (b : BundleId) (h : Handle) (old : Bool) : Except Stop Ctx :=
  if (s.bundles b).freed then .error .undefined
  else .ok (((s.updBundle b fun x => { x with freed := !x.mem }).updCr s.r fun cr =>
    { cr with noBlocking2 := old }).setHandle h none)

/-- The loop of `dill_bundle_close` from the item `it` on, with `dill_cr_close` for each
coroutine. It is left in the middle when a coroutine has to be waited for. -/
def closeCrs (op : ℕ) (b : BundleId) (h : Handle) (old : Bool) :
    List CrId → Ctx → Except Stop Ctx
  | [], s => do
    let s ← s.finishClose b h old
    .ok (s.ret op 0 .ok)
  | c :: rest, s =>
    if (s.crs c).freed then .error .undefined
    else if (s.crs c).done then do
      let s ← s.freeCr c
      closeCrs op b h old rest s
    else do
      let s := s.updCr c fun cr => { cr with noBlocking1 := true }
      let s ← if (s.crs c).readyNext then .ok s else s.cancel c .ECANCELED
      let s := s.updCr c fun cr => { cr with closer := some s.r }
      .ok (s.block op (.crClose b h old c))

/-- The items behind `it` in a list. -/
def after (it : CrId) (l : List CrId) : List CrId := (l.dropWhile (· ≠ it)).tail

/-- The rest of `dill_prologue` once the bundle and the stack are there: the parent becomes ready
and the new coroutine runs. -/
def launch (s : Ctx) (op : ℕ) (b : BundleId) (mem : Bool) (v : Handle) : Ctx :=
  let c := s.ncrs
  let s₁ := { s with
    ncrs := c + 1
    crs := Function.update s.crs c { bundle := some b, mem := mem } }
  let s₂ := s₁.updBundle b fun x => { x with crs := x.crs ++ [c] }
  let s₃ := (s₂.updCr s.r fun cr => { cr with frame := some (op, .go v) }).resume s.r 0 .ok
  { s₃ with r := c }

/-- `dill_prologue`. -/
def prologue (s : Ctx) (op : ℕ) (bndl : Handle) (mem stack : Bool) (h : Handle) :
    Except Stop Ctx :=
  if !s.canblock then .ok (s.ret op (-1) .ECANCELED)
  else if bndl < 0 then do
    match ← s.bundleMake mem h with
    | none => .ok (s.ret op (-1) .ECANCELED)
    | some s' =>
      if stack then .ok (s'.launch op s.nbundles mem h)
      else do
        let s' ← s'.finishClose s.nbundles h (s.crs s.r).noBlocking2
        .ok (s'.ret op (-1) .ENOMEM)
  else match s.hqueryBundle bndl with
    | .error e => .ok (s.ret op (-1) e)
    | .ok b => if stack then .ok (s.launch op b mem 0) else .ok (s.ret op (-1) .ENOMEM)

/-- The first part of `dill_epilogue`: resume the coroutine that waits for this one to finish. -/
def wakeCloser (s : Ctx) : Except Stop Ctx :=
  match (s.crs s.r).closer with
  | some p => s.cancel p .ok
  | none => .ok s

/-- If this is the last coroutine of the bundle, resume whoever waits for the bundle. -/
def wakeWaiter (s : Ctx) (b : BundleId) : Except Stop Ctx :=
  if (s.bundles b).crs.length = 1 then
    match (s.bundles b).waiter with
    | some w => s.trigger w .ok
    | none => .ok s
  else .ok s

/-- The part of `dill_epilogue` for a coroutine that is not being closed: it leaves its bundle
and its stack is freed. -/
def leaveBundle (s : Ctx) : Except Stop Ctx :=
  if (s.crs s.r).noBlocking1 then .ok s
  else match (s.crs s.r).bundle with
    | none => .ok s
    | some b => do
      let s ← s.wakeWaiter b
      (s.updBundle b fun x => { x with crs := x.crs.erase s.r }).freeCr s.r

/-- `dill_epilogue`. -/
def epilogue (s : Ctx) : Except Stop Ctx := do
  let s := s.updCr s.r fun cr => { cr with done := true }
  let s ← s.wakeCloser
  let s ← s.leaveBundle
  if (s.crs s.r).clauses = [] then .ok (s.block 0 .epilogue) else .error .assertEpilogue

/-! ## The scheduler -/

/-- An event of the pollset: the descriptor, and whether it wakes a reader and a writer. -/
structure FdEvent where
  fd : ℕ
  fires : Side → Bool

/-- What the outside answers in one turn of the polling loop: the events of the pollset (`none`
when the poll was interrupted) and the time after it. -/
structure PollAnswer where
  events : Option (List FdEvent)
  now : ℤ

/-- Wake the coroutine waiting on one side of a descriptor, if there is one and it should. -/
def fireFd (ev : FdEvent) (sd : Side) (s : Ctx) : Except Stop (Bool × Ctx) :=
  match (s.fds ev.fd).waiter sd, ev.fires sd with
  | some cl, true => do
    let s ← s.trigger cl .ok
    .ok (true, s)
  | _, _ => .ok (false, s)

/-- `dill_pollset_poll`, as `pollset.h` specifies it for every back end: wake the coroutines the
events are for, and tell whether at least one was woken. -/
def pollsetPoll : List FdEvent → Ctx → Except Stop (Bool × Ctx)
  | [], s => .ok (false, s)
  | ev :: evs, s => do
    let (f₁, s) ← fireFd ev .inn s
    let (f₂, s) ← fireFd ev .out s
    let (f₃, s) ← pollsetPoll evs s
    .ok (f₁ || f₂ || f₃, s)

/-- The loop that fires the expired timers; the first argument bounds its turns. -/
def fireTimers (nw : ℤ) : ℕ → Ctx → Except Stop (Bool × Ctx)
  | n, s =>
    match s.timers, n with
    | [], _ => .ok (false, s)
    | t :: _, 0 => if t.val > nw then .ok (false, s) else .error .diverge
    | t :: _, n + 1 =>
      if t.val > nw then .ok (false, s)
      else do
        let s ← s.trigger ⟨t.cr, t.id⟩ .ETIMEDOUT
        let (_, s) ← fireTimers nw n s
        .ok (true, s)

/-- The timeout passed to the poll, an `int`. -/
def pollTimeout (block : Bool) (nw : ℤ) (s : Ctx) : ℤ :=
  if block then
    match s.timers with
    | [] => -1
    | t :: _ => (if nw ≥ t.val then 0 else t.val - nw).bmod (2 ^ 32)
  else 0

/-- The polling loop of `dill_wait`. -/
def pollLoop (block : Bool) : List PollAnswer → ℤ → Ctx → Except Stop Ctx
  | [], _, _ => .error .stuck
  | a :: rest, nw, s =>
    let nw' := if pollTimeout block nw s ≠ 0 then a.now else nw
    match a.events with
    | none => pollLoop block rest nw' s
    | some evs => do
      let (fired, s) ← pollsetPoll evs s
      let (fired', s) ← fireTimers nw' s.timers.length s
      if !block || fired || fired' then .ok { s with lastPoll := nw' }
      else pollLoop block rest nw' s

/-- `dill_wait` up to the choice of the next coroutine. -/
def poll (s : Ctx) (nw : ℤ) (answers : List PollAnswer) : Except Stop Ctx := do
  let s ←
    if s.ready = [] ∨ nw > s.lastPoll + 1000 then pollLoop (s.ready = []) answers nw s
    else .ok s
  .ok { s with phase := .switch }

/-- What the caller of `dill_wait` (or the `go` macro) makes of its result. -/
def result : Frame → ℤ → Errno → ℤ × Errno
  | .go h, _, e => (h, e)
  | .yield, id, e => (id, e)
  | .msleep, id, e => if id < 0 then (-1, e) else (0, e)
  | .fdwait, id, e => if id < 0 then (-1, e) else if id = 2 then (-1, .ETIMEDOUT) else (0, e)
  | .chan _, id, e =>
    if id < 0 then (-1, e) else if id = 1 then (-1, .ETIMEDOUT) else
    if e ≠ .ok then (-1, e) else (0, .ok)
  | .choose n, id, e => if id < 0 then (-1, e) else if id = n then (-1, .ETIMEDOUT) else (id, e)
  | .bundleWait _, id, e => if id < 0 then (-1, e) else if id = 1 then (-1, .ETIMEDOUT) else (0, e)
  | .crClose .., id, e => (id, e)
  | .epilogue, id, e => (id, e)

/-- Pop the next coroutine and resume it: its clauses are dropped (there are none when it
continues in `go`). -/
def popped (s : Ctx) (c : CrId) (rest : List CrId) : Ctx :=
  { s.updCr c fun cr => { cr with readyNext := false, frame := none, clauses := [] } with
    ready := rest
    r := c
    phase := .user }

/-- The end of `dill_wait`, and what the coroutine it jumps to does until it is back in the code
of the user or suspended again. -/
def switch (s : Ctx) : Except Stop Ctx :=
  match s.ready with
  | [] => .error .undefined
  | c :: rest =>
    let id := (s.crs c).id
    let err := (s.crs c).err
    match (s.crs c).frame with
    | none => .error .undefined
    | some (_, .epilogue) => .error .undefined
    | some (op, .crClose b h old it) =>
      if id = -1 ∧ err = .ECANCELED then .error .assertCrCanceled
      else if ¬(id = -1 ∧ err = .ok) then .error .assertCrResult
      else do
        let s ← (s.popped c rest).freeCr it
        closeCrs op b h old (after it (s.bundles b).crs) s
    | some (op, .bundleWait b) =>
      if (s.bundles b).freed then .error .undefined
      else if 0 ≤ id ∧ id ≠ 1 ∧ id ≠ 0 then .error .assertBundleWait
      else .ok (((s.popped c rest).updBundle b fun x => { x with waiter := none }).ret op
        (result (.bundleWait b) id err).1 (result (.bundleWait b) id err).2)
    | some (op, f) => .ok ((s.popped c rest).ret op (result f id err).1 (result f id err).2)

end Ctx

end Libdill.Sched
