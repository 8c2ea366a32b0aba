import Libdill.Foundations.Run
import Libdill.Sched.Chan

/-!
# Runs of the scheduler

A run is a sequence of actions. While a coroutine runs, it makes library calls, stores to memory,
returns from a close callback of its own or ends; every one of these is one action. A call that
suspends it leaves `dill_wait` in two further actions, `poll` and `switch`; the second one runs
the next coroutine up to the point where it is back in the code of the user or suspended again.
Which coroutine does what is left open, so the runs are those of all programs, and the times, the
poll results and the numbers of new handles are arbitrary inputs.
-/

namespace Libdill.Sched

open Foundations

/-- The actions of a run. -/
inductive Act
  | call (c : Call)
  /-- The running coroutine stores a byte. -/
  | write (a : Addr) (x : UInt8)
  /-- The close callback of a user-defined object returns. -/
  | hcloseEnd
  /-- The function of the running coroutine returns: `dill_epilogue`. -/
  | exit
  /-- `dill_wait` reads the clock and, if it has to, polls. -/
  | poll (nw : ℤ) (answers : List Ctx.PollAnswer)
  /-- `dill_wait` jumps to the next coroutine. -/
  | switch

namespace Ctx

/-- The call numbered `op`, already recorded. -/
def doCall (s : Ctx) (op : ℕ) : Call → Except Stop Ctx
  | .bundle mem h => do
    match ← s.bundleMake mem h with
    | none => .ok (s.ret op (-1) .ECANCELED)
    | some s' => .ok (s'.ret op h .ok)
  | .go bndl mem stack h => s.prologue op bndl mem stack h
  | .yield => .ok (s.yield op)
  | .msleep deadline => .ok (s.msleep op deadline)
  | .fdwait sd fd deadline ctl => .ok (s.fdwait op sd fd deadline ctl)
  | .fdclean fd => s.fdclean op fd
  | .chmake h₀ h₁ => s.chmake op h₀ h₁
  | .chsend h val len deadline => s.chsend op h val len deadline
  | .chrecv h val len deadline => s.chrecv op h val len deadline
  | .choose clauses deadline => s.choose op clauses deadline
  | .chdone h => s.chdone op h
  | .bundleWait h deadline => .ok (s.bundleWait op h deadline)
  | .hmake valid h => do
    if !valid then .ok (s.ret op (-1) .EINVAL)
    else match ← s.hmake h .user with
      | none => .ok (s.ret op (-1) .ECANCELED)
      | some s' => .ok (s'.ret op h .ok)
  | .hclose h => s.hclose op h

/-- One action. -/
def step (s : Ctx) : Act → Except Stop Ctx
  | .call c => if s.phase = .user then (s.enter c).doCall s.nops c else .error .stuck
  | .write a x =>
    if s.phase = .user then .ok { s with mem := Function.update s.mem a x } else .error .stuck
  | .hcloseEnd => if s.phase = .user then s.hcloseEnd else .error .stuck
  | .exit =>
    if s.phase = .user ∧ (s.crs s.r).bundle ≠ none ∧ (s.crs s.r).closing = [] then s.epilogue
    else .error .stuck
  | .poll nw answers => if s.phase = .wait then s.poll nw answers else .error .stuck
  | .switch => if s.phase = .switch then s.switch else .error .stuck

end Ctx

/-- The states that some run of some program reaches. -/
abbrev Reachable (s : Ctx) : Prop := Reach Ctx.step Ctx.IsInit (fun _ _ => True) s

/-- An initial state, with room for 16 descriptors and all memory zero. -/
def Ctx.init : Ctx where
  r := 0
  phase := .user
  ready := []
  timers := []
  lastPoll := 0
  ncrs := 1
  crs _ := {}
  nchans := 0
  half _ := {}
  nbundles := 0
  bundles _ := {}
  handles _ := none
  nfdinfos := 16
  fds _ := {}
  mem _ := 0
  nops := 0
  log := []

theorem Ctx.init_isInit : Ctx.init.IsInit := by constructor <;> rfl

/-- A run from the initial state ends in a reachable state. -/
theorem reachable_of_run {as : List Act} {s : Ctx} (h : run Ctx.step Ctx.init as = .ok s) :
    Reachable s :=
  reach_of_run (fun _ _ => trivial) (.init Ctx.init_isInit) h

end Libdill.Sched
