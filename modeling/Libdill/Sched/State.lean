import Mathlib.Logic.Function.Basic
import Mathlib.Data.Int.Notation
import Mathlib.Data.Nat.Notation

/-!
# The scheduler context

The data of `cr.h`, `chan.c`, `cr.c` and `pollset.h` that the coroutine scheduler and the
channels work on. Pointers are replaced by numbers: a coroutine, a channel and a bundle are
numbered in the order of their creation and a number is never used again, and a clause, which
lives on the stack of the coroutine that waits on it, is the pair of that coroutine and the
number `id` it passed to `dill_waitfor`.

The list of timers is the sorted list that the red-black tree of `rbtree.c` stands for, the
ready queue is a list, and the pollset is what every back end shows to the scheduler: the two
clauses waiting on each file descriptor.

The last fields of `Ctx` are history: they number the calls and record what was called, what was
returned and what was passed through the channels. No function reads them.
-/

namespace Libdill.Sched

/-- The values of `errno`; `ok` is zero. -/
inductive Errno
  | ok
  | EINVAL
  | ENOMEM
  | ECANCELED
  | ETIMEDOUT
  | EPIPE
  | EMSGSIZE
  | EBADF
  | ENOTSUP
  | EBUSY
  deriving DecidableEq, Repr

abbrev CrId := ℕ
abbrev BundleId := ℕ
abbrev Handle := ℤ
abbrev Addr := ℕ

/-- The two lists of a half-channel, `in` (clauses that want to receive) and `out` (clauses that
want to send); also the two waiters of a file descriptor. -/
inductive Side
  | inn
  | out
  deriving DecidableEq, Repr

/-- The side the other party of a transfer waits on. -/
def Side.peer : Side → Side
  | .inn => .out
  | .out => .inn

/-- A half-channel: the channel and `dill_halfchan.index`. -/
structure HalfRef where
  chan : ℕ
  index : Bool
  deriving DecidableEq, Repr

/-- `dill_halfchan_other`. -/
def HalfRef.other (h : HalfRef) : HalfRef := { h with index := !h.index }

@[simp] theorem HalfRef.other_other (h : HalfRef) : h.other.other = h := by
  cases h; simp [HalfRef.other]

/-- A pointer to a `dill_clause`: the coroutine that waits on it and its number there. -/
structure ClauseRef where
  cr : CrId
  id : ℕ
  deriving DecidableEq, Repr

/-- `dill_clause.cancel` with the endpoint it unlinks the clause from. -/
inductive Cancel
  /-- `NULL`: the clause of `dill_bundle_wait`. -/
  | null
  /-- `dill_timer_cancel`. -/
  | timer
  /-- `dill_chcancel`; the clause is linked in this list of this half-channel. -/
  | ch (h : HalfRef) (sd : Side)
  /-- `dill_fdcancelin`, `dill_fdcancelout`. -/
  | fd (fd : ℕ) (sd : Side)
  deriving DecidableEq, Repr

/-- `struct dill_clause`, as linked in the `clauses` list of its coroutine. -/
structure Clause where
  id : ℕ
  cancel : Cancel
  deriving DecidableEq, Repr

/-- `struct dill_chanclause`. `op` is history: the call that made the clause. -/
structure ChanClause where
  cr : CrId
  id : ℕ
  val : Addr
  len : ℕ
  op : ℕ
  deriving DecidableEq, Repr

/-- `struct dill_tmclause`. -/
structure Timer where
  val : ℤ
  cr : CrId
  id : ℕ
  deriving DecidableEq, Repr

/-- Where a suspended coroutine continues: the function that called `dill_wait` (for `go`, the
`dill_setjmp` of the macro), with the local variables it uses afterwards. -/
inductive Frame
  | go (h : Handle)
  | yield
  | msleep
  /-- `dill_fdin` and `dill_fdout`. -/
  | fdwait
  /-- `dill_chrecv` and `dill_chsend`. -/
  | chan (sd : Side)
  | choose (nclauses : ℕ)
  | bundleWait (b : BundleId)
  /-- `dill_cr_close(it)` inside `dill_bundle_close(b)` inside `dill_hclose(h)`. -/
  | crClose (b : BundleId) (h : Handle) (old : Bool) (it : CrId)
  | epilogue
  deriving DecidableEq, Repr

/-- `struct dill_cr`. `readyNext` is `ready.next != NULL`; `frame` stands for `ctx`, together
with the number of the call in progress; `closing` holds the `dill_hclose` calls whose
user-defined close callback is running, with their saved `old`; `freed` is set by
`dill_freestack`. -/
structure Cr where
  readyNext : Bool := false
  id : ℤ := 0
  err : Errno := .ok
  clauses : List Clause := []
  bundle : Option BundleId := none
  noBlocking1 : Bool := false
  noBlocking2 : Bool := false
  done : Bool := false
  mem : Bool := false
  closer : Option CrId := none
  frame : Option (ℕ × Frame) := none
  closing : List (ℕ × Handle × Bool) := []
  freed : Bool := false
  deriving DecidableEq, Repr

/-- `struct dill_halfchan`. The field `mem` only decides whether the storage is freed after the
last close, when no handle leads to it any more. -/
structure Half where
  queue : Side → List ChanClause := fun _ => []
  done : Bool := false
  closed : Bool := false

/-- `struct dill_bundle`. `owner` is history: the coroutine that created the bundle. -/
structure Bundle where
  crs : List CrId := []
  waiter : Option ClauseRef := none
  mem : Bool := false
  freed : Bool := false
  owner : CrId := 0
  deriving DecidableEq, Repr

/-- The part of `struct dill_fdinfo` common to the back ends. -/
structure FdInfo where
  waiter : Side → Option ClauseRef := fun _ => none
  cached : Bool := false

/-- What a handle stands for. -/
inductive Obj
  | half (h : HalfRef)
  | bundle (b : BundleId)
  /-- An object of the user, passed to `hmake`. -/
  | user
  deriving DecidableEq, Repr

/-- `struct dill_chclause`; `op` is `none` for a value other than `DILL_CHSEND` (`out`) and
`DILL_CHRECV` (`inn`), and address 0 is `NULL`. -/
structure ChClause where
  op : Option Side
  ch : Handle
  val : Addr
  len : ℕ
  deriving DecidableEq, Repr

/-- The calls a coroutine can make. Where a call creates a handle, its number is part of the
call: the model leaves the choice open. -/
inductive Call
  | bundle (mem : Bool) (h : Handle)
  /-- `bundle_go`, and `go` for a negative `bndl`; `stack` tells whether a stack was obtained. -/
  | go (bndl : Handle) (mem stack : Bool) (h : Handle)
  | yield
  | msleep (deadline : ℤ)
  /-- `fdin` and `fdout`; `ctl` is the outcome of adding a descriptor that is not yet cached. -/
  | fdwait (sd : Side) (fd : ℤ) (deadline : ℤ) (ctl : Errno)
  | fdclean (fd : ℤ)
  | chmake (h₀ h₁ : Handle)
  | chsend (h : Handle) (val : Addr) (len : ℕ) (deadline : ℤ)
  | chrecv (h : Handle) (val : Addr) (len : ℕ) (deadline : ℤ)
  /-- `clauses` is `none` for arguments rejected at once: a negative count, or `NULL` with a
  positive one. -/
  | choose (clauses : Option (List ChClause)) (deadline : ℤ)
  | chdone (h : Handle)
  | bundleWait (h : Handle) (deadline : ℤ)
  /-- `valid` tells whether the table of virtual functions and its entries are non-`NULL`. -/
  | hmake (valid : Bool) (h : Handle)
  | hclose (h : Handle)
  deriving DecidableEq, Repr

/-- The handles a call works on. -/
def Call.handles : Call → List Handle
  | .go bndl _ _ _ => [bndl]
  | .chsend h _ _ _ => [h]
  | .chrecv h _ _ _ => [h]
  | .choose (some cls) _ => cls.map ChClause.ch
  | .chdone h => [h]
  | .bundleWait h _ => [h]
  | .hclose h => [h]
  | _ => []

/-- One party of a rendezvous: the call and the number of the clause in it. -/
structure Party where
  op : ℕ
  clause : ℕ
  deriving DecidableEq, Repr

/-- A rendezvous on a half-channel: `err` is `ok` when `len` bytes went from `src` to `dst`, and
`EMSGSIZE` when the lengths differed. -/
structure Meeting where
  half : HalfRef
  snd : Party
  rcv : Party
  src : Addr
  dst : Addr
  len : ℕ
  err : Errno
  deriving DecidableEq, Repr

/-- What the history records. -/
inductive Event
  /-- Call number `op` by coroutine `cr`, with the objects its handles stand for. -/
  | call (op : ℕ) (cr : CrId) (c : Call) (objs : List (Option Obj))
  | ret (op : ℕ) (v : ℤ) (e : Errno)
  | meet (m : Meeting)
  deriving DecidableEq, Repr

/-- Where the running coroutine is: in the code of the user, or in `dill_wait` before or after
the poll. -/
inductive Phase
  | user
  | wait
  | switch
  deriving DecidableEq, Repr

/-- `struct dill_ctx`: coroutines, channels, bundles, handles, timers and the pollset. -/
structure Ctx where
  r : CrId
  phase : Phase
  ready : List CrId
  timers : List Timer
  lastPoll : ℤ
  ncrs : ℕ
  crs : CrId → Cr
  nchans : ℕ
  half : HalfRef → Half
  nbundles : ℕ
  bundles : BundleId → Bundle
  handles : Handle → Option Obj
  nfdinfos : ℕ
  fds : ℕ → FdInfo
  mem : Addr → UInt8
  nops : ℕ
  log : List Event

/-- Why a run stops. -/
inductive Stop
  /-- `dill_assert` in `dill_docancel`: the coroutine is already ready. -/
  | assertDocancel
  /-- The first assertion after `dill_wait` in `dill_cr_close`: `ECANCELED`. -/
  | assertCrCanceled
  /-- The second one: some other result than `-1` with `errno` zero. -/
  | assertCrResult
  | assertBundleWait
  | assertChoose
  | assertHalfchanClose
  | assertEpilogue
  /-- Freed memory is used, or the empty ready queue is popped. -/
  | undefined
  /-- A loop of the source would not end. -/
  | diverge
  /-- The action does not apply in this state. -/
  | stuck
  deriving DecidableEq, Repr

namespace Ctx

/-- The state after `dill_ctx_init`: the main coroutine, numbered 0, runs. -/
structure IsInit (s : Ctx) : Prop where
  r : s.r = 0
  phase : s.phase = .user
  ready : s.ready = []
  timers : s.timers = []
  ncrs : s.ncrs = 1
  crs : s.crs = fun _ => {}
  nchans : s.nchans = 0
  half : s.half = fun _ => {}
  nbundles : s.nbundles = 0
  bundles : s.bundles = fun _ => {}
  handles : s.handles = fun _ => none
  fds : s.fds = fun _ => {}
  nops : s.nops = 0
  log : s.log = []

/-- Change one coroutine. -/
def updCr (s : Ctx) (c : CrId) (f : Cr → Cr) : Ctx :=
  { s with crs := Function.update s.crs c (f (s.crs c)) }

/-- Change one half-channel. -/
def updHalf (s : Ctx) (h : HalfRef) (f : Half → Half) : Ctx :=
  { s with half := Function.update s.half h (f (s.half h)) }

/-- Change one bundle. -/
def updBundle (s : Ctx) (b : BundleId) (f : Bundle → Bundle) : Ctx :=
  { s with bundles := Function.update s.bundles b (f (s.bundles b)) }

/-- Change the record of one file descriptor. -/
def updFd (s : Ctx) (fd : ℕ) (f : FdInfo → FdInfo) : Ctx :=
  { s with fds := Function.update s.fds fd (f (s.fds fd)) }

def setHandle (s : Ctx) (h : Handle) (o : Option Obj) : Ctx :=
  { s with handles := Function.update s.handles h o }

/-- Number and record a call of the running coroutine. -/
def enter (s : Ctx) (c : Call) : Ctx :=
  { s with
    nops := s.nops + 1
    log := s.log ++ [.call s.nops s.r c (c.handles.map s.handles)] }

/-- Call `op` returns `v` with `errno` equal to `e`; the caller goes on running. -/
def ret (s : Ctx) (op : ℕ) (v : ℤ) (e : Errno) : Ctx := { s with log := s.log ++ [.ret op v e] }

/-- The caller of call `op` enters `dill_wait`. -/
def block (s : Ctx) (op : ℕ) (f : Frame) : Ctx :=
  { s.updCr s.r fun cr => { cr with frame := some (op, f) } with phase := .wait }

/-- `dill_canblock` succeeds. -/
def canblock (s : Ctx) : Bool := !((s.crs s.r).noBlocking1 || (s.crs s.r).noBlocking2)

end Ctx

end Libdill.Sched
