import Libdill.Pollset.Wait

/-!
# The pollset of poll(2)

`poll.c.inc`: the pollset is an array of slots, of which the first `pollset_size` are in use, and
each descriptor knows the index of its slot. The array comes from `malloc`, so that a slot that is
taken into use holds whatever is in the memory.
-/

namespace Libdill.Pollset.Poll

open Libdill.Sock

/-- The bits of `events` and `revents`. -/
abbrev Events := BitVec 16

def POLLIN : Events := 0x1
def POLLOUT : Events := 0x4
def POLLERR : Events := 0x8
def POLLHUP : Events := 0x10
def POLLNVAL : Events := 0x20

/-- What poll(2) reports without being asked. -/
def always : Events := POLLERR ||| POLLHUP ||| POLLNVAL

/-- The event that is waited for. -/
def flag : Dir → Events
  | .inp => POLLIN
  | .out => POLLOUT

/-- `struct pollfd`. -/
structure PollFd where
  fd : ℕ
  events : Events
  revents : Events

/-- `struct dill_fdinfo`; `idx` is `none` for −1, and `clause` has the fields `in` and `out`. -/
structure FdInfo where
  idx : Option ℕ
  clause : Dir → Option FdClause
  cached : Bool

/-- `struct dill_ctx_pollset`. -/
structure Ctx where
  pollset_size : ℕ
  pollset : ℕ → PollFd
  nfdinfos : ℕ
  fdinfos : ℕ → FdInfo

/-- The pollset and the coroutines. -/
abbrev World := Ctx × Crs

def Ctx.setFdInfo (s : Ctx) (fd : ℕ) (f : FdInfo → FdInfo) : Ctx :=
  { s with fdinfos := Function.update s.fdinfos fd (f (s.fdinfos fd)) }

def Ctx.setSlot (s : Ctx) (i : ℕ) (f : PollFd → PollFd) : Ctx :=
  { s with pollset := Function.update s.pollset i (f (s.pollset i)) }

def Ctx.setIdx (s : Ctx) (fd : ℕ) (idx : Option ℕ) : Ctx :=
  s.setFdInfo fd fun f => { f with idx := idx }

def Ctx.setClause (s : Ctx) (d : Dir) (fd : ℕ) (cl : Option FdClause) : Ctx :=
  s.setFdInfo fd fun f => { f with clause := Function.update f.clause d cl }

def Ctx.setEvents (s : Ctx) (i : ℕ) (f : Events → Events) : Ctx :=
  s.setSlot i fun p => { p with events := f p.events }

/-- `dill_ctx_pollset_init`, with the contents of the memory of the pollset. -/
def Ctx.init (nfdinfos : ℕ) (memory : ℕ → PollFd) : Ctx where
  pollset_size := 0
  pollset := memory
  nfdinfos := nfdinfos
  fdinfos _ := ⟨none, fun _ => none, false⟩

/-- `dill_fdcancelin` and `dill_fdcancelout`. -/
def fdcancel (d : Dir) (fd : ℕ) (s : Ctx) : Except Stop Ctx :=
  match (s.fdinfos fd).idx with
  | none => .error .fault
  | some i => .ok ((s.setClause d fd none).setEvents i (· &&& ~~~flag d))

/-- The fd gets a slot, unless it has one. -/
def Ctx.place (s : Ctx) (fd : ℕ) : Ctx :=
  match (s.fdinfos fd).idx with
  | some _ => s
  | none =>
    { s.setIdx fd (some s.pollset_size) with pollset_size := s.pollset_size + 1 }.setSlot
      s.pollset_size fun p => { p with fd := fd }

/-- `dill_pollset_in` and `dill_pollset_out` after the fd has been found to be open. -/
def wait (d : Dir) (cl : FdClause) (fd : ℕ) (w : World) : Except Stop (Except Errno Unit × World) :=
  let s := w.1.place fd
  if ((s.fdinfos fd).clause d).isSome then .ok (.error .EBUSY, s, w.2)
  else
    match (s.fdinfos fd).idx with
    | none => .error .fault
    | some i =>
      .ok (.ok (), (s.setEvents i (· ||| flag d)).setClause d fd (some cl),
        w.2.waitfor cl.cr d fd)

/-- `dill_pollset_in` and `dill_pollset_out`; `getfd` is the result of fcntl(fd, F_GETFD). -/
def pollsetWait (d : Dir) (cl : FdClause) (fd : ℤ) (getfd : Except Errno Unit) (w : World) :
    Except Stop (Except Errno Unit × World) :=
  if fd < 0 ∨ w.1.nfdinfos ≤ fd then .ok (.error .EBADF, w)
  else if (w.1.fdinfos fd.toNat).cached then wait d cl fd.toNat w
  else
    match getfd with
    | .error .EBADF => .ok (.error .EBADF, w)
    | .error _ => .error .assertion
    | .ok () => wait d cl fd.toNat (w.1.setFdInfo fd.toNat fun f => { f with cached := true }, w.2)

def pollsetIn : FdClause → ℤ → Except Errno Unit → World → Except Stop (Except Errno Unit × World) :=
  pollsetWait .inp

def pollsetOut :
    FdClause → ℤ → Except Errno Unit → World → Except Stop (Except Errno Unit × World) :=
  pollsetWait .out

/-- The last slot is moved to the slot `i`, which is vacant. -/
def Ctx.compact (s : Ctx) (i : ℕ) : Ctx :=
  let last := s.pollset_size - 1
  let s := { s with pollset_size := last }
  if i = last then s
  else (s.setSlot i fun _ => s.pollset last).setIdx (s.pollset last).fd (some i)

/-- `dill_pollset_clean`. -/
def pollsetClean (fd : ℕ) (s : Ctx) : Except Errno Unit × Ctx :=
  let fdi := s.fdinfos fd
  if !fdi.cached then (.ok (), s)
  else if (fdi.clause .inp).isSome || (fdi.clause .out).isSome then (.error .EBUSY, s)
  else
    let s := match fdi.idx with
      | none => s
      | some i => (s.compact i).setIdx fd none
    (.ok (), s.setFdInfo fd fun f => { f with cached := false })

/-- The clause of one direction of the slot `i` is triggered, if there is one and its event is
among the reported ones. -/
def fire (d : Dir) (i : ℕ) (w : World) : Except Stop World :=
  let pfd := w.1.pollset i
  match (w.1.fdinfos pfd.fd).clause d with
  | none => .ok w
  | some cl =>
    if pfd.revents &&& (flag d ||| always) = 0 then .ok w
    else trigger fdcancel cl 0 (w.1.setEvents i (· &&& ~~~flag d), w.2)

/-- A turn of the loop over the slots, with the index for the next one. -/
def pollTurn (i : ℕ) (w : World) : Except Stop (ℕ × World) := do
  let w ← fire .inp i w
  let w ← fire .out i w
  let pfd := w.1.pollset i
  if pfd.events = 0 then
    let s := w.1.setIdx pfd.fd none
    if ((s.fdinfos pfd.fd).clause .inp).isSome || ((s.fdinfos pfd.fd).clause .out).isSome then
      .error .assertion
    else .ok (i, s.compact i, w.2)
  else .ok (i + 1, w)

/-- The loop over the slots; every turn brings its end nearer by one. -/
def pollLoop : ℕ → ℕ → World → Except Stop World
  | n, i, w =>
    if i = w.1.pollset_size then .ok w
    else
      match n with
      | 0 => .error .fault
      | n + 1 => do
        let p ← pollTurn i w
        pollLoop n p.1 p.2

/-- The slots that poll(2) reports events for. -/
def reported (revents : ℕ → Events) (size : ℕ) : List ℕ :=
  (List.range size).filter fun i => revents i ≠ 0

/-- The results of poll(2): a signal, another failure, or the reported events of each slot. -/
inductive Answer
  | EINTR
  | failed
  | revents (r : ℕ → Events)

/-- `dill_pollset_poll`. -/
def pollsetPoll (answer : Answer) (w : World) : Except Stop (ℤ × World) :=
  match answer with
  | .EINTR => .ok (-1, w)
  | .failed => .error .assertion
  | .revents revents => do
    let size := w.1.pollset_size
    let s := { w.1 with pollset := fun i =>
      if i < size then { w.1.pollset i with revents := revents i } else w.1.pollset i }
    let w ← pollLoop size 0 (s, w.2)
    return (if (reported revents size).length > 0 then 1 else 0, w)

/-- The functions that `dill_wait` uses. -/
def backend : Backend Ctx Answer := ⟨fdcancel, pollsetPoll⟩

end Libdill.Pollset.Poll
