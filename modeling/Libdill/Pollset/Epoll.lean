import Libdill.Foundations.Bits
import Libdill.Pollset.Wait

/-!
# The pollset of epoll(7)

`epoll.c.inc`: the interest of the kernel in each descriptor is cached in `currevs`, and the
descriptors for which it may be out of date are on the changelist, which is linked by 1-based
indices. The interest is brought up to date when the pollset is polled.
-/

namespace Libdill.Pollset.Epoll

open Foundations Libdill.Sock

/-- The bits of the events. -/
abbrev Events := BitVec 32

def EPOLLIN : Events := 0x1
def EPOLLOUT : Events := 0x4
def EPOLLERR : Events := 0x8
def EPOLLHUP : Events := 0x10

/-- What epoll_wait(2) reports without being asked. -/
def always : Events := EPOLLERR ||| EPOLLHUP

/-- The event that is waited for. -/
def flag : Dir → Events
  | .inp => EPOLLIN
  | .out => EPOLLOUT

/-- The end mark of the changelist. -/
def DILL_ENDLIST : ℕ := 0xffffffff

/-- `struct dill_fdinfo`; `clause` has the fields `in` and `out`. -/
structure FdInfo where
  clause : Dir → Option FdClause
  currevs : Events
  next : ℕ
  cached : Bool

/-- The events that somebody waits for. -/
def FdInfo.wanted (f : FdInfo) : Events :=
  maskOf EPOLLIN EPOLLOUT (f.clause .inp).isSome (f.clause .out).isSome

/-- The kernel: the error with which it refuses to add a descriptor, such as one that is not open,
and the events of the descriptors that are registered. -/
structure Kernel where
  refuses : ℕ → Option Errno
  interest : ℕ → Option Events

inductive Op
  | EPOLL_CTL_ADD
  | EPOLL_CTL_MOD
  | EPOLL_CTL_DEL

def ENOENT : Errno := .other 2
def EEXIST : Errno := .other 17
def EPERM : Errno := .other 1
def ELOOP : Errno := .other 40

def Kernel.register (k : Kernel) (fd : ℕ) (events : Option Events) : Kernel :=
  { k with interest := Function.update k.interest fd events }

/-- epoll_ctl(2). -/
def Kernel.epollCtl (k : Kernel) (op : Op) (fd : ℕ) (events : Events) : Except Errno Kernel :=
  match op, k.interest fd with
  | .EPOLL_CTL_ADD, none =>
    match k.refuses fd with
    | some err => .error err
    | none => .ok (k.register fd (some events))
  | .EPOLL_CTL_ADD, some _ => .error EEXIST
  | .EPOLL_CTL_MOD, some _ => .ok (k.register fd (some events))
  | .EPOLL_CTL_DEL, some _ => .ok (k.register fd none)
  | _, none => .error ENOENT

/-- `struct dill_ctx_pollset`, with the kernel. -/
structure Ctx where
  nfdinfos : ℕ
  fdinfos : ℕ → FdInfo
  changelist : ℕ
  kernel : Kernel

/-- The pollset and the coroutines. -/
abbrev World := Ctx × Crs

def Ctx.setFdInfo (s : Ctx) (fd : ℕ) (f : FdInfo → FdInfo) : Ctx :=
  { s with fdinfos := Function.update s.fdinfos fd (f (s.fdinfos fd)) }

def FdInfo.setClause (f : FdInfo) (d : Dir) (cl : Option FdClause) : FdInfo :=
  { f with clause := Function.update f.clause d cl }

/-- `dill_ctx_pollset_init`. -/
def Ctx.init (nfdinfos : ℕ) (refuses : ℕ → Option Errno) : Ctx where
  nfdinfos := nfdinfos
  fdinfos _ := ⟨fun _ => none, 0, 0, false⟩
  changelist := DILL_ENDLIST
  kernel := ⟨refuses, fun _ => none⟩

/-- The fd is put on the changelist, unless it is there. -/
def Ctx.push (s : Ctx) (fd : ℕ) : Ctx :=
  if (s.fdinfos fd).next = 0 then
    { s.setFdInfo fd fun f => { f with next := s.changelist } with changelist := fd + 1 }
  else s

/-- `dill_fdcancelin` and `dill_fdcancelout`. -/
def fdcancel (d : Dir) (fd : ℕ) (s : Ctx) : Except Stop Ctx :=
  .ok ((s.setFdInfo fd fun f => f.setClause d none).push fd)

/-- The kernel has added the fd. -/
def Ctx.cache (s : Ctx) (kernel : Kernel) (d : Dir) (fd : ℕ) : Ctx :=
  { s with kernel := kernel }.setFdInfo fd fun _ => ⟨fun _ => none, flag d, 0, true⟩

/-- `dill_pollset_in` and `dill_pollset_out` when the fd is cached. -/
def wait (d : Dir) (cl : FdClause) (fd : ℕ) (w : World) : Except Errno Unit × World :=
  if ((w.1.fdinfos fd).clause d).isSome then (.error .EBUSY, w)
  else (.ok (), (w.1.push fd).setFdInfo fd fun f => f.setClause d (some cl), w.2.waitfor cl.cr d fd)

/-- `dill_pollset_in` and `dill_pollset_out`. -/
def pollsetWait (d : Dir) (cl : FdClause) (fd : ℤ) (w : World) : Except Errno Unit × World :=
  if fd < 0 ∨ w.1.nfdinfos ≤ fd then (.error .EBADF, w)
  else if (w.1.fdinfos fd.toNat).cached then wait d cl fd.toNat w
  else
    match w.1.kernel.epollCtl .EPOLL_CTL_ADD fd.toNat (flag d) with
    | .error err => (.error (if err = ELOOP ∨ err = EPERM then .ENOTSUP else err), w)
    | .ok kernel => wait d cl fd.toNat (w.1.cache kernel d fd.toNat, w.2)

def pollsetIn : FdClause → ℤ → World → Except Errno Unit × World := pollsetWait .inp

def pollsetOut : FdClause → ℤ → World → Except Errno Unit × World := pollsetWait .out

/-- The head of the changelist is its link 0, and the field `next` of the descriptor with the index
`fd + 1` the link with that number. -/
def Ctx.link (s : Ctx) : ℕ → ℕ
  | 0 => s.changelist
  | fd + 1 => (s.fdinfos fd).next

def Ctx.setLink (s : Ctx) (p v : ℕ) : Ctx :=
  match p with
  | 0 => { s with changelist := v }
  | fd + 1 => s.setFdInfo fd fun f => { f with next := v }

/-- The loop of `dill_pollset_clean`: the link that leads to the fd, from the link `p` on. -/
def search (s : Ctx) (fd : ℕ) : ℕ → ℕ → Except Stop ℕ
  | 0, _ => .error .fault
  | n + 1, p =>
    if s.link p = 0 ∨ s.link p = DILL_ENDLIST then .error .assertion
    else if s.link p - 1 = fd then .ok p
    else search s fd n (s.link p)

/-- The fd is removed from the kernel. -/
def unregister (fd : ℕ) (s : Ctx) : Except Stop Ctx :=
  if (s.fdinfos fd).currevs ≠ 0 then
    match s.kernel.epollCtl .EPOLL_CTL_DEL fd 0 with
    | .error err =>
      if err = ENOENT then .ok (s.setFdInfo fd fun f => { f with currevs := 0 })
      else .error .assertion
    | .ok kernel => .ok ({ s with kernel := kernel }.setFdInfo fd fun f => { f with currevs := 0 })
  else .ok s

/-- The fd is removed from the changelist. -/
def unlist (fd : ℕ) (s : Ctx) : Except Stop Ctx :=
  if (s.fdinfos fd).next ≠ 0 then do
    let p ← search s fd (s.nfdinfos + 1) 0
    return (s.setLink p (s.fdinfos fd).next).setLink (fd + 1) 0
  else .ok s

/-- `dill_pollset_clean`. -/
def pollsetClean (fd : ℕ) (s : Ctx) : Except Stop (Except Errno Unit × Ctx) :=
  if !(s.fdinfos fd).cached then .ok (.ok (), s)
  else if ((s.fdinfos fd).clause .inp).isSome || ((s.fdinfos fd).clause .out).isSome then
    .ok (.error .EBUSY, s)
  else do
    let s ← unregister fd s
    let s ← unlist fd s
    return (.ok (), s.setFdInfo fd fun f => { f with cached := false })

/-- How epoll_ctl(2) brings the interest up to date. -/
def opFor (currevs events : Events) : Op :=
  if events = 0 then .EPOLL_CTL_DEL
  else if currevs = 0 then .EPOLL_CTL_ADD
  else .EPOLL_CTL_MOD

/-- The first descriptor of the changelist is brought up to date. -/
def update (fd : ℕ) (s : Ctx) : Except Stop Ctx :=
  let fdi := s.fdinfos fd
  if fdi.currevs ≠ fdi.wanted then
    match s.kernel.epollCtl (opFor fdi.currevs fdi.wanted) fd fdi.wanted with
    | .error _ => .error .assertion
    | .ok kernel =>
      .ok ({ s with kernel := kernel }.setFdInfo fd fun f => { f with currevs := fdi.wanted })
  else .ok s

/-- The first loop of `dill_pollset_poll`. -/
def flush : ℕ → Ctx → Except Stop Ctx
  | n, s =>
    if s.changelist = DILL_ENDLIST then .ok s
    else
      match n with
      | 0 => .error .fault
      | n + 1 => do
        let fd := s.changelist - 1
        let s ← update fd s
        flush n (({ s with changelist := (s.fdinfos fd).next }).setFdInfo fd fun f =>
          { f with next := 0 })

/-- The results of epoll_wait(2): a signal, another failure, or events. -/
inductive Answer
  | EINTR
  | failed
  | events (evs : List (ℕ × Events))

/-- The clause of one direction of an fd is triggered, if there is one and its event is reported. -/
def fire (d : Dir) (fd : ℕ) (events : Events) (w : World) : Except Stop World :=
  match (w.1.fdinfos fd).clause d with
  | none => .ok w
  | some cl =>
    if events &&& (flag d ||| always) = 0 then .ok w
    else do
      let w ← trigger fdcancel cl 0 w
      return (if ((w.1.fdinfos fd).clause d).isNone then w.1.push fd else w.1, w.2)

/-- The second loop of `dill_pollset_poll`. -/
def fireAll : List (ℕ × Events) → World → Except Stop World
  | [], w => .ok w
  | (fd, events) :: evs, w => do
    let w ← fire .inp fd events w
    let w ← fire .out fd events w
    fireAll evs w

/-- `dill_pollset_poll`. -/
def pollsetPoll (answer : Answer) (w : World) : Except Stop (ℤ × World) := do
  let s ← flush (w.1.nfdinfos + 1) w.1
  match answer with
  | .EINTR => return (-1, s, w.2)
  | .failed => .error .assertion
  | .events evs =>
    let w ← fireAll evs (s, w.2)
    return (if evs.length > 0 then 1 else 0, w)

/-- The functions that `dill_wait` uses. -/
def backend : Backend Ctx Answer := ⟨fdcancel, pollsetPoll⟩

end Libdill.Pollset.Epoll
