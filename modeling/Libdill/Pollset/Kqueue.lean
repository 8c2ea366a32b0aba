import Libdill.Foundations.IndexList
import Libdill.Pollset.Wait

/-!
# The pollset of kqueue(2)

`kqueue.c.inc`: as with epoll(7), the filters that are registered for a descriptor are cached in
`currevs`, and the descriptors for which they may be out of date are on the changelist. The changes go
to the kernel in batches. When events have been reported, the changelist is also the list of the
descriptors that fire.
-/

namespace Libdill.Pollset.Kqueue

open Foundations Libdill.Sock

/-- The size of the array `chngs`. -/
def DILL_CHNGSSIZE : ℕ := 128

/-- The size of the array `evs`. -/
def DILL_EVSSIZE : ℕ := 128

/-- The end mark of the changelist. -/
def DILL_ENDLIST : ℕ := 0xffffffff

def EV_EOF : ℕ := 0x8000

def EV_ERROR : ℕ := 0x4000

/-- The flags `FDW_IN` and `FDW_OUT`. -/
abbrev Flags := Dir → Bool

/-- `struct dill_fdinfo`; `clause` has the fields `in` and `out`. -/
structure FdInfo where
  clause : Dir → Option FdClause
  currevs : Flags
  firing : Flags
  next : ℕ
  cached : Bool

/-- Somebody waits for this direction. -/
def FdInfo.wanted (f : FdInfo) : Flags := fun d => (f.clause d).isSome

/-- The kernel: the error with which it refuses to add a descriptor, such as one that is not open,
and the filters that are registered. -/
structure Kernel where
  refuses : ℕ → Option Errno
  registered : ℕ → Flags

/-- An element of the changelist of kevent(2), with `EV_ADD` or `EV_DELETE`. -/
structure Change where
  fd : ℕ
  filter : Dir
  add : Bool

def ENOENT : Errno := .other 2

def Kernel.register (k : Kernel) (fd : ℕ) (filters : Flags) : Kernel :=
  { k with registered := Function.update k.registered fd filters }

/-- One change is applied. -/
def Kernel.apply (k : Kernel) (c : Change) : Except Errno Kernel :=
  let changed := k.register c.fd (Function.update (k.registered c.fd) c.filter c.add)
  if c.add then
    match k.refuses c.fd with
    | some err => .error err
    | none => .ok changed
  else if k.registered c.fd c.filter then .ok changed
  else .error ENOENT

/-- The changes of a call of kevent(2) are applied. -/
def Kernel.kevent : List Change → Kernel → Except Errno Kernel
  | [], k => .ok k
  | c :: cs, k => k.apply c >>= Kernel.kevent cs

/-- `struct dill_ctx_pollset`, with the kernel. -/
structure Ctx where
  nfdinfos : ℕ
  fdinfos : ℕ → FdInfo
  changelist : ℕ
  kernel : Kernel

/-- The pollset and the coroutines. -/
abbrev World := Ctx × Crs

def Ctx.setFdInfo (s : Ctx) (fd : ℕ) (f : FdInfo → FdInfo) : Ctx :=
  { s with fdinfos := Function.update s.fdinfos fd (f (s.fdinfos fd)) }

def FdInfo.setClause (f : FdInfo) (d : Dir) (cl : Option FdClause) : FdInfo :=
  { f with clause := Function.update f.clause d cl }

def FdInfo.setCurrevs (f : FdInfo) (d : Dir) (on : Bool) : FdInfo :=
  { f with currevs := Function.update f.currevs d on }

/-- No flag is set. -/
def noFlags : Flags := fun _ => false

/-- `dill_ctx_pollset_init`. -/
def Ctx.init (nfdinfos : ℕ) (refuses : ℕ → Option Errno) : Ctx where
  nfdinfos := nfdinfos
  fdinfos _ := ⟨fun _ => none, noFlags, noFlags, 0, false⟩
  changelist := DILL_ENDLIST
  kernel := ⟨refuses, fun _ => noFlags⟩

/-- The fd is put on the changelist, unless it is there. -/
def Ctx.push (s : Ctx) (fd : ℕ) : Ctx :=
  if (s.fdinfos fd).next = 0 then
    { s.setFdInfo fd fun f => { f with next := s.changelist } with changelist := fd + 1 }
  else s

/-- kevent(2) without room for events: an error is an assertion that fails. -/
def Ctx.kevent (chngs : List Change) (s : Ctx) : Except Stop Ctx :=
  match s.kernel.kevent chngs with
  | .ok kernel => .ok { s with kernel := kernel }
  | .error _ => .error .assertion

/-- `dill_fdcancelin` and `dill_fdcancelout`. -/
def fdcancel (d : Dir) (fd : ℕ) (s : Ctx) : Except Stop Ctx :=
  .ok ((s.setFdInfo fd fun f => f.setClause d none).push fd)

/-- The kernel has added the fd. -/
def Ctx.cache (s : Ctx) (kernel : Kernel) (d : Dir) (fd : ℕ) : Ctx :=
  { s with kernel := kernel }.setFdInfo fd fun _ =>
    ⟨fun _ => none, Function.update noFlags d true, noFlags, 0, true⟩

/-- `dill_pollset_in` and `dill_pollset_out` when the fd is cached. -/
def wait (d : Dir) (cl : FdClause) (fd : ℕ) (w : World) : Except Errno Unit × World :=
  if ((w.1.fdinfos fd).clause d).isSome then (.error .EBUSY, w)
  else (.ok (), (w.1.push fd).setFdInfo fd fun f => f.setClause d (some cl), w.2.waitfor cl.cr d fd)

/-- `dill_pollset_in` and `dill_pollset_out`. -/
def pollsetWait (d : Dir) (cl : FdClause) (fd : ℤ) (w : World) :
    Except Stop (Except Errno Unit × World) :=
  if fd < 0 ∨ w.1.nfdinfos ≤ fd then .ok (.error .EBADF, w)
  else if (w.1.fdinfos fd.toNat).cached then .ok (wait d cl fd.toNat w)
  else
    match w.1.kernel.kevent [⟨fd.toNat, d, true⟩] with
    | .error err => if err = .EBADF then .ok (.error .EBADF, w) else .error .assertion
    | .ok kernel => .ok (wait d cl fd.toNat (w.1.cache kernel d fd.toNat, w.2))

def pollsetIn : FdClause → ℤ → World → Except Stop (Except Errno Unit × World) := pollsetWait .inp

def pollsetOut : FdClause → ℤ → World → Except Stop (Except Errno Unit × World) := pollsetWait .out

/-- The head of the changelist is its link 0, and the field `next` of the descriptor with the index
`fd + 1` the link with that number. -/
def Ctx.link (s : Ctx) : ℕ → ℕ
  | 0 => s.changelist
  | fd + 1 => (s.fdinfos fd).next

def Ctx.setLink (s : Ctx) (p v : ℕ) : Ctx :=
  match p with
  | 0 => { s with changelist := v }
  | fd + 1 => s.setFdInfo fd fun f => { f with next := v }

/-- The loop of `dill_pollset_clean`: the link that leads to the fd, from the link `p` on. -/
def search (s : Ctx) (fd : ℕ) : ℕ → ℕ → Except Stop ℕ
  | 0, _ => .error .fault
  | n + 1, p =>
    if s.link p = 0 ∨ s.link p = DILL_ENDLIST then .error .assertion
    else if s.link p - 1 = fd then .ok p
    else search s fd n (s.link p)

/-- The array `evs` of `dill_pollset_clean`. -/
def deletes (fd : ℕ) (f : Flags) : List Change :=
  (if f .inp then [⟨fd, .inp, false⟩] else []) ++ (if f .out then [⟨fd, .out, false⟩] else [])

/-- The filters of the fd are removed from the kernel. -/
def unregister (fd : ℕ) (s : Ctx) : Except Stop Ctx := do
  let s ← if deletes fd (s.fdinfos fd).currevs ≠ [] then s.kevent (deletes fd (s.fdinfos fd).currevs)
    else .ok s
  return s.setFdInfo fd fun f => { f with currevs := noFlags }

/-- The fd is removed from the changelist. -/
def unlist (fd : ℕ) (s : Ctx) : Except Stop Ctx :=
  if (s.fdinfos fd).next ≠ 0 then do
    let p ← search s fd (s.nfdinfos + 1) 0
    return (s.setLink p (s.fdinfos fd).next).setLink (fd + 1) 0
  else .ok s

/-- `dill_pollset_clean`. -/
def pollsetClean (fd : ℕ) (s : Ctx) : Except Stop (Except Errno Unit × Ctx) :=
  if !(s.fdinfos fd).cached then .ok (.ok (), s)
  else if ((s.fdinfos fd).clause .inp).isSome || ((s.fdinfos fd).clause .out).isSome then
    .ok (.error .EBUSY, s)
  else do
    let s ← unregister fd s
    let s ← unlist fd s
    return (.ok (), s.setFdInfo fd fun f => { f with cached := false })

/-! ## Polling -/

/-- An element is added to `chngs`. -/
def put (c : Change) (chngs : List Change) : Except Stop (List Change) :=
  if chngs.length < DILL_CHNGSSIZE then .ok (chngs ++ [c]) else .error .fault

/-- One direction of the first descriptor of the changelist. -/
def update (d : Dir) (fd : ℕ) (x : Ctx × List Change) : Except Stop (Ctx × List Change) :=
  let fdi := x.1.fdinfos fd
  if (fdi.clause d).isSome then
    if fdi.currevs d then .ok x
    else do
      let chngs ← put ⟨fd, d, true⟩ x.2
      return (x.1.setFdInfo fd fun f => f.setCurrevs d true, chngs)
  else if fdi.currevs d then do
    let chngs ← put ⟨fd, d, false⟩ x.2
    return (x.1.setFdInfo fd fun f => f.setCurrevs d false, chngs)
  else .ok x

/-- The changes go to the kernel unless there is room for two more. -/
def makeRoom (x : Ctx × List Change) : Except Stop (Ctx × List Change) :=
  if x.2.length ≥ DILL_CHNGSSIZE - 1 then do
    let s ← x.1.kevent x.2
    return (s, [])
  else .ok x

/-- The first loop of `dill_pollset_poll`. -/
def flush : ℕ → Ctx × List Change → Except Stop (Ctx × List Change)
  | n, x =>
    if x.1.changelist = DILL_ENDLIST then .ok x
    else
      match n with
      | 0 => .error .fault
      | n + 1 => do
        let x ← makeRoom x
        let fd := x.1.changelist - 1
        let x ← update .inp fd x
        let x ← update .out fd x
        flush n (({ x.1 with changelist := (x.1.fdinfos fd).next }).setFdInfo fd fun f =>
          { f with firing := noFlags, next := 0 }, x.2)

/-- `struct kevent` as it is returned. -/
structure Event where
  fd : ℕ
  filter : Dir
  flags : ℕ

/-- The results of the last call of kevent(2): a signal, another failure, or events. The changes are
applied in any case. -/
inductive Answer
  | EINTR
  | failed
  | events (evs : List Event)

/-- What an event means for the directions of its descriptor. -/
def Event.fires (ev : Event) : Flags := fun d => ev.flags = EV_EOF || ev.filter = d

/-- The second loop of `dill_pollset_poll`. -/
def join : List Event → Ctx → Except Stop Ctx
  | [], s => .ok s
  | ev :: evs, s =>
    if ev.flags = EV_ERROR then .error .assertion
    else join evs ((s.setFdInfo ev.fd fun f =>
      { f with firing := fun d => f.firing d || ev.fires d }).push ev.fd)

/-- The clause of one direction of an fd is triggered, if there is one and it fires. -/
def fire (d : Dir) (fd : ℕ) (w : World) : Except Stop World :=
  match (w.1.fdinfos fd).clause d with
  | none => .ok w
  | some cl => if (w.1.fdinfos fd).firing d then trigger fdcancel cl 0 w else .ok w

/-- The third loop of `dill_pollset_poll`, from the index `chl` on. -/
def walk : ℕ → ℕ → World → Except Stop World
  | n, chl, w =>
    if chl = DILL_ENDLIST then .ok w
    else
      match n with
      | 0 => .error .fault
      | n + 1 => do
        let fd := chl - 1
        let w ← fire .inp fd w
        let w ← fire .out fd w
        let s := w.1.setFdInfo fd fun f => { f with firing := noFlags }
        walk n (s.fdinfos fd).next (s, w.2)

/-- `dill_pollset_poll`. -/
def pollsetPoll (answer : Answer) (w : World) : Except Stop (ℤ × World) := do
  let x ← flush (w.1.nfdinfos + 1) (w.1, [])
  -- a change that is refused here would be an event with `EV_ERROR`, not an error
  let s ← x.1.kevent x.2
  match answer with
  | .EINTR => return (-1, s, w.2)
  | .failed => .error .assertion
  | .events evs =>
    let s ← join evs s
    let w ← walk (s.nfdinfos + 1) s.changelist (s, w.2)
    return (if evs.length > 0 then 1 else 0, w)

/-- The functions that `dill_wait` uses. -/
def backend : Backend Ctx Answer := ⟨fdcancel, pollsetPoll⟩

end Libdill.Pollset.Kqueue
