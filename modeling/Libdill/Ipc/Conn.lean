import Libdill.Tcp.Receive
import Libdill.Tcp.Transmit

/-!
# UNIX connections

`dill_ipc_conn` of `ipc.c`: a connection as in `tcp.c`, whose receives do without the receive
buffer, and the function `dill_ipc_recvfd`, which receives a descriptor that was sent with a byte of
the stream. The pollset lets one coroutine at a time wait for the descriptor of the connection
(`fdinfo->in`); a coroutine whose wait has ended runs later, after those that are ready before it.
-/

namespace Libdill.Ipc

open Libdill.Sock Libdill.Fd Libdill.Tcp

/-- Who waits in `dill_fdin`: a call of `brecvl`, or the call of `ipc_recvfd` by a coroutine. -/
inductive Waiter
  | brecvl
  | recvfd (cr : ℕ)
  deriving DecidableEq

/-- The socket in the kernel: the bytes that have arrived, some with a descriptor, whether the peer
has closed its end, and a pending error. -/
structure Kernel where
  queue : List (UInt8 × Option ℕ)
  ended : Bool
  err : Option Errno
  deriving DecidableEq

/-- The pollset reports the socket. -/
def Kernel.readable (k : Kernel) : Bool := !k.queue.isEmpty || k.ended || k.err.isSome

/-- The socket after a system call with the answer `a`, if the kernel can answer so. It is free to
deliver any part of what has arrived. -/
def Kernel.answer (k : Kernel) : RecvAns → Option Kernel
  | .data bs =>
    if bs ≠ [] ∧ bs <+: k.queue.map Prod.fst then
      some { k with queue := k.queue.drop bs.length }
    else none
  | .eof => if k.queue = [] ∧ k.err = none ∧ k.ended then some k else none
  | .again => if k.readable then none else some k
  | .fail e => if k.err = some e then some { k with err := none } else none
  | .noBuf => none

/-- `dill_ipc_conn`, with the coroutine that waits for its descriptor and those whose wait has ended
and who have not run yet. -/
structure IpcConn extends RxSide, TxSide where
  fdin : Option Waiter
  woken : List (Waiter × Except Errno Unit)
  kernel : Kernel
  aborted : Bool

/-- A new connection. -/
def IpcConn.init : IpcConn :=
  { RxSide.init none, TxSide.init with
    fdin := none, woken := [], kernel := ⟨[], false, none⟩, aborted := false }

/-- The errors of the connection itself. -/
def ofConn (e : Errno) : Bool := e == .EPIPE || e == .ECONNRESET || e == .EPROTO

/-- What happens to a connection: the peer sends, closes or fails, a receive is called, does its
system call or goes on after its wait, the pollset ends a wait, or something is sent. `refuse` is
the error when `dill_fdin` does not begin to wait, other than for a coroutine that waits already. -/
inductive Ev
  | arrive (b : UInt8) (fd : Option ℕ)
  | hangup
  | fault (e : Errno)
  | brecvl (first : List ℕ)
  | recv (a : RecvAns) (refuse : Option Errno)
  | recvfd (cr : ℕ) (refuse : Option Errno)
  | recvmsg (a : RecvAns)
  | wake (r : Except Errno Unit)
  | resume
  | tx (e : TxEv)

/-- What the events answer; a call that goes on returns nothing yet. -/
inductive Out
  | none
  | brecvl (o : RxOut)
  | recvfd (cr : ℕ) (o : Option (Except Errno ℕ))
  | abort
  | tx (o : TxOut)

/-- `dill_fdin` up to its wait. -/
def IpcConn.fdWait (c : IpcConn) (w : Waiter) (refuse : Option Errno) : Except Errno IpcConn :=
  match refuse with
  | some e => .error e
  | none => if c.fdin.isSome then .error .EBUSY else .ok { c with fdin := some w }

/-- An error with which a wait for a descriptor can end. -/
def waitError : Option Errno → Bool
  | some e => !ofConn e
  | none => true

/-- `dill_ipc_recvfd` after its wait: the answer `a` of `recvmsg`, and the descriptor that came with
the byte. -/
def IpcConn.recvmsg (c : IpcConn) (cr : ℕ) (a : RecvAns) (fd : Option ℕ) : IpcConn × Out :=
  match a with
  | .data _ =>
    match fd with
    | some fd => (c, .recvfd cr (some (.ok fd)))
    | none => ({ c with inerr := true }, .recvfd cr (some (.error .EPROTO)))
  | .eof => ({ c with indone := true }, .recvfd cr (some (.error .EPIPE)))
  | .fail .ECONNRESET => ({ c with outerr := true }, .recvfd cr (some (.error .ECONNRESET)))
  | _ => ({ c with aborted := true }, .abort)

/-- One event. An event that cannot happen has no result. -/
def IpcConn.act (c : IpcConn) : Ev → Option (IpcConn × Out)
  | .arrive b fd =>
    some ({ c with kernel := { c.kernel with queue := c.kernel.queue ++ [(b, fd)] } }, .none)
  | .hangup => some ({ c with kernel := { c.kernel with ended := true } }, .none)
  | .fault e =>
    if e = .EAGAIN then none
    else some ({ c with kernel := { c.kernel with err := some e } }, .none)
  | .brecvl first =>
    (c.toRxSide.step (.call first)).map fun r => ({ c with toRxSide := r.1 }, .brecvl r.2)
  | .recv a refuse =>
    if waitError refuse then
      (c.kernel.answer a).bind fun k =>
        (c.toRxSide.step (.kernel a)).map fun r =>
          let c := { c with toRxSide := r.1, kernel := k }
          match r.1.rjob with
          | some (_, true) =>
            match c.fdWait .brecvl refuse with
            | .ok c => (c, .brecvl none)
            | .error e => ({ c with toRxSide := (r.1.failed e).1 }, .brecvl (r.1.failed e).2)
          | _ => (c, .brecvl r.2)
    else none
  | .recvfd cr refuse =>
    if waitError refuse then
      if c.rbusy then some (c, .recvfd cr (some (.error .EBUSY)))
      else if c.indone then some (c, .recvfd cr (some (.error .EPIPE)))
      else if c.inerr then some (c, .recvfd cr (some (.error .ECONNRESET)))
      else
        match c.fdWait (.recvfd cr) refuse with
        | .ok c => some (c, .recvfd cr none)
        | .error e => some (c, .recvfd cr (some (.error e)))
    else none
  | .recvmsg a =>
    match c.woken with
    | (.recvfd cr, .ok ()) :: ws =>
      if a.valid (.direct [1] []) then
        (c.kernel.answer a).map fun k =>
          { c with woken := ws, kernel := k }.recvmsg cr a (c.kernel.queue.head?.bind Prod.snd)
      else none
    | _ => none
  | .wake r =>
    match c.fdin with
    | some w =>
      match r with
      | .ok () =>
        if c.kernel.readable then some ({ c with fdin := none, woken := c.woken ++ [(w, r)] }, .none)
        else none
      | .error e =>
        if waitError (some e) then
          some ({ c with fdin := none, woken := c.woken ++ [(w, r)] }, .none)
        else none
    | none => none
  | .resume =>
    match c.woken with
    | (.brecvl, r) :: ws =>
      (c.toRxSide.step (.fdin r)).map fun r =>
        ({ c with toRxSide := r.1, woken := ws }, .brecvl r.2)
    | (.recvfd cr, .error e) :: ws =>
      some ({ c with woken := ws }, .recvfd cr (some (.error e)))
    | _ => none
  | .tx e => (c.toTxSide.step e).map fun r => ({ c with toTxSide := r.1 }, .tx r.2)

/-- One event; nothing happens after the process has aborted. -/
def IpcConn.step (c : IpcConn) (ev : Ev) : Option (IpcConn × Out) :=
  if c.aborted then none else c.act ev

end Libdill.Ipc
