import Libdill.Fd.Send

/-!
# Connections

`dill_tcp_conn` and the functions `dill_tcp_bsendl` and `dill_tcp_brecvl` of `tcp.c`; those of
`ipc.c` are the same but for the receive buffer. A call is cut at its system calls and where it
blocks, so that the calls of other coroutines may come in between: they see the flags of the
connection. Each direction of a connection is a machine of its own.
-/

namespace Libdill.Tcp

open Libdill.Sock Libdill.Fd

/-! ## Receiving -/

/-- The fields of a connection for receiving, and the call in progress: its job, whether it waits
in `dill_fdin`, and what it has stored in the user's buffers. -/
structure RxSide where
  rxbuf : Option RxBuf
  rbusy : Bool
  indone : Bool
  inerr : Bool
  rjob : Option (Job × Bool)
  rgot : List UInt8

/-- The events of the receiving direction: a call with the lengths of its iolist, the kernel's
answer to a system call, and the end of a wait. -/
inductive RxEv
  | call (first : List ℕ)
  | kernel (a : RecvAns)
  | fdin (r : Except Errno Unit)

/-- What a call returns; nothing while it is in progress. -/
abbrev RxOut := Option (Except Errno (List UInt8))

/-- The end of `dill_tcp_brecvl` when `dill_fd_recv` has failed. -/
def RxSide.failed (s : RxSide) (e : Errno) : RxSide × RxOut :=
  if e = .EPIPE then
    ({ s with rbusy := false, rjob := none, rgot := [], indone := true }, some (.error e))
  else ({ s with rbusy := false, rjob := none, rgot := [], inerr := true }, some (.error e))

/-- A stretch of `dill_fd_recv` has stored some bytes and goes on as the outcome says. -/
def RxSide.settle (s : RxSide) (r : List UInt8 × Option RxBuf × Outcome) : RxSide × RxOut :=
  let s := { s with rxbuf := r.2.1, rgot := s.rgot ++ r.1 }
  match r.2.2 with
  | .done => ({ s with rbusy := false, rjob := none, rgot := [] }, some (.ok s.rgot))
  | .failed e => s.failed e
  | .syscall j => ({ s with rjob := some (j, false) }, none)
  | .wait j => ({ s with rjob := some (j, true) }, none)

/-- `dill_tcp_brecvl`. An event that cannot happen has no result. -/
def RxSide.step (s : RxSide) : RxEv → Option (RxSide × RxOut)
  | .call first =>
    if first.isEmpty then none
    else if s.rbusy then some (s, some (.error .EBUSY))
    else if s.indone then some (s, some (.error .EPIPE))
    else if s.inerr then some (s, some (.error .ECONNRESET))
    else some ({ s with rbusy := true }.settle (start s.rxbuf first))
  | .kernel a =>
    match s.rjob with
    | some (j, false) => if a.valid j then some (s.settle (turn s.rxbuf j a)) else none
    | _ => none
  | .fdin r =>
    match s.rjob with
    | some (j, true) =>
      match r with
      | .ok () => some ({ s with rjob := some (j, false) }, none)
      | .error e => some (s.failed e)
    | _ => none

/-- The receiving direction of a new connection. -/
def RxSide.init (rxbuf : Option RxBuf) : RxSide := ⟨rxbuf, false, false, false, none, []⟩

/-! ## Sending -/

/-- The fields of a connection for sending, and the call in progress: the array that is left, and
whether it waits in `dill_fdout`. `smsg` is the message of the call. -/
structure TxSide where
  sbusy : Bool
  outdone : Bool
  outerr : Bool
  sjob : Option (List (List UInt8) × Bool)
  smsg : List UInt8

/-- The events of the sending direction. -/
inductive TxEv
  | call (first : List (List UInt8))
  | kernel (a : SendAns)
  | fdout (r : Except Errno Unit)

/-- The bytes handed to the kernel by an event, and what a call returns, with its message. -/
structure TxOut where
  took : List UInt8
  result : Option (Except Errno Unit × List UInt8)

/-- A stretch of `dill_fd_send` ends in `dill_tcp_bsendl` as the outcome says. -/
def TxSide.settle (s : TxSide) (took : List UInt8) (o : SendOutcome) : TxSide × TxOut :=
  match o with
  | .done => ({ s with sbusy := false, sjob := none, smsg := [] }, ⟨took, some (.ok (), s.smsg)⟩)
  | .failed e =>
    ({ s with sbusy := false, sjob := none, smsg := [], outerr := true },
      ⟨took, some (.error e, s.smsg)⟩)
  | .syscall iov => ({ s with sjob := some (iov, false) }, ⟨took, none⟩)
  | .wait iov => ({ s with sjob := some (iov, true) }, ⟨took, none⟩)

/-- `dill_tcp_bsendl`. -/
def TxSide.step (s : TxSide) : TxEv → Option (TxSide × TxOut)
  | .call first =>
    if first.isEmpty then none
    else if s.sbusy then some (s, ⟨[], some (.error .EBUSY, first.flatten)⟩)
    else if s.outdone then some (s, ⟨[], some (.error .EPIPE, first.flatten)⟩)
    else if s.outerr then some (s, ⟨[], some (.error .ECONNRESET, first.flatten)⟩)
    else some ({ s with sbusy := true, smsg := first.flatten }.settle [] (sendTurn first))
  | .kernel a =>
    match s.sjob with
    | some (iov, false) =>
      if a.valid iov then some (s.settle (sent iov a).1 (sent iov a).2) else none
    | _ => none
  | .fdout r =>
    match s.sjob with
    | some (iov, true) =>
      match r with
      | .ok () => some (s.settle [] (sendTurn iov))
      | .error e => some (s.settle [] (.failed e))
    | _ => none

/-- The sending direction of a new connection. -/
def TxSide.init : TxSide := ⟨false, false, false, none, []⟩

/-! ## The connection -/

/-- `dill_tcp_conn`. -/
structure TcpConn extends RxSide, TxSide

/-- The events of a connection. -/
inductive Ev
  | rx (e : RxEv)
  | tx (e : TxEv)

/-- What the events of a connection answer. -/
inductive Out
  | rx (o : RxOut)
  | tx (o : TxOut)

/-- An event of either direction. -/
def TcpConn.step (c : TcpConn) : Ev → Option (TcpConn × Out)
  | .rx e => (c.toRxSide.step e).map fun r => ({ c with toRxSide := r.1 }, .rx r.2)
  | .tx e => (c.toTxSide.step e).map fun r => ({ c with toTxSide := r.1 }, .tx r.2)

/-- `dill_tcp_makeconn`. -/
def TcpConn.init : TcpConn := { RxSide.init (some .init), TxSide.init with }

end Libdill.Tcp
