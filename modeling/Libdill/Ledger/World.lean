import Libdill.Foundations.Cleanup
import Libdill.Sock.Bsock
import Mathlib.Data.Int.Notation
import Mathlib.Logic.Function.Basic

/-!
# Descriptors, memory and handles

What the sockets of `tcp.c`, `ipc.c` and `udp.c` are made of: descriptors of the kernel, objects in
memory and handles. The answers of the kernel, of `malloc` and of `dill_hmake` come from outside; a
number that is in use already is no answer. A call is cut where it blocks, and `calls` are the calls
that wait at the moment.

The flags of a connection and what is sent and received over it are the subject of `Tcp/Conn.lean`;
here only the outcome counts.
-/

namespace Libdill.Ledger

open Foundations Libdill.Sock

/-- The families of addresses. -/
inductive Family
  | inet
  | inet6
  | unix
  | other
  deriving DecidableEq

/-- `SOCK_STREAM` and `SOCK_DGRAM`. -/
inductive SockType
  | stream
  | dgram
  | other
  deriving DecidableEq

/-- What the library asks about an open descriptor, or sets. One that is no socket has no type. -/
structure Desc where
  type : Option SockType
  family : Family
  listening : Bool
  nonblock : Bool
  deriving DecidableEq

/-- The kinds of sockets. -/
inductive Kind
  | tcp
  | tcpListener
  | ipc
  | ipcListener
  | udp
  deriving DecidableEq

/-- The object of a socket: its descriptor, its place in memory and the flag `mem`, which says that
the memory is not the library's. -/
structure Sock where
  kind : Kind
  fd : ℤ
  addr : ℕ
  mem : Bool
  deriving DecidableEq

/-- A call that waits, with its local variables: `s` is the descriptor it waits for, and `alloc` says
that the memory at `addr` has been allocated by the call itself. -/
inductive Pending
  /-- `dill_fd_connect` in `dill_fdout`. -/
  | connect (kind : Kind) (alloc : Bool) (s : ℤ) (addr : ℕ)
  /-- `dill_fd_accept` in `dill_fdin`; `s` belongs to the listener. -/
  | accept (kind : Kind) (alloc : Bool) (s : ℤ) (addr : ℕ)
  /-- `dill_tcp_close` and `dill_ipc_close` of a handle, while they receive. -/
  | close (h : ℤ) (s : ℤ)
  /-- `dill_ipc_recvfd` in `dill_fdin`. -/
  | recvfd (s : ℤ)
  deriving DecidableEq

/-- The descriptor a call waits for. -/
def Pending.fd : Pending → ℤ
  | .connect _ _ s _ => s
  | .accept _ _ s _ => s
  | .close _ s => s
  | .recvfd s => s

/-- The kind of the socket that a call is about to make. -/
def Pending.makes : Pending → Option Kind
  | .connect kind _ _ _ => some kind
  | .accept kind _ _ _ => some kind
  | .close _ _ => none
  | .recvfd _ => none

/-- The answers from outside. -/
inductive Reply
  | malloc (p : Option ℕ)
  /-- A system call that opens a descriptor: `socket`, `accept` or `dup`. -/
  | fd (r : Except Errno ℤ)
  | socketpair (r : Except Errno (ℤ × ℤ))
  /-- The descriptors that come with a message in `recvmsg`. -/
  | rights (r : Except Errno (List (ℤ × Desc)))
  /-- A call that fails or not. -/
  | call (r : Except Errno Unit)
  /-- `dill_hmake`. -/
  | made (r : Except Errno ℤ)

/-- The descriptors that are open and what they are, the blocks that are allocated, the handles in
use with their objects, the handles in use whose object is gone, the calls that wait and the answers
to come. -/
structure World where
  fds : List ℤ
  desc : ℤ → Desc
  heap : List ℕ
  socks : List (ℤ × Sock)
  stale : List ℤ
  calls : List Pending
  env : List Reply

/-- Ends of a call that are no result: it waits for an answer, it uses a descriptor, an object or a
block that is not there, or an assertion fails. -/
inductive Stop
  | blocked
  | fault
  | assertion
  deriving DecidableEq

abbrev M (α : Type) := Call World Stop Errno α

def EINPROGRESS : Errno := .other 115

def ECONNABORTED : Errno := .other 103

def ENOPROTOOPT : Errno := .other 92

def ENOTSOCK : Errno := .other 88

def ENAMETOOLONG : Errno := .other 36

/-! ## Answers -/

/-- The next answer. -/
def answer {α : Type} (f : Reply → Option α) : M α := fun w =>
  match w.env with
  | [] => .error .blocked
  | a :: env =>
    match f a with
    | none => .error .blocked
    | some r => .ok (.ok r, { w with env := env })

/-- The result of a call. -/
def result {α : Type} (r : Except Errno α) : M α := fun w => .ok (r, w)

def Reply.malloc? : Reply → Option (Option ℕ)
  | .malloc p => some p
  | _ => none

def Reply.fd? : Reply → Option (Except Errno ℤ)
  | .fd r => some r
  | _ => none

def Reply.socketpair? : Reply → Option (Except Errno (ℤ × ℤ))
  | .socketpair r => some r
  | _ => none

/-- `recvmsg` in `dill_ipc_recvfd`: no byte at all stands for `EPIPE`, and an error other than
`ECONNRESET` fails the assertion behind it and is no answer here. -/
def Reply.rights? : Reply → Option (Except Errno (List (ℤ × Desc)))
  | .rights (.ok fds) => some (.ok fds)
  | .rights (.error e) => if e = .EPIPE ∨ e = .ECONNRESET then some (.error e) else none
  | _ => none

def Reply.call? : Reply → Option (Except Errno Unit)
  | .call r => some r
  | _ => none

def Reply.made? : Reply → Option (Except Errno ℤ)
  | .made r => some r
  | _ => none

/-- A call that fails or not. -/
def call : M Unit := do
  result (← answer Reply.call?)

/-! ## The kernel -/

/-- The kernel opens a descriptor. -/
def World.enter (w : World) (s : ℤ) (d : Desc) : World :=
  { w with fds := s :: w.fds, desc := Function.update w.desc s d }

/-- A new descriptor. -/
def opened (d : Desc) (s : ℤ) : M ℤ := fun w =>
  if 0 ≤ s ∧ s ∉ w.fds then .ok (.ok s, w.enter s d) else .error .blocked

/-- The descriptors of a message. -/
def openedAll : List (ℤ × Desc) → M Unit
  | [] => pure ()
  | (s, d) :: fds => do
    let _ ← opened d s
    openedAll fds

/-- What an open descriptor is. -/
def descOf (s : ℤ) : M Desc := fun w =>
  if s ∈ w.fds then .ok (.ok (w.desc s), w) else .ok (.error .EBADF, w)

/-- `socket`. -/
def socket (family : Family) (type : SockType) : M ℤ := do
  let s ← result (← answer Reply.fd?)
  opened ⟨some type, family, false, false⟩ s

/-- `socketpair`. -/
def socketpair : M (ℤ × ℤ) := do
  let fds ← result (← answer Reply.socketpair?)
  let _ ← opened ⟨some .stream, .unix, false, false⟩ fds.1
  let _ ← opened ⟨some .stream, .unix, false, false⟩ fds.2
  return fds

/-- `dup`. -/
def dup (s : ℤ) : M ℤ := do
  let d ← descOf s
  let n ← result (← answer Reply.fd?)
  opened d n

/-- `listen`. -/
def listen (s : ℤ) : M Unit := do
  call
  Call.change fun w => { w with desc := Function.update w.desc s { w.desc s with listening := true } }

/-- `close`. -/
def close (s : ℤ) : M Unit := fun w =>
  if s ∈ w.fds then .ok (.ok (), { w with fds := w.fds.erase s }) else .error .fault

/-! ## Memory -/

/-- The memory of the calls that wait. -/
def Pending.addrs : Pending → List ℕ
  | .connect _ _ _ a => [a]
  | .accept _ _ _ a => [a]
  | .close _ _ => []
  | .recvfd _ => []

/-- The memory of the objects. -/
def World.addrs (w : World) : List ℕ := w.socks.map (·.2.addr) ++ w.calls.flatMap Pending.addrs

/-- `malloc` of an object. -/
def malloc : M ℕ := do
  match ← answer Reply.malloc? with
  | none => Call.fail .ENOMEM
  | some a => fun w =>
    if a ∈ w.heap ∨ a ∈ w.addrs then .error .blocked else .ok (.ok a, { w with heap := a :: w.heap })

/-- `free`. -/
def free (a : ℕ) : M Unit := fun w =>
  if a ∈ w.heap then .ok (.ok (), { w with heap := w.heap.erase a }) else .error .fault

/-- A pointer to memory that must not be `NULL`. -/
def given {α : Type} : Option α → M α
  | none => Call.fail .EINVAL
  | some a => pure a

/-- `self->mem = 0` of the object at `a`. -/
def World.own (w : World) (a : ℕ) : World :=
  { w with socks := w.socks.map fun p => if p.2.addr = a then (p.1, { p.2 with mem := false }) else p }

def own (a : ℕ) : M Unit := Call.change fun w => w.own a

/-! ## Handles -/

/-- An object at `addr` is filled in and gets a handle. -/
def make (kind : Kind) (s : ℤ) (addr : ℕ) : M ℤ := do
  let h ← result (← answer Reply.made?)
  fun w =>
    if 0 ≤ h ∧ h ∉ w.socks.map Prod.fst ∧ h ∉ w.stale then
      .ok (.ok h, { w with socks := (h, ⟨kind, s, addr, true⟩) :: w.socks })
    else .error .blocked

/-- The object of a handle. -/
def self (h : ℤ) : M Sock := fun w =>
  if h ∈ w.stale then .error .fault
  else
    match w.socks.lookup h with
    | none => .ok (.error .EBADF, w)
    | some x => .ok (.ok x, w)

/-- `dill_hquery`. -/
def hquery (h : ℤ) (kind : Kind) : M Sock := do
  let x ← self h
  Call.require (x.kind == kind) .ENOTSUP
  return x

/-! ## Descriptors in the library -/

/-- `dill_fd_unblock`. -/
def fdUnblock (s : ℤ) : M Unit := fun w =>
  if s ∈ w.fds then
    .ok (.ok (), { w with desc := Function.update w.desc s { w.desc s with nonblock := true } })
  else .error .assertion

/-- `dill_fd_close`. A descriptor that a coroutine waits for cannot be cleaned. -/
def fdClose (s : ℤ) : M Unit := fun w =>
  if s ∈ w.calls.map Pending.fd then .error .assertion else close s w

/-- `dill_fd_own`. -/
def fdOwn (s : ℤ) : M ℤ := do
  let n ← dup s
  fdClose s
  return n

/-- The option `SO_TYPE` of an open descriptor. -/
def soType (d : Desc) : M SockType :=
  match d.type with
  | none => Call.fail ENOTSOCK
  | some val => pure val

/-- The check of the option `SO_ACCEPTCONN`, which some kernels do not know. -/
def checkListening (d : Desc) (listening : Bool) : M Unit := do
  match ← answer Reply.call? with
  | .ok () => Call.require (d.listening == listening) .EINVAL
  | .error e => Call.require (e == ENOPROTOOPT) e

/-- `dill_fd_check`. -/
def fdCheck (s : ℤ) (type : SockType) (families : List Family) (listening : Bool) : M Unit := do
  let d ← descOf s
  let val ← soType d
  Call.require (val == type) .EINVAL
  checkListening d listening
  call
  Call.require (families.contains d.family) .EINVAL

/-- `dill_fd_connect` up to where it waits; the result says whether it is connected. -/
def fdConnect : M Bool := do
  match ← answer Reply.call? with
  | .ok () => return true
  | .error e =>
    Call.require (e == EINPROGRESS) e
    return false

/-- `dill_fd_connect` from there on: the end of the wait and `SO_ERROR`. -/
def fdConnected (r : Except Errno Unit) : M Unit := do
  result r
  call

/-- The loop of `dill_fd_accept` up to where it waits; it has no result when it does. Each turn takes
an answer. -/
def fdAcceptN (s : ℤ) : ℕ → M (Option ℤ)
  | 0 => Call.stop .blocked
  | n + 1 => do
    match ← answer Reply.fd? with
    | .ok as =>
      let d ← descOf s
      let as ← opened ⟨d.type, d.family, false, false⟩ as
      fdUnblock as
      return some as
    | .error e =>
      if e = ECONNABORTED then fdAcceptN s n
      else if e = .EAGAIN then return none
      else Call.fail e

/-- `dill_fd_accept`. -/
def fdAccept (s : ℤ) : M (Option ℤ) := fun w => fdAcceptN s w.env.length w

end Libdill.Ledger
