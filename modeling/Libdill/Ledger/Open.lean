import Libdill.Ledger.World
import Libdill.Utils.Strings

/-!
# Opening and closing sockets

The functions of `tcp.c`, `ipc.c` and `udp.c` that make sockets and that close them. The variants
without `_mem` allocate the object and pass it to the one with `_mem`; what is passed as memory may
be `NULL`. Each label of the source is an `unwind` here, in the order in which the labels are run
through.

Written back addresses, and with them the ports that `getsockname` finds out, are left out.
-/

namespace Libdill.Ledger

open Foundations Libdill.Sock Libdill.Utils

/-- `dill_ipaddr`: its family, which is either of the two of IP, and its port. -/
structure Ipaddr where
  v6 : Bool
  port : ℕ

/-- `dill_ipaddr_family`. -/
def Ipaddr.family (addr : Ipaddr) : Family := if addr.v6 then .inet6 else .inet

/-- A call has come to its end with a handle (or, from `dill_ipc_recvfd`, a descriptor), or it
waits. -/
inductive Progress
  | done (h : ℤ)
  | waits (p : Pending)

/-- The call has allocated the memory itself. -/
def Pending.allocated : Pending → Pending
  | .connect kind _ s a => .connect kind true s a
  | .accept kind _ s a => .accept kind true s a
  | p => p

/-- The rest of a function that has allocated `obj`: it is freed on failure, and the socket owns it
in the end. -/
def onHeap (obj : ℕ) (x : M Progress) : M Progress := do
  match ← Call.unwind (free obj) x with
  | .done s =>
    own obj
    return .done s
  | .waits p => return .waits p.allocated

/-- The variant without `_mem`. -/
def allocating (f : Option ℕ → M Progress) : M Progress := do
  let obj ← malloc
  onHeap obj (f (some obj))

/-! ## Descriptors from outside -/

/-- The `fromfd_mem` functions. Behind `dill_fd_own` the descriptor is a new one, and there is no
label that closes it. -/
def fromfdMem (kind : Kind) (families : List Family) (listening : Bool) (fd : ℤ) (mem : Option ℕ) :
    M Progress := do
  Call.require (mem.isSome && decide (0 ≤ fd)) .EINVAL
  let addr ← given mem
  fdCheck fd .stream families listening
  let fd ← fdOwn fd
  fdUnblock fd
  let h ← make kind fd addr
  return .done h

/-- `dill_tcp_fromfd_mem`. -/
def tcpFromfdMem (fd : ℤ) (mem : Option ℕ) : M Progress := fromfdMem .tcp [.inet, .inet6] false fd mem

/-- `dill_tcp_fromfd`. -/
def tcpFromfd (fd : ℤ) : M Progress := allocating (tcpFromfdMem fd)

/-- `dill_tcp_listener_fromfd_mem`. -/
def tcpListenerFromfdMem (fd : ℤ) (mem : Option ℕ) : M Progress :=
  fromfdMem .tcpListener [.inet, .inet6] true fd mem

/-- `dill_tcp_listener_fromfd`. -/
def tcpListenerFromfd (fd : ℤ) : M Progress := allocating (tcpListenerFromfdMem fd)

/-- `dill_ipc_fromfd_mem`. -/
def ipcFromfdMem (fd : ℤ) (mem : Option ℕ) : M Progress := fromfdMem .ipc [.unix] false fd mem

/-- `dill_ipc_fromfd`. -/
def ipcFromfd (fd : ℤ) : M Progress := allocating (ipcFromfdMem fd)

/-- `dill_ipc_listener_fromfd_mem`. -/
def ipcListenerFromfdMem (fd : ℤ) (mem : Option ℕ) : M Progress :=
  fromfdMem .ipcListener [.unix] true fd mem

/-- `dill_ipc_listener_fromfd`. -/
def ipcListenerFromfd (fd : ℤ) : M Progress := allocating (ipcListenerFromfdMem fd)

/-! ## Connecting -/

/-- From the call of `socket` on, up to where it waits. -/
def connectOver (kind : Kind) (family : Family) (addr : ℕ) : M Progress := do
  let s ← socket family .stream
  Call.unwind (fdClose s) do
    fdUnblock s
    if ← fdConnect then
      let h ← make kind s addr
      return .done h
    else return .waits (.connect kind false s addr)

/-- From the end of the wait on. -/
def connected (kind : Kind) (s : ℤ) (addr : ℕ) (r : Except Errno Unit) : M Progress :=
  Call.unwind (fdClose s) do
    fdConnected r
    let h ← make kind s addr
    return .done h

/-- `dill_tcp_connect_mem`. -/
def tcpConnectMem (addr : Ipaddr) (mem : Option ℕ) : M Progress := do
  let mem ← given mem
  connectOver .tcp addr.family mem

/-- `dill_tcp_connect`. -/
def tcpConnect (addr : Ipaddr) : M Progress := allocating (tcpConnectMem addr)

/-- `dill_ipc_resolve`: the address must fit into `sun_path`. -/
def ipcResolve (addr : CString) : M Unit := Call.require (addr.bytes.length < 108) ENAMETOOLONG

/-- `dill_ipc_connect_mem`. -/
def ipcConnectMem (addr : CString) (mem : Option ℕ) : M Progress := do
  let mem ← given mem
  ipcResolve addr
  connectOver .ipc .unix mem

/-- `dill_ipc_connect`. -/
def ipcConnect (addr : CString) : M Progress := allocating (ipcConnectMem addr)

/-! ## Listening -/

/-- `dill_tcp_listen_mem`. The port of the address is asked for if the kernel has chosen it. -/
def tcpListenMem (addr : Ipaddr) (mem : Option ℕ) : M Progress := do
  let mem ← given mem
  let s ← socket addr.family .stream
  Call.unwind (close s) do
    fdUnblock s
    call
    listen s
    if addr.port = 0 then call
    let h ← make .tcpListener s mem
    return .done h

/-- `dill_tcp_listen`. -/
def tcpListen (addr : Ipaddr) : M Progress := allocating (tcpListenMem addr)

/-- `dill_ipc_listen_mem`. The memory is not checked: the object is written to `NULL`. -/
def ipcListenMem (addr : CString) (mem : Option ℕ) : M Progress := do
  ipcResolve addr
  let s ← socket .unix .stream
  Call.unwind (close s) do
    fdUnblock s
    call
    listen s
    match mem with
    | none => Call.stop .fault
    | some mem =>
      let h ← make .ipcListener s mem
      return .done h

/-- `dill_ipc_listen`. -/
def ipcListen (addr : CString) : M Progress := allocating (ipcListenMem addr)

/-! ## Accepting -/

/-- From the call of `dill_fd_accept` for the descriptor of the listener on, up to where it waits. -/
def acceptOver (kind : Kind) (s : ℤ) (addr : ℕ) : M Progress := do
  match ← fdAccept s with
  | none => return .waits (.accept kind false s addr)
  | some as =>
    Call.unwind (fdClose as) do
      fdUnblock as
      let h ← make kind as addr
      return .done h

/-- From the end of the wait on. -/
def accepted (kind : Kind) (s : ℤ) (addr : ℕ) (r : Except Errno Unit) : M Progress := do
  result r
  acceptOver kind s addr

/-- `dill_tcp_accept_mem`. -/
def tcpAcceptMem (s : ℤ) (mem : Option ℕ) : M Progress := do
  let mem ← given mem
  let lst ← hquery s .tcpListener
  acceptOver .tcp lst.fd mem

/-- `dill_tcp_accept`. -/
def tcpAccept (s : ℤ) : M Progress := allocating (tcpAcceptMem s)

/-- `dill_ipc_accept_mem`. -/
def ipcAcceptMem (s : ℤ) (mem : Option ℕ) : M Progress := do
  let mem ← given mem
  let lst ← hquery s .ipcListener
  acceptOver .ipc lst.fd mem

/-- `dill_ipc_accept`. -/
def ipcAccept (s : ℤ) : M Progress := allocating (ipcAcceptMem s)

/-! ## Datagrams -/

/-- Both ends of a socket for datagrams, as far as they are given, are in one family. -/
def sameFamily (localAddr remote : Option Ipaddr) : Bool :=
  match localAddr, remote with
  | some l, some r => l.family == r.family
  | _, _ => true

/-- The family of the socket. -/
def openFamily (localAddr remote : Option Ipaddr) : Family :=
  ((remote <|> localAddr).map Ipaddr.family).getD .inet

/-- The start of the listening in `dill_udp_open_mem`: after `bind` it is the descriptor that is
checked once more, and not the result. -/
def bindLocal : Option Ipaddr → M Unit
  | none => pure ()
  | some l => do
    let _ ← answer Reply.call?
    if l.port = 0 then call else return ()

/-- `dill_udp_open_mem`. -/
def udpOpenMem (localAddr remote : Option Ipaddr) (mem : Option ℕ) : M Progress := do
  let mem ← given mem
  Call.require (sameFamily localAddr remote) .EINVAL
  let s ← socket (openFamily localAddr remote) .dgram
  Call.unwind (fdClose s) do
    fdUnblock s
    bindLocal localAddr
    let h ← make .udp s mem
    return .done h

/-- `dill_udp_open`. -/
def udpOpen (localAddr remote : Option Ipaddr) : M Progress := allocating (udpOpenMem localAddr remote)

/-! ## Closing -/

/-- `dill_tcp_hclose`, `dill_tcp_listener_hclose` and their counterparts in `ipc.c` and `udp.c`. -/
def closeCallback (x : Sock) : M Unit := do
  fdClose x.fd
  if x.mem then return () else free x.addr

/-- `dill_hclose`. -/
def hclose (h : ℤ) : M Unit := do
  let x ← self h
  closeCallback x
  Call.change fun w => { w with socks := w.socks.erase (h, x) }

/-- The close callback is called past `dill_hclose`: the object goes and the handle stays. -/
def closeObject (h : ℤ) (x : Sock) : M Unit := do
  closeCallback x
  Call.change fun w => { w with socks := w.socks.erase (h, x), stale := h :: w.stale }

/-- `dill_tcp_close` and `dill_ipc_close` up to where the rest of the stream is received. Before that
the connection may turn out to be broken, or shutting it down may fail. -/
def closeOver (kind listener : Kind) (h : ℤ) : M Progress := do
  let x ← self h
  if x.kind = listener then
    hclose h
    return .done 0
  else
    Call.require (x.kind == kind) .ENOTSUP
    match ← answer Reply.call? with
    | .error e =>
      closeObject h x
      Call.fail e
    | .ok () => return .waits (.close h x.fd)

/-- From there on. There is no end of the receive without an error, and `EPIPE` is the good one. -/
def closed (h : ℤ) (r : Except Errno Unit) : M Progress := do
  match r with
  | .ok () => Call.stop .blocked
  | .error e =>
    let x ← self h
    closeObject h x
    Call.require (e == .EPIPE) e
    return .done 0

/-- `dill_tcp_close`. -/
def tcpClose (h : ℤ) : M Progress := closeOver .tcp .tcpListener h

/-- `dill_ipc_close`. -/
def ipcClose (h : ℤ) : M Progress := closeOver .ipc .ipcListener h

/-! ## Pairs and rights -/

/-- `dill_ipc_pair_mem`; the memory is that of the two objects. -/
def ipcPairMem (mem : Option (ℕ × ℕ)) : M Progress := do
  let conns ← given mem
  let fds ← socketpair
  Call.unwind (fdClose fds.2) do
    let s0 ← Call.unwind (fdClose fds.1) do
      fdUnblock fds.1
      fdUnblock fds.2
      make .ipc fds.1 conns.1
    let _ ← Call.unwind (hclose s0) (make .ipc fds.2 conns.2)
    return .done 0

/-- `dill_ipc_pair` between `socketpair` and the second handle: the first handle, whose object owns
its memory, and the memory for the second object. -/
def firstHalf (fds : ℤ × ℤ) : M (ℤ × ℕ) := do
  fdUnblock fds.1
  fdUnblock fds.2
  let conn0 ← malloc
  Call.unwind (free conn0) do
    let conn1 ← malloc
    let s0 ← Call.unwind (free conn1) (make .ipc fds.1 conn0)
    own conn0
    return (s0, conn1)

/-- `dill_ipc_pair`. The label for the failure of the second handle closes the first one, and with it
its descriptor; it does not free the memory of the second. -/
def ipcPair : M Progress := do
  let fds ← socketpair
  Call.unwind (fdClose fds.2) do
    let (s0, conn1) ← Call.unwind (fdClose fds.1) (firstHalf fds)
    let _ ← Call.unwind (hclose s0) (make .ipc fds.2 conn1)
    own conn1
    return .done 0

/-- `dill_ipc_recvfd` up to where it waits. Before that it may be refused for the flags of the
connection. -/
def ipcRecvfd (h : ℤ) : M Progress := do
  let x ← hquery h .ipc
  call
  return .waits (.recvfd x.fd)

/-- From there on. The first descriptor of the message is returned; the others are not looked at. -/
def receivedFd (r : Except Errno Unit) : M Progress := do
  result r
  let fds ← result (← answer Reply.rights?)
  openedAll fds
  match fds with
  | [] => Call.fail .EPROTO
  | (fd, _) :: _ => return .done fd

end Libdill.Ledger
