import Libdill.Fd.Recv
import Libdill.Foundations.Call
import Libdill.Sock.Iolcheck
import Mathlib.Data.PNat.Defs

/-!
# Receiving into iolists in memory

`dill_fd_recv` of `fd.c` with the functions it calls, over elements in memory that are linked by
pointers and may be null buffers. The local variables `curr` and `it` are pointers to elements;
`curr` is the address of the function's own copy of an element. The loops are bounded by a number
of turns; the model gives them more turns than there are elements to visit or answers of the kernel.

The kernel is the list of what happens on the descriptor. What the kernel stores is written to the
user's memory.
-/

namespace Libdill.Fd.Scatter

open Foundations Libdill.Sock

variable {n : ℕ}

/-- Why a call does not return: it waits forever, it uses a null pointer, an assertion fails, or a
loop does not end. -/
inductive Halt
  | waits
  | fault
  | assertion
  | endless
  deriving DecidableEq, Repr

/-- What happens on the descriptor: bytes arrive, a call finds nothing, the stream ends or fails, or
the wait for more ends with an error. -/
inductive Piece
  | data (bs : List UInt8)
  | again
  | eof
  | fail (e : Errno)
  | stop (e : Errno)
  deriving DecidableEq

/-- The state during a receive: the elements, the memory their buffers are in, the receive buffer
of the socket, whether a buffer can be allocated, what is to happen on the descriptor, and `IOV_MAX`,
the number of buffers that the kernel takes in one call. -/
structure Rcv (n : ℕ) where
  iol : IolMem n
  mem : ℕ → UInt8
  rx : Option RxBuf
  alloc : Bool
  pieces : List Piece
  iovMax : ℕ+

/-- The calls. -/
abbrev Recv (n : ℕ) (α : Type) := Call (Rcv n) Halt Errno α

/-! ## The kernel -/

/-- Bytes to be received: where they go, if anywhere, and how many they are. -/
abbrev Buf := Option ℕ × ℕ

/-- The addresses of the bytes. -/
def Buf.cells (b : Buf) : List (Option ℕ) :=
  match b.1 with
  | none => List.replicate b.2 none
  | some base => (List.range' base b.2).map some

/-- The addresses of the bytes of an array. -/
def cells (iov : List Buf) : List (Option ℕ) := iov.flatMap Buf.cells

/-- Bytes are written to some addresses, one after the other. -/
def store (mem : ℕ → UInt8) : List (Option ℕ) → List UInt8 → ℕ → UInt8
  | some a :: cs, b :: bs => store (Function.update mem a b) cs bs
  | none :: cs, _ :: bs => store mem cs bs
  | _, _ => mem

/-- `recv` and `recvmsg` of at most `room` bytes into `niov` buffers; nothing is received where the
source goes on with `sz = 0` after `EAGAIN`. The kernel refuses more than `IOV_MAX` buffers. A call
without room returns 0, which is taken for the end of the stream. -/
def sysRecv (niov room : ℕ) : Recv n (List UInt8) := fun s =>
  if s.iovMax < niov then .ok (.error (recvErrno .EMSGSIZE), s)
  else if room = 0 then .ok (.error .EPIPE, s)
  else match s.pieces with
    | [] => .ok (.ok [], s)
    | .stop _ :: _ => .ok (.ok [], s)
    | .again :: ps => .ok (.ok [], { s with pieces := ps })
    | .eof :: ps => .ok (.error .EPIPE, { s with pieces := ps })
    | .fail e :: ps => .ok (.error (recvErrno e), { s with pieces := ps })
    | .data bs :: ps =>
      if bs.length ≤ room then .ok (.ok bs, { s with pieces := ps })
      else .ok (.ok (bs.take room), { s with pieces := .data (bs.drop room) :: ps })

/-- `dill_fdin`. -/
def fdin : Recv n Unit := fun s =>
  match s.pieces with
  | [] => .error .waits
  | .stop e :: ps => .ok (.error e, { s with pieces := ps })
  | _ => .ok (.ok (), s)

/-- The bytes that arrive. -/
def dataOf : List Piece → List UInt8
  | [] => []
  | .data bs :: ps => bs ++ dataOf ps
  | _ :: ps => dataOf ps

/-- A bound on the number of system calls. -/
def Rcv.turns (s : Rcv n) : ℕ := s.pieces.length + (dataOf s.pieces).length

/-! ## Elements -/

/-- `*it`. -/
def elem (it : IolPtr n) : Recv n (IolElem n) := fun s =>
  if it = 0 then .error .fault else .ok (.ok (s.iol it), s)

/-- `*it = e`. -/
def setElem (it : IolPtr n) (e : IolElem n) : Recv n Unit :=
  Call.change fun s => { s with iol := Function.update s.iol it e }

/-- `it->iol_next = next`. -/
def Rcv.setNext (s : Rcv n) (it next : IolPtr n) : Rcv n :=
  { s with iol := Function.update s.iol it { s.iol it with iolNext := next } }

/-- `dill_assert`. -/
def assert (c : Bool) : Recv n Unit := if c then pure () else Call.stop .assertion

/-- The bytes of an element. -/
def IolElem.buf (e : IolElem n) : Buf := (if e.iolBase = 0 then none else some e.iolBase, e.iolLen)

/-! ## Without a receive buffer -/

/-- The loop that adjusts the array after `sz` bytes have been received. -/
def advance : List Buf → ℕ → List Buf
  | [], _ => []
  | (base, len) :: iov, sz =>
    if sz = 0 then (base, len) :: iov
    else if len > sz then (base.map (· + sz), len - sz) :: iov
    else advance iov (sz - len)

/-- The loop of `dill_fd_recv_`. -/
def recvLoop : ℕ → List Buf → Recv n Unit
  | 0, _ => Call.stop .endless
  | k + 1, iov => do
    let bs ← sysRecv iov.length (iov.map Prod.snd).sum
    Call.change fun s => { s with mem := store s.mem (cells iov) bs }
    let iov := advance iov bs.length
    if iov.isEmpty then pure ()
    else do
      fdin
      recvLoop k iov

/-- `dill_fd_recv_` behind the check of its iolist. -/
def recvIov (iov : List Buf) : Recv n Unit := fun s => recvLoop (s.turns + 1) iov s

/-- `dill_iolcheck` of the list that is received into. -/
def check (first last : IolPtr n) : Recv n Unit := fun s =>
  match iolcheck first last s.iol with
  | none => .error .endless
  | some (.error e, iol) => .ok (.error e, { s with iol := iol })
  | some (.ok _, iol) => .ok (.ok (), { s with iol := iol })

/-- `dill_ioltoiov`. -/
def ioltoiov (iol : IolMem n) : ℕ → IolPtr n → Option (List Buf)
  | k, first =>
    if first = 0 then some []
    else match k with
      | 0 => none
      | k + 1 => (ioltoiov iol k (iol.next first)).map
          ((some (iol first).iolBase, (iol first).iolLen) :: ·)

/-- `dill_fd_recv_`. -/
def fdRecv_ (first last : IolPtr n) : Recv n Unit := do
  check first last
  let iov ← Call.look fun s => ioltoiov s.iol (n + 1) first
  match iov with
  | none => Call.stop .endless
  | some iov => recvIov iov

/-- The conversion of a `size_t` to `ssize_t`. -/
def toSsize (len : ℕ) : ℤ := (len : ℤ).bmod (2 ^ 64)

/-- The number of bytes that a turn of `dill_fd_skip` asks for, `to_recv`. -/
def toRecv (len : ℤ) : ℕ := if len < 0 ∨ 512 < len then 512 else len.toNat

/-- The loop of `dill_fd_skip`. The iolist with its one local buffer passes the check. -/
def skipLoop : ℕ → ℤ → Recv n Unit
  | 0, _ => Call.stop .endless
  | k + 1, len =>
    if len = 0 then pure ()
    else do
      recvIov [(none, toRecv len)]
      skipLoop k (if 0 ≤ len then len - toRecv len else len)

/-- `dill_fd_skip`; every turn but the last takes bytes that have arrived. -/
def fdSkip (len : ℤ) : Recv n Unit := fun s => skipLoop ((dataOf s.pieces).length + 1) len s

/-! ## With a receive buffer -/

/-- `dill_fd_copy` to the element `it`: the number of bytes copied. -/
def fdCopy (it : IolPtr n) : Recv n ℕ := fun s =>
  match s.rx with
  | none => .error .fault
  | some rx =>
    let r := rx.copy (s.iol it).iolLen
    .ok (.ok r.1.length,
      { s with rx := some r.2, mem := store s.mem (IolElem.buf (s.iol it)).cells r.1 })

/-- The first loop of `dill_fd_recv`: the element that could not be filled from the receive buffer
and the number of bytes in it, or nothing when all have been filled. -/
def drain : ℕ → IolPtr n → Recv n (Option (IolPtr n × ℕ))
  | 0, _ => Call.stop .endless
  | k + 1, first => do
    let e ← elem first
    let sz ← fdCopy first
    if sz < e.iolLen then pure (some (first, sz))
    else if e.iolNext = 0 then pure none
    else drain k e.iolNext

/-- The loop that finds out how much data is missing. -/
def missing (iol : IolMem n) : ℕ → IolPtr n → ℕ → Option ℕ
  | k, it, miss =>
    if it = 0 then some miss
    else match k with
      | 0 => none
      | k + 1 => missing iol k (iol.next it) ((miss + (iol it).iolLen) % 2 ^ 64)

/-- A call whose result is not looked at. -/
def ignore {α : Type} (x : Recv n α) : Recv n Unit := fun s =>
  match x s with
  | .error h => .error h
  | .ok (_, s) => .ok (.ok (), s)

/-- A call with a change of the state behind it, however it ends. -/
def finally' {α : Type} (x : Recv n α) (f : Rcv n → Rcv n) : Recv n α := fun s =>
  match x s with
  | .error h => .error h
  | .ok (r, s) => .ok (r, f s)

/-- Whether the buffers up to the element `it` are received into before the loop goes on. -/
def splits (last it : IolPtr n) (e : IolElem n) : Recv n Bool :=
  if it = last then pure true
  else do
    let e' ← elem e.iolNext
    pure (decide (e'.iolBase = 0 ∨ e'.iolLen = 0))

/-- The loop that receives directly into the user's buffers. The list is split at null buffers and
at empty ones. -/
def direct (last : IolPtr n) : ℕ → IolPtr n → IolPtr n → Recv n Unit
  | 0, _, _ => Call.stop .endless
  | k + 1, start, it => do
    let e ← elem it
    -- `next:`
    let next : Recv n Unit :=
      if it = last then pure ()
      else do
        let e ← elem it
        direct last k e.iolNext e.iolNext
    if e.iolLen = 0 then do
      assert (it = start)
      next
    else if e.iolBase = 0 then do
      assert (it = start)
      ignore (fdSkip (toSsize e.iolLen))
      next
    else do
      let split ← splits last it e
      if split then do
        Call.change fun s => s.setNext it 0
        finally' (fdRecv_ start it) fun s => s.setNext it e.iolNext
        next
      else direct last k start e.iolNext

/-- `dill_fd_allocbuf`, if there is no buffer. -/
def allocbuf : Recv n Unit := fun s =>
  match s.rx with
  | none => .error .fault
  | some rx =>
    if rx.buf.isSome then .ok (.ok (), s)
    else if s.alloc then .ok (.ok (), { s with rx := some { rx with buf := some [] } })
    else .ok (.error .ENOMEM, s)

/-- The loop that copies from the receive buffer to the iolist: the number of bytes copied to the
element in `curr` if it could not be filled, or nothing when all have been filled. -/
def copyOut (curr : IolPtr n) : ℕ → Recv n (Option ℕ)
  | 0 => Call.stop .endless
  | k + 1 => do
    let sz ← fdCopy curr
    let e ← elem curr
    if sz < e.iolLen then pure (some sz)
    else if e.iolNext = 0 then pure none
    else do
      let e' ← elem e.iolNext
      setElem curr e'
      copyOut curr k

/-- The element without its first `sz` bytes. -/
def IolElem.skip (e : IolElem n) (sz : ℕ) : IolElem n :=
  { e with iolBase := if e.iolBase = 0 then 0 else e.iolBase + sz, iolLen := e.iolLen - sz }

/-- The loop that receives through the receive buffer. -/
def buffered (curr : IolPtr n) : ℕ → Recv n Unit
  | 0 => Call.stop .endless
  | k + 1 => do
    allocbuf
    let bs ← sysRecv 1 bufsize
    Call.change fun s => { s with rx := some ⟨bs.length, 0, some bs⟩ }
    let r ← copyOut curr (n + 1)
    match r with
    | none => pure ()
    | some sz => do
      let e ← elem curr
      setElem curr (IolElem.skip e sz)
      fdin
      buffered curr k

/-- `dill_fd_recv`; `curr` is the address of its local element. -/
def fdRecv (curr first last : IolPtr n) : Recv n Unit :=
  if first = 0 ∧ last = 0 then fdSkip (-1)
  else do
    let rx ← Call.look Rcv.rx
    let r ← if rx.isSome then drain (n + 1) first else pure (some (first, 0))
    match r with
    | none => pure ()
    | some (first, sz) => do
      let e ← elem first
      setElem curr { IolElem.skip e sz with iolRsvd := 0 }
      let miss ← Call.look fun s => missing s.iol (n + 1) curr 0
      match miss with
      | none => Call.stop .endless
      | some miss =>
        if rx.isNone ∨ bufsize < miss then
          direct (if e.iolNext = 0 then curr else last) (n + 1) curr curr
        else fun s => buffered curr (s.turns + 1) s

end Libdill.Fd.Scatter
