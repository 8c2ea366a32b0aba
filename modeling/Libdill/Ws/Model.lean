import Libdill.Prefix.Model
import Libdill.Sock.Iolist

/-!
# WebSockets

The message functions of `ws.c`, over any bytestream: `dill_ws_sendl_base`, `dill_ws_recvl_base`,
`dill_ws_done` and `dill_ws_status`, with the integers of `utils.c`.

The loop over the frames of a message has no bound in the source; `frames` is given a number of
frames after which it has not returned. The bytes that an unfinished read has already stored are
not modelled.
-/

namespace Libdill.Ws

open Foundations Libdill.Sock

/-! ## Integers in network byte order -/

/-- `dill_puts`. -/
def puts (val : UInt16) : List UInt8 :=
  [((val >>> 8) &&& 0xff).toUInt8, (val &&& 0xff).toUInt8]

/-- `dill_gets`. -/
def gets (buf : List UInt8) : UInt16 :=
  ((buf.getD 0 0).toUInt16 <<< 8) ||| (buf.getD 1 0).toUInt16

/-- `dill_putll`. -/
def putll (val : UInt64) : List UInt8 :=
  [((val >>> 56) &&& 0xff).toUInt8, ((val >>> 48) &&& 0xff).toUInt8,
    ((val >>> 40) &&& 0xff).toUInt8, ((val >>> 32) &&& 0xff).toUInt8,
    ((val >>> 24) &&& 0xff).toUInt8, ((val >>> 16) &&& 0xff).toUInt8,
    ((val >>> 8) &&& 0xff).toUInt8, (val &&& 0xff).toUInt8]

/-- `dill_getll`. -/
def getll (buf : List UInt8) : UInt64 :=
  ((buf.getD 0 0).toUInt64 <<< 56) ||| ((buf.getD 1 0).toUInt64 <<< 48) |||
    ((buf.getD 2 0).toUInt64 <<< 40) ||| ((buf.getD 3 0).toUInt64 <<< 32) |||
    ((buf.getD 4 0).toUInt64 <<< 24) ||| ((buf.getD 5 0).toUInt64 <<< 16) |||
    ((buf.getD 6 0).toUInt64 <<< 8) ||| ((buf.getD 7 0).toUInt64 <<< 0)

/-! ## The socket -/

/-- `dill_ws_sock`. `status` is the memory of a `uint16_t`, its lower byte first if `little`. -/
structure WsSock where
  flags : UInt32
  indone : Bool
  outdone : Bool
  server : Bool
  little : Bool
  status : List UInt8
  msglen : UInt8
  msg : List UInt8
  deriving DecidableEq

/-- The socket `dill_ws_attach_client_mem` and `dill_ws_attach_server_mem` create. The storage
contains `msg` where the field of this name is; it is not cleared. -/
def WsSock.attach (server little : Bool) (flags : UInt32) (msg : List UInt8) : WsSock where
  flags := flags
  indone := false
  outdone := false
  server := server
  little := little
  status := [0, 0]
  msglen := 0
  msg := msg

/-- The value of the field `status`. -/
def WsSock.getStatus (self : WsSock) : UInt16 :=
  gets (if self.little then self.status.reverse else self.status)

/-- An assignment to the field `status`. -/
def WsSock.setStatus (self : WsSock) (val : UInt16) : WsSock :=
  { self with status := if self.little then (puts val).reverse else puts val }

/-- `flags & DILL_WS_TEXT`. -/
def isText (flags : UInt32) : Bool := flags &&& 1 != 0

/-- The opcode for the flags of a send function. -/
def opcodeOf (flags : UInt32) : UInt8 := if isText flags then 0x1 else 0x2

/-- The bytes of `bs`, which stand at position `pos` of a payload, combined with the key. -/
def masked (mask : List UInt8) : ℕ → List UInt8 → List UInt8
  | _, [] => []
  | pos, b :: bs => (b ^^^ mask.getD (pos % 4) 0) :: masked mask (pos + 1) bs

/-! ## Sending -/

variable {σ : Type} (u : Bsock σ)

/-- `bs` is written at `off` into a buffer. Nothing checks that it fits; there is no result when it
does not. -/
def writeAt (buf : List UInt8) (off : ℕ) (bs : List UInt8) : Option (List UInt8) :=
  if off + bs.length ≤ buf.length then some (buf.take off ++ bs ++ buf.drop (off + bs.length))
  else none

/-- The size of the message is written into `buf`, behind the first byte; also how many bytes of
`buf` are in use then. -/
def putSize (len : UInt64) (buf : List UInt8) : Option (List UInt8 × ℕ) :=
  if len > 0xffff then do
    let buf ← writeAt buf 1 [127]
    let buf ← writeAt buf 2 (putll len)
    pure (buf, 10)
  else if len > 125 then do
    let buf ← writeAt buf 1 [126]
    let buf ← writeAt buf 2 (puts len.toUInt16)
    pure (buf, 4)
  else do
    let buf ← writeAt buf 1 [len.toUInt8]
    pure (buf, 2)

/-- A client adds the mask. -/
def putMask (server : Bool) (mask buf : List UInt8) (sz : ℕ) : Option (List UInt8 × ℕ) :=
  if server then pure (buf, sz)
  else do
    let buf ← writeAt buf 1 [buf.getD 1 0 ||| 0x80]
    let buf ← writeAt buf sz mask
    pure (buf, sz + 4)

/-- The part of `dill_ws_sendl_base` that fills `buf`: what is in it, and how many bytes of it are
sent. -/
def putHdr (server : Bool) (type : UInt8) (len : UInt64) (mask : List UInt8) :
    Option (List UInt8 × ℕ) := do
  let buf ← writeAt (List.replicate 12 0) 0 [0x80 ||| type]
  let (buf, sz) ← putSize len buf
  putMask server mask buf sz

/-- The inner loop of `dill_ws_sendl_base`, over the bytes of an element; the result is `pos`. -/
def sendBytes (mask : List UInt8) : ℕ → List UInt8 → Call σ Stop Errno ℕ
  | pos, [] => pure pos
  | pos, b :: bs => do
    bsend u [b ^^^ mask.getD (pos % 4) 0]
    sendBytes mask (pos + 1) bs

/-- The outer loop, over the elements. -/
def sendElems (mask : List UInt8) : ℕ → List (List UInt8) → Call σ Stop Errno Unit
  | _, [] => pure ()
  | pos, it :: next => do
    let pos ← sendBytes u mask pos it
    sendElems mask pos next

/-- The mask of a client is what `dill_random` fills in, if it does not fail. -/
def makeMask (server : Bool) (random : Except Errno (List UInt8)) :
    Call σ Stop Errno (List UInt8) :=
  if server then pure []
  else
    match random with
    | .ok mask => pure mask
    | .error e => Call.fail e

/-- `dill_ws_sendl_base`. -/
def sendlBase (self : WsSock) (type : UInt8) (first : List (List UInt8))
    (random : Except Errno (List UInt8)) : Call σ Stop Errno Unit := do
  Call.require (self.outdone == false) .EPIPE
  let mask ← makeMask self.server random
  match putHdr self.server type (Prefix.iolSize first) mask with
  | none => Call.stop .fault
  | some (buf, sz) => do
    bsend u (buf.take sz)
    if self.server then bsendl u first else sendElems u mask 0 first

/-- `dill_ws_sendl`. -/
def sendl (self : WsSock) (flags : UInt32) (first : List (List UInt8))
    (random : Except Errno (List UInt8)) : Call σ Stop Errno Unit :=
  sendlBase u self (opcodeOf flags) first random

/-! ## Receiving -/

/-- A receive in progress: the socket, the stream, the elements of the iolist that `it` has passed
and those from `it` on, and what has been stored in `flags`. -/
structure Rx (σ : Type) where
  self : WsSock
  u : σ
  passed : List Elem
  it : List Elem
  flags : Option UInt32

/-- `dill_brecv` on the socket below. -/
def recv (len : ℕ) : Call (Rx σ) Stop Errno (List UInt8) := fun s =>
  match brecv u len s.u with
  | .error r => .error r
  | .ok (o, s') => .ok (o, { s with u := s' })

/-- The payload of a frame is read into one element, and unmasked there. -/
def chunk (mask : Option (List UInt8)) (toread : ℕ) (it : Elem) : Call σ Stop Errno Elem :=
  if toread = 0 then pure it
  else do
    let bs ← brecv u toread
    match mask, it with
    | none, it => pure (it.put bs)
    | some _, .null _ => Call.stop .fault
    | some mask, .buf mem => pure ((Elem.buf mem).put (masked mask 0 bs))

/-- The loop that reads `sz` bytes of payload into the elements from `it` on: its outcome, the
elements it has passed, those from `it` on and the stream. -/
def payload (mask : Option (List UInt8)) :
    ℕ → List Elem → σ → Except Stop (Except Errno Unit × List Elem × List Elem × σ)
  | sz, [], s => if sz = 0 then .ok (.ok (), [], [], s) else .error .fault
  | sz, it :: next, s =>
    let toread := min sz it.len
    match chunk u mask toread it s with
    | .error r => .error r
    | .ok (.error e, s) => .ok (.error e, [], it :: next, s)
    | .ok (.ok it, s) =>
      if sz - toread = 0 then .ok (.ok (), [], it :: next, s)
      else if next.isEmpty then .ok (.error .EMSGSIZE, [], [it], s)
      else
        match payload mask (sz - toread) next s with
        | .error r => .error r
        | .ok (o, passed, rest, s) => .ok (o, it :: passed, rest, s)

/-- The two elements a close frame is read into. -/
def WsSock.elems (self : WsSock) : List Elem := [.buf self.status, .buf self.msg]

/-- The socket after its elements have been read into. -/
def WsSock.load (self : WsSock) : List Elem → WsSock
  | [.buf status, .buf msg] => { self with status := status, msg := msg }
  | _ => self

/-- The payload of a frame is read, that of a close frame into the socket. -/
def readPayload (close : Bool) (mask : Option (List UInt8)) (sz : ℕ) :
    Call (Rx σ) Stop Errno Unit := fun s =>
  if close then
    match payload u mask sz s.self.elems s.u with
    | .error r => .error r
    | .ok (o, passed, rest, s') =>
      .ok (o, { s with self := s.self.load (passed ++ rest), u := s' })
  else
    match payload u mask sz s.it s.u with
    | .error r => .error r
    | .ok (o, passed, rest, s') =>
      .ok (o, { s with passed := s.passed ++ passed, it := rest, u := s' })

/-- The `switch` over the opcode. -/
def switchOpcode (opcode : UInt8) : Call (Rx σ) Stop Errno Unit :=
  if opcode = 0 then pure ()
  else if opcode = 1 then Call.change fun s => { s with flags := some 1 }
  else if opcode = 2 then Call.change fun s => { s with flags := some 0 }
  else if opcode = 8 then Call.change fun s => { s with self := { s.self with indone := true } }
  else Call.fail .EPROTO

/-- The size of a frame, from the lower bits of the second byte of its header and what follows. -/
def readSize (sz : UInt8) : Call (Rx σ) Stop Errno UInt64 :=
  if sz = 126 then do
    let hdr2 ← recv u 2
    pure (gets hdr2).toUInt64
  else if sz = 127 then do
    let hdr2 ← recv u 8
    pure (getll hdr2)
  else pure sz.toUInt64

/-- The mask of a frame to a server. -/
def readMask (server : Bool) : Call (Rx σ) Stop Errno (Option (List UInt8)) :=
  if server then do
    let mask ← recv u 4
    pure (some mask)
  else pure none

/-- One frame: the new `res`, and whether it was the last one of its message. -/
def frame (res : UInt64) : Call (Rx σ) Stop Errno (UInt64 × Bool) := do
  let hdr1 ← recv u 2
  let fin := hdr1.getD 0 0 &&& 0x80 != 0
  Call.require (hdr1.getD 0 0 &&& 0x70 == 0) .EPROTO
  let opcode := hdr1.getD 0 0 &&& 0x0f
  switchOpcode opcode
  let server ← Call.look fun s => s.self.server
  Call.require (server == (hdr1.getD 1 0 &&& 0x80 != 0)) .EPROTO
  let sz ← readSize u (hdr1.getD 1 0 &&& 0x7f)
  Call.require (!(8 ≤ opcode && (125 < sz || !fin))) .EPROTO
  let mask ← readMask u server
  readPayload u (opcode == 8) mask sz.toNat
  pure (res + sz, fin)

/-- The loop over the frames of a message; it has not returned after `n` frames. -/
def frames : ℕ → UInt64 → Call (Rx σ) Stop Errno UInt64
  | 0, _ => Call.stop .waits
  | n + 1, res => do
    let (res, fin) ← frame u res
    if fin then pure res else frames n res

/-- What `dill_ws_recvl_base` does after a close frame. -/
def closed (res : UInt64) : Call (Rx σ) Stop Errno ℤ :=
  if res = 1 then Call.fail .EPROTO
  else if 2 ≤ res then do
    Call.change fun s => { s with self := s.self.setStatus (gets s.self.status) }
    let status ← Call.look fun s => s.self.getStatus
    Call.require (1000 ≤ status && status ≤ 4999) .EPROTO
    Call.change fun s => { s with self := { s.self with msglen := res.toUInt8 - 2 } }
    Call.fail .EPIPE
  else do
    Call.change fun s => { s with self := { s.self with msglen := 0 } }
    Call.fail .EPIPE

/-- `dill_ws_recvl_base`, for messages of at most `n` frames. -/
def recvlBase (n : ℕ) : Call (Rx σ) Stop Errno ℤ := do
  let indone ← Call.look fun s => s.self.indone
  Call.require (indone == false) .EPIPE
  let res ← frames u n 0
  let indone ← Call.look fun s => s.self.indone
  if indone then closed res else pure res.toInt64.toInt

/-- The beginning of a receive into `first`. -/
def Rx.start (self : WsSock) (s : σ) (first : List Elem) : Rx σ := ⟨self, s, [], first, none⟩

/-- `dill_ws_recvl`: what it returns, and the state it leaves. -/
def recvl (n : ℕ) (self : WsSock) (first : List Elem) (s : σ) :
    Except Stop (Except Errno ℤ × Rx σ) :=
  recvlBase u n (.start self s first)

/-- `dill_ws_mrecvl`: a message of the other type is refused. A type that no frame has set is not
defined. -/
def mrecvl (n : ℕ) (self : WsSock) (first : List Elem) (s : σ) :
    Except Stop (Except Errno ℤ × Rx σ) :=
  Call.andThen (recvlBase u n)
    (fun sz => do
      match ← Call.look (τ := Rx σ) fun s => s.flags with
      | none => Call.stop .fault
      | some flags => do
        Call.require (isText flags == isText self.flags) .EPROTO
        pure sz)
    (.start self s first)

/-! ## Closing -/

/-- `dill_ws_done`; `buf` is the reason. -/
def done (status : ℤ) (buf : Elem) (random : Except Errno (List UInt8)) :
    Call (WsSock × σ) Stop Errno Unit := fun (self, s) =>
  if (status ≠ 0 ∧ (status < 1000 ∨ status > 4999)) ∨ (¬ buf.IsBuf ∧ buf.len > 0) then
    .ok (.error .EINVAL, self, s)
  else if self.outdone then .ok (.error .EPIPE, self, s)
  else
    let sbuf := puts (UInt16.ofInt status)
    match sendlBase u self 0x8 [if status = 0 then [] else sbuf, buf.bytes] random s with
    | .error r => .error r
    | .ok (.error e, s) => .ok (.error e, self, s)
    | .ok (.ok (), s) => .ok (.ok (), { self with outdone := true }, s)

/-- `dill_ws_status` with the buffer `buf`: the length of the reason, the status and the buffer
afterwards. More bytes than `msg` has cannot be copied. -/
def WsSock.report (self : WsSock) (buf : Elem) :
    Except Stop (Except Errno (UInt8 × UInt16 × Elem)) :=
  if ¬ buf.IsBuf ∧ buf.len > 0 then .ok (.error .EINVAL)
  else if !self.indone then .ok (.error .EAGAIN)
  else if buf.IsBuf then
    if buf.len < self.msglen.toNat then .ok (.error .EMSGSIZE)
    else if self.msg.length < self.msglen.toNat then .error .fault
    else .ok (.ok (self.msglen, self.getStatus, buf.put (self.msg.take self.msglen.toNat)))
  else .ok (.ok (self.msglen, self.getStatus, buf))

end Libdill.Ws
