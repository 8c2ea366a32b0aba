import Libdill.Fd.Gather
import Libdill.Fd.Slices
import Libdill.Prefix.Memory
import Libdill.Suffix.Model
import Libdill.Term.Model
import Libdill.Ws.Model

/-!
# Calls with elements in memory

`bsendl` and `brecvl` of `tcp.c` and `ipc.c`, and `msendl` and `mrecvl` of the message sockets that
are stacked on such a connection, for iolists whose elements are in memory. Each function links,
cuts off and marks elements as the source does; the local elements of the functions are in the same
memory, at addresses of their own. The bytes are in a memory apart from the elements.

A message socket can have any number of TERM sockets on it, each of which calls the one below.

The loops that the source does not bound are given a number of turns.
-/

namespace Libdill.Borrow

open Foundations Libdill.Sock Fd Fd.Scatter
open Libdill.Prefix (PrefixSock)
open Libdill.Suffix (SuffixSock)
open Libdill.Term (TermSock)
open Libdill.Ws (WsSock)
open Libdill.Fd.Gather (Event)

variable {n : ℕ}

/-- A connection, and a socket of each kind that can be stacked on it. `sends` has what is to happen
on the descriptor in each of the calls of `dill_fd_send`; a connection that can receive descriptors
has no receive buffer. The TERM sockets are numbered by how many are below them. -/
structure Stack (n : ℕ) extends Rcv n where
  sends : List (List Event)
  rbusy : Bool
  sbusy : Bool
  indone : Bool
  outdone : Bool
  inerr : Bool
  outerr : Bool
  prefixSock : PrefixSock
  suffixSock : SuffixSock
  termSocks : ℕ → TermSock
  wsSock : WsSock

/-- The calls. -/
abbrev On (n : ℕ) (α : Type) := Call (Stack n) Halt Errno α

/-- The addresses of the local variables of `dill_term_mrecvl`. -/
structure TermLocals (n : ℕ) where
  term : IolPtr n
  trimmed : IolPtr n
  termbuf : ℕ

/-- The addresses of the local variables of the other functions and of the fields of the sockets. The
elements are those of `dill_fd_recv`, of `dill_bsend` and `dill_brecv`, of the two functions of
PREFIX and SUFFIX that have one, and of `dill_ws_recvl_base`. -/
structure Locals (n : ℕ) where
  curr : IolPtr n
  iol : IolPtr n
  hdr : IolPtr n
  chr : IolPtr n
  msg : IolPtr n
  szbuf : ℕ
  suffix : ℕ
  chrbuf : ℕ
  hdr1 : ℕ
  hdr2 : ℕ
  mask : ℕ
  wsbuf : ℕ
  byte : ℕ
  status : ℕ
  msgbuf : ℕ

/-- The addresses of the local elements, if there are the TERM sockets `ts`. -/
def Locals.own (v : Locals n) : List (TermLocals n) → List (IolPtr n)
  | [] => [v.curr, v.iol, v.hdr, v.chr, v.msg]
  | t :: ts => t.term :: t.trimmed :: v.own ts

/-- The local variables of a call. The topmost TERM socket is the first one. -/
structure Vars (n : ℕ) extends Locals n where
  terms : List (TermLocals n)
  apart : (0 :: toLocals.own terms).Nodup

/-! ## Memory -/

/-- A part of a receive, which does not look at the sockets. -/
def rcv {α : Type} (x : Recv n α) : On n α := fun s =>
  match x s.toRcv with
  | .error h => .error h
  | .ok (o, r) => .ok (o, { s with toRcv := r })

/-- The `len` bytes at an address. -/
def bytesAt (base len : ℕ) : On n (List UInt8) :=
  Call.look fun s => (List.range' base len).map s.mem

/-- Bytes are stored at an address. -/
def storeAt (base : ℕ) (bs : List UInt8) : On n Unit :=
  Call.change fun s => { s with mem := store s.mem (Buf.cells (some base, bs.length)) bs }

/-- `*it`. -/
def element (it : IolPtr n) : On n (IolElem n) := rcv (elem it)

/-- `*it = e`. -/
def assign (it : IolPtr n) (e : IolElem n) : On n Unit := rcv (setElem it e)

/-- A call, what is done behind it, and what is done if it has failed. -/
def settle {α : Type} (x : On n α) (done : Stack n → Stack n)
    (failed : Errno → Stack n → Stack n) : On n α := fun s =>
  match x s with
  | .error h => .error h
  | .ok (.ok a, s) => .ok (.ok a, done s)
  | .ok (.error e, s) => .ok (.error e, failed e (done s))

/-! ## Connections -/

/-- `dill_fd_send`. Of the elements `dill_iolcheck` is all that changes them. -/
def fdSend (first last : IolPtr n) : On n Unit := fun s =>
  let s' := { s with
    iol := ((iolcheck first last s.iol).map Prod.snd).getD s.iol, sends := s.sends.tail }
  match (Gather.fdSend s.mem s.iol first last (s.sends.headD [])).2 with
  | .returns => .ok (.ok (), s')
  | .fails e => .ok (.error e, s')
  | .waits => .error .waits
  | .endless => .error .endless

/-- `dill_tcp_bsendl` and `dill_ipc_bsendl`. -/
def connBsendl (first last : IolPtr n) : On n Unit := do
  let self ← Call.look id
  Call.require (!self.sbusy) .EBUSY
  Call.require (!self.outdone) .EPIPE
  Call.require (!self.outerr) .ECONNRESET
  Call.change fun s => { s with sbusy := true }
  settle (fdSend first last) (fun s => { s with sbusy := false })
    fun _ s => { s with outerr := true }

variable (v : Vars n)

/-- `dill_tcp_brecvl` and `dill_ipc_brecvl`. -/
def connBrecvl (first last : IolPtr n) : On n Unit := do
  let self ← Call.look id
  Call.require (!self.rbusy) .EBUSY
  Call.require (!self.indone) .EPIPE
  Call.require (!self.inerr) .ECONNRESET
  Call.change fun s => { s with rbusy := true }
  settle (rcv (fdRecv v.curr first last)) (fun s => { s with rbusy := false })
    fun e s => if e = .EPIPE then { s with indone := true } else { s with inerr := true }

/-- `dill_bsendl`. -/
def bsendl (first last : IolPtr n) : On n Unit := do
  Call.require (decide (first ≠ 0 ∧ last ≠ 0)) .EINVAL
  let e ← element last
  Call.require (decide (e.iolNext = 0)) .EINVAL
  connBsendl first last

/-- `dill_brecvl`. -/
def brecvl (first last : IolPtr n) : On n Unit := do
  Call.require (decide (first = 0) == decide (last = 0)) .EINVAL
  let e ← element last
  Call.require (decide (e.iolNext = 0)) .EINVAL
  connBrecvl v first last

/-- `dill_bsend`. -/
def bsend (buf len : ℕ) : On n Unit := do
  assign v.iol ⟨buf, len, 0, 0⟩
  connBsendl v.iol v.iol

/-- `dill_brecv`. -/
def brecv (buf len : ℕ) : On n Unit := do
  assign v.iol ⟨buf, len, 0, 0⟩
  connBrecvl v v.iol v.iol

/-! ## PREFIX -/

/-- `dill_prefix_msendl`. -/
def prefixMsendl (first last : IolPtr n) : On n Unit := do
  let self ← Call.look Stack.prefixSock
  Call.require (!self.outerr) .ECONNRESET
  match ← Call.look (τ := Stack n) fun s => missing s.iol (n + 1) first 0 with
  | none => Call.stop .endless
  | some sz => do
    storeAt v.szbuf (self.putHdr (UInt64.ofNat sz))
    assign v.hdr ⟨v.szbuf, self.hdrlen, first, 0⟩
    settle (bsendl v.hdr last) id fun _ s =>
      { s with prefixSock := { s.prefixSock with outerr := true } }

/-- The receiver of PREFIX fails if the call does. -/
def prefixIn {α : Type} (x : On n α) : On n α :=
  settle x id fun _ s => { s with prefixSock := { s.prefixSock with inerr := true } }

/-- `it->iol_len = len; it->iol_next = next`. -/
def cutAt (it : IolPtr n) (len : ℕ) (next : IolPtr n) (s : Stack n) : Stack n :=
  { s with toRcv := Prefix.Memory.cutAt s.toRcv it len next }

/-- `dill_prefix_mrecvl`. -/
def prefixMrecvl (first last : IolPtr n) : On n ℤ := do
  let self ← Call.look Stack.prefixSock
  Call.require (!self.inerr) .ECONNRESET
  prefixIn (brecv v v.szbuf self.hdrlen)
  let szbuf ← bytesAt v.szbuf self.hdrlen
  let sz := (self.getHdr szbuf).toNat
  if first = 0 then do
    prefixIn (brecv v 0 sz)
    pure (toSsize sz)
  else do
    let (it, rmn) ← prefixIn (rcv (Prefix.Memory.trim (n + 1) first sz))
    let e ← element it
    Call.change (cutAt it rmn 0)
    prefixIn (settle (brecvl v first last) (cutAt it e.iolLen e.iolNext) fun _ s => s)
    pure (toSsize sz)

/-! ## SUFFIX -/

/-- `last->iol_next = next`. -/
def link (last next : IolPtr n) (s : Stack n) : Stack n :=
  { s with toRcv := s.toRcv.setNext last next }

/-- `dill_suffix_msendl`. -/
def suffixMsendl (first last : IolPtr n) : On n Unit := do
  let self ← Call.look Stack.suffixSock
  Call.require (!self.outerr) .ECONNRESET
  assign v.chr ⟨v.suffix, self.suffix.bytes.length, 0, 0⟩
  let _ ← element last
  Call.change (link last v.chr)
  settle (connBsendl first v.chr) (link last 0) fun _ s =>
    { s with suffixSock := { s.suffixSock with outerr := true } }

/-- The receiver of SUFFIX fails if the call does. -/
def suffixIn {α : Type} (x : On n α) : On n α :=
  settle x id fun _ s => { s with suffixSock := { s.suffixSock with inerr := true } }

/-- The loop of `dill_suffix_mrecvl` that ignores empty items. `first` is what it looks at. -/
def ignoreEmpty (first : IolPtr n) : ℕ → IolElem n → On n (IolElem n)
  | 0, _ => Call.stop .endless
  | k + 1, it => do
    let e ← element first
    if e.iolLen ≠ 0 then pure it
    else if it.iolNext = 0 then suffixIn (Call.fail .EMSGSIZE)
    else do
      let it ← element it.iolNext
      ignoreEmpty first k it

/-- One character is moved to the user's iolist. -/
def moveChar (it : IolElem n) : On n (IolElem n) :=
  if it.iolBase ≠ 0 ∧ 0 < it.iolLen then do
    let c ← bytesAt v.chrbuf 1
    storeAt it.iolBase c
    pure { it with iolBase := it.iolBase + 1, iolLen := it.iolLen - 1 }
  else pure it

/-- The loop of `dill_suffix_mrecvl`; `it` is a copy of an element. -/
def scan (first : IolPtr n) : ℕ → IolElem n → ℕ → On n ℤ
  | 0, _, _ => Call.stop .endless
  | k + 1, it, sz => do
    let suffix ← Call.look fun s => s.suffixSock.suffix.bytes
    let buf ← bytesAt v.chrbuf suffix.length
    if buf = suffix then pure (toSsize sz)
    else do
      let it ← ignoreEmpty first (n + 1) it
      let it ← moveChar v it
      storeAt v.chrbuf buf.tail
      suffixIn (connBrecvl v v.chr v.chr)
      scan first k it (sz + 1)

/-- `dill_suffix_mrecvl`. -/
def suffixMrecvl (turns : ℕ) (first _last : IolPtr n) : On n ℤ := do
  let self ← Call.look Stack.suffixSock
  Call.require (!self.inerr) .ECONNRESET
  assign v.chr ⟨v.chrbuf, self.suffix.bytes.length, 0, 0⟩
  suffixIn (connBrecvl v v.chr v.chr)
  assign v.chr ⟨v.chrbuf + self.suffix.bytes.length - 1, 1, 0, 0⟩
  let it ← element first
  scan v first turns it 0

/-! ## WebSockets -/

/-- `dill_iolcheck`: the number of bytes. -/
def checkIol (first last : IolPtr n) : On n ℕ := fun s =>
  match iolcheck first last s.iol with
  | none => .error .endless
  | some (.error e, iol) => .ok (.error e, { s with iol := iol })
  | some (.ok r, iol) => .ok (.ok r.2, { s with iol := iol })

/-- The mask of a client is what `dill_random` fills in, if it does not fail. -/
def wsMask (server : Bool) (random : Except Errno (List UInt8)) : On n (List UInt8) :=
  if server then pure []
  else
    match random with
    | .ok mask => pure mask
    | .error e => Call.fail e

/-- The loop of `dill_ws_sendl_base` over the bytes of an element; the result is `pos`. -/
def sendBytes (mask : List UInt8) : ℕ → ℕ → ℕ → On n ℕ
  | 0, _, pos => pure pos
  | k + 1, base, pos => do
    let b ← bytesAt base 1
    storeAt v.byte [b.headD 0 ^^^ mask.getD (pos % 4) 0]
    bsend v v.byte 1
    sendBytes mask k (base + 1) (pos + 1)

/-- The loop over the elements. -/
def sendElems (mask : List UInt8) : ℕ → IolPtr n → ℕ → On n Unit
  | 0, _, _ => Call.stop .endless
  | k + 1, first, pos =>
    if first = 0 then pure ()
    else do
      let e ← element first
      if e.iolBase = 0 ∧ e.iolLen ≠ 0 then Call.stop .fault
      else do
        let pos ← sendBytes v mask e.iolLen e.iolBase pos
        sendElems mask k e.iolNext pos

/-- `dill_ws_sendl_base`. -/
def wsSendl (random : Except Errno (List UInt8)) (type : UInt8) (first last : IolPtr n) :
    On n Unit := do
  let self ← Call.look Stack.wsSock
  Call.require (!self.outdone) .EPIPE
  let len ← checkIol first last
  let mask ← wsMask self.server random
  match Ws.putHdr self.server type (UInt64.ofNat len) mask with
  | none => Call.stop .fault
  | some (buf, sz) => do
    storeAt v.wsbuf (buf.take sz)
    bsend v v.wsbuf sz
    if self.server then bsendl first last else sendElems v mask (n + 1) first 0

/-- `dill_ws_msendl`. -/
def wsMsendl (random : Except Errno (List UInt8)) (first last : IolPtr n) : On n Unit := do
  let self ← Call.look Stack.wsSock
  wsSendl v random (Ws.opcodeOf self.flags) first last

/-- What `dill_ws_recvl_base` has in its variables: `it`, which is not set if there is no list, what
has been stored in `flags`, and `res`. -/
structure WsVars (n : ℕ) where
  it : Option (IolElem n)
  flags : Option UInt32
  res : UInt64

/-- The `switch` over the opcode. -/
def wsSwitch (opcode : UInt8) (x : WsVars n) : On n (WsVars n) :=
  if opcode = 0 then pure x
  else if opcode = 1 then pure { x with flags := some 1 }
  else if opcode = 2 then pure { x with flags := some 0 }
  else if opcode = 8 then do
    let self ← Call.look Stack.wsSock
    assign v.msg ⟨v.msgbuf, self.msg.length, 0, 0⟩
    Call.change fun s => { s with wsSock := { s.wsSock with indone := true } }
    pure { x with it := some ⟨v.status, 2, v.msg, 0⟩ }
  else Call.fail .EPROTO

/-- The size of a frame. -/
def wsSize (sz : UInt8) : On n UInt64 :=
  if sz = 126 then do
    brecv v v.hdr2 2
    let hdr2 ← bytesAt v.hdr2 2
    pure (Ws.gets hdr2).toUInt64
  else if sz = 127 then do
    brecv v v.hdr2 8
    let hdr2 ← bytesAt v.hdr2 8
    pure (Ws.getll hdr2)
  else pure sz.toUInt64

/-- A piece of the payload is read, and unmasked where it is. -/
def wsChunk (server : Bool) (mask : List UInt8) (base toread : ℕ) : On n Unit :=
  if toread = 0 then pure ()
  else do
    brecv v base toread
    if server then
      if base = 0 then Call.stop .fault
      else do
        let bs ← bytesAt base toread
        storeAt base (Ws.masked mask 0 bs)
    else pure ()

/-- The loop that reads `sz` bytes of payload into the elements from `it` on. -/
def wsPayload (server : Bool) (mask : List UInt8) :
    ℕ → ℕ → Option (IolElem n) → On n (Option (IolElem n))
  | 0, _, _ => Call.stop .endless
  | _ + 1, sz, none => if sz = 0 then pure none else Call.stop .fault
  | k + 1, sz, some it => do
    let toread := min sz it.iolLen
    wsChunk v server mask it.iolBase toread
    if sz - toread = 0 then pure (some it)
    else if it.iolNext = 0 then Call.fail .EMSGSIZE
    else do
      let it ← element it.iolNext
      wsPayload server mask k (sz - toread) (some it)

/-- The mask of a frame to a server. -/
def wsReadMask (server : Bool) : On n (List UInt8) :=
  if server then do
    brecv v v.mask 4
    bytesAt v.mask 4
  else pure []

/-- One frame, and whether it was the last one of its message. -/
def wsFrame (x : WsVars n) : On n (WsVars n × Bool) := do
  brecv v v.hdr1 2
  let hdr1 ← bytesAt v.hdr1 2
  let fin := hdr1.getD 0 0 &&& 0x80 != 0
  Call.require (hdr1.getD 0 0 &&& 0x70 == 0) .EPROTO
  let opcode := hdr1.getD 0 0 &&& 0x0f
  let x ← wsSwitch v opcode x
  let server ← Call.look fun s => s.wsSock.server
  Call.require (server == (hdr1.getD 1 0 &&& 0x80 != 0)) .EPROTO
  let sz ← wsSize v (hdr1.getD 1 0 &&& 0x7f)
  Call.require (!(8 ≤ opcode && (125 < sz || !fin))) .EPROTO
  let mask ← wsReadMask v server
  let it ← wsPayload v server mask (n + 2) sz.toNat x.it
  pure ({ x with it := it, res := x.res + sz }, fin)

/-- The loop over the frames. -/
def wsFrames : ℕ → WsVars n → On n (WsVars n)
  | 0, _ => Call.stop .endless
  | k + 1, x => do
    let (x, fin) ← wsFrame v x
    if fin then pure x else wsFrames k x

/-- What is done after a close frame. The fields it has been read into are at their addresses. -/
def wsClosed (res : UInt64) : On n ℤ :=
  if res = 1 then Call.fail .EPROTO
  else if 2 ≤ res then do
    let status ← bytesAt v.status 2
    let self ← Call.look Stack.wsSock
    let msg ← bytesAt v.msgbuf self.msg.length
    Call.change fun s =>
      { s with wsSock := { s.wsSock with msg := msg }.setStatus (Ws.gets status) }
    let self ← Call.look Stack.wsSock
    storeAt v.status self.status
    Call.require (1000 ≤ self.getStatus && self.getStatus ≤ 4999) .EPROTO
    Call.change fun s => { s with wsSock := { s.wsSock with msglen := res.toUInt8 - 2 } }
    Call.fail .EPIPE
  else do
    Call.change fun s => { s with wsSock := { s.wsSock with msglen := 0 } }
    Call.fail .EPIPE

/-- `dill_ws_recvl_base`: its result, and what it has stored in `flags`. -/
def wsRecvl (turns : ℕ) (first last : IolPtr n) : On n (ℤ × Option UInt32) := do
  let self ← Call.look Stack.wsSock
  Call.require (!self.indone) .EPIPE
  let _ ← checkIol first last
  let it ← if first = 0 then pure none else do
    let e ← element first
    pure (some e)
  let x ← wsFrames v turns ⟨it, none, 0⟩
  let self ← Call.look Stack.wsSock
  let sz ← if self.indone then wsClosed v x.res else pure x.res.toInt64.toInt
  pure (sz, x.flags)

/-- `dill_ws_mrecvl`. A type that no frame has set is not defined. -/
def wsMrecvl (turns : ℕ) (first last : IolPtr n) : On n ℤ := do
  let (sz, flags) ← wsRecvl v turns first last
  if sz < 0 then pure (-1)
  else
    match flags with
    | none => Call.stop .fault
    | some flags => do
      let self ← Call.look Stack.wsSock
      Call.require (Ws.isText flags == Ws.isText self.flags) .EPROTO
      pure sz

/-! ## TERM -/

/-- The message socket that is stacked on the connection. -/
inductive Msock
  | prefixSock
  | suffixSock
  | wsSock

/-- `msendl` of its `mvfs`. -/
def Msock.msendl (random : Except Errno (List UInt8)) : Msock → IolPtr n → IolPtr n → On n Unit
  | .prefixSock => prefixMsendl v
  | .suffixSock => suffixMsendl v
  | .wsSock => wsMsendl v random

/-- `mrecvl` of its `mvfs`. -/
def Msock.mrecvl (turns : ℕ) : Msock → IolPtr n → IolPtr n → On n ℤ
  | .prefixSock => prefixMrecvl v
  | .suffixSock => suffixMrecvl v turns
  | .wsSock => wsMrecvl v turns

/-- `dill_msendl`; `x` is what is in the `mvfs`. -/
def msendl (x : IolPtr n → IolPtr n → On n Unit) (first last : IolPtr n) : On n Unit := do
  Call.require (decide (first ≠ 0 ∧ last ≠ 0)) .EINVAL
  let e ← element last
  Call.require (decide (e.iolNext = 0)) .EINVAL
  x first last

/-- `dill_mrecvl`. -/
def mrecvl (x : IolPtr n → IolPtr n → On n ℤ) (first last : IolPtr n) : On n ℤ := do
  let next ← if last = 0 then pure 0 else do
    let e ← element last
    pure e.iolNext
  Call.require (decide (next = 0) && (decide (first = 0) == decide (last = 0))) .EINVAL
  x first last

/-- `dill_term_msendl`; `x` is what is in the `mvfs` of the socket below. -/
def termMsendl (x : IolPtr n → IolPtr n → On n Unit) (first last : IolPtr n) : On n Unit :=
  msendl x first last

/-- The terminator has arrived at the socket with `i` ones below it. -/
def arrived {α : Type} (i : ℕ) : On n α := do
  Call.change fun s => { s with
    termSocks := Function.update s.termSocks i { s.termSocks i with indone := true } }
  Call.fail .EPIPE

/-- `dill_ioltrim`. -/
def ioltrim (first : IolPtr n) (m : ℕ) (result : IolPtr n) : On n ℤ := fun s =>
  match Slices.ioltrim first m result s.iol with
  | .error h => .error h
  | .ok (rc, iol) => .ok (.ok rc, { s with iol := iol })

/-- `dill_iolto`. -/
def iolto (src : List UInt8) (first : IolPtr n) : On n ℤ := fun s =>
  match Slices.iolto src first s.iol s.mem with
  | .error h => .error h
  | .ok (rc, mem) => .ok (.ok rc, { s with mem := mem })

/-- `dill_term_mrecvl` of the socket with `i` ones below it. A size that is negative is returned like
an error. -/
def termMrecvl (t : TermLocals n) (i : ℕ) (x : IolPtr n → IolPtr n → On n ℤ)
    (first last : IolPtr n) : On n ℤ := do
  let self ← Call.look fun s => s.termSocks i
  if self.term.length = 0 then do
    let sz ← mrecvl x first last
    if sz < 0 then pure (-1)
    else if sz = 0 then arrived i
    else pure sz
  else do
    assign t.trimmed ⟨0, 0, 0, 0⟩
    let rc ← ioltrim first self.term.length t.trimmed
    assign t.term ⟨t.termbuf, self.term.length, if rc < 0 then 0 else t.trimmed, 0⟩
    let sz ← mrecvl x t.term (if rc < 0 then t.term else last)
    let buf ← bytesAt t.termbuf self.term.length
    if sz < 0 then pure (-1)
    else if sz = self.term.length ∧ self.term = buf then arrived i
    else do
      let _ ← iolto buf first
      pure sz

/-- `msendl` in the `mvfs` of the topmost socket. -/
def topMsendl (random : Except Errno (List UInt8)) (m : Msock) :
    List (TermLocals n) → IolPtr n → IolPtr n → On n Unit
  | [] => m.msendl v random
  | _ :: ts => termMsendl (topMsendl random m ts)

/-- `mrecvl` in the `mvfs` of the topmost socket. -/
def topMrecvl (turns : ℕ) (m : Msock) : List (TermLocals n) → IolPtr n → IolPtr n → On n ℤ
  | [] => m.mrecvl v turns
  | t :: ts => termMrecvl t ts.length (topMrecvl turns m ts)

/-! ## The calls of the user -/

/-- The functions that are called with an iolist: on a connection, or on the topmost of the sockets
that are stacked on it. -/
inductive Op
  | bsendl
  | brecvl
  | msendl (m : Msock)
  | mrecvl (m : Msock)

/-- A call whose value is not looked at. -/
def run {α : Type} (x : On n α) : On n Unit := do
  let _ ← x
  pure ()

/-- The call. -/
def Op.call (turns : ℕ) (random : Except Errno (List UInt8)) (op : Op) (first last : IolPtr n) :
    On n Unit :=
  match op with
  | .bsendl => Borrow.bsendl first last
  | .brecvl => Borrow.brecvl v first last
  | .msendl m => Borrow.msendl (topMsendl v random m v.terms) first last
  | .mrecvl m => run (Borrow.mrecvl (topMrecvl v turns m v.terms) first last)

end Libdill.Borrow
