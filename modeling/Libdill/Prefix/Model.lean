import Libdill.Sock.Bsock
import Libdill.Foundations.Radix

/-!
# The PREFIX protocol

`prefix.c`: a message is sent as a header of `hdrlen` bytes with its length, in one of the two
byte orders, followed by its bytes. The functions are those of the message socket, over any
bytestream.
-/

namespace Libdill.Prefix

open Libdill.Sock

/-- The parameters of a PREFIX socket; `dill_prefix_attach` refuses an empty header. -/
structure Params where
  hdrlen : ℕ
  bigendian : Bool
  hdrlen_pos : 0 < hdrlen

/-- The argument check of `dill_prefix_attach_mem`. -/
def Params.check (hdrlen : ℕ) (littleEndian : Bool) : Except Errno Params :=
  if h : hdrlen = 0 then .error .EINVAL
  else .ok ⟨hdrlen, !littleEndian, Nat.pos_of_ne_zero h⟩

/-- `dill_prefix_sock`, with the error flags of the two directions. -/
structure PrefixSock extends Params where
  inerr : Bool
  outerr : Bool

/-- The socket `dill_prefix_attach_mem` creates. -/
def Params.attach (p : Params) : PrefixSock := { p with inerr := false, outerr := false }

/-! ## The header -/

/-- The slot of `szbuf` written in turn `i` of the loop of `dill_prefix_msendl`. -/
def Params.txSlot (p : Params) (i : ℕ) : ℕ := if p.bigendian then p.hdrlen - i - 1 else i

/-- The slot of `szbuf` read in turn `i` of the loop of `dill_prefix_mrecvl`. -/
def Params.rxSlot (p : Params) (i : ℕ) : ℕ := if p.bigendian then i else p.hdrlen - i - 1

/-- One turn of the loop that fills the header. -/
def Params.putTurn (p : Params) (b : List UInt8 × UInt64) (i : ℕ) : List UInt8 × UInt64 :=
  (b.1.set (p.txSlot i) (b.2 &&& 0xff).toUInt8, b.2 >>> 8)

/-- The header for the size `sz`. -/
def Params.putHdr (p : Params) (sz : UInt64) : List UInt8 :=
  ((List.range p.hdrlen).foldl p.putTurn (List.replicate p.hdrlen 0, sz)).1

/-- One turn of the loop that reads the header. -/
def Params.getTurn (p : Params) (szbuf : List UInt8) (sz : UInt64) (i : ℕ) : UInt64 :=
  (sz <<< 8) ||| (szbuf.getD (p.rxSlot i) 0).toUInt64

/-- The size in the header `szbuf`. -/
def Params.getHdr (p : Params) (szbuf : List UInt8) : UInt64 :=
  (List.range p.hdrlen).foldl (p.getTurn szbuf) 0

/-! ## Sending and receiving -/

variable {σ : Type} (u : Bsock σ)

/-- The size of an iolist, added up in a `size_t`. -/
def iolSize (first : List (List UInt8)) : UInt64 :=
  first.foldl (fun sz it => sz + UInt64.ofNat it.length) 0

/-- `dill_prefix_msendl`. -/
def PrefixSock.msendl (self : PrefixSock) (s : σ) (first : List (List UInt8)) :
    Except Errno Unit × PrefixSock × σ :=
  if self.outerr then (.error .ECONNRESET, self, s)
  else
    match u.bsendl s (self.putHdr (iolSize first) :: first) with
    | (.error e, s) => (.error e, { self with outerr := true }, s)
    | (.ok (), s) => (.ok (), self, s)

/-- The loop of `dill_prefix_mrecvl` that trims the iolist to a message of `rmn` bytes; also
whether the trimmed list still ends in `last`. There is no result when the message is longer than
the list. -/
def trim (rmn : ℕ) : List ℕ → Option (List ℕ × Bool)
  | [] => none
  | len :: next =>
    if rmn ≤ len then some ([rmn], next.isEmpty)
    else (trim (rmn - len) next).map fun r => (len :: r.1, r.2)

/-- `dill_prefix_mrecvl` into an iolist with elements of the given lengths; the empty list is a
pair of null pointers, which skips the message. The size is returned as a `ssize_t`. -/
def PrefixSock.mrecvl (self : PrefixSock) (s : σ) (first : List ℕ) :
    Option (Except Errno (ℤ × List UInt8) × PrefixSock × σ) :=
  if self.inerr then some (.error .ECONNRESET, self, s)
  else
    let failed (e : Errno) (s : σ) : Except Errno (ℤ × List UInt8) × PrefixSock × σ :=
      (.error e, { self with inerr := true }, s)
    match u.brecvl s [self.hdrlen] true with
    | none => none
    | some (.error e, s) => some (failed e s)
    | some (.ok szbuf, s) =>
      let sz := self.getHdr szbuf
      if first.isEmpty then
        match u.brecvl s [sz.toNat] true with
        | none => none
        | some (.error e, s) => some (failed e s)
        | some (.ok _, s) => some (.ok (sz.toInt64.toInt, []), self, s)
      else
        match trim sz.toNat first with
        | none => some (failed .EMSGSIZE s)
        | some (lens, ends) =>
          match u.brecvl s lens ends with
          | none => none
          | some (.error e, s) => some (failed e s)
          | some (.ok data, s) => some (.ok (sz.toInt64.toInt, data), self, s)

end Libdill.Prefix
