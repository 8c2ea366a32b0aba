import Libdill.Sock.Msock

/-!
# The SUFFIX protocol

`suffix.c`: a message is sent followed by a delimiter of up to 32 bytes. The receiver reads the
bytestream byte by byte through a window of the delimiter's size, until the window contains the
delimiter. The functions are those of the message socket, over any bytestream.

The loop of the receiver has no bound in the source; `scan` is given a number of turns after which it
has not returned.
-/

namespace Libdill.Suffix

open Foundations Libdill.Sock

/-- A delimiter that `dill_suffix_attach` accepts. -/
structure Delim where
  bytes : List UInt8
  length_pos : 0 < bytes.length
  length_le : bytes.length ≤ 32

/-- The argument check of `dill_suffix_attach_mem`; no bytes stand for a null pointer. -/
def Delim.check (suffix : Option (List UInt8)) : Except Errno Delim :=
  match suffix with
  | none => .error .EINVAL
  | some suffix =>
    if h : suffix.length = 0 ∨ suffix.length > 32 then .error .EINVAL
    else .ok ⟨suffix, by omega, by omega⟩

/-- The end of a line. -/
def crlf : Delim := ⟨[13, 10], by decide, by decide⟩

/-- `dill_suffix_sock`, with the error flags of the two directions. -/
structure SuffixSock where
  suffix : Delim
  inerr : Bool
  outerr : Bool

/-- The socket `dill_suffix_attach_mem` creates. -/
def Delim.attach (t : Delim) : SuffixSock := ⟨t, false, false⟩

/-- The check of `dill_suffix_detach`. -/
def SuffixSock.detach (self : SuffixSock) : Except Errno Unit :=
  if self.inerr || self.outerr then .error .ECONNRESET else .ok ()

variable {σ : Type} (u : Bsock σ)

/-! ## Sending -/

/-- `dill_suffix_msendl`; the delimiter is appended to the iolist. -/
def msendl (first : List (List UInt8)) : Call (SuffixSock × σ) Stop Errno Unit := fun (self, s) =>
  if self.outerr then .ok (.error .ECONNRESET, self, s)
  else if first.isEmpty then .error .fault
  else
    match bsendl u (first ++ [self.suffix.bytes]) s with
    | .error r => .error r
    | .ok (.error e, s) => .ok (.error e, { self with outerr := true }, s)
    | .ok (.ok (), s) => .ok (.ok (), self, s)

/-! ## Receiving -/

/-- The receiver fails, and is of no use any more. -/
def failed {α : Type} (e : Errno) : Call (SuffixSock × σ) Stop Errno α := fun (self, s) =>
  .ok (.error e, { self with inerr := true }, s)

/-- `brecvl` of the underlying socket, for `len` bytes. -/
def recv (len : ℕ) : Call (SuffixSock × σ) Stop Errno (List UInt8) := fun (self, s) =>
  match brecv u len s with
  | .error r => .error r
  | .ok (.error e, s) => .ok (.error e, { self with inerr := true }, s)
  | .ok (.ok bs, s) => .ok (.ok bs, self, s)

/-- The element `it` of the receiving loop: what has been stored in it, and what is left of it. -/
structure Cursor where
  written : List UInt8
  it : Elem

/-- A character is moved to the element. Where there is no room for it, it is dropped. -/
def Cursor.put (b : UInt8) (c : Cursor) : Cursor :=
  match c.it with
  | .buf (_ :: mem) => ⟨c.written ++ [b], .buf mem⟩
  | _ => c

/-- The whole element. -/
def Cursor.elem (c : Cursor) : Elem :=
  match c.it with
  | .buf mem => .buf (c.written ++ mem)
  | .null n => .null n

/-- The loop that ignores empty items: whether it comes to an end before the iolist does. Its
condition is about `first`, which it does not change. -/
def ignoreEmpty (first : Elem) : List Elem → Bool
  | [] => first.len != 0
  | _ :: next => first.len != 0 || ignoreEmpty first next

/-- The loop of `dill_suffix_mrecvl`, for at most `n` turns. Only the first element is ever stored
to: `it` moves on only in `ignoreEmpty`, which does nothing when the first element has room and
fails when it has none. -/
def scan (first : Elem) (next : List Elem) :
    ℕ → List UInt8 → Cursor → ℕ → Call (SuffixSock × σ) Stop Errno (ℕ × Cursor)
  | 0, _, _, _ => Call.stop .waits
  | n + 1, buf, it, sz => do
    let suffix ← Call.look fun s => s.1.suffix.bytes
    if buf = suffix then pure (sz, it)
    else if ignoreEmpty first next then do
      let it := it.put (buf.headD 0)
      let c ← recv u 1
      scan first next n (buf.tail ++ c) it (sz + 1)
    else failed .EMSGSIZE

/-- `dill_suffix_mrecvl`: the size of the message, and the iolist. -/
def mrecvl (n : ℕ) (first : List Elem) : Call (SuffixSock × σ) Stop Errno (ℕ × List Elem) := do
  let inerr ← Call.look fun s => s.1.inerr
  Call.require (inerr == false) .ECONNRESET
  let suffixlen ← Call.look fun s => s.1.suffix.bytes.length
  let buf ← recv u suffixlen
  match first with
  | [] => Call.stop .fault
  | it :: next => do
    let (sz, it) ← scan u it next n buf ⟨[], it⟩ 0
    pure (sz, it.elem :: next)

/-- The message socket. The receiver does not look at `last`. -/
def msock (n : ℕ) : Msock (SuffixSock × σ) where
  msendl := msendl u
  mrecvl first _ := mrecvl u n first

end Libdill.Suffix
