import Libdill.Sock.Msock

/-!
# The TERM protocol

`term.c`: a terminator is sent as the last message in each direction. The functions are those of the
message socket and of the handshake, over any message socket.

The loop of `dill_term_detach` has no bound in the source; `drain` is given a number of turns after
which it has not returned.
-/

namespace Libdill.Term

open Foundations Libdill.Sock

/-- `dill_term_sock`. -/
structure TermSock where
  term : List UInt8
  indone : Bool
  outdone : Bool
  deriving DecidableEq

/-- `DILL_MAX_TERMINATOR_LENGTH`. -/
def maxTerminator : ℕ := 32

/-- `dill_term_attach_mem` and `dill_term_attach`, which passes the memory it has allocated. The
length is checked only if there is no memory to attach to. -/
def attach (mem : Bool) (buf : Elem) : Except Stop (Except Errno TermSock) :=
  if !mem && maxTerminator < buf.len then .ok (.error .EINVAL)
  else if 0 < buf.len ∧ ¬ buf.IsBuf then .ok (.error .EINVAL)
  else if !mem || maxTerminator < buf.len then .error .fault
  else .ok (.ok ⟨buf.bytes, false, false⟩)

/-! ## Iolists -/

/-- What is left of an element behind its first `n` bytes. -/
def dropElem (n : ℕ) : Elem → Elem
  | .null k => .null (k - n)
  | .buf mem => .buf (mem.drop n)

/-- `dill_ioltrim`: the iolist without its first `n` bytes; its first element is a new one. -/
def ioltrim : ℕ → List Elem → Option (List Elem)
  | _, [] => none
  | n, it :: next => if n ≤ it.len then some (dropElem n it :: next) else ioltrim (n - it.len) next

/-- An element, of which the part behind the first `n` bytes is given. -/
def joinElem (n : ℕ) (rest : Elem) : Elem → Elem
  | .null k => .null k
  | .buf mem => .buf (mem.take n ++ rest.bytes)

/-- The iolist, of which the part behind the first `n` bytes is given. -/
def iolpaste : ℕ → List Elem → List Elem → List Elem
  | _, [], _ => []
  | n, it :: next, rest =>
    if n ≤ it.len then joinElem n (rest.headD it) it :: rest.tail
    else it :: iolpaste (n - it.len) next rest

/-- `dill_iolto`: the bytes are copied to the front of the iolist, as far as it goes. -/
def iolto (src : List UInt8) (first : List Elem) : List Elem := fill src first

/-! ## Messages -/

variable {σ : Type} (u : Msock σ)

/-- `dill_term_msendl`. -/
def msendl (first : List (List UInt8)) : Call (TermSock × σ) Stop Errno Unit :=
  below (Sock.msendl u first)

/-- `dill_term_done`. -/
def done : Call (TermSock × σ) Stop Errno Unit := do
  let outdone ← Call.look fun s => s.1.outdone
  Call.require (outdone == false) .EPIPE
  let buf ← Call.look fun s => s.1.term
  below (u.msendl [buf])
  Call.change fun s => ({ s.1 with outdone := true }, s.2)

/-- The terminator has arrived. -/
def arrived {α : Type} : Call (TermSock × σ) Stop Errno α := do
  Call.change fun s => ({ s.1 with indone := true }, s.2)
  Call.fail .EPIPE

/-- The buffer for the terminator, with what happens to be in it. -/
def newBuf (junk : ℕ → UInt8) (len : ℕ) : Elem := .buf ((List.range len).map junk)

/-- `dill_term_mrecvl`. -/
def mrecvl (junk : ℕ → UInt8) (first : List Elem) (ends : Bool) :
    Call (TermSock × σ) Stop Errno (ℕ × List Elem) := do
  let term ← Call.look fun s => s.1.term
  if term.length = 0 then do
    let (sz, first) ← below (u.mrecvl first ends)
    if sz = 0 then arrived else pure (sz, first)
  else
    match ioltrim term.length first with
    | none => do
      let (sz, l) ← below (u.mrecvl [newBuf junk term.length] true)
      let buf := (l.headD (.null 0)).bytes
      if sz = term.length ∧ term = buf then arrived else pure (sz, iolto buf first)
    | some trimmed => do
      -- `last` is not in the list any more when it was the element that has been replaced.
      let (sz, l) ← below (u.mrecvl (newBuf junk term.length :: trimmed)
        (ends && !trimmed.tail.isEmpty))
      let buf := (l.headD (.null 0)).bytes
      if sz = term.length ∧ term = buf then arrived
      else pure (sz, iolto buf (iolpaste term.length first l.tail))

/-! ## The end -/

/-- `SIZE_MAX`. -/
def sizeMax : ℕ := 2 ^ 64 - 1

/-- A turn of the loop of `dill_term_detach`: whether it was the last one. -/
def drainTurn (junk : ℕ → UInt8) : Call (TermSock × σ) Stop Errno Bool := fun s =>
  match mrecvl u junk [.null sizeMax] true s with
  | .error r => .error r
  | .ok (.ok _, s) => .ok (.ok false, s)
  | .ok (.error e, s) => if e = .EPIPE then .ok (.ok true, s) else .ok (.error e, s)

/-- The loop, for at most `n` turns. -/
def drain (junk : ℕ → UInt8) : ℕ → Call (TermSock × σ) Stop Errno Unit
  | 0 => Call.stop .waits
  | n + 1 => do
    let last ← drainTurn u junk
    if last then pure () else drain junk n

/-- The terminator is sent if it has not been sent. -/
def finish : Call (TermSock × σ) Stop Errno Unit := do
  let outdone ← Call.look fun s => s.1.outdone
  if outdone then pure () else done u

/-- The part of `dill_term_detach` before its loop: whether the terminator of the peer is still to be
waited for. -/
def detachDone : Call (TermSock × σ) Stop Errno Bool := do
  finish u
  let indone ← Call.look fun s => s.1.indone
  pure (!indone)

/-- `dill_term_detach`. -/
def detach (junk : ℕ → UInt8) (n : ℕ) : Call (TermSock × σ) Stop Errno Unit := do
  let wait ← detachDone u
  if wait then drain u junk n else pure ()

end Libdill.Term
