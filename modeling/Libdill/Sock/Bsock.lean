import Mathlib.Algebra.Order.Ring.Nat
import Mathlib.Data.Nat.Notation

/-!
# Bytestream sockets

What a protocol layer sees of the bytestream socket under it: the two functions of
`dill_bsock_vfs`, called through `bsock.c`. A bytestream is a state type `σ` with a sending and a
receiving function, so that a layer can be run over a lossless wire, over a transport that fails
or over another layer.

An iolist that is sent is the list of the contents of its elements; an iolist that is received
into is the list of the lengths of its elements, and what a receive returns is the bytes that it
stored, in list order.
-/

namespace Libdill.Sock

/-- The values of `errno` the socket layers set or read; `other` is any further error of the
kernel. -/
inductive Errno
  | EINVAL
  | ENOMEM
  | EBADF
  | ENOTSUP
  | EPROTO
  | EMSGSIZE
  | EBUSY
  | EPIPE
  | ECONNRESET
  | ETIMEDOUT
  | ECANCELED
  | EAGAIN
  | other (n : ℕ)
  deriving DecidableEq, Repr

/-- A bytestream socket with state `σ`. -/
structure Bsock (σ : Type) where
  /-- `dill_bsendl` of an iolist. -/
  bsendl : σ → List (List UInt8) → Except Errno Unit × σ
  /-- `dill_brecvl` into an iolist; the flag says whether the list from `first` on ends in `last`.
  A call that has to wait for more bytes than will ever come has no result. -/
  brecvl : σ → List ℕ → Bool → Option (Except Errno (List UInt8) × σ)

/-- The lossless bytestream; its state is the bytes sent and not yet received. -/
def lossless : Bsock (List UInt8) where
  bsendl s iol := (.ok (), s ++ iol.flatten)
  brecvl s lens ends :=
    if ends = false then some (.error .EINVAL, s)
    else if lens.sum ≤ s.length then some (.ok (s.take lens.sum), s.drop lens.sum)
    else none

/-- A lossless bytestream in both directions; its state is what comes in and what has gone out. -/
def duplex : Bsock (List UInt8 × List UInt8) where
  bsendl s iol := (.ok (), s.1, s.2 ++ iol.flatten)
  brecvl s lens ends := (lossless.brecvl s.1 lens ends).map fun r => (r.1, r.2, s.2)

/-- How a send on the underlying socket ends: everything was sent, or the call failed after some
bytes had been sent. -/
inductive SendAnswer
  | sent
  | failed (e : Errno) (n : ℕ)
  deriving DecidableEq, Repr

/-- The bytestream on which a send ends as the answer says. -/
def answering (a : SendAnswer) : Bsock (List UInt8) where
  bsendl s iol :=
    match a with
    | .sent => (.ok (), s ++ iol.flatten)
    | .failed e n => (.error e, s ++ iol.flatten.take n)
  brecvl := lossless.brecvl

theorem lossless_brecvl {s s' : List UInt8} {lens : List ℕ} (h : lens.sum = s.length) :
    lossless.brecvl (s ++ s') lens true = some (.ok s, s') := by
  have hle : lens.sum ≤ (s ++ s').length := by
    rw [List.length_append]
    omega
  simp only [lossless, Bool.true_eq_false, if_false, if_pos hle]
  rw [List.take_left' h.symm, List.drop_left' h.symm]

end Libdill.Sock
