import Libdill.Sock.Iolist

/-!
# Message sockets

What a protocol layer sees of the message socket under it: the two functions of `dill_msock_vfs`,
called through `msock.c`.
-/

namespace Libdill.Sock

open Foundations

variable {σ τ : Type}

/-- A message socket with state `σ`. -/
structure Msock (σ : Type) where
  /-- `msendl` of an iolist. -/
  msendl : List (List UInt8) → Call σ Stop Errno Unit
  /-- `mrecvl` into an iolist: the size of the message and the iolist afterwards; the flag says
  whether the list from `first` on ends in `last`. -/
  mrecvl : List Elem → Bool → Call σ Stop Errno (ℕ × List Elem)

/-- `dill_msendl`; there are no iolists without elements. -/
def msendl (u : Msock σ) (first : List (List UInt8)) : Call σ Stop Errno Unit :=
  if first.isEmpty then Call.fail .EINVAL else u.msendl first

/-- A call of a function of the socket below. -/
def below {α : Type} (x : Call σ Stop Errno α) : Call (τ × σ) Stop Errno α := fun (self, s) =>
  match x s with
  | .error r => .error r
  | .ok (o, s) => .ok (o, self, s)

variable {α : Type} {x : Call σ Stop Errno α} {s s' : σ} {self : τ}

theorem below_run {o : Except Errno α} (h : x s = .ok (o, s')) :
    below x (self, s) = .ok (o, self, s') := by
  unfold below
  simp only [h]

theorem below_stop {r : Stop} (h : x s = .error r) : below x (self, s) = .error r := by
  unfold below
  simp only [h]

theorem below_eq_ok {o : Except Errno α} {p : τ × σ} (h : below x (self, s) = .ok (o, p)) :
    ∃ s', x s = .ok (o, s') ∧ p = (self, s') := by
  unfold below at h
  simp only at h
  split at h
  · cases h
  · rename_i hx
    cases h
    exact ⟨_, hx, rfl⟩

end Libdill.Sock
