import Libdill.Fd.Recv

/-!
# Sending to a file descriptor

`dill_fd_send` of `fd.c`, cut at its system calls and at the places where it blocks. What is left
to be sent is an array of buffers, represented by their contents.

* `accept_flatten`: what the kernel accepted is gone from the front of the array, and nothing else.
-/

namespace Libdill.Fd

open Libdill.Sock

/-- How a stretch of `dill_fd_send` ends: it returns, calls `sendmsg` or waits in `dill_fdout`. -/
inductive SendOutcome
  | done
  | failed (e : Errno)
  | syscall (iov : List (List UInt8))
  | wait (iov : List (List UInt8))
  deriving DecidableEq

/-- The start of a turn of the loop: empty buffers at the front of the array are passed over. -/
def sendTurn (iov : List (List UInt8)) : SendOutcome :=
  let iov := iov.dropWhile List.isEmpty
  if iov.isEmpty then .done else .syscall iov

/-- What the kernel answers to `sendmsg`. -/
inductive SendAns
  | accepted (n : ℕ)
  | again
  | fail (e : Errno)
  deriving DecidableEq

/-- The array without the `sz` bytes that were sent. -/
def accept : List (List UInt8) → ℕ → List (List UInt8)
  | [], _ => []
  | head :: iov, sz =>
    if sz = 0 then head :: iov
    else if head.length > sz then head.drop sz :: iov
    else accept iov (sz - head.length)

/-- One system call and what follows it, up to the wait; also the bytes the kernel accepted. -/
def sent (iov : List (List UInt8)) (a : SendAns) : List UInt8 × SendOutcome :=
  match a with
  | .accepted n =>
    let iov' := accept iov n
    (iov.flatten.take n, if iov'.isEmpty then .done else .wait iov')
  | .again => ([], .wait iov)
  | .fail e => ([], .failed (recvErrno e))

/-- An answer the kernel can give: `sendmsg` accepts at least one of the bytes it is given. -/
def SendAns.valid (iov : List (List UInt8)) : SendAns → Bool
  | .accepted n => decide (0 < n ∧ n ≤ iov.flatten.length)
  | _ => true

/-- What is left to be sent after a stretch. -/
def SendOutcome.left : SendOutcome → List UInt8
  | .syscall iov => iov.flatten
  | .wait iov => iov.flatten
  | _ => []

/-- The call has not failed. -/
def SendOutcome.Good : SendOutcome → Prop
  | .failed _ => False
  | _ => True

theorem dropWhile_isEmpty_flatten (iov : List (List UInt8)) :
    (iov.dropWhile List.isEmpty).flatten = iov.flatten := by
  induction iov with
  | nil => rfl
  | cons b iov ih =>
    rw [List.dropWhile_cons]
    split
    · rename_i hb
      rw [ih, List.flatten_cons, List.isEmpty_iff.mp hb, List.nil_append]
    · rfl

theorem accept_flatten (iov : List (List UInt8)) (n : ℕ) :
    (accept iov n).flatten = iov.flatten.drop n := by
  induction iov generalizing n with
  | nil => simp [accept]
  | cons b iov ih =>
    unfold accept
    rw [List.flatten_cons]
    split
    · rename_i hn
      rw [hn, List.drop_zero, List.flatten_cons]
    · split
      · rw [List.flatten_cons, List.drop_append_of_le_length (by omega)]
      · have hdrop : b.drop n = [] := List.drop_eq_nil_of_le (by omega)
        rw [ih, List.drop_append, hdrop, List.nil_append]

theorem sendTurn_left (iov : List (List UInt8)) : (sendTurn iov).left = iov.flatten := by
  have hflat := dropWhile_isEmpty_flatten iov
  unfold sendTurn
  simp only
  split
  · rename_i hnil
    rw [List.isEmpty_iff.mp hnil] at hflat
    exact hflat
  · exact hflat

/-- What is accepted and what is left make up what there was to send, unless the call fails. -/
theorem sent_left (iov : List (List UInt8)) (a : SendAns) :
    (sent iov a).2.Good → iov.flatten = (sent iov a).1 ++ (sent iov a).2.left := by
  intro hgood
  cases a with
  | accepted n =>
    have hrest := accept_flatten iov n
    show iov.flatten = iov.flatten.take n ++ (if _ then _ else _ : SendOutcome).left
    split
    · rename_i hnil
      rw [List.isEmpty_iff.mp hnil] at hrest
      show _ = _ ++ []
      rw [show ([] : List UInt8) = iov.flatten.drop n from hrest, List.take_append_drop]
    · show _ = _ ++ (accept iov n).flatten
      rw [hrest, List.take_append_drop]
  | again => rfl
  | fail e => exact hgood.elim

end Libdill.Fd
