import Libdill.Sock.Bsock
import Mathlib.Algebra.Order.Ring.Nat
import Mathlib.Data.List.Basic

/-!
# Receiving from a file descriptor

`dill_fd_recv` of `fd.c` with its two strategies: large requests, and all requests on sockets
without a receive buffer, go straight into the user's buffers, small ones through the receive
buffer. The function is cut at its system calls and at the places where it blocks: a `Job` is what
is left to be done, and the kernel's answer to the next system call leads to the next job.

An iolist is the list of the lengths of its elements. What has been stored in the user's buffers is
the list of the bytes in the order of the elements.

* `fill_spec`: the bytes taken from the receive buffer are a prefix of what it held.
* `turn_spec`: whatever the kernel answers, what is received is stored or kept in the buffer, in
  order.
-/

namespace Libdill.Fd

open Libdill.Sock

/-- `DILL_FD_BUFSIZE`. -/
def bufsize : ℕ := 1984

/-- `dill_fd_rxbuf`. -/
structure RxBuf where
  len : ℕ
  pos : ℕ
  buf : Option (List UInt8)
  deriving DecidableEq

/-- `dill_fd_initrxbuf`. -/
def RxBuf.init : RxBuf := ⟨0, 0, none⟩

/-- The bytes of the buffer that nobody has received yet. -/
def RxBuf.unread (rx : RxBuf) : List UInt8 := ((rx.buf.getD []).take rx.len).drop rx.pos

/-- The bytes received into the buffer are the first `len` of it. -/
def RxBuf.Filled (rx : RxBuf) : Prop := rx.len ≤ (rx.buf.getD []).length

/-- `dill_fd_copy`: the bytes copied to one element of `iol_len` bytes. -/
def RxBuf.copy (rx : RxBuf) (iolLen : ℕ) : List UInt8 × RxBuf :=
  let rmn := rx.len - rx.pos
  if rmn = 0 then ([], rx)
  else if rmn < iolLen then (((rx.buf.getD []).drop rx.pos).take rmn, ⟨0, 0, none⟩)
  else (((rx.buf.getD []).drop rx.pos).take iolLen, { rx with pos := rx.pos + iolLen })

/-- The loop that copies from the buffer to the elements of an iolist; also what is left of the
list. The loop ends at the first element that could not be filled. -/
def RxBuf.fill (rx : RxBuf) : List ℕ → List UInt8 × RxBuf × List ℕ
  | [] => ([], rx, [])
  | n :: next =>
    let r := rx.copy n
    if r.1.length < n then (r.1, r.2, (n - r.1.length) :: next)
    else
      let r' := RxBuf.fill r.2 next
      (r.1 ++ r'.1, r'.2)

/-- What `dill_fd_recv` is left to do: it is in `dill_fd_recv_` with the array `iov`, with the
elements `rest` to follow, or it is filling the iolist `rem` through the buffer. -/
inductive Job
  | direct (iov rest : List ℕ)
  | buffered (rem : List ℕ)
  deriving DecidableEq

/-- How a stretch of `dill_fd_recv` ends: it returns, does a system call or waits in `dill_fdin`. -/
inductive Outcome
  | done
  | failed (e : Errno)
  | syscall (j : Job)
  | wait (j : Job)
  deriving DecidableEq

/-- The loop over the elements in `dill_fd_recv`: empty elements are passed over, and the elements
up to the next empty one are received by one call of `dill_fd_recv_`. -/
def segment (rest : List ℕ) : Outcome :=
  let l := rest.dropWhile (· == 0)
  if l.isEmpty then .done
  else .syscall (.direct (l.takeWhile (· != 0)) (l.dropWhile (· != 0)))

/-- The beginning of `dill_fd_recv`, up to the first system call: what the buffer still holds is
used up first. -/
def start (rx : Option RxBuf) (first : List ℕ) : List UInt8 × Option RxBuf × Outcome :=
  match rx with
  | none => ([], none, segment first)
  | some rx =>
    let r := rx.fill first
    if r.2.2.isEmpty then (r.1, some r.2.1, .done)
    else if r.2.2.sum > bufsize then (r.1, some r.2.1, segment r.2.2)
    else (r.1, some r.2.1, .syscall (.buffered r.2.2))

/-- What the kernel answers to `recv` and `recvmsg`; `noBuf` is the failure to allocate a receive
buffer before the call. -/
inductive RecvAns
  | data (bs : List UInt8)
  | eof
  | again
  | fail (e : Errno)
  | noBuf
  deriving DecidableEq

/-- The array without the bytes that were received. -/
def consume : List ℕ → ℕ → List ℕ
  | [], _ => []
  | n :: iov, sz =>
    if sz = 0 then n :: iov
    else if n > sz then (n - sz) :: iov
    else consume iov (sz - n)

/-- The errors of `recv`: `EPIPE` is kept for the end of the stream. -/
def recvErrno (e : Errno) : Errno := if e = .EPIPE then .ECONNRESET else e

/-- One system call and what follows it. -/
def turn (rx : Option RxBuf) (j : Job) (a : RecvAns) : List UInt8 × Option RxBuf × Outcome :=
  match j with
  | .direct iov rest =>
    match a with
    | .data bs =>
      let iov' := consume iov bs.length
      (bs, rx, if iov'.isEmpty then segment rest else .wait (.direct iov' rest))
    | .eof => ([], rx, .failed .EPIPE)
    | .fail e => ([], rx, .failed (recvErrno e))
    | .again => ([], rx, .wait j)
    | .noBuf => ([], rx, .failed .ENOMEM)
  | .buffered rem =>
    let got (bs : List UInt8) : List UInt8 × Option RxBuf × Outcome :=
      let r := (RxBuf.mk bs.length 0 (some bs)).fill rem
      (r.1, some r.2.1, if r.2.2.isEmpty then .done else .wait (.buffered r.2.2))
    match a with
    | .data bs => got bs
    | .eof => ([], rx, .failed .EPIPE)
    | .fail e => ([], rx, .failed (recvErrno e))
    | .again => got []
    | .noBuf => ([], rx, .failed .ENOMEM)

/-- An answer the kernel can give: no more bytes than there is room for, and at least one. -/
def RecvAns.valid (j : Job) : RecvAns → Bool
  | .data bs =>
    match j with
    | .direct iov _ => decide (0 < bs.length ∧ bs.length ≤ iov.sum)
    | .buffered _ => decide (0 < bs.length ∧ bs.length ≤ bufsize)
  | .noBuf =>
    match j with
    | .direct _ _ => false
    | .buffered _ => true
  | _ => true

/-- The bytes an answer delivers. -/
def RecvAns.bytes : RecvAns → List UInt8
  | .data bs => bs
  | _ => []

/-! ## Bytes keep their order -/

variable {rx : RxBuf}

theorem RxBuf.unread_length (h : rx.Filled) : rx.unread.length = rx.len - rx.pos := by
  unfold RxBuf.Filled at h
  unfold RxBuf.unread
  rw [List.length_drop, List.length_take, Nat.min_eq_left h]

theorem RxBuf.copy_spec (h : rx.Filled) (n : ℕ) :
    (rx.copy n).1 = rx.unread.take n ∧ (rx.copy n).2.unread = rx.unread.drop n ∧
      (rx.copy n).2.Filled := by
  have hlen := rx.unread_length h
  unfold RxBuf.copy
  simp only
  split
  · rename_i hrmn
    have hnil : rx.unread = [] := List.length_eq_zero_iff.mp (by omega)
    rw [hnil, List.take_nil, List.drop_nil]
    exact ⟨rfl, rfl, h⟩
  · have htake : ∀ k, k ≤ rx.len - rx.pos →
        ((rx.buf.getD []).drop rx.pos).take k = rx.unread.take k := by
      intro k hk
      unfold RxBuf.unread
      rw [List.drop_take, List.take_take, Nat.min_eq_left hk]
    split
    · rename_i hrmn
      refine ⟨?_, ?_, Nat.zero_le _⟩
      · show ((rx.buf.getD []).drop rx.pos).take _ = _
        rw [htake _ (le_refl _), List.take_of_length_le (by omega),
          List.take_of_length_le (by omega)]
      · have hnil : rx.unread.drop n = [] := List.drop_eq_nil_of_le (by omega)
        rw [hnil]
        rfl
    · rename_i hrmn
      refine ⟨htake n (by omega), ?_, h⟩
      show ((rx.buf.getD []).take rx.len).drop (rx.pos + n) = _
      unfold RxBuf.unread
      rw [List.drop_drop]

/-- The elements are filled from the front of the buffer, and the buffer is empty when some element
could not be filled. -/
theorem RxBuf.fill_spec (h : rx.Filled) (l : List ℕ) :
    rx.unread = (rx.fill l).1 ++ (rx.fill l).2.1.unread ∧
      (rx.fill l).2.1.Filled ∧
      ((rx.fill l).2.2 ≠ [] → (rx.fill l).2.1.unread = []) := by
  induction l generalizing rx with
  | nil => exact ⟨rfl, h, fun hn => absurd rfl hn⟩
  | cons n next ih =>
    obtain ⟨hget, hrest, hfilled⟩ := rx.copy_spec h n
    have hsplit : rx.unread = (rx.copy n).1 ++ (rx.copy n).2.unread := by
      rw [hget, hrest, List.take_append_drop]
    unfold RxBuf.fill
    simp only
    split
    · rename_i hlt
      refine ⟨hsplit, hfilled, fun _ => ?_⟩
      show (rx.copy n).2.unread = []
      rw [hget, List.length_take] at hlt
      rw [hrest, List.drop_eq_nil_of_le (by omega)]
    · obtain ⟨hih, hfilled', hempty⟩ := ih hfilled
      refine ⟨?_, hfilled', hempty⟩
      show rx.unread = (rx.copy n).1 ++ _ ++ _
      rw [List.append_assoc, ← hih, ← hsplit]

/-- What is in the receive buffer of a socket, if it has one. -/
def unread : Option RxBuf → List UInt8
  | none => []
  | some rx => rx.unread

/-- The buffer of a socket is well formed. -/
def Filled : Option RxBuf → Prop
  | none => True
  | some rx => rx.Filled

/-- A job that is not finished has nothing left in the buffer. -/
def Outcome.Drained (o : Outcome) (rx : Option RxBuf) : Prop :=
  match o with
  | .syscall _ | .wait _ => unread rx = []
  | _ => True

/-- A stretch of a receive moves bytes, those in the buffer first and then those delivered by the
kernel, to the user, and leaves the others in the buffer. It only goes on when the buffer is
empty. -/
structure Moves (rx : Option RxBuf) (bs : List UInt8)
    (r : List UInt8 × Option RxBuf × Outcome) : Prop where
  bytes : unread rx ++ bs = r.1 ++ unread r.2.1
  filled : Filled r.2.1
  drained : r.2.2.Drained r.2.1

theorem segment_drained {rx : Option RxBuf} (h : unread rx = []) (rest : List ℕ) :
    (segment rest).Drained rx := by
  unfold segment
  simp only
  split
  · trivial
  · exact h

theorem start_spec {rx : Option RxBuf} (h : Filled rx) (first : List ℕ) :
    Moves rx [] (start rx first) := by
  cases rx with
  | none => exact ⟨rfl, trivial, segment_drained rfl first⟩
  | some rx =>
    obtain ⟨hsplit, hfilled, hempty⟩ := RxBuf.fill_spec h first
    have hbytes : unread (some rx) ++ [] = (rx.fill first).1 ++ (rx.fill first).2.1.unread := by
      rw [List.append_nil]
      exact hsplit
    unfold start
    simp only
    split
    · exact ⟨hbytes, hfilled, trivial⟩
    · rename_i hne
      have hdry : unread (some (rx.fill first).2.1) = [] := hempty (by simpa using hne)
      split
      · exact ⟨hbytes, hfilled, segment_drained hdry _⟩
      · exact ⟨hbytes, hfilled, hdry⟩

/-- One system call, from a buffer that has been used up. -/
theorem turn_spec {rx : Option RxBuf} (h : Filled rx) (hdry : unread rx = []) {j : Job}
    {a : RecvAns} : Moves rx a.bytes (turn rx j a) := by
  have hnone : ∀ o : Outcome, o.Drained rx → Moves rx [] ([], rx, o) := fun o ho =>
    ⟨by rw [hdry], h, ho⟩
  cases j with
  | direct iov rest =>
    cases a with
    | data bs =>
      refine ⟨?_, h, ?_⟩
      · show unread rx ++ bs = bs ++ unread rx
        rw [hdry, List.nil_append, List.append_nil]
      · show (if _ then _ else _ : Outcome).Drained rx
        split
        · exact segment_drained hdry rest
        · exact hdry
    | eof => exact hnone _ trivial
    | again => exact hnone _ hdry
    | fail e => exact hnone _ trivial
    | noBuf => exact hnone _ trivial
  | buffered rem =>
    have hgot : ∀ bs : List UInt8, Moves rx bs
        (((RxBuf.mk bs.length 0 (some bs)).fill rem).1,
          some ((RxBuf.mk bs.length 0 (some bs)).fill rem).2.1,
          if ((RxBuf.mk bs.length 0 (some bs)).fill rem).2.2.isEmpty then .done
          else .wait (.buffered ((RxBuf.mk bs.length 0 (some bs)).fill rem).2.2)) := by
      intro bs
      have hfull : (RxBuf.mk bs.length 0 (some bs)).Filled := le_refl _
      have hall : (RxBuf.mk bs.length 0 (some bs)).unread = bs := by
        show (bs.take bs.length).drop 0 = bs
        rw [List.take_length, List.drop_zero]
      obtain ⟨hsplit, hfilled, hempty⟩ := RxBuf.fill_spec hfull rem
      rw [hall] at hsplit
      refine ⟨?_, hfilled, ?_⟩
      · rw [hdry, List.nil_append]
        exact hsplit
      · show (if _ then _ else _ : Outcome).Drained _
        split
        · trivial
        · rename_i hne
          exact hempty (by simpa using hne)
    cases a with
    | data bs => exact hgot bs
    | eof => exact hnone _ trivial
    | again => exact hgot []
    | fail e => exact hnone _ trivial
    | noBuf => exact hnone _ trivial

end Libdill.Fd
