import Libdill.Foundations.Answers
import Libdill.Tcp.Conn

/-!
# What a connection receives

The receiving direction of a connection over a whole run: the invariant relates the bytes the
kernel has delivered to those the calls have returned.

* `RxInv`: nothing is lost between the kernel, the calls and the receive buffer.
* `Dead`: a receive that has failed leaves a direction on which nothing is received any more.
-/

namespace Libdill.Tcp

open Foundations Libdill.Sock Libdill.Fd

/-- The bytes the kernel has delivered. -/
def delivered (evs : List RxEv) : List UInt8 :=
  evs.flatMap fun
    | .kernel a => a.bytes
    | _ => []

/-- The bytes that successful calls have returned. -/
def okRecv (outs : List RxOut) : List UInt8 :=
  outs.flatMap fun
    | some (.ok bs) => bs
    | _ => []

@[simp] theorem delivered_append (evs evs' : List RxEv) :
    delivered (evs ++ evs') = delivered evs ++ delivered evs' := List.flatMap_append

@[simp] theorem okRecv_append (outs outs' : List RxOut) :
    okRecv (outs ++ outs') = okRecv outs ++ okRecv outs' := List.flatMap_append

/-- What an event does to the receiving direction. -/
inductive RxStep (s : RxSide) : RxEv → RxSide → RxOut → Prop
  | busy {first : List ℕ} : s.rbusy = true → RxStep s (.call first) s (some (.error .EBUSY))
  | indone {first : List ℕ} : s.rbusy = false → s.indone = true →
      RxStep s (.call first) s (some (.error .EPIPE))
  | inerr {first : List ℕ} : s.rbusy = false → s.indone = false → s.inerr = true →
      RxStep s (.call first) s (some (.error .ECONNRESET))
  | start {first : List ℕ} {s' : RxSide} {o : RxOut} :
      s.rbusy = false → s.indone = false → s.inerr = false →
      ({ s with rbusy := true } : RxSide).settle (start s.rxbuf first) = (s', o) →
      RxStep s (.call first) s' o
  | kernel {j : Job} {b : RecvAns} {s' : RxSide} {o : RxOut} : s.rjob = some (j, false) →
      s.settle (turn s.rxbuf j b) = (s', o) → RxStep s (.kernel b) s' o
  | woken {j : Job} : s.rjob = some (j, true) →
      RxStep s (.fdin (.ok ())) { s with rjob := some (j, false) } none
  | refused {j : Job} {e : Errno} {s' : RxSide} {o : RxOut} : s.rjob = some (j, true) →
      s.failed e = (s', o) → RxStep s (.fdin (.error e)) s' o

theorem rxStep {s s' : RxSide} {a : RxEv} {o : RxOut} (hs : s.step a = some (s', o)) :
    RxStep s a s' o := by
  cases a with
  | call first =>
    unfold RxSide.step at hs
    simp only at hs
    split at hs
    · cases hs
    · split at hs
      · rename_i hb
        cases hs
        exact .busy hb
      · rename_i hb
        have hb' := Bool.eq_false_iff.mpr hb
        split at hs
        · rename_i hin
          cases hs
          exact .indone hb' hin
        · rename_i hin
          have hin' := Bool.eq_false_iff.mpr hin
          split at hs
          · rename_i hie
            cases hs
            exact .inerr hb' hin' hie
          · rename_i hie
            exact .start hb' hin' (Bool.eq_false_iff.mpr hie) (Option.some.inj hs)
  | kernel b =>
    unfold RxSide.step at hs
    simp only at hs
    split at hs
    · rename_i j hj
      split at hs
      · exact .kernel hj (Option.some.inj hs)
      · cases hs
    · cases hs
  | fdin r =>
    unfold RxSide.step at hs
    simp only at hs
    split at hs
    · rename_i j hj
      split at hs
      · cases hs
        exact .woken hj
      · exact .refused hj (Option.some.inj hs)
    · cases hs

/-- The state of the receiving direction and its history. -/
structure RxInv (s : RxSide) (evs : List RxEv) (outs : List RxOut) : Prop where
  filled : Filled s.rxbuf
  busy : s.rbusy = s.rjob.isSome
  running : s.rjob ≠ none → s.indone = false ∧ s.inerr = false ∧ unread s.rxbuf = []
  idle : s.rjob = none → s.rgot = []
  bytes : s.indone = false → s.inerr = false →
    delivered evs = okRecv outs ++ s.rgot ++ unread s.rxbuf
  received : okRecv outs <+: delivered evs

theorem rxInv_init {rx : Option RxBuf} (hf : Filled rx) (hu : unread rx = []) :
    RxInv (.init rx) [] [] where
  filled := hf
  busy := rfl
  running h := absurd rfl h
  idle _ := rfl
  bytes _ _ := by
    show [] = [] ++ [] ++ unread rx
    rw [hu]
    rfl
  received := List.prefix_refl _

variable {s s' : RxSide} {evs : List RxEv} {outs : List RxOut} {a : RxEv} {e : Errno}

/-- A receive fails. -/
theorem rxInv_failed (hf : Filled s.rxbuf) (hp : okRecv outs <+: delivered evs) :
    RxInv (s.failed e).1 evs (outs ++ [(s.failed e).2]) := by
  have hout : (s.failed e).2 = some (.error e) := by
    unfold RxSide.failed
    split <;> rfl
  have hrecv : okRecv (outs ++ [some (.error e)]) = okRecv outs := by
    rw [okRecv_append]
    exact List.append_nil _
  have hflag : (s.failed e).1.indone = true ∨ (s.failed e).1.inerr = true := by
    unfold RxSide.failed
    split
    · exact .inl rfl
    · exact .inr rfl
  rw [hout]
  refine
    { filled := ?_, busy := ?_, running := ?_, idle := ?_, bytes := ?_
      received := hrecv ▸ hp }
  · unfold RxSide.failed
    split <;> exact hf
  · unfold RxSide.failed
    split <;> rfl
  · intro hj
    unfold RxSide.failed at hj
    split at hj <;> exact absurd rfl hj
  · intro _
    unfold RxSide.failed
    split <;> rfl
  · intro h1 h2
    rcases hflag with hf | hf
    · rw [h1] at hf
      cases hf
    · rw [h2] at hf
      cases hf

/-- A stretch of a receive keeps the invariant: the bytes `bs` it got from the kernel are returned,
stored or kept in the buffer. -/
theorem rxInv_settle {r : List UInt8 × Option RxBuf × Outcome} {bs : List UInt8}
    (hbusy : s.rbusy = true) (hin : s.indone = false) (hie : s.inerr = false)
    (hbytes : delivered evs = okRecv outs ++ s.rgot ++ unread s.rxbuf)
    (hm : Moves s.rxbuf bs r) (ha : delivered [a] = bs) :
    RxInv (s.settle r).1 (evs ++ [a]) (outs ++ [(s.settle r).2]) := by
  obtain ⟨got, rx, o⟩ := r
  have hall : delivered (evs ++ [a]) = okRecv outs ++ (s.rgot ++ got) ++ unread rx := by
    have hmoves : unread s.rxbuf ++ bs = got ++ unread rx := hm.bytes
    rw [delivered_append, ha, hbytes, List.append_assoc, hmoves]
    simp only [List.append_assoc]
  have hpre : okRecv outs <+: delivered (evs ++ [a]) := by
    rw [hall, List.append_assoc]
    exact List.prefix_append _ _
  have hnone : okRecv (outs ++ [none]) = okRecv outs := by
    rw [okRecv_append]
    exact List.append_nil _
  cases o with
  | done =>
    have hok : okRecv (outs ++ [some (.ok (s.rgot ++ got))]) = okRecv outs ++ (s.rgot ++ got) := by
      rw [okRecv_append]
      exact congrArg _ (List.append_nil _)
    refine
      { filled := hm.filled, busy := rfl, running := fun h => absurd rfl h, idle := fun _ => rfl
        bytes := fun _ _ => ?_, received := ?_ }
    · show delivered _ = okRecv (outs ++ [some (.ok (s.rgot ++ got))]) ++ [] ++ unread rx
      rw [hok, List.append_nil, hall]
    · show okRecv (outs ++ [some (.ok (s.rgot ++ got))]) <+: _
      rw [hok, hall]
      exact List.prefix_append _ _
  | failed e =>
    exact rxInv_failed (s := { s with rxbuf := rx, rgot := s.rgot ++ got }) hm.filled hpre
  | syscall j =>
    refine
      { filled := hm.filled, busy := hbusy, running := fun _ => ⟨hin, hie, hm.drained⟩
        idle := nofun, bytes := fun _ _ => ?_, received := ?_ }
    · show delivered _ = okRecv (outs ++ [none]) ++ (s.rgot ++ got) ++ unread rx
      rw [hnone, hall]
    · show okRecv (outs ++ [none]) <+: _
      rw [hnone]
      exact hpre
  | wait j =>
    refine
      { filled := hm.filled, busy := hbusy, running := fun _ => ⟨hin, hie, hm.drained⟩
        idle := nofun, bytes := fun _ _ => ?_, received := ?_ }
    · show delivered _ = okRecv (outs ++ [none]) ++ (s.rgot ++ got) ++ unread rx
      rw [hnone, hall]
    · show okRecv (outs ++ [none]) <+: _
      rw [hnone]
      exact hpre

/-- A call that is refused at once. -/
theorem RxInv.refuse (h : RxInv s evs outs) (first : List ℕ) (e : Errno) :
    RxInv s (evs ++ [.call first]) (outs ++ [some (.error e)]) := by
  have hd : delivered (evs ++ [.call first]) = delivered evs := by
    rw [delivered_append]
    exact List.append_nil _
  have hr : okRecv (outs ++ [some (.error e)]) = okRecv outs := by
    rw [okRecv_append]
    exact List.append_nil _
  refine { h with bytes := ?_, received := ?_ }
  · rw [hd, hr]
    exact h.bytes
  · rw [hd, hr]
    exact h.received

/-- One event. -/
theorem RxInv.step (h : RxInv s evs outs) {o : RxOut} (hs : s.step a = some (s', o)) :
    RxInv s' (evs ++ [a]) (outs ++ [o]) := by
  cases rxStep hs with
  | busy => exact h.refuse _ _
  | indone => exact h.refuse _ _
  | inerr => exact h.refuse _ _
  | @start first _ _ hb hin hie hset =>
    have hnext := rxInv_settle (s := { s with rbusy := true }) (a := .call first) rfl hin hie
      (h.bytes hin hie) (start_spec h.filled first) rfl
    rw [hset] at hnext
    exact hnext
  | @kernel j b _ _ hj hset =>
    obtain ⟨hin, hie, hdry⟩ := h.running (by rw [hj]; exact Option.some_ne_none _)
    have hbusy : s.rbusy = true := by rw [h.busy, hj]; rfl
    have hnext := rxInv_settle (a := .kernel b) hbusy hin hie (h.bytes hin hie)
      (turn_spec h.filled hdry (j := j)) (List.append_nil _)
    rw [hset] at hnext
    exact hnext
  | @woken j hj =>
    obtain ⟨hin, hie, hdry⟩ := h.running (by rw [hj]; exact Option.some_ne_none _)
    have hbusy : s.rbusy = true := by rw [h.busy, hj]; rfl
    have hd : delivered (evs ++ [.fdin (.ok ())]) = delivered evs := by
      rw [delivered_append]
      exact List.append_nil _
    have hr : okRecv (outs ++ [none]) = okRecv outs := by
      rw [okRecv_append]
      exact List.append_nil _
    refine
      { filled := h.filled, busy := hbusy, running := fun _ => ⟨hin, hie, hdry⟩
        idle := nofun, bytes := fun h1 h2 => ?_, received := ?_ }
    · rw [hd, hr]
      exact h.bytes h1 h2
    · rw [hd, hr]
      exact h.received
  | @refused j e _ _ hj hset =>
    have hd : delivered (evs ++ [.fdin (.error e)]) = delivered evs := by
      rw [delivered_append]
      exact List.append_nil _
    have hnext : RxInv (s.failed e).1 (evs ++ [.fdin (.error e)]) (outs ++ [(s.failed e).2]) :=
      rxInv_failed h.filled (hd ▸ h.received)
    rw [hset] at hnext
    exact hnext

theorem rxInv_of_answers {rx : Option RxBuf} (hf : Filled rx) (hu : unread rx = [])
    (hr : answers RxSide.step (.init rx) evs = some (s, outs)) : RxInv s evs outs :=
  answers_induction (rxInv_init hf hu) (fun _ _ _ _ _ _ hi hs => hi.step hs) hr

/-! ## After a failure -/

/-- Nothing is received any more, and every call fails with `e`. -/
structure Dead (s : RxSide) (e : Errno) : Prop where
  idle : s.rjob = none
  free : s.rbusy = false
  flags : e = .EPIPE ∧ s.indone = true ∨ e = .ECONNRESET ∧ s.indone = false ∧ s.inerr = true

/-- The error of the calls after a call that has failed with `e`. -/
def sticky (e : Errno) : Errno := if e = .EPIPE then .EPIPE else .ECONNRESET

theorem Dead.step (h : Dead s e) {o : RxOut} (hs : s.step a = some (s', o)) :
    s' = s ∧ o = some (.error e) ∧ delivered [a] = [] := by
  cases a with
  | call first =>
    unfold RxSide.step at hs
    simp only [h.free] at hs
    split at hs
    · cases hs
    · rcases h.flags with ⟨rfl, hin⟩ | ⟨rfl, hin, hie⟩
      · simp only [hin] at hs
        cases hs
        exact ⟨rfl, rfl, rfl⟩
      · simp only [hin, hie] at hs
        cases hs
        exact ⟨rfl, rfl, rfl⟩
  | kernel b =>
    unfold RxSide.step at hs
    simp only [h.idle] at hs
    cases hs
  | fdin r =>
    unfold RxSide.step at hs
    simp only [h.idle] at hs
    cases hs

theorem Dead.answers (h : Dead s e) (hr : answers RxSide.step s evs = some (s', outs)) :
    delivered evs = [] ∧ ∀ o ∈ outs, o = some (.error e) := by
  have hi := answers_induction
    (I := fun s₁ evs outs => s₁ = s ∧ delivered evs = [] ∧ ∀ o ∈ outs, o = some (.error e))
    ⟨rfl, rfl, fun o ho => absurd ho List.not_mem_nil⟩ ?_ hr
  · exact hi.2
  · rintro s₁ evs outs a s₂ o ⟨rfl, hd, ho⟩ hs
    obtain ⟨rfl, rfl, ha⟩ := h.step hs
    refine ⟨rfl, ?_, ?_⟩
    · rw [delivered_append, hd, ha]
      rfl
    · intro o hm
      rcases List.mem_append.mp hm with hm | hm
      · exact ho o hm
      · exact List.mem_singleton.mp hm

theorem dead_failed (hin : s.indone = false) : Dead (s.failed e).1 (sticky e) := by
  unfold RxSide.failed sticky
  split
  · exact ⟨rfl, rfl, .inl ⟨rfl, rfl⟩⟩
  · exact ⟨rfl, rfl, .inr ⟨rfl, hin, rfl⟩⟩

theorem failed_eq {e' : Errno} (h : (s.failed e').2 = some (.error e)) : e' = e := by
  unfold RxSide.failed at h
  split at h <;> cases h <;> rfl

theorem dead_settle {r : List UInt8 × Option RxBuf × Outcome} (hin : s.indone = false)
    (h : (s.settle r).2 = some (.error e)) : Dead (s.settle r).1 (sticky e) := by
  obtain ⟨got, rx, o⟩ := r
  cases o with
  | done => cases h
  | failed e' =>
    have he := failed_eq (s := { s with rxbuf := rx, rgot := s.rgot ++ got }) h
    rw [← he]
    exact dead_failed (s := { s with rxbuf := rx, rgot := s.rgot ++ got }) hin
  | syscall j => cases h
  | wait j => cases h

/-- No job is left when the connection is not busy. -/
theorem RxInv.job_none (h : RxInv s evs outs) (hb : s.rbusy = false) : s.rjob = none := by
  have hbusy := h.busy
  rw [hb] at hbusy
  exact Option.isSome_eq_false_iff.mp hbusy.symm |> Option.isNone_iff_eq_none.mp

/-- A call that fails, other than for being made during another one, is the last to receive
anything. -/
theorem RxInv.dead (h : RxInv s evs outs) (hs : s.step a = some (s', some (.error e)))
    (he : e ≠ .EBUSY) : Dead s' (sticky e) := by
  cases rxStep hs with
  | busy => exact absurd rfl he
  | indone hb hin => exact ⟨h.job_none hb, hb, .inl ⟨rfl, hin⟩⟩
  | inerr hb hin hie => exact ⟨h.job_none hb, hb, .inr ⟨rfl, hin, hie⟩⟩
  | start hb hin hie hset =>
    have hdead := dead_settle (s := { s with rbusy := true }) hin (congrArg Prod.snd hset)
    rw [hset] at hdead
    exact hdead
  | kernel hj hset =>
    obtain ⟨hin, -, -⟩ := h.running (by rw [hj]; exact Option.some_ne_none _)
    have hdead := dead_settle hin (congrArg Prod.snd hset)
    rw [hset] at hdead
    exact hdead
  | @refused j e' _ _ hj hset =>
    obtain ⟨hin, -, -⟩ := h.running (by rw [hj]; exact Option.some_ne_none _)
    have he' : e' = e := failed_eq (congrArg Prod.snd hset)
    rw [he'] at hset
    have hdead := dead_failed (e := e) hin
    rw [hset] at hdead
    exact hdead

end Libdill.Tcp
