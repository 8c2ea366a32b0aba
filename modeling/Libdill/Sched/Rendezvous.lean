import Libdill.Sched.History
import Mathlib.Data.List.Nodup
import Mathlib.Data.List.Lattice
import Mathlib.Data.List.Pairwise

/-!
# The rendezvous law

What the channels do to the calls that use them, stated over the history of a run. A rendezvous
pairs a send with a receive on the same half-channel; `RendezvousLaw` says that the calls that
report success or `EMSGSIZE` are exactly the parties of the rendezvous, each of them once.
`Transfers` says what one action of a run adds: nothing, or one rendezvous with the clause that has
been queued longest, whose bytes are copied if the lengths agree.
-/

namespace Libdill.Sched

open Foundations

namespace Ctx

variable {k k' : Cur} {s s' : Ctx} {c : CrId} {j : Job} {op i : ℕ} {err : Errno}

/-! ## Actions without a rendezvous -/

/-- A move that is not a rendezvous records none and leaves the memory alone. -/
theorem Micro.silent (h : Micro false k s k' s') : meets s'.log = meets s.log ∧ s'.mem = s.mem := by
  cases h with
  | quiet h => exact ⟨by rw [h.log], h.mem⟩
  | ret hv hc => simp [Ctx.ret]
  | closeEnd hh => simp [Ctx.ret]
  | timer deadline hi hf =>
    rw [Ctx.timer]
    split
    · exact ⟨rfl, rfl⟩
    · exact ⟨rfl, rfl⟩
  | @closeWait _ s j b x old c rest hd =>
    rw [closeWaited]
    by_cases hc : c ∈ s.ready
    · rw [if_pos hc]
      exact ⟨rfl, rfl⟩
    · rw [if_neg hc]
      exact ⟨rfl, rfl⟩
  | _ => exact ⟨rfl, rfl⟩

theorem Micros.silent (h : Micros false k s k' s') :
    meets s'.log = meets s.log ∧ s'.mem = s.mem := by
  induction h with
  | refl => exact ⟨rfl, rfl⟩
  | cons hm _ ih =>
    have hs := Micro.silent hm
    exact ⟨ih.1.trans hs.1, ih.2.trans hs.2⟩

/-! ## The law -/

/-- The call of the party has returned, and reports that this operation of it was done with
`err`: zero for a transfer, `EMSGSIZE` for a mismatch of the lengths. -/
def Reported (s : Ctx) (p : Party) (err : Errno) : Prop :=
  ∃ c j v e, s.Called c j ∧ j.op = p.op ∧ s.Returned p.op v e ∧
    j.call.verdict v e = some (p.clause, err)

/-- The caller is in the ready queue, and its call will return and report the same. -/
def Due (s : Ctx) (p : Party) (err : Errno) : Prop :=
  ∃ c j f, s.Called c j ∧ j.op = p.op ∧ c ∈ s.ready ∧ (s.crs c).frame = some (p.op, f) ∧
    (∀ v e, ¬s.Returned p.op v e) ∧
    j.call.verdict (result f (s.crs c).id (s.crs c).err).1 (result f (s.crs c).id (s.crs c).err).2 =
      some (p.clause, err)

/-- The rendezvous of a run and what the calls report. -/
structure RendezvousLaw (s : Ctx) : Prop where
  /-- The number of a call belongs to one call. -/
  call_unique : ∀ c j c' j', s.Called c j → s.Called c' j' → j.op = j'.op → c = c' ∧ j = j'
  /-- A channel operation returns once. -/
  ret_unique : ∀ c j v e v' e', s.Called c j → j.call.isChan = true → s.Returned j.op v e →
    s.Returned j.op v' e' → v = v' ∧ e = e'
  /-- No call takes part in two rendezvous. -/
  once : (partyOps s.log).Nodup
  /-- A rendezvous is between a send and a receive on the same half-channel, of equal lengths for
  a transfer and of different lengths for `EMSGSIZE`. -/
  asked : ∀ m, .meet m ∈ s.log → s.MeetOk m
  /-- Both parties report it, as soon as they run. -/
  reported : ∀ m, .meet m ∈ s.log → ∀ sd, s.Reported (m.party sd) m.err ∨ s.Due (m.party sd) m.err
  /-- What is reported has happened, once. -/
  matched : ∀ p e, s.Reported p e → ∃! m, .meet m ∈ s.log ∧ (∃ sd, m.party sd = p) ∧ m.err = e
  /-- A call that reports neither (`ETIMEDOUT`, `ECANCELED`, `EPIPE` and the rest) takes part in no
  rendezvous. -/
  unmatched : ∀ c j v e, s.Called c j → s.Returned j.op v e → j.call.verdict v e = none →
    j.op ∉ partyOps s.log

/-- What one action does to the memory and to the rendezvous. -/
inductive Transfers (s : Ctx) (a : Act) (s' : Ctx) : Prop
  /-- No rendezvous: only a store of the user changes the memory. -/
  | silent (hm : meets s'.log = meets s.log)
      (hmem : s'.mem = s.mem ∨ ∃ x y, a = .write x y ∧ s'.mem = Function.update s.mem x y)
  /-- The call meets the first clause `e` of the queue of the other side, which has been queued
  longest, and returns; the bytes of the sender are copied to the receiver, or nothing is. -/
  | meet (m : Meeting) (sd : Side) (i : ℕ) (e : ChanClause) (rest : List ChanClause)
      (hm : meets s'.log = meets s.log ++ [m])
      (hc : ∃ c, a = .call c ∧ m.party sd = ⟨s.nops, i⟩)
      (hq : (s.half m.half).queue sd.peer = e :: rest) (hp : m.party sd.peer = ⟨e.op, e.id⟩)
      (hfifo : ∀ e' ∈ rest, Earlier e e')
      (hr : s'.Reported ⟨s.nops, i⟩ m.err)
      (hok : m.err = .ok → (∀ n < m.len, s'.mem (m.dst + n) = s.mem (m.src + n)) ∧
        ∀ x, ¬(m.dst ≤ x ∧ x < m.dst + m.len) → s'.mem x = s.mem x)
      (hsize : m.err ≠ .ok → s'.mem = s.mem)

/-- Two rendezvous with a common call are the same. -/
theorem meeting_unique {log : List Event} (h : (partyOps log).Nodup) {m m' : Meeting}
    (hm : .meet m ∈ log) (hm' : .meet m' ∈ log) {sd sd' : Side}
    (hop : (m.party sd).op = (m'.party sd').op) : m = m' := by
  by_contra hne
  have hsymm : Std.Symm (Function.onFun List.Disjoint fun m : Meeting => [m.snd.op, m.rcv.op]) :=
    ⟨fun _ _ hxy => List.Disjoint.symm hxy⟩
  have hd := (List.nodup_flatMap.1 h).2.forall (mem_meets.2 hm) (mem_meets.2 hm') hne
  have hin : ∀ (m : Meeting) sd, (m.party sd).op ∈ [m.snd.op, m.rcv.op] := fun m sd => by
    cases sd <;> simp [Meeting.party]
  exact hd (hin m sd) (hop ▸ hin m' sd')

theorem Hist.due (h : Hist .idle s) (hg : Good .idle s) {f : Frame} (hc : c ∈ s.ready)
    (hne : f ≠ .epilogue) (hf : (s.crs c).frame = some (op, f))
    (hv : f.verdict (s.crs c).id (s.crs c).err = some (i, err)) : s.Due ⟨op, i⟩ err := by
  obtain ⟨j, rfl, hj, hof⟩ := hg.frames.logged c op f hf hne
  have hp := hg.inv.pending hf
  have hres := Frame.verdict_result hof (hp.outcome hc)
  have hjv := hres.trans hv
  exact ⟨c, j, f, hj, rfl, hc, hf, h.frame_open c j f hf hne hj (Call.isChan_of_verdict hjv), hjv⟩

theorem Hist.law (h : Hist .idle s) (hg : Good .idle s) : RendezvousLaw s where
  call_unique := h.called_unique
  ret_unique := h.ret_unique
  once := h.meet_nodup
  asked := h.meet_ok
  reported m hm sd := by
    have hmet : s.Met (m.party sd).op (m.party sd).clause m.err := ⟨m, sd, hm, rfl, rfl⟩
    rcases h.meet_status _ _ _ hmet with hr | ⟨c, f, hc, hne, hf, hv⟩ | ⟨j, hj, -⟩
    · exact .inl hr
    · exact .inr (h.due hg hc hne hf hv)
    · cases hj
  matched p e := by
    rintro ⟨c, j, v, x, hj, hop, hr, hv⟩
    rw [← hop] at hr
    obtain ⟨m, sd, hm, hp, he⟩ := h.ret_met c j v x _ _ hj hr hv
    rw [hop] at hp
    refine ⟨m, ⟨hm, ⟨sd, hp⟩, he⟩, ?_⟩
    rintro m' ⟨hm', ⟨sd', hp'⟩, -⟩
    exact meeting_unique h.meet_nodup hm' hm (by rw [hp', hp])
  unmatched c j v e hj hr hv hmem := by
    obtain ⟨m, sd, hm, hop⟩ := mem_partyOps.1 hmem
    have hmet : s.Met j.op (m.party sd).clause m.err := ⟨m, sd, hm, by rw [← hop], rfl⟩
    rcases h.meet_status _ _ _ hmet with ⟨c', j', v', e', hj', hop', hr', hv'⟩ |
      ⟨c', f, hc, hne, hf, hv'⟩ | ⟨j', hj', -⟩
    · obtain ⟨-, rfl⟩ := h.called_unique _ _ _ _ hj' hj hop'
      obtain ⟨rfl, rfl⟩ := h.ret_unique c j' v e v' e' hj (Call.isChan_of_verdict hv') hr hr'
      rw [hv] at hv'
      cases hv'
    · obtain ⟨_, j', f', hj', hop', -, -, hopen, -⟩ := h.due hg hc hne hf hv'
      exact hopen v e hr
    · cases hj'

/-- The rendezvous of a call that returns at once. -/
theorem Hist.transfers {x : Call} {a : ChanArg} {e : ChanClause} {rest : List ChanClause} {v : ℤ}
    {er : Errno} (h : Hist .idle s)
    (hq : ((s.enter x).half a.half).queue a.sd.peer = e :: rest)
    (hv : x.verdict v er = some (i, if a.len = e.len then .ok else .EMSGSIZE)) :
    Transfers s (.call x) (((s.enter x).met s.nops i a e).ret s.nops v er) := by
  set err : Errno := if a.len = e.len then .ok else .EMSGSIZE with herr
  set m := meeting a.half a.sd s.nops i a.val a.len e err with hm
  have hlog : ((s.enter x).met s.nops i a e).log = (s.enter x).log ++ [.meet m] := by
    rw [met, hm, herr]
    split
    · rfl
    · rfl
  have hsorted := h.sorted a.half a.sd.peer
  have hq : (s.half a.half).queue a.sd.peer = e :: rest := hq
  rw [hq, List.pairwise_cons] at hsorted
  refine .meet m a.sd i e rest ?_ ⟨x, rfl, ?_⟩ ?_ ?_ hsorted.1 ?_ ?_ ?_
  · rw [Ctx.ret, meets_append, meets_ret, hlog, meets_append, meets_meet, Ctx.enter, meets_append,
      meets_call, List.append_nil, List.append_nil]
  · rw [hm, meeting_party]
  · rw [hm, meeting_half]
    exact hq
  · rw [hm, meeting_party_peer]
  · refine ⟨s.r, s.job x, v, er, ?_, rfl, ?_, ?_⟩
    · rw [called_ret, Called, hlog]
      exact List.mem_append_left _ (called_enter.2 (.inr ⟨rfl, rfl⟩))
    · exact returned_ret.2 (.inr ⟨rfl, rfl, rfl⟩)
    · rw [hm, meeting_err]
      exact hv
  · intro hok
    rw [hm, meeting_err, herr] at hok
    have hl : a.len = e.len := by
      by_contra hne
      rw [if_neg hne] at hok
      cases hok
    have hmem : (((s.enter x).met s.nops i a e).ret s.nops v er).mem =
        (s.memcpy m.dst m.src m.len).mem := by
      rw [met, if_pos hl, hm, herr, if_pos hl, meeting_len]
      rfl
    rw [hmem]
    refine ⟨fun n hn => ?_, fun y hy => ?_⟩
    · have hin : m.dst ≤ m.dst + n ∧ m.dst + n < m.dst + m.len :=
        ⟨Nat.le_add_right _ _, Nat.add_lt_add_left hn _⟩
      simp only [memcpy, if_pos hin, Nat.add_sub_cancel_left]
    · simp only [memcpy, if_neg hy]
  · intro hne
    rw [hm, meeting_err, herr] at hne
    have hl : a.len ≠ e.len := fun hl => hne (if_pos hl)
    rw [met, if_neg hl]
    rfl

end Ctx

open Ctx

/-- **The channel rendezvous law.** -/
theorem channel_rendezvous {s : Ctx} (h : Reachable s) :
    RendezvousLaw s ∧ ∀ a s', s.step a = .ok s' → Transfers s a s' := by
  have hg := h.good
  refine ⟨h.hist.law hg, fun a s' hs => ?_⟩
  have hmoves := (step_post hg a).of_ok hs
  cases hmoves with
  | @call c s' hu hc =>
    cases hc with
    | silent hm =>
      have hsil := Micros.silent hm
      refine .silent ?_ (.inl hsil.2)
      rw [hsil.1, Ctx.enter, meets_append, meets_call, List.append_nil]
    | met ha hd hq hv => exact h.hist.transfers hq hv
  | write x y => exact .silent rfl (.inr ⟨x, y, rfl, rfl⟩)
  | poll nw answers hm hp => exact .silent (Micros.silent hm).1 (.inl (Micros.silent hm).2)
  | hcloseEnd hm => exact .silent (Micros.silent hm).1 (.inl (Micros.silent hm).2)
  | exit hm => exact .silent (Micros.silent hm).1 (.inl (Micros.silent hm).2)
  | switch hm => exact .silent (Micros.silent hm).1 (.inl (Micros.silent hm).2)

/-- A run in which a waiting sender of two bytes is met. -/
def metSender : List Act :=
  [.call (.chmake 0 1), .call (.go (-1) false true 2), .write 200 7, .write 201 8,
    .call (.chsend 1 200 2 (-1)), .poll 0 [], .switch, .call (.chrecv 0 100 2 50)]

theorem channel_rendezvous_metSender :
    ∃ s, run Ctx.step Ctx.init metSender = .ok s ∧
      meets s.log = [⟨⟨0, false⟩, ⟨2, 0⟩, ⟨3, 0⟩, 200, 100, 2, .ok⟩] ∧
      s.mem 100 = 7 ∧ s.mem 101 = 8 ∧
      RendezvousLaw s ∧ ∀ a s', s.step a = .ok s' → Transfers s a s' := by
  obtain ⟨s, hr, hp⟩ := exists_of_runsTo Ctx.step Ctx.init metSender
    (fun s => decide (meets s.log = [⟨⟨0, false⟩, ⟨2, 0⟩, ⟨3, 0⟩, 200, 100, 2, .ok⟩] ∧
      s.mem 100 = 7 ∧ s.mem 101 = 8)) (by decide)
  rw [decide_eq_true_eq] at hp
  exact ⟨s, hr, hp.1, hp.2.1, hp.2.2, channel_rendezvous (reachable_of_run hr)⟩

end Libdill.Sched
