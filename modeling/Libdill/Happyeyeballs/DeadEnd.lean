import Libdill.Happyeyeballs.Order

/-!
# Happy Eyeballs: dead ends

Both queries have delivered their end marker, and every attempt has failed. The coordinator
ignores the markers and waits on; nothing will come. A caller with a deadline fails at it, and a
caller that is canceled fails; any other one waits.
-/

namespace Libdill.Happyeyeballs

open Foundations
open Libdill.Sched (Errno)

variable {c : Call} {s s' : St} {base : Finset ℕ}

/-! ## What keeps the run going -/

/-- The running coroutine can run. -/
def Awake (s : St) : Prop := ∀ w, s.cur = some w → s.ready w = true

@[simp] theorem ready_modify {l : List Attempt} {i : ℕ} {t : Attempt} (ht : l[i]? = some t)
    (f : Attempt → Attempt) :
    ((l.modify i f)[i]?).any (fun a => a.pc.ready) = (f t).pc.ready := by
  rw [List.getElem?_modify, ht]
  simp

theorem Awake.idle (h : s.cur = none) : Awake s := by
  intro w hw
  rw [h] at hw
  cases hw

theorem Awake.of_cur {w : Who} (h : s.cur = some w) (hr : s.ready w = true) : Awake s := by
  intro w' hw
  cases h.symm.trans hw
  exact hr

theorem Awake.move (h : Awake s) (hm : Move c s s') : Awake s' := by
  cases hm with
  | chmake _ _ _ hcur => exact .of_cur hcur rfl
  | goFails _ hcur => exact .of_cur hcur rfl
  | go => exact .of_cur rfl rfl
  | recvCanceled hcur => exact .of_cur hcur rfl
  | recvTake _ _ _ hcur => exact .of_cur hcur rfl
  | recvExpired hcur => exact .of_cur hcur rfl
  | stopped _ _ hcur => exact .of_cur hcur rfl
  | start _ _ _ _ _ _ hcur => exact .of_cur hcur rfl
  | goIpv6 => exact .of_cur rfl rfl
  | goIpv4 => exact .of_cur rfl rfl
  | canceled hcur => exact .of_cur hcur rfl
  | chrecvTake _ hcur => exact .of_cur hcur rfl
  | received _ hcur => exact .of_cur hcur rfl
  | chooseTake _ _ hcur => exact .of_cur hcur rfl
  | useNull _ _ _ hcur => exact .of_cur hcur rfl
  | useAddress =>
    refine .of_cur rfl ?_
    simp [St.ready, AttemptPc.ready]
  | bundleClosed _ hcur => exact .of_cur hcur rfl
  | answers f l hcur =>
    refine .of_cur hcur ?_
    simp [St.ready, DnsPc.ready]
  | sendCanceled f rest hcur =>
    refine .of_cur hcur ?_
    simp [St.ready, DnsPc.ready]
  | send f rest pc hcur hpc hrecv =>
    refine .of_cur hcur ?_
    cases rest <;> simp [St.ready, afterSend, DnsPc.ready]
  | connectFails _ _ hcur hti => exact .of_cur hcur (ready_modify hti _)
  | connects _ _ _ _ hcur hti => exact .of_cur hcur (ready_modify hti _)
  | connCanceled _ _ _ hcur hti => exact .of_cur hcur (ready_modify hti _)
  | connSend _ _ _ hcur hti => exact .of_cur hcur (ready_modify hti _)
  | connClose _ _ _ _ hcur hti => exact .of_cur hcur (ready_modify hti _)
  | resume w hcur hready => exact .of_cur rfl hready
  | tick d => exact h
  | eventDns _ hcur => exact .idle hcur
  | eventAttempt _ _ hcur => exact .idle hcur
  | timeoutMain hcur => exact .idle hcur
  | timeoutChrecv _ hcur => exact .idle hcur
  | timeoutMsleep _ hcur => exact .idle hcur
  | cancelWait hcur => exact .idle hcur
  | cancel hcur => exact .idle hcur
  | _ => exact .idle rfl

/-- The coordinator is told what it waits for. -/
def CoordinatorPc.blocked : CoordinatorPc → Bool
  | .chrecvWait _ => true
  | .chooseWait _ => true
  | .msleepWait _ => true
  | _ => false

/-- The caller is about to fail. -/
def MainPc.failed : MainPc → Bool
  | .exit3 r => r.toOption.isNone
  | .exit3Wait r => r.toOption.isNone
  | .exit2 r => r.toOption.isNone
  | .returned r => r.toOption.isNone
  | _ => false

/-- What keeps the run going. -/
structure Live (c : Call) (s : St) : Prop where
  awake : Awake s
  receiving : s.main.pc = .chrecvWait → s.main.noBlocking = false ∧ c.deadline ≠ 0
  canceled : s.coordinator.noBlocking = true → s.coordinator.pc.blocked = false
  closing : ∀ w, s.coordinator.pc = .cancelWait w → s.unfinished w = true
  failed : s.coordinator.pc ≠ .absent → s.main.pc.failed = true →
    s.main.noBlocking = true ∨ 0 ≤ c.deadline

theorem epilogue_blocked {s : St} {w : Who} (h : s.coordinator.pc.blocked = false) :
    (s.epilogue w).coordinator.pc.blocked = false := by
  unfold St.epilogue
  split
  · rfl
  · exact h

theorem receiving_move (h : s.main.pc = .chrecvWait → s.main.noBlocking = false ∧ c.deadline ≠ 0)
    (hm : Move c s s') (hpc' : s'.main.pc = .chrecvWait) :
    s'.main.noBlocking = false ∧ c.deadline ≠ 0 := by
  cases hm with
  | cancel hcur hpc => rcases hpc with hpc | ⟨r, hpc⟩ <;> cases hpc.symm.trans hpc'
  | _ => simp_all

theorem canceled_move (h : s.coordinator.noBlocking = true → s.coordinator.pc.blocked = false)
    (hm : Move c s s') : s'.coordinator.noBlocking = true → s'.coordinator.pc.blocked = false := by
  cases hm with
  | stop r pc hcur hpc hdone hk =>
    intro _
    show pc.blocked = false
    cases hc : s.coordinator.pc <;> rw [hc] at hk <;> cases hk <;> rfl
  | send f rest pc hcur hpc hrecv =>
    intro _
    show pc.blocked = false
    rcases receive_cases hrecv with ⟨d, -, -, rfl⟩ | ⟨nw, idx, -, -, rfl⟩ <;> rfl
  | dnsExit f marked =>
    intro hno
    rw [show (St.block _).coordinator.noBlocking = _ from epilogue_noBlocking _ _] at hno
    exact epilogue_blocked (h hno)
  | attemptExit i t =>
    intro hno
    rw [show (St.block _).coordinator.noBlocking = _ from epilogue_noBlocking _ _] at hno
    exact epilogue_blocked (h hno)
  | _ => simp_all [CoordinatorPc.blocked]

/-- A query goes on; if it ends, it is another one. -/
theorem unfinished_update {w : Who} {f : Fam} {d : Dnsquery} (h : s.unfinished w = true)
    (hd : w = .dnsquery f → d.pc.finished = false) :
    St.unfinished { s with dns := Function.update s.dns f d } w = true := by
  cases w with
  | dnsquery g =>
    show (!(Function.update s.dns f d g).pc.finished) = true
    by_cases hg : g = f
    · subst hg
      rw [Function.update_self, hd rfl]
      rfl
    · rw [Function.update_of_ne hg]
      exact h
  | _ => exact h

/-- An attempt goes on; if it ends, it is another one. -/
theorem unfinished_modify {w : Who} {i : ℕ} {f : Attempt → Attempt} (h : s.unfinished w = true)
    (hf : w = .attempt i → ∀ t, t.pc ≠ .done → (f t).pc ≠ .done) :
    St.unfinished { s with attempts := s.attempts.modify i f } w = true := by
  cases w with
  | attempt j =>
    show ((s.attempts.modify i f)[j]?).any _ = true
    have hj : (s.attempts[j]?).any (fun a => a.pc ≠ .done) = true := h
    cases ht : s.attempts[j]? with
    | none =>
      rw [ht] at hj
      cases hj
    | some t =>
      rw [List.getElem?_modify, ht]
      rw [ht] at hj
      by_cases hij : i = j
      · subst hij
        simpa using hf rfl t (by simpa using hj)
      · simpa [hij] using hj
  | _ => exact h

theorem crClose_unfinished {w w' : Who} (h : s.unfinished w' = true) :
    (s.crClose w).unfinished w' = true := by
  cases w with
  | dnsquery f =>
    refine unfinished_update h ?_
    rintro rfl
    unfold St.unfinished at h
    unfold Dnsquery.close
    cases hpc : (s.dns f).pc <;> simp_all [DnsPc.finished, DnsPc.canceled]
  | attempt i =>
    refine unfinished_modify h fun _ t ht => ?_
    unfold Attempt.close
    cases hpc : t.pc <;> simp_all [AttemptPc.canceled]
  | _ => exact h

theorem unfinished_congr {w : Who} (hd : s'.dns = s.dns) (ha : s'.attempts = s.attempts)
    (h : s.unfinished w = true) : s'.unfinished w = true := by
  cases w with
  | dnsquery f =>
    show (!(s'.dns f).pc.finished) = true
    rw [hd]
    exact h
  | attempt i =>
    show (s'.attempts[i]?).any _ = true
    rw [ha]
    exact h
  | _ => exact h

/-- A coroutine that ends is not waited for any longer. -/
theorem epilogue_closing {w w' : Who} (h : (s.epilogue w).coordinator.pc = .cancelWait w') :
    s.coordinator.pc = .cancelWait w' ∧ w' ≠ w := by
  unfold St.epilogue at h
  split at h
  · cases h
  · rename_i hne
    refine ⟨h, ?_⟩
    rintro rfl
    exact hne h

theorem closing_move (h : ∀ w, s.coordinator.pc = .cancelWait w → s.unfinished w = true)
    (hm : Move c s s') (w : Who) (hpc' : s'.coordinator.pc = .cancelWait w) :
    s'.unfinished w = true := by
  cases hm with
  | recvTake i t conn => exact unfinished_modify (h w hpc') fun _ _ _ => nofun
  | stop r pc hcur hpc hdone hk =>
    rw [show pc = _ from hpc'] at hk
    cases hc : s.coordinator.pc <;> rw [hc] at hk <;> cases hk
  | crClose v hcur hpc hv =>
    cases hpc'
    exact unfinished_congr rfl rfl (crClose_unfinished (List.find?_some hv))
  | remotesWait f => exact unfinished_update (h w hpc') fun _ => rfl
  | answers f l => exact unfinished_update (h w hpc') fun _ => rfl
  | sendCanceled f rest => exact unfinished_update (h w hpc') fun _ => rfl
  | send f rest pc hcur hpc hrecv =>
    rcases receive_cases hrecv with ⟨d, -, -, rfl⟩ | ⟨nw, idx, -, -, rfl⟩ <;> cases hpc'
  | sendWait f rest => exact unfinished_update (h w hpc') fun _ => rfl
  | dnsExit f marked =>
    obtain ⟨hpc, hne⟩ := epilogue_closing hpc'
    refine unfinished_congr (epilogue_dns _ _) (epilogue_attempts _ _) ?_
    exact unfinished_update (h w hpc) fun he => absurd he hne
  | connectWait i t => exact unfinished_modify (h w hpc') fun _ _ _ => nofun
  | connectFails i t => exact unfinished_modify (h w hpc') fun _ _ _ => nofun
  | connects i t conn => exact unfinished_modify (h w hpc') fun _ _ _ => nofun
  | connCanceled i t conn => exact unfinished_modify (h w hpc') fun _ _ _ => nofun
  | connSend i t conn => exact unfinished_modify (h w hpc') fun _ _ _ => nofun
  | connWait i t conn => exact unfinished_modify (h w hpc') fun _ _ _ => nofun
  | connClose i t conn => exact unfinished_modify (h w hpc') fun _ _ _ => nofun
  | attemptExit i t =>
    obtain ⟨hpc, hne⟩ := epilogue_closing hpc'
    refine unfinished_congr (epilogue_dns _ _) (epilogue_attempts _ _) ?_
    exact unfinished_modify (h w hpc) fun he => absurd he hne
  | eventDns f => exact unfinished_update (h w hpc') fun _ => rfl
  | eventAttempt i t => exact unfinished_modify (h w hpc') fun _ _ _ => nofun
  | _ => first | cases hpc' | exact unfinished_congr rfl rfl (h w hpc')

theorem failed_move (ht : Tidy base s) (ha : Awake s)
    (h : s.coordinator.pc ≠ .absent → s.main.pc.failed = true →
      s.main.noBlocking = true ∨ 0 ≤ c.deadline)
    (hm : Move c s s') (hk : s'.coordinator.pc ≠ .absent) (hf : s'.main.pc.failed = true) :
    s'.main.noBlocking = true ∨ 0 ≤ c.deadline := by
  have hrun (hcur : s.cur = some .coordinator) : s.coordinator.pc ≠ .absent := by
    intro he
    have hready := ha _ hcur
    unfold St.ready at hready
    rw [he] at hready
    cases hready
  cases hm with
  | refused e hcur hpc => exact absurd (ht.absent (.inl hpc)) hk
  | goFails e hcur hpc => exact absurd (ht.absent (.inr hpc)) hk
  | recvCanceled hcur hpc hno => exact .inl hno
  | recvExpired hcur hpc hd => exact .inr hd.ge
  | stop r pc hcur hpc hdone hc =>
    refine h ?_ (by rw [hpc]; exact hf)
    intro he
    rw [he] at hc
    cases hc
    exact hk rfl
  | stopped r H hcur hpc hdone => exact h hk (by rw [hpc]; exact hf)
  | «return» r H hcur hpc => exact h hk (by rw [hpc]; exact hf)
  | closeWake r H hcur hpc hmain => exact h (hrun hcur) (by rw [hmain]; exact hf)
  | timeoutMain hcur hpc hd => exact .inr hd
  | timeoutChrecv d hcur hpc => exact h (by rw [hpc]; nofun) hf
  | timeoutMsleep d hcur hpc => exact h (by rw [hpc]; nofun) hf
  | cancelWait => exact .inl rfl
  | cancel => exact .inl rfl
  | crClose w hcur =>
    have hmain : ((s.crClose w).coordinatorAt (.cancelWait w)).block.main = s.main :=
      crClose_main s w
    rw [hmain] at hf ⊢
    exact h (hrun hcur) hf
  | send f rest pc hcur hpc hrecv =>
    refine h ?_ hf
    rcases receive_cases hrecv with ⟨d, hc, -, -⟩ | ⟨nw, idx, hc, -, -⟩ <;> rw [hc] <;> nofun
  | dnsExit f marked =>
    rw [show (St.block _).main = _ from epilogue_main _ _] at hf ⊢
    exact h (fun he => hk (by unfold St.epilogue; simp [he])) hf
  | attemptExit i t =>
    rw [show (St.block _).main = _ from epilogue_main _ _] at hf ⊢
    exact h (fun he => hk (by unfold St.epilogue; simp [he])) hf
  | _ => first | cases hf | exact h hk hf | exact h (hrun ‹_›) hf

theorem Live.move (ht : Tidy base s) (h : Live c s) (hm : Move c s s') : Live c s' where
  awake := h.awake.move hm
  receiving := receiving_move h.receiving hm
  canceled := canceled_move h.canceled hm
  closing := closing_move h.closing hm
  failed := failed_move ht h.awake h.failed hm

theorem Init.live (h : Init base s) : Live c s := by
  constructor
  · exact .of_cur h.cur (by unfold St.ready; rw [h.main]; rfl)
  · rw [h.main]
    nofun
  · rw [h.coordinator]
    nofun
  · rw [h.coordinator]
    nofun
  · rw [h.main]
    nofun

theorem Reachable.live (h : Reachable c base s) : Live c s :=
  h.rule (fun _ hi => hi.live) fun _ _ ht hl hm => hl.move ht hm

/-! ## Dead ends -/

/-- Both end markers were delivered, every attempt has ended and none of them connected. -/
structure DeadEnd (s : St) : Prop where
  marked : ∀ f, (s.dns f).pc = .leave true ∨ (s.dns f).pc = .done true
  ended : ∀ (i : ℕ) (t : Attempt), s.attempts[i]? = some t → t.pc = .done ∧ t.conn = none

theorem DeadEnd.dns (h : DeadEnd s) {f : Fam} {pc : DnsPc} (hpc : (s.dns f).pc = pc) :
    pc = .leave true ∨ pc = .done true := hpc ▸ h.marked f

theorem DeadEnd.attempt (h : DeadEnd s) {i : ℕ} {t : Attempt} {pc : AttemptPc}
    (ht : s.attempts[i]? = some t) (hpc : t.pc = pc) : pc = .done := hpc ▸ (h.ended i t ht).1

/-- What the coordinator has in its hand at a dead end is the marker. -/
theorem DeadEnd.hand (h : DeadEnd s) (hs : Streams c s) {idx : Fin 2} {nw : ℕ} {addr : IpAddr}
    (hpc : s.coordinator.pc = .useAddress idx nw addr) : addr = nulladdr := by
  have hhand : s.coordinator.hand = some (s.coordinator.cls idx, addr) := by
    unfold Coordinator.hand
    rw [hpc]
  have hex := hs.exact (by rw [hpc]; rfl) (s.coordinator.cls idx)
  rw [handed_of_hand hhand, if_pos rfl] at hex
  unfold Exact at hex
  rcases h.marked (s.coordinator.cls idx) with hd | hd <;> rw [hd] at hex
  · rcases hex.2 with he | he <;> cases he
    rfl
  · rcases hex.2 with he | he <;> cases he
    rfl

theorem DeadEnd.congr (h : DeadEnd s) (hd : s'.dns = s.dns) (ha : s'.attempts = s.attempts) :
    DeadEnd s' :=
  ⟨hd.symm ▸ h.marked, ha.symm ▸ h.ended⟩

/-- **A dead end stays one.** -/
theorem DeadEnd.move (h : DeadEnd s) (hs : Streams c s) (hm : Move c s s') : DeadEnd s' := by
  cases hm with
  | recvTake i t conn hcur hpc ht htpc => cases h.attempt ht htpc
  | goIpv6 hcur hpc => rcases h.dns (hs.goIpv6 hpc .ipv6) with he | he <;> cases he
  | goIpv4 hcur hpc => rcases h.dns (hs.goIpv4 hpc) with he | he <;> cases he
  | chrecvTake rest hcur hpc hrest => rcases h.dns hrest with he | he <;> cases he
  | chooseTake idx rest hcur hpc hrest => rcases h.dns hrest with he | he <;> cases he
  | useAddress idx nw addr hcur hpc hnull =>
    rw [h.hand hs hpc, ipaddrEqual_nulladdr] at hnull
    cases hnull
  | crClose w hcur hpc =>
    cases w with
    | dnsquery f =>
      refine ⟨fun g => ?_, h.ended⟩
      show (Function.update s.dns f _ g).pc = _ ∨ (Function.update s.dns f _ g).pc = _
      by_cases hg : g = f
      · subst hg
        rw [Function.update_self]
        unfold Dnsquery.close
        rcases h.marked g with hd | hd <;> rw [hd]
        · exact .inl rfl
        · exact .inr rfl
      · rw [Function.update_of_ne hg]
        exact h.marked g
    | attempt i =>
      refine ⟨h.marked, fun j t hj => ?_⟩
      obtain ⟨t₀, ht₀, rfl⟩ := getElem?_modify_some hj
      obtain ⟨h₁, h₂⟩ := h.ended j t₀ ht₀
      split
      · unfold Attempt.close
        rw [h₁]
        exact ⟨rfl, h₂⟩
      · exact ⟨h₁, h₂⟩
    | _ => exact ⟨h.marked, h.ended⟩
  | remotesWait f hcur hpc => rcases h.dns hpc with he | he <;> cases he
  | answers f l hcur hpc => rcases h.dns hpc with he | he <;> cases he
  | sendCanceled f rest hcur hpc => rcases h.dns hpc with he | he <;> cases he
  | send f rest pc hcur hpc => rcases h.dns hpc with he | he <;> cases he
  | sendWait f rest hcur hpc => rcases h.dns hpc with he | he <;> cases he
  | dnsExit f marked hcur hpc =>
    refine DeadEnd.congr (s := s.dnsAt f (.done marked)) ?_ (epilogue_dns _ _)
      (epilogue_attempts _ _)
    refine ⟨fun g => ?_, h.ended⟩
    show (Function.update s.dns f _ g).pc = _ ∨ (Function.update s.dns f _ g).pc = _
    by_cases hg : g = f
    · subst hg
      rw [Function.update_self]
      rcases h.dns hpc with he | he <;> cases he
      exact .inr rfl
    · rw [Function.update_of_ne hg]
      exact h.marked g
  | connectWait i t hcur ht hpc => cases h.attempt ht hpc
  | connectFails i t hcur ht hpc => cases h.attempt ht hpc
  | connects i t conn H hcur ht hpc => cases h.attempt ht hpc
  | connCanceled i t conn hcur ht hpc => cases h.attempt ht hpc
  | connSend i t conn hcur ht hpc => cases h.attempt ht hpc
  | connWait i t conn hcur ht hpc => cases h.attempt ht hpc
  | connClose i t conn H hcur ht hpc => cases h.attempt ht hpc
  | attemptExit i t hcur ht hpc => cases h.attempt ht hpc
  | eventDns f hcur hpc => rcases h.dns hpc with he | he <;> cases he
  | eventAttempt i t hcur ht hpc => cases h.attempt ht hpc
  | _ => exact ⟨h.marked, h.ended⟩

/-- At a dead end the coordinator was launched. -/
theorem DeadEnd.launched (h : DeadEnd s) (ht : Tidy base s) :
    s.coordinator.pc ≠ .absent ∧ s.coordinator.pc ≠ .start := by
  constructor
  · intro hpc
    rcases h.dns ((ht.early (.inl hpc)).1 .ipv6) with he | he <;> cases he
  · intro hpc
    rcases h.dns ((ht.early (.inr hpc)).1 .ipv6) with he | he <;> cases he

/-- At a dead end the call does not give a connection. -/
theorem DeadEnd.no_conn (h : DeadEnd s) (ho : Origin s) : s.main.pc.res = none := by
  cases hres : s.main.pc.res with
  | none => rfl
  | some conn =>
    obtain ⟨i, t, ht, -, hconn⟩ := ho.gave conn hres
    cases (h.ended i t ht).2.symm.trans hconn

/-- A call that was not canceled and has no deadline waits for a connection that never comes. -/
theorem DeadEnd.stuck (h : DeadEnd s) (hr : Reachable c base s) (hd : c.deadline < 0)
    (hno : s.main.noBlocking = false) : s.main.pc = .chrecv ∨ s.main.pc = .chrecvWait := by
  have hlaunched := (h.launched hr.tidy).1
  have hres := h.no_conn hr.origin
  have hfail := hr.live.failed hlaunched
  have hnofail : s.main.pc.failed ≠ true := by
    intro hf
    rcases hfail hf with he | he
    · cases hno.symm.trans he
    · omega
  cases hpc : s.main.pc with
  | chrecv => exact .inl rfl
  | chrecvWait => exact .inr rfl
  | start => exact absurd (hr.tidy.absent (.inl hpc)) hlaunched
  | go => exact absurd (hr.tidy.absent (.inr hpc)) hlaunched
  | exit3 r | exit3Wait r | exit2 r | returned r =>
    rw [hpc] at hres hnofail
    cases r with
    | ok conn => cases hres
    | error e => exact absurd rfl hnofail

/-! ## Progress -/

/-- Steps still to be taken, at most, while the rest of the state allows it; a step that does
not suspend counts for two. -/
def MainPc.rank : MainPc → ℕ
  | .start => 12
  | .go => 12
  | .chrecv => 10
  | .chrecvWait => 8
  | .exit3 _ => 6
  | .exit3Wait _ => 4
  | .exit2 _ => 4
  | .returned _ => 0

def CoordinatorPc.rank : CoordinatorPc → ℕ
  | .received _ => 24
  | .useAddress _ _ _ => 22
  | .chrecv => 20
  | .choose => 20
  | .msleep _ _ => 20
  | .chrecvWait _ => 16
  | .chooseWait _ => 16
  | .msleepWait _ => 16
  | .cancel => 14
  | .cancelWait _ => 12
  | .hclose => 10
  | .done => 0
  | _ => 30

def DnsPc.rank : DnsPc → ℕ
  | .leave _ => 6
  | .done _ => 0
  | _ => 10

def St.rank (s : St) : ℕ :=
  s.main.pc.rank + s.coordinator.pc.rank + (s.dns .ipv6).pc.rank + (s.dns .ipv4).pc.rank +
    if s.cur = none then 1 else 0

/-- The call has failed. -/
def Fails (s : St) : Prop := ∃ e, s.main.pc = .returned (.error e)

/-- The call can fail without being canceled. -/
def CanFail (c : Call) : St → Prop := CanReach (St.step c) (fun _ a => a ≠ .cancel) Fails

theorem noBlocking_of_step {a : Act} (hs : Sound s) (ha : a ≠ .cancel)
    (h : s.step c a = .ok s') : s'.main.noBlocking = s.main.noBlocking := by
  have hm := (step_post hs a).of_ok h
  cases a with
  | run x =>
    have hcur : s.cur ≠ none := by
      intro he
      unfold St.step at h
      rw [he] at h
      cases h
    cases hm with
    | cancelWait he => exact absurd he hcur
    | cancel he => exact absurd he hcur
    | crClose w => exact congrArg Main.noBlocking (crClose_main s w)
    | dnsExit => exact congrArg Main.noBlocking (epilogue_main _ _)
    | attemptExit => exact congrArg Main.noBlocking (epilogue_main _ _)
    | _ => rfl
  | resume w =>
    unfold St.step at h
    dsimp only at h
    split at h <;> cases h
    rfl
  | event w =>
    unfold St.step St.event at h
    dsimp only at h
    repeat' split at h
    all_goals cases h
    all_goals rfl
  | timeout w =>
    unfold St.step St.timeout at h
    dsimp only at h
    repeat' split at h
    all_goals cases h
    all_goals rfl
  | tick d =>
    cases h
    rfl
  | cancel => exact absurd rfl ha

/-- A reachable dead end; `b` tells whether the caller was canceled. -/
structure Doomed (c : Call) (base : Finset ℕ) (b : Bool) (s : St) : Prop where
  reachable : Reachable c base s
  deadEnd : DeadEnd s
  noBlocking : s.main.noBlocking = b

theorem Doomed.step {b : Bool} {a : Act} (h : Doomed c base b s) (ha : a ≠ .cancel)
    (hs : s.step c a = .ok s') : Doomed c base b s' := by
  have hsound := h.reachable.tidy.sound
  have hm := (step_post hsound a).of_ok hs
  exact ⟨.step a h.reachable trivial hs, h.deadEnd.move h.reachable.streams.2 hm,
    (noBlocking_of_step hsound ha hs).trans h.noBlocking⟩

/-- Handles that are open can be closed. -/
theorem hclose_ok {l : List ℕ} (h : ∃ M, s.handles.val = (l : Multiset ℕ) + M) :
    ∃ H, s.hclose l = .ok { s with handles := H } := by
  have hstop (l : List ℕ) (s : St) (e : Stop) (he : s.hclose l = .error e) : e = .assert := by
    induction l generalizing s with
    | nil => cases he
    | cons h₀ l ih =>
      unfold St.hclose at he
      split at he
      · exact ih _ he
      · cases he
        rfl
  obtain ⟨M, hM⟩ := h
  have hpost := hclose_post l hM
  cases hs : s.hclose l with
  | error e =>
    rw [hs] at hpost
    cases hpost.symm.trans (hstop l s e hs)
  | ok s' =>
    rw [hs] at hpost
    obtain ⟨H, -, rfl⟩ := hpost
    exact ⟨H, rfl⟩

theorem canceled_rank {pc pc' : CoordinatorPc} (h : pc.canceled = .ok pc') :
    pc'.rank ≤ pc.rank := by
  cases pc <;> cases h <;> first | exact le_rfl | exact Nat.le_of_ble_eq_true rfl

theorem canceled_ok {pc : CoordinatorPc} (h : ∀ w, pc ≠ .cancelWait w) :
    ∃ pc', pc.canceled = .ok pc' := by
  cases pc with
  | cancelWait w => exact absurd rfl (h w)
  | _ => exact ⟨_, rfl⟩

/-- The caller goes on. -/
theorem DeadEnd.connect (h : DeadEnd s) (hr : Reachable c base s) (hcur : s.cur = some .main) :
    ∃ s', s.connect c .none = .ok s' ∧ s'.rank < s.rank := by
  have hlaunched := (h.launched hr.tidy).1
  have hsound := hr.tidy.sound
  have hready : s.main.pc.ready = true := hr.live.awake _ hcur
  have hsilent : ¬ ∃ i < s.attempts.length, s.sending i ≠ none := by
    rintro ⟨i, -, hi⟩
    obtain ⟨conn, hconn⟩ := Option.ne_none_iff_exists'.mp hi
    obtain ⟨t, ht, hpc⟩ := sending_eq hconn
    cases h.attempt ht hpc
  unfold St.connect
  cases hpc : s.main.pc with
  | start => exact absurd (hr.tidy.absent (.inl hpc)) hlaunched
  | go => exact absurd (hr.tidy.absent (.inr hpc)) hlaunched
  | chrecv =>
    dsimp only
    split
    · refine ⟨_, rfl, ?_⟩
      simp [St.rank, hpc, MainPc.rank, hcur]
    · split
      · refine ⟨_, rfl, ?_⟩
        simp [St.rank, hpc, MainPc.rank, hcur]
      · refine ⟨_, rfl, ?_⟩
        simp [St.rank, hpc, MainPc.rank, hcur]
        omega
  | exit3 r =>
    dsimp only
    split
    · obtain ⟨H, hH⟩ := hclose_ok (hsound.coord r hpc)
      rw [hH]
      refine ⟨_, rfl, ?_⟩
      simp [St.rank, hpc, MainPc.rank, hcur]
    · obtain ⟨pc, hk⟩ := canceled_ok fun w => hsound.stop r w hpc
      have hrank := canceled_rank hk
      rw [hk]
      refine ⟨_, rfl, ?_⟩
      simp [St.rank, hpc, MainPc.rank, hcur]
      omega
  | exit2 r =>
    obtain ⟨H, hH⟩ := hclose_ok (hsound.chconns r hpc)
    dsimp only
    rw [hH]
    refine ⟨_, rfl, ?_⟩
    simp [St.rank, hpc, MainPc.rank, hcur]
    omega
  | chrecvWait | exit3Wait | returned =>
    rw [hpc] at hready
    cases hready

theorem crClose_rank (s : St) (w : Who) (f : Fam) :
    ((s.crClose w).dns f).pc.rank ≤ (s.dns f).pc.rank := by
  cases w with
  | dnsquery g =>
    show (Function.update s.dns g _ f).pc.rank ≤ _
    by_cases hf : f = g
    · subst hf
      rw [Function.update_self]
      unfold Dnsquery.close
      cases (s.dns f).pc <;> exact Nat.le_of_ble_eq_true rfl
    · rw [Function.update_of_ne hf]
  | _ => exact le_rfl

/-- The coordinator goes on. -/
theorem DeadEnd.coordinate (h : DeadEnd s) (hr : Reachable c base s)
    (hcur : s.cur = some .coordinator) :
    ∃ s', s.coordinate .none = .ok s' ∧ s'.rank < s.rank := by
  have hsound := hr.tidy.sound
  have hready : s.coordinator.pc.ready = true := hr.live.awake _ hcur
  have hcancel (hk : 14 < s.coordinator.pc.rank) (cls : Fin 2 → Fam) :
      (({ s with coordinator := { s.coordinator with cls := cls } } : St).coordinatorAt
        .cancel).rank < s.rank := by
    have hrank : CoordinatorPc.cancel.rank = 14 := rfl
    simp [St.rank, hcur]
    omega
  have hnosend (f : Fam) (rest : List IpAddr) : (s.dns f).pc ≠ .chsendWait rest := by
    intro he
    rcases h.dns he with hd | hd <;> cases hd
  unfold St.coordinate
  dsimp only
  cases hpc : s.coordinator.pc with
  | start => exact absurd hpc (h.launched hr.tidy).2
  | goIpv6 => rcases h.dns (hr.streams.2.goIpv6 hpc .ipv6) with he | he <;> cases he
  | goIpv4 => rcases h.dns (hr.streams.2.goIpv4 hpc) with he | he <;> cases he
  | chrecv =>
    dsimp only
    split
    · exact ⟨_, rfl, hcancel (by simp [hpc, CoordinatorPc.rank]) _⟩
    · split
      · exact absurd ‹_› (hnosend _ _)
      · refine ⟨_, rfl, ?_⟩
        simp [St.rank, hpc, CoordinatorPc.rank, hcur]
        omega
  | received addr =>
    refine ⟨_, rfl, ?_⟩
    simp [St.rank, hpc, CoordinatorPc.rank, hcur]
  | choose =>
    dsimp only
    split
    · exact ⟨_, rfl, hcancel (by simp [hpc, CoordinatorPc.rank]) _⟩
    · split
      · exact absurd ‹_› (hnosend _ _)
      · exact absurd ‹_› (hnosend _ _)
      · refine ⟨_, rfl, ?_⟩
        simp [St.rank, hpc, CoordinatorPc.rank, hcur]
        omega
  | useAddress idx nw addr =>
    obtain rfl := h.hand hr.streams.2 hpc
    dsimp only
    rw [if_pos ipaddrEqual_nulladdr]
    refine ⟨_, rfl, ?_⟩
    simp [St.rank, hpc, CoordinatorPc.rank, hcur]
  | msleep idx nw =>
    dsimp only
    have hlower (cls : Fin 2 → Fam) :
        (({ s with coordinator := { s.coordinator with cls := cls } } : St).coordinatorAt
          (.msleepWait (nw + 300))).block.rank < s.rank := by
      simp [St.rank, hpc, CoordinatorPc.rank, hcur]
      omega
    split
    · refine ⟨_, rfl, ?_⟩
      split
      · exact hcancel (by simp [hpc, CoordinatorPc.rank]) _
      · exact hcancel (by simp [hpc, CoordinatorPc.rank]) s.coordinator.cls
    · refine ⟨_, rfl, ?_⟩
      split
      · exact hlower _
      · exact hlower s.coordinator.cls
  | cancel =>
    dsimp only
    split
    · rename_i w hw
      refine ⟨_, rfl, ?_⟩
      have h₆ := crClose_rank s w .ipv6
      have h₄ := crClose_rank s w .ipv4
      simp [St.rank, hpc, CoordinatorPc.rank, hcur]
      omega
    · obtain ⟨H, hH⟩ := hclose_ok (hsound.bndl hpc)
      rw [hH]
      refine ⟨_, rfl, ?_⟩
      simp [St.rank, hpc, CoordinatorPc.rank, hcur]
  | hclose =>
    obtain ⟨H, hH⟩ := hclose_ok (hsound.chans hpc)
    dsimp only
    rw [hH]
    cases hm : s.main.pc <;> refine ⟨_, by dsimp [Bind.bind, Except.bind]; rw [hm], ?_⟩
    all_goals
      simp [St.rank, hpc, hm, MainPc.rank, CoordinatorPc.rank, hcur]
      omega
  | absent | chrecvWait | chooseWait | msleepWait | cancelWait | done =>
    rw [hpc] at hready
    cases hready

theorem epilogue_rank (s : St) (w : Who) :
    (s.epilogue w).coordinator.pc.rank ≤ s.coordinator.pc.rank + 2 := by
  unfold St.epilogue
  split
  · rename_i hw
    rw [hw]
    exact le_rfl
  · exact Nat.le_add_right _ _

/-- A query that is left goes on. -/
theorem DeadEnd.dnsquery (h : DeadEnd s) (hr : Reachable c base s) {f : Fam}
    (hcur : s.cur = some (.dnsquery f)) :
    ∃ s', s.dnsquery c f .none = .ok s' ∧ s'.rank < s.rank := by
  have hready : (s.dns f).pc.ready = true := hr.live.awake _ hcur
  have hleave : (s.dns f).pc = .leave true := by
    rcases h.marked f with hpc | hpc
    · exact hpc
    · rw [hpc] at hready
      cases hready
  have hepilogue := epilogue_rank (s.dnsAt f (.done true)) (.dnsquery f)
  unfold St.dnsquery
  rw [hleave]
  refine ⟨_, rfl, ?_⟩
  cases f
  all_goals
    simp [St.rank, hleave, DnsPc.rank, hcur] at hepilogue ⊢
    omega

/-- **The running coroutine goes on.** -/
theorem DeadEnd.run (h : DeadEnd s) (hr : Reachable c base s) {w : Who} (hcur : s.cur = some w) :
    ∃ s', s.step c (.run .none) = .ok s' ∧ s'.rank < s.rank := by
  unfold St.step
  rw [hcur]
  cases w with
  | main => exact h.connect hr hcur
  | coordinator => exact h.coordinate hr hcur
  | dnsquery f => exact h.dnsquery hr hcur
  | attempt i =>
    have hready : (s.attempts[i]?).any (fun a => a.pc.ready) = true := hr.live.awake _ hcur
    cases ht : s.attempts[i]? with
    | none =>
      rw [ht] at hready
      cases hready
    | some t =>
      rw [ht, Option.any_some, (h.ended i t ht).1] at hready
      cases hready

/-- The call has failed, or it waits and has no deadline. -/
def Settled (c : Call) (s : St) : Prop :=
  Fails s ∨ s.cur = none ∧ s.main.pc = .chrecvWait ∧ c.deadline < 0

theorem rank_resume (hcur : s.cur = none) (w : Who) :
    ({ s with cur := some w } : St).rank < s.rank := by
  simp [St.rank, hcur]

/-- What has not ended can be resumed. -/
theorem DeadEnd.ready (h : DeadEnd s) {w : Who} (hw : s.unfinished w = true) :
    s.ready w = true := by
  cases w with
  | dnsquery f =>
    have hf : (!(s.dns f).pc.finished) = true := hw
    show (s.dns f).pc.ready = true
    rcases h.marked f with hpc | hpc
    · rw [hpc]
      rfl
    · rw [hpc] at hf
      cases hf
  | attempt i =>
    have hi : (s.attempts[i]?).any (fun a => a.pc ≠ .done) = true := hw
    cases ht : s.attempts[i]? with
    | none =>
      rw [ht] at hi
      cases hi
    | some t =>
      rw [ht, Option.any_some, (h.ended i t ht).1] at hi
      cases hi
  | main => cases hw
  | coordinator => cases hw

/-- Somebody can be resumed when nobody runs, unless the caller waits or has failed. -/
theorem DeadEnd.idle (h : DeadEnd s) (hr : Reachable c base s) :
    (∃ w, s.ready w = true) ∨ s.main.pc = .chrecvWait ∨ Fails s := by
  have hp := hr.tidy.phase
  cases hpc : s.main.pc with
  | chrecvWait => exact .inr (.inl rfl)
  | returned r =>
    refine .inr (.inr ?_)
    have hres := h.no_conn hr.origin
    rw [hpc] at hres
    cases r with
    | ok conn => cases hres
    | error e => exact ⟨e, hpc⟩
  | exit3Wait r =>
    rw [hpc] at hp
    have hblocked := hr.live.canceled hp.2
    cases hk : s.coordinator.pc with
    | cancelWait w =>
      exact .inl ⟨w, h.ready (hr.live.closing w hk)⟩
    | absent | done =>
      rw [hk] at hp
      rcases hp.1 with he | he <;> cases he
    | chrecvWait | chooseWait | msleepWait =>
      rw [hk] at hblocked
      cases hblocked
    | _ => exact .inl ⟨.coordinator, by unfold St.ready; rw [hk]; rfl⟩
  | _ => exact .inl ⟨.main, by unfold St.ready; rw [hpc]; rfl⟩

/-- A run that nobody cancels comes closer to the end. -/
theorem Doomed.lower {b : Bool} (h : Doomed c base b s) :
    Settled c s ∨ CanReach (St.step c) (fun _ a => a ≠ .cancel) (fun s' => s'.rank < s.rank) s := by
  cases hcur : s.cur with
  | some w =>
    obtain ⟨s', hstep, hrank⟩ := h.deadEnd.run h.reachable hcur
    exact .inr (.one (.run .none) nofun hstep hrank)
  | none =>
    rcases h.deadEnd.idle h.reachable with ⟨w, hw⟩ | hpc | hfails
    · exact .inr (.one (.resume w) nofun (if_pos ⟨hcur, hw⟩) (rank_resume hcur w))
    · by_cases hd : c.deadline < 0
      · exact .inl (.inr ⟨hcur, hpc, hd⟩)
      · -- the clock goes on to the deadline, and the timer fires
        have hfire : St.step c { s with now := s.now + c.deadline.toNat } (.timeout .main) =
            .ok (St.mainAt { s with now := s.now + c.deadline.toNat }
              (.exit3 (.error .ETIMEDOUT))) := by
          unfold St.step St.timeout
          simp only [hcur, hpc]
          have hpast : 0 ≤ c.deadline ∧ c.deadline ≤ ((s.now + c.deadline.toNat : ℕ) : ℤ) := by
            omega
          rw [if_pos trivial, if_pos hpast]
        refine .inr (.step (.tick c.deadline.toNat) nofun rfl
          (.one (.timeout .main) nofun hfire ?_))
        simp [St.rank, hpc, MainPc.rank, hcur]
    · exact .inl (.inl hfails)

/-- A dead end is followed by a failure or by waiting. -/
theorem Doomed.settles {b : Bool} (h : Doomed c base b s) :
    CanReach (St.step c) (fun _ a => a ≠ .cancel) (Settled c) s := by
  refine canReach_of_rank (I := Doomed c base b) St.rank (fun s hs => ?_) h
  refine hs.lower.imp_right fun hl => ?_
  exact hl.keep hs fun _ a _ hI ha hstep => hI.step ha hstep

/-- A caller with a deadline, or canceled, can fail. -/
theorem Doomed.canFail {b : Bool} (h : Doomed c base b s) (hc : 0 ≤ c.deadline ∨ b = true) :
    CanFail c s := by
  refine (h.settles.keep h fun _ a _ hI ha hs => hI.step ha hs).mono (fun _ _ ha => ha) ?_
  rintro s' ⟨hs', hfails | ⟨-, hpc, hd⟩⟩
  · exact hfails
  · rcases hc with hc | rfl
    · omega
    · have hno := (hs'.reachable.live.receiving hpc).1
      cases hno.symm.trans hs'.noBlocking

/-- A caller without a deadline waits as long as nobody cancels it. -/
theorem Doomed.waits (h : Doomed c base false s) (hd : c.deadline < 0) : ¬ CanFail c s := by
  intro hcan
  obtain ⟨s', hs', e, hpc⟩ := (hcan.keep h fun _ a _ hI ha hs => hI.step ha hs).exists
  rcases hs'.deadEnd.stuck hs'.reachable hd hs'.noBlocking with he | he <;> cases he.symm.trans hpc

/-- Without a cancellation a dead end stays one of the same kind. -/
theorem Doomed.reach {b : Bool} (h : Doomed c base b s)
    (hr : Reach (St.step c) (· = s) (fun _ a => a ≠ .cancel) s') : Doomed c base b s' := by
  induction hr with
  | init heq => exact heq ▸ h
  | step a _ ha hs ih => exact ih.step ha hs

/-- **Dead ends.** When both queries have delivered their end marker, and all attempts have ended
and none has connected, the call can still fail: on its own if and only if it has a deadline or
was canceled; without a deadline it waits in `dill_chrecv` until it is canceled. -/
theorem dead_end (h : Reachable c base s) (hd : DeadEnd s) :
    (CanFail c s ↔ 0 ≤ c.deadline ∨ s.main.noBlocking = true) ∧
      CanReach (St.step c) (fun _ _ => True) Fails s ∧
      (c.deadline < 0 → s.main.noBlocking = false → ∀ s',
        Reach (St.step c) (· = s) (fun _ a => a ≠ .cancel) s' →
          s'.main.pc = .chrecv ∨ s'.main.pc = .chrecvWait) := by
  have hs : Doomed c base s.main.noBlocking s := ⟨h, hd, rfl⟩
  refine ⟨⟨fun hcan => ?_, hs.canFail⟩, ?_, fun hlt hno s' hr => ?_⟩
  · by_contra hnot
    obtain ⟨hlt, hno⟩ := not_or.mp hnot
    rw [Bool.eq_false_of_not_eq_true hno] at hs
    exact hs.waits (by omega) hcan
  · refine ((hs.settles.keep hs fun _ a _ hI ha hs => hI.step ha hs).mono (fun _ _ _ => trivial)
      fun _ h => h).trans ?_
    rintro s' ⟨hs', hfails | ⟨hcur, hpc, -⟩⟩
    · exact .here hfails
    · have hno := (hs'.reachable.live.receiving hpc).1
      have hstep : s'.step c .cancel = .ok { s' with
          main := { s'.main with pc := .exit3 (.error .ECANCELED), noBlocking := true } } := by
        unfold St.step St.cancel
        simp only [hcur, hpc, hno]
        rfl
      have hdoomed : Doomed c base true { s' with
          main := { s'.main with pc := .exit3 (.error .ECANCELED), noBlocking := true } } :=
        ⟨.step _ hs'.reachable trivial hstep, ⟨hs'.deadEnd.marked, hs'.deadEnd.ended⟩, rfl⟩
      exact .step _ trivial hstep ((hdoomed.canFail (.inr rfl)).mono (fun _ _ _ => trivial)
        fun _ h => h)
  · have hs' := hs.reach hr
    exact hs'.deadEnd.stuck hs'.reachable hlt (hs'.noBlocking.trans hno)

/-- The only address cannot be connected to, and the other query finds none. -/
def attemptsFail : List Act :=
  [.run (.handles [0, 1]), .run (.handles [2]), .run (.handles [3, 4, 5, 6, 7]), .run .none,
    .run .block, .resume .main, .run .none, .resume .coordinator, .run .none, .run .block,
    .resume .coordinator, .run .none, .event (.dnsquery .ipv6), .resume (.dnsquery .ipv6),
    .run (.answers [.inet6 1 80]), .run .none, .run .none, .resume .coordinator, .run .none,
    .run .none, .run (.conn none), .run .none, .resume .coordinator, .run .none, .tick 300,
    .timeout .coordinator, .resume .coordinator, .run .none, .run .none, .run .none,
    .resume (.dnsquery .ipv6), .run .none, .event (.dnsquery .ipv4), .resume (.dnsquery .ipv4),
    .run (.answers []), .run .none, .run .none, .resume .coordinator, .run .none, .run .none]

/-- The run that `attemptsFail` describes ends in a dead end. -/
theorem attemptsFail_deadEnd {c : Call} (h : runsTo (St.step c) .entered attemptsFail (fun s =>
    !s.main.noBlocking && (s.dns .ipv6).pc = .done true && (s.dns .ipv4).pc = .done true &&
      s.attempts.all fun t => t.pc = .done ∧ t.conn = none) = true) :
    ∃ s, Reachable c {100} s ∧ DeadEnd s ∧ s.main.noBlocking = false := by
  obtain ⟨s, hrun, htest⟩ := exists_of_runsTo _ _ _ _ h
  simp only [Bool.and_eq_true, decide_eq_true_eq, List.all_eq_true, Bool.not_eq_true'] at htest
  obtain ⟨⟨⟨hno, h₆⟩, h₄⟩, hall⟩ := htest
  refine ⟨s, reach_of_run (fun _ _ => trivial) (.init St.entered_init) hrun, ⟨?_, ?_⟩, hno⟩
  · rintro (_ | _)
    · exact .inr h₆
    · exact .inr h₄
  · exact fun i t ht => hall t (List.mem_of_getElem? ht)

/-- With a deadline it fails. -/
theorem dead_end_attemptsFail : ∃ s, Reachable ⟨some "www.example.org", 80, 1000⟩ {100} s ∧
    DeadEnd s ∧ CanFail ⟨some "www.example.org", 80, 1000⟩ s := by
  obtain ⟨s, hreach, hdead, -⟩ :=
    attemptsFail_deadEnd (c := ⟨some "www.example.org", 80, 1000⟩) (by decide)
  exact ⟨s, hreach, hdead, (dead_end hreach hdead).1.mpr (.inl (by decide))⟩

/-- Without a deadline the call is stuck at the end of this run. -/
theorem attemptsFail_waits : ∃ s, Reachable ⟨some "www.example.org", 80, -1⟩ {100} s ∧
    DeadEnd s ∧ s.main.noBlocking = false ∧ ¬ CanFail ⟨some "www.example.org", 80, -1⟩ s := by
  obtain ⟨s, hreach, hdead, hno⟩ :=
    attemptsFail_deadEnd (c := ⟨some "www.example.org", 80, -1⟩) (by decide)
  exact ⟨s, hreach, hdead, hno, Doomed.waits ⟨hreach, hdead, hno⟩ (by decide)⟩

end Libdill.Happyeyeballs
