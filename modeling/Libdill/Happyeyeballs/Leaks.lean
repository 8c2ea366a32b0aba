import Libdill.Happyeyeballs.Steps
import Mathlib.Algebra.Order.Group.Multiset
import Mathlib.Algebra.BigOperators.Group.List.Basic
import Mathlib.Tactic.Abel

/-!
# Happy Eyeballs leaks nothing

The open handles are the ones from before the call and what its coroutines hold, and the caller
is done with the coordinator, and the coordinator with its bundle, before they go on. So when the
call returns, nothing is open but what it returns, and nothing that it launched is left.
-/

namespace Libdill.Happyeyeballs

open Foundations
open Libdill.Sched (Errno)

variable {c : Call} {s s' : St} {base : Finset ℕ}

/-! ## What the coroutines hold -/

/-- The connection the call is about to return. -/
def resHeld : Except Errno ℕ → Multiset ℕ
  | .ok conn => ([conn] : List ℕ)
  | .error _ => 0

def Main.chans (m : Main) : Multiset ℕ := ([m.chconns.1, m.chconns.2] : List ℕ)

def Main.held (m : Main) : Multiset ℕ :=
  match m.pc with
  | .start => 0
  | .go => m.chans
  | .chrecv => ([m.coord] : List ℕ) + m.chans
  | .chrecvWait => ([m.coord] : List ℕ) + m.chans
  | .exit3 r => ([m.coord] : List ℕ) + m.chans + resHeld r
  | .exit3Wait r => ([m.coord] : List ℕ) + m.chans + resHeld r
  | .exit2 r => m.chans + resHeld r
  | .returned r => resHeld r

def Coordinator.chans (k : Coordinator) : Multiset ℕ :=
  ([k.chipv4.1, k.chipv4.2, k.chipv6.1, k.chipv6.2] : List ℕ)

def Coordinator.held (k : Coordinator) : Multiset ℕ :=
  match k.pc with
  | .absent => 0
  | .start => 0
  | .hclose => k.chans
  | .done => 0
  | _ => ([k.bndl] : List ℕ) + k.chans

def Attempt.held (t : Attempt) : Multiset ℕ :=
  match t.pc with
  | .chsend conn => ([conn] : List ℕ)
  | .chsendWait conn => ([conn] : List ℕ)
  | .hclose conn => ([conn] : List ℕ)
  | _ => 0

/-- What the attempts hold. -/
def attemptsHeld (l : List Attempt) : Multiset ℕ := (l.map Attempt.held).sum

/-- What the coroutines hold. -/
def St.held (s : St) : Multiset ℕ := s.main.held + s.coordinator.held + attemptsHeld s.attempts

/-- One attempt changes. -/
theorem attemptsHeld_modify {l : List Attempt} {i : ℕ} {t : Attempt} (ht : l[i]? = some t)
    (f : Attempt → Attempt) :
    attemptsHeld (l.modify i f) + t.held = attemptsHeld l + (f t).held := by
  induction l generalizing i with
  | nil => cases ht
  | cons a l ih =>
    cases i with
    | zero =>
      cases ht
      simp only [attemptsHeld, List.modify_zero_cons, List.map_cons, List.sum_cons]
      abel
    | succ i =>
      have h := ih ht
      simp only [attemptsHeld, List.modify_succ_cons, List.map_cons, List.sum_cons] at h ⊢
      rw [add_assoc, h, add_assoc]

theorem attemptsHeld_modify_eq {l : List Attempt} {i : ℕ} {t : Attempt} (ht : l[i]? = some t)
    {f : Attempt → Attempt} (hf : (f t).held = t.held) :
    attemptsHeld (l.modify i f) = attemptsHeld l := by
  have h := attemptsHeld_modify ht f
  rw [hf] at h
  exact add_right_cancel h

/-! ## Phases -/

/-- How far the coordinator is. -/
inductive Stage
  | absent
  | start
  | working
  | closing
  | done
  deriving DecidableEq

def CoordinatorPc.stage : CoordinatorPc → Stage
  | .absent => .absent
  | .start => .start
  | .cancel => .closing
  | .cancelWait _ => .closing
  | .hclose => .closing
  | .done => .done
  | _ => .working

/-- How the caller and the coordinator fit together. -/
def Phase (m : MainPc) (g : Stage) (noBlocking : Bool) : Prop :=
  match m with
  | .start => g = .absent
  | .go => g = .absent
  | .chrecv => (g = .start ∨ g = .working) ∧ noBlocking = false
  | .chrecvWait => (g = .start ∨ g = .working) ∧ noBlocking = false
  | .exit3 _ => ((g = .start ∨ g = .working) ∧ noBlocking = false) ∨ g = .done
  | .exit3Wait _ => (g = .working ∨ g = .closing) ∧ noBlocking = true
  | .exit2 _ => g = .absent ∨ g = .done
  | .returned _ => g = .absent ∨ g = .done

/-- The coordinator is past its bundle. -/
def Late (s : St) : Prop := s.coordinator.pc = .hclose ∨ s.coordinator.pc = .done

/-- Everything the coordinator launched has ended. -/
def Ended (s : St) : Prop :=
  (∀ f, (s.dns f).pc.finished = true) ∧
    ∀ (i : ℕ) (t : Attempt), s.attempts[i]? = some t → t.pc = .done

/-- **The invariant.** -/
structure Tidy (base : Finset ℕ) (s : St) : Prop where
  handles : s.handles.val = base.val + s.held
  phase : Phase s.main.pc s.coordinator.pc.stage s.coordinator.noBlocking
  /-- The coordinator starts at once. -/
  start : s.coordinator.pc = .start → s.cur = some .coordinator
  early : s.coordinator.pc = .absent ∨ s.coordinator.pc = .start →
    (∀ f, (s.dns f).pc = .absent) ∧ s.attempts = []
  late : Late s → Ended s

theorem Tidy.sound (h : Tidy base s) : Sound s where
  start hpc := by
    have hp := h.phase
    rw [hpc] at hp
    cases hm : s.main.pc <;> simp_all [Phase, CoordinatorPc.stage]
  stop r w hpc hw := by
    have hp := h.phase
    rw [hpc, hw] at hp
    simp [Phase, CoordinatorPc.stage] at hp
  coord r hpc := by
    rw [h.handles]
    simp only [St.held, Main.held, hpc]
    exact ⟨base.val + (s.main.chans + resHeld r + s.coordinator.held + attemptsHeld s.attempts),
      by abel⟩
  chconns r hpc := by
    rw [h.handles]
    simp only [St.held, Main.held, hpc]
    exact ⟨base.val + (resHeld r + s.coordinator.held + attemptsHeld s.attempts),
      by rw [Main.chans]; abel⟩
  bndl hpc := by
    rw [h.handles]
    simp only [St.held, Coordinator.held, hpc]
    exact ⟨base.val + (s.main.held + s.coordinator.chans + attemptsHeld s.attempts), by abel⟩
  chans hpc := by
    rw [h.handles]
    simp only [St.held, Coordinator.held, hpc]
    exact ⟨base.val + (s.main.held + attemptsHeld s.attempts), by rw [Coordinator.chans]; abel⟩
  conn i conn t ht hpc := by
    have hmod := attemptsHeld_modify ht fun a => { a with pc := .leave }
    have hheld : t.held = (([conn] : List ℕ) : Multiset ℕ) := by
      rw [Attempt.held, hpc]
    rw [h.handles]
    refine ⟨base.val + (s.main.held + s.coordinator.held +
      attemptsHeld (s.attempts.modify i fun a => { a with pc := .leave })), ?_⟩
    rw [← hheld, St.held]
    have : attemptsHeld s.attempts = attemptsHeld (s.attempts.modify i fun a =>
      { a with pc := .leave }) + t.held := by
      rw [hmod]
      exact (add_zero _).symm
    rw [this]
    abel

/-- The coordinator is launched when the caller has made the channel. -/
theorem Tidy.absent (h : Tidy base s) (hpc : s.main.pc = .start ∨ s.main.pc = .go) :
    s.coordinator.pc = .absent := by
  have hp := h.phase
  rcases hpc with hpc | hpc <;> rw [hpc] at hp <;>
    cases hk : s.coordinator.pc <;> rw [hk] at hp <;> first | rfl | cases hp

/-! ## Moves -/

@[simp] theorem epilogue_stage (s : St) (w : Who) :
    (s.epilogue w).coordinator.pc.stage = s.coordinator.pc.stage := by
  unfold St.epilogue
  split
  · rename_i h
    rw [h]
    rfl
  · rfl

@[simp] theorem epilogue_noBlocking (s : St) (w : Who) :
    (s.epilogue w).coordinator.noBlocking = s.coordinator.noBlocking := by
  unfold St.epilogue
  split <;> rfl

@[simp] theorem epilogue_main (s : St) (w : Who) : (s.epilogue w).main = s.main := by
  unfold St.epilogue
  split <;> rfl

@[simp] theorem crClose_main (s : St) (w : Who) : (s.crClose w).main = s.main := by
  cases w <;> rfl

@[simp] theorem crClose_coordinator (s : St) (w : Who) :
    (s.crClose w).coordinator = s.coordinator := by
  cases w <;> rfl

theorem receive_stage {k : Coordinator} {f : Fam} {addr : IpAddr} {pc : CoordinatorPc}
    (h : k.receive f addr = some pc) : k.pc.stage = .working ∧ pc.stage = .working := by
  unfold Coordinator.receive at h
  split at h
  · rename_i hpc
    split at h
    · cases h
      exact ⟨by rw [hpc]; rfl, rfl⟩
    · cases h
  · rename_i hpc
    obtain ⟨idx, -, rfl⟩ := Option.map_eq_some_iff.mp h
    exact ⟨by rw [hpc]; rfl, rfl⟩
  · cases h

theorem ready_stage {pc : CoordinatorPc} (h : pc.ready = true) (h₁ : pc ≠ .start)
    (h₂ : pc ≠ .hclose) : pc.stage = .working ∨ pc.stage = .closing := by
  cases pc <;>
    first
    | exact .inl rfl
    | exact .inr rfl
    | exact absurd rfl h₁
    | exact absurd rfl h₂
    | cases h

theorem Phase.working {m : MainPc} {b : Bool} (h : Phase m .start b) : Phase m .working b := by
  cases m <;> simp_all [Phase]

theorem Phase.closing {m : MainPc} {g : Stage} (h : Phase m g true)
    (hg : g = .working ∨ g = .closing) : Phase m .closing true := by
  rcases hg with rfl | rfl <;> cases m <;> simp_all [Phase]

/-- Only a caller that waits for it closes the coordinator. -/
theorem Phase.exit3Wait {m : MainPc} {b : Bool} (h : Phase m .closing b) :
    ∃ r, m = .exit3Wait r := by
  cases m <;> simp_all [Phase]

theorem Phase.stop {r : Except Errno ℕ} {pc pc' : CoordinatorPc} {b : Bool}
    (h : Phase (.exit3 r) pc.stage b) (hstart : pc ≠ .start) (hdone : pc ≠ .done)
    (hk : pc.canceled = .ok pc') : Phase (.exit3Wait r) pc'.stage true := by
  cases pc <;> cases hk <;> simp_all [Phase, CoordinatorPc.stage]

theorem Tidy.phase_move (h : Tidy base s) (hm : Move c s s') :
    Phase s'.main.pc s'.coordinator.pc.stage s'.coordinator.noBlocking := by
  have hp := h.phase
  cases hm with
  | start h₀ h₁ h₂ h₃ h₄ H hcur hpc =>
    rw [hpc] at hp
    exact Phase.working hp
  | canceled hcur hready h₁ h₂ hno cls hcls =>
    rw [hno] at hp
    show Phase s.main.pc .closing s.coordinator.noBlocking
    rw [hno]
    exact hp.closing (ready_stage hready h₁ h₂)
  | stop r pc hcur hpc hdone hk =>
    rw [hpc] at hp
    have hstart : s.coordinator.pc ≠ .start := by
      intro he
      have := h.start he
      rw [hcur] at this
      cases this
    exact hp.stop hstart hdone hk
  | close H hcur hpc hne =>
    rw [hpc] at hp
    obtain ⟨r, hr⟩ := hp.exit3Wait
    exact absurd hr (hne r)
  | send f rest pc hcur hpc hrecv =>
    obtain ⟨h₁, h₂⟩ := receive_stage hrecv
    rw [h₁] at hp
    show Phase s.main.pc pc.stage s.coordinator.noBlocking
    rw [h₂]
    exact hp
  | dnsExit f marked =>
    simpa using hp
  | attemptExit i t => simpa using hp
  | _ => simp_all [Phase, CoordinatorPc.stage]

theorem epilogue_pc {s : St} {w : Who} {pc : CoordinatorPc} (hpc : pc ≠ .cancel)
    (h : (s.epilogue w).coordinator.pc = pc) : s.coordinator.pc = pc := by
  unfold St.epilogue at h
  split at h
  · exact absurd h.symm hpc
  · exact h

theorem canceled_pc {pc pc' : CoordinatorPc} (h : pc.canceled = .ok pc') :
    pc' = pc ∨ pc' = .cancel := by
  cases pc <;> cases h <;> first | exact .inl rfl | exact .inr rfl

@[simp] theorem epilogue_dns (s : St) (w : Who) : (s.epilogue w).dns = s.dns := by
  unfold St.epilogue
  split <;> rfl

@[simp] theorem epilogue_attempts (s : St) (w : Who) :
    (s.epilogue w).attempts = s.attempts := by
  unfold St.epilogue
  split <;> rfl

@[simp] theorem epilogue_handles (s : St) (w : Who) :
    (s.epilogue w).handles = s.handles := by
  unfold St.epilogue
  split <;> rfl

theorem Tidy.start_move (h : Tidy base s) (hm : Move c s s') (hpc' : s'.coordinator.pc = .start) :
    s'.cur = some .coordinator := by
  have hs := h.start
  cases hm with
  | stop r pc hcur hm hdone hk =>
    rcases canceled_pc hk with he | he
    · have := hs (he.symm.trans hpc')
      rw [hcur] at this
      cases this
    · cases he.symm.trans hpc'
  | send f rest pc hcur hpc hrecv =>
    have hstage := (receive_stage hrecv).2
    rw [show pc = .start from hpc'] at hstage
    cases hstage
  | dnsExit f marked hcur hd =>
    have := hs (epilogue_pc (s := s.dnsAt f (.done marked)) nofun hpc')
    rw [hcur] at this
    cases this
  | attemptExit i t hcur ht hd =>
    have := hs (epilogue_pc (s := s.attemptAt i .done) nofun hpc')
    rw [hcur] at this
    cases this
  | _ => simp_all

theorem ended_of_find (h : s.members.find? s.unfinished = none) : Ended s := by
  rw [List.find?_eq_none] at h
  constructor
  · intro f
    have hmem : Who.dnsquery f ∈ s.members := by
      cases f
      · exact List.mem_cons_self
      · exact List.mem_cons_of_mem _ List.mem_cons_self
    simpa [St.unfinished] using h _ hmem
  · intro i t ht
    have hi : i < s.attempts.length := (List.getElem?_eq_some_iff.mp ht).1
    have hmem : Who.attempt i ∈ s.members :=
      List.mem_cons_of_mem _ (List.mem_cons_of_mem _
        (List.mem_map_of_mem (List.mem_range.mpr hi)))
    simpa [St.unfinished, ht] using h _ hmem

theorem Late.move (hl : Late s → Ended s) (hm : Move c s s') (hl' : Late s') : Ended s' := by
  have hdns {f : Fam} {pc : DnsPc} (hpc : (s.dns f).pc = pc) (hlate : Late s) :
      pc.finished = true := hpc ▸ (hl hlate).1 f
  have hatt {i : ℕ} {t : Attempt} {pc : AttemptPc} (ht : s.attempts[i]? = some t) (hpc : t.pc = pc)
      (hlate : Late s) : pc = .done := hpc ▸ (hl hlate).2 i t ht
  cases hm with
  | recvTake i t conn hcur hpc ht htpc => cases hatt ht htpc hl'
  | stop r pc hcur hm hdone hk =>
    rcases canceled_pc hk with he | he
    · subst he
      exact hl hl'
    · rcases hl' with h | h <;> cases he.symm.trans h
  | goIpv6 => rcases hl' with h | h <;> cases h
  | goIpv4 => rcases hl' with h | h <;> cases h
  | chrecvTake => rcases hl' with h | h <;> cases h
  | chooseTake => rcases hl' with h | h <;> cases h
  | useAddress => rcases hl' with h | h <;> cases h
  | crClose => rcases hl' with h | h <;> cases h
  | bundleClosed H hcur hpc hnone => exact ended_of_find hnone
  | closeWake r H hcur hpc => exact hl (.inl hpc)
  | close H hcur hpc => exact hl (.inl hpc)
  | remotesWait f hcur hpc => cases hdns hpc hl'
  | answers f l hcur hpc => cases hdns hpc hl'
  | sendCanceled f rest hcur hpc => cases hdns hpc hl'
  | send f rest pc hcur hpc hrecv =>
    have hstage := (receive_stage hrecv).2
    rcases hl' with h | h
    all_goals
      rw [show pc = _ from h] at hstage
      cases hstage
  | sendWait f rest hcur hpc => cases hdns hpc hl'
  | dnsExit f marked hcur hpc =>
    cases hdns hpc (hl'.imp (epilogue_pc (s := s.dnsAt f (.done marked)) nofun)
        (epilogue_pc (s := s.dnsAt f (.done marked)) nofun))
  | connectWait i t hcur ht hpc => cases hatt ht hpc hl'
  | connectFails i t hcur ht hpc => cases hatt ht hpc hl'
  | connects i t h H hcur ht hpc => cases hatt ht hpc hl'
  | connCanceled i t conn hcur ht hpc => cases hatt ht hpc hl'
  | connSend i t conn hcur ht hpc => cases hatt ht hpc hl'
  | connWait i t conn hcur ht hpc => cases hatt ht hpc hl'
  | connClose i t conn H hcur ht hpc => cases hatt ht hpc hl'
  | attemptExit i t hcur ht hpc =>
    cases hatt ht hpc (hl'.imp (epilogue_pc (s := s.attemptAt i .done) nofun)
        (epilogue_pc (s := s.attemptAt i .done) nofun))
  | eventDns f hcur hpc => cases hdns hpc hl'
  | eventAttempt i t hcur ht hpc => cases hatt ht hpc hl'
  | _ =>
    first
    | exact hl hl'
    | rcases hl' with h | h <;> cases h

theorem Tidy.early_move (h : Tidy base s) (hm : Move c s s')
    (hpc' : s'.coordinator.pc = .absent ∨ s'.coordinator.pc = .start) :
    (∀ f, (s'.dns f).pc = .absent) ∧ s'.attempts = [] := by
  have he := h.early
  cases hm with
  | go e H hcur hpc => exact he (.inl (h.absent (.inr hpc)))
  | stop r pc hcur hm hdone hk =>
    rcases canceled_pc hk with heq | heq
    · rw [heq] at hpc'
      exact he hpc'
    · rw [heq] at hpc'
      rcases hpc' with h | h <;> cases h
  | send f rest pc hcur hpc hrecv =>
    have hstage := (receive_stage hrecv).2
    rcases hpc' with h | h
    all_goals
      rw [show pc = _ from h] at hstage
      cases hstage
  | dnsExit f marked hcur hd =>
    have hpc : s.coordinator.pc = .absent ∨ s.coordinator.pc = .start :=
      hpc'.imp (epilogue_pc (s := s.dnsAt f (.done marked)) nofun)
        (epilogue_pc (s := s.dnsAt f (.done marked)) nofun)
    have := (he hpc).1 f
    rw [hd] at this
    cases this
  | attemptExit i t hcur ht hd =>
    have hpc : s.coordinator.pc = .absent ∨ s.coordinator.pc = .start :=
      hpc'.imp (epilogue_pc (s := s.attemptAt i .done) nofun)
        (epilogue_pc (s := s.attemptAt i .done) nofun)
    rw [(he hpc).2] at ht
    cases ht
  | _ => simp_all

theorem receive_held {k : Coordinator} {f : Fam} {addr : IpAddr} {pc : CoordinatorPc}
    (h : k.receive f addr = some pc) : Coordinator.held { k with pc := pc } = k.held := by
  unfold Coordinator.receive at h
  split at h
  · rename_i hpc
    split at h
    · cases h
      simp [Coordinator.held, hpc, Coordinator.chans]
    · cases h
  · rename_i hpc
    obtain ⟨idx, -, rfl⟩ := Option.map_eq_some_iff.mp h
    simp [Coordinator.held, hpc, Coordinator.chans]
  · cases h

@[simp] theorem epilogue_held (s : St) (w : Who) :
    (s.epilogue w).coordinator.held = s.coordinator.held := by
  unfold St.epilogue
  split
  · rename_i h
    simp [Coordinator.held, Coordinator.chans, h]
  · rfl

theorem canceled_held {k : Coordinator} {pc : CoordinatorPc} (h : k.pc.canceled = .ok pc)
    (b : Bool) : Coordinator.held { k with pc := pc, noBlocking := b } = k.held := by
  cases hk : k.pc <;> rw [hk] at h <;> cases h <;> simp [Coordinator.held, Coordinator.chans, hk]

theorem ready_held {k : Coordinator} (h : k.pc.ready = true) (h₁ : k.pc ≠ .start)
    (h₂ : k.pc ≠ .hclose) : k.held = ([k.bndl] : List ℕ) + k.chans := by
  cases hk : k.pc <;> simp_all [Coordinator.held, CoordinatorPc.ready]

theorem close_held (t : Attempt) : t.close.held = t.held := by
  cases h : t.pc <;> simp [Attempt.close, Attempt.held, AttemptPc.canceled, h]

/-- What a step opens and closes. -/
def Ledger (s s' : St) (opened closed : Multiset ℕ) : Prop :=
  s'.handles.val + closed = s.handles.val + opened ∧ s'.held + closed = s.held + opened

theorem Ledger.kept (hh : s'.handles = s.handles) (hheld : s'.held = s.held) : Ledger s s' 0 0 := by
  constructor
  · rw [hh]
  · rw [hheld]

theorem Ledger.opens {H : Finset ℕ} {L : Multiset ℕ} (hH : H.val = L + s.handles.val)
    (hh : s'.handles = H) (hheld : s'.held = s.held + L) : Ledger s s' L 0 := by
  constructor
  · rw [hh, hH, add_zero, add_comm]
  · rw [hheld, add_zero]

theorem Ledger.closes {H : Finset ℕ} {L : Multiset ℕ} (hH : s.handles.val = L + H.val)
    (hh : s'.handles = H) (hheld : s'.held + L = s.held) : Ledger s s' 0 L := by
  constructor
  · rw [hh, hH, add_zero, add_comm]
  · rw [hheld, add_zero]

/-- An attempt goes on and holds what it held. -/
theorem attempt_kept {i : ℕ} {t : Attempt} (ht : s.attempts[i]? = some t)
    {f : Attempt → Attempt} (hf : (f t).held = t.held) :
    Ledger s { s with attempts := s.attempts.modify i f } 0 0 := by
  refine .kept rfl ?_
  simp only [St.held, attemptsHeld_modify_eq ht hf]

/-- An attempt that leaves gives up its connection. -/
theorem attempt_gives {i conn : ℕ} {t : Attempt} (ht : s.attempts[i]? = some t)
    (hpc : t.pc = .chsendWait conn ∨ t.pc = .chsend conn ∨ t.pc = .hclose conn) :
    attemptsHeld (s.attempts.modify i fun a => { a with pc := .leave }) +
      (([conn] : List ℕ) : Multiset ℕ) = attemptsHeld s.attempts := by
  have hmod := attemptsHeld_modify ht fun a => { a with pc := .leave }
  have hheld : t.held = (([conn] : List ℕ) : Multiset ℕ) := by
    rcases hpc with hpc | hpc | hpc <;> rw [Attempt.held, hpc]
  rw [← hheld, hmod]
  exact add_zero _

@[simp] theorem crClose_handles (s : St) (w : Who) : (s.crClose w).handles = s.handles := by
  cases w <;> rfl

theorem crClose_attemptsHeld (s : St) (w : Who) :
    attemptsHeld (s.crClose w).attempts = attemptsHeld s.attempts := by
  cases w with
  | attempt i =>
    cases ht : s.attempts[i]? with
    | none =>
      have : s.attempts.modify i Attempt.close = s.attempts := by
        apply List.modify_eq_self
        simpa using ht
      exact congrArg attemptsHeld this
    | some t => exact attemptsHeld_modify_eq ht (close_held t)
  | _ => rfl

theorem Tidy.ledger (h : Tidy base s) (hm : Move c s s') :
    ∃ opened closed, Ledger s s' opened closed := by
  cases hm with
  | chmake h₀ h₁ H hcur hpc hport hH =>
    refine ⟨_, _, .opens hH rfl ?_⟩
    simp only [St.held, Main.held, Main.chans, hpc]
    abel
  | go h₀ H hcur hpc hH =>
    have hk := h.absent (.inr hpc)
    refine ⟨_, _, .opens hH rfl ?_⟩
    simp only [St.held, Main.held, Main.chans, hpc, Coordinator.held, hk]
    abel
  | stop r pc hcur hpc hdone hk =>
    refine ⟨0, 0, .kept rfl ?_⟩
    have := canceled_held hk true
    simp_all [St.held, Main.held, Main.chans]
  | stopped r H hcur hpc hdone hH =>
    refine ⟨_, _, .closes hH rfl ?_⟩
    simp only [St.held, Main.held, Main.chans, hpc, St.mainAt]
    abel
  | «return» r H hcur hpc hH =>
    refine ⟨_, _, .closes hH rfl ?_⟩
    simp only [St.held, Main.held, Main.chans, hpc, St.mainAt, St.block]
    abel
  | start h₀ h₁ h₂ h₃ h₄ H hcur hpc hH =>
    refine ⟨_, _, .opens hH rfl ?_⟩
    simp only [St.held, Coordinator.held, Coordinator.chans, hpc, ← Multiset.cons_coe,
      ← Multiset.singleton_add, Multiset.coe_nil]
    abel
  | useAddress idx nw addr hcur hpc =>
    refine ⟨0, 0, .kept rfl ?_⟩
    simp [St.held, Coordinator.held, Coordinator.chans, hpc, attemptsHeld, Attempt.held]
  | canceled hcur hready h₁ h₂ hno cls hcls =>
    refine ⟨0, 0, .kept rfl ?_⟩
    simp only [St.held, ready_held hready h₁ h₂]
    rfl
  | bundleClosed H hcur hpc hall hH =>
    refine ⟨_, _, .closes hH rfl ?_⟩
    simp only [St.held, Coordinator.held, hpc, St.coordinatorAt, Coordinator.chans]
    abel
  | closeWake r H hcur hpc hmain hH =>
    refine ⟨_, _, .closes hH rfl ?_⟩
    simp only [St.held, Main.held, Main.chans, hmain, Coordinator.held, hpc, St.coordinatorAt,
      St.mainAt, St.block]
    abel
  | close H hcur hpc hmain hH =>
    refine ⟨_, _, .closes hH rfl ?_⟩
    simp only [St.held, Coordinator.held, hpc, St.coordinatorAt, St.block]
    abel
  | send f rest pc hcur hpc hrecv =>
    refine ⟨0, 0, .kept rfl ?_⟩
    have := receive_held hrecv
    simp_all [St.held]
  | dnsExit f marked hcur hd =>
    refine ⟨0, 0, .kept (epilogue_handles _ _) ?_⟩
    show (St.epilogue _ _).held = _
    simp only [St.held, epilogue_held, epilogue_main, epilogue_attempts, St.dnsAt]
  | attemptExit i t hcur ht hpc =>
    refine ⟨0, 0, .kept (epilogue_handles _ _) ?_⟩
    have hmod := attemptsHeld_modify_eq ht (f := fun a => { a with pc := .done })
      (by simp [Attempt.held, hpc])
    show (St.epilogue _ _).held = _
    simp only [St.held, epilogue_held, epilogue_main, epilogue_attempts, St.attemptAt, hmod]
  | recvTake i t conn hcur hpc ht htpc =>
    refine ⟨0, 0, .kept rfl ?_⟩
    have hmod := attempt_gives ht (.inl htpc)
    simp only [St.held, Main.held, hpc, resHeld, St.mainAt, St.attemptAt, Main.chans, ← hmod]
    abel
  | crClose w hcur hpc hw =>
    refine ⟨0, 0, .kept (crClose_handles _ _) ?_⟩
    show St.held _ = _
    simp only [St.held, St.coordinatorAt, St.block, crClose_main, crClose_coordinator,
      crClose_attemptsHeld, Coordinator.held, hpc, Coordinator.chans]
  | connectWait i t hcur ht hpc =>
    exact ⟨0, 0, attempt_kept ht (by simp [Attempt.held, hpc])⟩
  | connectFails i t hcur ht hpc =>
    exact ⟨0, 0, attempt_kept ht (by simp [Attempt.held, hpc])⟩
  | connects i t conn H hcur ht hpc hH =>
    have hmod := attemptsHeld_modify ht fun a => { a with pc := .chsend conn, conn := some conn }
    refine ⟨_, _, .opens hH rfl ?_⟩
    have hheld : t.held = 0 := by rw [Attempt.held, hpc]
    rw [hheld] at hmod
    simp only [add_zero] at hmod
    simp only [St.held, hmod, Attempt.held]
    abel
  | connCanceled i t conn hcur ht hpc =>
    exact ⟨0, 0, attempt_kept ht (by simp [Attempt.held, hpc])⟩
  | connSend i t conn hcur ht hpc hmain =>
    refine ⟨0, 0, .kept rfl ?_⟩
    have hmod := attempt_gives ht (.inr (.inl hpc))
    simp only [St.held, Main.held, hmain, resHeld, St.mainAt, St.attemptAt, Main.chans, ← hmod]
    abel
  | connWait i t conn hcur ht hpc =>
    exact ⟨0, 0, attempt_kept ht (by simp [Attempt.held, hpc])⟩
  | connClose i t conn H hcur ht hpc hH =>
    refine ⟨_, _, .closes hH rfl ?_⟩
    have hmod := attempt_gives ht (.inr (.inr hpc))
    simp only [St.held, St.attemptAt, ← hmod]
    abel
  | eventAttempt i t hcur ht hpc =>
    exact ⟨0, 0, attempt_kept ht (by simp [Attempt.held, hpc])⟩
  | _ =>
    refine ⟨0, 0, .kept rfl ?_⟩
    simp_all [St.held, Main.held, Coordinator.held, resHeld, Main.chans, Coordinator.chans]

theorem Tidy.handles_move (h : Tidy base s) (hm : Move c s s') :
    s'.handles.val = base.val + s'.held := by
  obtain ⟨opened, closed, h₁, h₂⟩ := h.ledger hm
  refine add_right_cancel (b := closed) ?_
  rw [h₁, h.handles, add_assoc, add_assoc, h₂]

/-! ## The returned connection -/

/-- The connection the caller will return. -/
def MainPc.res : MainPc → Option ℕ
  | .exit3 r => r.toOption
  | .exit3Wait r => r.toOption
  | .exit2 r => r.toOption
  | .returned r => r.toOption
  | _ => none

/-- The connection the attempt still has. -/
def AttemptPc.conn : AttemptPc → Option ℕ
  | .chsend conn => some conn
  | .chsendWait conn => some conn
  | .hclose conn => some conn
  | _ => none

def AttemptPc.left : AttemptPc → Bool
  | .leave => true
  | .done => true
  | _ => false

/-- The attempt has the connection it opened. -/
def Attempt.Own (t : Attempt) : Prop := ∀ h, t.pc.conn = some h → t.conn = some h

/-- An attempt opened this connection and has passed it on. -/
def Gave (l : List Attempt) (h : ℕ) : Prop :=
  ∃ (i : ℕ) (t : Attempt), l[i]? = some t ∧ t.pc.left = true ∧ t.conn = some h

structure Origin (s : St) : Prop where
  own : ∀ (i : ℕ) (t : Attempt), s.attempts[i]? = some t → t.Own
  gave : ∀ h, s.main.pc.res = some h → Gave s.attempts h

theorem getElem?_modify_some {l : List Attempt} {i j : ℕ} {f : Attempt → Attempt} {t' : Attempt}
    (h : (l.modify i f)[j]? = some t') :
    ∃ t, l[j]? = some t ∧ t' = if i = j then f t else t := by
  rw [List.getElem?_modify] at h
  obtain ⟨t, ht, rfl⟩ := Option.map_eq_some_iff.mp h
  exact ⟨t, ht, rfl⟩

/-- An attempt goes on: it still has what it opened, and it does not come back. -/
theorem own_modify {l : List Attempt} {i : ℕ} {t : Attempt} {f : Attempt → Attempt}
    (ho : ∀ (i : ℕ) (t : Attempt), l[i]? = some t → t.Own) (ht : l[i]? = some t)
    (hf : (f t).Own) : ∀ (j : ℕ) (t' : Attempt), (l.modify i f)[j]? = some t' → t'.Own := by
  intro j t' hj
  obtain ⟨t₀, ht₀, rfl⟩ := getElem?_modify_some hj
  split
  · rename_i hij
    subst hij
    rw [ht] at ht₀
    cases ht₀
    exact hf
  · exact ho j t₀ ht₀

theorem Gave.modify {l : List Attempt} {i h : ℕ} {t : Attempt} {f : Attempt → Attempt}
    (hg : Gave l h) (ht : l[i]? = some t)
    (hf : t.pc.left = true → (f t).pc.left = true ∧ (f t).conn = t.conn) :
    Gave (l.modify i f) h := by
  obtain ⟨j, t₀, ht₀, hleft, hconn⟩ := hg
  refine ⟨j, if i = j then f t₀ else t₀, ?_, ?_⟩
  · rw [List.getElem?_modify, ht₀]
    rfl
  · split
    · rename_i hij
      subst hij
      rw [ht] at ht₀
      cases ht₀
      obtain ⟨h₁, h₂⟩ := hf hleft
      exact ⟨h₁, h₂.trans hconn⟩
    · exact ⟨hleft, hconn⟩

theorem Gave.append {l : List Attempt} {h : ℕ} (hg : Gave l h) (l' : List Attempt) :
    Gave (l ++ l') h := by
  obtain ⟨i, t, ht, hrest⟩ := hg
  have hi := (List.getElem?_eq_some_iff.mp ht).1
  exact ⟨i, t, (List.getElem?_append_left hi).trans ht, hrest⟩

theorem Origin.attempt (h : Origin s) {i : ℕ} {t : Attempt} (ht : s.attempts[i]? = some t)
    {f : Attempt → Attempt} (hown : t.Own → (f t).Own)
    (hleft : t.pc.left = true → (f t).pc.left = true ∧ (f t).conn = t.conn) :
    (∀ (j : ℕ) (t' : Attempt), (s.attempts.modify i f)[j]? = some t' → t'.Own) ∧
      ∀ h, s.main.pc.res = some h → Gave (s.attempts.modify i f) h :=
  ⟨own_modify h.own ht (hown (h.own i t ht)), fun _ hres => (h.gave _ hres).modify ht hleft⟩

theorem Origin.at (h : Origin s) {i : ℕ} {t : Attempt} (ht : s.attempts[i]? = some t)
    (pc : AttemptPc) (hconn : ∀ conn, pc.conn = some conn → t.pc.conn = some conn)
    (hleft : t.pc.left = true → pc.left = true) :
    (∀ (j : ℕ) (t' : Attempt), (s.attemptAt i pc).attempts[j]? = some t' → t'.Own) ∧
      ∀ h, s.main.pc.res = some h → Gave (s.attemptAt i pc).attempts h :=
  h.attempt ht (fun ho conn hc => ho conn (hconn conn hc)) fun hl => ⟨hleft hl, rfl⟩

theorem close_own {t : Attempt} (h : t.Own) : t.close.Own := by
  intro conn hc
  refine h conn ?_
  cases hpc : t.pc <;> simp_all [Attempt.close, AttemptPc.canceled, AttemptPc.conn]

theorem close_left {t : Attempt} (h : t.pc.left = true) :
    t.close.pc.left = true ∧ t.close.conn = t.conn := by
  cases hpc : t.pc <;> simp_all [Attempt.close, AttemptPc.canceled, AttemptPc.left]

/-- The attempt whose send is received has passed its connection on. -/
theorem Origin.passed (h : Origin s) {i conn : ℕ} {t : Attempt} (ht : s.attempts[i]? = some t)
    (hpc : t.pc.conn = some conn) :
    Gave (s.attempts.modify i fun a => { a with pc := .leave }) conn :=
  ⟨i, { t with pc := .leave }, by rw [List.getElem?_modify, ht]; simp, rfl, h.own i t ht conn hpc⟩

theorem Origin.move (h : Origin s) (hm : Move c s s') : Origin s' := by
  cases hm with
  | recvTake i t conn hcur hpc ht htpc =>
    obtain ⟨h₁, -⟩ := h.attempt ht (f := fun a => { a with pc := .leave })
      (fun _ _ hc => by cases hc) (by rw [htpc]; nofun)
    refine ⟨h₁, ?_⟩
    rintro _ ⟨⟩
    exact h.passed ht (by rw [htpc]; rfl)
  | connSend i t conn hcur ht htpc hmain =>
    obtain ⟨h₁, -⟩ := h.attempt ht (f := fun a => { a with pc := .leave })
      (fun _ _ hc => by cases hc) (by rw [htpc]; nofun)
    refine ⟨h₁, ?_⟩
    rintro _ ⟨⟩
    exact h.passed ht (by rw [htpc]; rfl)
  | useAddress idx nw addr hcur hpc hnull hno =>
    refine ⟨fun i t ht => ?_, fun _ hres => (h.gave _ hres).append _⟩
    rw [List.getElem?_append] at ht
    split at ht
    · exact h.own i t ht
    · obtain rfl := List.mem_singleton.mp (List.mem_of_getElem? ht)
      nofun
  | crClose w hcur hpc hw =>
    cases w with
    | attempt i =>
      cases ht : s.attempts[i]? with
      | none =>
        have hsame : s.attempts.modify i Attempt.close = s.attempts :=
          List.modify_eq_self (List.getElem?_eq_none_iff.mp ht)
        constructor
        · intro j t hj
          exact h.own j t (hsame ▸ hj)
        · intro conn hres
          show Gave (s.attempts.modify i Attempt.close) conn
          rw [hsame]
          exact h.gave conn hres
      | some t =>
        obtain ⟨h₁, h₂⟩ := h.attempt ht close_own close_left
        exact ⟨h₁, h₂⟩
    | _ => exact ⟨h.own, h.gave⟩
  | connectWait i t hcur ht hpc =>
    obtain ⟨h₁, h₂⟩ := h.at ht .connectWait nofun (by rw [hpc]; nofun)
    exact ⟨h₁, h₂⟩
  | connectFails i t hcur ht hpc =>
    obtain ⟨h₁, h₂⟩ := h.at ht .leave nofun (by rw [hpc]; nofun)
    exact ⟨h₁, h₂⟩
  | connects i t conn H hcur ht hpc =>
    obtain ⟨h₁, h₂⟩ := h.attempt ht (f := fun a => { a with pc := .chsend conn, conn := some conn })
      (fun _ _ hc => hc) (by rw [hpc]; nofun)
    exact ⟨h₁, h₂⟩
  | connCanceled i t conn hcur ht hpc =>
    obtain ⟨h₁, h₂⟩ := h.at ht (.hclose conn) (fun _ hc => by rw [hpc]; exact hc)
      (by rw [hpc]; nofun)
    exact ⟨h₁, h₂⟩
  | connWait i t conn hcur ht hpc =>
    obtain ⟨h₁, h₂⟩ := h.at ht (.chsendWait conn) (fun _ hc => by rw [hpc]; exact hc)
      (by rw [hpc]; nofun)
    exact ⟨h₁, h₂⟩
  | connClose i t conn H hcur ht hpc =>
    obtain ⟨h₁, h₂⟩ := h.at ht .leave nofun (by rw [hpc]; nofun)
    exact ⟨h₁, h₂⟩
  | attemptExit i t hcur ht hpc =>
    obtain ⟨h₁, h₂⟩ := h.at ht .done nofun fun _ => rfl
    constructor
    · intro j t' hj
      rw [show (St.block _).attempts = _ from epilogue_attempts _ _] at hj
      exact h₁ j t' hj
    · intro conn hres
      rw [show (St.block _).main = _ from epilogue_main _ _] at hres
      rw [show (St.block _).attempts = _ from epilogue_attempts _ _]
      exact h₂ conn hres
  | eventAttempt i t hcur ht hpc =>
    obtain ⟨h₁, h₂⟩ := h.at ht .connect nofun (by rw [hpc]; nofun)
    exact ⟨h₁, h₂⟩
  | dnsExit f marked hcur hpc =>
    constructor
    · intro j t' hj
      rw [show (St.block _).attempts = _ from epilogue_attempts _ _] at hj
      exact h.own j t' hj
    · intro conn hres
      rw [show (St.block _).main = _ from epilogue_main _ _] at hres
      rw [show (St.block _).attempts = _ from epilogue_attempts _ _]
      exact h.gave conn hres
  | stop r pc hcur hpc => exact ⟨h.own, fun conn hres => h.gave conn (by rw [hpc]; exact hres)⟩
  | stopped r H hcur hpc => exact ⟨h.own, fun conn hres => h.gave conn (by rw [hpc]; exact hres)⟩
  | «return» r H hcur hpc => exact ⟨h.own, fun conn hres => h.gave conn (by rw [hpc]; exact hres)⟩
  | closeWake r H hcur hpc hmain =>
    exact ⟨h.own, fun conn hres => h.gave conn (by rw [hmain]; exact hres)⟩
  | _ => exact ⟨h.own, fun _ hres => by first | cases hres | exact h.gave _ hres⟩

/-! ## Runs -/

theorem Init.tidy (h : Init base s) : Tidy base s where
  handles := by
    have hk : s.coordinator.held = 0 := by rw [Coordinator.held, h.coordinator]
    have hm : s.main.held = 0 := by rw [Main.held, h.main]
    have ht : attemptsHeld s.attempts = 0 := by rw [h.attempts]; rfl
    rw [St.held, hk, hm, ht, h.handles]
    simp
  phase := by
    rw [h.main, h.coordinator]
    rfl
  start hpc := by
    rw [h.coordinator] at hpc
    cases hpc
  early _ := ⟨fun f => by rw [h.dns], h.attempts⟩
  late hl := by
    unfold Late at hl
    rw [h.coordinator] at hl
    rcases hl with h | h <;> cases h

theorem Tidy.move (h : Tidy base s) (hm : Move c s s') : Tidy base s' where
  handles := h.handles_move hm
  phase := h.phase_move hm
  start := h.start_move hm
  early := h.early_move hm
  late := Late.move h.late hm

theorem Init.origin (h : Init base s) : Origin s := by
  constructor
  · intro i t ht
    rw [h.attempts] at ht
    cases ht
  · intro conn hres
    rw [h.main] at hres
    cases hres

theorem Reachable.tidy (h : Reachable c base s) : Tidy base s :=
  h.invariant (fun _ hi => hi.tidy) fun _ a _ ht _ hstep =>
    ht.move ((step_post ht.sound a).of_ok hstep)

/-- **The invariant rule**: what the moves keep holds in every reachable state. -/
theorem Reachable.rule {I : St → Prop} (h : Reachable c base s) (h0 : ∀ s, Init base s → I s)
    (hm : ∀ s s', Tidy base s → I s → Move c s s' → I s') : I s := by
  have hboth : Tidy base s ∧ I s :=
    h.invariant (I := fun s => Tidy base s ∧ I s) (fun s hi => ⟨hi.tidy, h0 s hi⟩)
      fun s a s' hI _ hstep =>
        have hmove := (step_post hI.1.sound a).of_ok hstep
        ⟨hI.1.move hmove, hm s s' hI.1 hI.2 hmove⟩
  exact hboth.2

theorem Reachable.origin (h : Reachable c base s) : Origin s :=
  h.rule (fun _ hi => hi.origin) fun _ _ _ ho hm => ho.move hm

/-- Nothing that the call launched is left. -/
def Quiet (s : St) : Prop :=
  (s.coordinator.pc = .absent ∨ s.coordinator.pc = .done) ∧ Ended s

theorem Tidy.quiet (h : Tidy base s) {r : Except Errno ℕ} (hr : s.main.pc = .returned r) :
    Quiet s := by
  have hp := h.phase
  rw [hr] at hp
  have hpc : s.coordinator.pc = .absent ∨ s.coordinator.pc = .done := by
    cases hk : s.coordinator.pc <;> rw [hk] at hp <;>
      first | exact .inl rfl | exact .inr rfl | rcases hp with h | h <;> cases h
  refine ⟨hpc, ?_⟩
  rcases hpc with hpc | hpc
  · obtain ⟨hd, ha⟩ := h.early (.inl hpc)
    constructor
    · intro f
      rw [hd f]
      rfl
    · intro i t ht
      rw [ha] at ht
      cases ht
  · exact h.late (.inr hpc)

theorem Ended.held (h : Ended s) : attemptsHeld s.attempts = 0 := by
  refine List.sum_eq_zero fun x hx => ?_
  obtain ⟨t, ht, rfl⟩ := List.mem_map.mp hx
  obtain ⟨i, hi⟩ := List.getElem?_of_mem ht
  rw [Attempt.held, h.2 i t hi]

/-- When the call has returned, only what it returned is open besides what was open before. -/
theorem Tidy.returned (h : Tidy base s) {r : Except Errno ℕ} (hr : s.main.pc = .returned r) :
    s.handles.val = base.val + resHeld r := by
  obtain ⟨hpc, hended⟩ := h.quiet hr
  have hk : s.coordinator.held = 0 := by
    rcases hpc with hpc | hpc <;> rw [Coordinator.held, hpc]
  have hm : s.main.held = resHeld r := by rw [Main.held, hr]
  rw [h.handles, St.held, hk, hm, hended.held, add_zero, add_zero]

/-- **Happy Eyeballs leaks nothing.** In every run no assertion fails, and when the call has
returned, every coroutine it launched has ended, and open are the handles from before and the
connection it returns, if it returns one, which an attempt had opened. -/
theorem leaks_nothing (h : Reachable c base s) :
    (∀ a, s.step c a ≠ .error .assert) ∧
      (∀ r, s.main.pc = .returned r → Quiet s) ∧
      (∀ e, s.main.pc = .returned (.error e) → s.handles = base) ∧
      ∀ conn, s.main.pc = .returned (.ok conn) →
        (∃ t ∈ s.attempts, t.conn = some conn) ∧ conn ∉ base ∧ s.handles = insert conn base := by
  refine ⟨fun a he => ?_, fun r hr => h.tidy.quiet hr, fun e hr => ?_, fun conn hr => ?_⟩
  · exact absurd ((step_post h.tidy.sound a).of_error he) (by decide)
  · apply Finset.val_injective
    rw [h.tidy.returned hr]
    exact add_zero _
  · have hval := h.tidy.returned hr
    rw [resHeld, add_comm] at hval
    have hnew : conn ∉ base := by
      intro hmem
      have hnodup := s.handles.nodup
      rw [hval] at hnodup
      exact (Multiset.nodup_cons.mp hnodup).1 hmem
    refine ⟨?_, hnew, ?_⟩
    · obtain ⟨i, t, ht, -, hconn⟩ := h.origin.gave conn (by rw [hr]; rfl)
      exact ⟨t, List.mem_of_getElem? ht, hconn⟩
    · apply Finset.val_injective
      rw [hval, Finset.insert_val_of_notMem hnew]
      rfl

/-- A call with one open handle besides it. -/
def St.entered : St := { handles := {100} }

theorem St.entered_init : Init {100} St.entered := by
  constructor <;> rfl

/-- Both attempts connect, the second one first, and the first one before the caller closes the
coordinator. -/
def lateConnection : List Act :=
  [.run (.handles [0, 1]), .run (.handles [2]), .run (.handles [3, 4, 5, 6, 7]), .run .none,
    .run .block, .resume .main, .run .none, .resume .coordinator, .run .none, .run .block,
    .resume .coordinator, .run .none, .event (.dnsquery .ipv6), .resume (.dnsquery .ipv6),
    .run (.answers [.inet6 1 80]), .run .none, .run .none, .event (.dnsquery .ipv4),
    .resume (.dnsquery .ipv4), .run (.answers [.inet 1 80]), .run .none, .resume .coordinator,
    .run .none, .run .none, .run .block, .resume .coordinator, .run .none, .tick 300,
    .timeout .coordinator, .resume .coordinator, .run .none, .run .none, .run .block,
    .event (.attempt 1), .resume (.attempt 1), .run (.conn (some 8)), .run .none, .run .none,
    .event (.attempt 0), .resume (.attempt 0), .run (.conn (some 9)), .run .none, .resume .main,
    .run .none, .resume .coordinator, .run .none, .run .none, .resume (.dnsquery .ipv6), .run .none,
    .resume .coordinator, .run .none, .resume (.dnsquery .ipv4), .run .none, .run .none,
    .resume .coordinator, .run .none, .resume (.attempt 0), .run .none, .run .none,
    .resume .coordinator, .run .none, .run .none, .resume .main, .run .none, .run .none]

/-- The call has returned this connection. -/
def St.gives (s : St) (conn : ℕ) : Bool :=
  match s.main.pc with
  | .returned (.ok h) => h == conn
  | _ => false

theorem gives_eq {conn : ℕ} (h : s.gives conn = true) : s.main.pc = .returned (.ok conn) := by
  unfold St.gives at h
  split at h
  · rename_i hpc
    rw [hpc, beq_iff_eq.mp h]
  · cases h

theorem leaks_nothing_lateConnection :
    ∃ s, run (St.step ⟨some "www.example.org", 80, -1⟩) .entered lateConnection = .ok s ∧
      s.main.pc = .returned (.ok 8) ∧ Quiet s ∧ s.handles = {8, 100} := by
  obtain ⟨s, hrun, hgives⟩ := exists_of_runsTo (St.step ⟨some "www.example.org", 80, -1⟩)
    .entered lateConnection (fun s => s.gives 8) (by decide)
  have hr := gives_eq hgives
  obtain ⟨-, hquiet, -, hok⟩ :=
    leaks_nothing (reach_of_run (fun _ _ => trivial) (.init St.entered_init) hrun)
  exact ⟨s, hrun, hr, hquiet _ hr, (hok 8 hr).2.2⟩

end Libdill.Happyeyeballs
