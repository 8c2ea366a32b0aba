import Libdill.Happyeyeballs.Order
import Mathlib.Data.List.Chain

/-!
# Happy Eyeballs: pacing

The coordinator waits until 300 ms after the time `nw` before it launches the next attempt. In the
loop `nw` is the time before `dill_choose`, which may wait for an address; so what is kept apart by
300 ms are this time and the next launch.

* `launches_after`: in every run a launch is at least 300 ms after the `nw` of the one before it.
* `launches_spaced`: the launches are 300 ms apart in the runs in which each of them is at the time
  `nw`.
-/

namespace Libdill.Happyeyeballs

open Foundations

variable {c : Call} {s s' : St} {base : Finset ℕ}

/-- The local variable `nw`. -/
def CoordinatorPc.nw : CoordinatorPc → ℕ
  | .chooseWait nw => nw
  | .useAddress _ nw _ => nw
  | .msleep _ nw => nw
  | _ => 0

/-- A launch of an attempt: its time, and the time that the coordinator has read before. -/
structure Launch where
  time : ℕ
  nw : ℕ
  deriving DecidableEq

/-- The launch in a step, if there is one. -/
def St.launch (s s' : St) : Option Launch :=
  if s'.attempts.length = s.attempts.length then none else some ⟨s.now, s.coordinator.pc.nw⟩

/-- The launches in a run. -/
def launches (c : Call) : St → List Act → List Launch
  | _, [] => []
  | s, a :: as =>
    match s.step c a with
    | .error _ => []
    | .ok s' => (s.launch s').toList ++ launches c s' as

/-- Consecutive launches are at least 300 ms apart. -/
def Spaced (l : List Launch) : Prop := l.IsChain fun x y => x.time + 300 ≤ y.time

instance (l : List Launch) : Decidable (Spaced l) := inferInstanceAs (Decidable (l.IsChain _))

/-- The address is one to be attempted. -/
def CoordinatorPc.launching : CoordinatorPc → Bool
  | .useAddress _ _ addr => !ipaddrEqual addr nulladdr false
  | _ => false

/-- The coordinator is about to launch an attempt. -/
def St.Launching (s : St) : Prop :=
  s.cur = some .coordinator ∧ s.coordinator.noBlocking = false ∧ s.coordinator.pc.launching = true

instance (s : St) : Decidable s.Launching := inferInstanceAs (Decidable (_ ∧ _ ∧ _))

/-- If an attempt is launched, it is still the time `nw`: no time has passed since the clock was
read, neither in `dill_choose` nor otherwise. -/
def Prompt (s : St) : Act → Prop
  | .run _ => s.Launching → s.coordinator.pc.nw = s.now
  | _ => True

instance (s : St) (a : Act) : Decidable (Prompt s a) := by
  cases a <;> unfold Prompt <;> infer_instance

/-- The next launch is not before the time `t`. -/
def NotBefore (t : ℕ) (s : St) : Prop :=
  match s.coordinator.pc with
  | .msleep _ nw => t ≤ max s.now (nw + 300)
  | .msleepWait deadline => t ≤ max s.now deadline
  | .cancel => True
  | .cancelWait _ => True
  | .hclose => True
  | .done => True
  | _ => t ≤ s.now

variable {t : ℕ}

/-! ## Steps -/

theorem launch_none (h : s'.attempts.length = s.attempts.length) : s.launch s' = none := if_pos h

theorem NotBefore.congr (h : NotBefore t s) (hpc : s'.coordinator.pc = s.coordinator.pc)
    (hnow : s.now ≤ s'.now) : NotBefore t s' := by
  unfold NotBefore at h ⊢
  rw [hpc]
  split <;> simp_all <;> omega

/-- The coordinator goes on in the loop. -/
theorem NotBefore.goto (h : t ≤ s.now) {pc : CoordinatorPc} (hpc : s'.coordinator.pc = pc)
    (hwait : ∀ idx nw, pc ≠ .msleep idx nw) (hsleep : ∀ d, pc ≠ .msleepWait d)
    (hnow : s'.now = s.now) : NotBefore t s' := by
  unfold NotBefore
  rw [hpc, hnow]
  cases pc with
  | msleep idx nw => exact absurd rfl (hwait idx nw)
  | msleepWait d => exact absurd rfl (hsleep d)
  | cancel => trivial
  | cancelWait w => trivial
  | hclose => trivial
  | done => trivial
  | _ => exact h

/-- What a step does about the launches: none, and the next one is not before `t` still, or one that
is not before `t`, and then none before 300 ms after its `nw`. -/
def Paces (t : ℕ) (s s' : St) : Prop :=
  s.launch s' = none ∧ NotBefore t s' ∨
    s.Launching ∧ s.launch s' = some ⟨s.now, s.coordinator.pc.nw⟩ ∧ t ≤ s.now ∧
      NotBefore (s.coordinator.pc.nw + 300) s'

/-- The coordinator stays where it is. -/
theorem Paces.stays (h : NotBefore t s) (hpc : s'.coordinator.pc = s.coordinator.pc)
    (hnow : s.now ≤ s'.now) (hlen : s'.attempts.length = s.attempts.length) : Paces t s s' :=
  .inl ⟨launch_none hlen, h.congr hpc hnow⟩

/-- The coordinator goes on in the loop, or ends. -/
theorem Paces.goes (h : t ≤ s.now) {pc : CoordinatorPc} (hpc : s'.coordinator.pc = pc)
    (hwait : ∀ idx nw, pc ≠ .msleep idx nw) (hsleep : ∀ d, pc ≠ .msleepWait d)
    (hnow : s'.now = s.now) (hlen : s'.attempts.length = s.attempts.length) : Paces t s s' :=
  .inl ⟨launch_none hlen, .goto h hpc hwait hsleep hnow⟩

/-- The coordinator does not launch anything any more. -/
theorem Paces.ends (h : s'.coordinator.pc.stage = .closing ∨ s'.coordinator.pc.stage = .done)
    (hlen : s'.attempts.length = s.attempts.length) : Paces t s s' := by
  refine .inl ⟨launch_none hlen, ?_⟩
  unfold NotBefore
  cases hpc : s'.coordinator.pc <;> rw [hpc] at h <;> simp_all [CoordinatorPc.stage]

/-- A coroutine ends. -/
theorem Paces.epilogue (h : NotBefore t s) (s' : St) (w : Who)
    (hpc : s'.coordinator.pc = s.coordinator.pc) (hnow : s'.now = s.now)
    (hlen : s'.attempts.length = s.attempts.length) : Paces t s (s'.epilogue w).block := by
  unfold St.epilogue
  split
  · exact .ends (.inl rfl) hlen
  · exact .stays h hpc hnow.ge hlen

theorem NotBefore.move (ht : Tidy base s) (h : NotBefore t s) (hm : Move c s s') :
    Paces t s s' := by
  cases hm with
  | go handle H hcur hpc =>
    have habsent := ht.absent (.inr hpc)
    refine .inl ⟨launch_none rfl, ?_⟩
    simpa [NotBefore, habsent] using h
  | stop r pc hcur hpc hdone hk =>
    cases hkpc : s.coordinator.pc <;> rw [hkpc] at hk <;> cases hk <;>
      first | exact Paces.stays h hkpc.symm le_rfl rfl | exact .ends (.inl rfl) rfl
  | start h₀ h₁ h₂ h₃ h₄ H hcur hpc =>
    exact .goes (by simpa [NotBefore, hpc] using h) rfl nofun nofun rfl rfl
  | goIpv6 hcur hpc =>
    exact .goes (by simpa [NotBefore, hpc] using h) rfl nofun nofun rfl rfl
  | goIpv4 hcur hpc =>
    exact .goes (by simpa [NotBefore, hpc] using h) rfl nofun nofun rfl rfl
  | canceled => exact .ends (.inl rfl) rfl
  | chrecvTake rest hcur hpc =>
    exact .goes (by simpa [NotBefore, hpc] using h) rfl nofun nofun rfl rfl
  | chrecvWait hcur hpc =>
    exact .goes (by simpa [NotBefore, hpc] using h) rfl nofun nofun rfl rfl
  | received addr hcur hpc =>
    exact .goes (by simpa [NotBefore, hpc] using h) rfl nofun nofun rfl rfl
  | chooseTake idx rest hcur hpc =>
    exact .goes (by simpa [NotBefore, hpc] using h) rfl nofun nofun rfl rfl
  | chooseWait hcur hpc =>
    exact .goes (by simpa [NotBefore, hpc] using h) rfl nofun nofun rfl rfl
  | useNull idx nw addr hcur hpc =>
    exact .goes (by simpa [NotBefore, hpc] using h) rfl nofun nofun rfl rfl
  | useAddress idx nw addr hcur hpc haddr hno =>
    refine .inr ⟨⟨hcur, hno, ?_⟩, ?_, by simpa [NotBefore, hpc] using h, ?_⟩
    · simp [hpc, CoordinatorPc.launching, haddr]
    · exact if_neg (by simp)
    · simp [NotBefore, hpc, CoordinatorPc.nw]
  | msleep idx nw hcur hpc =>
    refine .inl ⟨launch_none rfl, ?_⟩
    simpa [NotBefore, hpc] using h
  | crClose w hcur hpc =>
    refine .ends (.inl rfl) ?_
    cases w <;> simp [St.crClose]
  | bundleClosed => exact .ends (.inl rfl) rfl
  | closeWake => exact .ends (.inr rfl) rfl
  | close => exact .ends (.inr rfl) rfl
  | send f rest pc hcur hpc hrecv =>
    rcases receive_cases hrecv with ⟨d, hk, -, rfl⟩ | ⟨nw, idx, hk, -, rfl⟩
    · exact .goes (by simpa [NotBefore, hk] using h) rfl nofun nofun rfl rfl
    · exact .goes (by simpa [NotBefore, hk] using h) rfl nofun nofun rfl rfl
  | dnsExit f marked => exact .epilogue h (s.dnsAt f _) _ rfl rfl rfl
  | attemptExit i a => exact .epilogue h (s.attemptAt i _) _ rfl rfl (by simp)
  | timeoutChrecv d hcur hpc hd =>
    exact .goes (by simpa [NotBefore, hpc] using h) rfl nofun nofun rfl rfl
  | timeoutMsleep d hcur hpc hd =>
    refine .goes ?_ rfl nofun nofun rfl rfl
    have hmax : t ≤ max s.now d := by simpa [NotBefore, hpc] using h
    rwa [Nat.max_eq_left hd] at hmax
  | tick d => exact .stays h rfl (Nat.le_add_right _ _) rfl
  | _ => exact .stays h rfl le_rfl (by simp)

/-! ## Runs -/

theorem Init.notBefore (h : Init base s) : NotBefore s.now s := by
  unfold NotBefore
  rw [h.coordinator]

/-- The launches of a run are not before `t`, and each is at least 300 ms after the `nw` of the one
before it. -/
theorem launches_run (as : List Act) (ht : Tidy base s) (h : NotBefore t s) :
    (∀ x ∈ (launches c s as).head?, t ≤ x.time) ∧
      (launches c s as).IsChain fun x y => x.nw + 300 ≤ y.time := by
  induction as generalizing s t with
  | nil => exact ⟨nofun, .nil⟩
  | cons a as ih =>
    unfold launches
    cases hstep : s.step c a with
    | error e => exact ⟨nofun, .nil⟩
    | ok s' =>
      have hmove := (step_post ht.sound a).of_ok hstep
      rcases h.move ht hmove with ⟨hnone, hafter⟩ | ⟨-, hsome, hle, hafter⟩
      · simpa [hnone] using ih (ht.move hmove) hafter
      · obtain ⟨hhead, hchain⟩ := ih (ht.move hmove) hafter
        simp only [hsome, Option.toList_some, List.singleton_append, List.head?_cons,
          Option.mem_def, Option.some.injEq, forall_eq']
        exact ⟨hle, List.isChain_cons.mpr ⟨hhead, hchain⟩⟩

/-- **What the coordinator keeps apart**: in every run a launch is at least 300 ms after the time
that was read before the launch before it. -/
theorem launches_after (hi : Init base s) (as : List Act) :
    (launches c s as).IsChain fun x y => x.nw + 300 ≤ y.time :=
  (launches_run as hi.tidy hi.notBefore).2

/-- A launch at the time that was read. -/
theorem Prompt.launch {a : Act} (hp : Prompt s a) (ht : Tidy base s) (hstep : s.step c a = .ok s') :
    ∀ x ∈ s.launch s', x.nw = x.time := by
  have hmove := (step_post ht.sound a).of_ok hstep
  have hnow : NotBefore 0 s := by
    unfold NotBefore
    split <;> simp
  intro x hx
  rcases hnow.move ht hmove with ⟨hnone, -⟩ | ⟨hlaunch, hsome, -, -⟩
  · rw [hnone] at hx
    cases hx
  · rw [hsome] at hx
    cases hx
    cases a with
    | run x => exact hp hlaunch
    | tick d =>
      cases hstep
      have hnone : s.launch { s with now := s.now + d } = none := launch_none rfl
      cases hnone.symm.trans hsome
    | _ => simp [St.step, hlaunch.1] at hstep

theorem launches_prompt (as : List Act) (ht : Tidy base s)
    (hrun : runIf (St.step c) Prompt s as = some s') : ∀ x ∈ launches c s as, x.nw = x.time := by
  induction as generalizing s with
  | nil => exact fun x hx => absurd hx List.not_mem_nil
  | cons a as ih =>
    unfold runIf at hrun
    unfold launches
    split at hrun
    · rename_i hp
      cases hstep : s.step c a with
      | error e => exact fun x hx => absurd hx List.not_mem_nil
      | ok s₁ =>
        rw [hstep] at hrun
        have hmove := (step_post ht.sound a).of_ok hstep
        intro x hx
        rcases List.mem_append.mp hx with hx | hx
        · exact hp.launch ht hstep x (Option.mem_toList.mp hx)
        · exact ih (ht.move hmove) hrun x hx
    · cases hrun

/-- **When the launches are 300 ms apart**: in the runs in which no time passes between the reading
of the clock and the launch. -/
theorem launches_spaced (hi : Init base s) {as : List Act}
    (hrun : runIf (St.step c) Prompt s as = some s') : Spaced (launches c s as) := by
  have hprompt := launches_prompt as hi.tidy hrun
  have hchain := launches_after (c := c) hi as
  refine hchain.imp_of_mem_imp fun x y hx _ hxy => ?_
  rwa [hprompt x hx] at hxy

/-- Two addresses of a family that are there when they are needed. -/
theorem launches_spaced_bothWaiting :
    ∃ s, runIf (St.step ⟨some "www.example.org", 80, -1⟩) Prompt .entered
        (bothWaiting ++ [.run .none, .run .none]) = some s ∧
      launches ⟨some "www.example.org", 80, -1⟩ .entered
        (bothWaiting ++ [.run .none, .run .none]) = [⟨0, 0⟩, ⟨300, 300⟩] ∧
      Spaced (launches ⟨some "www.example.org", 80, -1⟩ .entered
        (bothWaiting ++ [.run .none, .run .none])) := by
  obtain ⟨s, hrun, -⟩ := exists_of_runIf (St.step ⟨some "www.example.org", 80, -1⟩) Prompt
    .entered (bothWaiting ++ [.run .none, .run .none]) (fun _ => true) (by decide)
  exact ⟨s, hrun, by decide, launches_spaced St.entered_init hrun⟩

/-- The answers come after 300 ms, when the coordinator has waited for them for 250 ms. -/
def lateAnswers : List Act :=
  [.run (.handles [0, 1]), .run (.handles [2]), .run (.handles [3, 4, 5, 6, 7]), .run .none,
    .run .block, .resume .main, .run .none, .resume .coordinator, .run .none, .run .block,
    .resume .coordinator, .run .none, .tick 50, .timeout .coordinator, .resume .coordinator,
    .run .none, .tick 250, .event (.dnsquery .ipv6), .resume (.dnsquery .ipv6),
    .run (.answers [.inet6 1 80, .inet6 2 80]), .run .none, .run .none, .resume .coordinator,
    .run .none, .run .block, .resume .coordinator, .run .none, .tick 50, .timeout .coordinator,
    .resume .coordinator, .run .none, .run .none]

/-- The second attempt is launched 50 ms after the first one. -/
theorem launches_lateAnswers :
    launches ⟨some "www.example.org", 80, -1⟩ .entered lateAnswers = [⟨300, 50⟩, ⟨350, 350⟩] := by
  decide

theorem not_spaced_lateAnswers : ¬∀ (c : Call) (base : Finset ℕ) (s s' : St) (as : List Act),
    Init base s → run (St.step c) s as = .ok s' → Spaced (launches c s as) := by
  intro h
  obtain ⟨s', hrun, -⟩ := exists_of_runsTo (St.step ⟨some "www.example.org", 80, -1⟩) .entered
    lateAnswers (fun _ => true) (by decide)
  have hspaced := h _ _ _ _ _ St.entered_init hrun
  rw [launches_lateAnswers] at hspaced
  exact absurd hspaced (by decide)

end Libdill.Happyeyeballs
