import Libdill.Happyeyeballs.Leaks
import Mathlib.Data.List.Infix

/-!
# Happy Eyeballs: the order of the attempts

Every address a query found is attempted, waits to be sent, or is in the hand of the coordinator:
as long as the coordinator works these three make up the list the query found (`Exact`), so the
addresses attempted are the beginning of it. The preference is in the order of the clauses: while
addresses are chosen, the first clause is on the family that was not used last (`Turn`).
-/

namespace Libdill.Happyeyeballs

open Foundations
open Libdill.Sched (Errno)

variable {c : Call} {s s' : St} {base : Finset ℕ}

/-! ## What was attempted -/

/-- The families and the addresses of the attempts, in the order they were launched. -/
def St.log (s : St) : List (Fam × IpAddr) := s.attempts.map fun t => (t.fam, t.addr)

/-- The addresses of this family that were attempted. -/
def St.tried (s : St) (f : Fam) : List IpAddr := (s.log.filter fun e => e.1 = f).map Prod.snd

/-- The address the coordinator has received and not yet used, with the family it came from. -/
def Coordinator.hand (k : Coordinator) : Option (Fam × IpAddr) :=
  match k.pc with
  | .received addr => some (.ipv6, addr)
  | .useAddress idx _ addr => some (k.cls idx, addr)
  | _ => none

/-- The same as a list, for one family. -/
def Coordinator.handed (k : Coordinator) (f : Fam) : List IpAddr :=
  ((k.hand.filter fun e => e.1 = f).map Prod.snd).toList

theorem log_modify {l : List Attempt} {i : ℕ} {f : Attempt → Attempt}
    (hf : ∀ t, (f t).fam = t.fam ∧ (f t).addr = t.addr) :
    (l.modify i f).map (fun t => (t.fam, t.addr)) = l.map fun t => (t.fam, t.addr) := by
  induction l generalizing i with
  | nil => rw [List.modify_nil]
  | cons t l ih =>
    cases i with
    | zero => simp [hf t]
    | succ i => simp [ih]

theorem close_keeps (t : Attempt) : t.close.fam = t.fam ∧ t.close.addr = t.addr := ⟨rfl, rfl⟩

/-- The query knows what it found. -/
def DnsPc.asked : DnsPc → Bool
  | .absent => false
  | .remotes => false
  | .remotesWait => false
  | _ => true

/-- Where the addresses of one family are, while the coordinator works: `got` were attempted and
`hand` is in its hand. -/
def Exact (d : Dnsquery) (got hand : List IpAddr) : Prop :=
  match d.pc with
  | .chsend rest => got ++ hand ++ rest = d.addrs
  | .chsendWait rest => got ++ hand ++ rest = d.addrs
  | .leave true => got = d.addrs ∧ (hand = [] ∨ hand = [nulladdr])
  | .done true => got = d.addrs ∧ (hand = [] ∨ hand = [nulladdr])
  | .leave false => got ++ hand <+: d.addrs
  | .done false => got ++ hand <+: d.addrs
  | _ => got = [] ∧ hand = []

theorem Exact.initial {d : Dnsquery} {got hand : List IpAddr} (h : Exact d got hand) :
    got <+: d.addrs := by
  unfold Exact at h
  split at h
  · rw [List.append_assoc] at h
    exact ⟨_, h⟩
  · rw [List.append_assoc] at h
    exact ⟨_, h⟩
  · exact h.1 ▸ List.prefix_rfl
  · exact h.1 ▸ List.prefix_rfl
  · exact (List.prefix_append _ _).trans h
  · exact (List.prefix_append _ _).trans h
  · exact h.1 ▸ List.nil_prefix

/-- The coordinator takes what the query sends next. -/
theorem Exact.take {d : Dnsquery} {got rest : List IpAddr}
    (h : got ++ rest = d.addrs) : Exact { d with pc := afterSend rest } got [outgoing rest] := by
  cases rest with
  | nil => exact ⟨by simpa using h, .inr rfl⟩
  | cons a rest =>
    show got ++ [a] ++ rest = d.addrs
    rw [← h]
    simp

/-- The marker is dropped. -/
theorem Exact.drop {d : Dnsquery} {got : List IpAddr} (h : Exact d got [nulladdr])
    (hnull : nulladdr ∉ d.addrs) : Exact d got [] := by
  have hne : ∀ rest, got ++ [nulladdr] ++ rest ≠ d.addrs := by
    intro rest he
    exact hnull (he ▸ by simp)
  unfold Exact at h ⊢
  split at h
  · exact absurd h (hne _)
  · exact absurd h (hne _)
  · exact ⟨h.1, .inl rfl⟩
  · exact ⟨h.1, .inl rfl⟩
  · obtain ⟨rest, he⟩ := h
    exact absurd he (hne rest)
  · obtain ⟨rest, he⟩ := h
    exact absurd he (hne rest)
  · cases h.2

/-- The address is attempted. -/
theorem Exact.use {d : Dnsquery} {got : List IpAddr} {addr : IpAddr} (h : Exact d got [addr])
    (hnull : addr ≠ nulladdr) : Exact d (got ++ [addr]) [] := by
  unfold Exact at h ⊢
  split at h
  · simpa using h
  · simpa using h
  · rcases h.2 with h | h <;> cases h
    exact absurd rfl hnull
  · rcases h.2 with h | h <;> cases h
    exact absurd rfl hnull
  · simpa using h
  · simpa using h
  · cases h.2

theorem ipaddrEqual_nulladdr : ipaddrEqual nulladdr nulladdr false = true := by decide

/-- The addresses of a query carry the port of the call, which is not that of the marker. -/
theorem nulladdr_not_mem {f : Fam} {l : List IpAddr} (h : Answers c f l) (hport : 0 < c.port) :
    nulladdr ∉ l := by
  intro hmem
  have hp := (h.2 _ hmem).2
  rw [← hp] at hport
  exact absurd hport (by decide)

theorem ipaddrEqual_eq {a b : IpAddr} (h : ipaddrEqual a b false = true) : a = b := by
  cases a <;> cases b <;> simp_all [ipaddrEqual]

/-! ## The invariant -/

/-- The coordinator has not received anything yet, or has just received its first address. -/
def CoordinatorPc.opening : CoordinatorPc → Bool
  | .absent => true
  | .start => true
  | .goIpv6 => true
  | .goIpv4 => true
  | .chrecv => true
  | .chrecvWait _ => true
  | .received _ => true
  | _ => false

/-- The invariant of the queries and the addresses. -/
structure Streams (c : Call) (s : St) : Prop where
  /-- What was attempted is the beginning of what was found. -/
  initial : ∀ f, s.tried f <+: (s.dns f).addrs
  unasked : ∀ f, (s.dns f).pc.asked = false → s.tried f = []
  exact : s.coordinator.pc.stage = .working →
    ∀ f, Exact (s.dns f) (s.tried f) (s.coordinator.handed f)
  nonnull : ∀ f, nulladdr ∉ (s.dns f).addrs
  used : ∀ e ∈ s.log, e.2 ≠ nulladdr
  port : s.main.pc = .go ∨ s.coordinator.pc ≠ .absent → 0 < c.port
  goIpv6 : s.coordinator.pc = .goIpv6 → ∀ f, (s.dns f).pc = .absent
  goIpv4 : s.coordinator.pc = .goIpv4 → (s.dns .ipv4).pc = .absent

/-- The invariant of the clauses. -/
structure Turn (s : St) : Prop where
  opening : s.coordinator.pc.opening = true → s.log = [] ∧ s.coordinator.cls 0 = .ipv6
  both : s.coordinator.cls 0 ≠ s.coordinator.cls 1
  /-- Between the launch of an attempt and the swap the clause is the one that was used. -/
  swap : ∀ idx nw, s.coordinator.pc = .msleep idx nw → ∀ e, s.log.getLast? = some e →
    e.1 = s.coordinator.cls idx
  /-- Otherwise the family used last is the second one. -/
  second : s.coordinator.pc.stage = .working → (∀ idx nw, s.coordinator.pc ≠ .msleep idx nw) →
    ∀ e, s.log.getLast? = some e → e.1 = s.coordinator.cls 1
  /-- Nobody waits to send to a coordinator that waits for any address. -/
  waiting : ∀ nw, s.coordinator.pc = .chooseWait nw → ∀ f rest,
    (s.dns f).pc ≠ .chsendWait rest

theorem Turn.cases (h : Turn s) (f : Fam) : ∃ idx, s.coordinator.cls idx = f := by
  have hboth := h.both
  rcases hc₀ : s.coordinator.cls 0 with _ | _ <;> rcases hc₁ : s.coordinator.cls 1 with _ | _ <;>
    rw [hc₀, hc₁] at hboth <;> cases f <;>
    first
    | exact absurd rfl hboth
    | exact ⟨0, hc₀⟩
    | exact ⟨1, hc₁⟩

/-- Where the coordinator goes on when it is sent an address. -/
theorem receive_cases {f : Fam} {addr : IpAddr} {pc : CoordinatorPc}
    (hrecv : s.coordinator.receive f addr = some pc) :
    (∃ d, s.coordinator.pc = .chrecvWait d ∧ f = .ipv6 ∧ pc = .received addr) ∨
      ∃ nw idx, s.coordinator.pc = .chooseWait nw ∧ s.coordinator.cls idx = f ∧
        pc = .useAddress idx nw addr := by
  unfold Coordinator.receive at hrecv
  split at hrecv
  · rename_i d hpc
    split at hrecv
    · rename_i hf
      cases hrecv
      exact .inl ⟨d, hpc, hf, rfl⟩
    · cases hrecv
  · rename_i nw hpc
    obtain ⟨idx, hidx, rfl⟩ := Option.map_eq_some_iff.mp hrecv
    refine .inr ⟨nw, idx, hpc, ?_, rfl⟩
    unfold clauseOn at hidx
    split at hidx
    · rename_i hc
      cases hidx
      exact hc
    · split at hidx
      · rename_i hc
        cases hidx
        exact hc
      · cases hidx
  · cases hrecv

theorem Turn.receive_some (h : Turn s) {nw : ℕ} (hpc : s.coordinator.pc = .chooseWait nw) (f : Fam)
    (addr : IpAddr) : s.coordinator.receive f addr ≠ none := by
  obtain ⟨idx, hidx⟩ := h.cases f
  unfold Coordinator.receive clauseOn
  rw [hpc]
  dsimp only
  split
  · nofun
  · rename_i h₀
    split
    · nofun
    · rename_i h₁
      rcases (Fin.exists_fin_two (p := fun i => s.coordinator.cls i = f)).mp ⟨idx, hidx⟩ with h | h
      · exact absurd h h₀
      · exact absurd h h₁

/-- The coordinator, the attempts and who waits for the coordinator stay as they are. -/
theorem Turn.congr (h : Turn s) (hpc : s'.coordinator.pc = s.coordinator.pc)
    (hcls : s'.coordinator.cls = s.coordinator.cls) (hlog : s'.log = s.log)
    (hw : ∀ nw, s.coordinator.pc = .chooseWait nw → ∀ f rest, (s'.dns f).pc ≠ .chsendWait rest) :
    Turn s' where
  opening := by
    rw [hpc, hcls, hlog]
    exact h.opening
  both := by
    rw [hcls]
    exact h.both
  swap := by
    rw [hpc, hcls, hlog]
    exact h.swap
  second := by
    rw [hpc, hcls, hlog]
    exact h.second
  waiting := by
    rw [hpc]
    exact hw

/-- The coordinator does not work any more. -/
theorem Turn.leave {pc : CoordinatorPc} (hpc : s'.coordinator.pc = pc)
    (hboth : s'.coordinator.cls 0 ≠ s'.coordinator.cls 1) (hstage : pc.stage = .closing) :
    Turn s' where
  opening ho := by
    rw [hpc] at ho
    cases pc <;> cases hstage <;> cases ho
  both := hboth
  swap idx nw he := by
    rw [hpc] at he
    subst he
    cases hstage
  second hg := by
    rw [hpc, hstage] at hg
    cases hg
  waiting nw he := by
    rw [hpc] at he
    subst he
    cases hstage

/-- The coordinator goes on with the clauses and the attempts as they are. -/
theorem Turn.goto (h : Turn s) {pc : CoordinatorPc} (hpc : s'.coordinator.pc = pc)
    (hcls : s'.coordinator.cls = s.coordinator.cls) (hlog : s'.log = s.log)
    (hopen : pc.opening = true → s.coordinator.pc.opening = true)
    (hsleep : ∀ idx nw, pc ≠ .msleep idx nw)
    (hwork : pc.stage = .working → s.coordinator.pc.opening = true ∨
      s.coordinator.pc.stage = .working ∧ ∀ idx nw, s.coordinator.pc ≠ .msleep idx nw)
    (hw : ∀ nw, pc = .chooseWait nw → ∀ f rest, (s'.dns f).pc ≠ .chsendWait rest) :
    Turn s' where
  opening := by
    rw [hpc, hcls, hlog]
    exact fun ho => h.opening (hopen ho)
  both := by
    rw [hcls]
    exact h.both
  swap idx nw he := absurd (hpc.symm.trans he) (hsleep idx nw)
  second := by
    rw [hpc, hcls, hlog]
    intro hg _ e he
    rcases hwork hg with ho | ⟨hg', hs⟩
    · rw [(h.opening ho).1] at he
      cases he
    · exact h.second hg' hs e he
  waiting := by
    rw [hpc]
    exact hw

/-- A query goes on, and does not wait to send. -/
theorem Turn.update (h : Turn s) {f : Fam} {d : Dnsquery} (hd : ∀ rest, d.pc ≠ .chsendWait rest)
    (nw : ℕ) (hpc : s.coordinator.pc = .chooseWait nw) (g : Fam) (rest : List IpAddr) :
    (Function.update s.dns f d g).pc ≠ .chsendWait rest := by
  by_cases hg : g = f
  · subst hg
    rw [Function.update_self]
    exact hd rest
  · rw [Function.update_of_ne hg]
    exact h.waiting nw hpc g rest

theorem Turn.epilogue (h : Turn s) (w : Who) : Turn (s.epilogue w).block := by
  unfold St.epilogue
  split
  · exact .leave rfl h.both rfl
  · exact h.congr rfl rfl rfl h.waiting

theorem Turn.move (ht : Tidy base s) (h : Turn s) (hm : Move c s s') : Turn s' := by
  cases hm with
  | go e H hcur hpc hH =>
    have hk := ht.absent (.inr hpc)
    have hlog : s.log = [] := by
      unfold St.log
      rw [(ht.early (.inl hk)).2]
      rfl
    exact ⟨fun _ => ⟨hlog, rfl⟩, nofun, nofun, nofun, nofun⟩
  | recvTake i t conn hcur hpc hti htpc =>
    exact h.congr rfl rfl (log_modify fun _ => ⟨rfl, rfl⟩) h.waiting
  | stop r pc hcur hpc hdone hk =>
    rcases canceled_pc hk with rfl | rfl
    · exact h.congr rfl rfl rfl h.waiting
    · exact .leave rfl h.both rfl
  | start h₀ h₁ h₂ h₃ h₄ H hcur hpc =>
    exact h.goto rfl rfl rfl (fun _ => by rw [hpc]; rfl) nofun (fun _ => .inl (by rw [hpc]; rfl)) nofun
  | goIpv6 hcur hpc =>
    exact h.goto rfl rfl rfl (fun _ => by rw [hpc]; rfl) nofun (fun _ => .inl (by rw [hpc]; rfl)) nofun
  | goIpv4 hcur hpc =>
    exact h.goto rfl rfl rfl (fun _ => by rw [hpc]; rfl) nofun (fun _ => .inl (by rw [hpc]; rfl)) nofun
  | canceled hcur hready h₁ h₂ hno cls hcls =>
    refine .leave rfl ?_ rfl
    rcases hcls with rfl | rfl
    · exact h.both
    · exact h.both.symm
  | chrecvTake rest hcur hpc =>
    exact h.goto rfl rfl rfl (fun _ => by rw [hpc]; rfl) nofun (fun _ => .inl (by rw [hpc]; rfl)) nofun
  | chrecvWait hcur hpc =>
    exact h.goto rfl rfl rfl (fun _ => by rw [hpc]; rfl) nofun (fun _ => .inl (by rw [hpc]; rfl)) nofun
  | received addr hcur hpc =>
    exact h.goto rfl rfl rfl nofun nofun (fun _ => .inl (by rw [hpc]; rfl)) nofun
  | chooseTake idx rest hcur hpc =>
    exact h.goto rfl rfl rfl nofun nofun (fun _ => .inr ⟨by rw [hpc]; rfl, by rw [hpc]; nofun⟩) nofun
  | chooseWait hcur hpc hno hnone =>
    refine h.goto rfl rfl rfl nofun nofun (fun _ => .inr ⟨by rw [hpc]; rfl, by rw [hpc]; nofun⟩) ?_
    intro nw _ f rest
    obtain ⟨idx, rfl⟩ := h.cases f
    exact hnone idx rest
  | useNull idx nw addr hcur hpc =>
    exact h.goto rfl rfl rfl nofun nofun (fun _ => .inr ⟨by rw [hpc]; rfl, by rw [hpc]; nofun⟩) nofun
  | useAddress idx nw addr hcur hpc =>
    refine ⟨nofun, h.both, ?_, fun _ hne => absurd rfl (hne idx nw), nofun⟩
    rintro _ _ ⟨⟩ e he
    unfold St.log at he
    rw [List.map_append, List.map_singleton, List.getLast?_concat] at he
    cases he
    rfl
  | msleep idx nw hcur hpc =>
    refine ⟨nofun, ?_, nofun, fun _ _ e he => ?_, nofun⟩
    · show (if idx = 0 then ![s.coordinator.cls 1, s.coordinator.cls 0]
        else s.coordinator.cls) 0 ≠ (if idx = 0 then ![s.coordinator.cls 1, s.coordinator.cls 0]
        else s.coordinator.cls) 1
      split
      · exact h.both.symm
      · exact h.both
    · show e.1 = (if idx = 0 then ![s.coordinator.cls 1, s.coordinator.cls 0]
        else s.coordinator.cls) 1
      have hlast := h.swap idx nw hpc e he
      split
      · rename_i h₀
        rw [hlast, h₀]
        rfl
      · rename_i h₀
        rw [hlast, Fin.eq_one_of_ne_zero idx h₀]
  | crClose w hcur hpc =>
    refine .leave rfl ?_ rfl
    show (s.crClose w).coordinator.cls 0 ≠ (s.crClose w).coordinator.cls 1
    rw [crClose_coordinator]
    exact h.both
  | bundleClosed H hcur hpc => exact .leave rfl h.both rfl
  | closeWake r H hcur hpc => exact h.goto rfl rfl rfl nofun nofun nofun nofun
  | close H hcur hpc => exact h.goto rfl rfl rfl nofun nofun nofun nofun
  | remotesWait f hcur hpc => exact h.congr rfl rfl rfl (h.update nofun)
  | answers f l hcur hpc => exact h.congr rfl rfl rfl (h.update nofun)
  | sendCanceled f rest hcur hpc => exact h.congr rfl rfl rfl (h.update nofun)
  | send f rest pc hcur hpc hrecv =>
    rcases receive_cases hrecv with ⟨d, hk, hf, rfl⟩ | ⟨nw, idx, hk, hidx, rfl⟩
    · exact h.goto rfl rfl rfl (fun _ => by rw [hk]; rfl) nofun (fun _ => .inl (by rw [hk]; rfl))
        nofun
    · exact h.goto rfl rfl rfl nofun nofun (fun _ => .inr ⟨by rw [hk]; rfl, by rw [hk]; nofun⟩)
        nofun
  | sendWait f rest hcur hpc hno hnone =>
    exact h.congr rfl rfl rfl fun nw hk => absurd hnone (h.receive_some hk f _)
  | dnsExit f marked hcur hpc =>
    have hd : Turn (s.dnsAt f (.done marked)) := h.congr rfl rfl rfl (h.update nofun)
    exact hd.epilogue _
  | connectWait i t hcur hti hpc =>
    exact h.congr rfl rfl (log_modify fun _ => ⟨rfl, rfl⟩) h.waiting
  | connectFails i t hcur hti hpc =>
    exact h.congr rfl rfl (log_modify fun _ => ⟨rfl, rfl⟩) h.waiting
  | connects i t conn H hcur hti hpc =>
    exact h.congr rfl rfl (log_modify fun _ => ⟨rfl, rfl⟩) h.waiting
  | connCanceled i t conn hcur hti hpc =>
    exact h.congr rfl rfl (log_modify fun _ => ⟨rfl, rfl⟩) h.waiting
  | connSend i t conn hcur hti hpc =>
    exact h.congr rfl rfl (log_modify fun _ => ⟨rfl, rfl⟩) h.waiting
  | connWait i t conn hcur hti hpc =>
    exact h.congr rfl rfl (log_modify fun _ => ⟨rfl, rfl⟩) h.waiting
  | connClose i t conn H hcur hti hpc =>
    exact h.congr rfl rfl (log_modify fun _ => ⟨rfl, rfl⟩) h.waiting
  | attemptExit i t hcur hti hpc =>
    have ha : Turn (s.attemptAt i .done) :=
      h.congr rfl rfl (log_modify fun _ => ⟨rfl, rfl⟩) h.waiting
    exact ha.epilogue _
  | eventDns f hcur hpc => exact h.congr rfl rfl rfl (h.update nofun)
  | eventAttempt i t hcur hti hpc =>
    exact h.congr rfl rfl (log_modify fun _ => ⟨rfl, rfl⟩) h.waiting
  | timeoutChrecv d hcur hpc =>
    exact h.goto rfl rfl rfl nofun nofun (fun _ => .inl (by rw [hpc]; rfl)) nofun
  | timeoutMsleep d hcur hpc =>
    exact h.goto rfl rfl rfl nofun nofun (fun _ => .inr ⟨by rw [hpc]; rfl, by rw [hpc]; nofun⟩) nofun
  | _ => exact h.congr rfl rfl rfl h.waiting

/-! ## The addresses -/

theorem tried_congr (hlog : s'.log = s.log) (f : Fam) : s'.tried f = s.tried f := by
  unfold St.tried
  rw [hlog]

/-- Nothing changes but the caller and the connections of the attempts. -/
theorem Streams.congr (h : Streams c s) (hpc : s'.coordinator.pc = s.coordinator.pc)
    (hcls : s'.coordinator.cls = s.coordinator.cls) (hlog : s'.log = s.log) (hdns : s'.dns = s.dns)
    (hmain : s'.main.pc = .go → 0 < c.port) : Streams c s' where
  initial f := by
    rw [tried_congr hlog, hdns]
    exact h.initial f
  unasked f := by
    rw [tried_congr hlog, hdns]
    exact h.unasked f
  exact hg f := by
    rw [hpc] at hg
    have hhand : s'.coordinator.handed f = s.coordinator.handed f := by
      unfold Coordinator.handed Coordinator.hand
      rw [hpc, hcls]
    rw [tried_congr hlog, hdns, hhand]
    exact h.exact hg f
  nonnull f := by
    rw [hdns]
    exact h.nonnull f
  used := by
    rw [hlog]
    exact h.used
  port := by
    rintro (hgo | hk)
    · exact hmain hgo
    · exact h.port (.inr (hpc ▸ hk))
  goIpv6 := by
    rw [hpc, hdns]
    exact h.goIpv6
  goIpv4 := by
    rw [hpc, hdns]
    exact h.goIpv4

/-- The coordinator does not work any more. -/
theorem Streams.leave (h : Streams c s) {pc : CoordinatorPc} (hpc : s'.coordinator.pc = pc)
    (hstage : pc.stage = .closing ∨ pc.stage = .done) (hlog : s'.log = s.log)
    (haddrs : ∀ f, (s'.dns f).addrs = (s.dns f).addrs)
    (hask : ∀ f, (s'.dns f).pc.asked = false → (s.dns f).pc.asked = false)
    (hport : 0 < c.port) : Streams c s' where
  initial f := by
    rw [tried_congr hlog, haddrs]
    exact h.initial f
  unasked f hf := by
    rw [tried_congr hlog]
    exact h.unasked f (hask f hf)
  exact hg := by
    rw [hpc] at hg
    rcases hstage with hs | hs <;> cases hs.symm.trans hg
  nonnull f := by
    rw [haddrs]
    exact h.nonnull f
  used := by
    rw [hlog]
    exact h.used
  port _ := hport
  goIpv6 hk := by
    rw [← hpc, hk] at hstage
    rcases hstage with hs | hs <;> cases hs
  goIpv4 hk := by
    rw [← hpc, hk] at hstage
    rcases hstage with hs | hs <;> cases hs

/-- The coordinator goes on, the queries and the attempts stay as they are. -/
theorem Streams.goto (h : Streams c s) {pc : CoordinatorPc} (hpc : s'.coordinator.pc = pc)
    (hlog : s'.log = s.log) (hdns : s'.dns = s.dns)
    (hexact : pc.stage = .working → ∀ f, Exact (s.dns f) (s.tried f) (s'.coordinator.handed f))
    (hport : 0 < c.port) (h₆ : pc = .goIpv6 → ∀ f, (s.dns f).pc = .absent)
    (h₄ : pc ≠ .goIpv4) : Streams c s' where
  initial f := by
    rw [tried_congr hlog, hdns]
    exact h.initial f
  unasked f := by
    rw [tried_congr hlog, hdns]
    exact h.unasked f
  exact hg f := by
    rw [tried_congr hlog, hdns]
    exact hexact (hpc ▸ hg) f
  nonnull f := by
    rw [hdns]
    exact h.nonnull f
  used := by
    rw [hlog]
    exact h.used
  port _ := hport
  goIpv6 he := by
    rw [hdns]
    exact h₆ (hpc.symm.trans he)
  goIpv4 he := absurd (hpc.symm.trans he) h₄

/-- One query goes on, with the addresses it has. -/
theorem Streams.query (h : Streams c s) {f : Fam} {d : Dnsquery}
    (hdns : s'.dns = Function.update s.dns f d) (hlog : s'.log = s.log)
    (haddrs : d.addrs = (s.dns f).addrs) (hask : d.pc.asked = false → (s.dns f).pc.asked = false)
    (hexact : s'.coordinator.pc.stage = .working → Exact d (s.tried f) (s'.coordinator.handed f) ∧
      ∀ g, g ≠ f → Exact (s.dns g) (s.tried g) (s'.coordinator.handed g))
    (hport : 0 < c.port) (h₆ : s'.coordinator.pc = .goIpv6 → ∀ f, (s'.dns f).pc = .absent)
    (h₄ : s'.coordinator.pc = .goIpv4 → (s'.dns .ipv4).pc = .absent) : Streams c s' where
  initial g := by
    rw [tried_congr hlog, hdns]
    by_cases hg : g = f
    · subst hg
      rw [Function.update_self, haddrs]
      exact h.initial g
    · rw [Function.update_of_ne hg]
      exact h.initial g
  unasked g := by
    rw [tried_congr hlog, hdns]
    by_cases hg : g = f
    · subst hg
      rw [Function.update_self]
      exact fun hf => h.unasked g (hask hf)
    · rw [Function.update_of_ne hg]
      exact h.unasked g
  exact hw g := by
    rw [tried_congr hlog, hdns]
    by_cases hg : g = f
    · subst hg
      rw [Function.update_self]
      exact (hexact hw).1
    · rw [Function.update_of_ne hg]
      exact (hexact hw).2 g hg
  nonnull g := by
    rw [hdns]
    by_cases hg : g = f
    · subst hg
      rw [Function.update_self, haddrs]
      exact h.nonnull g
    · rw [Function.update_of_ne hg]
      exact h.nonnull g
  used := by
    rw [hlog]
    exact h.used
  port _ := hport
  goIpv6 := h₆
  goIpv4 := h₄

/-- A query that was launched does nothing the launches rely on. -/
theorem Streams.launched (h : Streams c s) {f : Fam} (hf : (s.dns f).pc ≠ .absent)
    (d : Dnsquery) : s.coordinator.pc ≠ .goIpv6 ∧
      (s.coordinator.pc = .goIpv4 → (Function.update s.dns f d .ipv4).pc = .absent) := by
  constructor
  · intro hk
    exact hf (h.goIpv6 hk f)
  · intro hk
    have h₄ := h.goIpv4 hk
    have hne : Fam.ipv4 ≠ f := by
      rintro rfl
      exact hf h₄
    rw [Function.update_of_ne hne]
    exact h₄

/-- The same when the coordinator stays where it is. -/
theorem Streams.own (h : Streams c s) (ht : Tidy base s) {f : Fam} {d : Dnsquery}
    (hf : (s.dns f).pc ≠ .absent) (hdns : s'.dns = Function.update s.dns f d)
    (hk : s'.coordinator = s.coordinator) (hlog : s'.log = s.log)
    (haddrs : d.addrs = (s.dns f).addrs) (hask : d.pc.asked = false → (s.dns f).pc.asked = false)
    (hexact : ∀ got hand, Exact (s.dns f) got hand → Exact d got hand) : Streams c s' := by
  obtain ⟨h₆, h₄⟩ := h.launched hf d
  have hport : 0 < c.port := h.port (.inr fun hk => hf ((ht.early (.inl hk)).1 f))
  refine h.query hdns hlog haddrs hask ?_ hport ?_ ?_
  · rw [hk]
    intro hg
    exact ⟨hexact _ _ (h.exact hg f), fun g _ => h.exact hg g⟩
  · rw [hk]
    exact fun he => absurd he h₆
  · rw [hk, hdns]
    exact h₄

theorem Streams.epilogue (h : Streams c s) (w : Who) : Streams c (s.epilogue w).block := by
  unfold St.epilogue
  split
  · rename_i hk
    exact h.leave rfl (.inl rfl) rfl (fun _ => rfl) (fun _ hf => hf)
      (h.port (.inr (by rw [hk]; nofun)))
  · exact h.congr rfl rfl rfl rfl fun hgo => h.port (.inl hgo)

/-- The hand of the coordinator when it has taken something. -/
theorem handed_of_hand {k : Coordinator} {g : Fam} {addr : IpAddr} (h : k.hand = some (g, addr))
    (f : Fam) : k.handed f = if g = f then [addr] else [] := by
  unfold Coordinator.handed
  rw [h]
  by_cases hg : g = f <;> simp [hg]

theorem handed_of_none {k : Coordinator} (h : k.hand = none) (f : Fam) : k.handed f = [] := by
  unfold Coordinator.handed
  rw [h]
  rfl

/-- The coordinator receives what the query sends. -/
theorem Streams.take (h : Streams c s) {f : Fam} {rest : List IpAddr}
    (hg : s.coordinator.pc.stage = .working)
    (hpc : (s.dns f).pc = .chsend rest ∨ (s.dns f).pc = .chsendWait rest)
    (hempty : s.coordinator.hand = none) (hhand : s'.coordinator.hand = some (f, outgoing rest))
    (hdns : s'.dns = Function.update s.dns f { s.dns f with pc := afterSend rest })
    (hlog : s'.log = s.log) : Streams c s' := by
  have hasked : (afterSend rest).asked = true := by cases rest <;> rfl
  have hopen : s'.coordinator.pc ≠ .goIpv6 ∧ s'.coordinator.pc ≠ .goIpv4 := by
    constructor <;> intro he <;> unfold Coordinator.hand at hhand <;> rw [he] at hhand <;>
      cases hhand
  have hk : s.coordinator.pc ≠ .absent := by
    intro he
    rw [he] at hg
    cases hg
  refine h.query hdns hlog rfl (fun hf => ?_) (fun _ => ⟨?_, fun g hgf => ?_⟩) (h.port (.inr hk))
    (fun he => absurd he hopen.1) fun he => absurd he hopen.2
  · rw [hasked] at hf
    cases hf
  · have hex := h.exact hg f
    rw [handed_of_none hempty] at hex
    rw [handed_of_hand hhand, if_pos rfl]
    refine Exact.take ?_
    unfold Exact at hex
    rcases hpc with hpc | hpc <;> rw [hpc] at hex <;> simpa using hex
  · have hex := h.exact hg g
    rw [handed_of_none hempty] at hex
    rw [handed_of_hand hhand, if_neg fun he => hgf he.symm]
    exact hex

/-- The coordinator goes on with an empty hand. -/
theorem Streams.idle (h : Streams c s) (hg : s.coordinator.pc.stage = .working)
    (hempty : s.coordinator.hand = none) {pc : CoordinatorPc} (hpc : s'.coordinator.pc = pc)
    (hempty' : s'.coordinator.hand = none) (hlog : s'.log = s.log) (hdns : s'.dns = s.dns)
    (h₆ : pc ≠ .goIpv6) (h₄ : pc ≠ .goIpv4) : Streams c s' := by
  have hk : s.coordinator.pc ≠ .absent := by
    intro he
    rw [he] at hg
    cases hg
  refine h.goto hpc hlog hdns (fun _ f => ?_) (h.port (.inr hk)) (fun he => absurd he h₆) h₄
  have hex := h.exact hg f
  rw [handed_of_none hempty] at hex
  rw [handed_of_none hempty']
  exact hex

/-- A query is launched. -/
theorem Streams.launch (h : Streams c s) (hg : s.coordinator.pc.stage = .working)
    (hempty : s.coordinator.hand = none) {f : Fam} (hf : (s.dns f).pc = .absent)
    (hempty' : s'.coordinator.hand = none)
    (hdns : s'.dns = Function.update s.dns f { s.dns f with pc := .remotes })
    (hlog : s'.log = s.log) (h₆ : s'.coordinator.pc ≠ .goIpv6)
    (h₄ : s'.coordinator.pc = .goIpv4 → (s'.dns .ipv4).pc = .absent) : Streams c s' := by
  have hk : s.coordinator.pc ≠ .absent := by
    intro he
    rw [he] at hg
    cases hg
  refine h.query hdns hlog rfl (fun _ => by rw [hf]; rfl) (fun _ => ⟨?_, fun g _ => ?_⟩)
    (h.port (.inr hk)) (fun he => absurd he h₆) h₄
  · rw [handed_of_none hempty']
    exact ⟨h.unasked f (by rw [hf]; rfl), rfl⟩
  · have hex := h.exact hg g
    rw [handed_of_none hempty] at hex
    rw [handed_of_none hempty']
    exact hex

theorem tried_append {t : Attempt} (hl : s'.attempts = s.attempts ++ [t])
    (f : Fam) : s'.tried f = s.tried f ++ if t.fam = f then [t.addr] else [] := by
  unfold St.tried St.log
  rw [hl]
  by_cases hf : t.fam = f <;> simp [hf]

/-- An address is attempted. -/
theorem Streams.attempt (h : Streams c s) {idx : Fin 2} {nw : ℕ} {addr : IpAddr}
    (hpc : s.coordinator.pc = .useAddress idx nw addr) (hnull : addr ≠ nulladdr)
    (hpc' : s'.coordinator.pc = .msleep idx nw) {t : Attempt}
    (hl : s'.attempts = s.attempts ++ [t]) (ht : t.fam = s.coordinator.cls idx ∧ t.addr = addr)
    (hdns : s'.dns = s.dns) : Streams c s' := by
  have hhand : s.coordinator.hand = some (s.coordinator.cls idx, addr) := by
    unfold Coordinator.hand
    rw [hpc]
  have hempty : s'.coordinator.hand = none := by
    unfold Coordinator.hand
    rw [hpc']
  have htried : ∀ f, Exact (s.dns f) (s'.tried f) [] := by
    intro f
    have hex := h.exact (by rw [hpc]; rfl) f
    rw [handed_of_hand hhand] at hex
    rw [tried_append hl, ht.1, ht.2]
    split at hex
    · rename_i hf
      rw [if_pos hf]
      exact hex.use hnull
    · rename_i hf
      rw [if_neg hf, List.append_nil]
      exact hex
  constructor
  · intro f
    rw [hdns]
    exact (htried f).initial
  · intro f hf
    rw [hdns] at hf
    have hex := htried f
    unfold Exact at hex
    cases hd : (s.dns f).pc <;> rw [hd] at hf hex <;> first | exact hex.1 | cases hf
  · intro _ f
    rw [hdns, handed_of_none hempty]
    exact htried f
  · intro f
    rw [hdns]
    exact h.nonnull f
  · intro e he
    unfold St.log at he
    rw [hl, List.map_append, List.mem_append] at he
    rcases he with he | he
    · exact h.used e he
    · obtain rfl := List.mem_singleton.mp he
      show t.addr ≠ nulladdr
      rw [ht.2]
      exact hnull
  · exact fun _ => h.port (.inr (by rw [hpc]; nofun))
  · rw [hpc']
    nofun
  · rw [hpc']
    nofun

/-- A query gets its answers. -/
theorem Streams.answers (h : Streams c s) (ht : Tidy base s) {f : Fam} {l : List IpAddr}
    (hpc : (s.dns f).pc = .remotes) (hl : Answers c f l) :
    Streams c { s with
      dns := Function.update s.dns f { s.dns f with pc := .chsend l, addrs := l } } := by
  have hf : (s.dns f).pc ≠ .absent := by
    rw [hpc]
    nofun
  have hport : 0 < c.port := h.port (.inr fun hk => hf ((ht.early (.inl hk)).1 f))
  have hnone : s.tried f = [] := h.unasked f (by rw [hpc]; rfl)
  obtain ⟨h₆, h₄⟩ := h.launched hf { s.dns f with pc := .chsend l, addrs := l }
  refine ⟨fun g => ?_, fun g => ?_, fun hg g => ?_, fun g => ?_, h.used, fun _ => hport,
    fun he => absurd he h₆, h₄⟩
  · show s.tried g <+: (Function.update s.dns f _ g).addrs
    by_cases hgf : g = f
    · subst hgf
      rw [hnone]
      exact List.nil_prefix
    · rw [Function.update_of_ne hgf]
      exact h.initial g
  · show (Function.update s.dns f _ g).pc.asked = false → s.tried g = []
    by_cases hgf : g = f
    · subst hgf
      exact fun _ => hnone
    · rw [Function.update_of_ne hgf]
      exact h.unasked g
  · show Exact (Function.update s.dns f _ g) (s.tried g) (s.coordinator.handed g)
    have hex := h.exact hg g
    by_cases hgf : g = f
    · subst hgf
      unfold Exact at hex
      rw [hpc] at hex
      rw [Function.update_self, hex.1, hex.2]
      rfl
    · rw [Function.update_of_ne hgf]
      exact hex
  · show nulladdr ∉ (Function.update s.dns f _ g).addrs
    by_cases hgf : g = f
    · subst hgf
      rw [Function.update_self]
      exact nulladdr_not_mem hl hport
    · rw [Function.update_of_ne hgf]
      exact h.nonnull g

theorem crClose_addrs (s : St) (w : Who) (f : Fam) :
    ((s.crClose w).dns f).addrs = (s.dns f).addrs := by
  cases w with
  | dnsquery g =>
    show (Function.update s.dns g _ f).addrs = _
    by_cases hf : f = g
    · subst hf
      rw [Function.update_self]
      rfl
    · rw [Function.update_of_ne hf]
  | _ => rfl

theorem crClose_asked (s : St) (w : Who) (f : Fam)
    (hf : ((s.crClose w).dns f).pc.asked = false) : (s.dns f).pc.asked = false := by
  cases w with
  | dnsquery g =>
    have hu : (Function.update s.dns g (s.dns g).close f).pc.asked = false := hf
    by_cases hfg : f = g
    · subst hfg
      rw [Function.update_self] at hu
      cases hd : (s.dns f).pc <;> first | rfl | (unfold Dnsquery.close at hu; rw [hd] at hu; cases hu)
    · rwa [Function.update_of_ne hfg] at hu
  | _ => exact hf

theorem crClose_log (s : St) (w : Who) : (s.crClose w).log = s.log := by
  cases w with
  | attempt i => exact log_modify close_keeps
  | _ => rfl

theorem Streams.move (ht : Tidy base s) (htu : Turn s) (h : Streams c s) (hm : Move c s s') :
    Streams c s' := by
  have hgo : s.main.pc = .go → 0 < c.port := fun hgo => h.port (.inl hgo)
  have hport (hk : s.coordinator.pc ≠ .absent) : 0 < c.port := h.port (.inr hk)
  cases hm with
  | chmake h₀ h₁ H hcur hpc hport hH => exact h.congr rfl rfl rfl rfl fun _ => hport
  | go e H hcur hpc hH => exact h.goto rfl rfl rfl nofun (hgo hpc) nofun nofun
  | recvTake i t conn hcur hpc hti htpc =>
    exact h.congr rfl rfl (log_modify fun _ => ⟨rfl, rfl⟩) rfl nofun
  | stop r pc hcur hpc hdone hk =>
    rcases canceled_pc hk with rfl | rfl
    · exact h.congr rfl rfl rfl rfl nofun
    · refine h.leave rfl (.inl rfl) rfl (fun _ => rfl) (fun _ hf => hf) (hport fun he => ?_)
      rw [he] at hk
      cases hk
  | start h₀ h₁ h₂ h₃ h₄ H hcur hpc =>
    obtain ⟨hd, ha⟩ := ht.early (.inr hpc)
    refine h.goto rfl rfl rfl (fun _ f => ?_) (hport (by rw [hpc]; nofun)) (fun _ => hd) nofun
    unfold Exact
    rw [hd f]
    exact ⟨h.unasked f (by rw [hd f]; rfl), rfl⟩
  | goIpv6 hcur hpc =>
    exact h.launch (by rw [hpc]; rfl) (by unfold Coordinator.hand; rw [hpc]) (h.goIpv6 hpc .ipv6)
      rfl rfl rfl nofun fun _ => h.goIpv6 hpc .ipv4
  | goIpv4 hcur hpc =>
    exact h.launch (by rw [hpc]; rfl) (by unfold Coordinator.hand; rw [hpc]) (h.goIpv4 hpc)
      rfl rfl rfl nofun nofun
  | canceled hcur hready h₁ h₂ hno cls hcls =>
    refine h.leave rfl (.inl rfl) rfl (fun _ => rfl) (fun _ hf => hf) (hport fun he => ?_)
    rw [he] at hready
    cases hready
  | chrecvTake rest hcur hpc hrest =>
    exact h.take (by rw [hpc]; rfl) (.inr hrest) (by unfold Coordinator.hand; rw [hpc]) rfl rfl rfl
  | chrecvWait hcur hpc =>
    exact h.idle (by rw [hpc]; rfl) (by unfold Coordinator.hand; rw [hpc]) rfl rfl rfl rfl nofun
      nofun
  | received addr hcur hpc =>
    refine h.goto rfl rfl rfl (fun _ f => ?_) (hport (by rw [hpc]; nofun)) nofun nofun
    have hcls := (htu.opening (by rw [hpc]; rfl)).2
    have hex := h.exact (by rw [hpc]; rfl) f
    have hhand : s.coordinator.hand = some (s.coordinator.cls 0, addr) := by
      unfold Coordinator.hand
      rw [hpc, hcls]
    rw [handed_of_hand hhand] at hex
    have hhand' : (s.coordinatorAt (.useAddress 0 s.now addr)).coordinator.hand =
        some (s.coordinator.cls 0, addr) := rfl
    rw [handed_of_hand hhand']
    exact hex
  | chooseTake idx rest hcur hpc hrest =>
    exact h.take (by rw [hpc]; rfl) (.inr hrest) (by unfold Coordinator.hand; rw [hpc]) rfl rfl rfl
  | chooseWait hcur hpc hno hnone =>
    exact h.idle (by rw [hpc]; rfl) (by unfold Coordinator.hand; rw [hpc]) rfl rfl rfl rfl nofun
      nofun
  | useNull idx nw addr hcur hpc hnull =>
    refine h.goto rfl rfl rfl (fun _ f => ?_) (hport (by rw [hpc]; nofun)) nofun nofun
    have hex := h.exact (by rw [hpc]; rfl) f
    have hhand : s.coordinator.hand = some (s.coordinator.cls idx, addr) := by
      unfold Coordinator.hand
      rw [hpc]
    rw [handed_of_hand hhand, ipaddrEqual_eq hnull] at hex
    show Exact (s.dns f) (s.tried f) []
    split at hex
    · exact hex.drop (h.nonnull f)
    · exact hex
  | useAddress idx nw addr hcur hpc hnull =>
    refine h.attempt hpc ?_ rfl rfl ⟨rfl, rfl⟩ rfl
    rintro rfl
    rw [ipaddrEqual_nulladdr] at hnull
    cases hnull
  | msleep idx nw hcur hpc =>
    exact h.idle (by rw [hpc]; rfl) (by unfold Coordinator.hand; rw [hpc]) rfl rfl rfl rfl nofun
      nofun
  | crClose w hcur hpc =>
    exact h.leave rfl (.inl rfl) (crClose_log s w) (crClose_addrs s w) (crClose_asked s w)
      (hport (by rw [hpc]; nofun))
  | bundleClosed H hcur hpc =>
    exact h.leave rfl (.inl rfl) rfl (fun _ => rfl) (fun _ hf => hf) (hport (by rw [hpc]; nofun))
  | closeWake r H hcur hpc =>
    exact h.leave rfl (.inr rfl) rfl (fun _ => rfl) (fun _ hf => hf) (hport (by rw [hpc]; nofun))
  | close H hcur hpc =>
    exact h.leave rfl (.inr rfl) rfl (fun _ => rfl) (fun _ hf => hf) (hport (by rw [hpc]; nofun))
  | remotesWait f hcur hpc =>
    refine h.own ht (by rw [hpc]; nofun) rfl rfl rfl rfl (fun _ => by rw [hpc]; rfl) ?_
    intro got hand hex
    unfold Exact at hex
    rw [hpc] at hex
    exact hex
  | answers f l hcur hpc hl => exact h.answers ht hpc hl
  | sendCanceled f rest hcur hpc =>
    refine h.own ht (by rw [hpc]; nofun) rfl rfl rfl rfl nofun ?_
    intro got hand hex
    unfold Exact at hex
    rw [hpc] at hex
    exact ⟨rest, hex⟩
  | send f rest pc hcur hpc hrecv =>
    rcases receive_cases hrecv with ⟨d, hk, rfl, rfl⟩ | ⟨nw, idx, hk, rfl, rfl⟩
    · exact h.take (by rw [hk]; rfl) (.inl hpc) (by unfold Coordinator.hand; rw [hk]) rfl rfl rfl
    · exact h.take (by rw [hk]; rfl) (.inl hpc) (by unfold Coordinator.hand; rw [hk]) rfl rfl rfl
  | sendWait f rest hcur hpc hno hnone =>
    refine h.own ht (by rw [hpc]; nofun) rfl rfl rfl rfl nofun ?_
    intro got hand hex
    unfold Exact at hex
    rw [hpc] at hex
    exact hex
  | dnsExit f marked hcur hpc =>
    have hd : Streams c (s.dnsAt f (.done marked)) := by
      refine h.own ht (by rw [hpc]; nofun) rfl rfl rfl rfl nofun ?_
      intro got hand hex
      unfold Exact at hex
      rw [hpc] at hex
      cases marked <;> exact hex
    exact hd.epilogue _
  | connectWait i t hcur hti hpc => exact h.congr rfl rfl (log_modify fun _ => ⟨rfl, rfl⟩) rfl hgo
  | connectFails i t hcur hti hpc => exact h.congr rfl rfl (log_modify fun _ => ⟨rfl, rfl⟩) rfl hgo
  | connects i t conn H hcur hti hpc =>
    exact h.congr rfl rfl (log_modify fun _ => ⟨rfl, rfl⟩) rfl hgo
  | connCanceled i t conn hcur hti hpc =>
    exact h.congr rfl rfl (log_modify fun _ => ⟨rfl, rfl⟩) rfl hgo
  | connSend i t conn hcur hti hpc =>
    exact h.congr rfl rfl (log_modify fun _ => ⟨rfl, rfl⟩) rfl nofun
  | connWait i t conn hcur hti hpc => exact h.congr rfl rfl (log_modify fun _ => ⟨rfl, rfl⟩) rfl hgo
  | connClose i t conn H hcur hti hpc =>
    exact h.congr rfl rfl (log_modify fun _ => ⟨rfl, rfl⟩) rfl hgo
  | attemptExit i t hcur hti hpc =>
    have ha : Streams c (s.attemptAt i .done) :=
      h.congr rfl rfl (log_modify fun _ => ⟨rfl, rfl⟩) rfl hgo
    exact ha.epilogue _
  | eventDns f hcur hpc =>
    refine h.own ht (by rw [hpc]; nofun) rfl rfl rfl rfl (fun _ => by rw [hpc]; rfl) ?_
    intro got hand hex
    unfold Exact at hex
    rw [hpc] at hex
    exact hex
  | eventAttempt i t hcur hti hpc => exact h.congr rfl rfl (log_modify fun _ => ⟨rfl, rfl⟩) rfl hgo
  | timeoutChrecv d hcur hpc =>
    exact h.idle (by rw [hpc]; rfl) (by unfold Coordinator.hand; rw [hpc]) rfl rfl rfl rfl nofun
      nofun
  | timeoutMsleep d hcur hpc =>
    exact h.idle (by rw [hpc]; rfl) (by unfold Coordinator.hand; rw [hpc]) rfl rfl rfl rfl nofun
      nofun
  | resume w => exact h.congr rfl rfl rfl rfl hgo
  | tick d => exact h.congr rfl rfl rfl rfl hgo
  | cancel hcur hpc => exact h.congr rfl rfl rfl rfl hgo
  | _ => exact h.congr rfl rfl rfl rfl nofun

/-! ## Runs -/

theorem Init.log (h : Init base s) : s.log = [] := by
  unfold St.log
  rw [h.attempts]
  rfl

theorem Init.turn (h : Init base s) : Turn s := by
  constructor
  · intro _
    rw [h.coordinator]
    exact ⟨h.log, rfl⟩
  all_goals rw [h.coordinator]; nofun

theorem Init.tried (h : Init base s) (f : Fam) : s.tried f = [] := by
  unfold St.tried
  rw [h.log]
  rfl

theorem Init.streams (h : Init base s) : Streams c s := by
  constructor
  · intro f
    rw [h.tried]
    exact List.nil_prefix
  · exact fun f _ => h.tried f
  · rw [h.coordinator]
    nofun
  · rw [h.dns]
    nofun
  · rw [h.log]
    nofun
  · rw [h.main, h.coordinator]
    rintro (he | he)
    · cases he
    · exact absurd rfl he
  · rw [h.coordinator]
    nofun
  · rw [h.coordinator]
    nofun

theorem Reachable.streams (h : Reachable c base s) : Turn s ∧ Streams c s :=
  h.rule (I := fun s => Turn s ∧ Streams c s) (fun _ hi => ⟨hi.turn, hi.streams⟩) fun _ _ ht hs hm =>
    ⟨hs.1.move ht hm, hs.2.move ht hs.1 hm⟩

/-- The coordinator takes an item from the channel of this family. -/
def Takes (s s' : St) (f : Fam) (addr : IpAddr) : Prop :=
  s.coordinator.hand = none ∧ s'.coordinator.hand = some (f, addr)

/-- An address of this family waits to be received. -/
def St.Offers (s : St) (f : Fam) : Prop :=
  ∃ addr rest, (s.dns f).pc = .chsendWait (addr :: rest)

theorem epilogue_hand (s : St) (w : Who) :
    (s.epilogue w).coordinator.hand = s.coordinator.hand := by
  unfold St.epilogue
  split
  · rename_i hpc
    unfold Coordinator.hand
    rw [hpc]
    rfl
  · rfl

/-- When both families have something to send, the coordinator takes from the family that was not
used last. -/
theorem Turn.takes (h : Turn s) {f : Fam} {addr : IpAddr} (hm : Move c s s')
    (htakes : Takes s s' f addr) (hoffers : ∀ g, s.Offers g) {e : Fam × IpAddr}
    (he : s.log.getLast? = some e) : f ≠ e.1 := by
  obtain ⟨hnone, hsome⟩ := htakes
  cases hm with
  | chrecvTake rest hcur hpc =>
    rw [(h.opening (by rw [hpc]; rfl)).1] at he
    cases he
  | chooseTake idx rest hcur hpc hrest hfirst =>
    obtain ⟨a₀, r₀, h₀⟩ := hoffers (s.coordinator.cls 0)
    obtain rfl := hfirst _ h₀
    cases hsome
    rw [h.second (by rw [hpc]; rfl) (by rw [hpc]; nofun) e he]
    exact h.both
  | send g rest pc hcur hpc hrecv =>
    rcases receive_cases hrecv with ⟨d, hk, -, -⟩ | ⟨nw, idx, hk, -, -⟩
    · rw [(h.opening (by rw [hk]; rfl)).1] at he
      cases he
    · obtain ⟨a, r, ha⟩ := hoffers .ipv4
      exact absurd ha (h.waiting nw hk .ipv4 _)
  | received addr hcur hpc =>
    unfold Coordinator.hand at hnone
    rw [hpc] at hnone
    cases hnone
  | stop r pc hcur hpc hdone hk =>
    rcases canceled_pc hk with rfl | rfl
    · cases hnone.symm.trans hsome
    · cases hsome
  | dnsExit g marked =>
    rw [show (St.block _).coordinator.hand = _ from epilogue_hand _ _] at hsome
    cases hnone.symm.trans hsome
  | attemptExit i t =>
    rw [show (St.block _).coordinator.hand = _ from epilogue_hand _ _] at hsome
    cases hnone.symm.trans hsome
  | _ => first | cases hsome | cases hnone.symm.trans hsome

/-- **The order of the attempts.** In every run, for any answers of the two queries at any time:
the addresses attempted of each family are the first ones of its answers, in order; the end marker
is not attempted; and when an address is taken while both families have one to send, and an
attempt was made before, it is of the family that was not used last. -/
theorem attempts_in_order (h : Reachable c base s) :
    (∀ f, s.tried f <+: (s.dns f).addrs) ∧ (∀ t ∈ s.attempts, t.addr ≠ nulladdr) ∧
      ∀ a s' f addr e, s.step c a = .ok s' → Takes s s' f addr → (∀ g, s.Offers g) →
        s.log.getLast? = some e → f ≠ e.1 := by
  obtain ⟨hturn, hstreams⟩ := h.streams
  refine ⟨hstreams.initial, fun t ht => ?_, fun a s' f addr e hstep htakes hoffers he => ?_⟩
  · exact hstreams.used (t.fam, t.addr) (List.mem_map_of_mem ht)
  · exact hturn.takes ((step_post h.tidy.sound a).of_ok hstep) htakes hoffers he

/-- Two addresses of one family and one of the other; the first attempt is on its way and both
families have an address to send. -/
def bothWaiting : List Act :=
  [.run (.handles [0, 1]), .run (.handles [2]), .run (.handles [3, 4, 5, 6, 7]), .run .none,
    .run .block, .resume .main, .run .none, .resume .coordinator, .run .none, .run .block,
    .resume .coordinator, .run .none, .event (.dnsquery .ipv6), .resume (.dnsquery .ipv6),
    .run (.answers [.inet6 1 80, .inet6 2 80]), .run .none, .run .none, .resume .coordinator,
    .run .none, .run .none, .run .block, .resume .coordinator, .run .none,
    .event (.dnsquery .ipv4), .resume (.dnsquery .ipv4), .run (.answers [.inet 1 80]), .run .none,
    .tick 300, .timeout .coordinator, .resume .coordinator]

theorem attempts_in_order_bothWaiting :
    ∃ s, run (St.step ⟨some "www.example.org", 80, -1⟩) .entered bothWaiting = .ok s ∧
      s.tried .ipv6 <+: (s.dns .ipv6).addrs ∧
      ∀ s' f addr, s.step ⟨some "www.example.org", 80, -1⟩ (.run .none) = .ok s' →
        Takes s s' f addr → f ≠ .ipv6 := by
  obtain ⟨s, hrun, htest⟩ := exists_of_runsTo (St.step ⟨some "www.example.org", 80, -1⟩)
    .entered bothWaiting (fun s => s.log.getLast? = some (.ipv6, .inet6 1 80) ∧
      (s.dns .ipv6).pc = .chsendWait [.inet6 2 80] ∧ (s.dns .ipv4).pc = .chsendWait [.inet 1 80])
    (by decide)
  obtain ⟨hlast, h₆, h₄⟩ := of_decide_eq_true htest
  have hoffers : ∀ g, s.Offers g := by
    rintro (_ | _)
    · exact ⟨_, _, h₆⟩
    · exact ⟨_, _, h₄⟩
  obtain ⟨hfirst, -, hturn⟩ :=
    attempts_in_order (reach_of_run (fun _ _ => trivial) (.init St.entered_init) hrun)
  exact ⟨s, hrun, hfirst .ipv6, fun s' f addr hstep htakes =>
    hturn _ s' f addr _ hstep htakes hoffers hlast⟩

end Libdill.Happyeyeballs
