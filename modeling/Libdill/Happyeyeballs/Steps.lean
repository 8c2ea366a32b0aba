import Libdill.Happyeyeballs.Model
import Mathlib.Data.Multiset.AddSub

/-!
# Happy Eyeballs: what a step can do

`Move` lists what a step does, with what it found in the state before it; every invariant is
proved from it, a case for each move. `step_post` says that a step makes a move and that no
assertion fails, in the states in which the handles the functions close are open.
-/

namespace Libdill.Happyeyeballs

open Foundations
open Libdill.Sched (Errno)

variable {c : Call} {s s' : St} {x : Input} {a : Act}

/-! ## Handles -/

/-- What is open after a call that opens `l`. -/
theorem hmake_post (l : List ℕ) (s : St) :
    Post (s.hmake l) (fun s' => ∃ H : Finset ℕ, H.val = (l : Multiset ℕ) + s.handles.val ∧
      s' = { s with handles := H }) (· = .stuck) := by
  induction l generalizing s with
  | nil => exact ⟨s.handles, (Multiset.zero_add _).symm, rfl⟩
  | cons h₀ l ih =>
    unfold St.hmake
    split
    · rfl
    · rename_i hnew
      refine (ih _).mono ?_ fun _ he => he
      rintro _ ⟨H, hH, rfl⟩
      refine ⟨H, ?_, rfl⟩
      rw [hH, Finset.insert_val_of_notMem hnew, Multiset.add_cons, ← Multiset.cons_coe,
        Multiset.cons_add]

/-- Handles that are open can be closed, and what is open afterwards. -/
theorem hclose_post (l : List ℕ) {s : St} {M : Multiset ℕ}
    (h : s.handles.val = (l : Multiset ℕ) + M) :
    Post (s.hclose l) (fun s' => ∃ H : Finset ℕ, s.handles.val = (l : Multiset ℕ) + H.val ∧
      s' = { s with handles := H }) (· = .stuck) := by
  induction l generalizing s with
  | nil => exact ⟨s.handles, (Multiset.zero_add _).symm, rfl⟩
  | cons h₀ l ih =>
    rw [← Multiset.cons_coe, Multiset.cons_add] at h
    have hmem : h₀ ∈ s.handles := by
      rw [Finset.mem_def, h]
      exact Multiset.mem_cons_self _ _
    have herase : (s.handles.erase h₀).val = (l : Multiset ℕ) + M := by
      rw [Finset.erase_val, h, Multiset.erase_cons_head]
    unfold St.hclose
    rw [if_pos hmem]
    refine (ih herase).mono ?_ fun _ he => he
    rintro _ ⟨H, hH, rfl⟩
    refine ⟨H, ?_, rfl⟩
    have hcons := Multiset.cons_erase (Finset.mem_def.mp hmem)
    rw [← Finset.erase_val] at hcons
    rw [← hcons, hH, ← Multiset.cons_coe, Multiset.cons_add]

/-! ## Moves -/

/-- What a step does. -/
inductive Move (c : Call) (s : St) : St → Prop
  -- the caller
  | refused (e : Errno) : s.cur = some .main → s.main.pc = .start →
      Move c s (s.mainAt (.returned (.error e))).block
  | chmake (h₀ h₁ : ℕ) (H : Finset ℕ) : s.cur = some .main → s.main.pc = .start → 0 < c.port →
      H.val = (([h₀, h₁] : List ℕ) : Multiset ℕ) + s.handles.val →
      Move c s { s with
        handles := H
        main := { s.main with pc := .go, chconns := (h₀, h₁) } }
  | goFails (e : Errno) : s.cur = some .main → s.main.pc = .go →
      Move c s (s.mainAt (.exit2 (.error e)))
  | go (h : ℕ) (H : Finset ℕ) : s.cur = some .main → s.main.pc = .go →
      H.val = (([h] : List ℕ) : Multiset ℕ) + s.handles.val →
      Move c s { s with
        handles := H
        cur := some .coordinator
        main := { s.main with pc := .chrecv, coord := h }
        coordinator := { pc := .start } }
  | recvCanceled : s.cur = some .main → s.main.pc = .chrecv → s.main.noBlocking = true →
      Move c s (s.mainAt (.exit3 (.error .ECANCELED)))
  | recvTake (i : ℕ) (t : Attempt) (conn : ℕ) : s.cur = some .main → s.main.pc = .chrecv →
      s.attempts[i]? = some t → t.pc = .chsendWait conn →
      Move c s ((s.attemptAt i .leave).mainAt (.exit3 (.ok conn)))
  | recvExpired : s.cur = some .main → s.main.pc = .chrecv → c.deadline = 0 →
      Move c s (s.mainAt (.exit3 (.error .ETIMEDOUT)))
  | recvWait : s.cur = some .main → s.main.pc = .chrecv → s.main.noBlocking = false →
      c.deadline ≠ 0 → Move c s (s.mainAt .chrecvWait).block
  | stop (r : Except Errno ℕ) (pc : CoordinatorPc) : s.cur = some .main →
      s.main.pc = .exit3 r → s.coordinator.pc ≠ .done → s.coordinator.pc.canceled = .ok pc →
      Move c s ({ s with
        coordinator := { s.coordinator with pc := pc, noBlocking := true } }.mainAt
          (.exit3Wait r)).block
  | stopped (r : Except Errno ℕ) (H : Finset ℕ) : s.cur = some .main → s.main.pc = .exit3 r →
      s.coordinator.pc = .done →
      s.handles.val = (([s.main.coord] : List ℕ) : Multiset ℕ) + H.val →
      Move c s ({ s with handles := H }.mainAt (.exit2 r))
  | return (r : Except Errno ℕ) (H : Finset ℕ) : s.cur = some .main → s.main.pc = .exit2 r →
      s.handles.val = (([s.main.chconns.1, s.main.chconns.2] : List ℕ) : Multiset ℕ) + H.val →
      Move c s ({ s with handles := H }.mainAt (.returned r)).block
  -- the coordinator
  | start (h₀ h₁ h₂ h₃ h₄ : ℕ) (H : Finset ℕ) : s.cur = some .coordinator →
      s.coordinator.pc = .start →
      H.val = (([h₀, h₁, h₂, h₃, h₄] : List ℕ) : Multiset ℕ) + s.handles.val →
      Move c s { s with
        handles := H
        coordinator := { s.coordinator with
          pc := .goIpv6
          chipv6 := (h₀, h₁)
          chipv4 := (h₂, h₃)
          bndl := h₄ } }
  | goIpv6 : s.cur = some .coordinator → s.coordinator.pc = .goIpv6 →
      s.coordinator.noBlocking = false →
      Move c s { (s.dnsAt .ipv6 .remotes).coordinatorAt .goIpv4 with
        cur := some (.dnsquery .ipv6) }
  | goIpv4 : s.cur = some .coordinator → s.coordinator.pc = .goIpv4 →
      s.coordinator.noBlocking = false →
      Move c s { (s.dnsAt .ipv4 .remotes).coordinatorAt .chrecv with
        cur := some (.dnsquery .ipv4) }
  | canceled : s.cur = some .coordinator → s.coordinator.pc.ready = true →
      s.coordinator.pc ≠ .start → s.coordinator.pc ≠ .hclose →
      s.coordinator.noBlocking = true → ∀ cls, (cls = s.coordinator.cls ∨
        cls = ![s.coordinator.cls 1, s.coordinator.cls 0]) → Move c s
        ({ s with coordinator := { s.coordinator with cls := cls } }.coordinatorAt .cancel)
  | chrecvTake (rest : List IpAddr) : s.cur = some .coordinator → s.coordinator.pc = .chrecv →
      (s.dns .ipv6).pc = .chsendWait rest →
      Move c s ((s.dnsAt .ipv6 (afterSend rest)).coordinatorAt (.received (outgoing rest)))
  | chrecvWait : s.cur = some .coordinator → s.coordinator.pc = .chrecv →
      s.coordinator.noBlocking = false →
      Move c s (s.coordinatorAt (.chrecvWait (s.now + 50))).block
  | received (addr : IpAddr) : s.cur = some .coordinator → s.coordinator.pc = .received addr →
      Move c s (s.coordinatorAt (.useAddress 0 s.now addr))
  | chooseTake (idx : Fin 2) (rest : List IpAddr) : s.cur = some .coordinator →
      s.coordinator.pc = .choose →
      (s.dns (s.coordinator.cls idx)).pc = .chsendWait rest →
      (∀ r, (s.dns (s.coordinator.cls 0)).pc = .chsendWait r → idx = 0) →
      Move c s ((s.dnsAt (s.coordinator.cls idx) (afterSend rest)).coordinatorAt
        (.useAddress idx s.now (outgoing rest)))
  | chooseWait : s.cur = some .coordinator → s.coordinator.pc = .choose →
      s.coordinator.noBlocking = false →
      (∀ idx rest, (s.dns (s.coordinator.cls idx)).pc ≠ .chsendWait rest) →
      Move c s (s.coordinatorAt (.chooseWait s.now)).block
  | useNull (idx : Fin 2) (nw : ℕ) (addr : IpAddr) : s.cur = some .coordinator →
      s.coordinator.pc = .useAddress idx nw addr → ipaddrEqual addr nulladdr false = true →
      Move c s (s.coordinatorAt .choose)
  | useAddress (idx : Fin 2) (nw : ℕ) (addr : IpAddr) : s.cur = some .coordinator →
      s.coordinator.pc = .useAddress idx nw addr → ipaddrEqual addr nulladdr false = false →
      s.coordinator.noBlocking = false →
      Move c s { s.coordinatorAt (.msleep idx nw) with
        cur := some (.attempt s.attempts.length)
        attempts := s.attempts ++ [{ fam := s.coordinator.cls idx, addr := addr }] }
  | msleep (idx : Fin 2) (nw : ℕ) : s.cur = some .coordinator →
      s.coordinator.pc = .msleep idx nw → s.coordinator.noBlocking = false →
      Move c s ({ s with coordinator := { s.coordinator with
        pc := .msleepWait (nw + 300)
        cls := if idx = 0 then ![s.coordinator.cls 1, s.coordinator.cls 0]
          else s.coordinator.cls } }).block
  | crClose (w : Who) : s.cur = some .coordinator → s.coordinator.pc = .cancel →
      s.members.find? s.unfinished = some w →
      Move c s ((s.crClose w).coordinatorAt (.cancelWait w)).block
  | bundleClosed (H : Finset ℕ) : s.cur = some .coordinator → s.coordinator.pc = .cancel →
      s.members.find? s.unfinished = none →
      s.handles.val = (([s.coordinator.bndl] : List ℕ) : Multiset ℕ) + H.val →
      Move c s ({ s with handles := H }.coordinatorAt .hclose)
  | closeWake (r : Except Errno ℕ) (H : Finset ℕ) : s.cur = some .coordinator →
      s.coordinator.pc = .hclose → s.main.pc = .exit3Wait r →
      s.handles.val = (([s.coordinator.chipv4.1, s.coordinator.chipv4.2, s.coordinator.chipv6.1,
        s.coordinator.chipv6.2] : List ℕ) : Multiset ℕ) + H.val →
      Move c s (({ s with handles := H }.coordinatorAt .done).mainAt (.exit3 r)).block
  | close (H : Finset ℕ) : s.cur = some .coordinator →
      s.coordinator.pc = .hclose → (∀ r, s.main.pc ≠ .exit3Wait r) →
      s.handles.val = (([s.coordinator.chipv4.1, s.coordinator.chipv4.2, s.coordinator.chipv6.1,
        s.coordinator.chipv6.2] : List ℕ) : Multiset ℕ) + H.val →
      Move c s ({ s with handles := H }.coordinatorAt .done).block
  -- the queries
  | remotesWait (f : Fam) : s.cur = some (.dnsquery f) → (s.dns f).pc = .remotes →
      (s.dns f).noBlocking = false → Move c s (s.dnsAt f .remotesWait).block
  | answers (f : Fam) (l : List IpAddr) : s.cur = some (.dnsquery f) → (s.dns f).pc = .remotes →
      Answers c f l → Move c s { s with
        dns := Function.update s.dns f { s.dns f with pc := .chsend l, addrs := l } }
  | sendCanceled (f : Fam) (rest : List IpAddr) : s.cur = some (.dnsquery f) →
      (s.dns f).pc = .chsend rest → (s.dns f).noBlocking = true →
      Move c s (s.dnsAt f (.leave false))
  | send (f : Fam) (rest : List IpAddr) (pc : CoordinatorPc) : s.cur = some (.dnsquery f) →
      (s.dns f).pc = .chsend rest → s.coordinator.receive f (outgoing rest) = some pc →
      Move c s ((s.coordinatorAt pc).dnsAt f (afterSend rest))
  | sendWait (f : Fam) (rest : List IpAddr) : s.cur = some (.dnsquery f) →
      (s.dns f).pc = .chsend rest → (s.dns f).noBlocking = false →
      s.coordinator.receive f (outgoing rest) = none →
      Move c s (s.dnsAt f (.chsendWait rest)).block
  | dnsExit (f : Fam) (marked : Bool) : s.cur = some (.dnsquery f) →
      (s.dns f).pc = .leave marked →
      Move c s ((s.dnsAt f (.done marked)).epilogue (.dnsquery f)).block
  -- the attempts
  | connectWait (i : ℕ) (t : Attempt) : s.cur = some (.attempt i) → s.attempts[i]? = some t →
      t.pc = .connect → t.noBlocking = false → Move c s (s.attemptAt i .connectWait).block
  | connectFails (i : ℕ) (t : Attempt) : s.cur = some (.attempt i) → s.attempts[i]? = some t →
      t.pc = .connect → Move c s (s.attemptAt i .leave)
  | connects (i : ℕ) (t : Attempt) (h : ℕ) (H : Finset ℕ) : s.cur = some (.attempt i) →
      s.attempts[i]? = some t → t.pc = .connect →
      H.val = (([h] : List ℕ) : Multiset ℕ) + s.handles.val →
      Move c s { s with
        handles := H
        attempts := s.attempts.modify i fun a => { a with pc := .chsend h, conn := some h } }
  | connCanceled (i : ℕ) (t : Attempt) (conn : ℕ) : s.cur = some (.attempt i) →
      s.attempts[i]? = some t → t.pc = .chsend conn → t.noBlocking = true →
      Move c s (s.attemptAt i (.hclose conn))
  | connSend (i : ℕ) (t : Attempt) (conn : ℕ) : s.cur = some (.attempt i) →
      s.attempts[i]? = some t → t.pc = .chsend conn → s.main.pc = .chrecvWait →
      Move c s ((s.attemptAt i .leave).mainAt (.exit3 (.ok conn)))
  | connWait (i : ℕ) (t : Attempt) (conn : ℕ) : s.cur = some (.attempt i) →
      s.attempts[i]? = some t → t.pc = .chsend conn → t.noBlocking = false →
      Move c s (s.attemptAt i (.chsendWait conn)).block
  | connClose (i : ℕ) (t : Attempt) (conn : ℕ) (H : Finset ℕ) : s.cur = some (.attempt i) →
      s.attempts[i]? = some t → t.pc = .hclose conn →
      s.handles.val = (([conn] : List ℕ) : Multiset ℕ) + H.val →
      Move c s ({ s with handles := H }.attemptAt i .leave)
  | attemptExit (i : ℕ) (t : Attempt) : s.cur = some (.attempt i) → s.attempts[i]? = some t →
      t.pc = .leave → Move c s ((s.attemptAt i .done).epilogue (.attempt i)).block
  -- from outside
  | resume (w : Who) : s.cur = none → s.ready w = true → Move c s { s with cur := some w }
  | eventDns (f : Fam) : s.cur = none → (s.dns f).pc = .remotesWait →
      Move c s (s.dnsAt f .remotes)
  | eventAttempt (i : ℕ) (t : Attempt) : s.cur = none → s.attempts[i]? = some t →
      t.pc = .connectWait → Move c s (s.attemptAt i .connect)
  | timeoutMain : s.cur = none → s.main.pc = .chrecvWait → 0 ≤ c.deadline →
      Move c s (s.mainAt (.exit3 (.error .ETIMEDOUT)))
  | timeoutChrecv (d : ℕ) : s.cur = none → s.coordinator.pc = .chrecvWait d → d ≤ s.now →
      Move c s (s.coordinatorAt .choose)
  | timeoutMsleep (d : ℕ) : s.cur = none → s.coordinator.pc = .msleepWait d → d ≤ s.now →
      Move c s (s.coordinatorAt .choose)
  | tick (d : ℕ) : Move c s { s with now := s.now + d }
  | cancelWait : s.cur = none → s.main.pc = .chrecvWait → s.main.noBlocking = false →
      Move c s { s with
        main := { s.main with pc := .exit3 (.error .ECANCELED), noBlocking := true } }
  | cancel : s.cur = none → (s.main.pc = .chrecv ∨ ∃ r, s.main.pc = .exit3 r) →
      s.main.noBlocking = false → Move c s { s with main := { s.main with noBlocking := true } }

/-- What the assertions rely on. -/
structure Sound (s : St) : Prop where
  start : s.coordinator.pc = .start → s.coordinator.noBlocking = false
  stop : ∀ r w, s.main.pc = .exit3 r → s.coordinator.pc ≠ .cancelWait w
  coord : ∀ r, s.main.pc = .exit3 r →
    ∃ M, s.handles.val = (([s.main.coord] : List ℕ) : Multiset ℕ) + M
  chconns : ∀ r, s.main.pc = .exit2 r →
    ∃ M, s.handles.val = (([s.main.chconns.1, s.main.chconns.2] : List ℕ) : Multiset ℕ) + M
  bndl : s.coordinator.pc = .cancel →
    ∃ M, s.handles.val = (([s.coordinator.bndl] : List ℕ) : Multiset ℕ) + M
  chans : s.coordinator.pc = .hclose →
    ∃ M, s.handles.val = (([s.coordinator.chipv4.1, s.coordinator.chipv4.2,
      s.coordinator.chipv6.1, s.coordinator.chipv6.2] : List ℕ) : Multiset ℕ) + M
  conn : ∀ (i conn : ℕ) (t : Attempt), s.attempts[i]? = some t → t.pc = .hclose conn →
    ∃ M, s.handles.val = (([conn] : List ℕ) : Multiset ℕ) + M

/-! ## The moves of the functions -/

theorem sending_eq {i conn : ℕ} (h : s.sending i = some conn) :
    ∃ t, s.attempts[i]? = some t ∧ t.pc = .chsendWait conn := by
  unfold St.sending at h
  cases ht : s.attempts[i]? with
  | none =>
    rw [ht] at h
    cases h
  | some t =>
    rw [ht] at h
    refine ⟨t, rfl, ?_⟩
    simp only [Option.map_some] at h
    split at h
    · rename_i heq
      cases h
      exact Option.some.inj heq
    · cases h

theorem connect_post (hs : Sound s) (hcur : s.cur = some .main) :
    Post (s.connect c x) (Move c s) (· = .stuck) := by
  unfold St.connect
  split
  · rename_i hpc
    split
    · exact .refused _ hcur hpc
    · rename_i hargs
      split
      · exact .refused _ hcur hpc
      · rename_i h₀ h₁
        refine (hmake_post _ _).bind ?_
        rintro _ ⟨H, hH, rfl⟩
        exact .chmake h₀ h₁ H hcur hpc (by omega) hH
      · rfl
  · rename_i hpc
    split
    · exact .goFails _ hcur hpc
    · rename_i h
      refine (hmake_post _ _).bind ?_
      rintro _ ⟨H, hH, rfl⟩
      exact .go h H hcur hpc hH
    · rfl
  · rename_i hpc
    split
    · rename_i hno
      exact .recvCanceled hcur hpc hno
    · rename_i hno
      split
      · split
        · rename_i i _ conn hconn
          obtain ⟨t, ht, htpc⟩ := sending_eq hconn
          exact .recvTake i t conn hcur hpc ht htpc
        · rfl
      · split
        · rfl
        · split
          · rename_i hd
            exact .recvExpired hcur hpc hd
          · rename_i hd
            exact .recvWait hcur hpc (Bool.eq_false_of_not_eq_true hno) hd
      · rfl
  · rename_i r hpc
    split
    · rename_i hdone
      obtain ⟨M, hM⟩ := hs.coord r hpc
      refine (hclose_post _ hM).bind ?_
      rintro _ ⟨H, hH, rfl⟩
      exact .stopped r H hcur hpc hdone hH
    · rename_i hdone
      cases hk : s.coordinator.pc.canceled with
      | ok pc => exact .stop r pc hcur hpc hdone hk
      | error e =>
        cases hw : s.coordinator.pc with
        | cancelWait w => exact absurd hw (hs.stop r w hpc)
        | _ =>
          rw [hw] at hk
          cases hk
  · rename_i r hpc
    obtain ⟨M, hM⟩ := hs.chconns r hpc
    refine (hclose_post _ hM).bind ?_
    rintro _ ⟨H, hH, rfl⟩
    exact .return r H hcur hpc hH
  · rfl

theorem coordinate_post (hs : Sound s) (hcur : s.cur = some .coordinator) :
    Post (s.coordinate x) (Move c s) (· = .stuck) := by
  have hcancel (hready : s.coordinator.pc.ready = true) (h₁ : s.coordinator.pc ≠ .start)
      (h₂ : s.coordinator.pc ≠ .hclose) (hno : s.coordinator.noBlocking = true) :
      Move c s (s.coordinatorAt .cancel) :=
    .canceled hcur hready h₁ h₂ hno s.coordinator.cls (.inl rfl)
  unfold St.coordinate
  dsimp only
  split
  · rename_i hpc
    rw [if_neg (by rw [hs.start hpc]; exact Bool.false_ne_true)]
    split
    · rename_i h₀ h₁ h₂ h₃ h₄
      refine (hmake_post _ _).bind ?_
      rintro _ ⟨H, hH, rfl⟩
      exact .start h₀ h₁ h₂ h₃ h₄ H hcur hpc hH
    · rfl
  · rename_i hpc
    split
    · rename_i hno
      exact hcancel (by rw [hpc]; rfl) (by rw [hpc]; nofun) (by rw [hpc]; nofun) hno
    · rename_i hno
      exact .goIpv6 hcur hpc (Bool.eq_false_of_not_eq_true hno)
  · rename_i hpc
    split
    · rename_i hno
      exact hcancel (by rw [hpc]; rfl) (by rw [hpc]; nofun) (by rw [hpc]; nofun) hno
    · rename_i hno
      exact .goIpv4 hcur hpc (Bool.eq_false_of_not_eq_true hno)
  · rename_i hpc
    split
    · rename_i hno
      exact hcancel (by rw [hpc]; rfl) (by rw [hpc]; nofun) (by rw [hpc]; nofun) hno
    · rename_i hno
      split
      · rename_i rest hrest
        exact .chrecvTake rest hcur hpc hrest
      · exact .chrecvWait hcur hpc (Bool.eq_false_of_not_eq_true hno)
  · rename_i addr hpc
    exact .received addr hcur hpc
  · rename_i hpc
    split
    · rename_i hno
      exact hcancel (by rw [hpc]; rfl) (by rw [hpc]; nofun) (by rw [hpc]; nofun) hno
    · rename_i hno
      split
      · rename_i rest hrest
        exact .chooseTake 0 rest hcur hpc hrest fun _ _ => rfl
      · rename_i rest hrest h₀
        exact .chooseTake 1 rest hcur hpc hrest fun r hr => absurd hr (h₀ r)
      · rename_i h₀ h₁
        exact .chooseWait hcur hpc (Bool.eq_false_of_not_eq_true hno)
          (Fin.forall_fin_two.mpr ⟨h₀, h₁⟩)
  · rename_i idx nw addr hpc
    split
    · rename_i hnull
      exact .useNull idx nw addr hcur hpc hnull
    · rename_i hnull
      split
      · rename_i hno
        exact hcancel (by rw [hpc]; rfl) (by rw [hpc]; nofun) (by rw [hpc]; nofun) hno
      · rename_i hno
        exact .useAddress idx nw addr hcur hpc (Bool.eq_false_of_not_eq_true hnull)
          (Bool.eq_false_of_not_eq_true hno)
  · rename_i idx nw hpc
    have hready : s.coordinator.pc.ready = true := by
      rw [hpc]
      rfl
    split
    · rename_i hno
      have hmove := Move.canceled (c := c) hcur hready (by rw [hpc]; nofun) (by rw [hpc]; nofun) hno
      split
      · exact hmove _ (.inr rfl)
      · exact hmove s.coordinator.cls (.inl rfl)
    · rename_i hno
      have hmove := Move.msleep (c := c) idx nw hcur hpc (Bool.eq_false_of_not_eq_true hno)
      split
      · rename_i hidx
        rw [if_pos hidx] at hmove
        exact hmove
      · rename_i hidx
        rw [if_neg hidx] at hmove
        exact hmove
  · rename_i hpc
    split
    · rename_i w hw
      exact .crClose w hcur hpc hw
    · rename_i hnone
      obtain ⟨M, hM⟩ := hs.bndl hpc
      refine (hclose_post _ hM).bind ?_
      rintro _ ⟨H, hH, rfl⟩
      exact .bundleClosed H hcur hpc hnone hH
  · rename_i hpc
    obtain ⟨M, hM⟩ := hs.chans hpc
    refine (hclose_post _ hM).bind ?_
    rintro _ ⟨H, hH, rfl⟩
    split
    · rename_i r hr
      exact .closeWake r H hcur hpc hr hH
    · rename_i hr
      exact .close H hcur hpc hr hH
  · rfl

theorem dnsquery_post {f : Fam} (hcur : s.cur = some (.dnsquery f)) :
    Post (s.dnsquery c f x) (Move c s) (· = .stuck) := by
  unfold St.dnsquery
  split
  · rename_i hpc
    split
    · split
      · rfl
      · rename_i hno
        exact .remotesWait f hcur hpc (Bool.eq_false_of_not_eq_true hno)
    · split
      · rename_i l hl
        exact .answers f l hcur hpc hl
      · rfl
    · rfl
  · rename_i rest hpc
    split
    · rename_i hno
      exact .sendCanceled f rest hcur hpc hno
    · rename_i hno
      split
      · rename_i pc hrecv
        exact .send f rest pc hcur hpc hrecv
      · rename_i hrecv
        exact .sendWait f rest hcur hpc (Bool.eq_false_of_not_eq_true hno) hrecv
  · rename_i marked hpc
    exact .dnsExit f marked hcur hpc
  · rfl

theorem attempt_post (hs : Sound s) {i : ℕ} (hcur : s.cur = some (.attempt i)) :
    Post (s.attempt i x) (Move c s) (· = .stuck) := by
  unfold St.attempt
  split
  · rfl
  · rename_i t ht
    split
    · rename_i hpc
      split
      · split
        · rfl
        · rename_i hno
          exact .connectWait i t hcur ht hpc (Bool.eq_false_of_not_eq_true hno)
      · exact .connectFails i t hcur ht hpc
      · rename_i h
        refine (hmake_post _ _).bind ?_
        rintro _ ⟨H, hH, rfl⟩
        exact .connects i t h H hcur ht hpc hH
      · rfl
    · rename_i conn hpc
      split
      · rename_i hno
        exact .connCanceled i t conn hcur ht hpc hno
      · rename_i hno
        split
        · rename_i hmain
          exact .connSend i t conn hcur ht hpc hmain
        · exact .connWait i t conn hcur ht hpc (Bool.eq_false_of_not_eq_true hno)
    · rename_i conn hpc
      obtain ⟨M, hM⟩ := hs.conn i conn t ht hpc
      refine (hclose_post _ hM).bind ?_
      rintro _ ⟨H, hH, rfl⟩
      exact .connClose i t conn H hcur ht hpc hH
    · rename_i hpc
      exact .attemptExit i t hcur ht hpc
    · rfl

theorem event_post {w : Who} (hcur : s.cur = none) :
    Post (s.event w) (Move c s) (· = .stuck) := by
  unfold St.event
  split
  · rename_i f
    split
    · rename_i hpc
      exact .eventDns f hcur hpc
    · rfl
  · rename_i i
    split
    · rename_i h
      obtain ⟨t, ht, hpc⟩ := Option.map_eq_some_iff.mp h
      exact .eventAttempt i t hcur ht hpc
    · rfl
  · rfl

theorem timeout_post {w : Who} (hcur : s.cur = none) :
    Post (s.timeout c w) (Move c s) (· = .stuck) := by
  unfold St.timeout
  split
  · split
    · rename_i hpc
      split
      · rename_i hd
        exact .timeoutMain hcur hpc hd.1
      · rfl
    · rfl
  · split
    · rename_i d hpc
      split
      · rename_i hd
        exact .timeoutChrecv d hcur hpc hd
      · rfl
    · rename_i d hpc
      split
      · rename_i hd
        exact .timeoutMsleep d hcur hpc hd
      · rfl
    · rfl
  · rfl

theorem cancel_post (hcur : s.cur = none) : Post s.cancel (Move c s) (· = .stuck) := by
  unfold St.cancel
  split
  · rfl
  · rename_i hno
    have hno := Bool.eq_false_of_not_eq_true hno
    split
    · rename_i hpc
      exact .cancelWait hcur hpc hno
    · rename_i hpc
      exact .cancel hcur (.inl hpc) hno
    · rename_i r hpc
      exact .cancel hcur (.inr ⟨r, hpc⟩) hno
    · rfl

/-- **A step makes a move, and fails no assertion.** -/
theorem step_post (hs : Sound s) (a : Act) : Post (s.step c a) (Move c s) (· = .stuck) := by
  cases a with
  | run x =>
    unfold St.step
    dsimp only
    split
    · rename_i hcur
      exact connect_post hs hcur
    · rename_i hcur
      exact coordinate_post hs hcur
    · rename_i f hcur
      exact dnsquery_post hcur
    · rename_i i hcur
      exact attempt_post hs hcur
    · rfl
  | resume w =>
    unfold St.step
    dsimp only
    split
    · rename_i h
      exact .resume w h.1 h.2
    · rfl
  | event w =>
    unfold St.step
    dsimp only
    split
    · rename_i hcur
      exact event_post hcur
    · rfl
  | timeout w =>
    unfold St.step
    dsimp only
    split
    · rename_i hcur
      exact timeout_post hcur
    · rfl
  | tick d => exact .tick d
  | cancel =>
    unfold St.step
    dsimp only
    split
    · rename_i hcur
      exact cancel_post hcur
    · rfl

end Libdill.Happyeyeballs
