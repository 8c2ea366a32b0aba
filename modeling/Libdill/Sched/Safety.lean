import Libdill.Sched.Refine

/-!
# The scheduler invariant

What the invariant of the moves says about the states between two actions, in the terms of the
data structures: every coroutine is running, ready or suspended, the ready queue and the
`ready.next` pointers agree, and the clauses of the suspended coroutines are linked in their
endpoints, each in one endpoint and once. A clause that a channel, a timer or a descriptor
triggers therefore always belongs to a coroutine that is still suspended: `dill_docancel` can fail
only in `dill_epilogue`, on the waiter of a bundle or on a coroutine that closes a bundle.
-/

namespace Libdill.Sched

open Foundations

namespace Ctx

/-- The coroutine runs in the code of the user. -/
def IsRunning (s : Ctx) (c : CrId) : Prop := s.phase = .user ∧ c = s.r

/-- The coroutine waits in the ready queue. -/
def IsReady (s : Ctx) (c : CrId) : Prop := s.ready.count c = 1

/-- The coroutine is in `dill_wait` and nothing has resumed it. -/
def IsSuspended (s : Ctx) (c : CrId) : Prop := (s.crs c).frame ≠ none ∧ c ∉ s.ready

/-- How often clause `i` of coroutine `c` occurs in an endpoint. -/
def occurrences (s : Ctx) : Cancel → CrId → ℕ → ℕ
  | .null, _, _ => 0
  | .timer, c, i => (s.timers.map fun t => (t.cr, t.id)).count (c, i)
  | .ch h sd, c, i => (((s.half h).queue sd).map fun e => (e.cr, e.id)).count (c, i)
  | .fd f sd, c, i => if (s.fds f).waiter sd = some ⟨c, i⟩ then 1 else 0

/-- The data structures of the scheduler agree. -/
structure Consistent (s : Ctx) : Prop where
  /-- Every coroutine is in exactly one of the three states. -/
  one_state : ∀ c < s.ncrs,
    (s.IsRunning c ∧ ¬s.IsReady c ∧ ¬s.IsSuspended c) ∨
    (¬s.IsRunning c ∧ s.IsReady c ∧ ¬s.IsSuspended c) ∨
    (¬s.IsRunning c ∧ ¬s.IsReady c ∧ s.IsSuspended c)
  /-- `ready.next` is set for the members of the ready queue, and a member occurs once. -/
  ready_next : ∀ c, (s.crs c).readyNext = true ↔ s.IsReady c
  ready_once : ∀ c ∈ s.ready, s.IsReady c
  /-- A linked clause belongs to a suspended coroutine, is linked in one endpoint only, once, and
  is once on the list of its coroutine. -/
  linked : ∀ e c i, 0 < s.occurrences e c i → c < s.ncrs ∧ s.IsSuspended c ∧
    s.occurrences e c i = 1 ∧ (∀ e', e' ≠ e → s.occurrences e' c i = 0) ∧
    (s.crs c).clauses.count ⟨i, e⟩ = 1 ∧ ((s.crs c).clauses.map Clause.id).count i = 1
  /-- A clause of a suspended coroutine is linked, unless it has no `cancel` callback. -/
  links : ∀ c, s.IsSuspended c → ∀ cl ∈ (s.crs c).clauses, cl.cancel ≠ .null →
    s.occurrences cl.cancel c cl.id = 1

variable {s : Ctx} {c : CrId} {i : ℕ}

theorem occurrences_pos {e : Cancel} : 0 < s.occurrences e c i ↔ s.Linked e c i := by
  cases e with
  | null => simp [occurrences, Linked]
  | timer => simp [occurrences, Linked, List.count_pos_iff]
  | ch h sd => simp [occurrences, Linked, List.count_pos_iff]
  | fd f sd =>
    rw [occurrences, Linked]
    split
    · rename_i hw
      exact ⟨fun _ => hw, fun _ => Nat.zero_lt_one⟩
    · rename_i hw
      exact ⟨fun h => absurd h (lt_irrefl 0), fun h => absurd h hw⟩

theorem Core.occurrences_le (h : s.Core) (e : Cancel) (c : CrId) (i : ℕ) :
    s.occurrences e c i ≤ 1 := by
  cases e with
  | null => exact Nat.zero_le 1
  | timer => exact List.nodup_iff_count_le_one.1 h.timers_nodup (c, i)
  | ch x sd => exact List.nodup_iff_count_le_one.1 (h.queue_nodup x sd) (c, i)
  | fd f sd =>
    rw [occurrences]
    split
    · exact le_rfl
    · exact Nat.zero_le 1

theorem Core.occurrences_eq_one (h : s.Core) {e : Cancel} (hl : s.Linked e c i) :
    s.occurrences e c i = 1 :=
  le_antisymm (h.occurrences_le e c i) (occurrences_pos.2 hl)

theorem Core.isReady_iff (h : s.Core) : s.IsReady c ↔ c ∈ s.ready :=
  List.count_eq_one_of_mem h.ready_nodup |> fun hc =>
    ⟨fun h1 => List.count_pos_iff.1 (by rw [IsReady] at h1; omega), fun hm => hc hm⟩

/-- The clauses of a coroutine have different numbers. -/
theorem Core.clause_unique (h : s.Core) {cl cl' : Clause} (hm : cl ∈ (s.crs c).clauses)
    (hm' : cl' ∈ (s.crs c).clauses) (hid : cl.id = cl'.id) : cl = cl' :=
  List.inj_on_of_nodup_map (h.clauses_nodup c) hm hm' hid

theorem Good.consistent (h : Good .idle s) : Consistent s where
  one_state c hc := by
    have hready := h.toCore.isReady_iff (c := c)
    rw [hready]
    by_cases hr : s.phase = .user ∧ c = s.r
    · have hrun := h.cur hr.1
      refine .inl ⟨hr, ?_, ?_⟩
      · rw [hr.2]; exact hrun.not_ready
      · rintro ⟨hf, -⟩
        rw [hr.2] at hf
        exact hf hrun.frame
    · obtain ⟨op, f, hp⟩ := h.settled c hc fun hu he => hr ⟨hu, he⟩
      have hf : (s.crs c).frame ≠ none := by rw [hp.frame]; simp
      by_cases hm : c ∈ s.ready
      · exact .inr (.inl ⟨hr, hm, fun hs => hs.2 hm⟩)
      · exact .inr (.inr ⟨hr, hm, hf, hm⟩)
  ready_next c := (h.next_iff c).trans h.toCore.isReady_iff.symm
  ready_once c hc := h.toCore.isReady_iff.2 hc
  linked e c i hpos := by
    have hl := occurrences_pos.1 hpos
    obtain ⟨hlt, hnr, hmem⟩ := h.linked e c i hl
    obtain ⟨-, op, f, hp, -⟩ := h.linked_pending (by simp) hl
    refine ⟨hlt, ⟨by rw [hp.frame]; simp, hnr⟩, h.toCore.occurrences_eq_one hl, fun e' hne => ?_,
      ?_, ?_⟩
    · by_contra hne0
      have hl' := occurrences_pos.1 (Nat.pos_of_ne_zero hne0)
      have hmem' := (h.linked e' c i hl').2.2
      have heq := h.toCore.clause_unique hmem' hmem rfl
      rw [Clause.mk.injEq] at heq
      exact hne heq.2
    · exact List.count_eq_one_of_mem (h.clauses_nodup c).of_map hmem
    · exact List.count_eq_one_of_mem (h.clauses_nodup c) (List.mem_map.2 ⟨_, hmem, rfl⟩)
  links c hs cl hcl hn := h.toCore.occurrences_eq_one (h.links c hs.2 cl hcl hn)

end Ctx

open Ctx

/-- **The scheduler invariant.** In every reachable state the data structures of the scheduler
agree. So every clause linked in a half-channel, in the timers or in a descriptor can be
triggered, and an action that fails on the assertion of `dill_docancel` is the end of a coroutine
whose closer, or the waiter of whose bundle, is already ready. -/
theorem reachable_consistent {s : Ctx} (h : Reachable s) :
    Consistent s ∧
      (∀ e c i err, 0 < s.occurrences e c i → ∃ s', s.trigger ⟨c, i⟩ err = .ok s') ∧
      ∀ a, s.step a = .error .assertDocancel → a = .exit ∧ (s.CloserReady ∨ s.WaiterReady) := by
  have hg := h.good
  refine ⟨hg.consistent, fun e c i err hl => ?_, fun a ha => ?_⟩
  · exact ⟨_, trigger_eq hg.toCore (occurrences_pos.1 hl)⟩
  · have hs := (step_post hg a).of_error ha
    cases hs with
    | docancel hc => exact ⟨rfl, hc⟩

/-- A run in which a coroutine waits on a channel with a deadline. -/
def blockedReceiver : List Act :=
  [.call (.chmake 0 1), .call (.go (-1) false true 2), .call (.chrecv 0 100 4 50)]

theorem reachable_consistent_blockedReceiver :
    ∃ s, run Ctx.step Ctx.init blockedReceiver = .ok s ∧ 0 < s.occurrences .timer 1 1 ∧
      Consistent s ∧
      (∀ e c i err, 0 < s.occurrences e c i → ∃ s', s.trigger ⟨c, i⟩ err = .ok s') ∧
      ∀ a, s.step a = .error .assertDocancel → a = .exit ∧ (s.CloserReady ∨ s.WaiterReady) := by
  obtain ⟨s, hr, hp⟩ := exists_of_runsTo Ctx.step Ctx.init blockedReceiver
    (fun s => decide (0 < s.occurrences .timer 1 1)) (by decide)
  exact ⟨s, hr, by simpa using hp, reachable_consistent (reachable_of_run hr)⟩

end Libdill.Sched
