import Libdill.Sched.Step

/-!
# Links, and what waking a coroutine does

A clause of a suspended coroutine is linked in its endpoint: a queue of a half-channel, the
timers, or a side of a file descriptor. `Core` is the invariant that ties the endpoints, the
`clauses` lists and the ready queue together. It holds in the middle of a library call too, so
that it can be kept one elementary operation at a time.

`docancel_eq` is the one place where `dill_docancel` is taken apart: under `Core` it does not fail
on a coroutine that is not ready, and it removes *all* clauses of the coroutine and no other ones
from the endpoints. Everything that wakes coroutines (channels, timers, descriptors,
cancellation, bundles) is described with the resulting function `wake`.
-/

namespace Libdill.Sched

open Foundations

namespace Ctx

/-- Clause `i` of coroutine `c` is linked in an endpoint. -/
def Linked (s : Ctx) : Cancel → CrId → ℕ → Prop
  | .null, _, _ => False
  | .timer, c, i => ∃ t ∈ s.timers, t.cr = c ∧ t.id = i
  | .ch h sd, c, i => ∃ e ∈ (s.half h).queue sd, e.cr = c ∧ e.id = i
  | .fd f sd, c, i => (s.fds f).waiter sd = some ⟨c, i⟩

/-- The links, the clause lists and the ready queue agree. -/
structure Core (s : Ctx) : Prop where
  r_lt : s.r < s.ncrs
  ready_lt : ∀ c ∈ s.ready, c < s.ncrs
  ready_nodup : s.ready.Nodup
  next_iff : ∀ c, (s.crs c).readyNext = true ↔ c ∈ s.ready
  clauses_nodup : ∀ c, ((s.crs c).clauses.map Clause.id).Nodup
  linked : ∀ e c i, s.Linked e c i → c < s.ncrs ∧ c ∉ s.ready ∧ ⟨i, e⟩ ∈ (s.crs c).clauses
  links : ∀ c, c ∉ s.ready → ∀ cl ∈ (s.crs c).clauses, cl.cancel ≠ .null →
    s.Linked cl.cancel c cl.id
  timers_nodup : (s.timers.map fun t => (t.cr, t.id)).Nodup
  queue_nodup : ∀ h sd, (((s.half h).queue sd).map fun e => (e.cr, e.id)).Nodup

/-! ## Waking a coroutine -/

/-- The endpoints without the clauses of `c` that are in the list `cls`. -/
def unlink (s : Ctx) (c : CrId) (cls : List Clause) : Ctx :=
  { s with
    timers := s.timers.filter fun t => ¬(t.cr = c ∧ ⟨t.id, .timer⟩ ∈ cls)
    half := fun h => { s.half h with
      queue := fun sd => ((s.half h).queue sd).filter fun e => ¬(e.cr = c ∧ ⟨e.id, .ch h sd⟩ ∈ cls) }
    fds := fun f => { s.fds f with
      waiter := fun sd => if ∃ cl ∈ cls, cl.cancel = .fd f sd then none else (s.fds f).waiter sd } }

theorem unlink_nil (s : Ctx) (c : CrId) : s.unlink c [] = s := by
  simp [unlink]

/-- Cancelling a clause and then the rest of the list is cancelling the list. -/
theorem unlink_cons (s : Ctx) (c : CrId) (cl : Clause) (cls : List Clause) :
    (cancelClause c s cl).unlink c cls = s.unlink c (cl :: cls) := by
  obtain ⟨i, e⟩ := cl
  cases e with
  | null => simp [cancelClause, unlink]
  | timer =>
    simp only [cancelClause, unlink, List.filter_filter]
    congr 1
    · apply List.filter_congr
      intro t _
      by_cases h : t.cr = c <;> by_cases h' : t.id = i <;> simp [h, h']
    · simp
    · simp
  | ch h sd =>
    simp only [cancelClause, unlink, updHalf]
    congr 1
    · simp
    · funext h'
      by_cases hh : h' = h
      · subst hh
        simp only [Function.update_self]
        congr 1
        funext sd'
        by_cases hsd : sd' = sd
        · subst hsd
          rw [Function.update_self, List.filter_filter]
          apply List.filter_congr
          intro e _
          by_cases h : e.cr = c <;> by_cases h' : e.id = i <;> simp [h, h']
        · simp [hsd]
      · simp [hh]
    · simp
  | fd f sd =>
    simp only [cancelClause, unlink, updFd]
    congr 1
    · simp
    · simp
    · funext f'
      by_cases hf : f' = f
      · subst hf
        simp only [Function.update_self]
        congr 1
        funext sd'
        by_cases hsd : sd' = sd
        · subst hsd; simp
        · simp [hsd, Ne.symm hsd]
      · simp [hf, Ne.symm hf]

theorem foldl_cancelClause (c : CrId) (cls : List Clause) (s : Ctx) :
    cls.foldl (cancelClause c) s = s.unlink c cls := by
  induction cls generalizing s with
  | nil => exact (unlink_nil s c).symm
  | cons cl cls ih => rw [List.foldl_cons, ih, unlink_cons]

/-- Wake a coroutine: none of its clauses stays linked and it is queued with its result. -/
def wake (s : Ctx) (c : CrId) (id : ℤ) (err : Errno) : Ctx :=
  { s with
    timers := s.timers.filter fun t => t.cr ≠ c
    half := fun h => { s.half h with
      queue := fun sd => ((s.half h).queue sd).filter fun e => e.cr ≠ c }
    fds := fun f => { s.fds f with
      waiter := fun sd => ((s.fds f).waiter sd).filter fun cl => cl.cr ≠ c } }.resume c id err

variable {s s' : Ctx} {c : CrId} {id : ℤ} {err : Errno}

/-- **`dill_docancel`** on a coroutine that is not ready removes exactly its own clauses. -/
theorem docancel_eq (h : s.Core) (hc : c ∉ s.ready) :
    s.docancel c id err = .ok (s.wake c id err) := by
  have hn : ¬(s.crs c).readyNext = true := fun h' => hc ((h.next_iff c).1 h')
  have hu : s.unlink c (s.crs c).clauses = { s with
      timers := s.timers.filter fun t => t.cr ≠ c
      half := fun h => { s.half h with
        queue := fun sd => ((s.half h).queue sd).filter fun e => e.cr ≠ c }
      fds := fun f => { s.fds f with
        waiter := fun sd => ((s.fds f).waiter sd).filter fun cl => cl.cr ≠ c } } := by
    simp only [unlink]
    congr 1
    · apply List.filter_congr
      intro t ht
      by_cases htc : t.cr = c
      · have := (h.linked .timer c t.id ⟨t, ht, htc, rfl⟩).2.2
        simp [htc, this]
      · simp [htc]
    · funext x
      congr 1
      funext sd
      apply List.filter_congr
      intro e he
      by_cases hec : e.cr = c
      · have := (h.linked (.ch x sd) c e.id ⟨e, he, hec, rfl⟩).2.2
        simp [hec, this]
      · simp [hec]
    · funext f
      congr 1
      funext sd
      -- a waiter of `c` is on the list, and a listed clause of this descriptor is its waiter
      cases hw : (s.fds f).waiter sd with
      | none => simp
      | some cl =>
        by_cases hcl : cl.cr = c
        · have := (h.linked (.fd f sd) c cl.id (by rw [Linked, hw, ← hcl])).2.2
          rw [if_pos ⟨_, this, rfl⟩]
          simp [Option.filter, hcl]
        · rw [if_neg]
          · simp [Option.filter, hcl]
          · rintro ⟨cl', hmem, he⟩
            have := h.links c hc cl' hmem (by rw [he]; simp)
            rw [he, Linked, hw] at this
            cases this
            exact hcl rfl
  rw [docancel, if_neg hn, foldl_cancelClause, hu, wake]

theorem docancel_of_ready (h : s.Core) (hc : c ∈ s.ready) :
    s.docancel c id err = .error .assertDocancel := by
  rw [docancel, if_pos ((h.next_iff c).2 hc)]

/-- A linked clause can be triggered. -/
theorem trigger_eq (h : s.Core) {e : Cancel} {i : ℕ} (hl : s.Linked e c i) :
    s.trigger ⟨c, i⟩ err = .ok (s.wake c i err) :=
  docancel_eq h (h.linked e c i hl).2.1

/-! ## The projections of `wake` -/

@[simp] theorem wake_ready : (s.wake c id err).ready = s.ready ++ [c] := rfl

@[simp] theorem wake_timers : (s.wake c id err).timers = s.timers.filter fun t => t.cr ≠ c := rfl

@[simp] theorem wake_queue (h : HalfRef) (sd : Side) :
    ((s.wake c id err).half h).queue sd = ((s.half h).queue sd).filter fun e => e.cr ≠ c := rfl

@[simp] theorem wake_waiter (f : ℕ) (sd : Side) :
    ((s.wake c id err).fds f).waiter sd = ((s.fds f).waiter sd).filter fun cl => cl.cr ≠ c := rfl

theorem wake_crs (x : CrId) :
    (s.wake c id err).crs x =
      if x = c then { s.crs c with id := id, err := err, readyNext := true } else s.crs x := by
  simp [wake, resume, updCr, Function.update_apply]

@[simp] theorem wake_clauses (x : CrId) :
    ((s.wake c id err).crs x).clauses = (s.crs x).clauses := by
  rw [wake_crs]; split <;> simp_all

@[simp] theorem wake_frame (x : CrId) : ((s.wake c id err).crs x).frame = (s.crs x).frame := by
  rw [wake_crs]; split <;> simp_all

@[simp] theorem wake_done (x : CrId) : ((s.wake c id err).crs x).done = (s.crs x).done := by
  rw [wake_crs]; split <;> simp_all

theorem linked_wake {e : Cancel} {x : CrId} {i : ℕ} :
    (s.wake c id err).Linked e x i ↔ x ≠ c ∧ s.Linked e x i := by
  cases e with
  | null => simp [Linked]
  | timer =>
    simp only [Linked, wake_timers, List.mem_filter, decide_eq_true_eq]
    constructor
    · rintro ⟨t, ⟨ht, hne⟩, rfl, rfl⟩
      exact ⟨hne, t, ht, rfl, rfl⟩
    · rintro ⟨hne, t, ht, rfl, rfl⟩
      exact ⟨t, ⟨ht, hne⟩, rfl, rfl⟩
  | ch h sd =>
    simp only [Linked, wake_queue, List.mem_filter, decide_eq_true_eq]
    constructor
    · rintro ⟨t, ⟨ht, hne⟩, rfl, rfl⟩
      exact ⟨hne, t, ht, rfl, rfl⟩
    · rintro ⟨hne, t, ht, rfl, rfl⟩
      exact ⟨t, ⟨ht, hne⟩, rfl, rfl⟩
  | fd f sd =>
    simp only [Linked, wake_waiter, Option.filter_eq_some_iff, decide_eq_true_eq]
    exact and_comm

/-- Waking a suspended coroutine keeps the links consistent. -/
theorem Core.wake (h : s.Core) (hlt : c < s.ncrs) (hc : c ∉ s.ready) (id : ℤ) (err : Errno) :
    (s.wake c id err).Core where
  r_lt := h.r_lt
  ready_lt x hx := by
    rcases List.mem_append.1 hx with hx | hx
    · exact h.ready_lt x hx
    · rw [List.mem_singleton.1 hx]; exact hlt
  ready_nodup := by
    simp only [wake_ready, List.nodup_append, h.ready_nodup, true_and]
    refine ⟨by simp, ?_⟩
    intro a ha b hb hab
    rw [List.mem_singleton] at hb
    exact hc (by rw [← hb, ← hab]; exact ha)
  next_iff x := by
    rw [wake_crs]
    split
    · rename_i hx; simp [hx]
    · rename_i hx; simp [h.next_iff x, hx]
  clauses_nodup x := by simpa using h.clauses_nodup x
  linked e x i hl := by
    obtain ⟨hne, hl⟩ := linked_wake.1 hl
    obtain ⟨h1, h2, h3⟩ := h.linked e x i hl
    exact ⟨h1, by simp [h2, hne], by simpa using h3⟩
  links x hx cl hcl hnn := by
    rw [wake_ready, List.mem_append, List.mem_singleton, not_or] at hx
    rw [wake_clauses] at hcl
    exact linked_wake.2 ⟨hx.2, h.links x hx.1 cl hcl hnn⟩
  timers_nodup := h.timers_nodup.sublist ((List.filter_sublist).map _)
  queue_nodup x sd := (h.queue_nodup x sd).sublist ((List.filter_sublist).map _)

end Ctx

end Libdill.Sched
