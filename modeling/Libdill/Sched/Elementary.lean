import Libdill.Sched.Invariant

/-!
# Registering clauses, suspending and switching

The elementary operations of a call that suspends its caller (`enqueue`, `timer`, the link of a
file descriptor, `block`) and those that change the running coroutine (`popped`, `launch`) keep
the scheduler invariant.
-/

namespace Libdill.Sched

open Foundations

namespace Ctx

variable {s s' : Ctx} {c : CrId} {op i : ℕ} {f : Frame}

/-! ## Registering a clause -/

theorem waitfor_crs (s : Ctx) (cl : Clause) (x : CrId) :
    (s.waitfor cl).crs x =
      if x = s.r then { s.crs s.r with clauses := cl :: (s.crs s.r).clauses } else s.crs x :=
  updCr_crs s s.r _ x

/-- What a registration has done: clause `i` of the running coroutine is on its list and, unless
it has no `cancel` callback, linked in the endpoint `e`. -/
structure Registered (s s' : Ctx) (i : ℕ) (e : Cancel) : Prop where
  r : s'.r = s.r
  phase : s'.phase = s.phase
  ready : s'.ready = s.ready
  ncrs : s'.ncrs = s.ncrs
  crs : ∀ x, s'.crs x =
    if x = s.r then { s.crs s.r with clauses := ⟨i, e⟩ :: (s.crs s.r).clauses } else s.crs x
  linked : ∀ e' x j, s'.Linked e' x j ↔ s.Linked e' x j ∨ (e' ≠ .null ∧ e' = e ∧ x = s.r ∧ j = i)

theorem Registered.clauses {e : Cancel} (h : Registered s s' i e) :
    (s'.crs s'.r).clauses = ⟨i, e⟩ :: (s.crs s.r).clauses := by
  rw [h.r, h.crs, if_pos rfl]

theorem Registered.proj {β : Type*} {e : Cancel} (h : Registered s s' i e) (p : Cr → β)
    (hp : ∀ x cls, p { x with clauses := cls } = p x) (x : CrId) :
    p (s'.crs x) = p (s.crs x) := by
  rw [h.crs]
  split
  · rename_i hx; rw [hp, hx]
  · rfl

theorem Core.register (h : s.Core) {e : Cancel} (hreg : Registered s s' i e)
    (hr : s.r ∉ s.ready) (hi : i ∉ (s.crs s.r).clauses.map Clause.id)
    (ht : (s'.timers.map fun t => (t.cr, t.id)).Nodup)
    (hq : ∀ x sd, (((s'.half x).queue sd).map fun e => (e.cr, e.id)).Nodup) : s'.Core where
  r_lt := by rw [hreg.r, hreg.ncrs]; exact h.r_lt
  ready_lt := by rw [hreg.ready, hreg.ncrs]; exact h.ready_lt
  ready_nodup := by rw [hreg.ready]; exact h.ready_nodup
  next_iff x := by
    rw [hreg.proj Cr.readyNext (fun _ _ => rfl), hreg.ready]; exact h.next_iff x
  clauses_nodup x := by
    rw [hreg.crs]
    split
    · exact List.nodup_cons.2 ⟨hi, h.clauses_nodup s.r⟩
    · exact h.clauses_nodup x
  linked e' x j hl := by
    rw [hreg.ncrs, hreg.ready, hreg.crs]
    rcases (hreg.linked e' x j).1 hl with hl | ⟨-, rfl, rfl, rfl⟩
    · obtain ⟨h1, h2, h3⟩ := h.linked e' x j hl
      refine ⟨h1, h2, ?_⟩
      split
      · rename_i hx; subst hx; exact List.mem_cons_of_mem _ h3
      · exact h3
    · exact ⟨h.r_lt, hr, by simp⟩
  links x hx cl hcl hn := by
    rw [hreg.ready] at hx
    rw [hreg.crs] at hcl
    refine (hreg.linked _ _ _).2 ?_
    split at hcl
    · rename_i hxr
      subst hxr
      rcases List.mem_cons.1 hcl with rfl | hcl
      · exact .inr ⟨hn, rfl, rfl, rfl⟩
      · exact .inl (h.links s.r hx cl hcl hn)
    · exact .inl (h.links x hx cl hcl hn)
  timers_nodup := ht
  queue_nodup := hq

theorem Mid.register (h : s.Mid) {e : Cancel} (hreg : Registered s s' i e) (hu : s.phase = .user)
    (hr : s.r ∉ s.ready) (hi : i ∉ (s.crs s.r).clauses.map Clause.id)
    (ht : (s'.timers.map fun t => (t.cr, t.id)).Nodup)
    (hq : ∀ x sd, (((s'.half x).queue sd).map fun e => (e.cr, e.id)).Nodup) : s'.Mid where
  toCore := h.toCore.register hreg hr hi ht hq
  fresh x hx := by
    rw [hreg.ncrs] at hx
    rw [hreg.crs, if_neg (h.r_lt.trans_le hx).ne']
    exact h.fresh x hx
  settled x hx hne := by
    rw [hreg.ncrs] at hx
    rw [hreg.phase, hreg.r] at hne
    obtain ⟨op, f, hp⟩ := h.settled x hx hne
    exact ⟨op, f, hp.congr (by rw [hreg.ready]) (by rw [hreg.crs, if_neg (hne hu)])⟩

theorem registered_waitfor (s : Ctx) (i : ℕ) : Registered s (s.waitfor ⟨i, .null⟩) i .null := by
  refine ⟨rfl, rfl, rfl, rfl, waitfor_crs s _, fun e' x j => ?_⟩
  constructor
  · intro hl
    exact .inl (by cases e' <;> exact hl)
  · rintro (hl | ⟨hn, he, -⟩)
    · cases e' <;> exact hl
    · exact absurd he hn

theorem registered_timer (s : Ctx) (i : ℕ) {deadline : ℤ} (hd : ¬deadline < 0) :
    Registered s (s.timer i deadline) i .timer := by
  rw [timer, if_neg hd]
  refine ⟨rfl, rfl, rfl, rfl, waitfor_crs _ _, fun e' x j => ?_⟩
  cases e' with
  | null => exact ⟨False.elim, fun h => h.elim id fun h => h.1 rfl⟩
  | timer =>
    simp only [Linked, waitfor, updCr, mem_insertAfter]
    constructor
    · rintro ⟨t, rfl | ht, rfl, rfl⟩
      · exact .inr ⟨by simp, trivial, rfl, rfl⟩
      · exact .inl ⟨t, ht, rfl, rfl⟩
    · rintro (⟨t, ht, rfl, rfl⟩ | ⟨-, -, rfl, rfl⟩)
      · exact ⟨t, .inr ht, rfl, rfl⟩
      · exact ⟨_, .inl rfl, rfl, rfl⟩
  | ch h sd => simp [Linked, waitfor, updCr]
  | fd f sd => simp [Linked, waitfor, updCr]

theorem enqueue_queue (s : Ctx) (op i : ℕ) (sd : Side) (ch : HalfRef) (val : Addr) (len : ℕ)
    (x : HalfRef) (sd' : Side) :
    ((s.enqueue op i sd ch val len).half x).queue sd' =
      if x = ch ∧ sd' = sd then (s.half x).queue sd' ++ [⟨s.r, i, val, len, op⟩]
      else (s.half x).queue sd' := by
  by_cases hx : x = ch
  · subst hx
    by_cases hsd : sd' = sd
    · subst hsd; simp [enqueue, waitfor, updCr, updHalf]
    · simp [enqueue, waitfor, updCr, updHalf, hsd]
  · simp [enqueue, waitfor, updCr, updHalf, hx]

theorem registered_enqueue (s : Ctx) (op i : ℕ) (sd : Side) (ch : HalfRef) (val : Addr) (len : ℕ) :
    Registered s (s.enqueue op i sd ch val len) i (.ch ch sd) := by
  refine ⟨rfl, rfl, rfl, rfl, waitfor_crs _ _, fun e' x j => ?_⟩
  cases e' with
  | null => exact ⟨False.elim, fun h => h.elim id fun h => h.1 rfl⟩
  | timer => simp [Linked, enqueue, waitfor, updCr, updHalf]
  | ch h sd' =>
    simp only [Linked, enqueue_queue]
    split
    · rename_i hx
      obtain ⟨rfl, rfl⟩ := hx
      simp only [List.mem_append, List.mem_singleton]
      constructor
      · rintro ⟨t, ht | rfl, rfl, rfl⟩
        · exact .inl ⟨t, ht, rfl, rfl⟩
        · exact .inr ⟨by simp, trivial, rfl, rfl⟩
      · rintro (⟨t, ht, rfl, rfl⟩ | ⟨-, -, rfl, rfl⟩)
        · exact ⟨t, .inl ht, rfl, rfl⟩
        · exact ⟨_, .inr rfl, rfl, rfl⟩
    · rename_i hx
      constructor
      · exact .inl
      · rintro (hl | ⟨-, he, -⟩)
        · exact hl
        · cases he; exact absurd ⟨rfl, rfl⟩ hx
  | fd f sd' => simp [Linked, enqueue, waitfor, updCr, updHalf]

/-- The link made by `dill_pollset_in` and `dill_pollset_out`. -/
def linkFd (s : Ctx) (f : ℕ) (sd : Side) : Ctx :=
  (s.updFd f fun x => { x with waiter := Function.update x.waiter sd (some ⟨s.r, 1⟩) }).waitfor
    ⟨1, .fd f sd⟩

theorem registered_linkFd (s : Ctx) (f : ℕ) (sd : Side) (hw : (s.fds f).waiter sd = none) :
    Registered s (s.linkFd f sd) 1 (.fd f sd) := by
  refine ⟨rfl, rfl, rfl, rfl, waitfor_crs _ _, fun e' x j => ?_⟩
  cases e' with
  | null => exact ⟨False.elim, fun h => h.elim id fun h => h.1 rfl⟩
  | timer => simp [Linked, linkFd, waitfor, updCr, updFd]
  | ch h sd' => simp [Linked, linkFd, waitfor, updCr, updFd]
  | fd f' sd' =>
    by_cases hf : f' = f
    · subst hf
      by_cases hsd : sd' = sd
      · subst hsd
        simp [Linked, linkFd, waitfor, updCr, updFd, hw, eq_comm]
      · simp [Linked, linkFd, waitfor, updCr, updFd, hsd]
    · simp [Linked, linkFd, waitfor, updCr, updFd, hf]

theorem Mid.waitfor (h : s.Mid) (hu : s.phase = .user) (hr : s.r ∉ s.ready)
    (hi : i ∉ (s.crs s.r).clauses.map Clause.id) : (s.waitfor ⟨i, .null⟩).Mid :=
  h.register (registered_waitfor s i) hu hr hi h.timers_nodup h.queue_nodup

theorem Mid.linkFd (h : s.Mid) (hu : s.phase = .user) (hr : s.r ∉ s.ready)
    (hi : 1 ∉ (s.crs s.r).clauses.map Clause.id) {f : ℕ} {sd : Side}
    (hw : (s.fds f).waiter sd = none) : (s.linkFd f sd).Mid :=
  h.register (registered_linkFd s f sd hw) hu hr hi h.timers_nodup h.queue_nodup

/-- No clause with a number not on the list is linked. -/
theorem Core.not_linked (h : s.Core) (hi : i ∉ (s.crs c).clauses.map Clause.id) (e : Cancel) :
    ¬s.Linked e c i :=
  fun hl => hi (List.mem_map.2 ⟨_, (h.linked e c i hl).2.2, rfl⟩)

theorem Mid.timer (h : s.Mid) (hu : s.phase = .user) (hr : s.r ∉ s.ready)
    (hi : i ∉ (s.crs s.r).clauses.map Clause.id) (deadline : ℤ) : (s.timer i deadline).Mid := by
  by_cases hd : deadline < 0
  · rw [Ctx.timer, if_pos hd]; exact h
  · refine h.register (registered_timer s i hd) hu hr hi ?_ ?_
    · rw [Ctx.timer, if_neg hd]
      refine ((insertAfter_perm _ _ _).map _).nodup_iff.2 (List.nodup_cons.2 ⟨?_, h.timers_nodup⟩)
      intro hmem
      obtain ⟨t, ht, he⟩ := List.mem_map.1 hmem
      simp only [Prod.mk.injEq] at he
      exact h.not_linked hi .timer ⟨t, ht, he⟩
    · rw [Ctx.timer, if_neg hd]; exact h.queue_nodup

theorem Mid.enqueue (h : s.Mid) (hu : s.phase = .user) (hr : s.r ∉ s.ready)
    (hi : i ∉ (s.crs s.r).clauses.map Clause.id) (op : ℕ) (sd : Side) (ch : HalfRef) (val : Addr)
    (len : ℕ) : (s.enqueue op i sd ch val len).Mid := by
  refine h.register (registered_enqueue s op i sd ch val len) hu hr hi h.timers_nodup ?_
  intro x sd'
  rw [enqueue_queue]
  split
  · rw [List.map_append, List.nodup_append]
    refine ⟨h.queue_nodup x sd', by simp, ?_⟩
    intro a ha b hb hab
    obtain ⟨e, he, rfl⟩ := List.mem_map.1 ha
    simp only [List.map_cons, List.map_nil, List.mem_singleton] at hb
    rw [hb, Prod.mk.injEq] at hab
    exact h.not_linked hi (.ch x sd') ⟨e, he, hab⟩
  · exact h.queue_nodup x sd'

/-! ## Suspending -/

theorem block_crs (s : Ctx) (op : ℕ) (f : Frame) (x : CrId) :
    (s.block op f).crs x = if x = s.r then { s.crs s.r with frame := some (op, f) } else s.crs x := by
  simp [block, updCr, Function.update_apply]

theorem block_proj {β : Type*} (p : Cr → β) (hp : ∀ x fr, p { x with frame := fr } = p x) (s : Ctx)
    (op : ℕ) (f : Frame) (x : CrId) : p ((s.block op f).crs x) = p (s.crs x) := by
  rw [block_crs]
  split
  · rename_i hx; rw [hp, hx]
  · rfl

theorem linked_block {e : Cancel} {x : CrId} : (s.block op f).Linked e x i ↔ s.Linked e x i := by
  cases e <;> rfl

theorem Core.block (h : s.Core) (op : ℕ) (f : Frame) : (s.block op f).Core where
  r_lt := h.r_lt
  ready_lt := h.ready_lt
  ready_nodup := h.ready_nodup
  next_iff x := by rw [block_proj Cr.readyNext fun _ _ => rfl]; exact h.next_iff x
  clauses_nodup x := by rw [block_proj Cr.clauses fun _ _ => rfl]; exact h.clauses_nodup x
  linked e x i hl := by
    rw [block_proj Cr.clauses fun _ _ => rfl]; exact h.linked e x i (linked_block.1 hl)
  links x hx cl hcl hn := by
    rw [block_proj Cr.clauses fun _ _ => rfl] at hcl
    exact linked_block.2 (h.links x hx cl hcl hn)
  timers_nodup := h.timers_nodup
  queue_nodup := h.queue_nodup

theorem Mid.block (h : s.Mid) (hd : (s.crs s.r).done = true ↔ f = .epilogue)
    (ho : s.r ∈ s.ready → f.Outcome (s.crs s.r).id (s.crs s.r).err)
    (hs : s.r ∉ s.ready → f.Suspends)
    (ha : s.r ∉ s.ready → ∀ cl ∈ (s.crs s.r).clauses, f.Allows cl) : (s.block op f).Inv where
  toCore := h.toCore.block op f
  fresh x hx := by
    rw [block_crs, if_neg (h.r_lt.trans_le hx).ne']
    exact h.fresh x hx
  settled x hx _ := by
    by_cases hxr : x = s.r
    · subst hxr
      refine ⟨op, f, ?_, ?_, ?_, hs, ?_⟩
      · rw [block_crs, if_pos rfl]
      · rw [block_proj Cr.done fun _ _ => rfl]; exact hd
      · rw [block_proj Cr.id fun _ _ => rfl, block_proj Cr.err fun _ _ => rfl]; exact ho
      · rw [block_proj Cr.clauses fun _ _ => rfl]; exact ha
    · obtain ⟨op', f', hp⟩ := h.settled x hx fun _ => hxr
      exact ⟨op', f', hp.congr .rfl (by rw [block_crs, if_neg hxr])⟩
  running hu := absurd hu (by simp [Ctx.block])

/-- The running coroutine suspends itself after registering its clauses. -/
theorem Mid.suspend (h : s.Mid) (hr : s.r ∉ s.ready) (hd : (s.crs s.r).done = false)
    (hs : f.Suspends) (hne : f ≠ .epilogue) (ha : ∀ cl ∈ (s.crs s.r).clauses, f.Allows cl) :
    (s.block op f).Inv :=
  h.block (by simp [hd, hne]) (fun h' => absurd h' hr) (fun _ => hs) fun _ => ha

/-! ## Queueing a coroutine without clauses -/

theorem resume_crs (s : Ctx) (c : CrId) (id : ℤ) (err : Errno) (x : CrId) :
    (s.resume c id err).crs x =
      if x = c then { s.crs c with id := id, err := err, readyNext := true } else s.crs x := by
  simp [resume, updCr, Function.update_apply]

/-- A coroutine without clauses is queued as by `wake`. -/
theorem Core.resume_eq_wake (h : s.Core) (hc : (s.crs c).clauses = []) (id : ℤ) (err : Errno) :
    s.resume c id err = s.wake c id err := by
  have hn : ∀ e i, ¬s.Linked e c i := fun e i hl => by
    have := (h.linked e c i hl).2.2
    rw [hc] at this
    cases this
  have ht : (s.timers.filter fun t => t.cr ≠ c) = s.timers :=
    List.filter_eq_self.2 fun t ht => by simpa using fun he => hn .timer t.id ⟨t, ht, he, rfl⟩
  have hq : ∀ x sd, (((s.half x).queue sd).filter fun e => e.cr ≠ c) = (s.half x).queue sd :=
    fun x sd => List.filter_eq_self.2 fun e he => by
      simpa using fun hec => hn (.ch x sd) e.id ⟨e, he, hec, rfl⟩
  have hf : ∀ f sd, (((s.fds f).waiter sd).filter fun cl => cl.cr ≠ c) = (s.fds f).waiter sd := by
    intro f sd
    cases hw : (s.fds f).waiter sd with
    | none => rfl
    | some cl =>
      have : cl.cr ≠ c := fun he => hn (.fd f sd) cl.id (by rw [Linked, hw, ← he])
      simp [Option.filter, this]
  simp only [Ctx.wake, ht, hq, hf]

/-! ## Switching -/

theorem popped_crs (s : Ctx) (c : CrId) (rest : List CrId) (x : CrId) :
    (s.popped c rest).crs x =
      if x = c then { s.crs c with readyNext := false, frame := none, clauses := [] }
      else s.crs x := by
  simp [popped, updCr, Function.update_apply]

theorem linked_popped {e : Cancel} {x : CrId} {rest : List CrId} :
    (s.popped c rest).Linked e x i ↔ s.Linked e x i := by
  cases e <;> rfl

theorem Inv.popped (h : s.Inv) {rest : List CrId} (hready : s.ready = c :: rest)
    (hp : s.phase = .switch) : (s.popped c rest).Inv := by
  have hnd := h.ready_nodup
  rw [hready, List.nodup_cons] at hnd
  have hlt : c < s.ncrs := h.ready_lt c (by rw [hready]; simp)
  have hmem : ∀ x, x ≠ c → (x ∈ rest ↔ x ∈ s.ready) := fun x hx => by simp [hready, hx]
  obtain ⟨op, f, hpc⟩ := h.settled c hlt (by rw [hp]; simp)
  have hdone : (s.crs c).done = false := by
    by_contra hd
    have ho := hpc.outcome (by rw [hready]; simp)
    rw [hpc.done.1 (by simpa using hd)] at ho
    exact ho
  have hlc : ∀ e i, ¬s.Linked e c i := fun e i hl =>
    (h.linked e c i hl).2.1 (by rw [hready]; simp)
  refine ⟨⟨⟨hlt, fun x hx => h.ready_lt x (by rw [hready]; exact .tail _ hx), hnd.2, fun x => ?_,
    fun x => ?_, fun e x i hl => ?_, fun x hx cl hcl hn => ?_, h.timers_nodup, h.queue_nodup⟩,
    fun x hx => ?_, fun x hx hne => ?_⟩, fun _ => ⟨hnd.1, ?_, ?_, ?_⟩⟩
  · rw [popped_crs]
    split
    · rename_i hx; subst hx; exact ⟨fun h' => absurd h' (by simp), fun h' => absurd h' hnd.1⟩
    · rename_i hx; exact (h.next_iff x).trans (hmem x hx).symm
  · rw [popped_crs]
    split
    · simp
    · exact h.clauses_nodup x
  · rw [linked_popped] at hl
    have hx : x ≠ c := by rintro rfl; exact hlc e i hl
    obtain ⟨h1, h2, h3⟩ := h.linked e x i hl
    exact ⟨h1, fun h' => h2 ((hmem x hx).1 h'), by rw [popped_crs, if_neg hx]; exact h3⟩
  · rw [popped_crs] at hcl
    split at hcl
    · simp at hcl
    · rename_i hxc
      exact linked_popped.2 (h.links x (fun h' => hx ((hmem x hxc).2 h')) cl hcl hn)
  · rw [popped_crs, if_neg (hlt.trans_le hx).ne']
    exact h.fresh x hx
  · have hxc : x ≠ c := hne rfl
    obtain ⟨op', f', hp'⟩ := h.settled x hx (by rw [hp]; simp)
    exact ⟨op', f', hp'.congr (hmem x hxc) (by rw [popped_crs, if_neg hxc])⟩
  · change ((s.popped c rest).crs c).frame = none
    rw [popped_crs, if_pos rfl]
  · change ((s.popped c rest).crs c).clauses = []
    rw [popped_crs, if_pos rfl]
  · change ((s.popped c rest).crs c).done = false
    rw [popped_crs, if_pos rfl]
    exact hdone

/-! ## Launching a coroutine -/

theorem launch_crs (h : s.r < s.ncrs) (op : ℕ) (b : BundleId) (mem : Bool) (v : Handle) (x : CrId) :
    (s.launch op b mem v).crs x =
      if x = s.ncrs then { bundle := some b, mem := mem }
      else if x = s.r then
        { s.crs s.r with frame := some (op, .go v), id := 0, err := .ok, readyNext := true }
      else s.crs x := by
  have hne : s.r ≠ s.ncrs := h.ne
  by_cases hx : x = s.ncrs
  · subst hx
    simp [launch, resume, updCr, updBundle, Function.update_apply, Ne.symm hne]
  · by_cases hxr : x = s.r
    · subst hxr
      simp [launch, resume, updCr, updBundle, hne]
    · simp [launch, resume, updCr, updBundle, hx, hxr]

/-- What does not depend on how a coroutine is suspended is the same for all but the new one. -/
theorem launch_proj {β : Type} (h : s.r < s.ncrs) (p : Cr → β)
    (hp : ∀ y fr id err n, p { y with frame := fr, id := id, err := err, readyNext := n } = p y)
    {op : ℕ} {b : BundleId} {mem : Bool} {v : Handle} {x : CrId} (hx : x ≠ s.ncrs) :
    p ((s.launch op b mem v).crs x) = p (s.crs x) := by
  rw [launch_crs h, if_neg hx]
  split
  · rename_i hxr
    rw [hp, hxr]
  · rfl

/-- It is the same for the new one too if that starts with it. -/
theorem launch_proj_new {β : Type} (h : s.r < s.ncrs) (hnew : s.crs s.ncrs = {}) (p : Cr → β)
    (hp : ∀ y fr id err n, p { y with frame := fr, id := id, err := err, readyNext := n } = p y)
    {op : ℕ} {b : BundleId} {mem : Bool} {v : Handle}
    (hb : p { bundle := some b, mem := mem } = p {}) (x : CrId) :
    p ((s.launch op b mem v).crs x) = p (s.crs x) := by
  by_cases hx : x = s.ncrs
  · rw [launch_crs h, if_pos hx, hx, hnew, hb]
  · exact launch_proj h p hp hx

/-- The frames after a launch: that of the parent, and those that were there. -/
theorem launch_frame (h : s.r < s.ncrs) {op op' : ℕ} {b : BundleId} {mem : Bool} {v : Handle}
    {x : CrId} {f : Frame} (hf : ((s.launch op b mem v).crs x).frame = some (op', f)) :
    (x = s.r ∧ op' = op ∧ f = .go v) ∨ (x ≠ s.r ∧ (s.launch op b mem v).crs x = s.crs x) := by
  rw [launch_crs h] at hf ⊢
  split at hf
  · cases hf
  · split at hf
    · rename_i hxr
      cases hf
      exact .inl ⟨hxr, rfl, rfl⟩
    · rename_i hx hxr
      exact .inr ⟨hxr, by rw [if_neg hx, if_neg hxr]⟩

theorem linked_launch {e : Cancel} {x : CrId} {b : BundleId} {mem : Bool} {v : Handle} :
    (s.launch op b mem v).Linked e x i ↔ s.Linked e x i := by
  cases e <;> rfl

theorem Inv.launch (h : s.Inv) (hu : s.phase = .user) (op : ℕ) (b : BundleId) (mem : Bool)
    (v : Handle) : (s.launch op b mem v).Inv := by
  have hrun := h.running hu
  have hcrs := launch_crs h.r_lt op b mem v
  have hnew : s.ncrs ∉ s.ready := fun h' => lt_irrefl _ (h.ready_lt _ h')
  have hready : (s.launch op b mem v).ready = s.ready ++ [s.r] := rfl
  have hfresh := h.fresh s.ncrs le_rfl
  have hlr : ∀ e i, ¬s.Linked e s.r i := fun e i hl => by
    have := (h.linked e s.r i hl).2.2
    rw [hrun.clauses] at this
    cases this
  have hclauses : ∀ x, ((s.launch op b mem v).crs x).clauses = (s.crs x).clauses :=
    launch_proj_new h.r_lt hfresh Cr.clauses (fun _ _ _ _ _ => rfl) rfl
  refine ⟨⟨⟨Nat.lt_succ_self _, fun x hx => ?_, ?_, fun x => ?_, fun x => ?_, fun e x i hl => ?_,
    fun x hx cl hcl hn => ?_, h.timers_nodup, h.queue_nodup⟩, fun x hx => ?_, fun x hx hne => ?_⟩,
    fun _ => ⟨?_, ?_, ?_, ?_⟩⟩
  · rw [hready, List.mem_append, List.mem_singleton] at hx
    exact Nat.lt_succ_of_lt (hx.elim (h.ready_lt x) fun hx => hx ▸ h.r_lt)
  · rw [hready, List.nodup_append]
    refine ⟨h.ready_nodup, by simp, fun a ha b hb hab => hrun.not_ready ?_⟩
    rw [List.mem_singleton] at hb
    rw [← hb, ← hab]; exact ha
  · rw [hready, hcrs, List.mem_append, List.mem_singleton]
    split
    · rename_i hx
      rw [hx]
      exact ⟨fun h' => absurd h' (by simp), fun h' => (h'.elim hnew h.r_lt.ne').elim⟩
    · split
      · rename_i hx; exact ⟨fun _ => .inr hx, fun _ => rfl⟩
      · rename_i hx; exact (h.next_iff x).trans ⟨.inl, fun h' => h'.resolve_right hx⟩
  · rw [hclauses]; exact h.clauses_nodup x
  · rw [linked_launch] at hl
    obtain ⟨h1, h2, h3⟩ := h.linked e x i hl
    refine ⟨Nat.lt_succ_of_lt h1, fun h' => ?_, by rw [hclauses]; exact h3⟩
    rw [hready, List.mem_append, List.mem_singleton] at h'
    rcases h' with h' | rfl
    · exact h2 h'
    · exact hlr e i hl
  · rw [hready, List.mem_append, List.mem_singleton, not_or] at hx
    rw [hclauses] at hcl
    exact linked_launch.2 (h.links x hx.1 cl hcl hn)
  · have hx : s.ncrs + 1 ≤ x := hx
    have h1 : x ≠ s.ncrs := (Nat.lt_of_succ_le hx).ne'
    have h2 : x ≠ s.r := (h.r_lt.trans (Nat.lt_of_succ_le hx)).ne'
    rw [hcrs, if_neg h1, if_neg h2]
    exact h.fresh x (Nat.le_of_succ_le hx)
  · have hx1 : x ≠ s.ncrs := hne hu
    have hx2 : x < s.ncrs := lt_of_le_of_ne (Nat.le_of_lt_succ hx) hx1
    by_cases hxr : x = s.r
    · have hx' := hcrs x
      rw [if_neg hx1, if_pos hxr] at hx'
      have hin : x ∈ (s.launch op b mem v).ready := by rw [hready, hxr]; simp
      refine ⟨op, .go v, ?_, ?_, fun _ => ?_, fun h' => absurd hin h', fun h' => absurd hin h'⟩
      · rw [hx']
      · rw [hx']; simp [hrun.not_done]
      · rw [hx']; exact ⟨rfl, rfl⟩
    · obtain ⟨op', f', hp⟩ := h.settled x hx2 fun _ => hxr
      refine ⟨op', f', hp.congr ?_ (by rw [hcrs, if_neg hx1, if_neg hxr])⟩
      rw [hready, List.mem_append, List.mem_singleton]
      exact ⟨fun h' => h'.resolve_right hxr, .inl⟩
  · change s.ncrs ∉ s.ready ++ [s.r]
    rw [List.mem_append, List.mem_singleton, not_or]
    exact ⟨hnew, h.r_lt.ne'⟩
  · change ((s.launch op b mem v).crs s.ncrs).frame = none
    rw [hcrs, if_pos rfl]
  · change ((s.launch op b mem v).crs s.ncrs).clauses = []
    rw [hcrs, if_pos rfl]
  · change ((s.launch op b mem v).crs s.ncrs).done = false
    rw [hcrs, if_pos rfl]

end Ctx

end Libdill.Sched
