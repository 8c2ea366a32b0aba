import Libdill.Sched.Wake

/-!
# The scheduler invariant

`Core` says that the links are consistent. `Inv` adds what every coroutine is doing: the running
one has no clauses and is not queued, every other one is suspended in a frame that allows its
clauses, or is ready with a result its frame can be resumed with. Between the first and the last
elementary operation of a library call the running coroutine is in neither state; `Mid` is the
invariant without it.

One lemma per elementary operation: `Mid.wake`, `Mid.enqueue`, `Mid.timer`, `Inv.block`,
`Inv.popped`, `Inv.launch`, and `Mid.congr` for the operations that touch nothing of this.
-/

namespace Libdill.Sched

open Foundations

/-- The clauses a function registers before it suspends its caller. -/
def Frame.Allows : Frame → Clause → Prop
  | .msleep, cl => cl = ⟨1, .timer⟩
  | .fdwait, cl => (∃ f sd, cl = ⟨1, .fd f sd⟩) ∨ cl = ⟨2, .timer⟩
  | .chan sd, cl => (∃ h, cl = ⟨0, .ch h sd⟩) ∨ cl = ⟨1, .timer⟩
  | .choose n, cl => (cl.id < n ∧ ∃ h sd, cl.cancel = .ch h sd) ∨ cl = ⟨n, .timer⟩
  | .bundleWait _, cl => cl = ⟨0, .null⟩ ∨ cl = ⟨1, .timer⟩
  | _, _ => False

/-- The values of `errno` a clause is triggered with. -/
def Cancel.Fires : Cancel → Errno → Prop
  | .null, e => e = .ok
  | .timer, e => e = .ETIMEDOUT
  | .ch _ _, e => e = .ok ∨ e = .EMSGSIZE ∨ e = .EPIPE
  | .fd _ _, e => e = .ok

/-- A coroutine with this frame is not queued at once. -/
def Frame.Suspends : Frame → Prop
  | .go _ => False
  | .yield => False
  | _ => True

/-- The results a function can be resumed with: one of its clauses, or a cancellation. -/
def Frame.Outcome : Frame → ℤ → Errno → Prop
  | .go _, id, e => id = 0 ∧ e = .ok
  | .yield, id, e => id = 0 ∧ e = .ok
  | .crClose .., id, e => id = -1 ∧ (e = .ok ∨ e = .ECANCELED)
  | .epilogue, _, _ => False
  | f, id, e => (id = -1 ∧ e = .ECANCELED) ∨ ∃ cl, f.Allows cl ∧ id = cl.id ∧ cl.cancel.Fires e

theorem Frame.Outcome.of_allows {f : Frame} {cl : Clause} {e : Errno} (h : f.Allows cl)
    (he : cl.cancel.Fires e) : f.Outcome cl.id e := by
  cases f <;> first | exact .inr ⟨cl, h, rfl, he⟩ | exact h.elim

theorem Frame.Outcome.of_cancel {f : Frame} (h : f.Suspends) (he : f ≠ .epilogue) :
    f.Outcome (-1) .ECANCELED := by
  cases f <;> first | exact .inl ⟨rfl, rfl⟩ | exact h.elim | exact (he rfl).elim | exact ⟨rfl, .inr rfl⟩

namespace Ctx

/-- Coroutine `c` is in the middle of call `op`, suspended in `f` or ready to go on there. -/
structure Pending (s : Ctx) (c : CrId) (op : ℕ) (f : Frame) : Prop where
  frame : (s.crs c).frame = some (op, f)
  done : (s.crs c).done = true ↔ f = .epilogue
  outcome : c ∈ s.ready → f.Outcome (s.crs c).id (s.crs c).err
  susp : c ∉ s.ready → f.Suspends
  allows : c ∉ s.ready → ∀ cl ∈ (s.crs c).clauses, f.Allows cl

/-- The invariant in the middle of a call of the running coroutine. -/
structure Mid (s : Ctx) : Prop extends s.Core where
  fresh : ∀ c, s.ncrs ≤ c → s.crs c = {}
  settled : ∀ c < s.ncrs, (s.phase = .user → c ≠ s.r) → ∃ op f, s.Pending c op f

/-- The coroutine running in the code of the user. -/
structure Running (s : Ctx) : Prop where
  not_ready : s.r ∉ s.ready
  frame : (s.crs s.r).frame = none
  clauses : (s.crs s.r).clauses = []
  not_done : (s.crs s.r).done = false

/-- **The scheduler invariant.** -/
structure Inv (s : Ctx) : Prop extends s.Mid where
  running : s.phase = .user → s.Running

variable {s s' : Ctx} {c : CrId} {id : ℤ} {err : Errno} {op i : ℕ} {f : Frame}

theorem Mid.pending (h : s.Mid) (hc : c < s.ncrs) (hf : (s.crs c).frame = some (op, f))
    (hr : s.phase = .user → c ≠ s.r) : s.Pending c op f := by
  obtain ⟨op', f', hp⟩ := h.settled c hc hr
  have := hp.frame
  rw [hf] at this
  cases this
  exact hp

theorem Inv.pending (h : s.Inv) (hf : (s.crs c).frame = some (op, f)) : s.Pending c op f := by
  have hc : c < s.ncrs := by
    by_contra hge
    rw [h.fresh c (not_lt.1 hge)] at hf
    cases hf
  refine h.toMid.pending hc hf fun hu hcr => ?_
  rw [hcr, (h.running hu).frame] at hf
  cases hf

/-- A linked clause is allowed by the frame of its coroutine. -/
theorem Inv.linked_pending (h : s.Inv) {e : Cancel} (hl : s.Linked e c i) :
    ∃ op f, s.Pending c op f ∧ f.Allows ⟨i, e⟩ := by
  obtain ⟨hlt, hnr, hmem⟩ := h.linked e c i hl
  have hne : s.phase = .user → c ≠ s.r := by
    rintro hu rfl
    rw [(h.running hu).clauses] at hmem
    cases hmem
  obtain ⟨op, f, hp⟩ := h.settled c hlt hne
  exact ⟨op, f, hp, hp.allows hnr _ hmem⟩

/-! ## Operations that leave the scheduler alone -/

/-- The two states agree on everything the links are about. -/
structure SameLinks (s s' : Ctx) : Prop where
  r : s'.r = s.r
  ready : s'.ready = s.ready
  timers : s'.timers = s.timers
  ncrs : s'.ncrs = s.ncrs
  readyNext : ∀ c, (s'.crs c).readyNext = (s.crs c).readyNext
  clauses : ∀ c, (s'.crs c).clauses = (s.crs c).clauses
  queue : ∀ x sd, (s'.half x).queue sd = (s.half x).queue sd
  waiter : ∀ x sd, (s'.fds x).waiter sd = (s.fds x).waiter sd

/-- The two states agree on everything the invariant is about. -/
structure SameSched (s s' : Ctx) : Prop extends SameLinks s s' where
  phase : s'.phase = s.phase
  id : ∀ c, (s'.crs c).id = (s.crs c).id
  err : ∀ c, (s'.crs c).err = (s.crs c).err
  frame : ∀ c, (s'.crs c).frame = (s.crs c).frame
  done : ∀ c, (s'.crs c).done = (s.crs c).done
  fresh : ∀ c, s.ncrs ≤ c → s'.crs c = s.crs c

theorem SameSched.trans {s'' : Ctx} (h : s.SameSched s') (h' : s'.SameSched s'') :
    s.SameSched s'' where
  r := h'.r.trans h.r
  phase := h'.phase.trans h.phase
  ready := h'.ready.trans h.ready
  timers := h'.timers.trans h.timers
  ncrs := h'.ncrs.trans h.ncrs
  readyNext c := (h'.readyNext c).trans (h.readyNext c)
  clauses c := (h'.clauses c).trans (h.clauses c)
  queue x sd := (h'.queue x sd).trans (h.queue x sd)
  waiter x sd := (h'.waiter x sd).trans (h.waiter x sd)
  id c := (h'.id c).trans (h.id c)
  err c := (h'.err c).trans (h.err c)
  frame c := (h'.frame c).trans (h.frame c)
  done c := (h'.done c).trans (h.done c)
  fresh c hc := (h'.fresh c (h.ncrs ▸ hc)).trans (h.fresh c hc)

/-- Only fields that neither the scheduler nor the endpoints use are different. -/
theorem SameSched.of_eq (hr : s'.r = s.r) (hp : s'.phase = s.phase) (hready : s'.ready = s.ready)
    (ht : s'.timers = s.timers) (hn : s'.ncrs = s.ncrs) (hc : s'.crs = s.crs)
    (hq : ∀ x sd, (s'.half x).queue sd = (s.half x).queue sd)
    (hw : ∀ x sd, (s'.fds x).waiter sd = (s.fds x).waiter sd) : s.SameSched s' := by
  refine ⟨⟨hr, hready, ht, hn, ?_, ?_, hq, hw⟩, hp, ?_, ?_, ?_, ?_, ?_⟩ <;> intro c <;> rw [hc]
  exact fun _ => rfl

theorem sameSched_ret (s : Ctx) (op : ℕ) (v : ℤ) (e : Errno) : s.SameSched (s.ret op v e) :=
  .of_eq rfl rfl rfl rfl rfl rfl (fun _ _ => rfl) fun _ _ => rfl

theorem sameSched_enter (s : Ctx) (c : Call) : s.SameSched (s.enter c) :=
  .of_eq rfl rfl rfl rfl rfl rfl (fun _ _ => rfl) fun _ _ => rfl

theorem sameSched_record (s : Ctx) (m : Meeting) : s.SameSched (s.record m) :=
  .of_eq rfl rfl rfl rfl rfl rfl (fun _ _ => rfl) fun _ _ => rfl

theorem sameSched_memcpy (s : Ctx) (dst src : Addr) (len : ℕ) :
    s.SameSched (s.memcpy dst src len) :=
  .of_eq rfl rfl rfl rfl rfl rfl (fun _ _ => rfl) fun _ _ => rfl

theorem sameSched_updBundle (s : Ctx) (b : BundleId) (g : Bundle → Bundle) :
    s.SameSched (s.updBundle b g) :=
  .of_eq rfl rfl rfl rfl rfl rfl (fun _ _ => rfl) fun _ _ => rfl

theorem sameSched_updHalf (s : Ctx) (h : HalfRef) {g : Half → Half}
    (hg : ∀ x, (g x).queue = x.queue) : s.SameSched (s.updHalf h g) := by
  refine .of_eq rfl rfl rfl rfl rfl rfl (fun x sd => ?_) fun _ _ => rfl
  by_cases hx : x = h
  · subst hx; simp [updHalf, hg]
  · simp [updHalf, hx]

theorem SameLinks.linked (h : s.SameLinks s') {e : Cancel} {c : CrId} {i : ℕ} :
    s'.Linked e c i ↔ s.Linked e c i := by
  cases e <;> simp [Linked, h.timers, h.queue, h.waiter]

theorem Core.congr (h : s.Core) (e : s.SameLinks s') : s'.Core where
  r_lt := by rw [e.r, e.ncrs]; exact h.r_lt
  ready_lt := by rw [e.ready, e.ncrs]; exact h.ready_lt
  ready_nodup := by rw [e.ready]; exact h.ready_nodup
  next_iff c := by rw [e.ready, e.readyNext]; exact h.next_iff c
  clauses_nodup c := by rw [e.clauses]; exact h.clauses_nodup c
  linked x c i hl := by
    rw [e.ready, e.ncrs, e.clauses]; exact h.linked x c i (e.linked.1 hl)
  links c hc cl hcl hn := by
    rw [e.ready] at hc
    rw [e.clauses] at hcl
    exact e.linked.2 (h.links c hc cl hcl hn)
  timers_nodup := by rw [e.timers]; exact h.timers_nodup
  queue_nodup x sd := by rw [e.queue]; exact h.queue_nodup x sd

theorem Pending.congr (h : s.Pending c op f) (hready : c ∈ s'.ready ↔ c ∈ s.ready)
    (hcrs : s'.crs c = s.crs c) : s'.Pending c op f where
  frame := by rw [hcrs]; exact h.frame
  done := by rw [hcrs]; exact h.done
  outcome := by rw [hcrs, hready]; exact h.outcome
  susp := by rw [hready]; exact h.susp
  allows := by rw [hcrs, hready]; exact h.allows

theorem Pending.same (h : s.Pending c op f) (e : s.SameSched s') : s'.Pending c op f where
  frame := by rw [e.frame]; exact h.frame
  done := by rw [e.done]; exact h.done
  outcome := by rw [e.id, e.err, e.ready]; exact h.outcome
  susp := by rw [e.ready]; exact h.susp
  allows := by rw [e.clauses, e.ready]; exact h.allows

theorem Mid.congr (h : s.Mid) (e : s.SameSched s') : s'.Mid where
  toCore := h.toCore.congr e.toSameLinks
  fresh c hc := by
    rw [e.ncrs] at hc
    rw [e.fresh c hc]
    exact h.fresh c hc
  settled c hc hr := by
    rw [e.ncrs] at hc
    rw [e.phase, e.r] at hr
    obtain ⟨op, f, hp⟩ := h.settled c hc hr
    exact ⟨op, f, hp.same e⟩

theorem Running.congr (h : s.Running) (e : s.SameSched s') : s'.Running where
  not_ready := by rw [e.r, e.ready]; exact h.not_ready
  frame := by rw [e.r, e.frame]; exact h.frame
  clauses := by rw [e.r, e.clauses]; exact h.clauses
  not_done := by rw [e.r, e.done]; exact h.not_done

/-! ## Changing a field of a coroutine -/

/-- The change keeps the fields that the links are about. -/
structure KeepsLinks (g : Cr → Cr) : Prop where
  readyNext : ∀ x, (g x).readyNext = x.readyNext
  clauses : ∀ x, (g x).clauses = x.clauses

/-- The change keeps everything the invariant is about. -/
structure Keeps (g : Cr → Cr) : Prop extends KeepsLinks g where
  id : ∀ x, (g x).id = x.id
  err : ∀ x, (g x).err = x.err
  frame : ∀ x, (g x).frame = x.frame
  done : ∀ x, (g x).done = x.done

theorem updCr_crs (s : Ctx) (c : CrId) (g : Cr → Cr) (x : CrId) :
    (s.updCr c g).crs x = if x = c then g (s.crs c) else s.crs x := by
  simp [updCr, Function.update_apply]

theorem updCr_proj {β : Type*} {g : Cr → Cr} (p : Cr → β) (hp : ∀ x, p (g x) = p x) (s : Ctx)
    (c x : CrId) : p ((s.updCr c g).crs x) = p (s.crs x) := by
  rw [updCr_crs]
  split
  · rename_i h; rw [h, hp]
  · rfl

theorem updBundle_proj {β : Type*} {g : Bundle → Bundle} (p : Bundle → β) (hp : ∀ x, p (g x) = p x)
    (s : Ctx) (b x : BundleId) : p ((s.updBundle b g).bundles x) = p (s.bundles x) := by
  by_cases hx : x = b
  · subst hx
    simp only [updBundle, Function.update_self]
    exact hp _
  · simp only [updBundle, Function.update_of_ne hx]

theorem sameLinks_updCr {g : Cr → Cr} (hg : KeepsLinks g) (s : Ctx) (c : CrId) :
    s.SameLinks (s.updCr c g) :=
  ⟨rfl, rfl, rfl, rfl, updCr_proj _ hg.readyNext s c, updCr_proj _ hg.clauses s c,
    fun _ _ => rfl, fun _ _ => rfl⟩

theorem sameSched_updCr {g : Cr → Cr} (hg : Keeps g) (hc : c < s.ncrs) :
    s.SameSched (s.updCr c g) where
  toSameLinks := sameLinks_updCr hg.toKeepsLinks s c
  phase := rfl
  id := updCr_proj _ hg.id s c
  err := updCr_proj _ hg.err s c
  frame := updCr_proj _ hg.frame s c
  done := updCr_proj _ hg.done s c
  fresh x hx := by rw [updCr_crs, if_neg (hc.trans_le hx).ne']

/-- The running coroutine may also change its `done` flag in the middle of a call. -/
theorem Mid.updRunning (h : s.Mid) (hu : s.phase = .user) {g : Cr → Cr} (hg : KeepsLinks g) :
    (s.updCr s.r g).Mid where
  toCore := h.toCore.congr (sameLinks_updCr hg s s.r)
  fresh x hx := by
    rw [updCr_crs, if_neg (h.r_lt.trans_le hx).ne']
    exact h.fresh x hx
  settled x hx hr := by
    have hne : x ≠ s.r := hr hu
    obtain ⟨op, f, hp⟩ := h.settled x hx fun _ => hne
    exact ⟨op, f, hp.congr .rfl (by rw [updCr_crs, if_neg hne])⟩

/-! ## Waking -/

theorem Pending.wake (h : s.Pending c op f) {x : CrId} (ho : x = c → f.Outcome id err) :
    (s.wake x id err).Pending c op f := by
  by_cases hc : c = x
  · subst hc
    refine ⟨by simpa using h.frame, by simpa using h.done, fun _ => ?_, fun hn => ?_, fun hn => ?_⟩
    · rw [wake_crs, if_pos rfl]; exact ho rfl
    · exact absurd hn (by simp)
    · exact absurd hn (by simp)
  · exact h.congr (by simp [hc]) (by rw [wake_crs, if_neg hc])

theorem Mid.wake (h : s.Mid) (hp : s.Pending c op f) (hlt : c < s.ncrs) (hc : c ∉ s.ready)
    (ho : f.Outcome id err) : (s.wake c id err).Mid where
  toCore := h.toCore.wake hlt hc id err
  fresh x hx := by
    rw [wake_crs, if_neg (hlt.trans_le hx).ne']
    exact h.fresh x hx
  settled x hx hr := by
    obtain ⟨op', f', hp'⟩ := h.settled x hx hr
    refine ⟨op', f', hp'.wake ?_⟩
    rintro rfl
    have := hp.frame
    rw [hp'.frame] at this
    cases this
    exact ho

theorem Running.wake (h : s.Running) (hc : c ≠ s.r) : (s.wake c id err).Running := by
  have hne : s.r ≠ c := Ne.symm hc
  have hr : (s.wake c id err).r = s.r := rfl
  refine ⟨?_, ?_, ?_, ?_⟩
  · simpa [hr, hne] using h.not_ready
  · rw [wake_frame]; exact h.frame
  · rw [wake_clauses]; exact h.clauses
  · rw [wake_done]; exact h.not_done

theorem Inv.wake (h : s.Inv) (hp : s.Pending c op f) (hc : c ∉ s.ready) (ho : f.Outcome id err) :
    (s.wake c id err).Inv := by
  have hlt : c < s.ncrs := by
    by_contra hge
    have := hp.frame
    rw [h.fresh c (not_lt.1 hge)] at this
    cases this
  refine ⟨h.toMid.wake hp hlt hc ho, fun hu => (h.running hu).wake ?_⟩
  rintro rfl
  have := hp.frame
  rw [(h.running hu).frame] at this
  cases this

/-- Triggering a linked clause succeeds and keeps the invariant. -/
theorem Inv.trigger (h : s.Inv) {e : Cancel} (hl : s.Linked e c i) (he : e.Fires err) :
    s.trigger ⟨c, i⟩ err = .ok (s.wake c i err) ∧ (s.wake c i err).Inv := by
  obtain ⟨op, f, hp, ha⟩ := h.linked_pending hl
  exact ⟨trigger_eq h.toCore hl, h.wake hp (h.linked e c i hl).2.1 (.of_allows ha he)⟩

end Ctx

end Libdill.Sched
