import Libdill.Sched.Micro

/-!
# The invariant of the moves

`Good k s` is the scheduler invariant in the middle of a step: `Mid` for the links, `Cur.Holds`
for the running coroutine and `Frames` for what the suspended ones are in the middle of. Every
move keeps it (`Good.micro`), which is what makes `dill_docancel` succeed on every linked clause.
-/

namespace Libdill.Sched

open Foundations

namespace Ctx

/-- Who is suspended in which call: the waiter of a bundle is in `dill_bundle_wait` on it, the
closer of a coroutine that has not ended is in `dill_cr_close` on it and is resumed with `errno`
zero only after the end, and every suspended or held call has been recorded. -/
structure Frames (k : Cur) (s : Ctx) : Prop where
  member : ∀ b, ∀ c ∈ (s.bundles b).crs, c < s.ncrs
  waiter : ∀ b w, (s.bundles b).waiter = some w → w.id = 0 ∧
    ((∃ op, (s.crs w.cr).frame = some (op, .bundleWait b)) ∨
      (w.cr = s.r ∧ ∃ j, k = .waiting j (.bundleWait b)))
  closer : ∀ c p, (s.crs c).closer = some p → (s.crs c).done = false →
    ∃ op b h old, (s.crs p).frame = some (op, .crClose b h old c)
  closed : ∀ p ∈ s.ready, ∀ op b h old c, (s.crs p).frame = some (op, .crClose b h old c) →
    (s.crs p).err = .ok → (s.crs c).done = true
  logged : ∀ c op f, (s.crs c).frame = some (op, f) → f ≠ .epilogue →
    ∃ j, j.op = op ∧ s.Called c j ∧ f.Of j.call j.objs
  held : ∀ c, ∀ x ∈ (s.crs c).closing, ∃ j, j.op = x.1 ∧ s.Called c j ∧ j.Holds x.2.1

variable {k k' : Cur} {s s' : Ctx} {c : CrId} {id : ℤ} {err : Errno} {op i : ℕ} {f : Frame}
  {j : Job} {b : BundleId}

/-- The change keeps what the frames are about, and makes no closer ready that `Frames.closed`
would be about. -/
structure KeepsFrames (s s' : Ctx) : Prop where
  r : s'.r = s.r
  ncrs : s'.ncrs = s.ncrs
  crs : ∀ b, (s'.bundles b).crs = (s.bundles b).crs
  waiter : ∀ b, (s'.bundles b).waiter = (s.bundles b).waiter
  frame : ∀ c, (s'.crs c).frame = (s.crs c).frame
  closer : ∀ c, (s'.crs c).closer = (s.crs c).closer
  done : ∀ c, (s'.crs c).done = (s.crs c).done
  held : ∀ c, ∀ x ∈ (s'.crs c).closing, x ∈ (s.crs c).closing ∨
    ∃ j, j.op = x.1 ∧ s'.Called c j ∧ j.Holds x.2.1
  log : ∀ e ∈ s.log, e ∈ s'.log
  ready : ∀ p ∈ s'.ready, (p ∈ s.ready ∧ (s'.crs p).err = (s.crs p).err) ∨
    ∀ op b h old c, (s.crs p).frame = some (op, .crClose b h old c) → (s'.crs p).err = .ok →
      (s.crs c).done = true

theorem Frames.congr (h : Frames k s) (e : KeepsFrames s s')
    (hk : ∀ j b, k = .waiting j (.bundleWait b) → k' = k) : Frames k' s' where
  member b c hc := by
    rw [e.crs] at hc
    rw [e.ncrs]
    exact h.member b c hc
  waiter b w hw := by
    rw [e.waiter] at hw
    obtain ⟨h0, hw⟩ := h.waiter b w hw
    refine ⟨h0, hw.imp (fun ⟨op, hf⟩ => ⟨op, by rw [e.frame, hf]⟩) ?_⟩
    rintro ⟨hr, j, hj⟩
    exact ⟨by rw [e.r, hr], j, by rw [hk j b hj, hj]⟩
  closer c p hp hd := by
    rw [e.closer] at hp
    rw [e.done] at hd
    rw [e.frame]
    exact h.closer c p hp hd
  closed p hp op b x old c hf he := by
    rw [e.frame] at hf
    rw [e.done]
    rcases e.ready p hp with ⟨hr, herr⟩ | hr
    · exact h.closed p hr op b x old c hf (by rw [← herr, he])
    · exact hr op b x old c hf he
  logged c op f hf hne := by
    rw [e.frame] at hf
    obtain ⟨j, hj, hc, ho⟩ := h.logged c op f hf hne
    exact ⟨j, hj, e.log _ hc, ho⟩
  held c x hx := by
    rcases e.held c x hx with hx | hx
    · obtain ⟨j, hj, hc, ho⟩ := h.held c x hx
      exact ⟨j, hj, e.log _ hc, ho⟩
    · exact hx

/-- Everything but the log is the same. -/
theorem KeepsFrames.of_log (hr : s'.r = s.r) (hn : s'.ncrs = s.ncrs) (hb : s'.bundles = s.bundles)
    (hc : s'.crs = s.crs) (hready : s'.ready = s.ready) (hlog : ∀ e ∈ s.log, e ∈ s'.log) :
    KeepsFrames s s' := by
  refine ⟨hr, hn, ?_, ?_, ?_, ?_, ?_, ?_, hlog, ?_⟩
  · intro b; rw [hb]
  · intro b; rw [hb]
  · intro c; rw [hc]
  · intro c; rw [hc]
  · intro c; rw [hc]
  · intro c x hx; exact .inl (hc ▸ hx)
  · intro p hp; exact .inl ⟨hready ▸ hp, by rw [hc]⟩

theorem keepsFrames_ret (s : Ctx) (op : ℕ) (v : ℤ) (e : Errno) : KeepsFrames s (s.ret op v e) :=
  .of_log rfl rfl rfl rfl rfl fun _ he => List.mem_append_left _ he

theorem keepsFrames_enter (s : Ctx) (c : Call) : KeepsFrames s (s.enter c) :=
  .of_log rfl rfl rfl rfl rfl fun _ he => List.mem_append_left _ he

theorem keepsFrames_record (s : Ctx) (m : Meeting) : KeepsFrames s (s.record m) :=
  .of_log rfl rfl rfl rfl rfl fun _ he => List.mem_append_left _ he

theorem keepsFrames_memcpy (s : Ctx) (dst src : Addr) (len : ℕ) :
    KeepsFrames s (s.memcpy dst src len) :=
  .of_log rfl rfl rfl rfl rfl fun _ he => he

theorem KeepsFrames.trans {s'' : Ctx} (h : KeepsFrames s s') (h' : KeepsFrames s' s'') :
    KeepsFrames s s'' where
  r := h'.r.trans h.r
  ncrs := h'.ncrs.trans h.ncrs
  crs b := (h'.crs b).trans (h.crs b)
  waiter b := (h'.waiter b).trans (h.waiter b)
  frame c := (h'.frame c).trans (h.frame c)
  closer c := (h'.closer c).trans (h.closer c)
  done c := (h'.done c).trans (h.done c)
  held c x hx := by
    rcases h'.held c x hx with hx | hx
    · rcases h.held c x hx with hx | ⟨j, hj, hc, ho⟩
      · exact .inl hx
      · exact .inr ⟨j, hj, h'.log _ hc, ho⟩
    · exact .inr hx
  log e he := h'.log e (h.log e he)
  ready p hp := by
    rcases h'.ready p hp with ⟨hp', he'⟩ | hr
    · rw [he']
      exact h.ready p hp'
    · refine .inr fun op b x old c hf he => ?_
      rw [← h.done]
      exact hr op b x old c (by rw [h.frame, hf]) he

theorem wake_proj {β : Type*} (p : Cr → β)
    (hp : ∀ x id err n, p { x with id := id, err := err, readyNext := n } = p x) (x : CrId) :
    p ((s.wake c id err).crs x) = p (s.crs x) := by
  rw [wake_crs]
  split
  · rename_i hx; rw [hp, hx]
  · rfl

theorem keepsFrames_wake
    (hc : ∀ op b h old it, (s.crs c).frame = some (op, .crClose b h old it) → err = .ok →
      (s.crs it).done = true) : KeepsFrames s (s.wake c id err) where
  r := rfl
  ncrs := rfl
  crs _ := rfl
  waiter _ := rfl
  frame := wake_proj Cr.frame fun _ _ _ _ => rfl
  closer := wake_proj Cr.closer fun _ _ _ _ => rfl
  done := wake_proj Cr.done fun _ _ _ _ => rfl
  held x y hy := by
    rw [wake_proj Cr.closing fun _ _ _ _ => rfl] at hy
    exact .inl hy
  log _ he := he
  ready p hp := by
    rw [wake_crs]
    by_cases hpc : p = c
    · subst hpc
      rw [if_pos rfl]
      exact .inr hc
    · rw [if_neg hpc]
      rw [wake_ready, List.mem_append, List.mem_singleton] at hp
      exact .inl ⟨hp.resolve_right hpc, rfl⟩

theorem keepsFrames_updCr {g : Cr → Cr} (hg : Keeps g) (hcl : ∀ x, (g x).closer = x.closer)
    (hh : ∀ x ∈ (g (s.crs c)).closing, x ∈ (s.crs c).closing ∨
      ∃ j, j.op = x.1 ∧ s.Called c j ∧ j.Holds x.2.1) :
    KeepsFrames s (s.updCr c g) where
  r := rfl
  ncrs := rfl
  crs _ := rfl
  waiter _ := rfl
  frame := updCr_proj Cr.frame hg.frame s c
  closer := updCr_proj Cr.closer hcl s c
  done := updCr_proj Cr.done hg.done s c
  held x y hy := by
    rw [updCr_crs] at hy
    split at hy
    · rename_i hx
      subst hx
      exact hh y hy
    · exact .inl hy
  log _ he := he
  ready p hp := .inl ⟨hp, updCr_proj Cr.err hg.err s c p⟩

/-! ## The running coroutine between two moves -/

/-- The running coroutine is in the call `j`. -/
structure Busy (s : Ctx) (j : Job) : Prop extends s.Running where
  phase : s.phase = .user
  called : s.Called s.r j

/-- The running coroutine registers clauses, to be suspended in `f`. -/
structure Waiting (s : Ctx) (j : Job) (f : Frame) : Prop where
  phase : s.phase = .user
  not_ready : s.r ∉ s.ready
  frame : (s.crs s.r).frame = none
  not_done : (s.crs s.r).done = false
  unblocked : (s.crs s.r).noBlocking1 = false
  allows : ∀ cl ∈ (s.crs s.r).clauses, f.Allows cl
  called : s.Called s.r j
  waits : f.Waits
  of : f.Of j.call j.objs

/-- The running coroutine closes a bundle. -/
structure Closing (s : Ctx) (j : Job) (b : BundleId) (h : Handle) (rest : List CrId) : Prop
    extends s.Busy j where
  of : ∀ old it, (Frame.crClose b h old it).Of j.call j.objs
  rest_lt : ∀ c ∈ rest, c < s.ncrs

/-- The running coroutine is in `dill_epilogue`. -/
structure Exiting (s : Ctx) : Prop where
  phase : s.phase = .user
  not_ready : s.r ∉ s.ready
  frame : (s.crs s.r).frame = none
  clauses : (s.crs s.r).clauses = []
  done : (s.crs s.r).done = true
  closer : ∀ p, (s.crs s.r).closer = some p →
    ∃ op b h old, (s.crs p).frame = some (op, .crClose b h old s.r)

end Ctx

/-- What the running coroutine is like where `k` says it is. -/
def Cur.Holds : Cur → Ctx → Prop
  | .idle, s => s.phase = .user → s.Running
  | .busy j _, s => s.Busy j
  | .waiting j f, s => s.Waiting j f
  | .terming j _, s => s.Busy j
  | .closing j b h _ rest, s => s.Closing j b h rest
  | .exiting, s => s.Exiting

namespace Ctx

/-- Channels that have not been made are empty, no handle leads to one, and nobody waits on a
descriptor that is not cached. -/
structure Tables (s : Ctx) : Prop where
  fresh : ∀ h : HalfRef, s.nchans ≤ h.chan → s.half h = {}
  handle : ∀ h ch, s.handles h = some (.half ch) → ch.chan < s.nchans
  cached : ∀ f, (s.fds f).cached = false → ∀ sd, (s.fds f).waiter sd = none

/-- **The invariant of the moves.** -/
structure Good (k : Cur) (s : Ctx) : Prop extends s.Mid where
  tables : s.Tables
  cur : k.Holds s
  frames : Frames k s

variable {k k' : Cur} {s s' : Ctx} {c : CrId} {id : ℤ} {err : Errno} {op i : ℕ} {f : Frame}
  {j : Job} {b : BundleId}

theorem Busy.congr (h : s.Busy j) (e : s.SameSched s') (hlog : ∀ x ∈ s.log, x ∈ s'.log) :
    s'.Busy j where
  toRunning := h.toRunning.congr e
  phase := by rw [e.phase, h.phase]
  called := by rw [e.r]; exact hlog _ h.called

/-- A change that the scheduler does not notice. -/
theorem holds_congr (h : k.Holds s) (e : s.SameSched s') (hf : KeepsFrames s s')
    (hn : (s'.crs s.r).noBlocking1 = (s.crs s.r).noBlocking1) : k.Holds s' := by
  cases k with
  | idle => exact fun hu => (h (by rw [← e.phase, hu])).congr e
  | busy j m => exact Busy.congr h e hf.log
  | terming j ch => exact Busy.congr h e hf.log
  | waiting j f =>
    have h : s.Waiting j f := h
    refine ⟨?_, ?_, ?_, ?_, ?_, ?_, ?_, h.waits, h.of⟩
    · rw [e.phase, h.phase]
    · rw [e.r, e.ready]; exact h.not_ready
    · rw [e.r, e.frame, h.frame]
    · rw [e.r, e.done, h.not_done]
    · rw [e.r, hn, h.unblocked]
    · rw [e.r, e.clauses]; exact h.allows
    · rw [e.r]; exact hf.log _ h.called
  | closing j b x old rest =>
    have h : s.Closing j b x rest := h
    exact ⟨h.toBusy.congr e hf.log, h.of, by rw [e.ncrs]; exact h.rest_lt⟩
  | exiting =>
    have h : s.Exiting := h
    refine ⟨?_, ?_, ?_, ?_, ?_, ?_⟩
    · rw [e.phase, h.phase]
    · rw [e.r, e.ready]; exact h.not_ready
    · rw [e.r, e.frame, h.frame]
    · rw [e.r, e.clauses, h.clauses]
    · rw [e.r, e.done, h.done]
    · intro p hp
      rw [e.r, hf.closer] at hp
      rw [e.r, e.frame]
      exact h.closer p hp

theorem Good.congr (h : Good k s) (e : s.SameSched s') (hf : KeepsFrames s s') (hc : s'.Tables)
    (hn : (s'.crs s.r).noBlocking1 = (s.crs s.r).noBlocking1) : Good k s' where
  toMid := h.toMid.congr e
  tables := hc
  cur := holds_congr h.cur e hf hn
  frames := h.frames.congr hf fun _ _ _ => rfl

/-- Only the place in the code changes. -/
theorem Good.cur_of (h : Good k s) (hc : k'.Holds s)
    (hk : ∀ j b, k = .waiting j (.bundleWait b) → k' = k) : Good k' s where
  toMid := h.toMid
  tables := h.tables
  cur := hc
  frames := h.frames.congr (.of_log rfl rfl rfl rfl rfl fun _ he => he) hk

theorem Good.inv (h : Good .idle s) : s.Inv := ⟨h.toMid, h.cur⟩

theorem Quiet.proj {β : Type*} (h : Quiet s s') (p : Cr → β)
    (hp : ∀ x nb fr, p { x with noBlocking2 := nb, freed := fr } = p x) (c : CrId) :
    p (s'.crs c) = p (s.crs c) := by
  obtain ⟨nb, fr, hc⟩ := h.cr c
  rw [hc, hp]

theorem Quiet.sameSched (h : Quiet s s') : s.SameSched s' where
  r := h.r
  ready := h.ready
  timers := h.timers
  ncrs := h.ncrs
  readyNext := h.proj Cr.readyNext fun _ _ _ => rfl
  clauses := h.proj Cr.clauses fun _ _ _ => rfl
  queue x sd := by
    obtain ⟨cl, hx⟩ := h.half x
    rw [hx]
  waiter := h.waiter
  phase := h.phase
  id := h.proj Cr.id fun _ _ _ => rfl
  err := h.proj Cr.err fun _ _ _ => rfl
  frame := h.proj Cr.frame fun _ _ _ => rfl
  done := h.proj Cr.done fun _ _ _ => rfl
  fresh := h.fresh

theorem Quiet.keepsFrames (h : Quiet s s') : KeepsFrames s s' where
  r := h.r
  ncrs := h.ncrs
  crs b := by
    obtain ⟨fr, hb⟩ := h.bundle b
    rw [hb]
  waiter b := by
    obtain ⟨fr, hb⟩ := h.bundle b
    rw [hb]
  frame := h.proj Cr.frame fun _ _ _ => rfl
  closer := h.proj Cr.closer fun _ _ _ => rfl
  done := h.proj Cr.done fun _ _ _ => rfl
  held c x hx := .inl (h.proj Cr.closing (fun _ _ _ => rfl) c ▸ hx)
  log e he := by rw [h.log]; exact he
  ready p hp := .inl ⟨h.ready ▸ hp, h.proj Cr.err (fun _ _ _ => rfl) p⟩

theorem Quiet.tables (h : Quiet s s') (hc : s.Tables) : s'.Tables where
  fresh x hx := by
    rw [h.nchans] at hx
    rw [h.freshHalf x hx, hc.fresh x hx]
  handle x ch hx := by
    rw [h.nchans]
    rcases h.handles x with he | he | he
    · exact hc.handle x ch (by rw [← he, hx])
    · rw [he] at hx; cases hx
    · rw [he] at hx; cases hx
  cached f hf sd := by
    rw [h.waiter]
    rcases h.cached f hf with hf | hw
    · exact hc.cached f hf sd
    · exact hw sd

theorem Good.quiet (h : Good k s) (hq : Quiet s s') : Good k s' :=
  h.congr hq.sameSched hq.keepsFrames (hq.tables h.tables)
    (hq.proj Cr.noBlocking1 (fun _ _ _ => rfl) s.r)

/-! ## Calls that come and go -/

theorem Good.enter (h : Good .idle s) (hu : s.phase = .user) (c : Call) :
    Good (.busy ⟨s.nops, c, c.handles.map s.handles⟩ none) (s.enter c) where
  toMid := h.toMid.congr (sameSched_enter s c)
  tables := ⟨h.tables.fresh, h.tables.handle, h.tables.cached⟩
  cur := ⟨(h.cur hu).congr (sameSched_enter s c), hu,
    List.mem_append_right _ (List.mem_singleton.2 rfl)⟩
  frames := h.frames.congr (keepsFrames_enter s c) (by simp)

theorem Good.ret {m : Option (ℕ × Errno)} (h : Good (.busy j m) s) (v : ℤ) (e : Errno) :
    Good .idle (s.ret j.op v e) where
  toMid := h.toMid.congr (sameSched_ret s j.op v e)
  tables := ⟨h.tables.fresh, h.tables.handle, h.tables.cached⟩
  cur := fun _ => (Busy.toRunning h.cur).congr (sameSched_ret s j.op v e)
  frames := h.frames.congr (keepsFrames_ret s j.op v e) (by simp)

/-- Changing the stack of held calls. -/
theorem keeps_closing (g : List (ℕ × Handle × Bool) → List (ℕ × Handle × Bool)) :
    Keeps fun cr : Cr => { cr with closing := g cr.closing } :=
  ⟨⟨fun _ => rfl, fun _ => rfl⟩, fun _ => rfl, fun _ => rfl, fun _ => rfl, fun _ => rfl⟩

theorem Good.hold {h' : Handle} {old : Bool} (h : Good (.busy j none) s) (hj : j.Holds h') :
    Good .idle (s.updCr s.r fun cr => { cr with closing := (j.op, h', old) :: cr.closing }) := by
  have hs := sameSched_updCr (keeps_closing ((j.op, h', old) :: ·)) h.r_lt
  refine ⟨h.toMid.congr hs, ⟨h.tables.fresh, h.tables.handle, h.tables.cached⟩,
    fun _ => (Busy.toRunning h.cur).congr hs, ?_⟩
  refine h.frames.congr (keepsFrames_updCr (keeps_closing _) (fun _ => rfl) ?_) (by simp)
  intro x hx
  rcases List.mem_cons.1 hx with rfl | hx
  · exact .inr ⟨j, rfl, Busy.called h.cur, hj⟩
  · exact .inl hx

theorem Good.unhold {x : ℕ × Handle × Bool} {rest : List (ℕ × Handle × Bool)}
    (h : Good .idle s) (hu : s.phase = .user) (hc : (s.crs s.r).closing = x :: rest)
    (hj : s.Called s.r j) :
    Good (.busy j none) (s.updCr s.r fun cr => { cr with closing := rest }) := by
  have hs := sameSched_updCr (keeps_closing fun _ => rest) h.r_lt
  refine ⟨h.toMid.congr hs, ⟨h.tables.fresh, h.tables.handle, h.tables.cached⟩,
    ⟨(h.cur hu).congr hs, hu, hj⟩, ?_⟩
  refine h.frames.congr (keepsFrames_updCr (keeps_closing fun _ => rest) (fun _ => rfl) ?_)
    (by simp)
  intro y hy
  exact .inl (by rw [hc]; exact .tail _ hy)

/-! ## Channels and bundles are made -/

theorem chmade_half (h : s.Tables) (h₀ h₁ : Handle) : (s.chmade h₀ h₁).half = s.half := by
  have h0 : s.half ⟨s.nchans, false⟩ = {} := h.fresh _ le_rfl
  have h1 : s.half ⟨s.nchans, true⟩ = {} := h.fresh _ le_rfl
  simp only [chmade, setHandle]
  rw [← h0, Function.update_eq_self, h0, ← h1, Function.update_eq_self]

theorem Good.chmake (h : Good (.busy j none) s) (h₀ h₁ : Handle) :
    Good (.busy j none) (s.chmade h₀ h₁) := by
  have hh := chmade_half h.tables h₀ h₁
  refine h.congr (.of_eq rfl rfl rfl rfl rfl rfl (fun x sd => by rw [hh]) fun _ _ => rfl)
    (.of_log rfl rfl rfl rfl rfl fun _ he => he)
    ⟨fun x hx => ?_, fun x ch hx => ?_, h.tables.cached⟩ rfl
  · rw [hh]
    exact h.tables.fresh x (Nat.le_of_succ_le hx)
  · change ch.chan < s.nchans + 1
    simp only [chmade, setHandle, Function.update_apply] at hx
    split at hx
    · cases hx; exact Nat.lt_succ_self _
    · split at hx
      · cases hx; exact Nat.lt_succ_self _
      · exact Nat.lt_succ_of_lt (h.tables.handle x ch hx)

theorem Good.bundle (h : Good (.busy j none) s) (mem : Bool) (x : Handle) :
    Good (.busy j none) (s.bundleMade mem x) := by
  have hs : s.SameSched (s.bundleMade mem x) :=
    .of_eq rfl rfl rfl rfl rfl rfl (fun _ _ => rfl) fun _ _ => rfl
  have hb : ∀ b, (s.bundleMade mem x).bundles b =
      if b = s.nbundles then { mem := mem, owner := s.r } else s.bundles b := fun b => by
    simp [bundleMade, setHandle, Function.update_apply]
  refine ⟨h.toMid.congr hs, ⟨h.tables.fresh, fun y ch hy => ?_, h.tables.cached⟩,
    Busy.congr h.cur hs fun _ he => he,
    ⟨fun b c hc => ?_, fun b w hw => ?_, h.frames.closer, h.frames.closed, h.frames.logged,
      h.frames.held⟩⟩
  · simp only [bundleMade, setHandle, Function.update_apply] at hy
    split at hy
    · cases hy
    · exact h.tables.handle y ch hy
  · rw [hb] at hc
    split at hc
    · cases hc
    · exact h.frames.member b c hc
  · rw [hb] at hw
    split at hw
    · cases hw
    · exact h.frames.waiter b w hw

/-! ## Waking -/

theorem Tables.wake (h : s.Tables) (c : CrId) (id : ℤ) (err : Errno) : (s.wake c id err).Tables where
  fresh x hx := by
    have := h.fresh x hx
    simp only [Ctx.wake, resume, updCr]
    rw [this]
    rfl
  handle := h.handle
  cached f hf sd := by
    rw [wake_waiter, h.cached f hf sd]
    rfl

/-- Except while it registers clauses, the running coroutine has none. -/
theorem Good.clauses_nil (h : Good k s) (hk : ∀ j f, k ≠ .waiting j f) (hu : s.phase = .user) :
    (s.crs s.r).clauses = [] := by
  have hc := h.cur
  cases k with
  | idle => exact (hc hu).clauses
  | busy j m => exact (Busy.toRunning hc).clauses
  | waiting j f => exact absurd rfl (hk j f)
  | terming j ch => exact (Busy.toRunning hc).clauses
  | closing j b x old rest => exact (Closing.toBusy hc).toRunning.clauses
  | exiting => exact Exiting.clauses hc

/-- A linked clause belongs to a suspended coroutine, whose frame allows it. -/
theorem Good.linked_pending (h : Good k s) (hk : ∀ j f, k ≠ .waiting j f) {e : Cancel}
    (hl : s.Linked e c i) :
    (s.phase = .user → c ≠ s.r) ∧ ∃ op f, s.Pending c op f ∧ f.Allows ⟨i, e⟩ := by
  obtain ⟨hlt, hnr, hmem⟩ := h.linked e c i hl
  have hne : s.phase = .user → c ≠ s.r := by
    rintro hu rfl
    rw [h.clauses_nil hk hu] at hmem
    cases hmem
  obtain ⟨op, f, hp⟩ := h.settled c hlt hne
  exact ⟨hne, op, f, hp, hp.allows hnr _ hmem⟩

theorem holds_wake (h : k.Holds s) (hk : ∀ j f, k ≠ .waiting j f)
    (hc : s.phase = .user → c ≠ s.r) : k.Holds (s.wake c id err) := by
  have hbusy : ∀ {j}, s.Busy j → (s.wake c id err).Busy j := fun hb =>
    ⟨hb.toRunning.wake (hc hb.phase), hb.phase, hb.called⟩
  cases k with
  | idle => exact fun hu => (h hu).wake (hc hu)
  | busy j m => exact hbusy h
  | waiting j f => exact absurd rfl (hk j f)
  | terming j ch => exact hbusy h
  | closing j b x old rest =>
    have h : s.Closing j b x rest := h
    exact ⟨hbusy h.toBusy, h.of, h.rest_lt⟩
  | exiting =>
    have h : s.Exiting := h
    refine ⟨h.phase, ?_, ?_, ?_, ?_, fun p hp => ?_⟩
    · change s.r ∉ s.ready ++ [c]
      rw [List.mem_append, List.mem_singleton, not_or]
      exact ⟨h.not_ready, (hc h.phase).symm⟩
    · rw [wake_frame]; exact h.frame
    · rw [wake_clauses]; exact h.clauses
    · rw [wake_done]; exact h.done
    · rw [wake_proj Cr.closer fun _ _ _ _ => rfl] at hp
      rw [wake_frame]
      exact h.closer p hp

theorem Good.wake (h : Good k s) (hk : ∀ j f, k ≠ .waiting j f) (hp : s.Pending c op f)
    (hlt : c < s.ncrs) (hne : s.phase = .user → c ≠ s.r) (hc : c ∉ s.ready) (ho : f.Outcome id err)
    (hd : ∀ b x old it, f = .crClose b x old it → err = .ok → (s.crs it).done = true) :
    Good k (s.wake c id err) where
  toMid := h.toMid.wake hp hlt hc ho
  tables := h.tables.wake c id err
  cur := holds_wake h.cur hk hne
  frames := by
    refine h.frames.congr (keepsFrames_wake fun op' b x old it hf he => ?_) fun _ _ _ => rfl
    rw [hp.frame] at hf
    cases hf
    exact hd b x old it rfl he

theorem Good.trigger (h : Good k s) (hk : ∀ j f, k ≠ .waiting j f) {e : Cancel}
    (hl : s.Linked e c i) (he : e.Fires err) : Good k (s.wake c i err) := by
  obtain ⟨hne, op, f, hp, ha⟩ := h.linked_pending hk hl
  obtain ⟨hlt, hnr, -⟩ := h.linked e c i hl
  refine h.wake hk hp hlt hne hnr (.of_allows ha he) ?_
  rintro b x old it rfl
  exact ha.elim

theorem Good.busy_congr {m m' : Option (ℕ × Errno)} (h : Good (.busy j m) s) (e : s.SameSched s')
    (hf : KeepsFrames s s') (hc : s'.Tables) : Good (.busy j m') s' where
  toMid := h.toMid.congr e
  tables := hc
  cur := Busy.congr h.cur e hf.log
  frames := h.frames.congr hf (by simp)

/-- The first clause of a queue is linked. -/
theorem linked_head {ch : HalfRef} {sd : Side} {c : ChanClause} {rest : List ChanClause}
    (hq : (s.half ch).queue sd = c :: rest) : s.Linked (.ch ch sd) c.cr c.id :=
  ⟨c, by rw [hq]; exact .head _, rfl, rfl⟩

theorem Good.memcpy (h : Good k s) (dst src : Addr) (len : ℕ) : Good k (s.memcpy dst src len) :=
  h.congr (sameSched_memcpy s dst src len) (keepsFrames_memcpy s dst src len)
    ⟨h.tables.fresh, h.tables.handle, h.tables.cached⟩ rfl

theorem Good.record {m m' : Option (ℕ × Errno)} (h : Good (.busy j m) s) (x : Meeting) :
    Good (.busy j m') (s.record x) :=
  h.busy_congr (sameSched_record s x) (keepsFrames_record s x)
    ⟨h.tables.fresh, h.tables.handle, h.tables.cached⟩

theorem Good.meet (h : Good (.busy j none) s) {a : ChanArg} {c : ChanClause}
    {rest : List ChanClause} (hq : (s.half a.half).queue a.sd.peer = c :: rest)
    (m : Option (ℕ × Errno)) : Good (.busy j m) (s.met j.op i a c) := by
  have hk : ∀ j' f, Cur.busy j none ≠ .waiting j' f := by simp
  rw [met]
  split
  · have h₁ := h.memcpy (meeting a.half a.sd j.op i a.val a.len c .ok).dst
      (meeting a.half a.sd j.op i a.val a.len c .ok).src a.len
    exact (h₁.trigger hk (linked_head hq) (Or.inl rfl)).record _
  · exact (h.trigger hk (linked_head hq) (Or.inr (Or.inl rfl))).record _

theorem Good.startTerm (h : Good (.busy j none) s) {ch : HalfRef} (hn : ch.chan < s.nchans) :
    Good (.terming j ch) (s.updHalf ch fun x => { x with done := true }) := by
  have hs := sameSched_updHalf s ch (g := fun x => { x with done := true }) fun _ => rfl
  refine ⟨h.toMid.congr hs, ⟨fun x hx => ?_, h.tables.handle, h.tables.cached⟩,
    Busy.congr h.cur hs fun _ he => he,
    h.frames.congr (.of_log rfl rfl rfl rfl rfl fun _ he => he) (by simp)⟩
  have hne : x ≠ ch := by
    rintro rfl
    exact absurd hn (not_lt.2 hx)
  simp only [updHalf, Function.update_of_ne hne]
  exact h.tables.fresh x hx

/-! ## Registering clauses -/

theorem Good.startWait (h : Good (.busy j none) s) (hb : s.canblock = true) (hw : f.Waits)
    (hf : f.Of j.call j.objs) : Good (.waiting j f) s := by
  have hc : s.Busy j := h.cur
  refine h.cur_of ⟨hc.phase, hc.not_ready, hc.frame, hc.not_done, ?_, ?_, hc.called, hw, hf⟩
    (by simp)
  · simp only [canblock, Bool.not_eq_true', Bool.or_eq_false_iff] at hb
    exact hb.1
  · rw [hc.clauses]
    simp

theorem Waiting.register (h : s.Waiting j f) {e : Cancel} (hreg : Registered s s' i e)
    (hf : f.Allows ⟨i, e⟩) (hlog : ∀ x ∈ s.log, x ∈ s'.log) : s'.Waiting j f := by
  have hproj : ∀ {β : Type} (p : Cr → β), (∀ x cls, p { x with clauses := cls } = p x) →
      p (s'.crs s'.r) = p (s.crs s.r) := fun p hp => by rw [hreg.r, hreg.proj p hp]
  refine ⟨?_, ?_, ?_, ?_, ?_, ?_, ?_, h.waits, h.of⟩
  · rw [hreg.phase, h.phase]
  · rw [hreg.r, hreg.ready]; exact h.not_ready
  · rw [hproj Cr.frame fun _ _ => rfl]; exact h.frame
  · rw [hproj Cr.done fun _ _ => rfl]; exact h.not_done
  · rw [hproj Cr.noBlocking1 fun _ _ => rfl]; exact h.unblocked
  · rw [hreg.clauses]
    intro cl hcl
    rcases List.mem_cons.1 hcl with rfl | hcl
    · exact hf
    · exact h.allows cl hcl
  · rw [hreg.r]; exact hlog _ h.called

theorem Registered.keepsFrames {e : Cancel} (h : Registered s s' i e)
    (hb : s'.bundles = s.bundles) (hlog : ∀ x ∈ s.log, x ∈ s'.log) : KeepsFrames s s' where
  r := h.r
  ncrs := h.ncrs
  crs b := by rw [hb]
  waiter b := by rw [hb]
  frame := h.proj Cr.frame fun _ _ => rfl
  closer := h.proj Cr.closer fun _ _ => rfl
  done := h.proj Cr.done fun _ _ => rfl
  held c x hx := .inl (h.proj Cr.closing (fun _ _ => rfl) c ▸ hx)
  log := hlog
  ready p hp := .inl ⟨h.ready ▸ hp, h.proj Cr.err (fun _ _ => rfl) p⟩

theorem Good.register (h : Good (.waiting j f) s) {e : Cancel} (hreg : Registered s s' i e)
    (hm : s'.Mid) (hc : s'.Tables) (hf : f.Allows ⟨i, e⟩) (hb : s'.bundles = s.bundles)
    (hlog : ∀ x ∈ s.log, x ∈ s'.log) : Good (.waiting j f) s' where
  toMid := hm
  tables := hc
  cur := Waiting.register h.cur hreg hf hlog
  frames := h.frames.congr (hreg.keepsFrames hb hlog) fun _ _ _ => rfl

theorem Good.enqueue (h : Good (.waiting j f) s) {a : ChanArg}
    (hi : i ∉ (s.crs s.r).clauses.map Clause.id) (hf : f.Allows ⟨i, .ch a.half a.sd⟩)
    (hn : a.half.chan < s.nchans) :
    Good (.waiting j f) (s.enqueue j.op i a.sd a.half a.val a.len) := by
  have hc : s.Waiting j f := h.cur
  refine h.register (registered_enqueue s j.op i a.sd a.half a.val a.len)
    (h.toMid.enqueue hc.phase hc.not_ready hi _ _ _ _ _)
    ⟨fun x hx => ?_, h.tables.handle, h.tables.cached⟩ hf rfl
    fun _ he => he
  have hne : x ≠ a.half := by
    rintro rfl
    exact absurd hn (not_lt.2 hx)
  simp only [Ctx.enqueue, waitfor, updCr, updHalf, Function.update_of_ne hne]
  exact h.tables.fresh x hx

theorem Good.timer (h : Good (.waiting j f) s) (deadline : ℤ)
    (hi : i ∉ (s.crs s.r).clauses.map Clause.id) (hf : f.Allows ⟨i, .timer⟩) :
    Good (.waiting j f) (s.timer i deadline) := by
  have hc : s.Waiting j f := h.cur
  have hm := h.toMid.timer hc.phase hc.not_ready hi deadline
  by_cases hd : deadline < 0
  · rw [Ctx.timer, if_pos hd]; exact h
  · have hreg := registered_timer s i hd
    rw [Ctx.timer, if_neg hd] at hm hreg ⊢
    exact h.register hreg hm ⟨h.tables.fresh, h.tables.handle, h.tables.cached⟩ hf rfl fun _ he => he

theorem Good.linkFd (h : Good (.waiting j .fdwait) s) {fd : ℕ} {sd : Side}
    (hi : 1 ∉ (s.crs s.r).clauses.map Clause.id) (hcd : (s.fds fd).cached = true)
    (hw : (s.fds fd).waiter sd = none) : Good (.waiting j .fdwait) (s.linkFd fd sd) := by
  have hc : s.Waiting j .fdwait := h.cur
  refine h.register (registered_linkFd s fd sd hw) (h.toMid.linkFd hc.phase hc.not_ready hi hw)
    ⟨h.tables.fresh, h.tables.handle, fun x hx sd' => ?_⟩ (.inl ⟨fd, sd, rfl⟩) rfl fun _ he => he
  by_cases hxf : x = fd
  · subst hxf
    simp [Ctx.linkFd, waitfor, updCr, updFd, hcd] at hx
  · simp only [Ctx.linkFd, waitfor, updCr, updFd, Function.update_of_ne hxf] at hx ⊢
    exact h.tables.cached x hx sd'

theorem Good.setWaiter (h : Good (.waiting j (.bundleWait b)) s)
    (hi : 0 ∉ (s.crs s.r).clauses.map Clause.id) :
    Good (.waiting j (.bundleWait b))
      ((s.updBundle b fun x => { x with waiter := some ⟨s.r, 0⟩ }).waitfor ⟨0, .null⟩) := by
  have hs := sameSched_updBundle s b fun x => { x with waiter := some ⟨s.r, 0⟩ }
  have hbs : ∀ x, (s.updBundle b fun x => { x with waiter := some ⟨s.r, 0⟩ }).bundles x =
      if x = b then { s.bundles b with waiter := some ⟨s.r, 0⟩ } else s.bundles x := fun x => by
    simp [updBundle, Function.update_apply]
  have h₁ : Good (.waiting j (.bundleWait b))
      (s.updBundle b fun x => { x with waiter := some ⟨s.r, 0⟩ }) := by
    refine ⟨h.toMid.congr hs, ⟨h.tables.fresh, h.tables.handle, h.tables.cached⟩, ?_, ⟨fun x c hc => ?_,
      fun x w hw => ?_, h.frames.closer, h.frames.closed, h.frames.logged, h.frames.held⟩⟩
    · have hc : s.Waiting j (.bundleWait b) := h.cur
      exact ⟨hc.phase, hc.not_ready, hc.frame, hc.not_done, hc.unblocked, hc.allows, hc.called,
        hc.waits, hc.of⟩
    · rw [hbs] at hc
      split at hc
      · exact h.frames.member b c hc
      · exact h.frames.member x c hc
    · rw [hbs] at hw
      split at hw
      · rename_i hx
        cases hw
        exact ⟨rfl, .inr ⟨rfl, j, by rw [hx]⟩⟩
      · exact h.frames.waiter x w hw
  have hc : s.Waiting j (.bundleWait b) := h.cur
  exact h₁.register (registered_waitfor _ 0) (h₁.toMid.waitfor hc.phase hc.not_ready hi)
    ⟨h₁.tables.fresh, h₁.tables.handle, h₁.tables.cached⟩ (.inl rfl) rfl fun _ he => he

/-! ## Suspending -/

theorem Frames.block (h : Frames k s) (hr : (s.crs s.r).frame = none)
    (hk : ∀ j b, k = .waiting j (.bundleWait b) → f = .bundleWait b)
    (hlog : f ≠ .epilogue → ∃ j, j.op = op ∧ s.Called s.r j ∧ f.Of j.call j.objs)
    (hc : ∀ b x old it, f = .crClose b x old it → s.r ∈ s.ready → (s.crs s.r).err ≠ .ok) :
    Frames .idle (s.block op f) where
  member := h.member
  waiter b w hw := by
    obtain ⟨h0, hw⟩ := h.waiter b w hw
    refine ⟨h0, .inl ?_⟩
    rw [block_crs]
    rcases hw with ⟨op', hf⟩ | ⟨hwr, j, hj⟩
    · rw [if_neg fun he => by rw [he, hr] at hf; cases hf]
      exact ⟨op', hf⟩
    · rw [if_pos hwr, hk j b hj]
      exact ⟨op, rfl⟩
  closer c p hp hd := by
    rw [block_proj Cr.closer fun _ _ => rfl] at hp
    rw [block_proj Cr.done fun _ _ => rfl] at hd
    obtain ⟨op', b, x, old, hf⟩ := h.closer c p hp hd
    refine ⟨op', b, x, old, ?_⟩
    rw [block_crs, if_neg fun he => by rw [he, hr] at hf; cases hf]
    exact hf
  closed p hp op' b x old c hf he := by
    rw [block_proj Cr.err fun _ _ => rfl] at he
    rw [block_proj Cr.done fun _ _ => rfl]
    rw [block_crs] at hf
    split at hf
    · rename_i hpr
      subst hpr
      cases hf
      exact absurd he (hc b x old c rfl hp)
    · exact h.closed p hp op' b x old c hf he
  logged c op' f' hf hne := by
    rw [block_crs] at hf
    split at hf
    · rename_i hcr
      cases hf
      rw [hcr]
      exact hlog hne
    · exact h.logged c op' f' hf hne
  held c x hx := by
    rw [block_proj Cr.closing fun _ _ => rfl] at hx
    exact h.held c x hx

theorem Tables.block (h : s.Tables) (op : ℕ) (f : Frame) : (s.block op f).Tables :=
  ⟨h.fresh, h.handle, h.cached⟩

theorem Frame.Waits.suspends {f : Frame} (h : f.Waits) : f.Suspends := by
  cases f <;> first | exact trivial | exact h.elim

theorem Frame.Waits.ne_epilogue {f : Frame} (h : f.Waits) : f ≠ .epilogue := by
  rintro rfl; exact h

theorem Frame.Waits.ne_crClose {f : Frame} (h : f.Waits) (b : BundleId) (x : Handle) (old : Bool)
    (it : CrId) : f ≠ .crClose b x old it := by
  rintro rfl; exact h

theorem Good.block (h : Good (.waiting j f) s) : Good .idle (s.block j.op f) := by
  have hc : s.Waiting j f := h.cur
  have hi : (s.block j.op f).Inv := h.toMid.suspend hc.not_ready hc.not_done
    (Frame.Waits.suspends hc.waits) (Frame.Waits.ne_epilogue hc.waits) hc.allows
  refine ⟨hi.toMid, h.tables.block j.op f, hi.running, h.frames.block hc.frame ?_ ?_ ?_⟩
  · intro j' b hj
    cases hj
    rfl
  · exact fun _ => ⟨j, rfl, hc.called, hc.of⟩
  · intro b x old it hf
    exact absurd hf (Frame.Waits.ne_crClose hc.waits b x old it)

/-- The running coroutine queues itself. -/
theorem Mid.wakeRunning (h : s.Mid) (hu : s.phase = .user) (hr : s.r ∉ s.ready) (id : ℤ)
    (err : Errno) : (s.wake s.r id err).Mid where
  toCore := h.toCore.wake h.r_lt hr id err
  fresh x hx := by
    rw [wake_crs, if_neg (h.r_lt.trans_le hx).ne']
    exact h.fresh x hx
  settled x hx hne := by
    have hxr : x ≠ s.r := hne hu
    obtain ⟨op, f, hp⟩ := h.settled x hx fun _ => hxr
    exact ⟨op, f, hp.wake fun he => absurd he.symm hxr⟩

theorem Good.yield (h : Good (.busy j none) s) (hj : j.call = .yield) :
    Good .idle ((s.resume s.r 0 .ok).block j.op .yield) := by
  have hc : s.Busy j := h.cur
  rw [h.toCore.resume_eq_wake hc.clauses 0 .ok]
  have hm := h.toMid.wakeRunning hc.phase hc.not_ready 0 .ok
  have hin : s.r ∈ s.ready ++ [s.r] := by simp
  have hcr : (s.wake s.r 0 .ok).crs s.r =
      { s.crs s.r with id := 0, err := .ok, readyNext := true } := by rw [wake_crs, if_pos rfl]
  have hi : ((s.wake s.r 0 .ok).block j.op .yield).Inv := by
    refine hm.block ?_ (fun _ => ?_) (fun hn => absurd hin hn) fun hn => absurd hin hn
    · change ((s.wake s.r 0 .ok).crs s.r).done = true ↔ _
      rw [wake_done, hc.not_done]
      simp
    · change Frame.Outcome .yield ((s.wake s.r 0 .ok).crs s.r).id ((s.wake s.r 0 .ok).crs s.r).err
      rw [hcr]
      exact ⟨rfl, rfl⟩
  have hf : Frames (.busy j none) (s.wake s.r 0 .ok) := by
    refine h.frames.congr (keepsFrames_wake fun op' b x old it hf => ?_) fun _ _ _ => rfl
    rw [hc.frame] at hf
    cases hf
  refine ⟨hi.toMid, (h.tables.wake s.r 0 .ok).block _ _, hi.running, hf.block ?_ (by simp) ?_ (by simp)⟩
  · rw [wake_frame]; exact hc.frame
  · intro _
    exact ⟨j, rfl, hc.called, by rw [hj]; exact trivial⟩

/-! ## Launching -/

theorem launch_bundles (op : ℕ) (b : BundleId) (mem : Bool) (v : Handle) (x : BundleId) :
    (s.launch op b mem v).bundles x =
      if x = b then { s.bundles b with crs := (s.bundles b).crs ++ [s.ncrs] } else s.bundles x := by
  simp [launch, resume, updCr, updBundle, Function.update_apply]

theorem Good.launch (h : Good (.busy j none) s) (b : BundleId) (mem : Bool) (v : Handle)
    (hj : (Frame.go v).Of j.call j.objs) : Good .idle (s.launch j.op b mem v) := by
  have hc : s.Busy j := h.cur
  have hinv : s.Inv := ⟨h.toMid, fun _ => hc.toRunning⟩
  have hi := hinv.launch hc.phase j.op b mem v
  have hcrs := launch_crs h.r_lt j.op b mem v
  have hbs := launch_bundles (s := s) j.op b mem v
  have hnew := h.fresh s.ncrs le_rfl
  -- the frame of the parent is new, the child has none, the others are unchanged
  have hframe : ∀ c, (∃ x, (s.crs c).frame = some x) →
      ((s.launch j.op b mem v).crs c) = s.crs c := by
    rintro c ⟨x, hx⟩
    have h1 : c ≠ s.ncrs := by rintro rfl; rw [hnew] at hx; cases hx
    have h2 : c ≠ s.r := by rintro rfl; rw [hc.frame] at hx; cases hx
    rw [hcrs, if_neg h1, if_neg h2]
  have hdone : ∀ c, ((s.launch j.op b mem v).crs c).done = (s.crs c).done :=
    launch_proj_new h.r_lt hnew Cr.done (fun _ _ _ _ _ => rfl) rfl
  refine ⟨hi.toMid, ⟨h.tables.fresh, h.tables.handle, h.tables.cached⟩, hi.running, ⟨fun x c hxc => ?_,
    fun x w hw => ?_, fun c p hp hd => ?_, fun p hp op' x y old c hf he => ?_,
    fun c op' f' hf hne => ?_, fun c x hx => ?_⟩⟩
  · change c < s.ncrs + 1
    rw [hbs] at hxc
    split at hxc
    · rcases List.mem_append.1 hxc with hxc | hxc
      · exact Nat.lt_succ_of_lt (h.frames.member b c hxc)
      · rw [List.mem_singleton.1 hxc]; exact Nat.lt_succ_self _
    · exact Nat.lt_succ_of_lt (h.frames.member x c hxc)
  · have hw' : (s.bundles x).waiter = some w := by
      rw [hbs] at hw
      split at hw
      · rename_i hx; rw [hx]; exact hw
      · exact hw
    obtain ⟨h0, hw' | ⟨-, j', hj'⟩⟩ := h.frames.waiter x w hw'
    · obtain ⟨op', hf⟩ := hw'
      exact ⟨h0, .inl ⟨op', by rw [hframe _ ⟨_, hf⟩, hf]⟩⟩
    · cases hj'
  · have hp' : (s.crs c).closer = some p := by
      rw [hcrs] at hp
      split at hp
      · cases hp
      · split at hp
        · rename_i hx; rw [hx]; exact hp
        · exact hp
    rw [hdone] at hd
    obtain ⟨op', x, y, old, hf⟩ := h.frames.closer c p hp' hd
    exact ⟨op', x, y, old, by rw [hframe _ ⟨_, hf⟩, hf]⟩
  · rw [hdone]
    rcases launch_frame h.r_lt hf with ⟨-, -, hgo⟩ | ⟨hne, hpr⟩
    · cases hgo
    · rw [hpr] at hf he
      have hp : p ∈ s.ready ++ [s.r] := hp
      rw [List.mem_append, List.mem_singleton] at hp
      exact h.frames.closed p (hp.resolve_right hne) op' x y old c hf he
  · rcases launch_frame h.r_lt hf with ⟨rfl, rfl, rfl⟩ | ⟨-, hcc⟩
    · exact ⟨j, rfl, hc.called, hj⟩
    · rw [hcc] at hf
      exact h.frames.logged c op' f' hf hne
  · rw [hcrs] at hx
    split at hx
    · cases hx
    · split at hx
      · rename_i hc'; rw [hc']; exact h.frames.held s.r x hx
      · exact h.frames.held c x hx

/-! ## Resuming -/

theorem popped_proj {β : Type*} (p : Cr → β)
    (hp : ∀ x, p { x with readyNext := false, frame := none, clauses := [] } = p x)
    (rest : List CrId) (x : CrId) : p ((s.popped c rest).crs x) = p (s.crs x) := by
  rw [popped_crs]
  split
  · rename_i hx; rw [hp, hx]
  · rfl

theorem Frames.popped {rest : List CrId} (h : Frames .idle s) (hr : s.ready = c :: rest)
    (hnd : s.ready.Nodup) (hw : ∀ b w, (s.bundles b).waiter = some w → w.cr ≠ c)
    (hc : ∀ op b x old it, (s.crs c).frame = some (op, .crClose b x old it) →
      (s.crs c).err = .ok) :
    Frames k (s.popped c rest) where
  member := h.member
  waiter b w hb := by
    obtain ⟨h0, ⟨op, hf⟩ | ⟨-, j, hj⟩⟩ := h.waiter b w hb
    · refine ⟨h0, .inl ⟨op, ?_⟩⟩
      rw [popped_crs, if_neg (hw b w hb)]
      exact hf
    · cases hj
  closer x p hp hd := by
    rw [popped_proj Cr.closer fun _ => rfl] at hp
    rw [popped_proj Cr.done fun _ => rfl] at hd
    obtain ⟨op, b, y, old, hf⟩ := h.closer x p hp hd
    refine ⟨op, b, y, old, ?_⟩
    -- a closer that is resumed with `errno` zero has seen its coroutine end
    have hpc : p ≠ c := by
      rintro rfl
      have := h.closed p (by rw [hr]; exact .head _) op b y old x hf (hc op b y old x hf)
      rw [hd] at this
      cases this
    rw [popped_crs, if_neg hpc]
    exact hf
  closed p hp op b y old x hf he := by
    have hp : p ∈ rest := hp
    have hpc : p ≠ c := by
      rintro rfl
      rw [hr, List.nodup_cons] at hnd
      exact hnd.1 hp
    rw [popped_crs, if_neg hpc] at hf he
    rw [popped_proj Cr.done fun _ => rfl]
    exact h.closed p (by rw [hr]; exact .tail _ hp) op b y old x hf he
  logged x op f hf hne := by
    rw [popped_crs] at hf
    split at hf
    · cases hf
    · exact h.logged x op f hf hne
  held x y hy := by
    rw [popped_proj Cr.closing fun _ => rfl] at hy
    exact h.held x y hy

theorem mem_of_mem_after {it x : CrId} {l : List CrId} (hx : x ∈ after it l) : x ∈ l :=
  List.dropWhile_sublist _ |>.subset (List.mem_of_mem_tail hx)

section Popped

variable {rest : List CrId} (h : Good .idle s) (hp : s.phase = .switch) (hr : s.ready = c :: rest)
include h hp hr

/-- The resumed coroutine is in the middle of its call. -/
theorem Good.popped_busy (hj : s.Called c j) :
    (s.popped c rest).Mid ∧ (s.popped c rest).Tables ∧ (s.popped c rest).Busy j := by
  have hi := h.inv.popped hr hp
  exact ⟨hi.toMid, ⟨h.tables.fresh, h.tables.handle, h.tables.cached⟩, hi.running rfl, rfl, hj⟩

theorem Good.popped (hf : (s.crs c).frame = some (j.op, f)) (hj : s.Called c j)
    (hn : ∀ b, f ≠ .bundleWait b) (hc : ∀ b x old it, f ≠ .crClose b x old it)
    (m : Option (ℕ × Errno)) : Good (.busy j m) (s.popped c rest) := by
  obtain ⟨hm, hch, hb⟩ := h.popped_busy hp hr hj
  refine ⟨hm, hch, hb, h.frames.popped hr h.ready_nodup ?_ ?_⟩
  · rintro b w hw rfl
    obtain ⟨-, ⟨op, hf'⟩ | ⟨-, j', hj'⟩⟩ := h.frames.waiter b w hw
    · rw [hf] at hf'
      cases hf'
      exact hn b rfl
    · cases hj'
  · intro op b x old it hf'
    rw [hf] at hf'
    cases hf'
    exact absurd rfl (hc b x old it)

theorem Good.poppedWait (hf : (s.crs c).frame = some (j.op, .bundleWait b)) (hj : s.Called c j) :
    Good (.busy j none) ((s.popped c rest).updBundle b fun x => { x with waiter := none }) := by
  obtain ⟨hm, hch, hb⟩ := h.popped_busy hp hr hj
  have hs := sameSched_updBundle (s.popped c rest) b fun x => { x with waiter := none }
  have hbs : ∀ x, (s.updBundle b fun x => { x with waiter := none }).bundles x =
      if x = b then { s.bundles b with waiter := none } else s.bundles x := fun x => by
    simp [updBundle, Function.update_apply]
  have hfr : Frames .idle (s.updBundle b fun x => { x with waiter := none }) := by
    refine ⟨fun x y hy => ?_, fun x w hw => ?_, h.frames.closer, h.frames.closed, h.frames.logged,
      h.frames.held⟩
    · rw [hbs] at hy
      split at hy
      · exact h.frames.member b y hy
      · exact h.frames.member x y hy
    · rw [hbs] at hw
      split at hw
      · cases hw
      · exact h.frames.waiter x w hw
  refine ⟨hm.congr hs, ⟨hch.fresh, hch.handle, hch.cached⟩, hb.congr hs fun _ he => he,
    hfr.popped (c := c) hr h.ready_nodup ?_ ?_⟩
  · rintro x w hw rfl
    rw [hbs] at hw
    split at hw
    · cases hw
    · rename_i hxb
      obtain ⟨-, ⟨op, hf'⟩ | ⟨-, j', hj'⟩⟩ := h.frames.waiter x w hw
      · rw [hf] at hf'
        cases hf'
        exact hxb rfl
      · cases hj'
  · intro op b' x old it hf'
    have hf' : (s.crs c).frame = some (op, .crClose b' x old it) := hf'
    rw [hf] at hf'
    cases hf'

theorem Good.poppedClose {x : Handle} {old : Bool} {it : CrId}
    (hf : (s.crs c).frame = some (j.op, .crClose b x old it)) (hj : s.Called c j)
    (ho : (Frame.crClose b x old it).Of j.call j.objs) (he : (s.crs c).err = .ok) :
    Good (.closing j b x old (after it (s.bundles b).crs)) (s.popped c rest) := by
  obtain ⟨hm, hch, hb⟩ := h.popped_busy hp hr hj
  refine ⟨hm, hch, ⟨hb, fun _ _ => ?_, fun y hy => h.frames.member b y (mem_of_mem_after hy)⟩,
    h.frames.popped hr h.ready_nodup ?_ ?_⟩
  · cases hcall : j.call <;> rw [hcall] at ho <;> exact ho
  · rintro y w hw rfl
    obtain ⟨-, ⟨op, hf'⟩ | ⟨-, j', hj'⟩⟩ := h.frames.waiter y w hw
    · rw [hf] at hf'
      cases hf'
    · cases hj'
  · exact fun _ _ _ _ _ _ => he

end Popped

/-! ## Closing a bundle -/

theorem Good.closeWait {x : Handle} {old : Bool} {rest : List CrId}
    (h : Good (.closing j b x old (c :: rest)) s) (hd : (s.crs c).done = false) :
    Good .idle (s.closeWaited j.op b x old c) := by
  have hc : s.Closing j b x (c :: rest) := h.cur
  have hlt : c < s.ncrs := hc.rest_lt c (.head _)
  -- first the flag of the coroutine that is closed
  have hg : Keeps fun cr : Cr => { cr with noBlocking1 := true } :=
    ⟨⟨fun _ => rfl, fun _ => rfl⟩, fun _ => rfl, fun _ => rfl, fun _ => rfl, fun _ => rfl⟩
  have hs₁ := sameSched_updCr hg hlt
  have h₁ : Good (.closing j b x old (c :: rest))
      (s.updCr c fun cr => { cr with noBlocking1 := true }) :=
    ⟨h.toMid.congr hs₁, ⟨h.tables.fresh, h.tables.handle, h.tables.cached⟩,
      ⟨hc.toBusy.congr hs₁ fun _ he => he, hc.of, hc.rest_lt⟩,
      h.frames.congr (keepsFrames_updCr hg (fun _ => rfl) fun _ hy => .inl hy) (by simp)⟩
  -- then it is cancelled, unless it is ready; the caller may be closing itself
  obtain ⟨s₂, hs₂, hm₂, hch₂, hf₂, hr₂, hcr₂, hlog₂⟩ : ∃ s₂ : Ctx,
      s₂ = (if c ∈ s.ready then s.updCr c fun cr => { cr with noBlocking1 := true }
        else (s.updCr c fun cr => { cr with noBlocking1 := true }).wake c (-1) .ECANCELED) ∧
      s₂.Mid ∧ s₂.Tables ∧ Frames .idle s₂ ∧ s₂.r = s.r ∧
      ((s₂.crs s.r).frame = none ∧ (s₂.crs s.r).clauses = [] ∧ (s₂.crs s.r).done = false ∧
        (s.r ∈ s₂.ready → (s₂.crs s.r).id = -1 ∧ (s₂.crs s.r).err = .ECANCELED)) ∧
      s₂.log = s.log := by
    refine ⟨_, rfl, ?_⟩
    have hb₁ : Busy _ j := (h₁.cur : Closing _ j b x (c :: rest)).toBusy
    split
    · exact ⟨h₁.toMid, h₁.tables, h₁.frames.congr (.of_log rfl rfl rfl rfl rfl fun _ he => he)
        (by simp), rfl, ⟨hb₁.frame, hb₁.clauses, hb₁.not_done, fun hr => absurd hr hb₁.not_ready⟩,
        rfl⟩
    · rename_i hnr
      by_cases hcr : c = s.r
      · subst hcr
        refine ⟨h₁.toMid.wakeRunning hb₁.phase hb₁.not_ready _ _, h₁.tables.wake _ _ _,
          h₁.frames.congr (keepsFrames_wake (by simp)) (by simp), rfl, ⟨?_, ?_, ?_, fun _ => ?_⟩,
          rfl⟩
        · rw [wake_frame]; exact hb₁.frame
        · rw [wake_clauses]; exact hb₁.clauses
        · rw [wake_done]; exact hb₁.not_done
        · rw [wake_crs, if_pos rfl]; exact ⟨rfl, rfl⟩
      · obtain ⟨op, f, hp⟩ := h₁.settled c hlt fun _ => hcr
        have hne : f ≠ .epilogue := fun he => by
          have := hp.done.2 he
          rw [hs₁.done, hd] at this
          cases this
        have hm := h₁.toMid.wake hp hlt hnr (.of_cancel (hp.susp hnr) hne)
        have hrun : Running (Ctx.wake _ c (-1) .ECANCELED) := hb₁.toRunning.wake hcr
        exact ⟨hm, h₁.tables.wake _ _ _, h₁.frames.congr (keepsFrames_wake (by simp)) (by simp),
          rfl, ⟨hrun.frame, hrun.clauses, hrun.not_done, fun hr => absurd hr hrun.not_ready⟩, rfl⟩
  obtain ⟨hfr, hcl, hnd, hready⟩ := hcr₂
  rw [← hr₂] at hfr hcl hnd hready
  -- the caller is suspended
  have hb₂ : (s₂.block j.op (.crClose b x old c)).Inv := by
    refine hm₂.block (by simp [hnd]) (fun hr => ?_) (fun _ => trivial) (by simp [hcl])
    rw [(hready hr).1, (hready hr).2]
    exact ⟨rfl, .inr rfl⟩
  have hf₃ : Frames .idle (s₂.block j.op (.crClose b x old c)) := by
    refine hf₂.block hfr (by simp) (fun _ => ⟨j, rfl, ?_, hc.of old c⟩) ?_
    · rw [Called, hlog₂, hr₂]; exact hc.called
    · intro b' y old' it _ hr
      rw [(hready hr).2]
      simp
  -- and entered as the closer
  have hg' : Keeps fun cr : Cr => { cr with closer := some s.r } :=
    ⟨⟨fun _ => rfl, fun _ => rfl⟩, fun _ => rfl, fun _ => rfl, fun _ => rfl, fun _ => rfl⟩
  have hncrs : s₂.ncrs = s.ncrs := by rw [hs₂]; split <;> rfl
  have hs₃ := sameSched_updCr (s := s₂.block j.op (.crClose b x old c)) hg'
    (by change c < s₂.ncrs; rw [hncrs]; exact hlt)
  rw [closeWaited, ← hs₂]
  refine ⟨hb₂.toMid.congr hs₃, ⟨hch₂.fresh, hch₂.handle, hch₂.cached⟩, fun hu => ?_,
    ⟨hf₃.member, ?_, ?_, ?_, ?_,
    ?_⟩⟩
  · exact (hb₂.running hu).congr hs₃
  · intro y w hw
    rw [hs₃.frame]
    exact hf₃.waiter y w hw
  · intro y p hp hyd
    rw [hs₃.frame]
    rw [updCr_crs] at hp
    split at hp
    · rename_i hy
      cases hp
      rw [hy, block_crs, if_pos hr₂.symm]
      exact ⟨_, _, _, _, rfl⟩
    · rw [hs₃.done] at hyd
      exact hf₃.closer y p hp hyd
  · intro p hp op' b' y old' it hf he
    rw [hs₃.frame] at hf
    rw [hs₃.err] at he
    rw [hs₃.done]
    exact hf₃.closed p hp op' b' y old' it hf he
  · intro y op' f' hf hne
    rw [hs₃.frame] at hf
    exact hf₃.logged y op' f' hf hne
  · intro y z hz
    rw [updCr_proj Cr.closing (by simp)] at hz
    exact hf₃.held y z hz

/-! ## The end of a coroutine -/

theorem Good.finish (h : Good .idle s) (hu : s.phase = .user) :
    Good .exiting (s.updCr s.r fun cr => { cr with done := true }) := by
  have hrun := h.cur hu
  have hproj : ∀ {β : Type} (p : Cr → β), (∀ x, p { x with done := true } = p x) → ∀ x,
      p ((s.updCr s.r fun cr => { cr with done := true }).crs x) = p (s.crs x) :=
    fun p hp x => updCr_proj p hp s s.r x
  refine ⟨h.toMid.updRunning hu ⟨fun _ => rfl, fun _ => rfl⟩,
    ⟨h.tables.fresh, h.tables.handle, h.tables.cached⟩,
    ⟨hu, hrun.not_ready, ?_, ?_, ?_, ?_⟩, ⟨h.frames.member, ?_, ?_, ?_, ?_, ?_⟩⟩
  · rw [hproj Cr.frame fun _ => rfl]; exact hrun.frame
  · rw [hproj Cr.clauses fun _ => rfl]; exact hrun.clauses
  · change ((s.updCr s.r fun cr => { cr with done := true }).crs s.r).done = true
    rw [updCr_crs, if_pos rfl]
  · intro p hp
    rw [hproj Cr.closer fun _ => rfl] at hp
    rw [hproj Cr.frame fun _ => rfl]
    exact h.frames.closer s.r p hp hrun.not_done
  · intro b w hw
    rw [hproj Cr.frame fun _ => rfl]
    obtain ⟨h0, hw | ⟨-, j, hj⟩⟩ := h.frames.waiter b w hw
    · exact ⟨h0, .inl hw⟩
    · cases hj
  · intro x p hp hd
    rw [hproj Cr.closer fun _ => rfl] at hp
    rw [hproj Cr.frame fun _ => rfl]
    rw [updCr_crs] at hd
    split at hd
    · cases hd
    · exact h.frames.closer x p hp hd
  · intro p hp op b y old x hf he
    rw [hproj Cr.frame fun _ => rfl] at hf
    rw [hproj Cr.err fun _ => rfl] at he
    rw [updCr_crs]
    split
    · rfl
    · exact h.frames.closed p hp op b y old x hf he
  · intro x op f hf hne
    rw [hproj Cr.frame fun _ => rfl] at hf
    exact h.frames.logged x op f hf hne
  · intro x y hy
    rw [hproj Cr.closing fun _ => rfl] at hy
    exact h.frames.held x y hy

/-- A coroutine with a frame is not the one that ends. -/
theorem Exiting.pending (h : Good .exiting s) (hf : (s.crs c).frame = some (op, f)) :
    c < s.ncrs ∧ c ≠ s.r ∧ s.Pending c op f := by
  have he : s.Exiting := h.cur
  have hlt : c < s.ncrs := by
    by_contra hge
    rw [h.fresh c (not_lt.1 hge)] at hf
    cases hf
  have hne : c ≠ s.r := by
    rintro rfl
    rw [he.frame] at hf
    cases hf
  exact ⟨hlt, hne, h.toMid.pending hlt hf fun _ => hne⟩

theorem Good.wakeCloser {p : CrId} (h : Good .exiting s) (hp : (s.crs s.r).closer = some p)
    (hr : p ∉ s.ready) : Good .exiting (s.wake p (-1) .ok) := by
  have he : s.Exiting := h.cur
  obtain ⟨op, b, x, old, hf⟩ := he.closer p hp
  obtain ⟨hlt, hne, hpe⟩ := Exiting.pending h hf
  refine h.wake (by simp) hpe hlt (fun _ => hne) hr ⟨rfl, .inl rfl⟩ ?_
  intro b' y old' it heq _
  cases heq
  exact he.done

theorem Good.wakeWaiter {w : ClauseRef} (h : Good .exiting s)
    (hw : (s.bundles b).waiter = some w) (hr : w.cr ∉ s.ready) :
    Good .exiting (s.wake w.cr w.id .ok) := by
  obtain ⟨h0, ⟨op, hf⟩ | ⟨-, j, hj⟩⟩ := h.frames.waiter b w hw
  · obtain ⟨hlt, hne, hpe⟩ := Exiting.pending h hf
    refine h.wake (by simp) hpe hlt (fun _ => hne) hr ?_ (by simp)
    exact .inr ⟨⟨0, .null⟩, .inl rfl, by rw [h0], rfl⟩
  · cases hj

theorem Good.leave (h : Good .exiting s) (b : BundleId) :
    Good .exiting (s.updBundle b fun x => { x with crs := x.crs.erase s.r }) := by
  have he : s.Exiting := h.cur
  have hbs : ∀ x, (s.updBundle b fun x => { x with crs := x.crs.erase s.r }).bundles x =
      if x = b then { s.bundles b with crs := (s.bundles b).crs.erase s.r } else s.bundles x :=
    fun x => by simp [updBundle, Function.update_apply]
  refine ⟨h.toMid.congr (sameSched_updBundle s b _), ⟨h.tables.fresh, h.tables.handle, h.tables.cached⟩,
    ⟨he.phase, he.not_ready, he.frame, he.clauses, he.done, he.closer⟩, ⟨fun x c hc => ?_,
      fun x w hw => ?_, h.frames.closer, h.frames.closed, h.frames.logged, h.frames.held⟩⟩
  · rw [hbs] at hc
    split at hc
    · exact h.frames.member b c (List.mem_of_mem_erase hc)
    · exact h.frames.member x c hc
  · rw [hbs] at hw
    split at hw
    · rename_i hx
      rw [hx]
      exact h.frames.waiter b w hw
    · exact h.frames.waiter x w hw

theorem Good.sleep (h : Good .exiting s) : Good .idle (s.block 0 .epilogue) := by
  have he : s.Exiting := h.cur
  have hi : (s.block 0 .epilogue).Inv :=
    h.toMid.block (by simp [he.done]) (fun hr => absurd hr he.not_ready) (fun _ => trivial)
      (by simp [he.clauses])
  exact ⟨hi.toMid, h.tables.block _ _, hi.running,
    h.frames.block he.frame (by simp) (fun hne => absurd rfl hne) (by simp)⟩

/-! ## What actions do besides their moves -/

theorem Good.write (h : Good k s) (a : Addr) (x : UInt8) :
    Good k { s with mem := Function.update s.mem a x } :=
  h.congr (.of_eq rfl rfl rfl rfl rfl rfl (fun _ _ => rfl) fun _ _ => rfl)
    (.of_log rfl rfl rfl rfl rfl fun _ he => he)
    ⟨h.tables.fresh, h.tables.handle, h.tables.cached⟩ rfl

theorem Good.endPoll (h : Good .idle s) (hp : s.phase = .wait) :
    Good .idle { s with phase := .switch } := by
  have hm : { s with phase := Phase.switch }.Mid :=
    ⟨⟨h.r_lt, h.ready_lt, h.ready_nodup, h.next_iff, h.clauses_nodup,
      fun e c i hl => h.linked e c i (by cases e <;> exact hl),
      fun c hc cl hcl hn => by
        have hlink := h.links c hc cl hcl hn
        cases hk : cl.cancel <;> rw [hk] at hlink <;> exact hlink,
      h.timers_nodup, h.queue_nodup⟩, h.fresh, fun c hc _ => by
        obtain ⟨op, f, hpe⟩ := h.settled c hc (by rw [hp]; simp)
        exact ⟨op, f, hpe.congr .rfl rfl⟩⟩
  exact ⟨hm, ⟨h.tables.fresh, h.tables.handle, h.tables.cached⟩, fun hu => (by cases hu),
    h.frames.congr (.of_log rfl rfl rfl rfl rfl fun _ he => he) (by simp)⟩

/-! ## The rule -/

/-- **Every move keeps the invariant.** -/
theorem Good.micro {l : Bool} (h : Good k s) (hm : Micro l k s k' s') : Good k' s' := by
  cases hm with
  | quiet hq => exact h.quiet hq
  | trigger hk hl he hq => exact h.trigger hk hl he
  | meet ha hd hq => exact h.meet hq _
  | ret hv hc => exact h.ret _ _
  | hold hj => exact h.hold hj
  | unhold hu hc hj hh => exact h.unhold hu hc hj
  | chmake h₀ h₁ => exact h.chmake h₀ h₁
  | bundle mem x => exact h.bundle mem x
  | startTerm ch hn => exact h.startTerm hn
  | endTerm hq => exact h.cur_of h.cur (by simp)
  | startWait hb hw hf hn => exact h.startWait hb hw hf
  | enqueue hi hf ha hlt hn hd hp => exact h.enqueue hi hf hn
  | timer deadline hi hf => exact h.timer deadline hi hf
  | linkFd hi hc hw => exact h.linkFd hi hc hw
  | setWaiter hi hb => exact h.setWaiter hi
  | block hw => exact h.block
  | yield hb hj => exact h.yield hj
  | launch mem v hb hj hh => exact h.launch _ mem v hj
  | popped hp hr hf hj ho hn hc => exact h.popped hp hr hf hj hn hc _
  | poppedWait hp hr hf hj ho => exact h.poppedWait hp hr hf hj
  | poppedClose hp hr hf hj ho he => exact h.poppedClose hp hr hf hj ho he
  | @startClose l s j b x old hj ho hh =>
    have hc : (Cur.closing j b x old (s.bundles b).crs).Holds s := ⟨h.cur, fun _ _ => ?_, ?_⟩
    · exact h.cur_of hc (by simp)
    · rw [hj]; exact ⟨rfl, ho⟩
    · exact h.frames.member b
  | @closeNext l s j b x old c rest hd =>
    have hc : s.Closing j b x (c :: rest) := h.cur
    have hc' : (Cur.closing j b x old rest).Holds s :=
      ⟨hc.toBusy, hc.of, fun y hy => hc.rest_lt y (.tail _ hy)⟩
    exact h.cur_of hc' (by simp)
  | closeWait hd => exact h.closeWait hd
  | @closeEnd l s j b x old hh =>
    have hc : (Cur.busy j none).Holds s := Closing.toBusy h.cur
    exact (h.cur_of hc (by simp)).ret _ _
  | finish hu => exact h.finish hu
  | wakeCloser hp hr => exact h.wakeCloser hp hr
  | wakeWaiter hn hb hl hw hr => exact h.wakeWaiter hw hr
  | leave hn hb => exact h.leave _
  | sleep => exact h.sleep

theorem Good.micros {l : Bool} (h : Good k s) (hm : Micros l k s k' s') : Good k' s' :=
  hm.keeps (fun _ _ _ _ hk hm => hk.micro hm) h

/-- The state after `dill_ctx_init`. -/
theorem Good.init (h : s.IsInit) : Good .idle s := by
  have hl : ∀ e c i, ¬s.Linked e c i := by
    intro e c i
    cases e <;> simp [Linked, h.timers, h.half, h.fds]
  have h0 : ∀ c < s.ncrs, c = s.r := fun c hc => by
    rw [h.ncrs, Nat.lt_one_iff] at hc
    rw [hc, h.r]
  refine ⟨⟨⟨?_, ?_, ?_, ?_, ?_, fun e c i h' => absurd h' (hl e c i), ?_, ?_, ?_⟩, ?_, ?_⟩, ⟨?_, ?_, ?_⟩,
    fun _ => ⟨?_, ?_, ?_, ?_⟩, ⟨?_, ?_, ?_, ?_, ?_, ?_⟩⟩
  · rw [h.r, h.ncrs]; exact Nat.zero_lt_one
  · simp [h.ready]
  · simp [h.ready]
  · simp [h.ready, h.crs]
  · simp [h.crs]
  · simp [h.crs]
  · simp [h.timers]
  · simp [h.half]
  · intro c _; rw [h.crs]
  · intro c hc hne; exact absurd (h0 c hc) (hne h.phase)
  · intro x _; rw [h.half]
  · simp [h.handles]
  · simp [h.fds]
  · simp [h.ready]
  · simp [h.crs]
  · simp [h.crs]
  · simp [h.crs]
  · simp [h.bundles]
  · simp [h.bundles]
  · simp [h.crs]
  · simp [h.ready]
  · simp [h.crs]
  · simp [h.crs]

end Ctx

end Libdill.Sched
