import Libdill.Sched.Members

/-!
# Closing bundles inside bundles

A coroutine that closes a bundle is suspended in `dill_cr_close` until the coroutine it closes has
ended. It waits on no clause, and the assertions behind `dill_wait` there and at the top of
`dill_docancel` rely on its being resumed by that end only. When the coroutine is itself a member
of a bundle that is closed meanwhile, `dill_cancel` resumes it earlier: it runs on with
`ECANCELED`, or its child ends while it is in the ready queue, and one of the assertions fails.

`nested_close_safe` shows that this is the only way: in runs without `bundle_wait`, in which bundles
are closed by the coroutines that made them, the assertions hold as long as no loop of
`dill_bundle_close` comes to a coroutine that is suspended in `dill_cr_close`.
-/

namespace Libdill.Sched

open Foundations

/-- The frame of `dill_cr_close`. -/
def Frame.isCrClose : Frame → Bool
  | .crClose .. => true
  | _ => false

namespace Ctx

/-- The coroutine is suspended in `dill_cr_close`. -/
def InCrClose (s : Ctx) (c : CrId) : Prop :=
  c ∉ s.ready ∧ ((s.crs c).frame.map fun x => x.2.isCrClose) = some true

instance (s : Ctx) (c : CrId) : Decidable (s.InCrClose c) := inferInstanceAs (Decidable (_ ∧ _))

/-- The first coroutine of a list that has not ended: the one `dill_bundle_close` waits for. -/
def nextToClose (s : Ctx) (l : List CrId) : Option CrId := l.find? fun c => !(s.crs c).done

/-- It is not suspended in `dill_cr_close`. -/
def SafeLoop (s : Ctx) (l : List CrId) : Prop :=
  match s.nextToClose l with
  | some c => ¬s.InCrClose c
  | none => True

instance (s : Ctx) (l : List CrId) : Decidable (s.SafeLoop l) := by
  unfold SafeLoop
  split <;> infer_instance

/-- Bundles are closed by the coroutines that made them, and `bundle_wait` is not used. A bundle is
then closed at most once, as its owner cannot call `hclose` while it is in it. -/
def OwnerCloses (s : Ctx) : Act → Prop
  | .call (.bundleWait _ _) => False
  | .call (.hclose x) =>
    match s.handles x with
    | some (.bundle b) => (s.bundles b).owner = s.r
    | _ => True
  | _ => True

instance (s : Ctx) (a : Act) : Decidable (s.OwnerCloses a) := by
  unfold OwnerCloses
  split
  · infer_instance
  · split <;> infer_instance
  · infer_instance

/-- The loop of `dill_bundle_close` that the action starts or goes on with does not come to a
coroutine that is suspended in `dill_cr_close`. -/
def NotNested (s : Ctx) : Act → Prop
  | .call (.hclose x) =>
    match s.handles x with
    | some (.bundle b) => s.SafeLoop (s.bundles b).crs
    | _ => True
  | .switch =>
    match s.ready.head?.bind fun c => (s.crs c).frame with
    | some (_, .crClose b _ _ it) => s.SafeLoop (after it (s.bundles b).crs)
    | _ => True
  | _ => True

instance (s : Ctx) (a : Act) : Decidable (s.NotNested a) := by
  unfold NotNested
  split
  · split <;> infer_instance
  · split <;> infer_instance
  · infer_instance

variable {k k' : Cur} {s s' : Ctx} {c : CrId} {id : ℤ} {err : Errno} {op i : ℕ} {f : Frame}
  {j : Job} {b : BundleId}

theorem inCrClose_iff : s.InCrClose c ↔
    c ∉ s.ready ∧ ∃ op b x old it, (s.crs c).frame = some (op, .crClose b x old it) := by
  rw [InCrClose]
  refine and_congr_right fun _ => ?_
  constructor
  · intro h
    cases hf : (s.crs c).frame with
    | none => rw [hf] at h; cases h
    | some x =>
      obtain ⟨op, f⟩ := x
      rw [hf] at h
      cases f with
      | crClose b x old it => exact ⟨op, b, x, old, it, rfl⟩
      | _ => cases h
  · rintro ⟨op, b, x, old, it, hf⟩
    rw [hf]
    rfl

/-- What the running coroutine is about to close is safe. -/
def Guard : Cur → Ctx → Prop
  | .idle, s => s.phase = .switch → ∀ c rest op b x old it, s.ready = c :: rest →
      (s.crs c).frame = some (op, .crClose b x old it) → s.SafeLoop (after it (s.bundles b).crs)
  | .busy j _, s => ∀ b, j.closes = some b → (s.bundles b).owner = s.r ∧ s.SafeLoop (s.bundles b).crs
  | .terming j _, s => ∀ b, j.closes = some b →
      (s.bundles b).owner = s.r ∧ s.SafeLoop (s.bundles b).crs
  | .closing _ b _ _ rest, s => (s.bundles b).owner = s.r ∧ s.SafeLoop rest
  | _, _ => True

/-- The invariant: nobody has been cancelled in `dill_cr_close`. -/
structure Calm (k : Cur) (s : Ctx) : Prop where
  ready : ∀ p ∈ s.ready, ∀ op b x old it, (s.crs p).frame = some (op, .crClose b x old it) →
    (s.crs p).err = .ok
  owner : ∀ p op b x old it, (s.crs p).frame = some (op, .crClose b x old it) →
    (s.bundles b).owner = p
  noWait : ∀ c j, s.Called c j → ∀ x d, j.call ≠ .bundleWait x d
  guard : Guard k s

/-! ## Changes that do not touch the closers -/

/-- The change makes no coroutine enter or leave `dill_cr_close`; it may make some ready. -/
structure SameClosers (s s' : Ctx) : Prop where
  r : s'.r = s.r
  phase : s'.phase = s.phase
  head : s.phase = .switch → ∀ c rest, s'.ready = c :: rest → ∀ op b x old it,
    (s.crs c).frame = some (op, .crClose b x old it) → ∃ rest', s.ready = c :: rest'
  ready : ∀ p, p ∈ s.ready → p ∈ s'.ready
  ready_err : ∀ p ∈ s'.ready, ∀ op b x old it, (s.crs p).frame = some (op, .crClose b x old it) →
    (p ∈ s.ready ∧ (s'.crs p).err = (s.crs p).err) ∨ (s'.crs p).err = .ok
  crs : ∀ b, (s'.bundles b).crs = (s.bundles b).crs
  owner : ∀ b, (s'.bundles b).owner = (s.bundles b).owner
  done : ∀ c, (s'.crs c).done = (s.crs c).done
  frame : ∀ c, (s'.crs c).frame = (s.crs c).frame
  called : ∀ c j, s'.Called c j → s.Called c j

theorem SafeLoop.congr {l : List CrId} (h : s.SafeLoop l)
    (hd : ∀ c, (s'.crs c).done = (s.crs c).done) (hc : ∀ c, s'.InCrClose c → s.InCrClose c) :
    s'.SafeLoop l := by
  have hn : s'.nextToClose l = s.nextToClose l := by simp only [nextToClose, hd]
  unfold SafeLoop at h ⊢
  rw [hn]
  cases hl : s.nextToClose l with
  | none => trivial
  | some c =>
    rw [hl] at h
    exact fun hc' => h (hc c hc')

theorem SameClosers.inCrClose (e : SameClosers s s') (h : s'.InCrClose c) : s.InCrClose c := by
  rw [InCrClose, e.frame] at h
  exact ⟨fun hr => h.1 (e.ready c hr), h.2⟩

theorem SameClosers.safeLoop (e : SameClosers s s') {l : List CrId} (h : s.SafeLoop l) :
    s'.SafeLoop l :=
  h.congr e.done fun _ => e.inCrClose

theorem Guard.congr (h : Guard k s) (e : SameClosers s s') : Guard k s' := by
  cases k with
  | idle =>
    intro hp c rest op b x old it hr hf
    rw [e.phase] at hp
    rw [e.frame] at hf
    obtain ⟨rest', hr'⟩ := e.head hp c rest hr op b x old it hf
    rw [e.crs]
    exact e.safeLoop (h hp c rest' op b x old it hr' hf)
  | busy j m =>
    intro b hb
    rw [e.owner, e.crs, e.r]
    exact ⟨(h b hb).1, e.safeLoop (h b hb).2⟩
  | terming j ch =>
    intro b hb
    rw [e.owner, e.crs, e.r]
    exact ⟨(h b hb).1, e.safeLoop (h b hb).2⟩
  | closing j b x old rest =>
    refine ⟨?_, e.safeLoop h.2⟩
    rw [e.owner, e.r]
    exact h.1
  | waiting j f => trivial
  | exiting => trivial

theorem Calm.congr (h : Calm k s) (e : SameClosers s s') (hk : Guard k' s) : Calm k' s' where
  ready p hp op b x old it hf := by
    rw [e.frame] at hf
    rcases e.ready_err p hp op b x old it hf with ⟨hr, he⟩ | he
    · rw [he]
      exact h.ready p hr op b x old it hf
    · exact he
  owner p op b x old it hf := by
    rw [e.frame] at hf
    rw [e.owner]
    exact h.owner p op b x old it hf
  noWait c j hc := h.noWait c j (e.called c j hc)
  guard := hk.congr e

theorem SameClosers.of_eq (hr : s'.r = s.r) (hp : s'.phase = s.phase) (hready : s'.ready = s.ready)
    (hb : ∀ b, (s'.bundles b).crs = (s.bundles b).crs)
    (ho : ∀ b, (s'.bundles b).owner = (s.bundles b).owner)
    (hd : ∀ c, (s'.crs c).done = (s.crs c).done) (hf : ∀ c, (s'.crs c).frame = (s.crs c).frame)
    (he : ∀ c, (s'.crs c).err = (s.crs c).err) (hl : ∀ c j, s'.Called c j → s.Called c j) :
    SameClosers s s' := by
  refine ⟨hr, hp, ?_, ?_, ?_, hb, ho, hd, hf, hl⟩
  · intro _ c rest hc _ _ _ _ _ _
    exact ⟨rest, hready ▸ hc⟩
  · intro p; rw [hready]; exact fun h => h
  · intro p hp' _ _ _ _ _ _
    rw [hready] at hp'
    exact .inl ⟨hp', he p⟩

/-- A coroutine is resumed that is not in `dill_cr_close`, or that may go on there. -/
theorem sameClosers_wake (hc : (∀ op b x old it, (s.crs c).frame ≠ some (op, .crClose b x old it)) ∨
    (err = .ok ∧ s.phase = .user)) : SameClosers s (s.wake c id err) := by
  refine ⟨rfl, rfl, ?_, ?_, ?_, fun _ => rfl, fun _ => rfl, wake_done, wake_frame, fun _ _ h => h⟩
  · intro hp y rest hr op b x old it hf
    rw [wake_ready] at hr
    rcases hc with hc | ⟨-, hu⟩
    · cases hs : s.ready with
      | nil =>
        rw [hs] at hr
        cases hr
        exact absurd hf (hc op b x old it)
      | cons z rest' =>
        rw [hs] at hr
        cases hr
        exact ⟨rest', rfl⟩
    · rw [hp] at hu
      cases hu
  · intro p hp
    rw [wake_ready]
    exact List.mem_append_left _ hp
  · intro p hp op b x old it hf
    rw [wake_crs]
    by_cases hpc : p = c
    · rw [if_pos hpc]
      rw [hpc] at hf
      rcases hc with hc | ⟨he, -⟩
      · exact absurd hf (hc op b x old it)
      · exact .inr he
    · rw [if_neg hpc]
      rw [wake_ready, List.mem_append, List.mem_singleton] at hp
      exact .inl ⟨hp.resolve_right hpc, rfl⟩

theorem Quiet.sameClosers (h : Quiet s s') : SameClosers s s' :=
  .of_eq h.r h.phase h.ready h.sameMembers.crs h.sameMembers.owner h.sameSched.done h.sameSched.frame
    h.sameSched.err fun c j hc => by rw [Called, h.log] at hc; exact hc

theorem Registered.sameClosers {e : Cancel} (h : Registered s s' i e)
    (hb : ∀ b, (s'.bundles b).crs = (s.bundles b).crs)
    (ho : ∀ b, (s'.bundles b).owner = (s.bundles b).owner) (hl : s'.log = s.log) :
    SameClosers s s' :=
  .of_eq h.r h.phase h.ready hb ho (h.proj Cr.done fun _ _ => rfl) (h.proj Cr.frame fun _ _ => rfl)
    (h.proj Cr.err fun _ _ => rfl) fun c j hc => by rw [Called, hl] at hc; exact hc

theorem sameClosers_updCr {g : Cr → Cr} (hd : ∀ x, (g x).done = x.done)
    (hf : ∀ x, (g x).frame = x.frame) (he : ∀ x, (g x).err = x.err) (s : Ctx) (c : CrId) :
    SameClosers s (s.updCr c g) :=
  .of_eq rfl rfl rfl (fun _ => rfl) (fun _ => rfl) (updCr_proj Cr.done hd s c)
    (updCr_proj Cr.frame hf s c) (updCr_proj Cr.err he s c) fun _ _ h => h

/-! ## Moves that suspend or resume the running coroutine -/

/-- The running coroutine is suspended elsewhere than in `dill_cr_close`. -/
theorem Calm.block (h : Calm k s) (hf : ∀ b x old it, f ≠ .crClose b x old it) :
    Calm .idle (s.block op f) where
  ready p hp op' b x old it hp' := by
    rw [block_proj Cr.err fun _ _ => rfl]
    rw [block_crs] at hp'
    split at hp'
    · cases hp'
      exact absurd rfl (hf b x old it)
    · exact h.ready p hp op' b x old it hp'
  owner p op' b x old it hp' := by
    rw [block_crs] at hp'
    split at hp'
    · cases hp'
      exact absurd rfl (hf b x old it)
    · exact h.owner p op' b x old it hp'
  noWait := h.noWait
  guard hp := absurd hp (by simp [Ctx.block])

theorem Calm.launch (h : Calm (.busy j none) s) (hg : Good (.busy j none) s) (mem : Bool)
    (v : Handle) : Calm .idle (s.launch j.op b mem v) := by
  have hb : s.Busy j := hg.cur
  have hframe : ∀ {p op' b' x old it},
      ((s.launch j.op b mem v).crs p).frame = some (op', .crClose b' x old it) →
      (s.launch j.op b mem v).crs p = s.crs p := by
    intro p op' b' x old it hf
    rcases launch_frame hg.r_lt hf with ⟨-, -, hgo⟩ | ⟨-, hpr⟩
    · cases hgo
    · exact hpr
  refine ⟨?_, ?_, h.noWait, ?_⟩
  · intro p hp op' b' x old it hf
    have heq := hframe hf
    rw [heq] at hf ⊢
    have hp : p ∈ s.ready ++ [s.r] := hp
    rw [List.mem_append, List.mem_singleton] at hp
    refine h.ready p (hp.resolve_right fun hpr => ?_) op' b' x old it hf
    rw [hpr, hb.frame] at hf
    cases hf
  · intro p op' b' x old it hf
    rw [hframe hf] at hf
    rw [launch_bundles]
    split
    · rename_i he
      rw [he] at hf
      exact h.owner p op' b x old it hf
    · exact h.owner p op' b' x old it hf
  · intro hp
    have hp : s.phase = .switch := hp
    rw [hb.phase] at hp
    cases hp

/-- The next coroutine is resumed. -/
theorem Calm.popped {rest : List CrId} (h : Calm .idle s) (hr : s.ready = c :: rest)
    (hk : Guard k' (s.popped c rest)) : Calm k' (s.popped c rest) where
  ready p hp op b x old it hf := by
    have hp : p ∈ rest := hp
    rw [popped_proj Cr.err fun _ => rfl]
    rw [popped_crs] at hf
    split at hf
    · cases hf
    · exact h.ready p (by rw [hr]; exact .tail _ hp) op b x old it hf
  owner p op b x old it hf := by
    rw [popped_crs] at hf
    split at hf
    · cases hf
    · exact h.owner p op b x old it hf
  noWait := h.noWait
  guard := hk

theorem popped_inCrClose {rest : List CrId} (hr : s.ready = c :: rest) {y : CrId}
    (h : (s.popped c rest).InCrClose y) : s.InCrClose y := by
  rw [inCrClose_iff] at h ⊢
  obtain ⟨hn, op, b, x, old, it, hf⟩ := h
  have hn : y ∉ rest := hn
  rw [popped_crs] at hf
  split at hf
  · cases hf
  · rename_i hyc
    refine ⟨?_, op, b, x, old, it, hf⟩
    rw [hr, List.mem_cons, not_or]
    exact ⟨hyc, hn⟩

theorem nextToClose_cons (hd : (s.crs c).done = false) (rest : List CrId) :
    s.nextToClose (c :: rest) = some c := by
  simp [nextToClose, hd]

/-- The loop comes to a coroutine that has not ended. -/
theorem Calm.closeWait {x : Handle} {old : Bool} {rest : List CrId}
    (h : Calm (.closing j b x old (c :: rest)) s) (hg : Good (.closing j b x old (c :: rest)) s)
    (hm : Members (.closing j b x old (c :: rest)) s) (hd : (s.crs c).done = false) :
    Calm .idle (s.closeWaited j.op b x old c) := by
  have hb : s.Busy j := (hg.cur : s.Closing j b x (c :: rest)).toBusy
  obtain ⟨ho, hsafe⟩ : (s.bundles b).owner = s.r ∧ s.SafeLoop (c :: rest) := h.guard
  unfold SafeLoop at hsafe
  rw [nextToClose_cons hd] at hsafe
  -- the owner of the bundle is older than its members, so the caller does not close itself
  have hcr : c ≠ s.r := by
    obtain ⟨⟨pre, hp, -⟩, -⟩ := hm.loop j b x old (c :: rest) rfl
    have hlt := hm.owner b c (by rw [hp]; exact List.mem_append_right _ (.head _))
    rw [ho] at hlt
    exact hlt.ne'
  set s₁ := s.updCr c fun cr => { cr with noBlocking1 := true } with hs₁
  have h₁ : Calm .exiting s₁ :=
    h.congr (sameClosers_updCr (by simp) (by simp) (by simp) s c) trivial
  obtain ⟨s₂, hs₂, h₂, hr₂, hb₂, hnr₂⟩ : ∃ s₂ : Ctx,
      s₂ = (if c ∈ s.ready then s₁ else s₁.wake c (-1) .ECANCELED) ∧ Calm .exiting s₂ ∧
      s₂.r = s.r ∧ s₂.bundles = s.bundles ∧ s.r ∉ s₂.ready := by
    refine ⟨_, rfl, ?_⟩
    split
    · exact ⟨h₁, rfl, rfl, hb.not_ready⟩
    · rename_i hn
      refine ⟨h₁.congr (sameClosers_wake (.inl ?_)) trivial, rfl, rfl, ?_⟩
      · intro op b' x' old' it hf
        rw [hs₁, updCr_proj Cr.frame (by simp)] at hf
        exact hsafe (inCrClose_iff.2 ⟨hn, op, b', x', old', it, hf⟩)
      · rw [wake_ready, List.mem_append, List.mem_singleton, not_or]
        exact ⟨hb.not_ready, hcr.symm⟩
  have hframe : ∀ p, (((s₂.block j.op (.crClose b x old c)).updCr c fun cr =>
      { cr with closer := some s.r }).crs p).frame =
      if p = s.r then some (j.op, .crClose b x old c) else (s₂.crs p).frame := by
    intro p
    rw [updCr_proj Cr.frame (by simp), block_crs, hr₂]
    split
    · rfl
    · rfl
  rw [closeWaited, ← hs₁, ← hs₂]
  refine ⟨?_, ?_, h₂.noWait, fun hp => absurd hp (by simp [Ctx.block, updCr])⟩
  · intro p hp op b' x' old' it hf
    have hp : p ∈ s₂.ready := hp
    rw [updCr_proj Cr.err (by simp), block_proj Cr.err fun _ _ => rfl]
    rw [hframe] at hf
    split at hf
    · rename_i hpr
      rw [hpr] at hp
      exact absurd hp hnr₂
    · exact h₂.ready p hp op b' x' old' it hf
  · intro p op b' x' old' it hf
    change (s₂.bundles b').owner = p
    rw [hframe] at hf
    split at hf
    · rename_i hpr
      cases hf
      rw [hb₂, ho, hpr]
    · exact h₂.owner p op b' x' old' it hf

/-! ## The rule -/

theorem Calm.meet {a : ChanArg} {e : ChanClause} {rest : List ChanClause} {m : Option (ℕ × Errno)}
    (h : Calm (.busy j none) s) (hg : Good (.busy j none) s)
    (ha : j.call.chanArg j.objs i = some a) (hq : (s.half a.half).queue a.sd.peer = e :: rest) :
    Calm (.busy j m) (s.met j.op i a e) := by
  have hguard : ∀ s : Ctx, Guard (.busy j m) s := by
    intro s b hb
    have hc : j.closes = none := Job.closes_of_call rfl fun x hx => by
      have := Call.isChan_of_chanArg ha
      rw [hx] at this
      cases this
    rw [hc] at hb
    cases hb
  have hf : ∀ op b x old it, (s.crs e.cr).frame ≠ some (op, .crClose b x old it) := by
    intro op b x old it hf
    obtain ⟨-, op', f, hp, hal⟩ := hg.linked_pending (by simp) (linked_head hq)
    rw [hp.frame] at hf
    cases hf
    exact hal.elim
  have hcalled : ∀ (s' : Ctx) (m : Meeting) c j, (s'.record m).Called c j → s'.Called c j :=
    fun _ _ _ _ => called_record.1
  rw [met]
  split
  · set mt := meeting a.half a.sd j.op i a.val a.len e .ok
    have h₁ : Calm (.busy j none) (s.memcpy mt.dst mt.src a.len) :=
      h.congr (.of_eq rfl rfl rfl (fun _ => rfl) (fun _ => rfl) (fun _ => rfl) (fun _ => rfl)
        (fun _ => rfl) fun _ _ h => h) h.guard
    have h₂ : Calm (.busy j none) ((s.memcpy mt.dst mt.src a.len).wake e.cr e.id .ok) :=
      h₁.congr (sameClosers_wake (.inl hf)) h₁.guard
    exact h₂.congr (.of_eq rfl rfl rfl (fun _ => rfl) (fun _ => rfl) (fun _ => rfl) (fun _ => rfl)
      (fun _ => rfl) (hcalled _ _)) (hguard _)
  · have h₂ : Calm (.busy j none) (s.wake e.cr e.id .EMSGSIZE) :=
      h.congr (sameClosers_wake (.inl hf)) h.guard
    exact h₂.congr (.of_eq rfl rfl rfl (fun _ => rfl) (fun _ => rfl) (fun _ => rfl) (fun _ => rfl)
      (fun _ => rfl) (hcalled _ _)) (hguard _)

theorem Calm.bundleMade (h : Calm (.busy j none) s) (hm : Members (.busy j none) s) (mem : Bool)
    (x : Handle) : Calm (.busy j none) (s.bundleMade mem x) := by
  have hnew : (s.bundleMade mem x).bundles s.nbundles = { mem := mem, owner := s.r } := by
    simp [Ctx.bundleMade, setHandle]
  have hold : ∀ b, b ≠ s.nbundles → (s.bundleMade mem x).bundles b = s.bundles b := fun b hb => by
    simp [Ctx.bundleMade, setHandle, hb]
  refine ⟨h.ready, ?_, h.noWait, ?_⟩
  · intro p op b y old it hf
    have hb := (hm.waits p op b y old it hf).2.2.1
    rw [hold b hb.ne]
    exact h.owner p op b y old it hf
  · intro b hb
    by_cases hbn : b = s.nbundles
    · rw [hbn, hnew]
      exact ⟨rfl, trivial⟩
    · rw [hold b hbn]
      exact ⟨(h.guard b hb).1, (h.guard b hb).2.congr (fun _ => rfl) fun _ h => h⟩

/-- In the code of the user, nobody is about to be closed. -/
theorem guard_user (hu : s.phase = .user) : Guard .idle s := fun hp => by
  rw [hu] at hp
  cases hp

/-- **Every move keeps the closers calm.** -/
theorem Calm.micro {l : Bool} (h : Calm k s) (hg : Good k s) (hb : Members k s)
    (hm : Micro l k s k' s') : Calm k' s' := by
  cases hm with
  | quiet hq => exact h.congr hq.sameClosers h.guard
  | trigger hk hl he hq =>
    refine h.congr (sameClosers_wake (.inl fun op b x old it hf => ?_)) h.guard
    obtain ⟨-, op', f, hp, hal⟩ := hg.linked_pending hk hl
    rw [hp.frame] at hf
    cases hf
    exact hal.elim
  | meet ha hd hq => exact h.meet hg ha hq
  | ret hv hc =>
    exact h.congr (.of_eq rfl rfl rfl (fun _ => rfl) (fun _ => rfl) (fun _ => rfl) (fun _ => rfl)
      (fun _ => rfl) fun _ _ => called_ret.1) (guard_user (Busy.phase hg.cur))
  | hold hj =>
    exact h.congr (sameClosers_updCr (by simp) (by simp) (by simp) s s.r)
      (guard_user (Busy.phase hg.cur))
  | @unhold l s j x old rest hu hc hj hh =>
    refine h.congr (sameClosers_updCr (by simp) (by simp) (by simp) s s.r) ?_
    intro b hb'
    have hcl : j.closes = none := Job.closes_of_objs hh.2 (by simp)
    rw [hcl] at hb'
    cases hb'
  | chmake h₀ h₁ =>
    exact h.congr (.of_eq rfl rfl rfl (fun _ => rfl) (fun _ => rfl) (fun _ => rfl) (fun _ => rfl)
      (fun _ => rfl) fun _ _ h => h) h.guard
  | bundle mem x => exact h.bundleMade hb mem x
  | startTerm ch hn =>
    exact h.congr (.of_eq rfl rfl rfl (fun _ => rfl) (fun _ => rfl) (fun _ => rfl) (fun _ => rfl)
      (fun _ => rfl) fun _ _ h => h) h.guard
  | endTerm hq => exact ⟨h.ready, h.owner, h.noWait, h.guard⟩
  | startWait hb' hw hf hn => exact ⟨h.ready, h.owner, h.noWait, trivial⟩
  | enqueue hi hf ha hlt hn hd hp =>
    exact h.congr ((registered_enqueue s _ _ _ _ _ _).sameClosers (fun _ => rfl) (fun _ => rfl) rfl)
      trivial
  | @timer l s j f i deadline hi hf =>
    by_cases hd : deadline < 0
    · rw [Ctx.timer, if_pos hd]
      exact h
    · refine h.congr ((registered_timer s i hd).sameClosers ?_ ?_ ?_) trivial <;>
        rw [Ctx.timer, if_neg hd]
      · exact fun _ => rfl
      · exact fun _ => rfl
      · rfl
  | linkFd hi hc hw =>
    exact h.congr ((registered_linkFd s _ _ hw).sameClosers (fun _ => rfl) (fun _ => rfl) rfl) trivial
  | @setWaiter l s j b hi hb' =>
    have h₁ : Calm (.waiting j (.bundleWait b))
        (s.updBundle b fun x => { x with waiter := some ⟨s.r, 0⟩ }) :=
      h.congr (.of_eq rfl rfl rfl (updBundle_proj Bundle.crs (by simp) s b)
        (updBundle_proj Bundle.owner (by simp) s b) (fun _ => rfl) (fun _ => rfl) (fun _ => rfl)
        fun _ _ h => h) trivial
    exact h₁.congr ((registered_waitfor _ 0).sameClosers (fun _ => rfl) (fun _ => rfl) rfl) trivial
  | @block l s j f hw =>
    exact h.block (Frame.Waits.ne_crClose (hg.cur : s.Waiting j f).waits)
  | @yield l s j hb' hj =>
    have hc : s.Busy j := hg.cur
    rw [hg.toCore.resume_eq_wake hc.clauses 0 .ok]
    have h₁ : Calm (.busy j none) (s.wake s.r 0 .ok) :=
      h.congr (sameClosers_wake (.inr ⟨rfl, hc.phase⟩)) h.guard
    exact h₁.block (by simp)
  | launch mem v hb' hj hh => exact h.launch hg mem v
  | popped hp hr hf hj ho hn hc =>
    refine h.popped hr fun b hb' => ?_
    rw [Frame.Of.closes ho hc] at hb'
    cases hb'
  | @poppedWait l s c rest j b hp hr hf hj ho =>
    have hcl : j.closes = none := Frame.Of.closes ho (by simp)
    have h₁ : Calm (.busy j none) (s.popped c rest) := h.popped hr fun b' hb' => by
      rw [hcl] at hb'
      cases hb'
    exact h₁.congr (.of_eq rfl rfl rfl (updBundle_proj Bundle.crs (by simp) _ b)
      (updBundle_proj Bundle.owner (by simp) _ b) (fun _ => rfl) (fun _ => rfl) (fun _ => rfl)
      fun _ _ h => h) h₁.guard
  | @poppedClose l s c rest j b x old it hp hr hf hj ho he =>
    refine h.popped hr ⟨h.owner c _ b x old it hf, ?_⟩
    exact (h.guard hp c rest _ b x old it hr hf).congr (popped_proj Cr.done (fun _ => rfl) rest)
      fun _ => popped_inCrClose hr
  | @startClose l s j b x old hj ho hh =>
    have hcl : j.closes = some b := by rw [Job.closes, hj, ho]
    exact ⟨h.ready, h.owner, h.noWait, h.guard b hcl⟩
  | @closeNext l s j b x old c rest hd =>
    refine ⟨h.ready, h.owner, h.noWait, h.guard.1, ?_⟩
    have hs : s.SafeLoop (c :: rest) := h.guard.2
    have hn : s.nextToClose (c :: rest) = s.nextToClose rest := by simp [nextToClose, hd]
    unfold SafeLoop at hs ⊢
    rw [hn] at hs
    exact hs
  | closeWait hd => exact h.closeWait hg hb hd
  | closeEnd hh =>
    exact h.congr (.of_eq rfl rfl rfl (fun _ => rfl) (fun _ => rfl) (fun _ => rfl) (fun _ => rfl)
      (fun _ => rfl) fun _ _ => called_ret.1) (guard_user (Closing.toBusy hg.cur).phase)
  | finish hu =>
    refine ⟨fun p hp op b x old it hf => ?_, fun p op b x old it hf => ?_, h.noWait, trivial⟩
    · rw [updCr_proj Cr.frame (by simp)] at hf
      rw [updCr_proj Cr.err (by simp)]
      exact h.ready p hp op b x old it hf
    · rw [updCr_proj Cr.frame (by simp)] at hf
      exact h.owner p op b x old it hf
  | wakeCloser hp hr =>
    exact h.congr (sameClosers_wake (.inr ⟨rfl, Exiting.phase hg.cur⟩)) trivial
  | wakeWaiter hn hb' hl hw hr =>
    exact h.congr (sameClosers_wake (.inr ⟨rfl, Exiting.phase hg.cur⟩)) trivial
  | @leave l s b hn hb' =>
    refine ⟨h.ready, fun p op b' x old it hf => ?_, h.noWait, trivial⟩
    rw [updBundle_proj Bundle.owner (by simp)]
    exact h.owner p op b' x old it hf
  | sleep => exact h.block (by simp)

/-- What holds between two actions. -/
structure CalmRun (s : Ctx) : Prop where
  ready : ∀ p ∈ s.ready, ∀ op b x old it, (s.crs p).frame = some (op, .crClose b x old it) →
    (s.crs p).err = .ok
  owner : ∀ p op b x old it, (s.crs p).frame = some (op, .crClose b x old it) →
    (s.bundles b).owner = p
  noWait : ∀ c j, s.Called c j → ∀ x d, j.call ≠ .bundleWait x d

/-- Only `switch` applies after the poll. -/
theorem step_switch {a : Act} (hp : s.phase = .switch) (hs : s.step a = .ok s') : a = .switch := by
  cases a with
  | switch => rfl
  | call c => rw [step, hp, if_neg (by simp)] at hs; cases hs
  | write x y => rw [step, hp, if_neg (by simp)] at hs; cases hs
  | hcloseEnd => rw [step, hp, if_neg (by simp)] at hs; cases hs
  | exit => rw [step, hp, if_neg (by simp)] at hs; cases hs
  | poll nw as => rw [step, hp, if_neg (by simp)] at hs; cases hs

theorem CalmRun.guard {a : Act} (hn : s.NotNested a) (hs : s.step a = .ok s') : Guard .idle s := by
  intro hp c rest op b x old it hr hf
  rw [step_switch hp hs, NotNested, hr] at hn
  simpa [hf] using hn

theorem CalmRun.enter (h : CalmRun s) {x : Call} (ho : s.OwnerCloses (.call x))
    (hn : s.NotNested (.call x)) : Calm (.busy (s.job x) none) (s.enter x) := by
  refine ⟨h.ready, h.owner, fun c j hj y d hc => ?_, fun b hb => ?_⟩
  · rcases called_enter.1 hj with hj | ⟨-, rfl⟩
    · exact h.noWait c j hj y d hc
    · have hx : x = .bundleWait y d := hc
      rw [hx] at ho
      exact ho
  · have hx : ∃ y, x = .hclose y ∧ s.handles y = some (.bundle b) := by
      cases x with
      | hclose y =>
        refine ⟨y, rfl, ?_⟩
        have hb : Job.closes ⟨s.nops, .hclose y, [s.handles y]⟩ = some b := hb
        unfold Job.closes at hb
        split at hb
        · rename_i heq
          cases hb
          exact (List.cons.inj heq).1
        · cases hb
      | _ => cases hb
    obtain ⟨y, rfl, hy⟩ := hx
    rw [OwnerCloses, hy] at ho
    rw [NotNested, hy] at hn
    exact ⟨ho, hn⟩

theorem CalmRun.step {a : Act} (h : CalmRun s) (hg : Good .idle s) (hb : Book .idle s)
    (ho : s.OwnerCloses a) (hn : s.NotNested a) (hs : s.step a = .ok s') : CalmRun s' := by
  have hc : Calm .idle s := ⟨h.ready, h.owner, h.noWait, CalmRun.guard hn hs⟩
  refine ((step_post hg a).of_ok hs).post (I := fun k s => Book k s ∧ Calm k s) (J := CalmRun)
    (fun _ k s k' s' hg hk hm => ⟨hk.1.micro hg hm, hk.2.micro hg hk.1.members hm⟩) hg ⟨hb, hc⟩
    ?_ ?_ ?_ ?_
  · rintro x rfl hu
    exact ⟨outer_book.enter s x hg hu hb, h.enter ho hn⟩
  · exact fun x y _ => ⟨h.ready, h.owner, h.noWait⟩
  · exact fun s hk => ⟨hk.2.ready, hk.2.owner, hk.2.noWait⟩
  · exact fun s _ _ hk => ⟨hk.2.ready, hk.2.owner, hk.2.noWait⟩

/-- No assertion can fail. -/
theorem CalmRun.stops {a : Act} (h : CalmRun s) (hg : Good .idle s) {e : Stop}
    (he : s.step a = .error e) :
    e ≠ .assertDocancel ∧ e ≠ .assertCrCanceled ∧ e ≠ .assertCrResult := by
  have hstop := (step_post hg a).of_error he
  cases hstop with
  | stuck a => simp
  | undefined a => simp
  | halfchanClose c => simp
  | docancel hc =>
    exfalso
    rcases hc with ⟨p, hp, hr⟩ | ⟨b, w, -, -, -, hw, -⟩
    · -- the closer would have been resumed before its child has ended
      have hu : s.phase = .user := by
        by_contra hne
        rw [Ctx.step, if_neg fun hh => hne hh.1] at he
        cases he
      obtain ⟨op, b, x, old, hf⟩ := hg.frames.closer s.r p hp (hg.cur hu).not_done
      have hd := hg.frames.closed p hr op b x old s.r hf (h.ready p hr op b x old s.r hf)
      rw [(hg.cur hu).not_done] at hd
      cases hd
    · obtain ⟨-, ⟨op, hf⟩ | ⟨-, j, hj⟩⟩ := hg.frames.waiter b w hw
      · obtain ⟨j, -, hj, hof⟩ := hg.frames.logged w.cr op _ hf (by simp)
        cases hc : j.call with
        | bundleWait x d => exact h.noWait _ j hj x d hc
        | _ => rw [hc] at hof; exact hof
      · cases hj
  | crCanceled hc =>
    obtain ⟨c, rest, op, b, x, old, it, hr, hf, herr⟩ := hc
    have hok := h.ready c (by rw [hr]; exact .head _) op b x old it hf
    rw [hok] at herr
    cases herr

end Ctx

open Ctx

/-- Bundles are closed by their owners, and not nested. -/
abbrev ClosesSafely (s : Ctx) (a : Act) : Prop := s.OwnerCloses a ∧ s.NotNested a

theorem calmRun_of_reach {s : Ctx} (h : Reach Ctx.step Ctx.IsInit ClosesSafely s) :
    Good .idle s ∧ CalmRun s := by
  have hinv : Good .idle s ∧ Book .idle s ∧ CalmRun s := by
    refine Reach.invariant (I := fun s => Good .idle s ∧ Book .idle s ∧ CalmRun s) ?_ ?_ h
    · intro s hi
      refine ⟨.init hi, ⟨.init hi, .init hi⟩, ?_, ?_, ?_⟩
      · simp [hi.ready]
      · simp [hi.crs]
      · simp [Called, hi.log]
    · intro s a s' hk ha hs
      obtain ⟨hg, hb, hc⟩ := hk
      exact ⟨hg.step hs, ((step_post hg a).of_ok hs).keeps outer_book
        (fun _ _ _ _ _ hg hk hm => hk.micro hg hm) hg hb, hc.step hg hb ha.1 ha.2 hs⟩
  exact ⟨hinv.1, hinv.2.2⟩

/-- **Nested cancellation.** In a run without `bundle_wait`, in which bundles are closed by their
owners only, the assertions of `dill_cr_close` and `dill_docancel` hold, as long as the loop of
`dill_bundle_close` never comes to a coroutine that is suspended in `dill_cr_close`. A coroutine
that goes on there does so because its child has ended. -/
theorem nested_close_safe {s : Ctx} (h : Reach Ctx.step Ctx.IsInit ClosesSafely s) :
    (∀ a, s.step a ≠ .error .assertDocancel ∧ s.step a ≠ .error .assertCrCanceled ∧
      s.step a ≠ .error .assertCrResult) ∧
      ∀ p ∈ s.ready, ∀ op b x old it, (s.crs p).frame = some (op, .crClose b x old it) →
        (s.crs p).id = -1 ∧ (s.crs p).err = .ok ∧ (s.crs it).done = true := by
  obtain ⟨hg, hc⟩ := calmRun_of_reach h
  refine ⟨fun a => ⟨fun he => ?_, fun he => ?_, fun he => ?_⟩, fun p hp op b x old it hf => ?_⟩
  · exact (hc.stops hg he).1 rfl
  · exact (hc.stops hg he).2.1 rfl
  · exact (hc.stops hg he).2.2 rfl
  · have herr := hc.ready p hp op b x old it hf
    have hid := ((hg.inv.pending hf).outcome hp).1
    exact ⟨hid, herr, hg.frames.closed p hp op b x old it hf herr⟩

/-- A run in which a coroutine has just closed its child when it is closed itself. -/
def finishedCloser : List Act :=
  [.call (.go (-1) false true 0), .call (.go (-1) false true 1), .call (.msleep 100), .poll 0 [],
    .switch, .call .yield, .poll 0 [], .switch, .call (.hclose 1), .poll 0 [], .switch,
    .call .yield, .poll 0 [], .switch, .exit, .poll 0 [], .switch, .call (.hclose 0)]

theorem nested_close_safe_finishedCloser :
    ∃ s, runIf Ctx.step ClosesSafely Ctx.init finishedCloser = some s ∧ s.ready = [1] ∧
      (s.crs 1).noBlocking1 = true ∧
      (∀ a, s.step a ≠ .error .assertDocancel ∧ s.step a ≠ .error .assertCrCanceled ∧
        s.step a ≠ .error .assertCrResult) ∧
      ∀ p ∈ s.ready, ∀ op b x old it, (s.crs p).frame = some (op, .crClose b x old it) →
        (s.crs p).id = -1 ∧ (s.crs p).err = .ok ∧ (s.crs it).done = true := by
  obtain ⟨s, hr, hp⟩ := exists_of_runIf Ctx.step ClosesSafely Ctx.init finishedCloser
    (fun s => decide (s.ready = [1] ∧ (s.crs 1).noBlocking1 = true)) (by decide)
  rw [decide_eq_true_eq] at hp
  exact ⟨s, hr, hp.1, hp.2, nested_close_safe (reach_of_runIf (.init Ctx.init_isInit) hr)⟩

/-- A run in which a coroutine is closed while it waits for its child. -/
def nestedCloser : List Act :=
  [.call (.go (-1) false true 0), .call (.go (-1) false true 1), .call (.msleep 100), .poll 0 [],
    .switch, .call .yield, .poll 0 [], .switch, .call (.hclose 1), .poll 0 [], .switch,
    .call (.hclose 0), .poll 0 [], .switch]

/-- Without the condition on the loop an assertion fails. -/
theorem nested_close_asserts :
    ¬∀ s, Reach Ctx.step Ctx.IsInit Ctx.OwnerCloses s → ∀ a, s.OwnerCloses a →
      s.step a ≠ .error .assertDocancel := by
  intro h
  obtain ⟨s, hr, hp⟩ := exists_of_runIf Ctx.step Ctx.OwnerCloses Ctx.init nestedCloser
    (fun s => decide (stopOf (s.step .exit) = some .assertDocancel)) (by decide)
  rw [decide_eq_true_eq] at hp
  exact h s (reach_of_runIf (.init Ctx.init_isInit) hr) .exit trivial (eq_of_stopOf hp)

end Libdill.Sched
