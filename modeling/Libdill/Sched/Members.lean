import Libdill.Sched.History
import Mathlib.Data.List.Infix

/-!
# The coroutines of a bundle, and the loop that closes it

`Members` is the invariant of the bundles. A coroutine that has not ended is in the list of its
bundle; the loop of `dill_bundle_close`, whether it is running or its caller is suspended in
`dill_cr_close`, has only coroutines that have ended behind it; and once `dill_hclose` has returned
for a bundle, all its coroutines have ended and no handle leads to it.

The list changes while the caller is suspended: coroutines that end by themselves leave it and
`bundle_go` appends to it. The coroutine the caller waits for does neither, because its
`no_blocking1` is set.
-/

namespace Libdill.Sched

open Foundations

namespace Ctx

/-- The loop of `dill_bundle_close` on `b` is before `rest`: what it has passed has ended. -/
def Passed (s : Ctx) (b : BundleId) (rest : List CrId) : Prop :=
  ∃ pre, (s.bundles b).crs = pre ++ rest ∧ ∀ c ∈ pre, (s.crs c).done = true

/-- The invariant of the bundles. -/
structure Members (k : Cur) (s : Ctx) : Prop where
  handle : ∀ x b, s.handles x = some (.bundle b) → b < s.nbundles
  handle_unique : ∀ x y b, s.handles x = some (.bundle b) → s.handles y = some (.bundle b) → x = y
  bundle : ∀ c b, (s.crs c).bundle = some b →
    b < s.nbundles ∧ (c ∈ (s.bundles b).crs ∨ (s.crs c).done = true)
  mem : ∀ b, ∀ c ∈ (s.bundles b).crs, (s.crs c).bundle = some b
  nodup : ∀ b, (s.bundles b).crs.Nodup
  owner : ∀ b, ∀ c ∈ (s.bundles b).crs, (s.bundles b).owner < c
  owner_lt : ∀ b < s.nbundles, (s.bundles b).owner < s.ncrs
  loop : ∀ j b x old rest, k = .closing j b x old rest → s.Passed b rest ∧ b < s.nbundles ∧
    ∀ y, s.handles y = some (.bundle b) → y = x
  waits : ∀ p op b x old it, (s.crs p).frame = some (op, .crClose b x old it) →
    (s.crs it).noBlocking1 = true ∧ (∃ rest, s.Passed b (it :: rest)) ∧ b < s.nbundles ∧
    ∀ y, s.handles y = some (.bundle b) → y = x
  returned : ∀ c j b v e, s.Called c j → j.closes = some b → s.Returned j.op v e →
    b < s.nbundles ∧ (∀ c', (s.crs c').bundle = some b → (s.crs c').done = true) ∧
    ∀ x, s.handles x ≠ some (.bundle b)

variable {k k' : Cur} {s s' : Ctx} {c : CrId} {id : ℤ} {err : Errno} {op i : ℕ} {f : Frame}
  {j : Job} {b : BundleId}

theorem after_append {it : CrId} {pre rest : List CrId} (h : it ∉ pre) :
    after it (pre ++ it :: rest) = rest := by
  induction pre with
  | nil => simp [after]
  | cons x pre ih =>
    rw [List.mem_cons, not_or] at h
    have hx : decide (x ≠ it) = true := by simpa using Ne.symm h.1
    have h' := ih h.2
    rw [after] at h' ⊢
    rw [List.cons_append, List.dropWhile_cons, if_pos hx]
    exact h'

/-! ## Changes that the bundles do not notice -/

/-- The lists are the same; coroutines may end or be stopped, handles may be released, coroutines
may leave `dill_cr_close`, and enter it as the loop says. -/
structure SameMembers (s s' : Ctx) : Prop where
  nbundles : s'.nbundles = s.nbundles
  ncrs : s'.ncrs = s.ncrs
  crs : ∀ b, (s'.bundles b).crs = (s.bundles b).crs
  owner : ∀ b, (s'.bundles b).owner = (s.bundles b).owner
  bundle : ∀ c, (s'.crs c).bundle = (s.crs c).bundle
  done : ∀ c, (s.crs c).done = true → (s'.crs c).done = true
  noBlocking1 : ∀ c, (s.crs c).noBlocking1 = true → (s'.crs c).noBlocking1 = true
  handle : ∀ x b, s'.handles x = some (.bundle b) → s.handles x = some (.bundle b)
  frame : ∀ p op b x old it, (s'.crs p).frame = some (op, .crClose b x old it) →
    (s.crs p).frame = some (op, .crClose b x old it) ∨
      ((s'.crs it).noBlocking1 = true ∧ (∃ rest, s.Passed b (it :: rest)) ∧ b < s.nbundles ∧
        ∀ y, s.handles y = some (.bundle b) → y = x)

theorem Passed.congr (e : SameMembers s s') {rest : List CrId} (h : s.Passed b rest) :
    s'.Passed b rest := by
  obtain ⟨pre, hcrs, hd⟩ := h
  exact ⟨pre, by rw [e.crs, hcrs], fun c hc => e.done c (hd c hc)⟩

/-- The calls that close bundles and have returned are the same. -/
def SameClosed (s s' : Ctx) : Prop :=
  ∀ c j b v e, s'.Called c j → j.closes = some b → s'.Returned j.op v e →
    ∃ c', s.Called c' j ∧ s.Returned j.op v e

theorem SameClosed.of_log (h : s'.log = s.log) : SameClosed s s' := by
  intro c j b v e hc _ hr
  rw [Called, h] at hc
  rw [Returned, h] at hr
  exact ⟨c, hc, hr⟩

theorem Members.congr (h : Members k s) (e : SameMembers s s') (hl : SameClosed s s')
    (hk : ∀ j b x old rest, k' = .closing j b x old rest → k = k') : Members k' s' where
  handle x b hx := by
    rw [e.nbundles]
    exact h.handle x b (e.handle x b hx)
  handle_unique x y b hx hy := h.handle_unique x y b (e.handle x b hx) (e.handle y b hy)
  bundle c b hb := by
    rw [e.bundle] at hb
    rw [e.nbundles, e.crs]
    exact ⟨(h.bundle c b hb).1, (h.bundle c b hb).2.imp_right (e.done c)⟩
  mem b c hc := by
    rw [e.crs] at hc
    rw [e.bundle]
    exact h.mem b c hc
  nodup b := by
    rw [e.crs]
    exact h.nodup b
  owner b c hc := by
    rw [e.crs] at hc
    rw [e.owner]
    exact h.owner b c hc
  owner_lt b hb := by
    rw [e.nbundles] at hb
    rw [e.owner, e.ncrs]
    exact h.owner_lt b hb
  loop j b x old rest hk' := by
    obtain ⟨hp, hb, hh⟩ := h.loop j b x old rest ((hk j b x old rest hk').trans hk')
    exact ⟨hp.congr e, by rw [e.nbundles]; exact hb, fun y hy => hh y (e.handle y b hy)⟩
  waits p op b x old it hf := by
    have hw : (s'.crs it).noBlocking1 = true ∧ (∃ rest, s.Passed b (it :: rest)) ∧ b < s.nbundles ∧
        ∀ y, s.handles y = some (.bundle b) → y = x := by
      rcases e.frame p op b x old it hf with hf | hw
      · obtain ⟨hn, hw⟩ := h.waits p op b x old it hf
        exact ⟨e.noBlocking1 it hn, hw⟩
      · exact hw
    obtain ⟨hn, ⟨rest, hp⟩, hb, hh⟩ := hw
    exact ⟨hn, ⟨rest, hp.congr e⟩, by rw [e.nbundles]; exact hb, fun y hy => hh y (e.handle y b hy)⟩
  returned c j b v x hc hj hr := by
    obtain ⟨c', hc', hr'⟩ := hl c j b v x hc hj hr
    obtain ⟨hb, hd, hh⟩ := h.returned c' j b v x hc' hj hr'
    refine ⟨by rw [e.nbundles]; exact hb, fun c'' hb' => ?_, fun y hy => hh y (e.handle y b hy)⟩
    rw [e.bundle] at hb'
    exact e.done c'' (hd c'' hb')

/-- Nothing but the state of the scheduler is different. -/
theorem SameMembers.of_eq (hn : s'.nbundles = s.nbundles) (hnc : s'.ncrs = s.ncrs)
    (hb : s'.bundles = s.bundles) (hc : s'.crs = s.crs) (hh : s'.handles = s.handles) :
    SameMembers s s' := by
  refine ⟨hn, hnc, ?_, ?_, ?_, ?_, ?_, ?_, ?_⟩
  · intro b; rw [hb]
  · intro b; rw [hb]
  · intro c; rw [hc]
  · intro c; rw [hc]; exact fun h => h
  · intro c; rw [hc]; exact fun h => h
  · intro x b; rw [hh]; exact fun h => h
  · intro p op b x old it; rw [hc]; exact .inl

theorem sameMembers_wake (s : Ctx) (c : CrId) (id : ℤ) (err : Errno) :
    SameMembers s (s.wake c id err) where
  nbundles := rfl
  ncrs := rfl
  crs _ := rfl
  owner _ := rfl
  bundle := wake_proj Cr.bundle fun _ _ _ _ => rfl
  done x hx := by rw [wake_done]; exact hx
  noBlocking1 x hx := by rw [wake_proj Cr.noBlocking1 fun _ _ _ _ => rfl]; exact hx
  handle _ _ hx := hx
  frame p op b x old it hf := by rw [wake_frame] at hf; exact .inl hf

theorem sameMembers_updCr {g : Cr → Cr} (hb : ∀ x, (g x).bundle = x.bundle)
    (hd : ∀ x, x.done = true → (g x).done = true)
    (hn : ∀ x, x.noBlocking1 = true → (g x).noBlocking1 = true)
    (hf : ∀ x, (g x).frame = x.frame) (s : Ctx) (c : CrId) : SameMembers s (s.updCr c g) where
  nbundles := rfl
  ncrs := rfl
  crs _ := rfl
  owner _ := rfl
  bundle := updCr_proj Cr.bundle hb s c
  done x hx := by
    rw [updCr_crs]
    split
    · rename_i he; exact hd _ (he ▸ hx)
    · exact hx
  noBlocking1 x hx := by
    rw [updCr_crs]
    split
    · rename_i he; exact hn _ (he ▸ hx)
    · exact hx
  handle _ _ hx := hx
  frame p op b x old it hp := by
    rw [updCr_proj Cr.frame hf] at hp
    exact .inl hp

theorem sameMembers_updHalf (s : Ctx) (h : HalfRef) (g : Half → Half) :
    SameMembers s (s.updHalf h g) :=
  .of_eq rfl rfl rfl rfl rfl

theorem sameMembers_block (hne : ∀ b x old it, f ≠ .crClose b x old it) :
    SameMembers s (s.block op f) where
  nbundles := rfl
  ncrs := rfl
  crs _ := rfl
  owner _ := rfl
  bundle := block_proj Cr.bundle (fun _ _ => rfl) s op f
  done x hx := by rw [block_proj Cr.done fun _ _ => rfl]; exact hx
  noBlocking1 x hx := by rw [block_proj Cr.noBlocking1 fun _ _ => rfl]; exact hx
  handle _ _ hx := hx
  frame p op' b x old it hp := by
    rw [block_crs] at hp
    split at hp
    · cases hp
      exact absurd rfl (hne b x old it)
    · exact .inl hp

theorem sameMembers_popped (c : CrId) (rest : List CrId) : SameMembers s (s.popped c rest) where
  nbundles := rfl
  ncrs := rfl
  crs _ := rfl
  owner _ := rfl
  bundle := popped_proj Cr.bundle (fun _ => rfl) rest
  done x hx := by rw [popped_proj Cr.done fun _ => rfl]; exact hx
  noBlocking1 x hx := by rw [popped_proj Cr.noBlocking1 fun _ => rfl]; exact hx
  handle _ _ hx := hx
  frame p op b x old it hp := by
    rw [popped_crs] at hp
    split at hp
    · cases hp
    · exact .inl hp

theorem Quiet.sameMembers (h : Quiet s s') : SameMembers s s' where
  nbundles := h.nbundles
  ncrs := h.ncrs
  crs b := by obtain ⟨fr, hb⟩ := h.bundle b; rw [hb]
  owner b := by obtain ⟨fr, hb⟩ := h.bundle b; rw [hb]
  bundle := h.proj Cr.bundle fun _ _ _ => rfl
  done x hx := by rw [h.proj Cr.done fun _ _ _ => rfl]; exact hx
  noBlocking1 x hx := by rw [h.proj Cr.noBlocking1 fun _ _ _ => rfl]; exact hx
  handle x b hx := by
    rcases h.handles x with hh | hh | hh
    · rw [← hh]; exact hx
    · rw [hh] at hx; cases hx
    · rw [hh] at hx; cases hx
  frame p op b x old it hp := by
    rw [h.proj Cr.frame fun _ _ _ => rfl] at hp
    exact .inl hp

theorem Registered.sameMembers {e : Cancel} (h : Registered s s' i e)
    (hn : s'.nbundles = s.nbundles) (hb : ∀ b, (s'.bundles b).crs = (s.bundles b).crs)
    (ho : ∀ b, (s'.bundles b).owner = (s.bundles b).owner) (hh : s'.handles = s.handles) :
    SameMembers s s' where
  nbundles := hn
  ncrs := h.ncrs
  crs := hb
  owner := ho
  bundle := h.proj Cr.bundle fun _ _ => rfl
  done x hx := by rw [h.proj Cr.done fun _ _ => rfl]; exact hx
  noBlocking1 x hx := by rw [h.proj Cr.noBlocking1 fun _ _ => rfl]; exact hx
  handle x b hx := by rw [← hh]; exact hx
  frame p op b x old it hp := by
    rw [h.proj Cr.frame fun _ _ => rfl] at hp
    exact .inl hp

/-! ## Bundles are made, coroutines join and leave -/

theorem Members.bundleMade (h : Members (.busy j none) s) (hg : Good (.busy j none) s) (mem : Bool)
    (x : Handle) : Members (.busy j none) (s.bundleMade mem x) := by
  have hbs : ∀ b, b < s.nbundles → (s.bundleMade mem x).bundles b = s.bundles b := fun b hb => by
    have hne : b ≠ s.nbundles := hb.ne
    simp [Ctx.bundleMade, setHandle, hne]
  have hnew : (s.bundleMade mem x).bundles s.nbundles = { mem := mem, owner := s.r } := by
    simp [Ctx.bundleMade, setHandle]
  have hold : ∀ b, b ≠ s.nbundles → (s.bundleMade mem x).bundles b = s.bundles b := fun b hb => by
    simp [Ctx.bundleMade, setHandle, hb]
  have hcrs : ∀ b, ∀ c ∈ ((s.bundleMade mem x).bundles b).crs, c ∈ (s.bundles b).crs ∧
      b ≠ s.nbundles := fun b c hc => by
    by_cases hb : b = s.nbundles
    · rw [hb, hnew] at hc
      cases hc
    · rw [hold b hb] at hc
      exact ⟨hc, hb⟩
  have hh : ∀ y b, (s.bundleMade mem x).handles y = some (.bundle b) →
      (y = x ∧ b = s.nbundles) ∨ s.handles y = some (.bundle b) := fun y b hy => by
    by_cases hyx : y = x
    · subst hyx
      simp only [Ctx.bundleMade, setHandle, Function.update_self, Option.some.injEq,
        Obj.bundle.injEq] at hy
      exact .inl ⟨rfl, hy.symm⟩
    · simp only [Ctx.bundleMade, setHandle, Function.update_of_ne hyx] at hy
      exact .inr hy
  have hpass : ∀ {b rest}, b < s.nbundles → s.Passed b rest → (s.bundleMade mem x).Passed b rest := by
    rintro b rest hb ⟨pre, hp, hd⟩
    exact ⟨pre, by rw [hbs b hb, hp], hd⟩
  have hlt : s.nbundles < s.nbundles + 1 := Nat.lt_succ_self _
  refine ⟨?_, ?_, ?_, ?_, ?_, ?_, ?_, by simp, ?_, ?_⟩
  · intro y b hy
    rcases hh y b hy with ⟨-, rfl⟩ | hy
    · exact hlt
    · exact (h.handle y b hy).trans hlt
  · intro y z b hy hz
    rcases hh y b hy with ⟨hyx, hb⟩ | hy' <;> rcases hh z b hz with ⟨hzx, hb'⟩ | hz'
    · rw [hyx, hzx]
    · exact absurd (h.handle z b hz') (by rw [hb]; exact lt_irrefl _)
    · exact absurd (h.handle y b hy') (by rw [hb']; exact lt_irrefl _)
    · exact h.handle_unique y z b hy' hz'
  · intro c b hb
    obtain ⟨hlt', hc⟩ := h.bundle c b hb
    rw [hbs b hlt']
    exact ⟨hlt'.trans hlt, hc⟩
  · exact fun b c hc => h.mem b c (hcrs b c hc).1
  · intro b
    by_cases hb : b = s.nbundles
    · rw [hb, hnew]
      exact List.nodup_nil
    · rw [hold b hb]
      exact h.nodup b
  · intro b c hc
    obtain ⟨hc, hb⟩ := hcrs b c hc
    rw [hold b hb]
    exact h.owner b c hc
  · intro b hb
    by_cases hbn : b = s.nbundles
    · rw [hbn, hnew]
      exact hg.r_lt
    · rw [hold b hbn]
      exact h.owner_lt b (lt_of_le_of_ne (Nat.lt_succ_iff.1 hb) hbn)
  · intro p op b y old it hf
    obtain ⟨hn, ⟨rest, hp⟩, hb, hy⟩ := h.waits p op b y old it hf
    refine ⟨hn, ⟨rest, hpass hb hp⟩, hb.trans hlt, fun z hz => ?_⟩
    rcases hh z b hz with ⟨-, rfl⟩ | hz
    · exact absurd hb (lt_irrefl _)
    · exact hy z hz
  · intro c j' b v e hc hj hr
    obtain ⟨hb, hd, hn⟩ := h.returned c j' b v e hc hj hr
    refine ⟨hb.trans hlt, hd, fun y hy => ?_⟩
    rcases hh y b hy with ⟨-, rfl⟩ | hy
    · exact absurd hb (lt_irrefl _)
    · exact hn y hy

theorem Members.launch (h : Members (.busy j none) s) (hg : Good (.busy j none) s) (mem : Bool)
    (v : Handle) (hh : ∃ x, s.handles x = some (.bundle b)) :
    Members .idle (s.launch j.op b mem v) := by
  have hb : s.Busy j := hg.cur
  obtain ⟨x₀, hx₀⟩ := hh
  have hbn := h.handle x₀ b hx₀
  have hcrs := launch_crs hg.r_lt j.op b mem v
  have hbs := launch_bundles (s := s) j.op b mem v
  have hnew : ∀ b', s.ncrs ∉ (s.bundles b').crs := fun b' hm =>
    absurd (hg.frames.member b' _ hm) (lt_irrefl _)
  -- the new coroutine is the only one that is in another bundle than before
  have hbundle : ∀ {y}, y ≠ s.ncrs → ((s.launch j.op b mem v).crs y).bundle = (s.crs y).bundle :=
    launch_proj hg.r_lt Cr.bundle fun _ _ _ _ _ => rfl
  have hflags : ∀ p : Cr → Bool, (∀ y fr id e n,
      p { y with frame := fr, id := id, err := e, readyNext := n } = p y) →
      p { bundle := some b, mem := mem } = p {} →
      ∀ y, p ((s.launch j.op b mem v).crs y) = p (s.crs y) :=
    fun p hp hb => launch_proj_new hg.r_lt (hg.fresh s.ncrs le_rfl) p hp hb
  have hdone : ∀ y, (s.crs y).done = true → ((s.launch j.op b mem v).crs y).done = true := by
    intro y hy
    rw [hflags Cr.done (fun _ _ _ _ _ => rfl) rfl]
    exact hy
  have hpass : ∀ {b' rest}, s.Passed b' rest →
      ∃ post, (s.launch j.op b mem v).Passed b' (rest ++ post) := by
    rintro b' rest ⟨pre, hp, hd⟩
    by_cases hb' : b' = b
    · subst hb'
      refine ⟨[s.ncrs], pre, ?_, fun c hc => hdone c (hd c hc)⟩
      rw [hbs, if_pos rfl]
      simp only [hp, List.append_assoc]
    · refine ⟨[], pre, ?_, fun c hc => hdone c (hd c hc)⟩
      rw [hbs, if_neg hb', hp, List.append_nil]
  refine ⟨h.handle, h.handle_unique, ?_, ?_, ?_, ?_, ?_, by simp, ?_, ?_⟩
  · intro c b' hb'
    change b' < s.nbundles ∧ _
    rw [hbs]
    by_cases hc : c = s.ncrs
    · rw [hcrs, if_pos hc] at hb'
      cases hb'
      rw [if_pos rfl, hc]
      exact ⟨hbn, .inl (List.mem_append_right _ (.head _))⟩
    · rw [hbundle hc] at hb'
      obtain ⟨hlt, hm⟩ := h.bundle c b' hb'
      refine ⟨hlt, hm.imp (fun hm => ?_) (hdone c)⟩
      split
      · rename_i he
        rw [he] at hm
        exact List.mem_append_left _ hm
      · exact hm
  · intro b' c hc
    rw [hbs] at hc
    split at hc
    · rename_i he
      rcases List.mem_append.1 hc with hc | hc
      · have hne : c ≠ s.ncrs := by rintro rfl; exact hnew b hc
        rw [hbundle hne, he]
        exact h.mem b c hc
      · rw [hcrs, if_pos (List.mem_singleton.1 hc), he]
    · have hne : c ≠ s.ncrs := by rintro rfl; exact hnew b' hc
      rw [hbundle hne]
      exact h.mem b' c hc
  · intro b'
    rw [hbs]
    split
    · exact List.nodup_append.2 ⟨h.nodup b, List.nodup_singleton _, fun y hy z hz hyz =>
        hnew b (by rw [← List.mem_singleton.1 hz, ← hyz]; exact hy)⟩
    · exact h.nodup b'
  · intro b' c hc
    rw [hbs] at hc ⊢
    split at hc
    · rename_i he
      rw [if_pos he]
      rcases List.mem_append.1 hc with hc | hc
      · exact h.owner b c hc
      · rw [List.mem_singleton.1 hc]
        exact h.owner_lt b hbn
    · rename_i he
      rw [if_neg he]
      exact h.owner b' c hc
  · intro b' hb'
    have hlt := h.owner_lt b' hb'
    change _ < s.ncrs + 1
    rw [hbs]
    split
    · rename_i he
      rw [he] at hlt
      exact Nat.lt_succ_of_lt hlt
    · exact Nat.lt_succ_of_lt hlt
  · intro p op' b' y old it hf
    have hf' : (s.crs p).frame = some (op', .crClose b' y old it) := by
      rcases launch_frame hg.r_lt hf with ⟨-, -, hgo⟩ | ⟨-, hpr⟩
      · cases hgo
      · rwa [hpr] at hf
    obtain ⟨hn, ⟨rest, hp⟩, hlt, hy⟩ := h.waits p op' b' y old it hf'
    obtain ⟨post, hp'⟩ := hpass hp
    refine ⟨?_, ⟨rest ++ post, hp'⟩, hlt, hy⟩
    rw [hflags Cr.noBlocking1 (fun _ _ _ _ _ => rfl) rfl]
    exact hn
  · intro c j' b' v' e hc hj hr
    obtain ⟨hlt, hd, hn⟩ := h.returned c j' b' v' e hc hj hr
    refine ⟨hlt, fun c' hb' => ?_, hn⟩
    by_cases hc' : c' = s.ncrs
    · rw [hcrs, if_pos hc'] at hb'
      cases hb'
      exact absurd hx₀ (hn x₀)
    · rw [hbundle hc'] at hb'
      exact hdone c' (hd c' hb')

theorem Passed.erase {x it : CrId} {rest : List CrId} (h : s.Passed b (it :: rest)) (hne : it ≠ x) :
    ∃ pre rest', (s.bundles b).crs.erase x = pre ++ it :: rest' ∧ ∀ c ∈ pre, (s.crs c).done = true := by
  obtain ⟨pre, hp, hd⟩ := h
  rw [hp]
  by_cases hx : x ∈ pre
  · refine ⟨pre.erase x, rest, List.erase_append_left _ hx, fun c hc => ?_⟩
    exact hd c (List.mem_of_mem_erase hc)
  · refine ⟨pre, rest.erase x, ?_, hd⟩
    rw [List.erase_append_right _ hx, List.erase_cons_tail (by simpa using hne)]

theorem Members.leave (h : Members .exiting s) (hg : Good .exiting s)
    (hn : (s.crs s.r).noBlocking1 = false) (hb : (s.crs s.r).bundle = some b) :
    Members .exiting (s.updBundle b fun x => { x with crs := x.crs.erase s.r }) := by
  have he : s.Exiting := hg.cur
  have hbs : ∀ x, (s.updBundle b fun x => { x with crs := x.crs.erase s.r }).bundles x =
      if x = b then { s.bundles b with crs := (s.bundles b).crs.erase s.r } else s.bundles x :=
    fun x => by simp [updBundle, Function.update_apply]
  have hsub : ∀ b', ∀ c ∈ ((s.updBundle b fun x => { x with crs := x.crs.erase s.r }).bundles b').crs,
      c ∈ (s.bundles b').crs := by
    intro b' c hc
    rw [hbs] at hc
    split at hc
    · rename_i hx
      rw [hx]
      exact List.mem_of_mem_erase hc
    · exact hc
  have howner : ∀ b', ((s.updBundle b fun x => { x with crs := x.crs.erase s.r }).bundles b').owner =
      (s.bundles b').owner := by
    intro b'
    rw [hbs]
    split
    · rename_i hx; rw [hx]
    · rfl
  refine ⟨h.handle, h.handle_unique, ?_, ?_, ?_, ?_, ?_, by simp, ?_, h.returned⟩
  · intro c b' hb'
    obtain ⟨hlt, hc⟩ := h.bundle c b' hb'
    refine ⟨hlt, ?_⟩
    by_cases hcr : c = s.r
    · rw [hcr]
      exact .inr he.done
    · refine hc.imp_left fun hm => ?_
      rw [hbs]
      split
      · rename_i hx
        rw [hx] at hm
        exact (List.mem_erase_of_ne hcr).2 hm
      · exact hm
  · exact fun b' c hc => h.mem b' c (hsub b' c hc)
  · intro b'
    rw [hbs]
    split
    · exact (h.nodup b).erase _
    · exact h.nodup b'
  · intro b' c hc
    rw [howner]
    exact h.owner b' c (hsub b' c hc)
  · intro b' hb'
    rw [howner]
    exact h.owner_lt b' hb'
  · intro p op b' x old it hf
    obtain ⟨hnb, ⟨rest, hp⟩, hlt, hx⟩ := h.waits p op b' x old it hf
    refine ⟨hnb, ?_, hlt, hx⟩
    by_cases hb' : b' = b
    · subst hb'
      have hne : it ≠ s.r := by
        rintro rfl
        rw [hn] at hnb
        cases hnb
      obtain ⟨pre, rest', hp', hd⟩ := hp.erase hne
      refine ⟨rest', pre, ?_, hd⟩
      rw [hbs, if_pos rfl]
      exact hp'
    · obtain ⟨pre, hp', hd⟩ := hp
      refine ⟨rest, pre, ?_, hd⟩
      rw [hbs, if_neg hb']
      exact hp'

/-! ## The loop -/

/-- Only the place in the code changes. -/
theorem Members.cur_of (h : Members k s)
    (hk : ∀ j b x old rest, k' = .closing j b x old rest → s.Passed b rest ∧ b < s.nbundles ∧
      ∀ y, s.handles y = some (.bundle b) → y = x) : Members k' s :=
  ⟨h.handle, h.handle_unique, h.bundle, h.mem, h.nodup, h.owner, h.owner_lt, hk, h.waits, h.returned⟩

theorem Members.poppedClose {rest : List CrId} {x : Handle} {old : Bool} {it : CrId}
    (h : Members .idle s) (hg : Good .idle s) (hr : s.ready = c :: rest)
    (hf : (s.crs c).frame = some (op, .crClose b x old it)) (he : (s.crs c).err = .ok) :
    Members (.closing j b x old (after it (s.bundles b).crs)) (s.popped c rest) := by
  have h₁ : Members .idle (s.popped c rest) :=
    h.congr (sameMembers_popped c rest) (.of_log rfl) (by simp)
  refine h₁.cur_of ?_
  intro j' b' x' old' rest' hk
  cases hk
  obtain ⟨-, ⟨post, pre, hp, hd⟩, hlt, hh⟩ := h.waits c op b x old it hf
  have hdone := hg.frames.closed c (by rw [hr]; exact .head _) op b x old it hf he
  have hnd := h.nodup b
  rw [hp] at hnd
  have hnot : it ∉ pre := fun hm => (List.nodup_append.1 hnd).2.2 it hm it (.head _) rfl
  rw [hp, after_append hnot]
  refine ⟨⟨pre ++ [it], ?_, fun y hy => ?_⟩, hlt, hh⟩
  · change (s.bundles b).crs = _
    rw [hp, List.append_assoc, List.singleton_append]
  · rw [popped_proj Cr.done fun _ => rfl]
    rcases List.mem_append.1 hy with hy | hy
    · exact hd y hy
    · rw [List.mem_singleton.1 hy]
      exact hdone

theorem Members.closeNext {x : Handle} {old : Bool} {rest : List CrId}
    (h : Members (.closing j b x old (c :: rest)) s) (hd : (s.crs c).done = true) :
    Members (.closing j b x old rest) s := by
  refine h.cur_of ?_
  intro j' b' x' old' rest' hk
  cases hk
  obtain ⟨⟨pre, hp, hpre⟩, hlt, hh⟩ := h.loop j b x old (c :: rest) rfl
  refine ⟨⟨pre ++ [c], ?_, fun y hy => ?_⟩, hlt, hh⟩
  · rw [hp, List.append_assoc, List.singleton_append]
  · rcases List.mem_append.1 hy with hy | hy
    · exact hpre y hy
    · rw [List.mem_singleton.1 hy]
      exact hd

theorem Members.closeWait {x : Handle} {old : Bool} {rest : List CrId}
    (h : Members (.closing j b x old (c :: rest)) s) :
    Members .idle (s.closeWaited j.op b x old c) := by
  obtain ⟨hp, hlt, hh⟩ := h.loop j b x old (c :: rest) rfl
  set s₁ := s.updCr c fun cr => { cr with noBlocking1 := true } with hs₁
  have e₁ : SameMembers s s₁ :=
    sameMembers_updCr (by simp) (by simp) (by simp) (by simp) s c
  have hn₁ : (s₁.crs c).noBlocking1 = true := by rw [hs₁, updCr_crs, if_pos rfl]
  obtain ⟨s₂, hs₂, e₂, hn₂, hr₂, hlog₂⟩ : ∃ s₂ : Ctx,
      s₂ = (if c ∈ s.ready then s₁ else s₁.wake c (-1) .ECANCELED) ∧ SameMembers s₁ s₂ ∧
      (s₂.crs c).noBlocking1 = true ∧ s₂.r = s.r ∧ s₂.log = s.log := by
    refine ⟨_, rfl, ?_⟩
    split
    · exact ⟨.of_eq rfl rfl rfl rfl rfl, hn₁, rfl, rfl⟩
    · refine ⟨sameMembers_wake s₁ c _ _, ?_, rfl, rfl⟩
      rw [wake_proj Cr.noBlocking1 fun _ _ _ _ => rfl]
      exact hn₁
  have h₁ : Members .idle s₁ := h.congr e₁ (.of_log rfl) (by simp)
  have h₂ : Members .idle s₂ := h₁.congr e₂ (.of_log hlog₂) (by simp)
  rw [closeWaited, ← hs₁, ← hs₂]
  have hcr : ∀ {β : Type} (q : Cr → β), (∀ y fr cl, q { y with frame := fr, closer := cl } = q y) →
      ∀ y, q (((s₂.block j.op (.crClose b x old c)).updCr c fun cr =>
        { cr with closer := some s.r }).crs y) = q (s₂.crs y) := by
    intro β q hq y
    rw [updCr_proj q fun z => hq z z.frame _, block_proj q fun z fr => hq z fr z.closer]
  have hno := hcr Cr.noBlocking1 fun _ _ _ => rfl
  refine h₂.congr ⟨rfl, rfl, fun _ => rfl, fun _ => rfl, hcr Cr.bundle fun _ _ _ => rfl, ?_, ?_,
    fun _ _ hx => hx, ?_⟩ (.of_log rfl) (by simp)
  · intro y hy
    rw [hcr Cr.done fun _ _ _ => rfl]
    exact hy
  · intro y hy
    rw [hno]
    exact hy
  · intro p op' b' x' old' it hf
    rw [updCr_proj Cr.frame (by simp), block_crs] at hf
    split at hf
    · cases hf
      refine .inr ⟨by rw [hno, hn₂], ⟨rest, (hp.congr e₁).congr e₂⟩, ?_, fun y hy => ?_⟩
      · rw [e₂.nbundles, e₁.nbundles]
        exact hlt
      · exact hh y (e₁.handle y _ (e₂.handle y _ hy))
    · exact .inl hf

theorem Members.closeEnd {x : Handle} {old : Bool} (h : Members (.closing j b x old []) s)
    (hg : Good (.closing j b x old []) s) (hi : Hist (.closing j b x old []) s)
    (hx : s.handles x = none) : Members .idle (s.ret j.op 0 .ok) := by
  have hc : s.Closing j b x [] := hg.cur
  obtain ⟨⟨pre, hp, hd⟩, hlt, hh⟩ := h.loop j b x old [] rfl
  rw [List.append_nil] at hp
  have hjb : j.closes = some b := by
    obtain ⟨hcall, hobjs⟩ := (hc.of old 0).hclose
    rw [Job.closes, hcall, hobjs]
  refine ⟨h.handle, h.handle_unique, h.bundle, h.mem, h.nodup, h.owner, h.owner_lt, by simp,
    h.waits, ?_⟩
  intro c j' b' v e hj' hb' hr
  rw [called_ret] at hj'
  rcases returned_ret.1 hr with hr | ⟨hop, -, -⟩
  · exact h.returned c j' b' v e hj' hb' hr
  · -- the call that returns now: everything in the list has been passed
    obtain ⟨-, rfl⟩ := hi.called_unique _ _ _ _ hj' hc.called hop
    rw [hjb] at hb'
    cases hb'
    refine ⟨hlt, fun c' hb' => ?_, fun y hy => ?_⟩
    · rcases (h.bundle c' b hb').2 with hm | hm
      · exact hd c' (hp ▸ hm)
      · exact hm
    · have hy : s.handles y = some (.bundle b) := hy
      rw [hh y hy, hx] at hy
      cases hy

theorem SameClosed.ret {m : Option (ℕ × Errno)} {v : ℤ} {e : Errno} (hg : Good (.busy j m) s)
    (hi : Hist (.busy j m) s) (hc : j.closes = none) : SameClosed s (s.ret j.op v e) := by
  intro c j' b v' e' hj' hb hr
  rw [called_ret] at hj'
  rcases returned_ret.1 hr with hr | ⟨hop, -, -⟩
  · exact ⟨c, hj', hr⟩
  · obtain ⟨-, rfl⟩ := hi.called_unique _ _ _ _ hj' (Busy.called hg.cur) hop
    rw [hc] at hb
    cases hb

theorem sameMembers_met (s : Ctx) (op i : ℕ) (a : ChanArg) (e : ChanClause) :
    SameMembers s (s.met op i a e) := by
  rw [met]
  split
  · exact ⟨rfl, rfl, fun _ => rfl, fun _ => rfl, (sameMembers_wake s e.cr e.id .ok).bundle,
      (sameMembers_wake s e.cr e.id .ok).done, (sameMembers_wake s e.cr e.id .ok).noBlocking1,
      fun _ _ hx => hx, (sameMembers_wake s e.cr e.id .ok).frame⟩
  · have h := sameMembers_wake s e.cr e.id .EMSGSIZE
    exact ⟨rfl, rfl, fun _ => rfl, fun _ => rfl, h.bundle, h.done, h.noBlocking1, fun _ _ hx => hx,
      h.frame⟩

/-- **Every move keeps the invariant of the bundles.** -/
theorem Members.micro {l : Bool} (h : Members k s) (hg : Good k s) (hi : Hist k s)
    (hm : Micro l k s k' s') : Members k' s' := by
  cases hm with
  | quiet hq => exact h.congr hq.sameMembers (.of_log hq.log) fun _ _ _ _ _ _ => rfl
  | trigger hk hl he hq => exact h.congr (sameMembers_wake ..) (.of_log rfl) fun _ _ _ _ _ _ => rfl
  | @meet s j i a c rest ha hd hq =>
    refine h.congr (sameMembers_met s j.op i a c) ?_ (by simp)
    intro c' j' b v e hj' _ hr
    rw [met] at hj' hr
    split at hj'
    · rename_i hl
      rw [if_pos hl] at hr
      exact ⟨c', called_record.1 hj', returned_record.1 hr⟩
    · rename_i hl
      rw [if_neg hl] at hr
      exact ⟨c', called_record.1 hj', returned_record.1 hr⟩
  | ret hv hc => exact h.congr (.of_eq rfl rfl rfl rfl rfl) (.ret hg hi hc) (by simp)
  | hold hj =>
    exact h.congr (sameMembers_updCr (by simp) (by simp) (by simp) (by simp) s s.r) (.of_log rfl)
      (by simp)
  | unhold hu hc hj hh =>
    exact h.congr (sameMembers_updCr (by simp) (by simp) (by simp) (by simp) s s.r) (.of_log rfl)
      (by simp)
  | chmake h₀ h₁ =>
    refine h.congr ⟨rfl, rfl, fun _ => rfl, fun _ => rfl, fun _ => rfl, fun _ hx => hx,
      fun _ hx => hx, fun x b hx => ?_, fun _ _ _ _ _ _ hf => .inl hf⟩ (.of_log rfl) (by simp)
    simp only [chmade, setHandle, Function.update_apply] at hx
    split at hx
    · cases hx
    · split at hx
      · cases hx
      · exact hx
  | bundle mem x => exact h.bundleMade hg mem x
  | startTerm ch hn => exact h.congr (sameMembers_updHalf s ch _) (.of_log rfl) (by simp)
  | endTerm hq => exact h.cur_of (by simp)
  | startWait hb hw hf hn => exact h.cur_of (by simp)
  | @enqueue l s j f i a hi' hf ha hlt hn hd hp =>
    exact h.congr ((registered_enqueue s j.op i a.sd a.half a.val a.len).sameMembers rfl
      (fun _ => rfl) (fun _ => rfl) rfl) (.of_log rfl) (by simp)
  | @timer l s j f i deadline hi' hf =>
    by_cases hd : deadline < 0
    · rw [Ctx.timer, if_pos hd]
      exact h
    · have hreg := registered_timer s i hd
      refine h.congr (hreg.sameMembers ?_ ?_ ?_ ?_) (.of_log ?_) (by simp) <;>
        rw [Ctx.timer, if_neg hd]
      · rfl
      · exact fun _ => rfl
      · exact fun _ => rfl
      · rfl
      · rfl
  | linkFd hi' hc hw =>
    exact h.congr ((registered_linkFd s _ _ hw).sameMembers rfl (fun _ => rfl) (fun _ => rfl) rfl)
      (.of_log rfl) (by simp)
  | @setWaiter l s j b hi' hb =>
    have hbs : ∀ {β : Type} (q : Bundle → β), (∀ y w, q { y with waiter := w } = q y) → ∀ x,
        q (((s.updBundle b fun x => { x with waiter := some ⟨s.r, 0⟩ }).waitfor ⟨0, .null⟩).bundles x)
          = q (s.bundles x) := by
      intro β q hq x
      simp only [waitfor, updCr, updBundle, Function.update_apply]
      split
      · rename_i hx; rw [hq, hx]
      · rfl
    have hreg := registered_waitfor (s.updBundle b fun x => { x with waiter := some ⟨s.r, 0⟩ }) 0
    have hreg' := hreg.sameMembers rfl (fun _ => rfl) (fun _ => rfl) rfl
    exact h.congr ⟨rfl, rfl, hbs Bundle.crs fun _ _ => rfl, hbs Bundle.owner fun _ _ => rfl,
      hreg'.bundle, hreg'.done, hreg'.noBlocking1, fun _ _ hx => hx, fun p op b' x old it hf => by
        rw [hreg.proj Cr.frame fun _ _ => rfl] at hf
        exact .inl hf⟩ (.of_log rfl) (by simp)
  | @block l s j f hw =>
    have hc : s.Waiting j f := hg.cur
    exact h.congr (sameMembers_block (Frame.Waits.ne_crClose hc.waits)) (.of_log rfl) (by simp)
  | @yield l s j hb hj =>
    have hc : s.Busy j := hg.cur
    rw [hg.toCore.resume_eq_wake hc.clauses 0 .ok]
    have h₁ : Members (.busy j none) (s.wake s.r 0 .ok) :=
      h.congr (sameMembers_wake ..) (.of_log rfl) (by simp)
    exact h₁.congr (sameMembers_block (by simp)) (.of_log rfl) (by simp)
  | launch mem v hb hj hh => exact h.launch hg mem v hh
  | popped hp hr hf hj ho hn hc => exact h.congr (sameMembers_popped _ _) (.of_log rfl) (by simp)
  | @poppedWait l s c rest j b hp hr hf hj ho =>
    have h₁ : Members (.busy j none) (s.popped c rest) :=
      h.congr (sameMembers_popped c rest) (.of_log rfl) (by simp)
    have hbs : ∀ {β : Type} (q : Bundle → β), (∀ y w, q { y with waiter := w } = q y) → ∀ x,
        q (((s.popped c rest).updBundle b fun x => { x with waiter := none }).bundles x)
          = q ((s.popped c rest).bundles x) := by
      intro β q hq x
      simp only [updBundle, Function.update_apply]
      split
      · rename_i hx; rw [hq, hx]
      · rfl
    exact h₁.congr ⟨rfl, rfl, hbs Bundle.crs fun _ _ => rfl, hbs Bundle.owner fun _ _ => rfl,
      fun _ => rfl, fun _ hx => hx, fun _ hx => hx, fun _ _ hx => hx, fun _ _ _ _ _ _ hf => .inl hf⟩
      (.of_log rfl) (by simp)
  | poppedClose hp hr hf hj ho he => exact h.poppedClose hg hr hf he
  | @startClose l s j b x old hj ho hh =>
    refine h.cur_of ?_
    intro j' b' x' old' rest' hk
    cases hk
    exact ⟨⟨[], rfl, by simp⟩, h.handle x b hh, fun y hy => h.handle_unique y x b hy hh⟩
  | closeNext hd => exact h.closeNext hd
  | closeWait hd => exact h.closeWait
  | closeEnd hh => exact h.closeEnd hg hi hh
  | finish hu =>
    exact h.congr (sameMembers_updCr (by simp) (by simp) (by simp) (by simp) s s.r) (.of_log rfl)
      (by simp)
  | wakeCloser hp hr => exact h.congr (sameMembers_wake ..) (.of_log rfl) (by simp)
  | wakeWaiter hn hb hl hw hr => exact h.congr (sameMembers_wake ..) (.of_log rfl) (by simp)
  | leave hn hb => exact h.leave hg hn hb
  | sleep => exact h.congr (sameMembers_block (by simp)) (.of_log rfl) (by simp)

theorem Members.init (h : s.IsInit) : Members .idle s := by
  refine ⟨?_, ?_, ?_, ?_, ?_, ?_, ?_, ?_, ?_, ?_⟩
  · simp [h.handles]
  · simp [h.handles]
  · simp [h.crs]
  · simp [h.bundles]
  · simp [h.bundles]
  · simp [h.bundles]
  · simp [h.nbundles]
  · simp
  · simp [h.crs]
  · simp [Called, h.log]

theorem SameClosed.enter (hi : Hist .idle s) (x : Call) : SameClosed s (s.enter x) := by
  intro c j b v e hj _ hr
  rw [returned_enter] at hr
  rcases called_enter.1 hj with hj | ⟨-, rfl⟩
  · exact ⟨c, hj, hr⟩
  · exact absurd (hi.ret_lt _ _ _ hr) (lt_irrefl _)

/-- The history and the bundles, in the middle of a step. -/
structure Book (k : Cur) (s : Ctx) : Prop where
  hist : Hist k s
  members : Members k s

theorem Book.micro {l : Bool} (h : Book k s) (hg : Good k s) (hm : Micro l k s k' s') : Book k' s' :=
  ⟨h.hist.micro hg hm, h.members.micro hg h.hist hm⟩

theorem outer_book : Outer Book where
  enter s c hg hu h := by
    refine ⟨h.hist.enter c, ?_⟩
    exact h.members.congr (.of_eq rfl rfl rfl rfl rfl) (.enter h.hist c) (by simp)
  write s a x h :=
    ⟨outer_hist.write s a x h.hist,
      h.members.congr (.of_eq rfl rfl rfl rfl rfl) (.of_log rfl) (by simp)⟩
  endPoll s hg hp h :=
    ⟨outer_hist.endPoll s hg hp h.hist,
      h.members.congr (.of_eq rfl rfl rfl rfl rfl) (.of_log rfl) (by simp)⟩

end Ctx

theorem Reachable.book {s : Ctx} (h : Reachable s) : Ctx.Book .idle s :=
  (h.invariant (fun _ hi => ⟨.init hi, .init hi⟩) Ctx.outer_book
    fun _ _ _ _ _ hg hk hm => hk.micro hg hm).2

end Libdill.Sched
