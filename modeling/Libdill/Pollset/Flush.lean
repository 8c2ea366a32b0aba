import Libdill.Pollset.Changelist

/-!
# Bringing the kernel up to date

What the operations of the pollset of epoll(7) that talk to the kernel do: no call of epoll_ctl(2)
fails unless the descriptor cannot be added, and after the changelist has been worked off the
kernel is interested in exactly what somebody waits for.

* `flush_spec`, `Book.clean`, `pollsetWait_spec`.
-/

namespace Libdill.Pollset.Epoll

open Foundations Libdill.Sock

variable {s s' : Ctx} {d : Dir} {fd k : ℕ} {l : List ℕ}

theorem interestOf_eq_none {e : Events} : interestOf e = none ↔ e = 0 := by
  unfold interestOf
  split
  · rename_i he
    exact iff_of_true rfl he
  · rename_i he
    exact iff_of_false nofun he

/-- The kernel and one descriptor change. -/
theorem Book.change (h : Book s) (fd : ℕ) (hl : ∃ l, Listed l s')
    (ho : ∀ k, k ≠ fd → s'.fdinfos k = s.fdinfos k ∧ s'.kernel.interest k = s.kernel.interest k)
    (hr : s'.kernel.refuses = s.kernel.refuses) (hn : s'.nfdinfos = s.nfdinfos)
    (hf : FdOk s' fd (s'.fdinfos fd)) : Book s' := by
  refine ⟨hl, fun k => ?_, hn ▸ h.small⟩
  by_cases hk : k = fd
  · rw [hk]
    exact hf
  · obtain ⟨hfd, hi⟩ := ho k hk
    have hok := h.fds k
    rw [hfd]
    refine ⟨hok.uncached, hi.trans hok.interest, hok.changed, fun hc => ?_⟩
    rw [hr, hn]
    exact hok.present hc

/-- Nothing changes but cached events, the kernel's interest and the changelist. -/
structure Kept (s s' : Ctx) : Prop where
  nfdinfos : s'.nfdinfos = s.nfdinfos
  refuses : s'.kernel.refuses = s.kernel.refuses
  cached : ∀ fd, (s'.fdinfos fd).cached = (s.fdinfos fd).cached
  side : s'.side = s.side

theorem Kept.refl (s : Ctx) : Kept s s := ⟨rfl, rfl, fun _ => rfl, rfl⟩

theorem Kept.trans {s'' : Ctx} (h : Kept s s') (h' : Kept s' s'') : Kept s s'' :=
  ⟨h'.nfdinfos.trans h.nfdinfos, h'.refuses.trans h.refuses,
    fun fd => (h'.cached fd).trans (h.cached fd), h'.side.trans h.side⟩

/-- A change of a descriptor that leaves its clauses and the flag as they are. -/
theorem kept_setFdInfo {kernel : Kernel} {head : ℕ} {f : FdInfo → FdInfo}
    (hr : kernel.refuses = s.kernel.refuses)
    (hc : ∀ f₀, (f f₀).cached = f₀.cached) (hcl : ∀ f₀, (f f₀).clause = f₀.clause) :
    Kept s ({ s with kernel := kernel, changelist := head }.setFdInfo fd f) :=
  ⟨rfl, hr, apply_update_same (g := FdInfo.cached) (hc _), side_setFdInfo (hcl _)⟩

/-! ## Working off the changelist -/

/-- The call of epoll_ctl(2) that brings a descriptor up to date succeeds. -/
theorem epollCtl_opFor {kernel : Kernel} {currevs wanted : Events}
    (hi : kernel.interest fd = interestOf currevs) (hne : currevs ≠ wanted)
    (hr : currevs = 0 → kernel.refuses fd = none) :
    kernel.epollCtl (opFor currevs wanted) fd wanted =
      .ok (kernel.register fd (interestOf wanted)) := by
  unfold opFor
  by_cases hw : wanted = 0
  · have hc : currevs ≠ 0 := fun hc => hne (hc.trans hw.symm)
    unfold interestOf at hi
    rw [if_neg hc] at hi
    rw [if_pos hw, interestOf_eq_none.mpr hw]
    unfold Kernel.epollCtl
    simp only [hi]
  · rw [if_neg hw]
    have hsome : interestOf wanted = some wanted := by
      unfold interestOf
      rw [if_neg hw]
    rw [hsome]
    by_cases hc : currevs = 0
    · rw [interestOf_eq_none.mpr hc] at hi
      rw [if_pos hc]
      unfold Kernel.epollCtl
      simp only [hi, hr hc]
    · unfold interestOf at hi
      rw [if_neg hc] at hi
      rw [if_neg hc]
      unfold Kernel.epollCtl
      simp only [hi]

theorem wanted_of_none {f : FdInfo} (h : ∀ d, f.clause d = none) : f.wanted = 0 := by
  unfold FdInfo.wanted
  rw [h, h]
  rfl

/-- A descriptor is brought up to date. -/
theorem Book.update (h : Book s) (fd : ℕ) :
    ∃ s', update fd s = .ok s' ∧ Book s' ∧ Kept s s' ∧ s'.link = s.link ∧
      (s'.fdinfos fd).currevs = (s'.fdinfos fd).wanted := by
  have hok := h.fds fd
  obtain ⟨l, hl⟩ := h.listed
  unfold Epoll.update
  by_cases hne : (s.fdinfos fd).currevs = (s.fdinfos fd).wanted
  · refine ⟨s, ?_, h, Kept.refl s, rfl, hne⟩
    simp only [hne, ne_eq, not_true_eq_false, if_false]
  · have hr : (s.fdinfos fd).currevs = 0 → s.kernel.refuses fd = none := by
      intro hzero
      cases hc : (s.fdinfos fd).cached with
      | true => exact (hok.present hc).1
      | false =>
        rw [hzero, wanted_of_none (hok.uncached hc).2.2] at hne
        exact absurd rfl hne
    have hctl := epollCtl_opFor hok.interest hne hr
    have hlink : ({ s with kernel := s.kernel.register fd (interestOf (s.fdinfos fd).wanted) }.setFdInfo
        fd fun f => { f with currevs := (s.fdinfos fd).wanted }).link = s.link :=
      link_setFdInfo_same rfl
    refine ⟨_, ?_, h.change fd ⟨l, hl.congr hlink⟩ (fun k hk => ⟨?_, ?_⟩) rfl rfl ?_, ?_, hlink, ?_⟩
    · simp only [hctl, ne_eq, hne, not_false_eq_true, if_true]
    · rw [fdinfos_setFdInfo, if_neg hk]
    · exact Function.update_of_ne hk _ _
    · rw [fdinfos_setFdInfo_self]
      refine ⟨fun hc => ?_, Function.update_self _ _ _, fun hd => absurd rfl hd, hok.present⟩
      obtain ⟨-, hnext, hcl⟩ := hok.uncached hc
      exact ⟨wanted_of_none hcl, hnext, hcl⟩
    · exact kept_setFdInfo rfl (fun _ => rfl) fun _ => rfl
    · rw [fdinfos_setFdInfo_self]
      rfl

/-- **The changelist is worked off**, and the cached events are the wanted ones. -/
theorem flush_spec {n : ℕ} (h : Book s) (hl : Listed l s) (hn : l.length ≤ n) :
    ∃ s', flush n s = .ok s' ∧ Book s' ∧ Kept s s' ∧ s'.changelist = DILL_ENDLIST ∧
      ∀ fd, (s'.fdinfos fd).currevs = (s'.fdinfos fd).wanted := by
  induction l generalizing s n with
  | nil =>
    have hend : s.changelist = DILL_ENDLIST := hl.chain
    refine ⟨s, ?_, h, Kept.refl s, hend, fun fd => ?_⟩
    · unfold flush
      rw [if_pos hend]
    · by_contra hne
      have hm : fd + 1 ∈ [] := hl.mem.mpr ⟨Nat.succ_pos fd, (h.fds fd).changed hne⟩
      cases hm
  | cons k l ih =>
    obtain ⟨hhead, -⟩ := hl.chain
    change s.changelist = k at hhead
    have hk : k ∈ k :: l := List.mem_cons_self
    obtain ⟨hpos, -⟩ := h.le hl hk
    have hend : s.changelist ≠ DILL_ENDLIST := by
      rw [hhead]
      exact fun hke => h.end_notMem hl (hke ▸ hk)
    obtain ⟨fd, rfl⟩ : ∃ fd, k = fd + 1 := ⟨k - 1, by omega⟩
    cases n with
    | zero => cases hn
    | succ n =>
      obtain ⟨s₁, hs₁, hb₁, hk₁, hlink₁, hcur₁⟩ := h.update fd
      have hl₁ := Listed.tail (hl.congr hlink₁)
      have hok := hb₁.fds fd
      have hb₂ : Book ({ s₁ with changelist := (s₁.fdinfos fd).next }.setFdInfo fd fun f =>
          { f with next := 0 }) := by
        refine hb₁.change fd ⟨l, hl₁⟩ (fun k hk => ⟨?_, rfl⟩) rfl rfl ?_
        · rw [fdinfos_setFdInfo, if_neg hk]
        · rw [fdinfos_setFdInfo_self]
          refine ⟨fun hc => ?_, hok.interest, fun hne => absurd hcur₁ hne, hok.present⟩
          obtain ⟨hcur, -, hcl⟩ := hok.uncached hc
          exact ⟨hcur, rfl, hcl⟩
      have hk₂ : Kept s₁ ({ s₁ with changelist := (s₁.fdinfos fd).next }.setFdInfo fd fun f =>
          { f with next := 0 }) := kept_setFdInfo rfl (fun _ => rfl) fun _ => rfl
      obtain ⟨s', hs', hb', hk', hend', hcur'⟩ := ih hb₂ hl₁ (Nat.le_of_succ_le_succ hn)
      refine ⟨s', ?_, hb', hk₁.trans (hk₂.trans hk'), hend', hcur'⟩
      unfold flush
      rw [if_neg hend, hhead, Nat.add_sub_cancel]
      simp only [hs₁]
      exact hs'

/-! ## Cleaning -/

theorem fdinfos_setLink {p v : ℕ} : (s.setLink p v).fdinfos k =
    { s.fdinfos k with next := (s.setLink p v).link (k + 1) } := by
  cases p with
  | zero => rfl
  | succ fd =>
    rw [link_setLink]
    show (s.setFdInfo fd fun f => { f with next := v }).fdinfos k = _
    rw [fdinfos_setFdInfo]
    by_cases hk : k = fd
    · rw [if_pos hk, hk, Function.update_self]
    · rw [if_neg hk, Function.update_of_ne (by omega)]
      rfl

theorem kernel_setLink {p v : ℕ} : (s.setLink p v).kernel = s.kernel := by
  cases p with
  | zero => rfl
  | succ fd => rfl

theorem nfdinfos_setLink {p v : ℕ} : (s.setLink p v).nfdinfos = s.nfdinfos := by
  cases p with
  | zero => rfl
  | succ fd => rfl

/-- Only links change, and nobody who has to be on the changelist is lost. -/
theorem Book.relink (h : Book s) (hl : Listed l s) {l' : List ℕ} (hl' : Listed l' s')
    (hfd : ∀ k, s'.fdinfos k = { s.fdinfos k with next := s'.link (k + 1) })
    (hkernel : s'.kernel = s.kernel) (hn : s'.nfdinfos = s.nfdinfos) (hsub : ∀ k ∈ l', k ∈ l)
    (hlost : ∀ k, k + 1 ∈ l → k + 1 ∉ l' → (s.fdinfos k).currevs = (s.fdinfos k).wanted) :
    Book s' := by
  refine ⟨⟨l', hl'⟩, fun k => ?_, hn ▸ h.small⟩
  have hok := h.fds k
  rw [hfd]
  refine ⟨fun hc => ?_, ?_, fun hne => ?_, fun hc => ?_⟩
  · obtain ⟨hcur, hnext, hcl⟩ := hok.uncached hc
    refine ⟨hcur, ?_, hcl⟩
    by_contra hne
    exact (hl.mem.mp (hsub _ (hl'.mem.mpr ⟨Nat.succ_pos k, hne⟩))).2 hnext
  · rw [hkernel]
    exact hok.interest
  · have hm := hl.mem.mpr ⟨Nat.succ_pos k, hok.changed hne⟩
    by_contra hzero
    have hno : k + 1 ∉ l' := fun hm' => (hl'.mem.mp hm').2 hzero
    exact hne (hlost k hm hno)
  · rw [hkernel, hn]
    exact hok.present hc

/-- The kernel is not interested in the descriptor any more. -/
theorem Book.unregister (h : Book s) (hw : (s.fdinfos fd).wanted = 0) :
    ∃ s', unregister fd s = .ok s' ∧ Book s' ∧ Kept s s' ∧ s'.link = s.link ∧
      s'.kernel = s.kernel.register fd none ∧ (s'.fdinfos fd).currevs = 0 ∧
      ∀ k, k ≠ fd → s'.fdinfos k = s.fdinfos k := by
  have hok := h.fds fd
  obtain ⟨l, hl⟩ := h.listed
  unfold Epoll.unregister
  by_cases hzero : (s.fdinfos fd).currevs = 0
  · refine ⟨s, ?_, h, Kept.refl s, rfl, ?_, hzero, fun _ _ => rfl⟩
    · simp only [hzero, ne_eq, not_true_eq_false, if_false]
    · have hi := hok.interest
      rw [interestOf_eq_none.mpr hzero] at hi
      unfold Kernel.register
      rw [← hi, Function.update_eq_self]
  · have hi := hok.interest
    unfold interestOf at hi
    rw [if_neg hzero] at hi
    have hctl : s.kernel.epollCtl .EPOLL_CTL_DEL fd 0 = .ok (s.kernel.register fd none) := by
      unfold Kernel.epollCtl
      simp only [hi]
    have hlink : ({ s with kernel := s.kernel.register fd none }.setFdInfo fd fun f =>
        { f with currevs := 0 }).link = s.link := link_setFdInfo_same rfl
    refine ⟨_, ?_, h.change fd ⟨l, hl.congr hlink⟩ (fun k hk => ⟨?_, ?_⟩) rfl rfl ?_, ?_, hlink, rfl,
      ?_, fun k hk => ?_⟩
    · simp only [hctl, ne_eq, hzero, not_false_eq_true, if_true]
    · rw [fdinfos_setFdInfo, if_neg hk]
    · exact Function.update_of_ne hk _ _
    · rw [fdinfos_setFdInfo_self]
      refine ⟨fun hc => ?_, Function.update_self _ _ _, fun hne => absurd hw.symm hne, hok.present⟩
      obtain ⟨-, hnext, hcl⟩ := hok.uncached hc
      exact ⟨rfl, hnext, hcl⟩
    · exact kept_setFdInfo rfl (fun _ => rfl) fun _ => rfl
    · rw [fdinfos_setFdInfo_self]
    · rw [fdinfos_setFdInfo, if_neg hk]

/-- The descriptor is not on the changelist any more. -/
theorem Book.unlist (h : Book s) (hl : Listed l s)
    (hcur : (s.fdinfos fd).currevs = (s.fdinfos fd).wanted) :
    ∃ s', unlist fd s = .ok s' ∧ Book s' ∧ Kept s s' ∧ Listed (l.erase (fd + 1)) s' ∧
      s'.kernel = s.kernel ∧ ∀ k, (s'.fdinfos k).currevs = (s.fdinfos k).currevs := by
  unfold Epoll.unlist
  by_cases hn : (s.fdinfos fd).next = 0
  · have hno : fd + 1 ∉ l := fun hm => (hl.mem.mp hm).2 hn
    refine ⟨s, ?_, h, Kept.refl s, ?_, rfl, fun _ => rfl⟩
    · simp only [hn, ne_eq, not_true_eq_false, if_false]
    · rw [List.erase_of_not_mem hno]
      exact hl
  · have hm : fd + 1 ∈ l := hl.mem.mpr ⟨Nat.succ_pos fd, hn⟩
    obtain ⟨p, l₁, l₂, hsearch, heq⟩ := h.search hl hm
    have hl' := hl.unlink heq
    have hfd : ∀ k, ((s.setLink p (s.fdinfos fd).next).setLink (fd + 1) 0).fdinfos k =
        { s.fdinfos k with
          next := ((s.setLink p (s.fdinfos fd).next).setLink (fd + 1) 0).link (k + 1) } := by
      intro k
      rw [fdinfos_setLink, fdinfos_setLink]
    have hkernel : ((s.setLink p (s.fdinfos fd).next).setLink (fd + 1) 0).kernel = s.kernel := by
      rw [kernel_setLink, kernel_setLink]
    have hnfd : ((s.setLink p (s.fdinfos fd).next).setLink (fd + 1) 0).nfdinfos = s.nfdinfos := by
      rw [nfdinfos_setLink, nfdinfos_setLink]
    refine ⟨_, ?_, h.relink hl hl' hfd hkernel hnfd (fun k hk => List.mem_of_mem_erase hk) ?_, ?_,
      hl', hkernel, fun k => ?_⟩
    · simp only [hn, ne_eq, not_false_eq_true, if_true, hsearch]
      rfl
    · intro k hk hno
      have hkf : k + 1 = fd + 1 := by
        by_contra hne
        exact hno ((List.mem_erase_of_ne hne).mpr hk)
      rw [Nat.succ_injective hkf]
      exact hcur
    · refine ⟨hnfd, congrArg Kernel.refuses hkernel, fun k => ?_, ?_⟩
      · rw [hfd]
      · funext d k
        unfold Ctx.side
        rw [hfd]
    · rw [hfd]

/-- What `dill_pollset_clean` does when it succeeds: the descriptor, and nothing else, is off the
changelist `l` and out of the kernel. -/
structure Cleaned (l : List ℕ) (fd : ℕ) (s s' : Ctx) : Prop where
  listed : Listed (l.erase (fd + 1)) s'
  kernel : s'.kernel = s.kernel.register fd none
  uncached : (s'.fdinfos fd).cached = false
  others : ∀ k, k ≠ fd → (s'.fdinfos k).currevs = (s.fdinfos k).currevs ∧
    (s'.fdinfos k).cached = (s.fdinfos k).cached
  side : s'.side = s.side

theorem Kept.clause (h : Kept s s') (d : Dir) (fd : ℕ) :
    (s'.fdinfos fd).clause d = (s.fdinfos fd).clause d := congrFun (congrFun h.side d) fd

/-- A descriptor with nothing left is forgotten. -/
theorem Book.forget (h : Book s) (hl : Listed l s) (hno : fd + 1 ∉ l)
    (hcur : (s.fdinfos fd).currevs = 0) (hcl : ∀ d, (s.fdinfos fd).clause d = none) :
    Book (s.setFdInfo fd fun f => { f with cached := false }) := by
  have hok := h.fds fd
  have hnext : (s.fdinfos fd).next = 0 := by
    by_contra hne
    exact hno (hl.mem.mpr ⟨Nat.succ_pos fd, hne⟩)
  refine h.setFdInfo ⟨l, hl.congr (link_setFdInfo_same rfl)⟩
    ⟨fun _ => ⟨hcur, hnext, hcl⟩, hok.interest, fun hne => ?_, nofun⟩
  exact absurd (hcur.trans (wanted_of_none hcl).symm) hne

/-- **Cleaning** removes the descriptor, unless it is being waited for. -/
theorem Book.clean (h : Book s) (hl : Listed l s) (fd : ℕ) :
    ∃ r s', pollsetClean fd s = .ok (r, s') ∧ Book s' ∧
      (r = .ok () ∧ Cleaned l fd s s' ∨ r = .error .EBUSY ∧ s' = s) := by
  have hok := h.fds fd
  unfold pollsetClean
  cases hc : (s.fdinfos fd).cached with
  | false =>
    obtain ⟨hcur, hnext, hcl⟩ := hok.uncached hc
    have hno : fd + 1 ∉ l := fun hm => (hl.mem.mp hm).2 hnext
    refine ⟨.ok (), s, rfl, h, .inl ⟨rfl, ?_, ?_, hc, fun _ _ => ⟨rfl, rfl⟩, rfl⟩⟩
    · rw [List.erase_of_not_mem hno]
      exact hl
    · have hi := hok.interest
      rw [interestOf_eq_none.mpr hcur] at hi
      unfold Kernel.register
      rw [← hi, Function.update_eq_self]
  | true =>
    cases hb : ((s.fdinfos fd).clause .inp).isSome || ((s.fdinfos fd).clause .out).isSome with
    | true => exact ⟨.error .EBUSY, s, rfl, h, .inr ⟨rfl, rfl⟩⟩
    | false =>
      rw [Bool.or_eq_false_iff, Option.isSome_eq_false_iff, Option.isSome_eq_false_iff,
        Option.isNone_iff_eq_none, Option.isNone_iff_eq_none] at hb
      have hcl : ∀ d, (s.fdinfos fd).clause d = none := by
        intro d
        cases d with
        | inp => exact hb.1
        | out => exact hb.2
      obtain ⟨s₁, hs₁, hb₁, hk₁, hlink₁, hkernel₁, hcur₁, ho₁⟩ :=
        h.unregister (wanted_of_none hcl)
      have hcl₁ : ∀ d, (s₁.fdinfos fd).clause d = none := fun d => (hk₁.clause d fd).trans (hcl d)
      have hcw₁ : (s₁.fdinfos fd).currevs = (s₁.fdinfos fd).wanted := by
        rw [hcur₁, wanted_of_none hcl₁]
      obtain ⟨s₂, hs₂, hb₂, hk₂, hl₂, hkernel₂, hcur₂⟩ := hb₁.unlist (hl.congr hlink₁) hcw₁
      have hcl₂ : ∀ d, (s₂.fdinfos fd).clause d = none := fun d => (hk₂.clause d fd).trans (hcl₁ d)
      have hno : fd + 1 ∉ l.erase (fd + 1) := fun hm => (hl.nodup.mem_erase_iff.mp hm).1 rfl
      have hb₃ := hb₂.forget hl₂ hno ((hcur₂ fd).trans hcur₁) hcl₂
      refine ⟨.ok (), s₂.setFdInfo fd fun f => { f with cached := false }, ?_, hb₃,
        .inl ⟨rfl, hl₂.congr (link_setFdInfo_same rfl), hkernel₂.trans hkernel₁, ?_,
          fun k hk => ?_, ?_⟩⟩
      · simp only [Bool.not_true, Bool.false_eq_true, if_false, hs₁, hs₂, bind, Except.bind]
        rfl
      · rw [fdinfos_setFdInfo_self]
      · rw [fdinfos_setFdInfo, if_neg hk, hcur₂, hk₂.cached, ho₁ k hk]
        exact ⟨rfl, rfl⟩
      · exact (side_setFdInfo rfl).trans (hk₂.side.trans hk₁.side)

end Libdill.Pollset.Epoll
