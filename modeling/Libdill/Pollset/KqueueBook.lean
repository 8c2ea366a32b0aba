import Libdill.Pollset.Kqueue

/-!
# The changelist of kqueue(2)

`Book s` is the invariant of the pollset of kqueue(2): the changelist is a list without repetitions
that contains all descriptors whose filters are not the ones that are wanted, and the filters that
are registered are the cached ones.

* `book_push`, `Book.setClause`, `Book.cancelAll`: what a change of one descriptor keeps.
* `flush_spec`: the changes that work off the changelist, batch by batch.
* `Book.clean`: what cleaning does.
-/

namespace Libdill.Pollset.Kqueue

open Foundations Libdill.Sock

variable {s s' : Ctx} {d : Dir} {fd k : ℕ} {l : List ℕ}

/-! ## Links -/

theorem fdinfos_setFdInfo {f : FdInfo → FdInfo} :
    (s.setFdInfo fd f).fdinfos k = if k = fd then f (s.fdinfos fd) else s.fdinfos k := by
  unfold Ctx.setFdInfo
  exact Function.update_apply _ _ _ _

@[simp] theorem fdinfos_setFdInfo_self {f : FdInfo → FdInfo} :
    (s.setFdInfo fd f).fdinfos fd = f (s.fdinfos fd) := by
  rw [fdinfos_setFdInfo, if_pos rfl]

theorem link_eq : s.link = links FdInfo.next s.changelist s.fdinfos := by
  funext p
  cases p <;> rfl

/-- The links after a change of one descriptor. -/
theorem link_setFdInfo {f : FdInfo → FdInfo} :
    (s.setFdInfo fd f).link = Function.update s.link (fd + 1) (f (s.fdinfos fd)).next := by
  rw [link_eq, link_eq]
  exact links_update

theorem link_setFdInfo_same {f : FdInfo → FdInfo}
    (hf : (f (s.fdinfos fd)).next = (s.fdinfos fd).next) : (s.setFdInfo fd f).link = s.link := by
  rw [link_setFdInfo, hf]
  exact Function.update_eq_self (fd + 1) s.link

/-- The links after a change of the head. -/
theorem link_changelist {v : ℕ} :
    ({ s with changelist := v } : Ctx).link = Function.update s.link 0 v := by
  rw [link_eq, link_eq]
  exact links_head

theorem link_setLink {p v : ℕ} : (s.setLink p v).link = Function.update s.link p v := by
  cases p with
  | zero => exact link_changelist
  | succ k => exact link_setFdInfo

theorem link_push (hn : (s.fdinfos fd).next = 0) :
    (s.push fd).link = Function.update (Function.update s.link (fd + 1) (s.link 0)) 0 (fd + 1) := by
  unfold Ctx.push
  rw [if_pos hn, link_changelist, link_setFdInfo]
  rfl

/-- The descriptors with the numbers in `l` are on the changelist, in this order. -/
abbrev Listed (l : List ℕ) (s : Ctx) : Prop := IndexList s.link DILL_ENDLIST l

/-- A descriptor is put at the beginning of the changelist, unless it is there. -/
theorem Listed.push (h : Listed l s) (fd : ℕ) :
    ∃ l₀, Listed (l₀ ++ l) (s.push fd) ∧ fd + 1 ∈ l₀ ++ l :=
  IndexList.put h (by decide) (Nat.succ_pos fd) link_push fun hn => congrArg Ctx.link (if_neg hn)

/-! ## The invariant -/

/-- What holds of one descriptor. -/
structure FdOk (s : Ctx) (fd : ℕ) (f : FdInfo) : Prop where
  uncached : f.cached = false → f.currevs = noFlags ∧ f.next = 0 ∧ ∀ d, f.clause d = none
  registered : s.kernel.registered fd = f.currevs
  changed : f.currevs ≠ f.wanted → f.next ≠ 0
  present : f.cached = true → s.kernel.refuses fd = none ∧ fd < s.nfdinfos

/-- **The invariant of the pollset.** -/
structure Book (s : Ctx) : Prop where
  listed : ∃ l, Listed l s
  fds : ∀ fd, FdOk s fd (s.fdinfos fd)
  small : s.nfdinfos < DILL_ENDLIST

/-- The fields `in` and `out` of the descriptors. -/
def Ctx.side (s : Ctx) (d : Dir) (fd : ℕ) : Option FdClause := (s.fdinfos fd).clause d

theorem side_setFdInfo {f : FdInfo → FdInfo}
    (h : (f (s.fdinfos fd)).clause = (s.fdinfos fd).clause) : (s.setFdInfo fd f).side = s.side := by
  funext d k
  exact congrFun (apply_update_same (g := FdInfo.clause) h k) d

theorem Book.cached_of_side (h : Book s) {cl : FdClause} (hs : s.side d fd = some cl) :
    (s.fdinfos fd).cached = true := by
  cases hc : (s.fdinfos fd).cached with
  | true => rfl
  | false =>
    have hnone := ((h.fds fd).uncached hc).2.2 d
    unfold Ctx.side at hs
    rw [hs] at hnone
    cases hnone

theorem Book.cached_of_next (h : Book s) (hn : (s.fdinfos fd).next ≠ 0) :
    (s.fdinfos fd).cached = true := by
  cases hc : (s.fdinfos fd).cached with
  | true => rfl
  | false => exact absurd ((h.fds fd).uncached hc).2.1 hn

/-- Only descriptors in the table are on the changelist. -/
theorem Book.lt_nfdinfos (h : Book s) (fd : ℕ) (hn : s.link (fd + 1) ≠ 0) : fd < s.nfdinfos :=
  ((h.fds fd).present (h.cached_of_next hn)).2

theorem Book.le (h : Book s) (hl : Listed l s) (hk : k ∈ l) : 0 < k ∧ k ≤ s.nfdinfos :=
  IndexList.le h.lt_nfdinfos hl hk

theorem Book.end_notMem (h : Book s) (hl : Listed l s) : DILL_ENDLIST ∉ l :=
  IndexList.end_notMem h.lt_nfdinfos hl h.small

theorem Book.length_le (h : Book s) (hl : Listed l s) : l.length ≤ s.nfdinfos :=
  IndexList.length_le h.lt_nfdinfos hl

/-- The loop of `dill_pollset_clean` finds the link to a descriptor on the changelist. -/
theorem Book.search (h : Book s) (hl : Listed l s) (hm : fd + 1 ∈ l) :
    ∃ p l₁ l₂, search s fd (s.nfdinfos + 1) 0 = .ok p ∧ 0 :: l = l₁ ++ p :: (fd + 1) :: l₂ :=
  IndexList.search (fun _ _ => rfl) hl (h.end_notMem hl) hm (List.nil_append _).symm
    (Nat.le_succ_of_le (h.length_le hl))

/-- The kernel and one descriptor change. -/
theorem Book.change (h : Book s) (fd : ℕ) (hl : ∃ l, Listed l s')
    (ho : ∀ k, k ≠ fd → s'.fdinfos k = s.fdinfos k ∧ s'.kernel.registered k = s.kernel.registered k)
    (hr : s'.kernel.refuses = s.kernel.refuses) (hn : s'.nfdinfos = s.nfdinfos)
    (hf : FdOk s' fd (s'.fdinfos fd)) : Book s' := by
  refine ⟨hl, fun k => ?_, hn ▸ h.small⟩
  by_cases hk : k = fd
  · rw [hk]
    exact hf
  · obtain ⟨hfd, hi⟩ := ho k hk
    have hok := h.fds k
    rw [hfd]
    refine ⟨hok.uncached, hi.trans hok.registered, hok.changed, fun hc => ?_⟩
    rw [hr, hn]
    exact hok.present hc

/-- One descriptor changes. -/
theorem Book.setFdInfo (h : Book s) {f : FdInfo → FdInfo} (hl : ∃ l, Listed l (s.setFdInfo fd f))
    (hf : FdOk s fd (f (s.fdinfos fd))) : Book (s.setFdInfo fd f) := by
  refine h.change fd hl (fun k hk => ⟨?_, rfl⟩) rfl rfl ?_
  · rw [fdinfos_setFdInfo, if_neg hk]
  · rw [fdinfos_setFdInfo_self]
    exact ⟨hf.uncached, hf.registered, hf.changed, hf.present⟩

/-- Nothing changes but clauses, and the changelist gets longer. -/
structure Same (s s' : Ctx) : Prop where
  nfdinfos : s'.nfdinfos = s.nfdinfos
  kernel : s'.kernel = s.kernel
  cached : ∀ fd, (s'.fdinfos fd).cached = (s.fdinfos fd).cached
  currevs : ∀ fd, (s'.fdinfos fd).currevs = (s.fdinfos fd).currevs
  firing : ∀ fd, (s'.fdinfos fd).firing = (s.fdinfos fd).firing
  grown : ∀ {l}, Listed l s → ∃ l₀, Listed (l₀ ++ l) s'

theorem Same.refl (s : Ctx) : Same s s :=
  ⟨rfl, rfl, fun _ => rfl, fun _ => rfl, fun _ => rfl, fun h => ⟨[], h⟩⟩

theorem Same.trans {s'' : Ctx} (h : Same s s') (h' : Same s' s'') : Same s s'' := by
  refine ⟨h'.nfdinfos.trans h.nfdinfos, h'.kernel.trans h.kernel,
    fun fd => (h'.cached fd).trans (h.cached fd), fun fd => (h'.currevs fd).trans (h.currevs fd),
    fun fd => (h'.firing fd).trans (h.firing fd), fun hl => ?_⟩
  obtain ⟨l₁, hl₁⟩ := h.grown hl
  obtain ⟨l₂, hl₂⟩ := h'.grown hl₁
  refine ⟨l₂ ++ l₁, ?_⟩
  rw [List.append_assoc]
  exact hl₂

theorem fdinfos_push : (s.push fd).fdinfos k =
    if k = fd ∧ (s.fdinfos fd).next = 0 then { s.fdinfos fd with next := s.changelist }
    else s.fdinfos k := by
  unfold Ctx.push
  by_cases hn : (s.fdinfos fd).next = 0
  · rw [if_pos hn]
    show (s.setFdInfo fd fun f => { f with next := s.changelist }).fdinfos k = _
    rw [fdinfos_setFdInfo]
    by_cases hk : k = fd
    · rw [if_pos hk, if_pos ⟨hk, hn⟩]
    · rw [if_neg hk, if_neg fun h => hk h.1]
  · rw [if_neg hn, if_neg fun h => hn h.2]

theorem fdinfos_push_ne (hk : k ≠ fd) : (s.push fd).fdinfos k = s.fdinfos k := by
  rw [fdinfos_push, if_neg fun h => hk h.1]

theorem same_push (s : Ctx) (fd : ℕ) : Same s (s.push fd) ∧ (s.push fd).side = s.side := by
  have hgrown : ∀ {l}, Listed l s → ∃ l₀, Listed (l₀ ++ l) (s.push fd) := by
    intro l hl
    obtain ⟨l₀, hl₀, -⟩ := Listed.push hl fd
    exact ⟨l₀, hl₀⟩
  by_cases hn : (s.fdinfos fd).next = 0
  · have hpush : s.push fd = { s.setFdInfo fd fun f => { f with next := s.changelist } with
        changelist := fd + 1 } := if_pos hn
    rw [hpush] at hgrown ⊢
    exact ⟨⟨rfl, rfl, apply_update_same (g := FdInfo.cached) rfl,
      apply_update_same (g := FdInfo.currevs) rfl, apply_update_same (g := FdInfo.firing) rfl, hgrown⟩,
      side_setFdInfo (f := fun f => { f with next := s.changelist }) rfl⟩
  · have hpush : s.push fd = s := if_neg hn
    rw [hpush]
    exact ⟨Same.refl s, rfl⟩

/-- A descriptor whose filters may be out of date is put on the changelist. -/
theorem book_push (fd : ℕ) (hl : ∃ l, Listed l s) (hsmall : s.nfdinfos < DILL_ENDLIST)
    (ho : ∀ k, k ≠ fd → FdOk s k (s.fdinfos k)) (hc : (s.fdinfos fd).cached = true)
    (hi : s.kernel.registered fd = (s.fdinfos fd).currevs)
    (hp : s.kernel.refuses fd = none ∧ fd < s.nfdinfos) :
    Book (s.push fd) ∧ ((s.push fd).fdinfos fd).next ≠ 0 := by
  obtain ⟨l, hl⟩ := hl
  obtain ⟨l₀, hl', hm⟩ := Listed.push hl fd
  obtain ⟨hsame, hside⟩ := same_push s fd
  have hnext : ((s.push fd).fdinfos fd).next ≠ 0 := (hl'.mem.mp hm).2
  refine ⟨⟨⟨l₀ ++ l, hl'⟩, fun k => ?_, hsame.nfdinfos ▸ hsmall⟩, hnext⟩
  by_cases hk : k = fd
  · subst hk
    refine ⟨fun hno => ?_, ?_, fun _ => hnext, fun _ => ?_⟩
    · rw [hsame.cached, hc] at hno
      cases hno
    · rw [hsame.kernel, hsame.currevs]
      exact hi
    · rw [hsame.kernel, hsame.nfdinfos]
      exact hp
  · rw [fdinfos_push_ne hk]
    have hok := ho k hk
    refine ⟨hok.uncached, ?_, hok.changed, fun h => ?_⟩
    · rw [hsame.kernel]
      exact hok.registered
    · rw [hsame.kernel, hsame.nfdinfos]
      exact hok.present h

theorem Book.push (h : Book s) (hc : (s.fdinfos fd).cached = true) :
    Book (s.push fd) ∧ ((s.push fd).fdinfos fd).next ≠ 0 :=
  book_push fd h.listed h.small (fun k _ => h.fds k) hc (h.fds fd).registered ((h.fds fd).present hc)

/-- A change of one descriptor that is not seen. -/
theorem same_setFdInfo {f : FdInfo → FdInfo} (hc : (f (s.fdinfos fd)).cached = (s.fdinfos fd).cached)
    (hcur : (f (s.fdinfos fd)).currevs = (s.fdinfos fd).currevs)
    (hf : (f (s.fdinfos fd)).firing = (s.fdinfos fd).firing)
    (hn : (f (s.fdinfos fd)).next = (s.fdinfos fd).next) : Same s (s.setFdInfo fd f) :=
  ⟨rfl, rfl, apply_update_same (g := FdInfo.cached) hc, apply_update_same (g := FdInfo.currevs) hcur,
    apply_update_same (g := FdInfo.firing) hf, fun hl => ⟨[], hl.congr (link_setFdInfo_same hn)⟩⟩

theorem side_setClause {d' : Dir} {cl : Option FdClause} :
    (s.setFdInfo fd fun f => f.setClause d cl).side d' k =
      if (d', k) = (d, fd) then cl else s.side d' k :=
  @clause_update _ _ _ FdInfo.clause _ _ _ rfl d' k

/-- A clause changes while the descriptor is on the changelist. -/
theorem Book.setClause (h : Book s) (hn : (s.fdinfos fd).next ≠ 0) {cl : Option FdClause} :
    Book (s.setFdInfo fd fun f => f.setClause d cl) := by
  obtain ⟨l, hl⟩ := h.listed
  have hok := h.fds fd
  refine h.setFdInfo ⟨l, hl.congr (link_setFdInfo_same rfl)⟩
    ⟨fun hc => ?_, hok.registered, fun _ => hn, hok.present⟩
  exact absurd (hok.uncached hc).2.1 hn

/-! ## Cancelling -/

/-- The clauses of a list are gone, and their descriptors are on the changelist. -/
structure Cancelled (l : List (Dir × ℕ)) (s s' : Ctx) : Prop where
  book : Book s'
  same : Same s s'
  side : s'.side = without l s.side

theorem Book.fdcancel (h : Book s) (hc : (s.fdinfos fd).cached = true) :
    ∃ s', fdcancel d fd s = .ok s' ∧ Cancelled [(d, fd)] s s' := by
  obtain ⟨l, hl⟩ := h.listed
  have hsame : Same s (s.setFdInfo fd fun f => f.setClause d none) :=
    same_setFdInfo rfl rfl rfl rfl
  have hok := h.fds fd
  have hbook := book_push (s := s.setFdInfo fd fun f => f.setClause d none) fd
    ⟨l, hl.congr (link_setFdInfo_same rfl)⟩ h.small (fun k hk => by
      rw [fdinfos_setFdInfo, if_neg hk]
      exact ⟨(h.fds k).uncached, (h.fds k).registered, (h.fds k).changed, (h.fds k).present⟩)
    ((hsame.cached fd).trans hc) (by rw [hsame.currevs]; exact hok.registered) (hok.present hc)
  refine ⟨_, rfl, hbook.1, hsame.trans (same_push _ fd).1, ?_⟩
  rw [(same_push _ fd).2, without_singleton]
  funext d' k
  exact side_setClause

theorem Book.cancelAll {l : List (Dir × ℕ)} (h : Book s)
    (hl : ∀ x ∈ l, (s.fdinfos x.2).cached = true) :
    ∃ s', cancelAll Kqueue.fdcancel l s = .ok s' ∧ Cancelled l s s' := by
  refine @cancelAll_spec _ Kqueue.fdcancel Book (fun fd s => (s.fdinfos fd).cached = true) Cancelled
    (fun s hs => ⟨hs, Same.refl s, rfl⟩) (fun d fd s hs hc => hs.fdcancel hc) ?_ ?_ l s h hl
  · intro l s s' _ hc
    exact ⟨hc.book, fun fd hfd => (hc.same.cached fd).trans hfd⟩
  · intro d fd l s s₁ s₂ h₁ h₂
    exact ⟨h₂.book, h₁.same.trans h₂.same, by rw [h₂.side, h₁.side, without_cons]⟩

/-! ## Working off the changelist -/

variable {chngs : List Change} {kernel : Kernel}

theorem kevent_concat {c : Change} {k k' : Kernel} (h : k.kevent chngs = .ok kernel)
    (hc : kernel.apply c = .ok k') : k.kevent (chngs ++ [c]) = .ok k' := by
  induction chngs generalizing k with
  | nil =>
    cases h
    show (kernel.apply c >>= Kernel.kevent []) = .ok k'
    rw [hc]
    rfl
  | cons c₀ cs ih =>
    have hstep : (k.apply c₀ >>= Kernel.kevent cs) = .ok kernel := h
    show (k.apply c₀ >>= Kernel.kevent (cs ++ [c])) = .ok k'
    cases hk : k.apply c₀ with
    | error e =>
      rw [hk] at hstep
      cases hstep
    | ok k₁ =>
      rw [hk] at hstep
      exact ih hstep

/-- When `chngs` has been applied the kernel is in the state `kernel`, and the pollset is in order. -/
structure Pending (s : Ctx) (chngs : List Change) (kernel : Kernel) : Prop where
  applied : s.kernel.kevent chngs = .ok kernel
  refuses : kernel.refuses = s.kernel.refuses
  book : Book { s with kernel := kernel }

theorem link_kernel : ({ s with kernel := kernel } : Ctx).link = s.link := by
  funext p
  cases p with
  | zero => rfl
  | succ fd => rfl

/-- A change of one filter that the kernel does not refuse. -/
theorem apply_eq {on : Bool} (hr : kernel.refuses fd = none)
    (hne : on ≠ kernel.registered fd d) : kernel.apply ⟨fd, d, on⟩
      = .ok (kernel.register fd (Function.update (kernel.registered fd) d on)) := by
  unfold Kernel.apply
  cases on with
  | true => simp only [if_true, hr]
  | false =>
    have hreg : kernel.registered fd d = true := by
      cases h : kernel.registered fd d with
      | true => rfl
      | false =>
        rw [h] at hne
        exact absurd rfl hne
    simp only [Bool.false_eq_true, if_false, hreg, if_true]

/-- The cached filters of one direction are the wanted ones. -/
def FdInfo.settle (f : FdInfo) (d : Dir) : FdInfo := f.setCurrevs d (f.wanted d)

theorem settle_of_eq {f : FdInfo} (h : f.currevs d = f.wanted d) : f.settle d = f := by
  obtain ⟨clause, currevs, firing, next, cached⟩ := f
  unfold FdInfo.settle FdInfo.setCurrevs
  rw [← h]
  simp only [Function.update_eq_self]

theorem setFdInfo_of_eq {f : FdInfo → FdInfo} (h : f (s.fdinfos fd) = s.fdinfos fd) :
    s.setFdInfo fd f = s := by
  unfold Ctx.setFdInfo
  rw [h, Function.update_eq_self]

theorem Book.settle (h : Book s) (hn : (s.fdinfos fd).next ≠ 0) :
    Book { s.setFdInfo fd (fun f => f.settle d) with
      kernel := s.kernel.register fd (Function.update (s.kernel.registered fd) d
        ((s.fdinfos fd).wanted d)) } := by
  obtain ⟨l, hl⟩ := h.listed
  have hok := h.fds fd
  refine h.change fd ⟨l, hl.congr (link_kernel.trans (link_setFdInfo_same rfl))⟩
    (fun k hk => ⟨?_, ?_⟩) rfl rfl ?_
  · show (s.setFdInfo fd fun f => f.settle d).fdinfos k = s.fdinfos k
    rw [fdinfos_setFdInfo, if_neg hk]
  · exact Function.update_of_ne hk _ _
  · show FdOk _ fd ((s.setFdInfo fd fun f => f.settle d).fdinfos fd)
    rw [fdinfos_setFdInfo_self]
    refine ⟨fun hc => absurd (hok.uncached hc).2.1 hn, ?_, fun _ => hn, hok.present⟩
    show Function.update s.kernel.registered fd _ fd = _
    rw [Function.update_self, hok.registered]
    rfl

/-- One direction of a descriptor is brought up to date, with at most one more change. -/
theorem Pending.update (h : Pending s chngs kernel) (hlen : chngs.length < DILL_CHNGSSIZE)
    (hc : (s.fdinfos fd).cached = true) (hn : (s.fdinfos fd).next ≠ 0) (d : Dir) :
    ∃ chngs' kernel', update d fd (s, chngs) = .ok (s.setFdInfo fd fun f => f.settle d, chngs') ∧
      Pending (s.setFdInfo fd fun f => f.settle d) chngs' kernel' ∧
      chngs'.length ≤ chngs.length + 1 := by
  have hok : FdOk _ fd (s.fdinfos fd) := h.book.fds fd
  have hreg : kernel.registered fd = (s.fdinfos fd).currevs := hok.registered
  have hrefuses : kernel.refuses fd = none := (hok.present hc).1
  by_cases heq : (s.fdinfos fd).currevs d = (s.fdinfos fd).wanted d
  · have hsame : (s.setFdInfo fd fun f => f.settle d) = s := setFdInfo_of_eq (settle_of_eq heq)
    rw [hsame]
    refine ⟨chngs, kernel, ?_, h, Nat.le_succ _⟩
    have hsome : ((s.fdinfos fd).clause d).isSome = (s.fdinfos fd).currevs d := heq.symm
    unfold Kqueue.update
    simp only [hsome]
    cases (s.fdinfos fd).currevs d <;> rfl
  · have hput : put ⟨fd, d, (s.fdinfos fd).wanted d⟩ chngs
        = .ok (chngs ++ [⟨fd, d, (s.fdinfos fd).wanted d⟩]) := by
      unfold put
      rw [if_pos hlen]
    have hne : (s.fdinfos fd).wanted d ≠ kernel.registered fd d := by
      rw [hreg]
      exact Ne.symm heq
    have happly := apply_eq hrefuses hne
    refine ⟨_, _, ?_, ⟨kevent_concat h.applied happly, h.refuses, h.book.settle hn⟩, ?_⟩
    · have hclause : ((s.fdinfos fd).clause d).isSome = (s.fdinfos fd).wanted d := rfl
      have hset : (s.setFdInfo fd fun f => f.setCurrevs d ((s.fdinfos fd).wanted d))
          = s.setFdInfo fd fun f => f.settle d := rfl
      rw [← hset]
      unfold Kqueue.update
      simp only [hclause]
      cases hw : (s.fdinfos fd).wanted d with
      | true =>
        rw [hw] at hput heq
        rw [if_pos rfl, if_neg heq, hput]
        rfl
      | false =>
        rw [hw] at hput heq
        rw [if_neg Bool.false_ne_true, if_pos (Bool.not_eq_false _ ▸ heq), hput]
        rfl
    · rw [List.length_append]
      exact Nat.le_refl _

/-- Nothing fires. -/
def Quiet (s : Ctx) : Prop := ∀ fd, (s.fdinfos fd).firing = noFlags

/-- Nothing changes but cached filters, the filters that are registered, what fires and the
changelist. -/
structure Kept (s s' : Ctx) : Prop where
  nfdinfos : s'.nfdinfos = s.nfdinfos
  refuses : s'.kernel.refuses = s.kernel.refuses
  cached : ∀ fd, (s'.fdinfos fd).cached = (s.fdinfos fd).cached
  side : s'.side = s.side

theorem Kept.refl (s : Ctx) : Kept s s := ⟨rfl, rfl, fun _ => rfl, rfl⟩

theorem Kept.trans {s'' : Ctx} (h : Kept s s') (h' : Kept s' s'') : Kept s s'' :=
  ⟨h'.nfdinfos.trans h.nfdinfos, h'.refuses.trans h.refuses,
    fun fd => (h'.cached fd).trans (h.cached fd), h'.side.trans h.side⟩

theorem Kept.clause (h : Kept s s') (d : Dir) (fd : ℕ) :
    (s'.fdinfos fd).clause d = (s.fdinfos fd).clause d := congrFun (congrFun h.side d) fd

/-- A change of a descriptor that leaves its clauses and the flag as they are. -/
theorem kept_setFdInfo {head : ℕ} {f : FdInfo → FdInfo}
    (hr : kernel.refuses = s.kernel.refuses)
    (hc : ∀ f₀, (f f₀).cached = f₀.cached) (hcl : ∀ f₀, (f f₀).clause = f₀.clause) :
    Kept s ({ s with kernel := kernel, changelist := head }.setFdInfo fd f) :=
  ⟨rfl, hr, apply_update_same (g := FdInfo.cached) (hc _), side_setFdInfo (hcl _)⟩

theorem Quiet.setFdInfo (h : Quiet s) {f : FdInfo → FdInfo}
    (hf : (f (s.fdinfos fd)).firing = noFlags) : Quiet (s.setFdInfo fd f) := by
  intro k
  rw [fdinfos_setFdInfo]
  split
  · exact hf
  · exact h k

/-- The batch goes to the kernel when it is full. -/
theorem Pending.makeRoom (h : Pending s chngs kernel) :
    ∃ chngs' kernel', makeRoom (s, chngs) = .ok ({ s with kernel := kernel' }, chngs') ∧
      Pending { s with kernel := kernel' } chngs' kernel ∧ chngs'.length + 2 ≤ DILL_CHNGSSIZE := by
  unfold Kqueue.makeRoom
  by_cases hfull : chngs.length ≥ DILL_CHNGSSIZE - 1
  · refine ⟨[], kernel, ?_, ⟨rfl, rfl, h.book⟩, by decide⟩
    rw [if_pos hfull]
    unfold Ctx.kevent
    simp only [h.applied]
    rfl
  · refine ⟨chngs, s.kernel, ?_, h, ?_⟩
    · rw [if_neg hfull]
    · unfold DILL_CHNGSSIZE at hfull ⊢
      omega

theorem wanted_of_none {f : FdInfo} (h : ∀ d, f.clause d = none) : f.wanted = noFlags := by
  funext d
  unfold FdInfo.wanted
  rw [h]
  rfl

/-- The first descriptor is taken off the changelist. -/
theorem Book.takeOff (h : Book s) (hl : Listed ((fd + 1) :: l) s)
    (hcur : (s.fdinfos fd).currevs = (s.fdinfos fd).wanted) :
    Listed l ({ s with changelist := (s.fdinfos fd).next }.setFdInfo fd fun f =>
      { f with firing := noFlags, next := 0 }) ∧
    Book ({ s with changelist := (s.fdinfos fd).next }.setFdInfo fd fun f =>
      { f with firing := noFlags, next := 0 }) := by
  have hok := h.fds fd
  have hl' : Listed l ({ s with changelist := (s.fdinfos fd).next }.setFdInfo fd fun f =>
      { f with firing := noFlags, next := 0 }) := by
    unfold Listed
    rw [link_setFdInfo, link_changelist]
    exact IndexList.tail hl
  refine ⟨hl', h.change fd ⟨l, hl'⟩ (fun k hk => ⟨?_, rfl⟩) rfl rfl ?_⟩
  · rw [fdinfos_setFdInfo, if_neg hk]
  · rw [fdinfos_setFdInfo_self]
    refine ⟨fun hc => ?_, hok.registered, fun hne => absurd hcur hne, hok.present⟩
    obtain ⟨hnone, -, hcl⟩ := hok.uncached hc
    exact ⟨hnone, rfl, hcl⟩

/-- Both directions of a descriptor are brought up to date. -/
theorem Pending.updates (h : Pending s chngs kernel) (hlen : chngs.length + 2 ≤ DILL_CHNGSSIZE)
    (hq : Quiet s) (hc : (s.fdinfos fd).cached = true) (hn : (s.fdinfos fd).next ≠ 0) :
    ∃ s' chngs' kernel', (Kqueue.update .inp fd (s, chngs) >>= Kqueue.update .out fd)
        = .ok (s', chngs') ∧
      Pending s' chngs' kernel' ∧ chngs'.length ≤ DILL_CHNGSSIZE ∧ Quiet s' ∧ Kept s s' ∧
      s'.link = s.link ∧ (s'.fdinfos fd).currevs = (s'.fdinfos fd).wanted := by
  have hkept : ∀ (s : Ctx) (d : Dir), Kept s (s.setFdInfo fd fun f => f.settle d) :=
    fun s d => kept_setFdInfo rfl (fun _ => rfl) fun _ => rfl
  have hlink : ∀ (s : Ctx) (d : Dir), (s.setFdInfo fd fun f => f.settle d).link = s.link :=
    fun s d => link_setFdInfo_same rfl
  obtain ⟨c₁, κ₁, hx₁, hp₁, hlen₁⟩ := h.update (d := .inp) (by omega) hc hn
  have hc₁ : ((s.setFdInfo fd fun f => f.settle .inp).fdinfos fd).cached = true :=
    ((hkept s .inp).cached fd).trans hc
  have hn₁ : ((s.setFdInfo fd fun f => f.settle .inp).fdinfos fd).next ≠ 0 := by
    rw [fdinfos_setFdInfo_self]
    exact hn
  have hq₁ : Quiet (s.setFdInfo fd fun f => f.settle .inp) := hq.setFdInfo (hq fd)
  obtain ⟨c₂, κ₂, hx₂, hp₂, hlen₂⟩ := hp₁.update (d := .out) (by omega) hc₁ hn₁
  refine ⟨_, c₂, κ₂, ?_, hp₂, by omega, hq₁.setFdInfo (hq₁ fd),
    (hkept s .inp).trans (hkept _ .out), (hlink _ .out).trans (hlink s .inp), ?_⟩
  · rw [hx₁]
    exact hx₂
  · rw [fdinfos_setFdInfo_self, fdinfos_setFdInfo_self]
    funext d
    unfold FdInfo.settle FdInfo.setCurrevs
    cases d with
    | inp =>
      simp only [ne_eq, reduceCtorEq, not_false_eq_true, Function.update_of_ne,
        Function.update_self]
      rfl
    | out =>
      simp only [Function.update_self]
      rfl

/-- **The changelist is worked off.** No batch is too long, and the cached filters are the wanted
ones. -/
theorem flush_spec {n : ℕ} (h : Pending s chngs kernel) (hq : Quiet s) (hl : Listed l s)
    (hn : l.length ≤ n) (hlen : chngs.length ≤ DILL_CHNGSSIZE) :
    ∃ s' chngs' kernel', flush n (s, chngs) = .ok (s', chngs') ∧ Pending s' chngs' kernel' ∧
      chngs'.length ≤ DILL_CHNGSSIZE ∧ Quiet s' ∧ Kept s s' ∧ s'.changelist = DILL_ENDLIST ∧
      ∀ fd, (s'.fdinfos fd).currevs = (s'.fdinfos fd).wanted := by
  induction l generalizing s chngs kernel n with
  | nil =>
    have hend : s.changelist = DILL_ENDLIST := hl.chain
    refine ⟨s, chngs, kernel, ?_, h, hlen, hq, Kept.refl s, hend, fun fd => ?_⟩
    · unfold flush
      rw [if_pos hend]
    · by_contra hne
      have hm : fd + 1 ∈ [] := hl.mem.mpr ⟨Nat.succ_pos fd, (h.book.fds fd).changed hne⟩
      cases hm
  | cons k l ih =>
    obtain ⟨hhead, -⟩ := hl.chain
    have hk : k ∈ k :: l := List.mem_cons_self
    have hlb : Listed (k :: l) { s with kernel := kernel } := hl.congr link_kernel
    obtain ⟨hpos, -⟩ := h.book.le hlb hk
    have hend : s.changelist ≠ DILL_ENDLIST := by
      have hhead' : s.changelist = k := hhead
      rw [hhead']
      exact fun hke => h.book.end_notMem hlb (hke ▸ hk)
    obtain ⟨fd, rfl⟩ : ∃ fd, k = fd + 1 := ⟨k - 1, by omega⟩
    have hnext : (s.fdinfos fd).next ≠ 0 := (hl.mem.mp hk).2
    cases n with
    | zero => cases hn
    | succ n =>
      obtain ⟨c₁, κ₁, hx₁, hp₁, hroom⟩ := h.makeRoom
      have hcached : (s.fdinfos fd).cached = true := h.book.cached_of_next hnext
      obtain ⟨s₂, c₂, κ₂, hx₂, hp₂, hlen₂, hq₂, hk₂, hlink₂, hcur₂⟩ :=
        hp₁.updates hroom hq hcached hnext
      have hl₂ : Listed ((fd + 1) :: l) { s₂ with kernel := κ₂ } :=
        hl.congr (link_kernel.trans (hlink₂.trans link_kernel))
      obtain ⟨hl₃, hb₃⟩ := hp₂.book.takeOff hl₂ hcur₂
      have hp₃ : Pending ({ s₂ with changelist := (s₂.fdinfos fd).next }.setFdInfo fd fun f =>
          { f with firing := noFlags, next := 0 }) c₂ κ₂ := ⟨hp₂.applied, hp₂.refuses, hb₃⟩
      have hq₃ : Quiet ({ s₂ with changelist := (s₂.fdinfos fd).next }.setFdInfo fd fun f =>
          { f with firing := noFlags, next := 0 }) :=
        Quiet.setFdInfo (s := { s₂ with changelist := (s₂.fdinfos fd).next }) hq₂ rfl
      have hk₃ : Kept s₂ ({ s₂ with changelist := (s₂.fdinfos fd).next }.setFdInfo fd fun f =>
          { f with firing := noFlags, next := 0 }) := kept_setFdInfo rfl (fun _ => rfl) fun _ => rfl
      obtain ⟨s', c', κ', hs', hp', hlen', hq', hk', hend', hcur'⟩ :=
        ih hp₃ hq₃ (hl₃.congr link_kernel.symm) (Nat.le_of_succ_le_succ hn) hlen₂
      have hk₁ : Kept s { s with kernel := κ₁ } :=
        ⟨rfl, hp₁.refuses.symm.trans h.refuses, fun _ => rfl, rfl⟩
      have hfd : s.changelist - 1 = fd := by
        have hhead' : s.changelist = fd + 1 := hhead
        rw [hhead', Nat.add_sub_cancel]
      refine ⟨s', c', κ', ?_, hp', hlen', hq', hk₁.trans (hk₂.trans (hk₃.trans hk')), hend', hcur'⟩
      unfold flush
      rw [if_neg hend, hx₁]
      simp only
      show (Kqueue.update .inp (s.changelist - 1) ({ s with kernel := κ₁ }, c₁) >>= fun x =>
        Kqueue.update .out (s.changelist - 1) x >>= _) = _
      rw [hfd, ← bind_assoc, hx₂]
      exact hs'

/-! ## Cleaning -/

theorem flags_ext {f g : Flags} (hi : f .inp = g .inp) (ho : f .out = g .out) : f = g := by
  funext d
  cases d with
  | inp => exact hi
  | out => exact ho

theorem register_register {f g : Flags} :
    (kernel.register fd f).register fd g = kernel.register fd g := by
  unfold Kernel.register
  simp only [Function.update_idem]

theorem register_self {f : Flags} (h : kernel.registered fd = f) : kernel.register fd f = kernel := by
  unfold Kernel.register
  rw [← h, Function.update_eq_self]

theorem apply_delete {d : Dir} (h : kernel.registered fd d = true) :
    kernel.apply ⟨fd, d, false⟩
      = .ok (kernel.register fd (Function.update (kernel.registered fd) d false)) := by
  unfold Kernel.apply
  simp only [Bool.false_eq_true, if_false, h, if_true]

/-- What is registered can be removed. -/
theorem kevent_deletes {f : Flags} (h : kernel.registered fd = f) :
    kernel.kevent (deletes fd f) = .ok (kernel.register fd noFlags) := by
  unfold deletes
  cases hi : f .inp with
  | false =>
    cases ho : f .out with
    | false =>
      have hnone : kernel.registered fd = noFlags := h.trans (flags_ext hi ho)
      rw [register_self hnone]
      rfl
    | true =>
      have hout : kernel.registered fd .out = true := by rw [h, ho]
      have hflags : Function.update (kernel.registered fd) .out false = noFlags :=
        flags_ext (by rw [h]; exact hi) (Function.update_self _ _ _)
      show (kernel.apply ⟨fd, .out, false⟩ >>= Kernel.kevent []) = _
      rw [apply_delete hout, hflags]
      rfl
  | true =>
    have hin : kernel.registered fd .inp = true := by rw [h, hi]
    cases ho : f .out with
    | false =>
      have hflags : Function.update (kernel.registered fd) .inp false = noFlags :=
        flags_ext (Function.update_self _ _ _) (by rw [h]; exact ho)
      show (kernel.apply ⟨fd, .inp, false⟩ >>= Kernel.kevent []) = _
      rw [apply_delete hin, hflags]
      rfl
    | true =>
      have hreg : (kernel.register fd (Function.update (kernel.registered fd) .inp false)).registered fd
          = Function.update (kernel.registered fd) .inp false := Function.update_self _ _ _
      have hout : (kernel.register fd
          (Function.update (kernel.registered fd) .inp false)).registered fd .out = true := by
        rw [hreg, h]
        exact ho
      have hflags : Function.update (Function.update (kernel.registered fd) .inp false) .out false
          = noFlags := flags_ext rfl rfl
      show (kernel.apply ⟨fd, .inp, false⟩ >>= fun k => k.apply ⟨fd, .out, false⟩ >>=
        Kernel.kevent []) = _
      rw [apply_delete hin]
      show (Kernel.apply _ ⟨fd, .out, false⟩ >>= Kernel.kevent []) = _
      rw [apply_delete hout, hreg, hflags, register_register]
      rfl

/-- The filters of the descriptor are removed. -/
theorem Book.unregister (h : Book s) (hq : Quiet s) (hw : (s.fdinfos fd).wanted = noFlags) :
    ∃ s', unregister fd s = .ok s' ∧ Book s' ∧ Quiet s' ∧ Kept s s' ∧ s'.link = s.link ∧
      s'.kernel = s.kernel.register fd noFlags ∧ (s'.fdinfos fd).currevs = noFlags ∧
      ∀ k, k ≠ fd → s'.fdinfos k = s.fdinfos k := by
  have hok := h.fds fd
  obtain ⟨l, hl⟩ := h.listed
  have hkevent := kevent_deletes hok.registered
  have hcall : s.kevent (deletes fd (s.fdinfos fd).currevs)
      = .ok { s with kernel := s.kernel.register fd noFlags } := by
    unfold Ctx.kevent
    rw [hkevent]
  have hlink : ({ s with kernel := s.kernel.register fd noFlags }.setFdInfo fd fun f =>
      { f with currevs := noFlags }).link = s.link := (link_setFdInfo_same rfl).trans link_kernel
  refine ⟨_, ?_, h.change fd ⟨l, hl.congr hlink⟩ (fun k hk => ⟨?_, ?_⟩) rfl rfl ?_,
    Quiet.setFdInfo (s := { s with kernel := s.kernel.register fd noFlags }) hq (hq fd),
    kept_setFdInfo rfl (fun _ => rfl) fun _ => rfl, hlink, rfl, ?_, fun k hk => ?_⟩
  · unfold Kqueue.unregister
    by_cases hnil : deletes fd (s.fdinfos fd).currevs = []
    · rw [hnil] at hkevent
      have hkernel : s.kernel = s.kernel.register fd noFlags := Except.ok.inj hkevent
      rw [hnil, if_neg (fun hne => hne rfl), ← hkernel]
      rfl
    · rw [if_pos hnil, hcall]
      rfl
  · rw [fdinfos_setFdInfo, if_neg hk]
  · exact Function.update_of_ne hk _ _
  · rw [fdinfos_setFdInfo_self]
    refine ⟨fun hc => ?_, Function.update_self _ _ _, fun hne => absurd hw.symm hne, hok.present⟩
    obtain ⟨-, hnext, hcl⟩ := hok.uncached hc
    exact ⟨rfl, hnext, hcl⟩
  · rw [fdinfos_setFdInfo_self]
  · rw [fdinfos_setFdInfo, if_neg hk]

theorem fdinfos_setLink {p v : ℕ} : (s.setLink p v).fdinfos k =
    { s.fdinfos k with next := (s.setLink p v).link (k + 1) } := by
  cases p with
  | zero => rfl
  | succ fd =>
    rw [link_setLink]
    show (s.setFdInfo fd fun f => { f with next := v }).fdinfos k = _
    rw [fdinfos_setFdInfo]
    by_cases hk : k = fd
    · rw [if_pos hk, hk, Function.update_self]
    · rw [if_neg hk, Function.update_of_ne (by omega)]
      rfl

theorem setLink_fields {p v : ℕ} :
    (s.setLink p v).kernel = s.kernel ∧ (s.setLink p v).nfdinfos = s.nfdinfos := by
  cases p with
  | zero => exact ⟨rfl, rfl⟩
  | succ fd => exact ⟨rfl, rfl⟩

/-- Only links change, and nobody who has to be on the changelist is lost. -/
theorem Book.relink (h : Book s) (hl : Listed l s) {l' : List ℕ} (hl' : Listed l' s')
    (hfd : ∀ k, s'.fdinfos k = { s.fdinfos k with next := s'.link (k + 1) })
    (hkernel : s'.kernel = s.kernel) (hn : s'.nfdinfos = s.nfdinfos) (hsub : ∀ k ∈ l', k ∈ l)
    (hlost : ∀ k, k + 1 ∈ l → k + 1 ∉ l' → (s.fdinfos k).currevs = (s.fdinfos k).wanted) :
    Book s' := by
  refine ⟨⟨l', hl'⟩, fun k => ?_, hn ▸ h.small⟩
  have hok := h.fds k
  rw [hfd]
  refine ⟨fun hc => ?_, ?_, fun hne => ?_, fun hc => ?_⟩
  · obtain ⟨hcur, hnext, hcl⟩ := hok.uncached hc
    refine ⟨hcur, ?_, hcl⟩
    by_contra hne
    exact (hl.mem.mp (hsub _ (hl'.mem.mpr ⟨Nat.succ_pos k, hne⟩))).2 hnext
  · rw [hkernel]
    exact hok.registered
  · have hm := hl.mem.mpr ⟨Nat.succ_pos k, hok.changed hne⟩
    by_contra hzero
    have hno : k + 1 ∉ l' := fun hm' => (hl'.mem.mp hm').2 hzero
    exact hne (hlost k hm hno)
  · rw [hkernel, hn]
    exact hok.present hc

/-- The descriptor is not on the changelist any more. -/
theorem Book.unlist (h : Book s) (hq : Quiet s) (hl : Listed l s)
    (hcur : (s.fdinfos fd).currevs = (s.fdinfos fd).wanted) :
    ∃ s', unlist fd s = .ok s' ∧ Book s' ∧ Quiet s' ∧ Kept s s' ∧ Listed (l.erase (fd + 1)) s' ∧
      s'.kernel = s.kernel ∧ (s'.fdinfos fd).currevs = (s.fdinfos fd).currevs := by
  unfold Kqueue.unlist
  by_cases hn : (s.fdinfos fd).next = 0
  · have hno : fd + 1 ∉ l := fun hm => (hl.mem.mp hm).2 hn
    refine ⟨s, ?_, h, hq, Kept.refl s, ?_, rfl, rfl⟩
    · simp only [hn, ne_eq, not_true_eq_false, if_false]
    · rw [List.erase_of_not_mem hno]
      exact hl
  · have hm : fd + 1 ∈ l := hl.mem.mpr ⟨Nat.succ_pos fd, hn⟩
    obtain ⟨p, l₁, l₂, hsearch, heq⟩ := h.search hl hm
    have hlink : ((s.setLink p (s.fdinfos fd).next).setLink (fd + 1) 0).link
        = Function.update (Function.update s.link p (s.link (fd + 1))) (fd + 1) 0 := by
      rw [link_setLink, link_setLink]
      rfl
    have hl' : Listed (l.erase (fd + 1))
        ((s.setLink p (s.fdinfos fd).next).setLink (fd + 1) 0) := by
      unfold Listed
      rw [hlink]
      exact IndexList.unlink hl heq
    have hfd : ∀ k, ((s.setLink p (s.fdinfos fd).next).setLink (fd + 1) 0).fdinfos k =
        { s.fdinfos k with
          next := ((s.setLink p (s.fdinfos fd).next).setLink (fd + 1) 0).link (k + 1) } := by
      intro k
      rw [fdinfos_setLink, fdinfos_setLink]
    have hkernel : ((s.setLink p (s.fdinfos fd).next).setLink (fd + 1) 0).kernel = s.kernel :=
      setLink_fields.1.trans setLink_fields.1
    have hnfd : ((s.setLink p (s.fdinfos fd).next).setLink (fd + 1) 0).nfdinfos = s.nfdinfos :=
      setLink_fields.2.trans setLink_fields.2
    refine ⟨_, ?_, h.relink hl hl' hfd hkernel hnfd (fun k hk => List.mem_of_mem_erase hk) ?_,
      fun k => ?_, ?_, hl', hkernel, ?_⟩
    · simp only [hn, ne_eq, not_false_eq_true, if_true, hsearch]
      rfl
    · intro k hk hno
      have hkf : k + 1 = fd + 1 := by
        by_contra hne
        exact hno ((List.mem_erase_of_ne hne).mpr hk)
      rw [Nat.succ_injective hkf]
      exact hcur
    · rw [hfd]
      exact hq k
    · refine ⟨hnfd, congrArg Kernel.refuses hkernel, fun k => ?_, ?_⟩
      · rw [hfd]
      · funext d k
        unfold Ctx.side
        rw [hfd]
    · rw [hfd]

/-- What `dill_pollset_clean` does when it succeeds: the descriptor is off the changelist `l` and out
of the kernel. -/
structure Cleaned (l : List ℕ) (fd : ℕ) (s s' : Ctx) : Prop where
  listed : Listed (l.erase (fd + 1)) s'
  kernel : s'.kernel = s.kernel.register fd noFlags
  uncached : (s'.fdinfos fd).cached = false
  side : s'.side = s.side

/-- **Cleaning** removes the descriptor, unless it is being waited for. -/
theorem Book.clean (h : Book s) (hq : Quiet s) (hl : Listed l s) (fd : ℕ) :
    ∃ r s', pollsetClean fd s = .ok (r, s') ∧ Book s' ∧ Quiet s' ∧
      (r = .ok () ∧ Cleaned l fd s s' ∨ r = .error .EBUSY ∧ s' = s) := by
  have hok := h.fds fd
  unfold pollsetClean
  cases hc : (s.fdinfos fd).cached with
  | false =>
    obtain ⟨hcur, hnext, hcl⟩ := hok.uncached hc
    have hno : fd + 1 ∉ l := fun hm => (hl.mem.mp hm).2 hnext
    refine ⟨.ok (), s, rfl, h, hq, .inl ⟨rfl, ?_, ?_, hc, rfl⟩⟩
    · rw [List.erase_of_not_mem hno]
      exact hl
    · exact (register_self (hok.registered.trans hcur)).symm
  | true =>
    cases hb : ((s.fdinfos fd).clause .inp).isSome || ((s.fdinfos fd).clause .out).isSome with
    | true => exact ⟨.error .EBUSY, s, rfl, h, hq, .inr ⟨rfl, rfl⟩⟩
    | false =>
      rw [Bool.or_eq_false_iff, Option.isSome_eq_false_iff, Option.isSome_eq_false_iff,
        Option.isNone_iff_eq_none, Option.isNone_iff_eq_none] at hb
      have hcl : ∀ d, (s.fdinfos fd).clause d = none := by
        intro d
        cases d with
        | inp => exact hb.1
        | out => exact hb.2
      obtain ⟨s₁, hs₁, hb₁, hq₁, hk₁, hlink₁, hkernel₁, hcur₁, -⟩ :=
        h.unregister hq (wanted_of_none hcl)
      have hcl₁ : ∀ d, (s₁.fdinfos fd).clause d = none := fun d => (hk₁.clause d fd).trans (hcl d)
      have hcw₁ : (s₁.fdinfos fd).currevs = (s₁.fdinfos fd).wanted := by
        rw [hcur₁, wanted_of_none hcl₁]
      obtain ⟨s₂, hs₂, hb₂, hq₂, hk₂, hl₂, hkernel₂, hcur₂⟩ :=
        hb₁.unlist hq₁ (hl.congr hlink₁) hcw₁
      have hcl₂ : ∀ d, (s₂.fdinfos fd).clause d = none := fun d => (hk₂.clause d fd).trans (hcl₁ d)
      have hno : fd + 1 ∉ l.erase (fd + 1) := fun hm => (hl.nodup.mem_erase_iff.mp hm).1 rfl
      have hnext : (s₂.fdinfos fd).next = 0 := by
        by_contra hne
        exact hno (hl₂.mem.mpr ⟨Nat.succ_pos fd, hne⟩)
      have hl₃ : Listed (l.erase (fd + 1)) (s₂.setFdInfo fd fun f => { f with cached := false }) :=
        hl₂.congr (link_setFdInfo_same rfl)
      have hb₃ : Book (s₂.setFdInfo fd fun f => { f with cached := false }) :=
        hb₂.setFdInfo ⟨_, hl₃⟩ ⟨fun _ => ⟨hcur₂.trans hcur₁, hnext, hcl₂⟩,
          (hb₂.fds fd).registered,
          fun hne => absurd ((hcur₂.trans hcur₁).trans (wanted_of_none hcl₂).symm) hne, nofun⟩
      refine ⟨.ok (), s₂.setFdInfo fd fun f => { f with cached := false }, ?_, hb₃,
        hq₂.setFdInfo (hq₂ fd), .inl ⟨rfl, hl₃, hkernel₂.trans hkernel₁, ?_, ?_⟩⟩
      · simp only [Bool.not_true, Bool.false_eq_true, if_false, hs₁, hs₂, bind, Except.bind]
        rfl
      · rw [fdinfos_setFdInfo_self]
      · exact (side_setFdInfo rfl).trans (hk₂.side.trans hk₁.side)

end Libdill.Pollset.Kqueue
