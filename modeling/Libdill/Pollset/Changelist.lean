import Libdill.Foundations.IndexList
import Libdill.Pollset.Epoll

/-!
# The changelist

`Book s` is the invariant of the pollset of epoll(7): the changelist is a chain without repetitions
that ends in the end mark and contains the descriptors whose `next` is not zero, among them all
those whose interest is not the one that is wanted, and the kernel is interested in the cached
events.

* `Listed.push`, `Listed.unlink`, `Listed.tail`: what happens to the chain.
* `book_push`, `Book.setClause`, `Book.fdcancel`: what a change of one descriptor keeps.
-/

namespace Libdill.Pollset.Epoll

open Foundations Libdill.Sock

variable {s s' : Ctx} {d : Dir} {fd k : ℕ} {l : List ℕ}

/-! ## Links -/

theorem fdinfos_setFdInfo {f : FdInfo → FdInfo} :
    (s.setFdInfo fd f).fdinfos k = if k = fd then f (s.fdinfos fd) else s.fdinfos k := by
  unfold Ctx.setFdInfo
  exact Function.update_apply _ _ _ _

@[simp] theorem fdinfos_setFdInfo_self {f : FdInfo → FdInfo} :
    (s.setFdInfo fd f).fdinfos fd = f (s.fdinfos fd) := by
  rw [fdinfos_setFdInfo, if_pos rfl]

theorem link_eq : s.link = links FdInfo.next s.changelist s.fdinfos := by
  funext p
  cases p <;> rfl

/-- The links after a change of one descriptor. -/
theorem link_setFdInfo {f : FdInfo → FdInfo} :
    (s.setFdInfo fd f).link = Function.update s.link (fd + 1) (f (s.fdinfos fd)).next := by
  rw [link_eq, link_eq]
  exact links_update

theorem link_setFdInfo_same {f : FdInfo → FdInfo}
    (hf : (f (s.fdinfos fd)).next = (s.fdinfos fd).next) : (s.setFdInfo fd f).link = s.link := by
  rw [link_setFdInfo, hf]
  exact Function.update_eq_self (fd + 1) s.link

/-- The links after a change of the head. -/
theorem link_changelist {v : ℕ} :
    ({ s with changelist := v } : Ctx).link = Function.update s.link 0 v := by
  rw [link_eq, link_eq]
  exact links_head

theorem link_setLink {p v : ℕ} : (s.setLink p v).link = Function.update s.link p v := by
  cases p with
  | zero => exact link_changelist
  | succ k => exact link_setFdInfo

theorem link_push (hn : (s.fdinfos fd).next = 0) :
    (s.push fd).link = Function.update (Function.update s.link (fd + 1) (s.link 0)) 0 (fd + 1) := by
  unfold Ctx.push
  rw [if_pos hn, link_changelist, link_setFdInfo]
  rfl

/-- The descriptors with the numbers in `l` are on the changelist, in this order. -/
abbrev Listed (l : List ℕ) (s : Ctx) : Prop := IndexList s.link DILL_ENDLIST l

/-- A descriptor is put on the changelist. -/
theorem Listed.push (h : Listed l s) (fd : ℕ) :
    ∃ l₀, Listed (l₀ ++ l) (s.push fd) ∧ fd + 1 ∈ l₀ ++ l :=
  IndexList.put h (by decide) (Nat.succ_pos fd) link_push fun hn => congrArg Ctx.link (if_neg hn)

/-- The first descriptor is taken off the changelist. -/
theorem Listed.tail (h : Listed ((fd + 1) :: l) s) :
    Listed l ({ s with changelist := (s.fdinfos fd).next }.setFdInfo fd fun f =>
      { f with next := 0 }) := by
  refine (IndexList.tail h).congr ?_
  rw [link_setFdInfo, link_changelist]
  rfl

/-- A descriptor is taken out of the changelist. -/
theorem Listed.unlink {l₁ l₂ : List ℕ} {p : ℕ} (h : Listed l s)
    (hl : 0 :: l = l₁ ++ p :: (fd + 1) :: l₂) :
    Listed (l.erase (fd + 1)) ((s.setLink p (s.fdinfos fd).next).setLink (fd + 1) 0) := by
  refine (IndexList.unlink h hl).congr ?_
  rw [link_setLink, link_setLink]
  rfl

/-! ## The invariant -/

/-- The interest of the kernel for cached events. -/
def interestOf (events : Events) : Option Events := if events = 0 then none else some events

/-- What holds of one descriptor. -/
structure FdOk (s : Ctx) (fd : ℕ) (f : FdInfo) : Prop where
  uncached : f.cached = false → f.currevs = 0 ∧ f.next = 0 ∧ ∀ d, f.clause d = none
  interest : s.kernel.interest fd = interestOf f.currevs
  changed : f.currevs ≠ f.wanted → f.next ≠ 0
  present : f.cached = true → s.kernel.refuses fd = none ∧ fd < s.nfdinfos

/-- **The invariant of the pollset.** -/
structure Book (s : Ctx) : Prop where
  listed : ∃ l, Listed l s
  fds : ∀ fd, FdOk s fd (s.fdinfos fd)
  small : s.nfdinfos < DILL_ENDLIST

/-- The fields `in` and `out` of the descriptors. -/
def Ctx.side (s : Ctx) (d : Dir) (fd : ℕ) : Option FdClause := (s.fdinfos fd).clause d

theorem side_setFdInfo {f : FdInfo → FdInfo}
    (h : (f (s.fdinfos fd)).clause = (s.fdinfos fd).clause) : (s.setFdInfo fd f).side = s.side := by
  funext d k
  exact congrFun (apply_update_same (g := FdInfo.clause) h k) d

theorem Book.cached_of_side (h : Book s) {cl : FdClause} (hs : s.side d fd = some cl) :
    (s.fdinfos fd).cached = true := by
  cases hc : (s.fdinfos fd).cached with
  | true => rfl
  | false =>
    have hnone := ((h.fds fd).uncached hc).2.2 d
    unfold Ctx.side at hs
    rw [hs] at hnone
    cases hnone

theorem Book.cached_of_next (h : Book s) (hn : (s.fdinfos fd).next ≠ 0) :
    (s.fdinfos fd).cached = true := by
  cases hc : (s.fdinfos fd).cached with
  | true => rfl
  | false => exact absurd ((h.fds fd).uncached hc).2.1 hn

/-- Only descriptors in the table are on the changelist. -/
theorem Book.lt_nfdinfos (h : Book s) (fd : ℕ) (hn : s.link (fd + 1) ≠ 0) : fd < s.nfdinfos :=
  ((h.fds fd).present (h.cached_of_next hn)).2

theorem Book.le (h : Book s) (hl : Listed l s) (hk : k ∈ l) : 0 < k ∧ k ≤ s.nfdinfos :=
  IndexList.le h.lt_nfdinfos hl hk

theorem Book.end_notMem (h : Book s) (hl : Listed l s) : DILL_ENDLIST ∉ l :=
  IndexList.end_notMem h.lt_nfdinfos hl h.small

theorem Book.length_le (h : Book s) (hl : Listed l s) : l.length ≤ s.nfdinfos :=
  IndexList.length_le h.lt_nfdinfos hl

/-- The loop of `dill_pollset_clean` finds the link to a descriptor on the changelist. -/
theorem Book.search (h : Book s) (hl : Listed l s) (hm : fd + 1 ∈ l) :
    ∃ p l₁ l₂, search s fd (s.nfdinfos + 1) 0 = .ok p ∧ 0 :: l = l₁ ++ p :: (fd + 1) :: l₂ :=
  IndexList.search (fun _ _ => rfl) hl (h.end_notMem hl) hm (List.nil_append _).symm
    (Nat.le_succ_of_le (h.length_le hl))

/-- One descriptor changes. -/
theorem Book.setFdInfo (h : Book s) {f : FdInfo → FdInfo} (hl : ∃ l, Listed l (s.setFdInfo fd f))
    (hf : FdOk s fd (f (s.fdinfos fd))) : Book (s.setFdInfo fd f) := by
  refine ⟨hl, fun k => ?_, h.small⟩
  rw [fdinfos_setFdInfo]
  split
  · rename_i hk
    rw [hk]
    exact ⟨hf.uncached, hf.interest, hf.changed, hf.present⟩
  · exact ⟨(h.fds k).uncached, (h.fds k).interest, (h.fds k).changed, (h.fds k).present⟩

/-- Nothing changes but clauses and the changelist. -/
structure Same (s s' : Ctx) : Prop where
  nfdinfos : s'.nfdinfos = s.nfdinfos
  kernel : s'.kernel = s.kernel
  cached : ∀ fd, (s'.fdinfos fd).cached = (s.fdinfos fd).cached
  currevs : ∀ fd, (s'.fdinfos fd).currevs = (s.fdinfos fd).currevs

theorem Same.refl (s : Ctx) : Same s s := ⟨rfl, rfl, fun _ => rfl, fun _ => rfl⟩

theorem Same.trans {s'' : Ctx} (h : Same s s') (h' : Same s' s'') : Same s s'' :=
  ⟨h'.nfdinfos.trans h.nfdinfos, h'.kernel.trans h.kernel,
    fun fd => (h'.cached fd).trans (h.cached fd), fun fd => (h'.currevs fd).trans (h.currevs fd)⟩

theorem fdinfos_push : (s.push fd).fdinfos k =
    if k = fd ∧ (s.fdinfos fd).next = 0 then { s.fdinfos fd with next := s.changelist }
    else s.fdinfos k := by
  unfold Ctx.push
  by_cases hn : (s.fdinfos fd).next = 0
  · rw [if_pos hn]
    show (s.setFdInfo fd fun f => { f with next := s.changelist }).fdinfos k = _
    rw [fdinfos_setFdInfo]
    by_cases hk : k = fd
    · rw [if_pos hk, if_pos ⟨hk, hn⟩]
    · rw [if_neg hk, if_neg fun h => hk h.1]
  · rw [if_neg hn, if_neg fun h => hn h.2]

theorem fdinfos_push_ne (hk : k ≠ fd) : (s.push fd).fdinfos k = s.fdinfos k := by
  rw [fdinfos_push, if_neg fun h => hk h.1]

theorem same_push (s : Ctx) (fd : ℕ) : Same s (s.push fd) ∧ (s.push fd).side = s.side := by
  unfold Ctx.push
  split
  · refine ⟨⟨rfl, rfl, apply_update_same (g := FdInfo.cached) rfl,
      apply_update_same (g := FdInfo.currevs) rfl⟩, ?_⟩
    exact side_setFdInfo (f := fun f => { f with next := s.changelist }) rfl
  · exact ⟨Same.refl s, rfl⟩

/-- A descriptor whose interest may be out of date is put on the changelist. -/
theorem book_push (fd : ℕ) (hl : ∃ l, Listed l s) (hsmall : s.nfdinfos < DILL_ENDLIST)
    (ho : ∀ k, k ≠ fd → FdOk s k (s.fdinfos k)) (hc : (s.fdinfos fd).cached = true)
    (hi : s.kernel.interest fd = interestOf (s.fdinfos fd).currevs)
    (hp : s.kernel.refuses fd = none ∧ fd < s.nfdinfos) :
    Book (s.push fd) ∧ ((s.push fd).fdinfos fd).next ≠ 0 := by
  obtain ⟨l, hl⟩ := hl
  obtain ⟨l₀, hl', hm⟩ := Listed.push hl fd
  obtain ⟨hsame, hside⟩ := same_push s fd
  have hnext : ((s.push fd).fdinfos fd).next ≠ 0 := (hl'.mem.mp hm).2
  refine ⟨⟨⟨l₀ ++ l, hl'⟩, fun k => ?_, hsame.nfdinfos ▸ hsmall⟩, hnext⟩
  by_cases hk : k = fd
  · subst hk
    refine ⟨fun hno => ?_, ?_, fun _ => hnext, fun _ => ?_⟩
    · rw [hsame.cached, hc] at hno
      cases hno
    · rw [hsame.kernel, hsame.currevs]
      exact hi
    · rw [hsame.kernel, hsame.nfdinfos]
      exact hp
  · rw [fdinfos_push_ne hk]
    have hok := ho k hk
    refine ⟨hok.uncached, ?_, hok.changed, fun h => ?_⟩
    · rw [hsame.kernel]
      exact hok.interest
    · rw [hsame.kernel, hsame.nfdinfos]
      exact hok.present h

theorem same_setClause {cl : Option FdClause} :
    Same s (s.setFdInfo fd fun f => f.setClause d cl) :=
  ⟨rfl, rfl, apply_update_same (g := FdInfo.cached) rfl, apply_update_same (g := FdInfo.currevs) rfl⟩

theorem side_setClause {d' : Dir} {cl : Option FdClause} :
    (s.setFdInfo fd fun f => f.setClause d cl).side d' k =
      if (d', k) = (d, fd) then cl else s.side d' k :=
  @clause_update _ _ _ FdInfo.clause _ _ _ rfl d' k

/-- A clause changes while the descriptor is on the changelist. -/
theorem Book.setClause (h : Book s) (hn : (s.fdinfos fd).next ≠ 0) {cl : Option FdClause} :
    Book (s.setFdInfo fd fun f => f.setClause d cl) := by
  obtain ⟨l, hl⟩ := h.listed
  have hok := h.fds fd
  refine h.setFdInfo ⟨l, hl.congr (link_setFdInfo_same rfl)⟩
    ⟨fun hc => ?_, hok.interest, fun _ => hn, hok.present⟩
  exact absurd (hok.uncached hc).2.1 hn

/-! ## Cancelling -/

/-- The clauses of a list are gone, and their descriptors are on the changelist. -/
structure Cancelled (l : List (Dir × ℕ)) (s s' : Ctx) : Prop where
  book : Book s'
  same : Same s s'
  side : s'.side = without l s.side

theorem Book.fdcancel (h : Book s) (hc : (s.fdinfos fd).cached = true) :
    ∃ s', fdcancel d fd s = .ok s' ∧ Cancelled [(d, fd)] s s' := by
  obtain ⟨l, hl⟩ := h.listed
  have hsame : Same s (s.setFdInfo fd fun f => f.setClause d none) := same_setClause
  have hok := h.fds fd
  have hbook := book_push (s := s.setFdInfo fd fun f => f.setClause d none) fd
    ⟨l, hl.congr (link_setFdInfo_same rfl)⟩ h.small (fun k hk => by
      rw [fdinfos_setFdInfo, if_neg hk]
      exact ⟨(h.fds k).uncached, (h.fds k).interest, (h.fds k).changed, (h.fds k).present⟩)
    ((hsame.cached fd).trans hc) (by rw [hsame.currevs]; exact hok.interest) (hok.present hc)
  refine ⟨_, rfl, hbook.1, hsame.trans (same_push _ fd).1, ?_⟩
  rw [(same_push _ fd).2, without_singleton]
  funext d' k
  exact side_setClause

theorem Book.cancelAll {l : List (Dir × ℕ)} (h : Book s)
    (hl : ∀ x ∈ l, (s.fdinfos x.2).cached = true) :
    ∃ s', cancelAll Epoll.fdcancel l s = .ok s' ∧ Cancelled l s s' := by
  refine @cancelAll_spec _ Epoll.fdcancel Book (fun fd s => (s.fdinfos fd).cached = true) Cancelled
    (fun s hs => ⟨hs, Same.refl s, rfl⟩) (fun d fd s hs hc => hs.fdcancel hc) ?_ ?_ l s h hl
  · intro l s s' _ hc
    exact ⟨hc.book, fun fd hfd => (hc.same.cached fd).trans hfd⟩
  · intro d fd l s s₁ s₂ h₁ h₂
    exact ⟨h₂.book, h₁.same.trans h₂.same, by rw [h₂.side, h₁.side, without_cons]⟩

end Libdill.Pollset.Epoll
