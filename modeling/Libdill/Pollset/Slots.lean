import Libdill.Foundations.Bits
import Libdill.Pollset.Poll
import Mathlib.Data.Fintype.Card

/-!
# The slots of the pollset

`Slots wanted s`: the indices of the descriptors and the descriptors of the slots in use are inverse
to each other, and the events of each slot are those of the directions that are `wanted` for its
descriptor. `Good` says that exactly the directions with a clause are wanted.

* `fdcancel_spec`, `cancelAll_slots`: what the cancel callbacks do to the slots.
* `Slots.place`, `Slots.vacate`: a slot is taken into use, and given up.
-/

namespace Libdill.Pollset.Poll

open Foundations Libdill.Sock

/-! ## Events -/

/-- The events of the directions that are wanted. -/
def mask (wanted : Dir → Bool) : Events :=
  maskOf POLLIN POLLOUT (wanted .inp) (wanted .out)

variable {wanted : Dir → Bool} {d d' : Dir}

theorem mask_clear : mask wanted &&& ~~~flag d = mask (Function.update wanted d false) := by
  unfold mask maskOf flag
  cases d with
  | inp =>
    rw [Function.update_self, Function.update_of_ne (by decide)]
    cases wanted .inp <;> cases wanted .out <;> decide
  | out =>
    rw [Function.update_self, Function.update_of_ne (by decide)]
    cases wanted .inp <;> cases wanted .out <;> decide

theorem mask_set : mask wanted ||| flag d = mask (Function.update wanted d true) := by
  unfold mask maskOf flag
  cases d with
  | inp =>
    rw [Function.update_self, Function.update_of_ne (by decide)]
    cases wanted .inp <;> cases wanted .out <;> decide
  | out =>
    rw [Function.update_self, Function.update_of_ne (by decide)]
    cases wanted .inp <;> cases wanted .out <;> decide

theorem mask_eq_zero : mask wanted = 0 ↔ ∀ d, wanted d = false := by
  have hall : (∀ d, wanted d = false) ↔ wanted .inp = false ∧ wanted .out = false :=
    ⟨fun h => ⟨h _, h _⟩, fun h d => by cases d with | inp => exact h.1 | out => exact h.2⟩
  rw [hall]
  unfold mask maskOf
  cases wanted .inp <;> cases wanted .out <;> decide

theorem mask_none : mask (fun _ => false) = 0 := mask_eq_zero.mpr fun _ => rfl

/-- Of what may be reported for the events of a slot, something concerns a direction that is
wanted. -/
theorem exists_reported {r : Events} (hr : r ≠ 0) (he : mask wanted ≠ 0)
    (hsub : r &&& (mask wanted ||| always) = r) :
    ∃ d, wanted d = true ∧ r &&& (flag d ||| always) ≠ 0 := by
  rcases exists_flag hr he hsub with ⟨hd, hcommon⟩ | ⟨hd, hcommon⟩
  · exact ⟨.inp, hd, hcommon⟩
  · exact ⟨.out, hd, hcommon⟩

/-! ## The invariant -/

/-- The fields `in` and `out` of the descriptors. -/
def Ctx.side (s : Ctx) (d : Dir) (fd : ℕ) : Option FdClause := (s.fdinfos fd).clause d

/-- The slots in use and the descriptors with a slot correspond, and the slots have the events that
are wanted. -/
structure Slots (W : Dir → ℕ → Bool) (s : Ctx) : Prop where
  fd_lt : ∀ {i}, i < s.pollset_size → (s.pollset i).fd < s.nfdinfos
  idx_fd : ∀ {i}, i < s.pollset_size → (s.fdinfos (s.pollset i).fd).idx = some i
  fd_idx : ∀ {fd i}, (s.fdinfos fd).idx = some i → i < s.pollset_size ∧ (s.pollset i).fd = fd
  events : ∀ {i}, i < s.pollset_size →
    (s.pollset i).events = mask fun d => W d (s.pollset i).fd

/-- The directions with a clause. -/
def Ctx.waited (s : Ctx) (d : Dir) (fd : ℕ) : Bool := (s.side d fd).isSome

/-- **The invariant of the pollset.** -/
structure Good (w : World) : Prop where
  slots : Slots w.1.waited w.1
  placed : ∀ {d fd cl}, w.1.side d fd = some cl → ∃ i, (w.1.fdinfos fd).idx = some i
  linked : Linked w.1.side w.2

/-- The slots are the same, but for the events. -/
structure SameSlots (s s' : Ctx) : Prop where
  size : s'.pollset_size = s.pollset_size
  nfdinfos : s'.nfdinfos = s.nfdinfos
  fd : ∀ i, (s'.pollset i).fd = (s.pollset i).fd
  revents : ∀ i, (s'.pollset i).revents = (s.pollset i).revents
  idx : ∀ fd, (s'.fdinfos fd).idx = (s.fdinfos fd).idx

variable {W : Dir → ℕ → Bool} {s s' : Ctx} {fd i : ℕ}

theorem SameSlots.refl (s : Ctx) : SameSlots s s := ⟨rfl, rfl, fun _ => rfl, fun _ => rfl, fun _ => rfl⟩

theorem SameSlots.trans {s'' : Ctx} (h : SameSlots s s') (h' : SameSlots s' s'') : SameSlots s s'' :=
  ⟨h'.size.trans h.size, h'.nfdinfos.trans h.nfdinfos, fun i => (h'.fd i).trans (h.fd i),
    fun i => (h'.revents i).trans (h.revents i), fun fd => (h'.idx fd).trans (h.idx fd)⟩

theorem sameSlots_setEvents {f : Events → Events} : SameSlots s (s.setEvents i f) := by
  unfold Ctx.setEvents Ctx.setSlot
  refine ⟨rfl, rfl, fun j => ?_, fun j => ?_, fun _ => rfl⟩
  · simp only [Function.update_apply]
    split
    · rename_i h
      rw [h]
    · rfl
  · simp only [Function.update_apply]
    split
    · rename_i h
      rw [h]
    · rfl

theorem sameSlots_setClause {cl : Option FdClause} : SameSlots s (s.setClause d fd cl) := by
  unfold Ctx.setClause Ctx.setFdInfo
  refine ⟨rfl, rfl, fun _ => rfl, fun _ => rfl, fun k => ?_⟩
  simp only [Function.update_apply]
  split
  · rename_i h
    rw [h]
  · rfl

/-- A slot keeps its place when only events change. -/
theorem Slots.congr {W' : Dir → ℕ → Bool} (h : Slots W s) (hs : SameSlots s s')
    (he : ∀ {i}, i < s.pollset_size → (s'.pollset i).events = mask fun d => W' d (s.pollset i).fd) :
    Slots W' s' := by
  constructor
  · intro i hi
    rw [hs.size] at hi
    rw [hs.fd, hs.nfdinfos]
    exact h.fd_lt hi
  · intro i hi
    rw [hs.size] at hi
    rw [hs.fd, hs.idx]
    exact h.idx_fd hi
  · intro fd i hi
    rw [hs.idx] at hi
    rw [hs.size, hs.fd]
    exact h.fd_idx hi
  · intro i hi
    rw [hs.size] at hi
    rw [hs.fd]
    exact he hi

theorem side_setClause {cl : Option FdClause} {fd' : ℕ} :
    (s.setClause d fd cl).side d' fd' = if (d', fd') = (d, fd) then cl else s.side d' fd' :=
  @clause_update _ _ _ FdInfo.clause _ _ _ rfl d' fd'

/-- The wanted directions without those of a list. -/
def drop (l : List (Dir × ℕ)) (W : Dir → ℕ → Bool) (d : Dir) (fd : ℕ) : Bool :=
  if (d, fd) ∈ l then false else W d fd

/-- One direction of an fd changes. -/
theorem Slots.setEvents (h : Slots W s) (hi : (s.fdinfos fd).idx = some i) {b : Bool}
    {f : Events → Events} (hf : ∀ w, f (mask w) = mask (Function.update w d b)) :
    Slots (fun d' fd' => if (d', fd') = (d, fd) then b else W d' fd') (s.setEvents i f) := by
  obtain ⟨-, hfd⟩ := h.fd_idx hi
  apply h.congr sameSlots_setEvents
  intro j hj
  unfold Ctx.setEvents Ctx.setSlot
  by_cases hji : j = i
  · subst hji
    simp only [Function.update_self]
    rw [h.events hj, hf, hfd]
    congr 1
    funext d'
    by_cases hd : d' = d
    · rw [hd, Function.update_self, if_pos rfl]
    · rw [Function.update_of_ne hd, if_neg]
      rintro heq
      cases heq
      exact hd rfl
  · simp only [Function.update_of_ne hji]
    rw [h.events hj]
    congr 1
    funext d'
    rw [if_neg]
    intro heq
    cases heq
    have hidx := h.idx_fd hj
    rw [hi] at hidx
    exact hji (Option.some.inj hidx).symm

theorem drop_singleton :
    drop [(d, fd)] W = fun d' fd' => if (d', fd') = (d, fd) then false else W d' fd' := by
  funext d' fd'
  unfold drop
  simp only [List.mem_singleton]

/-- A direction of an fd is not wanted any more. -/
theorem Slots.unset (h : Slots W s) (hi : (s.fdinfos fd).idx = some i) :
    Slots (drop [(d, fd)] W) (s.setEvents i (· &&& ~~~flag d)) := by
  rw [drop_singleton]
  exact h.setEvents hi fun _ => mask_clear

theorem Slots.setClause (h : Slots W s) {cl : Option FdClause} : Slots W (s.setClause d fd cl) :=
  h.congr sameSlots_setClause fun hi => h.events hi

/-! ## Cancelling -/

/-- The clauses of a list are gone, and nothing else has changed but events. -/
structure Cancelled (l : List (Dir × ℕ)) (W : Dir → ℕ → Bool) (s s' : Ctx) : Prop where
  slots : Slots (drop l W) s'
  same : SameSlots s s'
  side : s'.side = without l s.side

theorem fdcancel_spec (h : Slots W s) (hi : (s.fdinfos fd).idx = some i) :
    ∃ s', fdcancel d fd s = .ok s' ∧ Cancelled [(d, fd)] W s s' := by
  refine ⟨(s.setClause d fd none).setEvents i (· &&& ~~~flag d), ?_, ?_, ?_, ?_⟩
  · unfold fdcancel
    rw [hi]
  · apply h.setClause.unset
    rw [sameSlots_setClause.idx]
    exact hi
  · exact sameSlots_setClause.trans sameSlots_setEvents
  · rw [without_singleton]
    funext d' fd'
    exact side_setClause

theorem drop_cons {l : List (Dir × ℕ)} : drop l (drop [(d, fd)] W) = drop ((d, fd) :: l) W := by
  funext d' fd'
  unfold drop
  simp only [List.mem_cons, List.not_mem_nil, or_false]
  by_cases h₁ : (d', fd') = (d, fd)
  · rw [if_pos (Or.inl h₁), if_pos h₁, ite_self]
  · rw [if_neg h₁]
    by_cases h₂ : (d', fd') ∈ l
    · rw [if_pos h₂, if_pos (Or.inr h₂)]
    · rw [if_neg h₂, if_neg (fun h => h.elim h₁ h₂)]

theorem cancelAll_slots {l : List (Dir × ℕ)} (h : Slots W s)
    (hl : ∀ x ∈ l, ∃ i, (s.fdinfos x.2).idx = some i) :
    ∃ s', cancelAll fdcancel l s = .ok s' ∧ Cancelled l W s s' := by
  suffices hall : ∃ s', cancelAll fdcancel l s = .ok s' ∧ ∀ W, Slots W s → Cancelled l W s s' by
    obtain ⟨s', hs', hall⟩ := hall
    exact ⟨s', hs', hall W h⟩
  refine @cancelAll_spec _ fdcancel (fun s => ∃ W, Slots W s)
    (fun fd s => ∃ i, (s.fdinfos fd).idx = some i)
    (fun l s s' => ∀ W, Slots W s → Cancelled l W s s')
    (fun s _ W h => ⟨h, SameSlots.refl s, rfl⟩) ?_ ?_ ?_ l s ⟨W, h⟩ hl
  · rintro d fd s ⟨W, h⟩ ⟨i, hi⟩
    obtain ⟨s₁, hs₁, -⟩ := fdcancel_spec (d := d) h hi
    refine ⟨s₁, hs₁, fun W' h' => ?_⟩
    obtain ⟨s₂, hs₂, hc⟩ := fdcancel_spec (d := d) h' hi
    cases hs₁.symm.trans hs₂
    exact hc
  · rintro l s s' ⟨W, h⟩ hall
    refine ⟨⟨_, (hall W h).slots⟩, fun fd hi => ?_⟩
    rw [(hall W h).same.idx]
    exact hi
  · intro d fd l s s₁ s₂ h₁ h₂ W h
    have hc₁ := h₁ W h
    have hc₂ := h₂ _ hc₁.slots
    refine ⟨?_, hc₁.same.trans hc₂.same, ?_⟩
    · rw [← drop_cons]
      exact hc₂.slots
    · rw [hc₂.side, hc₁.side, without_cons]

/-! ## Slots are taken and given up -/

/-- A slot whose old events are no obstacle is taken into use for one direction of an fd. -/
theorem Slots.place (h : Slots W s) (hfd : fd < s.nfdinfos) (hi : (s.fdinfos fd).idx = none)
    (hW : ∀ d, W d fd = false) (hold : (s.pollset s.pollset_size).events ||| flag d = flag d) :
    Slots (fun d' fd' => if (d', fd') = (d, fd) then true else W d' fd')
      ((s.place fd).setEvents s.pollset_size (· ||| flag d)) := by
  have hflag : flag d = mask (Function.update (fun _ => false) d true) := by
    rw [← mask_set, mask_none]
    cases d <;> decide
  have hne : ∀ {j}, j < s.pollset_size → (s.pollset j).fd ≠ fd := by
    intro j hj heq
    have hidx := h.idx_fd hj
    rw [heq, hi] at hidx
    cases hidx
  unfold Ctx.place
  rw [hi]
  unfold Ctx.setEvents Ctx.setSlot Ctx.setIdx Ctx.setFdInfo
  constructor
  · intro j hj
    by_cases hjn : j = s.pollset_size
    · subst hjn
      simp only [Function.update_self]
      exact hfd
    · simp only [Function.update_of_ne hjn]
      exact h.fd_lt (by simp only at hj; omega)
  · intro j hj
    by_cases hjn : j = s.pollset_size
    · subst hjn
      simp only [Function.update_self]
    · have hlt : j < s.pollset_size := by
        simp only at hj
        omega
      simp only [Function.update_of_ne hjn, Function.update_of_ne (hne hlt)]
      exact h.idx_fd hlt
  · intro k j hj
    by_cases hk : k = fd
    · subst hk
      simp only [Function.update_self, Option.some.injEq] at hj
      subst hj
      simp only [Function.update_self]
      exact ⟨Nat.lt_succ_self _, trivial⟩
    · simp only [Function.update_of_ne hk] at hj
      obtain ⟨hlt, heq⟩ := h.fd_idx hj
      simp only [Function.update_of_ne (Nat.ne_of_lt hlt)]
      exact ⟨Nat.lt_succ_of_lt hlt, heq⟩
  · intro j hj
    by_cases hjn : j = s.pollset_size
    · subst hjn
      simp only [Function.update_self]
      rw [hold, hflag]
      congr 1
      funext d'
      by_cases hd : d' = d
      · rw [hd, Function.update_self, if_pos rfl]
      · rw [Function.update_of_ne hd, if_neg, hW]
        rintro heq
        cases heq
        exact hd rfl
    · have hlt : j < s.pollset_size := by
        simp only at hj
        omega
      simp only [Function.update_of_ne hjn]
      rw [h.events hlt]
      congr 1
      funext d'
      rw [if_neg]
      rintro heq
      cases heq
      exact hne hlt rfl

/-- The slot `i` of an fd is given up. -/
structure Vacated (fd i : ℕ) (s s' : Ctx) : Prop where
  size : s'.pollset_size = s.pollset_size - 1
  nfdinfos : s'.nfdinfos = s.nfdinfos
  pollset : ∀ {j}, j < s.pollset_size - 1 →
    s'.pollset j = s.pollset (if j = i then s.pollset_size - 1 else j)
  self : (s'.fdinfos fd).idx = none
  last : i ≠ s.pollset_size - 1 →
    (s'.fdinfos (s.pollset (s.pollset_size - 1)).fd).idx = some i
  others : ∀ {k}, k ≠ fd → k ≠ (s.pollset (s.pollset_size - 1)).fd →
    (s'.fdinfos k).idx = (s.fdinfos k).idx
  side : s'.side = s.side

theorem side_setIdx {idx : Option ℕ} : (s.setIdx fd idx).side = s.side := by
  funext d k
  unfold Ctx.side Ctx.setIdx Ctx.setFdInfo
  simp only [Function.update_apply]
  split
  · rename_i hk
    rw [hk]
  · rfl

theorem idx_setIdx {idx : Option ℕ} {k : ℕ} :
    ((s.setIdx fd idx).fdinfos k).idx = if k = fd then idx else (s.fdinfos k).idx := by
  unfold Ctx.setIdx Ctx.setFdInfo
  simp only [Function.update_apply]
  split
  · rfl
  · rfl

theorem idx_compact {k : ℕ} : ((s.compact i).fdinfos k).idx =
    if i ≠ s.pollset_size - 1 ∧ k = (s.pollset (s.pollset_size - 1)).fd then some i
    else (s.fdinfos k).idx := by
  unfold Ctx.compact
  by_cases hi : i = s.pollset_size - 1
  · simp only [hi, if_true]
    rw [if_neg (fun h => h.1 rfl)]
  · simp only [if_neg hi, idx_setIdx]
    by_cases hk : k = (s.pollset (s.pollset_size - 1)).fd
    · rw [if_pos hk, if_pos ⟨hi, hk⟩]
    · rw [if_neg hk, if_neg (fun h => hk h.2)]
      rfl

theorem side_compact : (s.compact i).side = s.side := by
  unfold Ctx.compact
  by_cases hi : i = s.pollset_size - 1
  · simp only [hi, if_true]
    rfl
  · simp only [if_neg hi, side_setIdx]
    rfl

theorem size_compact : (s.compact i).pollset_size = s.pollset_size - 1 := by
  unfold Ctx.compact
  by_cases hi : i = s.pollset_size - 1
  · simp only [hi, if_true]
  · simp only [if_neg hi]
    rfl

theorem nfdinfos_compact : (s.compact i).nfdinfos = s.nfdinfos := by
  unfold Ctx.compact
  by_cases hi : i = s.pollset_size - 1
  · simp only [hi, if_true]
  · simp only [if_neg hi]
    rfl

theorem pollset_compact {j : ℕ} (hj : j < s.pollset_size - 1) :
    (s.compact i).pollset j = s.pollset (if j = i then s.pollset_size - 1 else j) := by
  unfold Ctx.compact
  by_cases hi : i = s.pollset_size - 1
  · have hji : j ≠ i := by omega
    simp only [hi, if_true]
    rw [if_neg (by omega)]
  · simp only [if_neg hi]
    unfold Ctx.setIdx Ctx.setFdInfo Ctx.setSlot
    by_cases hji : j = i
    · subst hji
      simp only [Function.update_self, if_true]
    · simp only [Function.update_of_ne hji, if_neg hji]

/-- The order in `dill_pollset_poll`. -/
theorem Slots.vacated_poll (h : Slots W s) (hi : (s.fdinfos fd).idx = some i) :
    Vacated fd i s ((s.setIdx fd none).compact i) := by
  obtain ⟨hlt, hfd⟩ := h.fd_idx hi
  have hlast : i ≠ s.pollset_size - 1 → (s.pollset (s.pollset_size - 1)).fd ≠ fd := by
    intro hne heq
    have hidx := h.idx_fd (i := s.pollset_size - 1) (by omega)
    rw [heq, hi] at hidx
    exact hne (Option.some.inj hidx)
  refine ⟨size_compact, nfdinfos_compact, fun hj => pollset_compact (s := s.setIdx fd none) hj, ?_,
    fun hne => ?_, fun hk hk' => ?_, ?_⟩
  · rw [idx_compact, if_neg, idx_setIdx, if_pos rfl]
    rintro ⟨hne, heq⟩
    exact hlast hne heq.symm
  · rw [idx_compact, if_pos]
    exact ⟨hne, rfl⟩
  · rw [idx_compact, if_neg (fun h => hk' h.2), idx_setIdx, if_neg hk]
  · rw [side_compact, side_setIdx]

/-- The order in `dill_pollset_clean`. -/
theorem Slots.vacated_clean (h : Slots W s) (hi : (s.fdinfos fd).idx = some i) :
    Vacated fd i s ((s.compact i).setIdx fd none) := by
  obtain ⟨hlt, hfd⟩ := h.fd_idx hi
  have hlast : i ≠ s.pollset_size - 1 → (s.pollset (s.pollset_size - 1)).fd ≠ fd := by
    intro hne heq
    have hidx := h.idx_fd (i := s.pollset_size - 1) (by omega)
    rw [heq, hi] at hidx
    exact hne (Option.some.inj hidx)
  refine ⟨size_compact, nfdinfos_compact, pollset_compact, ?_, fun hne => ?_, fun hk hk' => ?_, ?_⟩
  · rw [idx_setIdx, if_pos rfl]
  · rw [idx_setIdx, if_neg (hlast hne), idx_compact, if_pos ⟨hne, rfl⟩]
  · rw [idx_setIdx, if_neg hk, idx_compact, if_neg (fun h => hk' h.2)]
  · rw [side_setIdx, side_compact]

theorem Slots.vacate (h : Slots W s) (hi : (s.fdinfos fd).idx = some i) (hv : Vacated fd i s s') :
    Slots W s' := by
  obtain ⟨hlt, hfd⟩ := h.fd_idx hi
  constructor
  · intro j hj
    rw [hv.size] at hj
    rw [hv.pollset hj, hv.nfdinfos]
    exact h.fd_lt (by split <;> omega)
  · intro j hj
    rw [hv.size] at hj
    rw [hv.pollset hj]
    by_cases hji : j = i
    · rw [if_pos hji, hji]
      exact hv.last (by omega)
    · rw [if_neg hji, hv.others, h.idx_fd (by omega)]
      · intro heq
        have hidx := h.idx_fd (i := j) (by omega)
        rw [heq, hi] at hidx
        exact hji (Option.some.inj hidx).symm
      · intro heq
        have hidx := h.idx_fd (i := j) (by omega)
        rw [heq, h.idx_fd (by omega)] at hidx
        have := Option.some.inj hidx
        omega
  · intro k j hj
    have hk : k ≠ fd := by
      rintro rfl
      rw [hv.self] at hj
      cases hj
    by_cases hk' : k = (s.pollset (s.pollset_size - 1)).fd
    · by_cases hil : i = s.pollset_size - 1
      · rw [← hil, hfd] at hk'
        exact absurd hk' hk
      · rw [hk', hv.last hil] at hj
        cases hj
        have hi' : i < s.pollset_size - 1 := by omega
        rw [hv.size, hv.pollset hi', if_pos rfl]
        exact ⟨hi', hk'.symm⟩
    · rw [hv.others hk hk'] at hj
      obtain ⟨hlt', hfd'⟩ := h.fd_idx hj
      have hne : j ≠ s.pollset_size - 1 := by
        rintro rfl
        exact hk' hfd'.symm
      have hji : j ≠ i := by
        rintro rfl
        exact hk (hfd'.symm.trans hfd)
      have hj' : j < s.pollset_size - 1 := by omega
      rw [hv.size, hv.pollset hj', if_neg hji]
      exact ⟨hj', hfd'⟩
  · intro j hj
    rw [hv.size] at hj
    rw [hv.pollset hj]
    exact h.events (by split <;> omega)

/-- The other descriptors keep a slot. -/
theorem Vacated.placed (hv : Vacated fd i s s') {k j : ℕ} (hk : k ≠ fd)
    (hj : (s.fdinfos k).idx = some j) (hfd : (s.pollset i).fd = fd) :
    ∃ j, (s'.fdinfos k).idx = some j := by
  by_cases hk' : k = (s.pollset (s.pollset_size - 1)).fd
  · by_cases hil : i = s.pollset_size - 1
    · rw [← hil, hfd] at hk'
      exact absurd hk' hk
    · exact ⟨i, hk' ▸ hv.last hil⟩
  · exact ⟨j, (hv.others hk hk').trans hj⟩

end Libdill.Pollset.Poll
