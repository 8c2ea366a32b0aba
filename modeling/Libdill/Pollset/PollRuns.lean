import Libdill.Pollset.Slots

/-!
# Runs with the pollset of poll(2)

Any sequence of the calls of the pollset, with any answers from the kernel.

* `docancel_spec`, `pollTurn_spec`, `pollsetPoll_spec`, `pollsetWait_spec`, `pollsetClean_spec`:
  what the calls do to the slots.
* `poll_bookkeeping`: the invariant along every run in which no slot with old events is taken into
  use, and poll(2) does not only report errors of descriptors that nobody waits for.
-/

namespace Libdill.Pollset.Poll

open Foundations Libdill.Sock

variable {w w' : World} {d : Dir} {fd i cr : ℕ}

/-! ## Triggering -/

theorem waited_of_side {s s' : Ctx} {l : List (Dir × ℕ)} (h : s'.side = without l s.side) :
    s'.waited = drop l s.waited := by
  funext d fd
  unfold Ctx.waited drop
  rw [h]
  unfold without
  split
  · rfl
  · rfl

theorem drop_drop {W : Dir → ℕ → Bool} {P l : List (Dir × ℕ)} (hP : ∀ x ∈ P, x ∈ l) :
    drop l (drop P W) = drop l W := by
  funext d fd
  unfold drop
  by_cases hl : (d, fd) ∈ l
  · rw [if_pos hl, if_pos hl]
  · rw [if_neg hl, if_neg hl, if_neg fun hp => hl (hP _ hp)]

/-- A coroutine that is not ready is made ready, and its clauses are cancelled. The events of some
of them may have been removed already. -/
theorem docancel_spec {P : List (Dir × ℕ)} (id err : ℤ) (hs : Slots (drop P w.1.waited) w.1)
    (hp : ∀ {d fd cl}, w.1.side d fd = some cl → ∃ i, (w.1.fdinfos fd).idx = some i)
    (hl : Linked w.1.side w.2) (hr : w.2.isReady cr = false) (hP : ∀ x ∈ P, x ∈ w.2.clauses cr) :
    ∃ w', docancel fdcancel cr id err w = .ok w' ∧ Good w' ∧ SameSlots w.1 w'.1 ∧
      w'.2.ready = w.2.ready ++ [⟨cr, id, err⟩] := by
  have hidx : ∀ x ∈ w.2.clauses cr, ∃ i, (w.1.fdinfos x.2).idx = some i := by
    rintro ⟨d, fd⟩ hx
    obtain ⟨cl, hcl, -⟩ := hl.listed hr hx
    exact hp hcl
  obtain ⟨s, hcancel, hc⟩ := cancelAll_slots hs hidx
  refine ⟨(s, w.2.resume cr id err), ?_, ⟨?_, ?_, ?_⟩, hc.same, rfl⟩
  · unfold docancel
    rw [hr, hcancel]
    rfl
  · show Slots s.waited s
    rw [waited_of_side hc.side, ← drop_drop hP]
    exact hc.slots
  · intro d fd cl hcl
    have hside : s.side d fd = some cl := hcl
    rw [hc.side] at hside
    unfold without at hside
    split at hside
    · cases hside
    · obtain ⟨i, hi⟩ := hp hside
      exact ⟨i, (hc.same.idx fd).trans hi⟩
  · show Linked s.side _
    rw [hc.side]
    exact hl.resume hr

theorem drop_nil {W : Dir → ℕ → Bool} : drop [] W = W := rfl

theorem Good.docancel (id err : ℤ) (hg : Good w) (hr : w.2.isReady cr = false) :
    ∃ w', docancel fdcancel cr id err w = .ok w' ∧ Good w' ∧ SameSlots w.1 w'.1 ∧
      w'.2.ready = w.2.ready ++ [⟨cr, id, err⟩] :=
  docancel_spec (P := []) id err hg.slots hg.placed hg.linked hr nofun

/-! ## The loop over the slots -/

/-- There is a clause for the direction in the slot, and an event for it is reported. -/
def Hit (d : Dir) (i : ℕ) (w : World) : Prop :=
  w.1.waited d (w.1.pollset i).fd = true ∧ (w.1.pollset i).revents &&& (flag d ||| always) ≠ 0

theorem fire_spec (hg : Good w) (hi : i < w.1.pollset_size) :
    ∃ w', fire d i w = .ok w' ∧ Good w' ∧ SameSlots w.1 w'.1 ∧
      ((w' = w ∧ ¬ Hit d i w) ∨ w'.2.ready.length = w.2.ready.length + 1) := by
  unfold fire
  cases hcl : w.1.side d (w.1.pollset i).fd with
  | none =>
    have hcl' : (w.1.fdinfos (w.1.pollset i).fd).clause d = none := hcl
    simp only [hcl']
    refine ⟨w, rfl, hg, SameSlots.refl _, .inl ⟨rfl, fun hhit => ?_⟩⟩
    have hwait := hhit.1
    unfold Ctx.waited at hwait
    rw [hcl] at hwait
    cases hwait
  | some cl =>
    have hcl' : (w.1.fdinfos (w.1.pollset i).fd).clause d = some cl := hcl
    simp only [hcl']
    split
    · rename_i hrev
      exact ⟨w, rfl, hg, SameSlots.refl _, .inl ⟨rfl, fun hhit => hhit.2 hrev⟩⟩
    · obtain ⟨hr, hm⟩ := hg.linked.owner hcl
      have hidx := hg.slots.idx_fd hi
      have hslots := hg.slots.unset (d := d) hidx
      obtain ⟨w', hw', hg', hsame, hready⟩ := docancel_spec
        (w := (w.1.setEvents i (· &&& ~~~flag d), w.2)) (P := [(d, (w.1.pollset i).fd)]) cl.id 0
        hslots hg.placed hg.linked hr fun x hx => by
          rw [List.mem_singleton.mp hx]
          exact hm
      have hs₁ : SameSlots w.1 (w.1.setEvents i (· &&& ~~~flag d)) := sameSlots_setEvents
      refine ⟨w', hw', hg', hs₁.trans hsame, .inr ?_⟩
      rw [hready]
      exact List.length_append

/-- Either there are more than `n` coroutines ready, or an event is reported for a slot from `i` on
that has events. -/
def Ahead (n i : ℕ) (w : World) : Prop :=
  n < w.2.ready.length ∨ ∃ k, i ≤ k ∧ k < w.1.pollset_size ∧ (w.1.pollset k).revents ≠ 0 ∧
    (w.1.pollset k).events ≠ 0 ∧
    (w.1.pollset k).revents &&& ((w.1.pollset k).events ||| always) = (w.1.pollset k).revents

/-- A reported event of a slot with events triggers a clause. -/
theorem exists_hit (hg : Good w) (hi : i < w.1.pollset_size) (hr : (w.1.pollset i).revents ≠ 0)
    (he : (w.1.pollset i).events ≠ 0)
    (hsub : (w.1.pollset i).revents &&& ((w.1.pollset i).events ||| always) =
      (w.1.pollset i).revents) : ∃ d, Hit d i w := by
  rw [hg.slots.events hi] at he hsub
  obtain ⟨d, hd, hrev⟩ := exists_reported hr he hsub
  exact ⟨d, hd, hrev⟩

/-- Both directions of a slot. -/
theorem fires_spec (hg : Good w) (hi : i < w.1.pollset_size) :
    ∃ w', (fire .inp i w >>= fire .out i) = .ok w' ∧ Good w' ∧ SameSlots w.1 w'.1 ∧
      ((w' = w ∧ ∀ d, ¬ Hit d i w) ∨ w.2.ready.length < w'.2.ready.length) := by
  obtain ⟨w₁, hw₁, hg₁, hs₁, hr₁⟩ := fire_spec (d := .inp) hg hi
  have hi₁ : i < w₁.1.pollset_size := by
    rw [hs₁.size]
    exact hi
  obtain ⟨w₂, hw₂, hg₂, hs₂, hr₂⟩ := fire_spec (d := .out) hg₁ hi₁
  refine ⟨w₂, ?_, hg₂, hs₁.trans hs₂, ?_⟩
  · rw [hw₁]
    exact hw₂
  · rcases hr₁ with ⟨rfl, hno₁⟩ | hr₁
    · rcases hr₂ with ⟨rfl, hno₂⟩ | hr₂
      · refine .inl ⟨rfl, fun d => ?_⟩
        cases d with
        | inp => exact hno₁
        | out => exact hno₂
      · exact .inr (by omega)
    · rcases hr₂ with ⟨rfl, -⟩ | hr₂
      · exact .inr (by omega)
      · exact .inr (by omega)

/-- A slot without events is given up. -/
theorem Good.vacate (hg : Good w) (hidx : (w.1.fdinfos fd).idx = some i)
    (hno : ∀ d, w.1.waited d fd = false) {s : Ctx} (hv : Vacated fd i w.1 s) :
    Good (s, w.2) := by
  have hwait : s.waited = w.1.waited := by
    unfold Ctx.waited
    rw [hv.side]
  refine ⟨?_, fun {d k cl} hcl => ?_, ?_⟩
  · show Slots s.waited s
    rw [hwait]
    exact hg.slots.vacate hidx hv
  · have hside : s.side d k = some cl := hcl
    rw [hv.side] at hside
    obtain ⟨j, hj⟩ := hg.placed hside
    refine hv.placed ?_ hj (hg.slots.fd_idx hidx).2
    rintro rfl
    have hd := hno d
    unfold Ctx.waited at hd
    rw [hside] at hd
    cases hd
  · show Linked s.side w.2
    rw [hv.side]
    exact hg.linked

/-- What a turn of the loop does. -/
structure Turned (i : ℕ) (w : World) (i' : ℕ) (w' : World) : Prop where
  good : Good w'
  le : i' ≤ w'.1.pollset_size
  nearer : w'.1.pollset_size - i' < w.1.pollset_size - i
  ready : w.2.ready.length ≤ w'.2.ready.length
  ahead : ∀ {n}, n ≤ w.2.ready.length → Ahead n i w → Ahead n i' w'

theorem pollTurn_spec (hg : Good w) (hi : i < w.1.pollset_size) :
    ∃ i' w', pollTurn i w = .ok (i', w') ∧ Turned i w i' w' := by
  obtain ⟨w₁, hw₁, hg₁, hs₁, hr₁⟩ := fires_spec hg hi
  have hi₁ : i < w₁.1.pollset_size := by
    rw [hs₁.size]
    exact hi
  have hready : w.2.ready.length ≤ w₁.2.ready.length := by
    rcases hr₁ with ⟨rfl, -⟩ | hr₁
    · exact Nat.le_refl _
    · omega
  have hturn : pollTurn i w = (fire .inp i w >>= fire .out i) >>= fun w =>
      let pfd := w.1.pollset i
      if pfd.events = 0 then
        let s := w.1.setIdx pfd.fd none
        if ((s.fdinfos pfd.fd).clause .inp).isSome || ((s.fdinfos pfd.fd).clause .out).isSome then
          .error .assertion
        else .ok (i, s.compact i, w.2)
      else .ok (i + 1, w) := by
    unfold pollTurn
    cases fire .inp i w with
    | error e => rfl
    | ok w => rfl
  rw [hturn, hw₁]
  have hidx := hg₁.slots.idx_fd hi₁
  have hbind : ∀ {α : Type} (f : World → Except Stop α), (Except.ok w₁ >>= f) = f w₁ := fun _ => rfl
  rw [hbind]
  by_cases he : (w₁.1.pollset i).events = 0
  · have hno : ∀ d, w₁.1.waited d (w₁.1.pollset i).fd = false := by
      have hmask := hg₁.slots.events hi₁
      rw [he] at hmask
      exact mask_eq_zero.mp hmask.symm
    have hside : ∀ d, (((w₁.1.setIdx (w₁.1.pollset i).fd none).fdinfos
        (w₁.1.pollset i).fd).clause d).isSome = false := by
      intro d
      have hd := hno d
      unfold Ctx.waited at hd
      rw [← @side_setIdx w₁.1 (w₁.1.pollset i).fd none] at hd
      exact hd
    have hv := hg₁.slots.vacated_poll hidx
    refine ⟨i, ((w₁.1.setIdx (w₁.1.pollset i).fd none).compact i, w₁.2), ?_,
      hg₁.vacate hidx hno hv, ?_, ?_, hready, ?_⟩
    · simp only [he, if_true, hside, Bool.or_self]
      rfl
    · show i ≤ (Ctx.compact _ i).pollset_size
      rw [hv.size]
      omega
    · show (Ctx.compact _ i).pollset_size - i < _
      rw [hv.size, hs₁.size]
      omega
    · intro n hn ha
      rcases ha with ha | ⟨k, hik, hk, hrev, hev, hsub⟩
      · exact .inl (Nat.lt_of_lt_of_le ha hready)
      · rcases hr₁ with ⟨rfl, -⟩ | hr₁
        · have hne : k ≠ i := by
            rintro rfl
            exact hev he
          by_cases hlast : k = w₁.1.pollset_size - 1
          · have hslot := hv.pollset (j := i) (by omega)
            rw [if_pos rfl, ← hlast] at hslot
            refine .inr ⟨i, Nat.le_refl i, ?_, ?_⟩
            · show i < (Ctx.compact _ i).pollset_size
              rw [hv.size]
              omega
            · show (Ctx.pollset _ i).revents ≠ 0 ∧ _
              rw [hslot]
              exact ⟨hrev, hev, hsub⟩
          · have hslot := hv.pollset (j := k) (by omega)
            rw [if_neg hne] at hslot
            refine .inr ⟨k, hik, ?_, ?_⟩
            · show k < (Ctx.compact _ i).pollset_size
              rw [hv.size]
              omega
            · show (Ctx.pollset _ k).revents ≠ 0 ∧ _
              rw [hslot]
              exact ⟨hrev, hev, hsub⟩
        · exact .inl (Nat.lt_of_le_of_lt hn hr₁)
  · refine ⟨i + 1, w₁, ?_, hg₁, hi₁, ?_, hready, ?_⟩
    · simp only [if_neg he]
    · rw [hs₁.size]
      omega
    · intro n hn ha
      rcases ha with ha | ⟨k, hik, hk, hrev, hev, hsub⟩
      · exact .inl (Nat.lt_of_lt_of_le ha hready)
      · rcases hr₁ with ⟨rfl, hno⟩ | hr₁
        · have hne : k ≠ i := by
            rintro rfl
            obtain ⟨d, hhit⟩ := exists_hit hg hi hrev hev hsub
            exact hno d hhit
          exact .inr ⟨k, by omega, hk, hrev, hev, hsub⟩
        · exact .inl (Nat.lt_of_le_of_lt hn hr₁)

theorem pollLoop_spec {n : ℕ} (hg : Good w) (hi : i ≤ w.1.pollset_size)
    (hn : w.1.pollset_size - i ≤ n) :
    ∃ w', pollLoop n i w = .ok w' ∧ Good w' ∧ w.2.ready.length ≤ w'.2.ready.length ∧
      ∀ {m}, m ≤ w.2.ready.length → Ahead m i w → m < w'.2.ready.length := by
  induction n generalizing i w with
  | zero =>
    have heq : i = w.1.pollset_size := by omega
    refine ⟨w, ?_, hg, Nat.le_refl _, fun hm ha => ?_⟩
    · unfold pollLoop
      rw [if_pos heq]
    · rcases ha with ha | ⟨k, hik, hk, -⟩
      · exact ha
      · omega
  | succ n ih =>
    by_cases heq : i = w.1.pollset_size
    · refine ⟨w, ?_, hg, Nat.le_refl _, fun hm ha => ?_⟩
      · unfold pollLoop
        rw [if_pos heq]
      · rcases ha with ha | ⟨k, hik, hk, -⟩
        · exact ha
        · omega
    · obtain ⟨i', w₁, hturn, ht⟩ := pollTurn_spec hg (Nat.lt_of_le_of_ne hi heq)
      have hnear := ht.nearer
      obtain ⟨w', hloop, hg', hready, hahead⟩ := ih ht.good ht.le (by omega)
      refine ⟨w', ?_, hg', Nat.le_trans ht.ready hready, fun hm ha => ?_⟩
      · unfold pollLoop
        rw [if_neg heq]
        simp only [hturn]
        exact hloop
      · exact hahead (Nat.le_trans hm ht.ready) (ht.ahead hm ha)

/-! ## The calls -/

/-- What poll(2) may answer: for each slot events that it has, and what is reported always. -/
def Kernel (s : Ctx) : Answer → Prop
  | .EINTR => True
  | .failed => False
  | .revents r => ∀ i < s.pollset_size, r i &&& ((s.pollset i).events ||| always) = r i

/-- When poll(2) reports events, it does so for a slot that has events. -/
def Heard (s : Ctx) : Answer → Prop
  | .revents r => (∃ i < s.pollset_size, r i ≠ 0) →
      ∃ i < s.pollset_size, r i ≠ 0 ∧ (s.pollset i).events ≠ 0
  | _ => True

/-- poll(2) only writes `revents`. -/
theorem Good.report (hg : Good w) {pollset : ℕ → PollFd}
    (hp : ∀ i, (pollset i).fd = (w.1.pollset i).fd ∧ (pollset i).events = (w.1.pollset i).events) :
    Good ({ w.1 with pollset := pollset }, w.2) := by
  refine ⟨⟨fun {i} hi => ?_, fun {i} hi => ?_, fun {k i} hk => ?_, fun {i} hi => ?_⟩, hg.placed,
    hg.linked⟩
  · simp only [(hp i).1]
    exact hg.slots.fd_lt hi
  · simp only [(hp i).1]
    exact hg.slots.idx_fd hi
  · simp only [(hp i).1]
    exact hg.slots.fd_idx hk
  · simp only [(hp i).1, (hp i).2]
    exact hg.slots.events hi

/-- `dill_pollset_poll` has a result, and makes a coroutine ready when it returns 1. -/
theorem pollsetPoll_spec {answer : Answer} (hg : Good w) (hk : Kernel w.1 answer) :
    ∃ r w', pollsetPoll answer w = .ok (r, w') ∧ Good w' ∧
      w.2.ready.length ≤ w'.2.ready.length ∧ (Heard w.1 answer → r ≠ 0 →
        answer = .EINTR ∧ r = -1 ∧ w' = w ∨ w.2.ready.length < w'.2.ready.length) := by
  cases answer with
  | EINTR => exact ⟨-1, w, rfl, hg, Nat.le_refl _, fun _ _ => .inl ⟨rfl, rfl, rfl⟩⟩
  | failed => exact hk.elim
  | revents r =>
    have hrep : Good ({ w.1 with pollset := fun i =>
        if i < w.1.pollset_size then { w.1.pollset i with revents := r i } else w.1.pollset i },
        w.2) := by
      apply hg.report
      intro i
      split
      · exact ⟨rfl, rfl⟩
      · exact ⟨rfl, rfl⟩
    obtain ⟨w', hloop, hg', hready, hahead⟩ :=
      pollLoop_spec hrep (Nat.zero_le _) (Nat.sub_le _ 0)
    refine ⟨if (reported r w.1.pollset_size).length > 0 then 1 else 0, w', ?_, hg', hready,
      fun hheard hr => .inr ?_⟩
    · unfold pollsetPoll
      simp only [hloop]
      rfl
    · have hsome : 0 < (reported r w.1.pollset_size).length := by
        by_contra hno
        rw [if_neg hno] at hr
        exact hr rfl
      obtain ⟨i, hi⟩ := List.exists_mem_of_length_pos hsome
      unfold reported at hi
      rw [List.mem_filter, List.mem_range, decide_eq_true_eq] at hi
      obtain ⟨k, hk', hrev, hev⟩ := hheard ⟨i, hi.1, hi.2⟩
      refine hahead (Nat.le_refl _) (.inr ⟨k, Nat.zero_le k, hk', ?_⟩)
      simp only [if_pos hk']
      exact ⟨hrev, hev, hk k hk'⟩

/-- A slot that is taken into use has no other events than the ones waited for. -/
def Fresh (s : Ctx) (d : Dir) (fd : ℕ) : Prop :=
  (s.fdinfos fd).idx = none → (s.pollset s.pollset_size).events ||| flag d = flag d

theorem side_place : (w.1.place fd).side = w.1.side := by
  unfold Ctx.place
  split
  · rfl
  · show (w.1.setIdx fd _).side = _
    exact side_setIdx

theorem idx_place {k : ℕ} : ((w.1.place fd).fdinfos k).idx =
    if k = fd ∧ (w.1.fdinfos fd).idx = none then some w.1.pollset_size
    else (w.1.fdinfos k).idx := by
  unfold Ctx.place
  split
  · rename_i i hi
    rw [if_neg]
    rintro ⟨-, hno⟩
    rw [hi] at hno
    cases hno
  · rename_i hno
    show ((w.1.setIdx fd _).fdinfos k).idx = _
    rw [idx_setIdx]
    by_cases hk : k = fd
    · rw [if_pos hk, if_pos ⟨hk, hno⟩]
    · rw [if_neg hk, if_neg fun h => hk h.1]

/-- The fd has a slot now, and the events can be set. -/
theorem place_spec (hg : Good w) (hfd : fd < w.1.nfdinfos) (hf : Fresh w.1 d fd) :
    ∃ i, ((w.1.place fd).fdinfos fd).idx = some i ∧
      Slots (fun d' fd' => if (d', fd') = (d, fd) then true else w.1.waited d' fd')
        ((w.1.place fd).setEvents i (· ||| flag d)) := by
  rw [idx_place]
  cases hi : (w.1.fdinfos fd).idx with
  | some i =>
    refine ⟨i, ?_, ?_⟩
    · rw [if_neg fun h => nomatch h.2]
    · have hplace : w.1.place fd = w.1 := by
        unfold Ctx.place
        rw [hi]
      rw [hplace]
      exact hg.slots.setEvents hi fun _ => mask_set
  | none =>
    refine ⟨w.1.pollset_size, if_pos ⟨rfl, rfl⟩, ?_⟩
    refine hg.slots.place hfd hi (fun d' => ?_) (hf hi)
    unfold Ctx.waited
    cases hside : w.1.side d' fd with
    | none => rfl
    | some cl =>
      obtain ⟨i, hi'⟩ := hg.placed hside
      rw [hi] at hi'
      cases hi'

/-- A clause is set for an fd with a slot. -/
theorem wait_spec {cl : FdClause} (hg : Good w) (hfd : fd < w.1.nfdinfos)
    (hr : w.2.isReady cl.cr = false) (hf : Fresh w.1 d fd) :
    ∃ r w', wait d cl fd w = .ok (r, w') ∧ Good w' ∧ w'.2.ready = w.2.ready := by
  obtain ⟨i, hi, hslots⟩ := place_spec hg hfd hf
  have hside : (w.1.place fd).side = w.1.side := side_place
  cases hcl : w.1.side d fd with
  | some cl' =>
    -- somebody waits already, so that the fd has a slot
    obtain ⟨j, hj⟩ := hg.placed hcl
    have hplace : w.1.place fd = w.1 := by
      unfold Ctx.place
      rw [hj]
    refine ⟨.error .EBUSY, w, ?_, hg, rfl⟩
    have hbusy : ((w.1.fdinfos fd).clause d).isSome = true := by
      have hcl' : (w.1.fdinfos fd).clause d = some cl' := hcl
      rw [hcl']
      rfl
    unfold wait
    simp only [hplace, hbusy, if_true]
  | none =>
    refine ⟨.ok (), (((w.1.place fd).setEvents i (· ||| flag d)).setClause d fd (some cl),
      w.2.waitfor cl.cr d fd), ?_, ⟨?_, ?_, ?_⟩, rfl⟩
    · have hfree : (((w.1.place fd).fdinfos fd).clause d).isSome = false := by
        have hcl' : (w.1.place fd).side d fd = none := hside ▸ hcl
        have hcl'' : ((w.1.place fd).fdinfos fd).clause d = none := hcl'
        rw [hcl'']
        rfl
      unfold wait
      simp only [hfree, hi, Bool.false_eq_true, if_false]
    · have hwait : (((w.1.place fd).setEvents i (· ||| flag d)).setClause d fd (some cl)).waited =
          fun d' fd' => if (d', fd') = (d, fd) then true else w.1.waited d' fd' := by
        funext d' fd'
        unfold Ctx.waited
        rw [side_setClause]
        split
        · rfl
        · show ((w.1.place fd).side d' fd').isSome = _
          rw [hside]
      show Slots (Ctx.waited _) _
      rw [hwait]
      exact hslots.setClause
    · intro d' fd' cl' hcl'
      have hcl'' : (((w.1.place fd).setEvents i (· ||| flag d)).setClause d fd (some cl)).side d' fd' =
        some cl' := hcl'
      have hsame : SameSlots (w.1.place fd)
          (((w.1.place fd).setEvents i (· ||| flag d)).setClause d fd (some cl)) :=
        sameSlots_setEvents.trans sameSlots_setClause
      show ∃ j, (Ctx.fdinfos _ fd').idx = some j
      rw [hsame.idx]
      rw [side_setClause] at hcl''
      split at hcl''
      · rename_i heq
        cases heq
        exact ⟨i, hi⟩
      · have hold : w.1.side d' fd' = some cl' := by
          rw [← hside]
          exact hcl''
        obtain ⟨j, hj⟩ := hg.placed hold
        rw [idx_place]
        split
        · exact ⟨_, rfl⟩
        · exact ⟨j, hj⟩
    · refine hg.linked.waitfor hr hcl fun d' fd' => ?_
      show Ctx.side _ d' fd' = _
      rw [side_setClause]
      split
      · rfl
      · show (w.1.place fd).side d' fd' = _
        rw [hside]

/-- The flag `cached` has nothing to do with the slots. -/
theorem Good.setCached (hg : Good w) (fd : ℕ) (b : Bool) :
    Good (w.1.setFdInfo fd fun f => { f with cached := b }, w.2) := by
  have hidx : ∀ k, ((w.1.setFdInfo fd fun f => { f with cached := b }).fdinfos k).idx =
      (w.1.fdinfos k).idx := by
    intro k
    unfold Ctx.setFdInfo
    simp only [Function.update_apply]
    split
    · rename_i hk
      rw [hk]
    · rfl
  have hside : (w.1.setFdInfo fd fun f => { f with cached := b }).side = w.1.side := by
    funext d k
    unfold Ctx.side Ctx.setFdInfo
    simp only [Function.update_apply]
    split
    · rename_i hk
      rw [hk]
    · rfl
  refine ⟨?_, ?_, ?_⟩
  · have hwait : (w.1.setFdInfo fd fun f => { f with cached := b }).waited = w.1.waited := by
      unfold Ctx.waited
      rw [hside]
    show Slots (Ctx.waited _) _
    rw [hwait]
    exact hg.slots.congr ⟨rfl, rfl, fun _ => rfl, fun _ => rfl, hidx⟩ fun hi => hg.slots.events hi
  · intro d k cl hcl
    have hcl' : (w.1.setFdInfo fd fun f => { f with cached := b }).side d k = some cl := hcl
    rw [hside] at hcl'
    obtain ⟨i, hi⟩ := hg.placed hcl'
    exact ⟨i, (hidx k).trans hi⟩
  · show Linked (Ctx.side _) _
    rw [hside]
    exact hg.linked

theorem pollsetWait_spec {cl : FdClause} {k : ℤ} {getfd : Except Errno Unit} (hg : Good w)
    (hget : ∀ e, getfd = .error e → e = .EBADF) (hr : w.2.isReady cl.cr = false)
    (hf : 0 ≤ k → k < w.1.nfdinfos → (w.1.fdinfos k.toNat).cached = true ∨ getfd = .ok () →
      Fresh w.1 d k.toNat) :
    ∃ r w', pollsetWait d cl k getfd w = .ok (r, w') ∧ Good w' ∧ w'.2.ready = w.2.ready := by
  unfold pollsetWait
  split
  · exact ⟨_, w, rfl, hg, rfl⟩
  · rename_i hrange
    have hlt : k.toNat < w.1.nfdinfos := by omega
    have hfresh := hf (by omega) (by omega)
    split
    · rename_i hcached
      exact wait_spec hg hlt hr (hfresh (.inl hcached))
    · cases getfd with
      | error e =>
        cases hget e rfl
        exact ⟨_, w, rfl, hg, rfl⟩
      | ok u =>
        apply wait_spec (hg.setCached k.toNat true) hlt hr
        intro hidx
        apply hfresh (.inr rfl)
        rw [← hidx]
        unfold Ctx.setFdInfo
        simp only [Function.update_self]

theorem pollsetClean_spec (hg : Good w) : Good ((pollsetClean fd w.1).2, w.2) := by
  unfold pollsetClean
  dsimp only
  split
  · exact hg
  · split
    · exact hg
    · rename_i hno
      have hwait : ∀ d, w.1.waited d fd = false := by
        intro d
        rw [Bool.or_eq_true, not_or, Bool.not_eq_true, Bool.not_eq_true] at hno
        cases d with
        | inp => exact hno.1
        | out => exact hno.2
      cases hi : (w.1.fdinfos fd).idx with
      | none => exact hg.setCached fd false
      | some i => exact (hg.vacate hi hwait (hg.slots.vacated_clean hi)).setCached fd false

/-- `dill_pollset_poll` makes a coroutine ready when it returns a positive number. -/
theorem sound : Sound backend Good Kernel Heard where
  docancel id err hg hr := by
    obtain ⟨w', hw', hg', -, hready⟩ := hg.docancel id err hr
    exact ⟨w', hw', hg', hready⟩
  poll hg hk := by
    obtain ⟨r, w', hw', hg', hle, hr⟩ := pollsetPoll_spec hg hk
    refine ⟨r, w', hw', hg', hle, fun hh hpos => ?_⟩
    rcases hr hh (Int.ne_of_gt hpos) with ⟨-, hminus, -⟩ | hlt
    · omega
    · exact hlt
  pop hg hp := ⟨hg.slots, hg.placed, hg.linked.pop hp⟩

/-! ## Runs -/

/-- The calls, with the answers of the kernel. `cancel` is any triggering of a coroutine or of
another of its clauses. -/
inductive Act
  | wait (d : Dir) (cl : FdClause) (fd : ℤ) (getfd : Except Errno Unit)
  | clean (fd : ℕ)
  | poll (answer : Answer)
  | cancel (cr : ℕ) (id err : ℤ)
  | dillWait (due : Bool) (rounds : List (Round Answer))

def step (w : World) : Act → Except Stop World
  | .wait d cl fd getfd => (pollsetWait d cl fd getfd w).map Prod.snd
  | .clean fd => .ok ((pollsetClean fd w.1).2, w.2)
  | .poll answer => (pollsetPoll answer w).map Prod.snd
  | .cancel cr id err => docancel fdcancel cr id err w
  | .dillWait due rounds => dillWait backend due rounds w

/-- Nothing has been called yet; the memory of the pollset has any contents. -/
def Init (w : World) : Prop := ∃ nfdinfos memory, w = (Ctx.init nfdinfos memory, .init)

/-- What callers and the kernel promise: clauses are set by coroutines that are not ready, only
these are triggered, `dill_pollset_clean` gets a descriptor, fcntl(2) fails only for descriptors
that are not open, and poll(2) only reports what may be reported. -/
def Allowed (w : World) : Act → Prop
  | .wait _ cl _ getfd => w.2.isReady cl.cr = false ∧ ∀ e, getfd = .error e → e = .EBADF
  | .clean fd => fd < w.1.nfdinfos
  | .poll answer => Kernel w.1 answer
  | .cancel cr _ _ => w.2.isReady cr = false
  | .dillWait _ rounds => Along backend Kernel w.2.ready.isEmpty rounds w

/-- A slot that is taken into use has no old events, and when poll(2) reports something, then not
only errors of descriptors that nobody waits for. -/
def Clear (w : World) : Act → Prop
  | .wait d _ fd getfd => 0 ≤ fd → fd < w.1.nfdinfos →
    (w.1.fdinfos fd.toNat).cached = true ∨ getfd = .ok () → Fresh w.1 d fd.toNat
  | .poll answer => Heard w.1 answer
  | .dillWait _ rounds => Along backend Heard w.2.ready.isEmpty rounds w
  | _ => True

theorem good_init (h : Init w) : Good w := by
  obtain ⟨nfdinfos, memory, rfl⟩ := h
  exact ⟨⟨nofun, nofun, nofun, nofun⟩, nofun, linked_init⟩

theorem step_spec {a : Act} (hg : Good w) (ha : Allowed w a) (hc : Clear w a) :
    Post (step w a) Good fun e => e = .blocked := by
  cases a with
  | wait d cl fd getfd =>
    obtain ⟨r, w', hw', hg', -⟩ := pollsetWait_spec hg ha.2 ha.1 hc
    unfold step
    simp only [hw']
    exact hg'
  | clean fd => exact pollsetClean_spec hg
  | poll answer =>
    obtain ⟨r, w', hw', hg', -⟩ := pollsetPoll_spec hg ha
    unfold step
    simp only [hw']
    exact hg'
  | cancel cr id err =>
    obtain ⟨w', hw', hg', -⟩ := hg.docancel id err ha
    unfold step
    simp only [hw']
    exact hg'
  | dillWait due rounds => exact dillWait_spec sound hg ha hc

theorem reach_good (h : Reach step Init (fun w a => Allowed w a ∧ Clear w a) w) : Good w := by
  apply h.invariant (I := Good)
  · exact fun w => good_init
  · intro w a w' hg ha hr
    exact (step_spec hg ha.1 ha.2).of_ok hr

/-- What the pollset keeps. -/
structure Bookkeeping (w : World) : Prop where
  /-- The descriptors with a slot and the slots in use are in bijection. -/
  slots : ∀ fd i, (w.1.fdinfos fd).idx = some i ↔ i < w.1.pollset_size ∧ (w.1.pollset i).fd = fd
  /-- There is room for all slots. -/
  room : w.1.pollset_size ≤ w.1.nfdinfos
  /-- The events of a slot in use are those that somebody waits for. -/
  events : ∀ i, i < w.1.pollset_size → (w.1.pollset i).events =
    (if (w.1.side .inp (w.1.pollset i).fd).isSome then POLLIN else 0) |||
      (if (w.1.side .out (w.1.pollset i).fd).isSome then POLLOUT else 0)
  /-- `dill_pollset_poll` returns something other than 0 when it is interrupted, or has made a
  coroutine ready. -/
  poll : ∀ answer, Allowed w (.poll answer) → Clear w (.poll answer) →
    ∃ r w', pollsetPoll answer w = .ok (r, w') ∧ (r ≠ 0 →
      answer = .EINTR ∧ r = -1 ∧ w' = w ∨ w.2.ready.length < w'.2.ready.length)
  /-- No call fails an assertion or uses a slot or a coroutine that is not there. -/
  safe : ∀ a, Allowed w a → Clear w a → ∀ e, step w a = .error e → e = .blocked

/-- Different slots have different descriptors. -/
theorem Slots.size_le {W : Dir → ℕ → Bool} {s : Ctx} (h : Slots W s) :
    s.pollset_size ≤ s.nfdinfos := by
  have hcard := Fintype.card_le_of_injective
    (fun i : Fin s.pollset_size => (⟨(s.pollset i).fd, h.fd_lt i.isLt⟩ : Fin s.nfdinfos)) ?_
  · rw [Fintype.card_fin, Fintype.card_fin] at hcard
    exact hcard
  · intro i j hij
    have hfd : (s.pollset i).fd = (s.pollset j).fd := congrArg Fin.val hij
    have hi := h.idx_fd i.isLt
    rw [hfd, h.idx_fd j.isLt] at hi
    exact Fin.ext (Option.some.inj hi).symm

/-- **The bookkeeping of the pollset.** -/
theorem poll_bookkeeping (h : Reach step Init (fun w a => Allowed w a ∧ Clear w a) w) :
    Bookkeeping w := by
  have hg := reach_good h
  refine ⟨fun fd i => ⟨hg.slots.fd_idx, ?_⟩, hg.slots.size_le, fun i hi => hg.slots.events hi,
    fun answer ha hc => ?_, fun a ha hc e he => (step_spec hg ha hc).of_error he⟩
  · rintro ⟨hi, rfl⟩
    exact hg.slots.idx_fd hi
  · obtain ⟨r, w', hw', -, -, hr⟩ := pollsetPoll_spec hg ha
    exact ⟨r, w', hw', hr hc⟩

/-- The first coroutine waits for the fd 0. -/
def waitIn : Act := .wait .inp ⟨0, 1⟩ 0 (.ok ())

/-- A pollset for one fd, in memory with the given events. -/
def start (events : Events) : World := (Ctx.init 1 fun _ => ⟨0, events, 0⟩, .init)

/-- The memory is cleared, and a coroutine waits. -/
theorem poll_bookkeeping_cleared : ∃ w, step (start 0) waitIn = .ok w ∧ Bookkeeping w :=
  ⟨_, rfl, poll_bookkeeping (.step waitIn (.init ⟨1, _, rfl⟩)
    ⟨⟨rfl, nofun⟩, fun _ _ _ _ => by decide⟩ rfl)⟩

/-- The coroutine waits, its deadline expires, and it runs again. -/
def timedOut : List Act := [waitIn, .cancel 0 2 ETIMEDOUT, .dillWait false []]

/-- When the memory is not cleared, the slot has an event that nobody waits for. And when the fd is
hung up while nobody waits for it, and the coroutine waits for something else, `dill_pollset_poll`
returns 1 and `dill_wait` pops from an empty ready queue. -/
theorem stale_events_and_hangup :
    (∃ w, step (start POLLOUT) waitIn = .ok w ∧ ¬ Bookkeeping w) ∧
    ∃ w w', run step (start 0) timedOut = .ok w ∧ w.2.ready = [] ∧
      pollsetPoll (.revents fun _ => POLLHUP) w = .ok (1, w') ∧ w'.2.ready = [] ∧
      step w (.dillWait false [⟨.revents fun _ => POLLHUP, []⟩]) = .error .fault := by
  refine ⟨⟨_, rfl, fun h => ?_⟩, _, _, rfl, rfl, rfl, rfl, rfl⟩
  have hevents := h.events 0 Nat.one_pos
  exact absurd hevents (by decide)

end Libdill.Pollset.Poll
