import Libdill.Pollset.Flush

/-!
# Runs with the pollset of epoll(7)

Any sequence of the calls of the pollset, with any answers from the kernel.

* `docancel_spec`, `fireAll_spec`, `pollsetPoll_spec`, `pollsetWait_spec`: what the calls do.
* `epoll_bookkeeping`: the invariant along every run.
-/

namespace Libdill.Pollset.Epoll

open Foundations Libdill.Sock

variable {w w' : World} {s : Ctx} {d : Dir} {fd k cr : ℕ} {events : Events}

/-- The invariant of the pollset and of the coroutines. -/
structure Good (w : World) : Prop where
  book : Book w.1
  linked : Linked w.1.side w.2

/-! ## Triggering -/

/-- A coroutine that is not ready is made ready, and its clauses are cancelled. -/
theorem Good.docancel (hg : Good w) (id err : ℤ) (hr : w.2.isReady cr = false) :
    ∃ w', docancel fdcancel cr id err w = .ok w' ∧ Good w' ∧ Same w.1 w'.1 ∧
      w'.1.side = without (w.2.clauses cr) w.1.side ∧
      w'.2.ready = w.2.ready ++ [⟨cr, id, err⟩] := by
  have hcached : ∀ x ∈ w.2.clauses cr, (w.1.fdinfos x.2).cached = true := by
    rintro ⟨d, fd⟩ hx
    obtain ⟨cl, hcl, -⟩ := hg.linked.listed hr hx
    exact hg.book.cached_of_side hcl
  obtain ⟨s, hcancel, hc⟩ := hg.book.cancelAll hcached
  refine ⟨(s, w.2.resume cr id err), ?_, ⟨hc.book, ?_⟩, hc.same, hc.side, rfl⟩
  · unfold Pollset.docancel
    rw [hr, hcancel]
    rfl
  · show Linked s.side _
    rw [hc.side]
    exact hg.linked.resume hr

/-- A cached descriptor is put on the changelist. -/
theorem Good.push (hg : Good w) (hc : (w.1.fdinfos fd).cached = true) : Good (w.1.push fd, w.2) := by
  have hok := hg.book.fds fd
  refine ⟨(book_push fd hg.book.listed hg.book.small (fun k _ => hg.book.fds k) hc hok.interest
    (hok.present hc)).1, ?_⟩
  show Linked (w.1.push fd).side w.2
  rw [(same_push w.1 fd).2]
  exact hg.linked

/-- There is a clause for the direction, and an event for it is reported. -/
def Hit (d : Dir) (fd : ℕ) (events : Events) (w : World) : Prop :=
  (w.1.side d fd).isSome = true ∧ events &&& (flag d ||| always) ≠ 0

theorem fire_spec (d : Dir) (fd : ℕ) (events : Events) (hg : Good w) :
    ∃ w', fire d fd events w = .ok w' ∧ Good w' ∧
      ((w' = w ∧ ¬ Hit d fd events w) ∨ w'.2.ready.length = w.2.ready.length + 1) := by
  unfold fire
  cases hcl : w.1.side d fd with
  | none =>
    have hcl' : (w.1.fdinfos fd).clause d = none := hcl
    simp only [hcl']
    refine ⟨w, rfl, hg, .inl ⟨rfl, fun hhit => ?_⟩⟩
    have hsome := hhit.1
    rw [hcl] at hsome
    cases hsome
  | some cl =>
    have hcl' : (w.1.fdinfos fd).clause d = some cl := hcl
    simp only [hcl']
    split
    · rename_i hrev
      exact ⟨w, rfl, hg, .inl ⟨rfl, fun hhit => hhit.2 hrev⟩⟩
    · obtain ⟨hr, -⟩ := hg.linked.owner hcl
      have hc := hg.book.cached_of_side hcl
      obtain ⟨w₁, hw₁, hg₁, hsame, -, hready⟩ := hg.docancel cl.id 0 hr
      have hlen : w₁.2.ready.length = w.2.ready.length + 1 := by
        rw [hready]
        exact List.length_append
      have htrigger : trigger fdcancel cl 0 w = .ok w₁ := hw₁
      refine ⟨(if ((w₁.1.fdinfos fd).clause d).isNone then w₁.1.push fd else w₁.1, w₁.2), ?_, ?_,
        .inr hlen⟩
      · rw [htrigger]
        rfl
      · split
        · exact hg₁.push ((hsame.cached fd).trans hc)
        · exact ⟨hg₁.book, hg₁.linked⟩

/-- An event that is reported for a descriptor that is up to date triggers a clause. -/
theorem exists_hit {reg : Events} (hi : w.1.kernel.interest fd = some reg)
    (hok : w.1.kernel.interest fd = interestOf (w.1.fdinfos fd).wanted) (he : events ≠ 0)
    (hsub : events &&& (reg ||| always) = events) : ∃ d, Hit d fd events w := by
  rw [hi] at hok
  unfold interestOf at hok
  split at hok
  · cases hok
  · rename_i hne
    cases hok
    rcases exists_flag he hne hsub with ⟨hs, hcommon⟩ | ⟨hs, hcommon⟩
    · exact ⟨.inp, hs, hcommon⟩
    · exact ⟨.out, hs, hcommon⟩

theorem fireAll_spec (evs : List (ℕ × Events)) (hg : Good w) :
    ∃ w', fireAll evs w = .ok w' ∧ Good w' ∧ w.2.ready.length ≤ w'.2.ready.length ∧
      ∀ x evs', evs = x :: evs' → (∃ d, Hit d x.1 x.2 w) →
        w.2.ready.length < w'.2.ready.length := by
  induction evs generalizing w with
  | nil => exact ⟨w, rfl, hg, Nat.le_refl _, nofun⟩
  | cons x evs ih =>
    obtain ⟨fd, events⟩ := x
    obtain ⟨w₁, hw₁, hg₁, hr₁⟩ := fire_spec .inp fd events hg
    obtain ⟨w₂, hw₂, hg₂, hr₂⟩ := fire_spec .out fd events hg₁
    obtain ⟨w', hw', hg', hle, -⟩ := ih hg₂
    have hle₁ : w.2.ready.length ≤ w₁.2.ready.length := by
      rcases hr₁ with ⟨rfl, -⟩ | hr₁
      · exact Nat.le_refl _
      · omega
    have hle₂ : w₁.2.ready.length ≤ w₂.2.ready.length := by
      rcases hr₂ with ⟨rfl, -⟩ | hr₂
      · exact Nat.le_refl _
      · omega
    refine ⟨w', ?_, hg', by omega, fun x evs' heq hhit => ?_⟩
    · unfold fireAll
      simp only [hw₁, hw₂, bind, Except.bind]
      exact hw'
    · cases heq
      obtain ⟨d, hhit⟩ := hhit
      rcases hr₁ with ⟨rfl, hno₁⟩ | hr₁
      · rcases hr₂ with ⟨rfl, hno₂⟩ | hr₂
        · cases d with
          | inp => exact absurd hhit hno₁
          | out => exact absurd hhit hno₂
        · omega
      · omega

/-! ## The calls -/

/-- What epoll_wait(2) may report: at most as many descriptors as fit, each of them once, with the
events that are registered for it and those that are reported always. -/
def Reports (s : Ctx) : Answer → Prop
  | .EINTR => True
  | .failed => False
  | .events evs => evs.length ≤ 128 ∧ (evs.map Prod.fst).Nodup ∧ ∀ x ∈ evs, ∃ reg,
    s.kernel.interest x.1 = some reg ∧ x.2 ≠ 0 ∧ x.2 &&& (reg ||| always) = x.2

/-- The answer is one for the pollset that is up to date. -/
def Reported (s : Ctx) (answer : Answer) : Prop :=
  ∀ s', flush (s.nfdinfos + 1) s = .ok s' → Reports s' answer

/-- The interest of the kernel is the wanted one. -/
theorem interest_flush (hg : Good w) : ∃ s', flush (w.1.nfdinfos + 1) w.1 = .ok s' ∧
    Good (s', w.2) ∧ s'.changelist = DILL_ENDLIST ∧ s'.side = w.1.side ∧
    ∀ fd, s'.kernel.interest fd = interestOf (s'.fdinfos fd).wanted := by
  obtain ⟨l, hl⟩ := hg.book.listed
  obtain ⟨s', hs', hb', hk', hend, hcur⟩ :=
    flush_spec hg.book hl (Nat.le_succ_of_le (hg.book.length_le hl))
  refine ⟨s', hs', ⟨hb', ?_⟩, hend, hk'.side, fun fd => ?_⟩
  · show Linked s'.side w.2
    rw [hk'.side]
    exact hg.linked
  · rw [← hcur fd]
    exact (hb'.fds fd).interest

/-- `dill_pollset_poll` has a result, and makes a coroutine ready when it returns 1. -/
theorem pollsetPoll_spec {answer : Answer} (hg : Good w) (hk : Reported w.1 answer) :
    ∃ r w', pollsetPoll answer w = .ok (r, w') ∧ Good w' ∧
      w.2.ready.length ≤ w'.2.ready.length ∧
      (r ≠ 0 → answer = .EINTR ∧ r = -1 ∨ w.2.ready.length < w'.2.ready.length) := by
  obtain ⟨s, hs, hg₁, -, -, hi⟩ := interest_flush hg
  have hrep := hk s hs
  unfold pollsetPoll
  rw [hs]
  cases answer with
  | EINTR => exact ⟨-1, (s, w.2), rfl, hg₁, Nat.le_refl _, fun _ => .inl ⟨rfl, rfl⟩⟩
  | failed => exact hrep.elim
  | events evs =>
    obtain ⟨w', hw', hg', hle, hhit⟩ := fireAll_spec evs hg₁
    refine ⟨if evs.length > 0 then 1 else 0, w', ?_, hg', hle, fun hr => .inr ?_⟩
    · simp only [bind, Except.bind, hw']
      rfl
    · cases evs with
      | nil => exact absurd rfl hr
      | cons x evs =>
        obtain ⟨reg, hreg, he, hsub⟩ := hrep.2.2 x List.mem_cons_self
        exact hhit x evs rfl (exists_hit hreg (hi x.1) he hsub)

/-- A clause is set for a cached descriptor, which is put on the changelist. -/
theorem wait_spec {cl : FdClause} (hl : ∃ l, Listed l w.1) (hsmall : w.1.nfdinfos < DILL_ENDLIST)
    (ho : ∀ k, k ≠ fd → FdOk w.1 k (w.1.fdinfos k)) (hc : (w.1.fdinfos fd).cached = true)
    (hi : w.1.kernel.interest fd = interestOf (w.1.fdinfos fd).currevs)
    (hp : w.1.kernel.refuses fd = none ∧ fd < w.1.nfdinfos) (hlinked : Linked w.1.side w.2)
    (hr : w.2.isReady cl.cr = false) (hfree : w.1.side d fd = none) :
    Good (wait d cl fd w).2 ∧ (wait d cl fd w).2.2.ready = w.2.ready := by
  have hnone : ((w.1.fdinfos fd).clause d).isSome = false := by
    have hcl : (w.1.fdinfos fd).clause d = none := hfree
    rw [hcl]
    rfl
  unfold wait
  simp only [hnone, Bool.false_eq_true, if_false]
  obtain ⟨hb, hnext⟩ := book_push fd hl hsmall ho hc hi hp
  refine ⟨⟨hb.setClause hnext, ?_⟩, rfl⟩
  refine hlinked.waitfor hr hfree fun d' fd' => ?_
  show Ctx.side _ d' fd' = _
  rw [side_setClause, (same_push w.1 fd).2]

theorem flag_ne_zero : flag d ≠ 0 := by
  cases d <;> decide

theorem pollsetWait_spec {cl : FdClause} {n : ℤ} (hg : Good w) (hr : w.2.isReady cl.cr = false) :
    Good (pollsetWait d cl n w).2 ∧ (pollsetWait d cl n w).2.2.ready = w.2.ready := by
  unfold pollsetWait
  split
  · exact ⟨hg, rfl⟩
  · rename_i hrange
    have hlt : n.toNat < w.1.nfdinfos := by omega
    have hok := hg.book.fds n.toNat
    split
    · rename_i hc
      cases hcl : w.1.side d n.toNat with
      | none =>
        exact wait_spec hg.book.listed hg.book.small (fun k _ => hg.book.fds k) hc hok.interest
          (hok.present hc) hg.linked hr hcl
      | some cl' =>
        have hcl' : (w.1.fdinfos n.toNat).clause d = some cl' := hcl
        have hbusy : ((w.1.fdinfos n.toNat).clause d).isSome = true := by
          rw [hcl']
          rfl
        unfold wait
        rw [if_pos hbusy]
        exact ⟨hg, rfl⟩
    · rename_i hc
      rw [Bool.not_eq_true] at hc
      obtain ⟨hcur, hnext, hcl⟩ := hok.uncached hc
      have hi := hok.interest
      rw [interestOf_eq_none.mpr hcur] at hi
      split
      · exact ⟨hg, rfl⟩
      · rename_i kernel hadd
        -- the kernel has added the descriptor
        unfold Kernel.epollCtl at hadd
        simp only [hi] at hadd
        split at hadd
        · cases hadd
        · rename_i href
          cases hadd
          obtain ⟨l, hl⟩ := hg.book.listed
          have hside : (w.1.cache (w.1.kernel.register n.toNat (some (flag d))) d n.toNat).side =
              w.1.side := by
            funext d' k
            unfold Ctx.side Ctx.cache
            rw [fdinfos_setFdInfo]
            split
            · rename_i hk
              rw [hk]
              exact (hcl d').symm
            · rfl
          apply wait_spec
            (w := (w.1.cache (w.1.kernel.register n.toNat (some (flag d))) d n.toNat, w.2))
          · exact ⟨l, hl.congr (link_setFdInfo_same hnext.symm)⟩
          · exact hg.book.small
          · intro k hk
            have hok' := hg.book.fds k
            unfold Ctx.cache
            simp only [fdinfos_setFdInfo, if_neg hk]
            refine ⟨hok'.uncached, ?_, hok'.changed, hok'.present⟩
            rw [← hok'.interest]
            exact Function.update_of_ne hk _ _
          · unfold Ctx.cache
            rw [fdinfos_setFdInfo_self]
          · unfold Ctx.cache
            rw [fdinfos_setFdInfo_self]
            unfold interestOf
            rw [if_neg flag_ne_zero]
            exact Function.update_self _ _ _
          · exact ⟨href, hlt⟩
          · show Linked (Ctx.side _) w.2
            rw [hside]
            exact hg.linked
          · exact hr
          · show Ctx.side _ d n.toNat = none
            rw [hside]
            exact hcl d

/-- `dill_pollset_poll` makes a coroutine ready when it returns a positive number. -/
theorem sound : Sound backend Good Reported fun _ _ => True where
  docancel id err hg hr := by
    obtain ⟨w', hw', hg', -, -, hready⟩ := hg.docancel id err hr
    exact ⟨w', hw', hg', hready⟩
  poll hg hk := by
    obtain ⟨r, w', hw', hg', hle, hr⟩ := pollsetPoll_spec hg hk
    refine ⟨r, w', hw', hg', hle, fun _ hpos => ?_⟩
    rcases hr (Int.ne_of_gt hpos) with ⟨-, hminus⟩ | hlt
    · omega
    · exact hlt
  pop hg hp := ⟨hg.book, hg.linked.pop hp⟩

/-! ## Runs -/

/-- The calls, with the answers of the kernel. `cancel` is any triggering of a coroutine or of
another of its clauses, and with `fd` a descriptor is opened or closed. -/
inductive Act
  | wait (d : Dir) (cl : FdClause) (fd : ℤ)
  | clean (fd : ℕ)
  | poll (answer : Answer)
  | cancel (cr : ℕ) (id err : ℤ)
  | dillWait (due : Bool) (rounds : List (Round Answer))
  | fd (fd : ℕ) (refuses : Option Errno)

def step (w : World) : Act → Except Stop World
  | .wait d cl fd => .ok (pollsetWait d cl fd w).2
  | .clean fd => (pollsetClean fd w.1).map fun p => (p.2, w.2)
  | .poll answer => (pollsetPoll answer w).map Prod.snd
  | .cancel cr id err => docancel fdcancel cr id err w
  | .dillWait due rounds => dillWait backend due rounds w
  | .fd fd refuses =>
    let kernel := { w.1.kernel with refuses := Function.update w.1.kernel.refuses fd refuses }
    .ok ({ w.1 with kernel := kernel }, w.2)

/-- Nothing has been called yet. The number of descriptors is an `int`. -/
def Init (w : World) : Prop :=
  ∃ nfdinfos refuses, nfdinfos < 2 ^ 31 ∧ w = (Ctx.init nfdinfos refuses, .init)

/-- What callers and the kernel promise: clauses are set by coroutines that are not ready, only
these are triggered, `dill_pollset_clean` gets a descriptor, epoll_wait(2) only reports what may be
reported, and descriptors are not closed while they are cached. -/
def Allowed (w : World) : Act → Prop
  | .wait _ cl _ => w.2.isReady cl.cr = false
  | .clean fd => fd < w.1.nfdinfos
  | .poll answer => Reported w.1 answer
  | .cancel cr _ _ => w.2.isReady cr = false
  | .dillWait _ rounds => Along backend Reported w.2.ready.isEmpty rounds w
  | .fd fd _ => (w.1.fdinfos fd).cached = false

theorem listed_init {nfdinfos : ℕ} {refuses : ℕ → Option Errno} :
    Listed [] (Ctx.init nfdinfos refuses) := by
  refine ⟨rfl, List.nodup_nil, fun {k} => iff_of_false nofun ?_⟩
  rintro ⟨hk, hne⟩
  cases k with
  | zero => cases hk
  | succ k => exact hne rfl

theorem good_init (h : Init w) : Good w := by
  obtain ⟨nfdinfos, refuses, hn, rfl⟩ := h
  refine ⟨⟨⟨[], listed_init⟩, fun fd => ⟨fun _ => ⟨rfl, rfl, fun _ => rfl⟩, rfl, ?_, nofun⟩, ?_⟩,
    linked_init⟩
  · intro hne
    have heq : (0 : Events) = FdInfo.wanted ⟨fun _ => none, 0, 0, false⟩ := rfl
    exact absurd heq hne
  · show nfdinfos < 0xffffffff
    omega

theorem along_true {rounds : List (Round Answer)} {block : Bool} :
    Along backend (fun _ _ => True) block rounds w := by
  induction rounds generalizing w with
  | nil => trivial
  | cons r rounds ih => exact ⟨trivial, fun w' _ => ih⟩

theorem step_spec {a : Act} (hg : Good w) (ha : Allowed w a) :
    Post (step w a) Good fun e => e = .blocked := by
  cases a with
  | wait d cl fd => exact (pollsetWait_spec hg ha).1
  | clean fd =>
    obtain ⟨l, hl⟩ := hg.book.listed
    obtain ⟨r, s', hs', hb', hres⟩ := hg.book.clean hl fd
    unfold step
    simp only [hs']
    refine ⟨hb', ?_⟩
    show Linked s'.side w.2
    rcases hres with ⟨-, hc⟩ | ⟨-, rfl⟩
    · rw [hc.side]
      exact hg.linked
    · exact hg.linked
  | poll answer =>
    obtain ⟨r, w', hw', hg', -⟩ := pollsetPoll_spec hg ha
    unfold step
    simp only [hw']
    exact hg'
  | cancel cr id err =>
    obtain ⟨w', hw', hg', -⟩ := hg.docancel id err ha
    unfold step
    simp only [hw']
    exact hg'
  | dillWait due rounds => exact dillWait_spec sound hg ha along_true
  | fd fd refuses =>
    have hfds : ∀ k, FdOk { w.1 with kernel := { w.1.kernel with
        refuses := Function.update w.1.kernel.refuses fd refuses } } k (w.1.fdinfos k) := by
      intro k
      have hok := hg.book.fds k
      refine ⟨hok.uncached, hok.interest, hok.changed, fun hc => ⟨?_, (hok.present hc).2⟩⟩
      have hk : k ≠ fd := by
        rintro rfl
        have ha' : (w.1.fdinfos k).cached = false := ha
        rw [hc] at ha'
        cases ha'
      exact (Function.update_of_ne hk _ _).trans (hok.present hc).1
    obtain ⟨l, hl⟩ := hg.book.listed
    exact ⟨⟨⟨l, hl.congr rfl⟩, hfds, hg.book.small⟩, hg.linked⟩

theorem reach_good (h : Reach step Init Allowed w) : Good w := by
  apply h.invariant (I := Good)
  · exact fun w => good_init
  · intro w a w' hg ha hr
    exact (step_spec hg ha).of_ok hr

/-- The changelist. -/
structure Linking (l : List ℕ) (s : Ctx) : Prop where
  /-- It is a list that ends in the end mark. -/
  chain : Chain s.link s.changelist l DILL_ENDLIST
  /-- No descriptor occurs twice. -/
  nodup : l.Nodup
  range : ∀ k ∈ l, 0 < k ∧ k ≤ s.nfdinfos
  /-- The descriptors on it have a link. -/
  next : ∀ fd, (s.fdinfos fd).next ≠ 0 ↔ fd + 1 ∈ l
  /-- The descriptors whose cached events are out of date are on it. -/
  changed : ∀ fd, (s.fdinfos fd).cached = true →
    (s.fdinfos fd).wanted ≠ (s.fdinfos fd).currevs → fd + 1 ∈ l

/-- What the pollset keeps. -/
structure Bookkeeping (w : World) : Prop where
  changelist : ∃ l, Linking l w.1 ∧ ∀ fd, ∃ r s', pollsetClean fd w.1 = .ok (r, s') ∧
    (r = .ok () ∧ Linking (l.erase (fd + 1)) s' ∧ s'.kernel = w.1.kernel.register fd none ∨
      r = .error .EBUSY ∧ s' = w.1)
  /-- The kernel is interested in the cached events. -/
  interest : ∀ fd, w.1.kernel.interest fd = interestOf (w.1.fdinfos fd).currevs
  /-- After the first loop of `dill_pollset_poll` it is interested in what is wanted. -/
  flushed : ∃ s', flush (w.1.nfdinfos + 1) w.1 = .ok s' ∧ s'.changelist = DILL_ENDLIST ∧
    s'.side = w.1.side ∧ ∀ fd, s'.kernel.interest fd = interestOf (s'.fdinfos fd).wanted
  /-- `dill_pollset_poll` returns, and when it returns something other than 0 it has been
  interrupted or has made a coroutine ready. -/
  poll : ∀ answer, Allowed w (.poll answer) → ∃ r w', pollsetPoll answer w = .ok (r, w') ∧
    (r ≠ 0 → answer = .EINTR ∧ r = -1 ∨ w.2.ready.length < w'.2.ready.length)
  /-- No call fails an assertion, and `dill_wait` does not pop from an empty ready queue. -/
  safe : ∀ a, Allowed w a → ∀ e, step w a = .error e → e = .blocked

theorem Book.linking {s : Ctx} {l : List ℕ} (h : Book s) (hl : Listed l s) : Linking l s := by
  refine ⟨hl.chain, hl.nodup, fun k hk => h.le hl hk, fun fd => ⟨fun hne => ?_, fun hm => ?_⟩,
    fun fd _ hne => ?_⟩
  · exact hl.mem.mpr ⟨Nat.succ_pos fd, hne⟩
  · exact (hl.mem.mp hm).2
  · exact hl.mem.mpr ⟨Nat.succ_pos fd, (h.fds fd).changed (Ne.symm hne)⟩

/-- **The bookkeeping of the pollset.** -/
theorem epoll_bookkeeping (h : Reach step Init Allowed w) : Bookkeeping w := by
  have hg := reach_good h
  obtain ⟨l, hl⟩ := hg.book.listed
  refine ⟨⟨l, hg.book.linking hl, fun fd => ?_⟩, fun fd => (hg.book.fds fd).interest, ?_,
    fun answer ha => ?_, fun a ha e he => (step_spec hg ha).of_error he⟩
  · obtain ⟨r, s', hs', hb', hres⟩ := hg.book.clean hl fd
    refine ⟨r, s', hs', ?_⟩
    rcases hres with ⟨hok, hc⟩ | hbusy
    · exact .inl ⟨hok, hb'.linking hc.listed, hc.kernel⟩
    · exact .inr hbusy
  · obtain ⟨s', hs', -, hend, hside, hi⟩ := interest_flush hg
    exact ⟨s', hs', hend, hside, hi⟩
  · obtain ⟨r, w', hw', -, -, hr⟩ := pollsetPoll_spec hg ha
    exact ⟨r, w', hw', hr⟩

/-- Two coroutines wait for the fds 0 and 1, one of them is cancelled. -/
def twoWait : List Act :=
  [.wait .inp ⟨0, 1⟩ 0, .wait .out ⟨1, 1⟩ 1, .cancel 1 2 ETIMEDOUT]

theorem epoll_bookkeeping_twoWait : ∃ w, run step (Ctx.init 2 fun _ => none, .init) twoWait = .ok w ∧
    w.1.changelist = 2 ∧ Bookkeeping w := by
  have h₀ : Reach step Init Allowed (Ctx.init 2 fun _ => none, .init) :=
    .init ⟨2, _, by omega, rfl⟩
  have h₁ := Reach.step (Act.wait .inp ⟨0, 1⟩ 0) h₀ rfl rfl
  have h₂ := Reach.step (Act.wait .out ⟨1, 1⟩ 1) h₁ rfl rfl
  have h₃ := Reach.step (Act.cancel 1 2 ETIMEDOUT) h₂ rfl rfl
  exact ⟨_, rfl, rfl, epoll_bookkeeping h₃⟩

end Libdill.Pollset.Epoll
