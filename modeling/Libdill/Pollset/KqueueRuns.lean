import Libdill.Pollset.KqueueBook

/-!
# Runs with the pollset of kqueue(2)

Any sequence of the calls of the pollset, with any answers from the kernel.

* `join_spec`, `walk_spec`: what is reported fires, and what fires is triggered.
* `pollsetPoll_spec`, `pollsetWait_spec`: what the calls do.
* `kqueue_bookkeeping`: the invariant along every run.
-/

namespace Libdill.Pollset.Kqueue

open Foundations Libdill.Sock

variable {w w' : World} {s : Ctx} {d : Dir} {fd k cr : ℕ}

/-- The invariant of the pollset and of the coroutines, also while events are handled. -/
structure Sane (w : World) : Prop where
  book : Book w.1
  linked : Linked w.1.side w.2

/-! ## Triggering -/

/-- A coroutine that is not ready is made ready, and its clauses are cancelled. -/
theorem Sane.docancel (hg : Sane w) (id err : ℤ) (hr : w.2.isReady cr = false) :
    ∃ w', docancel fdcancel cr id err w = .ok w' ∧ Sane w' ∧ Same w.1 w'.1 ∧
      w'.1.side = without (w.2.clauses cr) w.1.side ∧
      w'.2.ready = w.2.ready ++ [⟨cr, id, err⟩] := by
  have hcached : ∀ x ∈ w.2.clauses cr, (w.1.fdinfos x.2).cached = true := by
    rintro ⟨d, fd⟩ hx
    obtain ⟨cl, hcl, -⟩ := hg.linked.listed hr hx
    exact hg.book.cached_of_side hcl
  obtain ⟨s, hcancel, hc⟩ := hg.book.cancelAll hcached
  refine ⟨(s, w.2.resume cr id err), ?_, ⟨hc.book, ?_⟩, hc.same, hc.side, rfl⟩
  · unfold Pollset.docancel
    rw [hr, hcancel]
    rfl
  · show Linked s.side _
    rw [hc.side]
    exact hg.linked.resume hr

/-- There is a clause for the direction, and it fires. -/
def Hit (s : Ctx) (d : Dir) (fd : ℕ) : Prop :=
  (s.side d fd).isSome = true ∧ (s.fdinfos fd).firing d = true

/-- A coroutine that is resumed with a clause that fires. -/
def Called (s : Ctx) (r : Resumption) : Prop :=
  ∃ d fd cl, s.side d fd = some cl ∧ (s.fdinfos fd).firing d = true ∧ r = ⟨cl.cr, cl.id, 0⟩

/-- Coroutines have been resumed. -/
structure After (w w' : World) (new : List Resumption) : Prop where
  same : Same w.1 w'.1
  side : ∀ {d fd cl}, w'.1.side d fd = some cl → w.1.side d fd = some cl
  ready : w'.2.ready = w.2.ready ++ new
  called : ∀ r ∈ new, Called w.1 r
  idle : new = [] → w' = w

theorem After.refl (w : World) : After w w [] :=
  ⟨Same.refl _, fun h => h, (List.append_nil _).symm, nofun, fun _ => rfl⟩

theorem Called.mono {s s' : Ctx} {r : Resumption} (h : Called s' r)
    (hside : ∀ {d fd cl}, s'.side d fd = some cl → s.side d fd = some cl)
    (hf : ∀ {fd d}, (s'.fdinfos fd).firing d = true → (s.fdinfos fd).firing d = true) :
    Called s r := by
  obtain ⟨d, fd, cl, hcl, hfire, hr⟩ := h
  exact ⟨d, fd, cl, hside hcl, hf hfire, hr⟩

theorem After.trans {w'' : World} {new new' : List Resumption} (h : After w w' new)
    (h' : After w' w'' new') : After w w'' (new ++ new') := by
  refine ⟨h.same.trans h'.same, fun hcl => h.side (h'.side hcl), ?_, fun r hr => ?_, fun hnil => ?_⟩
  · rw [h'.ready, h.ready, List.append_assoc]
  · rcases List.mem_append.mp hr with hr | hr
    · exact h.called r hr
    · refine (h'.called r hr).mono h.side fun {fd d} hf => ?_
      rw [h.same.firing fd] at hf
      exact hf
  · obtain ⟨hnew, hnew'⟩ := List.append_eq_nil_iff.mp hnil
    exact (h'.idle hnew').trans (h.idle hnew)

theorem fire_spec (d : Dir) (fd : ℕ) (hg : Sane w) :
    ∃ w' new, fire d fd w = .ok w' ∧ Sane w' ∧ After w w' new ∧ (Hit w.1 d fd → new ≠ []) := by
  unfold fire
  cases hcl : w.1.side d fd with
  | none =>
    have hcl' : (w.1.fdinfos fd).clause d = none := hcl
    simp only [hcl']
    refine ⟨w, [], rfl, hg, After.refl w, fun hhit => ?_⟩
    have hsome := hhit.1
    rw [hcl] at hsome
    cases hsome
  | some cl =>
    have hcl' : (w.1.fdinfos fd).clause d = some cl := hcl
    simp only [hcl']
    split
    · rename_i hfire
      obtain ⟨hr, -⟩ := hg.linked.owner hcl
      obtain ⟨w₁, hw₁, hg₁, hsame, hside, hready⟩ := hg.docancel cl.id 0 hr
      refine ⟨w₁, [⟨cl.cr, cl.id, 0⟩], hw₁, hg₁, ⟨hsame, fun {d' fd' cl'} h => ?_, hready, ?_, ?_⟩,
        fun _ => List.cons_ne_nil _ _⟩
      · rw [hside] at h
        unfold without at h
        split at h
        · cases h
        · exact h
      · intro r hr'
        rw [List.mem_singleton.mp hr']
        exact ⟨d, fd, cl, hcl, hfire, rfl⟩
      · exact fun h => absurd h (List.cons_ne_nil _ _)
    · rename_i hfire
      exact ⟨w, [], rfl, hg, After.refl w, fun hhit => absurd hhit.2 hfire⟩

/-- The descriptor does not fire any more. -/
theorem Sane.still (hg : Sane w) (fd : ℕ) :
    Sane (w.1.setFdInfo fd fun f => { f with firing := noFlags }, w.2) ∧
      (w.1.setFdInfo fd fun f => { f with firing := noFlags }).side = w.1.side := by
  obtain ⟨l, hl⟩ := hg.book.listed
  have hok := hg.book.fds fd
  have hside : (w.1.setFdInfo fd fun f => { f with firing := noFlags }).side = w.1.side :=
    side_setFdInfo rfl
  have hbook : Book (w.1.setFdInfo fd fun f => { f with firing := noFlags }) :=
    hg.book.setFdInfo ⟨l, hl.congr (link_setFdInfo_same rfl)⟩
      ⟨hok.uncached, hok.registered, hok.changed, hok.present⟩
  refine ⟨⟨hbook, ?_⟩, hside⟩
  show Linked (Ctx.side _) w.2
  rw [hside]
  exact hg.linked

/-- **What fires is triggered.** `l` is what the third loop has still to visit; cancelled clauses
only put descriptors in front of it. -/
theorem walk_spec {n chl : ℕ} {l l₀ : List ℕ} (hg : Sane w) (hl : Listed (l₀ ++ l) w.1)
    (hchl : Chain w.1.link chl l DILL_ENDLIST) (hn : l.length ≤ n)
    (hf : ∀ fd, (w.1.fdinfos fd).firing ≠ noFlags → fd + 1 ∈ l) :
    ∃ w' new, walk n chl w = .ok w' ∧ Sane w' ∧ Quiet w'.1 ∧ w'.2.ready = w.2.ready ++ new ∧
      (∀ r ∈ new, Called w.1 r) ∧ ((∃ d fd, Hit w.1 d fd) → new ≠ []) := by
  induction l generalizing w n chl l₀ with
  | nil =>
    have hend : chl = DILL_ENDLIST := hchl
    have hq : Quiet w.1 := by
      intro fd
      by_contra hne
      cases hf fd hne
    refine ⟨w, [], ?_, hg, hq, (List.append_nil _).symm, nofun, ?_⟩
    · unfold walk
      rw [if_pos hend]
    · rintro ⟨d, fd, -, hfire⟩
      rw [hq fd] at hfire
      cases hfire
  | cons k l ih =>
    obtain ⟨rfl, -⟩ := hchl
    have hk : chl ∈ l₀ ++ chl :: l := by simp
    obtain ⟨hpos, -⟩ := hg.book.le hl hk
    have hend : chl ≠ DILL_ENDLIST := fun hke => hg.book.end_notMem hl (hke ▸ hk)
    obtain ⟨fd, rfl⟩ : ∃ fd, chl = fd + 1 := ⟨chl - 1, by omega⟩
    cases n with
    | zero => cases hn
    | succ n =>
      obtain ⟨w₁, new₁, hw₁, hg₁, ha₁, hhit₁⟩ := fire_spec .inp fd hg
      obtain ⟨w₂, new₂, hw₂, hg₂, ha₂, hhit₂⟩ := fire_spec .out fd hg₁
      have ha := ha₁.trans ha₂
      obtain ⟨hg₃, hside₃⟩ := hg₂.still fd
      obtain ⟨l₁, hl₁⟩ := ha.same.grown hl
      have hlink₃ : (w₂.1.setFdInfo fd fun f => { f with firing := noFlags }).link = w₂.1.link :=
        link_setFdInfo_same rfl
      have hl₃ : Listed ((l₁ ++ l₀ ++ [fd + 1]) ++ l)
          (w₂.1.setFdInfo fd fun f => { f with firing := noFlags }) := by
        refine IndexList.congr ?_ hlink₃
        rw [List.append_assoc, List.append_assoc, List.singleton_append]
        exact hl₁
      have hchain : Chain (w₂.1.setFdInfo fd fun f => { f with firing := noFlags }).link
          (w₂.1.link (fd + 1)) l DILL_ENDLIST := by
        rw [hlink₃]
        have hall := hl₁.chain
        rw [← List.append_assoc] at hall
        obtain ⟨b, -, rfl, hrest⟩ := chain_append.mp hall
        exact hrest
      have hfiring : ∀ k, k ≠ fd →
          ((w₂.1.setFdInfo fd fun f => { f with firing := noFlags }).fdinfos k).firing
            = (w.1.fdinfos k).firing := by
        intro k hk
        rw [fdinfos_setFdInfo, if_neg hk, ha.same.firing]
      have hstill : ((w₂.1.setFdInfo fd fun f => { f with firing := noFlags }).fdinfos fd).firing
          = noFlags := by rw [fdinfos_setFdInfo_self]
      have hf₃ : ∀ k, ((w₂.1.setFdInfo fd fun f => { f with firing := noFlags }).fdinfos k).firing
          ≠ noFlags → k + 1 ∈ l := by
        intro k hne
        by_cases hk : k = fd
        · rw [hk] at hne
          exact absurd hstill hne
        · rw [hfiring k hk] at hne
          refine (List.mem_cons.mp (hf k hne)).resolve_left fun heq => hk (Nat.succ_injective heq)
      obtain ⟨w', new, hw', hg', hq', hready, hcalled, hhit⟩ :=
        ih hg₃ hl₃ hchain (Nat.le_of_succ_le_succ hn) hf₃
      refine ⟨w', (new₁ ++ new₂) ++ new, ?_, hg', hq', ?_, fun r hr => ?_, ?_⟩
      · unfold walk
        rw [if_neg hend, Nat.add_sub_cancel]
        simp only [hw₁, hw₂, bind, Except.bind]
        have hnext : ((w₂.1.setFdInfo fd fun f => { f with firing := noFlags }).fdinfos fd).next
            = w₂.1.link (fd + 1) := by
          rw [fdinfos_setFdInfo_self]
          rfl
        rw [hnext]
        exact hw'
      · rw [hready, ha.ready, List.append_assoc]
      · rcases List.mem_append.mp hr with hr | hr
        · exact ha.called r hr
        · refine (hcalled r hr).mono (fun {d k cl} hcl => ?_) fun {k d} hfire => ?_
          · rw [hside₃] at hcl
            exact ha.side hcl
          · by_cases hk : k = fd
            · rw [hk, hstill] at hfire
              cases hfire
            · rw [hfiring k hk] at hfire
              exact hfire
      · rintro ⟨d, k, hsome, hfire⟩ hnil
        obtain ⟨h₁₂, h₃⟩ := List.append_eq_nil_iff.mp hnil
        obtain ⟨h₁, h₂⟩ := List.append_eq_nil_iff.mp h₁₂
        have hw : w₁ = w := ha₁.idle h₁
        have hww : w₂ = w := ha.idle h₁₂
        subst hw hww
        by_cases hk : k = fd
        · subst hk
          cases d with
          | inp => exact hhit₁ ⟨hsome, hfire⟩ h₁
          | out => exact hhit₂ ⟨hsome, hfire⟩ h₂
        · refine hhit ⟨d, k, ?_, ?_⟩ h₃
          · rw [hside₃]
            exact hsome
          · rw [hfiring k hk]
            exact hfire

/-! ## Joining -/

/-- An event is reported for a direction of a descriptor: its own filter, or the end of the file. -/
def Reported (evs : List Event) (d : Dir) (fd : ℕ) : Prop :=
  ∃ ev ∈ evs, ev.fd = fd ∧ (ev.flags = EV_EOF ∨ ev.filter = d)

theorem fires_iff {ev : Event} : ev.fires d = true ↔ ev.flags = EV_EOF ∨ ev.filter = d := by
  unfold Event.fires
  rw [Bool.or_eq_true, decide_eq_true_eq, decide_eq_true_eq]

/-- The state after an event has been joined. -/
theorem Sane.joinOne (hg : Sane w) (ev : Event) (hc : (w.1.fdinfos ev.fd).cached = true) :
    ∃ s', (w.1.setFdInfo ev.fd fun f =>
        { f with firing := fun d => f.firing d || ev.fires d }).push ev.fd = s' ∧
      Sane (s', w.2) ∧ s'.side = w.1.side ∧ s'.nfdinfos = w.1.nfdinfos ∧
      s'.kernel = w.1.kernel ∧ (s'.fdinfos ev.fd).next ≠ 0 ∧
      (∀ fd, (w.1.fdinfos fd).next ≠ 0 → (s'.fdinfos fd).next ≠ 0) ∧
      ∀ fd d, (s'.fdinfos fd).firing d
        = ((w.1.fdinfos fd).firing d || (fd = ev.fd && ev.fires d)) := by
  obtain ⟨l, hl⟩ := hg.book.listed
  have hok := hg.book.fds ev.fd
  have hlink : (w.1.setFdInfo ev.fd fun f =>
      { f with firing := fun d => f.firing d || ev.fires d }).link = w.1.link :=
    link_setFdInfo_same rfl
  have hbook : Book (w.1.setFdInfo ev.fd fun f =>
      { f with firing := fun d => f.firing d || ev.fires d }) :=
    hg.book.setFdInfo ⟨l, hl.congr hlink⟩
      ⟨hok.uncached, hok.registered, hok.changed, hok.present⟩
  have hside : (w.1.setFdInfo ev.fd fun f =>
      { f with firing := fun d => f.firing d || ev.fires d }).side = w.1.side :=
    side_setFdInfo rfl
  obtain ⟨hsame, hpush⟩ := same_push (w.1.setFdInfo ev.fd fun f =>
    { f with firing := fun d => f.firing d || ev.fires d }) ev.fd
  have hc' : ((w.1.setFdInfo ev.fd fun f =>
      { f with firing := fun d => f.firing d || ev.fires d }).fdinfos ev.fd).cached = true := by
    rw [fdinfos_setFdInfo_self]
    exact hc
  obtain ⟨hbook', hnext⟩ := hbook.push hc'
  refine ⟨_, rfl, ⟨hbook', ?_⟩, hpush.trans hside, hsame.nfdinfos, hsame.kernel, hnext,
    fun fd hne => ?_, fun fd d => ?_⟩
  · show Linked (Ctx.side _) w.2
    rw [hpush, hside]
    exact hg.linked
  · by_cases hfd : fd = ev.fd
    · rw [hfd]
      exact hnext
    · rw [fdinfos_push_ne hfd, fdinfos_setFdInfo, if_neg hfd]
      exact hne
  · rw [hsame.firing, fdinfos_setFdInfo]
    by_cases hfd : fd = ev.fd
    · rw [if_pos hfd, hfd, decide_eq_true rfl, Bool.true_and]
    · rw [if_neg hfd, decide_eq_false hfd, Bool.false_and, Bool.or_false]

/-- **What is reported fires**, and is on the changelist. -/
theorem join_spec {evs : List Event} (hg : Sane w)
    (hevs : ∀ ev ∈ evs, w.1.kernel.registered ev.fd ev.filter = true ∧ ev.flags ≠ EV_ERROR)
    (hnext : ∀ fd, (w.1.fdinfos fd).firing ≠ noFlags → (w.1.fdinfos fd).next ≠ 0) :
    ∃ s', join evs w.1 = .ok s' ∧ Sane (s', w.2) ∧ s'.side = w.1.side ∧
      s'.nfdinfos = w.1.nfdinfos ∧
      (∀ fd, (s'.fdinfos fd).firing ≠ noFlags → (s'.fdinfos fd).next ≠ 0) ∧
      ∀ fd d, (s'.fdinfos fd).firing d = true ↔
        (w.1.fdinfos fd).firing d = true ∨ Reported evs d fd := by
  induction evs generalizing w with
  | nil =>
    refine ⟨w.1, rfl, hg, rfl, rfl, hnext, fun fd d => (or_iff_left ?_).symm⟩
    rintro ⟨ev, hev, -⟩
    cases hev
  | cons ev evs ih =>
    obtain ⟨⟨hreg, herror⟩, hevs⟩ := List.forall_mem_cons.mp hevs
    have hc : (w.1.fdinfos ev.fd).cached = true := by
      cases hc : (w.1.fdinfos ev.fd).cached with
      | true => rfl
      | false =>
        have hnone := ((hg.book.fds ev.fd).uncached hc).1
        rw [(hg.book.fds ev.fd).registered, hnone] at hreg
        cases hreg
    obtain ⟨s₁, hs₁, hg₁, hside₁, hn₁, hk₁, hne₁, hkeep₁, hf₁⟩ := hg.joinOne ev hc
    have hnext₁ : ∀ fd, (s₁.fdinfos fd).firing ≠ noFlags → (s₁.fdinfos fd).next ≠ 0 := by
      intro fd hfire
      by_cases hfd : fd = ev.fd
      · rw [hfd]
        exact hne₁
      · refine hkeep₁ fd (hnext fd fun hno => hfire ?_)
        funext d
        rw [hf₁, hno, decide_eq_false hfd]
        rfl
    obtain ⟨s', hs', hg', hside', hn', hnext', hf'⟩ :=
      ih hg₁ (fun ev' hev' => by rw [hk₁]; exact hevs ev' hev') hnext₁
    refine ⟨s', ?_, hg', hside'.trans hside₁, hn'.trans hn₁, hnext', fun fd d => ?_⟩
    · unfold join
      rw [if_neg herror, hs₁]
      exact hs'
    · rw [hf', hf₁, Bool.or_eq_true, Bool.and_eq_true, decide_eq_true_eq, or_assoc]
      refine or_congr Iff.rfl ?_
      constructor
      · rintro (⟨hfd, hfires⟩ | ⟨ev', hev', hrest⟩)
        · exact ⟨ev, List.mem_cons_self, hfd.symm, fires_iff.mp hfires⟩
        · exact ⟨ev', List.mem_cons_of_mem _ hev', hrest⟩
      · rintro ⟨ev', hev', hfd, hfires⟩
        rcases List.mem_cons.mp hev' with rfl | hev'
        · exact .inl ⟨hfd.symm, fires_iff.mpr hfires⟩
        · exact .inr ⟨ev', hev', hfd, hfires⟩

/-! ## The calls -/

/-- The invariant between calls: nothing is left over from earlier events. -/
structure Good (w : World) : Prop extends Sane w where
  quiet : Quiet w.1

/-- What kevent(2) may report: at most as many events as fit, of filters that are registered. -/
def Reports (registered : ℕ → Flags) : Answer → Prop
  | .EINTR => True
  | .failed => False
  | .events evs => evs.length ≤ DILL_EVSSIZE ∧
    ∀ ev ∈ evs, registered ev.fd ev.filter = true ∧ ev.flags ≠ EV_ERROR

/-- The answer is one for the filters that are registered when the changes have been applied. -/
def Heard (s : Ctx) (answer : Answer) : Prop :=
  ∀ x k, flush (s.nfdinfos + 1) (s, []) = .ok x → x.1.kernel.kevent x.2 = .ok k →
    Reports k.registered answer

/-- After the last call of kevent(2) the filters that are registered are the wanted ones. -/
theorem flush_poll (hg : Good w) : ∃ s chngs k, flush (w.1.nfdinfos + 1) (w.1, []) = .ok (s, chngs) ∧
    chngs.length ≤ DILL_CHNGSSIZE ∧ s.kernel.kevent chngs = .ok k ∧
    Good ({ s with kernel := k }, w.2) ∧ s.changelist = DILL_ENDLIST ∧ s.side = w.1.side ∧
    s.nfdinfos = w.1.nfdinfos ∧ ∀ fd d, k.registered fd d = (s.side d fd).isSome := by
  obtain ⟨l, hl⟩ := hg.book.listed
  have hp : Pending w.1 [] w.1.kernel := ⟨rfl, rfl, hg.book⟩
  obtain ⟨s, chngs, k, hs, hp', hlen, hq, hkept, hend, hcur⟩ :=
    flush_spec hp hg.quiet hl (Nat.le_succ_of_le (hg.book.length_le hl)) (Nat.zero_le _)
  refine ⟨s, chngs, k, hs, hlen, hp'.applied, ⟨⟨hp'.book, ?_⟩, hq⟩, hend, hkept.side,
    hkept.nfdinfos, fun fd d => ?_⟩
  · show Linked s.side w.2
    rw [hkept.side]
    exact hg.linked
  · have hreg : k.registered fd = (s.fdinfos fd).currevs := (hp'.book.fds fd).registered
    rw [hreg, hcur fd]
    rfl

/-- A coroutine that waited with a clause for a direction of a descriptor for which `answer` reports
something. -/
def Due (s : Ctx) (answer : Answer) (r : Resumption) : Prop :=
  ∃ evs d fd cl, answer = .events evs ∧ Reported evs d fd ∧ s.side d fd = some cl ∧
    r = ⟨cl.cr, cl.id, 0⟩

/-- **Polling.** Only coroutines for which something is reported are resumed, and one is when the
result is 1. -/
theorem pollsetPoll_spec {answer : Answer} (hg : Good w) (hk : Heard w.1 answer) :
    ∃ r w' new, pollsetPoll answer w = .ok (r, w') ∧ Good w' ∧ w'.2.ready = w.2.ready ++ new ∧
      (∀ x ∈ new, Due w.1 answer x) ∧ (0 < r → new ≠ []) := by
  obtain ⟨s, chngs, k, hs, -, hkevent, hg₁, -, hside₁, -, hreg⟩ := flush_poll hg
  have hrep := hk (s, chngs) k hs hkevent
  have hcall : s.kevent chngs = .ok { s with kernel := k } := by
    unfold Ctx.kevent
    rw [hkevent]
  unfold pollsetPoll
  rw [hs]
  simp only [bind, Except.bind, hcall]
  cases answer with
  | EINTR =>
    exact ⟨-1, ({ s with kernel := k }, w.2), [], rfl, hg₁, (List.append_nil _).symm, nofun,
      fun h => absurd h (by decide)⟩
  | failed => exact hrep.elim
  | events evs =>
    have hevs : ∀ ev ∈ evs, k.registered ev.fd ev.filter = true ∧ ev.flags ≠ EV_ERROR := hrep.2
    obtain ⟨s₂, hs₂, hg₂, hside₂, hn₂, hnext₂, hf₂⟩ := join_spec hg₁.toSane hevs
      fun fd hne => absurd (hg₁.quiet fd) hne
    have hfiring : ∀ fd d, (s₂.fdinfos fd).firing d = true ↔ Reported evs d fd := by
      intro fd d
      rw [hf₂, hg₁.quiet fd]
      exact or_iff_right Bool.false_ne_true
    obtain ⟨l, hl⟩ := hg₂.book.listed
    have hl₀ : Listed ([] ++ l) s₂ := hl
    obtain ⟨w', new, hw', hg', hq', hready, hcalled, hhit⟩ := walk_spec hg₂ hl₀ hl.chain
      (Nat.le_succ_of_le (hg₂.book.length_le hl)) fun fd hne =>
        hl.mem.mpr ⟨Nat.succ_pos fd, hnext₂ fd hne⟩
    have hside : s₂.side = w.1.side := hside₂.trans hside₁
    refine ⟨if evs.length > 0 then 1 else 0, w', new, ?_, ⟨hg', hq'⟩, hready, fun x hx => ?_,
      fun hpos => ?_⟩
    · simp only [hs₂]
      have hwalk : walk (s₂.nfdinfos + 1) s₂.changelist (s₂, w.2) = .ok w' := hw'
      rw [hwalk]
      rfl
    · obtain ⟨d, fd, cl, hcl, hfire, rfl⟩ := hcalled x hx
      have hcl' : s₂.side d fd = some cl := hcl
      rw [hside] at hcl'
      exact ⟨evs, d, fd, cl, rfl, (hfiring fd d).mp hfire, hcl', rfl⟩
    · cases evs with
      | nil => exact absurd hpos (by decide)
      | cons ev evs =>
        obtain ⟨hreg₁, -⟩ := hrep.2 ev List.mem_cons_self
        rw [hreg] at hreg₁
        refine hhit ⟨ev.filter, ev.fd, ?_, ?_⟩
        · show (s₂.side _ _).isSome = true
          rw [hside, ← hside₁]
          exact hreg₁
        · exact (hfiring _ _).mpr ⟨ev, List.mem_cons_self, rfl, .inr rfl⟩

/-- A clause is set for a cached descriptor, which is put on the changelist. -/
theorem wait_spec {cl : FdClause} (hl : ∃ l, Listed l w.1) (hsmall : w.1.nfdinfos < DILL_ENDLIST)
    (ho : ∀ k, k ≠ fd → FdOk w.1 k (w.1.fdinfos k)) (hc : (w.1.fdinfos fd).cached = true)
    (hi : w.1.kernel.registered fd = (w.1.fdinfos fd).currevs)
    (hp : w.1.kernel.refuses fd = none ∧ fd < w.1.nfdinfos) (hlinked : Linked w.1.side w.2)
    (hq : Quiet w.1) (hr : w.2.isReady cl.cr = false) (hfree : w.1.side d fd = none) :
    Good (wait d cl fd w).2 := by
  have hnone : ((w.1.fdinfos fd).clause d).isSome = false := by
    have hcl : (w.1.fdinfos fd).clause d = none := hfree
    rw [hcl]
    rfl
  unfold wait
  simp only [hnone, Bool.false_eq_true, if_false]
  obtain ⟨hb, hnext⟩ := book_push fd hl hsmall ho hc hi hp
  obtain ⟨hsame, hside⟩ := same_push w.1 fd
  have hquiet : Quiet (w.1.push fd) := fun k => (hsame.firing k).trans (hq k)
  have hquiet' : Quiet ((w.1.push fd).setFdInfo fd fun f => f.setClause d (some cl)) :=
    hquiet.setFdInfo (hquiet fd)
  refine ⟨⟨hb.setClause hnext, ?_⟩, hquiet'⟩
  refine hlinked.waitfor hr hfree fun d' fd' => ?_
  show Ctx.side _ d' fd' = _
  rw [side_setClause, hside]

/-- The kernel refuses to add a descriptor for another reason than that it is not open. -/
def Refused (s : Ctx) (fd : ℤ) : Prop :=
  0 ≤ fd ∧ fd < s.nfdinfos ∧ (s.fdinfos fd.toNat).cached = false ∧
    ∃ err, s.kernel.refuses fd.toNat = some err ∧ err ≠ .EBADF

theorem pollsetWait_spec {cl : FdClause} {n : ℤ} (hg : Good w) (hr : w.2.isReady cl.cr = false) :
    (∃ r w', pollsetWait d cl n w = .ok (r, w') ∧ Good w') ∨
      pollsetWait d cl n w = .error .assertion ∧ Refused w.1 n := by
  unfold pollsetWait
  by_cases hrange : n < 0 ∨ w.1.nfdinfos ≤ n
  · rw [if_pos hrange]
    exact .inl ⟨_, w, rfl, hg⟩
  · rw [if_neg hrange]
    have hlt : n.toNat < w.1.nfdinfos := by omega
    have hok := hg.book.fds n.toNat
    cases hc : (w.1.fdinfos n.toNat).cached with
    | true =>
      refine .inl ⟨(wait d cl n.toNat w).1, (wait d cl n.toNat w).2, rfl, ?_⟩
      cases hcl : w.1.side d n.toNat with
      | none =>
        exact wait_spec hg.book.listed hg.book.small (fun k _ => hg.book.fds k) hc hok.registered
          (hok.present hc) hg.linked hg.quiet hr hcl
      | some cl' =>
        have hcl' : (w.1.fdinfos n.toNat).clause d = some cl' := hcl
        have hbusy : ((w.1.fdinfos n.toNat).clause d).isSome = true := by
          rw [hcl']
          rfl
        unfold wait
        rw [if_pos hbusy]
        exact hg
    | false =>
      obtain ⟨hcur, hnext, hcl⟩ := hok.uncached hc
      cases href : w.1.kernel.refuses n.toNat with
      | some err =>
        have hadd : w.1.kernel.kevent [⟨n.toNat, d, true⟩] = .error err := by
          show (w.1.kernel.apply ⟨n.toNat, d, true⟩ >>= Kernel.kevent []) = _
          unfold Kernel.apply
          simp only [if_true, href]
          rfl
        rw [if_neg Bool.false_ne_true, hadd]
        by_cases hbad : err = .EBADF
        · exact .inl ⟨_, w, if_pos hbad, hg⟩
        · exact .inr ⟨if_neg hbad, by omega, by omega, hc, err, href, hbad⟩
      | none =>
        have hreg : w.1.kernel.registered n.toNat = noFlags := hok.registered.trans hcur
        have hadd : w.1.kernel.kevent [⟨n.toNat, d, true⟩]
            = .ok (w.1.kernel.register n.toNat (Function.update noFlags d true)) := by
          show (w.1.kernel.apply ⟨n.toNat, d, true⟩ >>= Kernel.kevent []) = _
          unfold Kernel.apply
          simp only [if_true, href, hreg]
          rfl
        rw [if_neg Bool.false_ne_true, hadd]
        refine .inl ⟨_, _, rfl, ?_⟩
        obtain ⟨l, hl⟩ := hg.book.listed
        have hfd : ∀ k, (w.1.cache (w.1.kernel.register n.toNat (Function.update noFlags d true)) d
            n.toNat).fdinfos k = if k = n.toNat then
              ⟨fun _ => none, Function.update noFlags d true, noFlags, 0, true⟩ else w.1.fdinfos k :=
          fun k => fdinfos_setFdInfo
        have hside : (w.1.cache (w.1.kernel.register n.toNat (Function.update noFlags d true)) d
            n.toNat).side = w.1.side := by
          funext d' k
          unfold Ctx.side
          rw [hfd]
          split
          · rename_i hk
            rw [hk]
            exact (hcl d').symm
          · rfl
        apply wait_spec
          (w := (w.1.cache (w.1.kernel.register n.toNat (Function.update noFlags d true)) d n.toNat,
            w.2))
        · exact ⟨l, hl.congr ((link_setFdInfo_same hnext.symm).trans link_kernel)⟩
        · exact hg.book.small
        · intro k hk
          have hok' := hg.book.fds k
          rw [hfd, if_neg hk]
          refine ⟨hok'.uncached, ?_, hok'.changed, hok'.present⟩
          rw [← hok'.registered]
          exact Function.update_of_ne hk _ _
        · rw [hfd, if_pos rfl]
        · rw [hfd, if_pos rfl]
          exact Function.update_self _ _ _
        · exact ⟨href, hlt⟩
        · show Linked (Ctx.side _) w.2
          rw [hside]
          exact hg.linked
        · intro k
          rw [hfd]
          split
          · rfl
          · exact hg.quiet k
        · exact hr
        · show Ctx.side _ d n.toNat = none
          rw [hside]
          exact hcl d

/-- `dill_pollset_poll` makes a coroutine ready when it returns a positive number. -/
theorem sound : Sound backend Good Heard fun _ _ => True where
  docancel id err hg hr := by
    obtain ⟨w', hw', hg', hsame, -, hready⟩ := hg.toSane.docancel id err hr
    exact ⟨w', hw', ⟨hg', fun fd => (hsame.firing fd).trans (hg.quiet fd)⟩, hready⟩
  poll hg hk := by
    obtain ⟨r, w', new, hw', hg', hready, -, hpos⟩ := pollsetPoll_spec hg hk
    refine ⟨r, w', hw', hg', ?_, fun _ hr => ?_⟩
    · rw [hready, List.length_append]
      exact Nat.le_add_right _ _
    · rw [hready, List.length_append]
      exact Nat.lt_add_of_pos_right (List.length_pos_iff.mpr (hpos hr))
  pop hg hp := ⟨⟨hg.book, hg.linked.pop hp⟩, hg.quiet⟩

/-! ## Runs -/

/-- The calls, with the answers of the kernel. `cancel` is any triggering of a coroutine or of
another of its clauses, and with `fd` a descriptor is opened or closed. -/
inductive Act
  | wait (d : Dir) (cl : FdClause) (fd : ℤ)
  | clean (fd : ℕ)
  | poll (answer : Answer)
  | cancel (cr : ℕ) (id err : ℤ)
  | dillWait (due : Bool) (rounds : List (Round Answer))
  | fd (fd : ℕ) (refuses : Option Errno)

def step (w : World) : Act → Except Stop World
  | .wait d cl fd => (pollsetWait d cl fd w).map Prod.snd
  | .clean fd => (pollsetClean fd w.1).map fun p => (p.2, w.2)
  | .poll answer => (pollsetPoll answer w).map Prod.snd
  | .cancel cr id err => docancel fdcancel cr id err w
  | .dillWait due rounds => dillWait backend due rounds w
  | .fd fd refuses =>
    let kernel := { w.1.kernel with refuses := Function.update w.1.kernel.refuses fd refuses }
    .ok ({ w.1 with kernel := kernel }, w.2)

/-- Nothing has been called yet. The number of descriptors is an `int`. -/
def Init (w : World) : Prop :=
  ∃ nfdinfos refuses, nfdinfos < 2 ^ 31 ∧ w = (Ctx.init nfdinfos refuses, .init)

/-- What callers and the kernel promise: clauses are set by coroutines that are not ready, only
these are triggered, `dill_pollset_clean` gets a descriptor, kevent(2) only reports what may be
reported, and descriptors are not closed while they are cached. -/
def Allowed (w : World) : Act → Prop
  | .wait _ cl _ => w.2.isReady cl.cr = false
  | .clean fd => fd < w.1.nfdinfos
  | .poll answer => Heard w.1 answer
  | .cancel cr _ _ => w.2.isReady cr = false
  | .dillWait _ rounds => Along backend Heard w.2.ready.isEmpty rounds w
  | .fd fd _ => (w.1.fdinfos fd).cached = false

theorem good_init (h : Init w) : Good w := by
  obtain ⟨nfdinfos, refuses, hn, rfl⟩ := h
  have hlisted : Listed [] (Ctx.init nfdinfos refuses) := by
    refine ⟨rfl, List.nodup_nil, fun {k} => iff_of_false nofun ?_⟩
    rintro ⟨hk, hne⟩
    cases k with
    | zero => cases hk
    | succ k => exact hne rfl
  refine ⟨⟨⟨⟨[], hlisted⟩, fun fd => ⟨fun _ => ⟨rfl, rfl, fun _ => rfl⟩, rfl, ?_, nofun⟩, ?_⟩,
    linked_init⟩, fun _ => rfl⟩
  · exact fun hne => absurd (wanted_of_none fun _ => rfl).symm hne
  · show nfdinfos < 0xffffffff
    omega

theorem along_true {rounds : List (Round Answer)} {block : Bool} :
    Along backend (fun _ _ => True) block rounds w := by
  induction rounds generalizing w with
  | nil => trivial
  | cons r rounds ih => exact ⟨trivial, fun w' _ => ih⟩

/-- Why a call may stop: it blocks, or the kernel refuses a descriptor in a way the code does not
expect. -/
def Stops (w : World) (a : Act) (e : Stop) : Prop :=
  e = .blocked ∨ e = .assertion ∧ ∃ d cl fd, a = .wait d cl fd ∧ Refused w.1 fd

theorem step_spec {a : Act} (hg : Good w) (ha : Allowed w a) : Post (step w a) Good (Stops w a) := by
  cases a with
  | wait d cl fd =>
    unfold step
    rcases pollsetWait_spec (d := d) (n := fd) hg ha with ⟨r, w', hw', hg'⟩ | ⟨hstop, href⟩
    · simp only [hw']
      exact hg'
    · simp only [hstop]
      exact .inr ⟨rfl, d, cl, fd, rfl, href⟩
  | clean fd =>
    obtain ⟨l, hl⟩ := hg.book.listed
    obtain ⟨r, s', hs', hb', hq', hres⟩ := hg.book.clean hg.quiet hl fd
    unfold step
    simp only [hs']
    refine ⟨⟨hb', ?_⟩, hq'⟩
    show Linked s'.side w.2
    rcases hres with ⟨-, hc⟩ | ⟨-, rfl⟩
    · rw [hc.side]
      exact hg.linked
    · exact hg.linked
  | poll answer =>
    obtain ⟨r, w', new, hw', hg', -⟩ := pollsetPoll_spec hg ha
    unfold step
    simp only [hw']
    exact hg'
  | cancel cr id err =>
    obtain ⟨w', hw', hg', -⟩ := sound.docancel id err hg ha
    have hcancel : docancel fdcancel cr id err w = .ok w' := hw'
    unfold step
    simp only [hcancel]
    exact hg'
  | dillWait due rounds =>
    exact (dillWait_spec sound hg ha along_true).mono (fun _ h => h) fun _ he => .inl he
  | fd fd refuses =>
    have hfds : ∀ k, FdOk { w.1 with kernel := { w.1.kernel with
        refuses := Function.update w.1.kernel.refuses fd refuses } } k (w.1.fdinfos k) := by
      intro k
      have hok := hg.book.fds k
      refine ⟨hok.uncached, hok.registered, hok.changed, fun hc => ⟨?_, (hok.present hc).2⟩⟩
      have hk : k ≠ fd := by
        rintro rfl
        have ha' : (w.1.fdinfos k).cached = false := ha
        rw [hc] at ha'
        cases ha'
      exact (Function.update_of_ne hk _ _).trans (hok.present hc).1
    obtain ⟨l, hl⟩ := hg.book.listed
    exact ⟨⟨⟨⟨l, hl.congr link_kernel⟩, hfds, hg.book.small⟩, hg.linked⟩, hg.quiet⟩

theorem reach_good (h : Reach step Init Allowed w) : Good w := by
  apply h.invariant (I := Good)
  · exact fun w => good_init
  · intro w a w' hg ha hr
    exact (step_spec hg ha).of_ok hr

/-- The changelist. -/
structure Linking (l : List ℕ) (s : Ctx) : Prop where
  /-- It is a list that ends in the end mark. -/
  chain : Chain s.link s.changelist l DILL_ENDLIST
  /-- No descriptor occurs twice. -/
  nodup : l.Nodup
  range : ∀ k ∈ l, 0 < k ∧ k ≤ s.nfdinfos
  /-- The descriptors on it have a link. -/
  next : ∀ fd, (s.fdinfos fd).next ≠ 0 ↔ fd + 1 ∈ l
  /-- The descriptors whose cached filters are out of date are on it. -/
  changed : ∀ fd, (s.fdinfos fd).cached = true →
    (s.fdinfos fd).wanted ≠ (s.fdinfos fd).currevs → fd + 1 ∈ l

/-- What the pollset keeps. -/
structure Bookkeeping (w : World) : Prop where
  changelist : ∃ l, Linking l w.1 ∧ ∀ fd, ∃ r s', pollsetClean fd w.1 = .ok (r, s') ∧
    (r = .ok () ∧ Linking (l.erase (fd + 1)) s' ∧ s'.kernel = w.1.kernel.register fd noFlags ∨
      r = .error .EBUSY ∧ s' = w.1)
  /-- The filters that are registered are the cached ones. -/
  registered : ∀ fd, w.1.kernel.registered fd = (w.1.fdinfos fd).currevs
  /-- Nothing is left over from earlier events. -/
  quiet : ∀ fd, (w.1.fdinfos fd).firing = noFlags
  /-- The first loop of `dill_pollset_poll` does not overfill its batch, and when the last batch has
  been applied the filters that are registered are the wanted ones. -/
  flushed : ∃ s chngs k, flush (w.1.nfdinfos + 1) (w.1, []) = .ok (s, chngs) ∧
    chngs.length ≤ DILL_CHNGSSIZE ∧ s.kernel.kevent chngs = .ok k ∧
    s.changelist = DILL_ENDLIST ∧ s.side = w.1.side ∧
    ∀ fd d, k.registered fd d = (s.side d fd).isSome
  /-- `dill_pollset_poll` returns. It resumes only coroutines for which something has been reported,
  and one of them if it returns 1. -/
  poll : ∀ answer, Allowed w (.poll answer) → ∃ r w' new, pollsetPoll answer w = .ok (r, w') ∧
    w'.2.ready = w.2.ready ++ new ∧ (∀ x ∈ new, Due w.1 answer x) ∧ (r = 1 → new ≠ [])
  /-- No call fails an assertion, unless the kernel refuses a descriptor for an unknown reason. -/
  safe : ∀ a, Allowed w a → ∀ e, step w a = .error e → Stops w a e

theorem Book.linking {s : Ctx} {l : List ℕ} (h : Book s) (hl : Listed l s) : Linking l s := by
  refine ⟨hl.chain, hl.nodup, fun k hk => h.le hl hk, fun fd => ⟨fun hne => ?_, fun hm => ?_⟩,
    fun fd _ hne => ?_⟩
  · exact hl.mem.mpr ⟨Nat.succ_pos fd, hne⟩
  · exact (hl.mem.mp hm).2
  · exact hl.mem.mpr ⟨Nat.succ_pos fd, (h.fds fd).changed (Ne.symm hne)⟩

/-- **The bookkeeping of the pollset.** -/
theorem kqueue_bookkeeping (h : Reach step Init Allowed w) : Bookkeeping w := by
  have hg := reach_good h
  obtain ⟨l, hl⟩ := hg.book.listed
  refine ⟨⟨l, hg.book.linking hl, fun fd => ?_⟩, fun fd => (hg.book.fds fd).registered, hg.quiet, ?_,
    fun answer ha => ?_, fun a ha e he => (step_spec hg ha).of_error he⟩
  · obtain ⟨r, s', hs', hb', -, hres⟩ := hg.book.clean hg.quiet hl fd
    refine ⟨r, s', hs', ?_⟩
    rcases hres with ⟨hok, hc⟩ | hbusy
    · exact .inl ⟨hok, hb'.linking hc.listed, hc.kernel⟩
    · exact .inr hbusy
  · obtain ⟨s, chngs, k, hs, hlen, hk, -, hend, hside, -, hreg⟩ := flush_poll hg
    exact ⟨s, chngs, k, hs, hlen, hk, hend, hside, hreg⟩
  · obtain ⟨r, w', new, hw', -, hready, hdue, hpos⟩ := pollsetPoll_spec hg ha
    exact ⟨r, w', new, hw', hready, hdue, fun hr => hpos (hr ▸ Int.one_pos)⟩

/-- Two coroutines wait for the fds 0 and 1, one of them is cancelled. -/
def twoWait : List Act :=
  [.wait .inp ⟨0, 1⟩ 0, .wait .out ⟨1, 1⟩ 1, .cancel 1 2 ETIMEDOUT]

theorem kqueue_bookkeeping_twoWait : ∃ w, run step (Ctx.init 2 fun _ => none, .init) twoWait = .ok w ∧
    w.1.changelist = 2 ∧ Bookkeeping w := by
  have h₀ : Reach step Init Allowed (Ctx.init 2 fun _ => none, .init) :=
    .init ⟨2, _, by omega, rfl⟩
  have h₁ := Reach.step (Act.wait .inp ⟨0, 1⟩ 0) h₀ rfl rfl
  have h₂ := Reach.step (Act.wait .out ⟨1, 1⟩ 1) h₁ rfl rfl
  have h₃ := Reach.step (Act.cancel 1 2 ETIMEDOUT) h₂ rfl rfl
  exact ⟨_, rfl, rfl, kqueue_bookkeeping h₃⟩

end Libdill.Pollset.Kqueue
