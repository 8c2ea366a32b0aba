import Libdill.Foundations.Triple
import Libdill.Layer.Attach

/-!
# Ownership

The objects that are there form a forest. `Holds ks s ob c` says that `s` is a handle that nobody
owns, that its object stands over the object `ob`, with layers of the kinds `ks` between, and that
the close callback of `ob` has been invoked `c` times; `Gone ob c` only says the latter.

* `hclose_spec`: closing a stack invokes the close callback of each object of it once.
* `hown_spec`, `make_spec`, `free_spec`: the other operations at the top of a stack.
-/

namespace Libdill.Layer

open Foundations Libdill.Sock

/-! ## The forest of the objects -/

/-- The object of a handle, if it is there. -/
def Table.live (t : Table) (h : ℤ) : Option Obj :=
  (t.objs h).bind fun e => if e.gone then none else some e.obj

variable {t t' : Table} {h s u : ℤ} {o : Obj}

theorem live_set (t : Table) (h : ℤ) (e : Option Entry) :
    (t.set h e).live =
      Function.update t.live h (e.bind fun e => if e.gone then none else some e.obj) := by
  funext k
  unfold Table.live Table.set
  by_cases hk : k = h
  · rw [hk, Function.update_self]
    simp only [Function.update_self]
  · rw [Function.update_of_ne hk]
    simp only [Function.update_of_ne hk]

@[simp] theorem live_retire : (t.retire h o).live = Function.update t.live h none := live_set _ _ _

@[simp] theorem live_callback : (t.callback h o).live = Function.update t.live h none :=
  live_set _ _ _

@[simp] theorem live_release : (t.release h).live = Function.update t.live h none := live_set _ _ _

@[simp] theorem live_take : (t.take h o).live = Function.update t.live h (some o) := live_set _ _ _

theorem live_of_objs (ho : t.objs h = none) : t.live h = none := by
  unfold Table.live
  rw [ho]
  rfl

theorem objs_of_live (hl : t.live h = some o) : t.objs h = some ⟨o, false⟩ := by
  unfold Table.live at hl
  obtain ⟨⟨o', g⟩, he, hg⟩ := Option.bind_eq_some_iff.mp hl
  cases g with
  | true => cases hg
  | false =>
    cases hg
    exact he

/-- An HTTP socket owns a terminated socket, which owns a suffixed one. -/
structure HttpOver (f : ℤ → Option Obj) (o : Obj) (ht : ℤ) (ot : Obj) (hs : ℤ) (os : Obj) :
    Prop where
  term : o.under = some ht
  termObj : f ht = some ot
  termKind : ot.kind = .termSock
  suffix : ot.under = some hs
  suffixObj : f hs = some os
  suffixKind : os.kind = .suffixSock

/-- Protocol sockets have something under them, and HTTP sockets their layers. -/
structure Typed (f : ℤ → Option Obj) : Prop where
  based : ∀ {h o}, f h = some o → o.kind.isLayer = true → ∃ u, o.under = some u
  http : ∀ {h o}, f h = some o → o.kind = .httpSock → ∃ ht ot hs os, HttpOver f o ht ot hs os

/-- The handle table is well formed. -/
structure Table.Wf (t : Table) : Prop where
  forest : Forest t.live t.nextId
  typed : Typed t.live
  nonneg : ∀ {h e}, t.objs h = some e → 0 ≤ h

theorem HttpOver.congr {f g : ℤ → Option Obj} {ht hs : ℤ} {ot os : Obj}
    (ho : HttpOver f o ht ot hs os) (hg : ∀ {k o'}, k = ht ∨ k = hs → f k = some o' →
      g k = some o') : HttpOver g o ht ot hs os :=
  { ho with termObj := hg (.inl rfl) ho.termObj, suffixObj := hg (.inr rfl) ho.suffixObj }

theorem Typed.erase {f : ℤ → Option Obj} (hty : Typed f) (htop : Top f s o) :
    Typed (Function.update f s none) := by
  refine ⟨fun he => hty.based (update_none he).2, fun {h o'} he hk => ?_⟩
  obtain ⟨-, he'⟩ := update_none he
  obtain ⟨ht, ot, hs, os, ho⟩ := hty.http he' hk
  refine ⟨ht, ot, hs, os, ho.congr fun {k o₁} hk hf => ?_⟩
  rw [Function.update_of_ne]
  · exact hf
  · rintro rfl
    rcases hk with rfl | rfl
    · exact htop.free he' ho.term
    · exact htop.free ho.termObj ho.suffix

theorem Typed.add {f : ℤ → Option Obj} (hty : Typed f) (hn : f h = none)
    (hb : o.kind.isLayer = true → ∃ u, o.under = some u)
    (ho : o.kind = .httpSock → ∃ ht ot hs os, HttpOver f o ht ot hs os) :
    Typed (Function.update f h (some o)) := by
  have hold : ∀ {k o₁}, f k = some o₁ → Function.update f h (some o) k = some o₁ := by
    intro k o₁ hk
    rw [Function.update_of_ne]
    · exact hk
    · rintro rfl
      rw [hn] at hk
      cases hk
  have hcases : ∀ {k o₁}, Function.update f h (some o) k = some o₁ → o₁ = o ∨ f k = some o₁ := by
    intro k o₁ he
    by_cases hkh : k = h
    · rw [hkh, Function.update_self] at he
      cases he
      exact .inl rfl
    · rw [Function.update_of_ne hkh] at he
      exact .inr he
  refine ⟨fun he hk => ?_, fun he hk => ?_⟩
  · rcases hcases he with rfl | he
    · exact hb hk
    · exact hty.based he hk
  · rcases hcases he with rfl | he
    · obtain ⟨ht, ot, hs, os, hov⟩ := ho hk
      exact ⟨ht, ot, hs, os, hov.congr fun _ => hold⟩
    · obtain ⟨ht, ot, hs, os, hov⟩ := hty.http he hk
      exact ⟨ht, ot, hs, os, hov.congr fun _ => hold⟩

theorem Table.Wf.nonneg_set (hw : t.Wf) {e : Option Entry} (hh : 0 ≤ h) {k : ℤ} {e' : Entry}
    (hk : (t.set h e).objs k = some e') : 0 ≤ k := by
  unfold Table.set at hk
  simp only at hk
  by_cases hkh : k = h
  · rw [hkh]
    exact hh
  · rw [Function.update_of_ne hkh] at hk
    exact hw.nonneg hk

theorem Table.Wf.top_nonneg (hw : t.Wf) (htop : Top t.live s o) : 0 ≤ s :=
  hw.nonneg (objs_of_live htop.eq)

/-- The top of a stack is taken away, and its handle is returned or not. -/
theorem Table.Wf.erase (hw : t.Wf) (htop : Top t.live s o)
    (hl : t'.live = Function.update t.live s none) (hid : t'.nextId = t.nextId)
    (ho : ∃ e, t'.objs = (t.set s e).objs) : t'.Wf := by
  refine ⟨?_, ?_, fun {k e'} hk => ?_⟩
  · rw [hl, hid]
    exact hw.forest.erase htop
  · rw [hl]
    exact hw.typed.erase htop
  · obtain ⟨e, ho⟩ := ho
    rw [ho] at hk
    exact hw.nonneg_set (hw.top_nonneg htop) hk

/-! ## Closing -/

/-- What closing a stack does to the table. -/
structure Closes (t : Table) (s : ℤ) (t' : Table) : Prop where
  wf : t'.Wf
  none : ∀ {k}, t.live k = none → t'.live k = none
  once : ∀ {i}, Over t.live i s → t'.closed.count i = t.closed.count i + 1
  others : ∀ {i}, ¬ Over t.live i s → t'.closed.count i = t.closed.count i

theorem entry_live {w : World} (hl : w.live h = some o) : entry h w = .ok (some o, w) := by
  unfold entry
  rw [objs_of_live hl]
  rfl

theorem update_none_idem {f : ℤ → Option Obj} (hf : f s = none) : Function.update f s none = f := by
  rw [← hf, Function.update_eq_self]

/-- The last object of a stack. -/
theorem closes_single (hw : t.Wf) (htop : Top t.live s o) (hu : o.under = none) :
    Closes t s ((t.callback s o).release s) := by
  have hl : ((t.callback s o).release s).live = Function.update t.live s none := by
    rw [live_release, live_callback, Function.update_idem]
  have hover : ∀ i, Over t.live i s ↔ i = o.id := by
    intro i
    constructor
    · intro ho
      cases ho with
      | here he hi =>
        rw [htop.eq] at he
        cases he
        exact hi.symm
      | above he hu' _ =>
        rw [htop.eq] at he
        cases he
        rw [hu] at hu'
        cases hu'
    · rintro rfl
      exact .here htop.eq rfl
  refine ⟨hw.erase htop hl rfl ⟨Option.none, ?_⟩, fun {k} hk => ?_, fun {i} ho => ?_,
    fun {i} ho => ?_⟩
  · show Function.update (Function.update _ _ _) _ _ = Function.update _ _ _
    rw [Function.update_idem]
  · rw [hl]
    by_cases hks : k = s
    · rw [hks, Function.update_self]
    · rw [Function.update_of_ne hks]
      exact hk
  · rw [(hover i).mp ho]
    exact List.count_cons_self
  · have hne : i ≠ o.id := fun hi => ho ((hover i).mpr hi)
    exact List.count_cons_of_ne hne.symm

/-- The top of a stack is closed around what is under it. -/
theorem closes_above (hw : t.Wf) (htop : Top t.live s o) (hu : o.under = some u)
    (hc : Closes (t.callback s o) u t') : Closes t s (t'.release s) := by
  have hnone : t'.live s = Option.none := hc.none (by rw [live_callback, Function.update_self])
  have hl : (t'.release s).live = t'.live := by
    rw [live_release, update_none_idem hnone]
  refine ⟨⟨?_, ?_, fun {k e} hk => ?_⟩, fun {k} hk => ?_, fun {i} ho => ?_, fun {i} ho => ?_⟩
  · rw [hl]
    exact hc.wf.forest
  · rw [hl]
    exact hc.wf.typed
  · exact hc.wf.nonneg_set (hw.top_nonneg htop) hk
  · rw [hl]
    apply hc.none
    rw [live_callback]
    by_cases hks : k = s
    · rw [hks, Function.update_self]
    · rw [Function.update_of_ne hks]
      exact hk
  · show t'.closed.count i = _
    by_cases hi : i = o.id
    · have hno : ¬ Over (t.callback s o).live i u := by
        rw [live_callback, hw.forest.over_erase htop hu]
        exact fun hov => hov.2 hi
      rw [hc.others hno, hi]
      exact List.count_cons_self
    · have hov : Over (t.callback s o).live i u := by
        rw [live_callback, hw.forest.over_erase htop hu]
        exact ⟨ho, hi⟩
      rw [hc.once hov]
      exact congrArg (· + 1) (List.count_cons_of_ne (Ne.symm hi))
  · show t'.closed.count i = _
    have hno : ¬ Over (t.callback s o).live i u := by
      rw [live_callback, hw.forest.over_erase htop hu]
      exact fun hov => ho hov.1
    have hi : i ≠ o.id := by
      rintro rfl
      exact ho (.here htop.eq rfl)
    rw [hc.others hno]
    exact List.count_cons_of_ne hi.symm

/-- A stack whose numbers are below `n` is closed by `n` calls. -/
theorem hcloseN_total {n : ℕ} {w : World} (hw : w.Wf) (htop : Top w.live s o) (hn : o.id < n) :
    ∃ t', hcloseN n s w = .ok (.ok (), { w with toTable := t' }) ∧ Closes w.toTable s t' := by
  induction n generalizing s o w with
  | zero => omega
  | succ n ih =>
    cases hu : o.under with
    | none =>
      refine ⟨_, ?_, closes_single hw htop hu⟩
      unfold hcloseN
      show (entry s w >>= _) = _
      rw [entry_live htop.eq]
      simp only [bind, Except.bind, StateT.bind, hu]
      rfl
    | some u =>
      obtain ⟨o', htu, hlt⟩ := hw.forest.top_erase htop hu
      have hw₁ : (w.callback s o).Wf := hw.erase htop live_callback rfl ⟨some ⟨o, true⟩, rfl⟩
      have htu₁ : Top (w.callback s o).live u o' := by
        rw [live_callback]
        exact htu
      obtain ⟨t', heq, hc⟩ := ih (w := { w with toTable := w.callback s o }) hw₁ htu₁ (by omega)
      refine ⟨_, ?_, closes_above hw htop hu hc⟩
      unfold hcloseN
      show (entry s w >>= _) = _
      rw [entry_live htop.eq]
      simp only [bind, Except.bind, StateT.bind, hu, change]
      rw [heq]
      rfl

/-! ## Assertions -/

/-- The server refuses the upgrade to WebSockets. -/
def Reply.Rejects : Reply → Prop
  | .status (.ok rc) => rc ≠ 101
  | _ => False

/-- Of the answers `env` those that have been taken are no refusals. -/
def Accepted (env : List Ans) (w : World) : Prop :=
  ∃ pre, env = pre ++ w.env ∧ ∀ a ∈ pre, ¬ a.reply.Rejects

/-- The assertion `Q` about the table, after answers that were no refusals. -/
structure Met (env : List Ans) (Q : Table → Prop) (w : World) : Prop where
  accepted : Accepted env w
  holds : Q w.toTable

/-- From `s` down there are objects of the kinds `ks`, and then the object `ob`. -/
def Layers (f : ℤ → Option Obj) (ob : Obj) : List Kind → ℤ → Prop
  | [], s => f s = some ob
  | k :: ks, s => ∃ o u, f s = some o ∧ o.kind = k ∧ o.under = some u ∧ Layers f ob ks u

/-- A stack of the layers `ks` on the object `ob`, which has been closed `c` times. -/
structure Holds (ks : List Kind) (s : ℤ) (ob : Obj) (c : ℕ) (t : Table) : Prop where
  wf : t.Wf
  top : ∃ o, Top t.live s o
  layers : Layers t.live ob ks s
  count : t.closed.count ob.id = c

/-- The object `ob` has been closed `c` times. -/
structure Gone (ob : Obj) (c : ℕ) (t : Table) : Prop where
  wf : t.Wf
  count : t.closed.count ob.id = c

theorem Layers.over {f : ℤ → Option Obj} {ob : Obj} {ks : List Kind} (hl : Layers f ob ks s) :
    Over f ob.id s := by
  induction ks generalizing s with
  | nil => exact .here hl rfl
  | cons k ks ih =>
    obtain ⟨o, u, ho, -, hu, hl⟩ := hl
    exact .above ho hu (ih hl)

theorem Layers.congr {f g : ℤ → Option Obj} {ob : Obj} {ks : List Kind} {r : ℤ}
    (hl : Layers f ob ks s) (hne : s ≠ r) (hfree : ∀ {h' o'}, f h' = some o' → o'.under ≠ some r)
    (hg : ∀ k, k ≠ r → g k = f k) : Layers g ob ks s := by
  induction ks generalizing s with
  | nil => exact (hg s hne).trans hl
  | cons k ks ih =>
    obtain ⟨o, u, ho, hk, hu, hl⟩ := hl
    refine ⟨o, u, (hg s hne).trans ho, hk, hu, ih hl ?_⟩
    rintro rfl
    exact hfree ho hu

/-- The stack under a top does not contain it. -/
theorem Layers.erase {f : ℤ → Option Obj} {ob : Obj} {ks : List Kind} {n : ℕ} (hf : Forest f n)
    (htop : Top f s o) (hu : o.under = some u) (hl : Layers f ob ks u) :
    Layers (Function.update f s none) ob ks u := by
  obtain ⟨o', ht, -⟩ := hf.top_erase htop hu
  exact hl.congr (update_none ht.eq).1 htop.free fun k hk => Function.update_of_ne hk _ _

/-- A stack does not contain a handle that is not in use. -/
theorem Layers.add {f : ℤ → Option Obj} {ob : Obj} {ks : List Kind} {n : ℕ} (hf : Forest f n)
    (hn : f h = none) (hl : Layers f ob ks s) :
    Layers (Function.update f h (some o)) ob ks s := by
  refine hl.congr (r := h) ?_ ?_ fun k hk => Function.update_of_ne hk _ _
  · rintro rfl
    obtain ⟨o', he⟩ := hl.over.defined
    rw [hn] at he
    cases he
  · intro k o' hk hu
    obtain ⟨o₁, hk', -⟩ := hf.below hk hu
    rw [hn] at hk'
    cases hk'

variable {env : List Ans} {Q Q' : Table → Prop} {ks : List Kind} {ob : Obj} {c : ℕ} {α : Type}

theorem Met.mono {w : World} (h : Met env Q w) (hq : Q w.toTable → Q' w.toTable) : Met env Q' w :=
  ⟨h.accepted, hq h.holds⟩

theorem Accepted.next {w : World} {a : Ans} {rest : List Ans} {fl : ℕ → Flags} {t : Table}
    (h : Accepted env w) (hw : w.env = a :: rest) (ha : ¬ a.reply.Rejects) :
    Accepted env { w with toTable := t, flags := fl, env := rest } := by
  obtain ⟨pre, hpre, hall⟩ := h
  refine ⟨pre ++ [a], ?_, fun b hb => ?_⟩
  · rw [hpre, hw]
    simp
  · rcases List.mem_append.mp hb with hb | hb
    · exact hall b hb
    · rw [List.mem_singleton.mp hb]
      exact ha

theorem stop_spec {e : Stop} {P : World → Prop} {R : α → World → Prop} :
    Triple P (stop e : M α) R := by
  intro w r w' _ hr
  cases hr

/-- Taking an answer. -/
theorem reply_ok {f : Reply → Option α} {w w' : World} {x : α} (h : reply f w = .ok (x, w')) :
    ∃ a rest, w.env = a :: rest ∧ f a.reply = some x ∧
      w' = { w with flags := a.flags, env := rest } := by
  unfold reply at h
  split at h
  · cases h
  · rename_i a rest hw
    split at h
    · cases h
    · rename_i y hy
      cases h
      exact ⟨a, rest, hw, hy, rfl⟩

theorem reply_spec {f : Reply → Option α} (hf : ∀ r x, f r = some x → ¬ r.Rejects) :
    Triple (Met env Q) (reply f) fun _ => Met env Q := by
  intro w x w' hm hr
  obtain ⟨a, rest, hw, hx, rfl⟩ := reply_ok hr
  exact ⟨hm.accepted.next hw (hf _ _ hx), hm.holds⟩

theorem made_spec : Triple (Met env Q) (reply Reply.made?) fun _ => Met env Q :=
  reply_spec fun r x h => by cases r <;> first | exact id | cases h

theorem malloc_spec : Triple (Met env Q) (reply Reply.malloc?) fun _ => Met env Q :=
  reply_spec fun r x h => by cases r <;> first | exact id | cases h

theorem call_spec : Triple (Met env Q) (reply Reply.call?) fun _ => Met env Q :=
  reply_spec fun r x h => by cases r <;> first | exact id | cases h

theorem recv_spec : Triple (Met env Q) (reply Reply.recv?) fun _ => Met env Q :=
  reply_spec fun r x h => by cases r <;> first | exact id | cases h

theorem command_spec : Triple (Met env Q) (reply Reply.command?) fun _ => Met env Q :=
  reply_spec fun r x h => by cases r <;> first | exact id | cases h

theorem field_spec : Triple (Met env Q) (reply Reply.field?) fun _ => Met env Q :=
  reply_spec fun r x h => by cases r <;> first | exact id | cases h

theorem key_spec : Triple (Met env Q) (reply Reply.key?) fun _ => Met env Q :=
  reply_spec fun r x h => by cases r <;> first | exact id | cases h

theorem getFlags_spec {o : Obj} : Triple (Met env Q) (getFlags o) fun _ => Met env Q := by
  intro w r w' hm hr
  cases hr
  exact hm

theorem setFlags_spec {o : Obj} {f : Flags → Flags} :
    Triple (Met env Q) (setFlags o f) fun _ => Met env Q := by
  intro w r w' hm hr
  cases hr
  exact ⟨hm.accepted, hm.holds⟩

/-- A change of the table. -/
theorem change_spec {f : Table → Table} (hf : ∀ t, Q t → Q' (f t)) :
    Triple (Met env Q) (change f) fun _ => Met env Q' := by
  intro w r w' hm hr
  cases hr
  exact ⟨hm.accepted, hf _ hm.holds⟩

/-- The table is only read. -/
theorem entry_spec (hQ : ∀ t, Q t → t.live h = some o) :
    Triple (Met env Q) (entry h) fun r w => r = some o ∧ Met env Q w := by
  intro w r w' hm hr
  rw [entry_live (hQ _ hm.holds)] at hr
  cases hr
  exact ⟨rfl, hm⟩

theorem self_spec (hQ : ∀ t, Q t → t.live h = some o) :
    Triple (Met env Q) (self h) fun r w => r = o ∧ Met env Q w := by
  refine (entry_spec hQ).bind fun r => Triple.given (fun _ hw => hw.1) ?_
  rintro rfl
  exact .pure fun w hw => ⟨rfl, hw.2⟩

theorem hquery_spec (hQ : ∀ t, Q t → t.live h = some o) {ty : Ty} :
    Triple (Met env Q) (hquery h ty) fun r w =>
      r = (if o.kind.query ty then .ok () else .error .ENOTSUP) ∧ Met env Q w := by
  refine (entry_spec hQ).bind fun r => Triple.given (fun _ hw => hw.1) ?_
  rintro rfl
  exact .pure fun w hw => ⟨rfl, hw.2⟩

/-- Whatever `dill_hquery` answers, nothing changes. -/
theorem hquery_keeps {ty : Ty} (hQ : ∀ t, Q t → ∃ o, t.live h = some o) :
    Triple (Met env Q) (hquery h ty) fun _ => Met env Q := by
  intro w r w' hm hr
  obtain ⟨o, ho⟩ := hQ _ hm.holds
  have hent := entry_live ho
  unfold hquery at hr
  obtain ⟨a, w₁, ha, hr⟩ := bind_ok hr
  rw [hent] at ha
  cases ha
  cases hr
  exact hm

theorem under_spec {R : World → Prop} (hu : o.under = some u) :
    Triple R (Obj.u o) fun r w => r = u ∧ R w := by
  unfold Obj.u
  rw [hu]
  exact .pure fun w hw => ⟨rfl, hw⟩

/-! ## The operations at the top of a stack -/

theorem Holds.nonneg (hh : Holds ks s ob c t) : 0 ≤ s := by
  obtain ⟨o, htop⟩ := hh.top
  exact hh.wf.top_nonneg htop

/-- A stack is closed. -/
theorem hclose_total {w : World} (hh : Holds ks s ob c w.toTable) :
    ∃ t', hclose s w = .ok (.ok (), { w with toTable := t' }) ∧ Gone ob (c + 1) t' := by
  obtain ⟨o, htop⟩ := hh.top
  obtain ⟨t', heq, hc⟩ := hcloseN_total hh.wf htop (hh.wf.forest.fresh htop.eq)
  exact ⟨t', heq, hc.wf, by rw [hc.once hh.layers.over, hh.count]⟩

theorem hclose_spec :
    Triple (Met env (Holds ks s ob c)) (hclose s)
      fun r w => r = .ok () ∧ Met env (Gone ob (c + 1)) w := by
  intro w r w' hm hr
  obtain ⟨t', heq, hg⟩ := hclose_total hm.holds
  rw [heq] at hr
  cases hr
  exact ⟨rfl, hm.accepted, hg⟩

/-- The label `error` with a handle. -/
theorem fail_spec {err : Errno} :
    Triple (Met env (Holds ks s ob c)) (fail (α := α) s err) fun r w =>
      r = .error err ∧ Met env (Gone ob (c + 1)) w := by
  refine Triple.given (p := 0 ≤ s) (fun w hw => hw.holds.nonneg) fun hs => ?_
  unfold fail
  rw [if_pos hs]
  exact hclose_spec.bind fun _ => .pure fun w hw => ⟨rfl, hw.2⟩

/-- The label `error` without a handle. -/
theorem fail_none {err : Errno} {P : World → Prop} :
    Triple P (fail (α := α) (-1) err) fun r w => r = .error err ∧ P w := by
  unfold fail
  rw [if_neg (by decide)]
  exact .pure fun w hw => ⟨rfl, hw⟩

theorem closeFail_spec {err : Errno} :
    Triple (Met env (Holds ks s ob c)) (closeFail s err) fun r w =>
      r = .error err ∧ Met env (Gone ob (c + 1)) w := by
  refine hclose_spec.bind fun r => Triple.given (fun _ hw => hw.1) ?_
  rintro rfl
  exact .pure fun w hw => ⟨rfl, hw.2⟩

theorem serverFail_spec {err : Errno} :
    Triple (Met env (Holds ks s ob c)) (serverFail s err) fun r w =>
      r = .error err ∧ Met env (Gone ob (c + 1)) w := by
  refine Triple.given (p := 0 ≤ s) (fun w hw => hw.holds.nonneg) fun hs => ?_
  unfold serverFail
  rw [if_pos hs]
  exact closeFail_spec

theorem serverFail_none {err : Errno} {P : World → Prop} :
    Triple P (serverFail (-1) err) fun r w => r = .error err ∧ P w := by
  unfold serverFail
  rw [if_neg (by decide)]
  exact .pure fun w hw => ⟨rfl, hw⟩

/-- An unused handle is given to an object. -/
theorem hmake_ok {w w' : World} {r : Except Errno ℤ} (h : hmake o w = .ok (r, w')) :
    ∃ w₁, reply Reply.made? w = .ok (r, w₁) ∧
      match r with
      | .error _ => w' = w₁
      | .ok h => 0 ≤ h ∧ w₁.objs h = none ∧ w' = { w₁ with toTable := w₁.take h o } := by
  obtain ⟨a, w₁, ha, hr⟩ := bind_ok h
  cases a with
  | error e =>
    cases hr
    exact ⟨w', ha, rfl⟩
  | ok k =>
    simp only at hr
    split at hr
    · rename_i hk
      cases hr
      exact ⟨w₁, ha, hk.1, Option.isNone_iff_eq_none.mp hk.2, rfl⟩
    · cases hr

/-- The handle of an object at the top is given up for a new one. -/
theorem Holds.move (hh : Holds ks s ob c t) {k : ℤ} (htop : Top t.live s o) (hk : 0 ≤ k)
    (hn : t.objs k = none) : Holds ks k ob c ((t.take k o).release s) := by
  have hnl := live_of_objs hn
  have hne : k ≠ s := by
    rintro rfl
    rw [htop.eq] at hnl
    cases hnl
  have hnl' : Function.update t.live s none k = none := by
    rw [Function.update_of_ne hne]
    exact hnl
  have hl : ((t.take k o).release s).live =
      Function.update (Function.update t.live s none) k (some o) := by
    rw [live_release, live_take, Function.update_comm hne]
  obtain ⟨hf, ht⟩ := hh.wf.forest.move htop hnl
  have hf' := hh.wf.forest.erase htop
  refine ⟨⟨?_, ?_, fun {k' e} hk' => ?_⟩, ⟨o, ?_⟩, ?_, hh.count⟩
  · rw [hl]
    exact hf
  · rw [hl]
    apply (hh.wf.typed.erase htop).add hnl' (hh.wf.typed.based htop.eq)
    intro hkind
    obtain ⟨ht', ot, hs, os, hov⟩ := hh.wf.typed.http htop.eq hkind
    refine ⟨ht', ot, hs, os, hov.congr fun {k' o'} hk' hf' => ?_⟩
    rw [Function.update_of_ne]
    · exact hf'
    · rintro rfl
      rcases hk' with rfl | rfl
      · exact htop.free htop.eq hov.term
      · exact htop.free hov.termObj hov.suffix
  · by_cases hks : k' = s
    · rw [hks]
      exact hh.nonneg
    · have hk'' : (t.take k o).objs k' = some e := by
        rw [← hk']
        exact (Function.update_of_ne hks _ _).symm
      exact hh.wf.nonneg_set hk hk''
  · rw [hl]
    exact ht
  · rw [hl]
    cases ks with
    | nil =>
      have ho : o = ob := Option.some.inj (htop.eq.symm.trans hh.layers)
      show Function.update (Function.update t.live s none) k (some o) k = some ob
      rw [Function.update_self, ho]
    | cons kind ks =>
      obtain ⟨o', u, he, hkd, hu, hlay⟩ := hh.layers
      have ho : o' = o := Option.some.inj (he.symm.trans htop.eq)
      refine ⟨o, u, Function.update_self _ _ _, ho ▸ hkd, ho ▸ hu, ?_⟩
      exact (hlay.erase hh.wf.forest htop (ho ▸ hu)).add hf' hnl'

/-- The stack has a handle, or it is closed. -/
def Ended (ks : List Kind) (ob : Obj) (c : ℕ) (r : Except Errno ℤ) (t : Table) : Prop :=
  match r with
  | .ok u => Holds ks u ob c t
  | .error _ => Gone ob (c + 1) t

/-- The object gets a new handle, or it is closed. -/
theorem hown_spec :
    Triple (Met env (Holds ks s ob c)) (hown s) fun r => Met env (Ended ks ob c r) := by
  intro w r w' hm hr
  obtain ⟨o, htop⟩ := hm.holds.top
  unfold hown at hr
  obtain ⟨x, w₀, hent, hr⟩ := bind_ok hr
  rw [entry_live htop.eq] at hent
  cases hent
  obtain ⟨a, w₁, ha, hr⟩ := bind_ok hr
  obtain ⟨w₂, hmade, hres⟩ := hmake_ok ha
  have hm₂ := made_spec w a w₂ hm hmade
  have ht₂ : w₂.toTable = w.toTable := by
    obtain ⟨b, rest, -, -, rfl⟩ := reply_ok hmade
    rfl
  cases a with
  | error e =>
    have hw₂ : w₁ = w₂ := hres
    rw [← hw₂] at hm₂
    obtain ⟨b, w₃, hb, hr⟩ := bind_ok hr
    obtain ⟨hok, hg⟩ := hclose_spec w₁ b w₃ hm₂ hb
    rw [hok] at hr
    cases hr
    exact hg
  | ok k =>
    obtain ⟨hk, hn, rfl⟩ := hres
    cases hr
    rw [← ht₂] at htop
    exact ⟨hm₂.accepted, hm₂.holds.move htop hk hn⟩

/-- A new object. -/
theorem Table.Wf.add (hw : t.Wf) (kind : Kind) (under : Option ℤ) (hk : 0 ≤ h)
    (hn : t.objs h = none) (hu : ∀ u, under = some u → ∃ o, Top t.live u o)
    (hb : kind.isLayer = true → ∃ u, under = some u)
    (hkind : kind = .httpSock → ∃ ht ot hs os,
      HttpOver t.live ⟨t.nextId, kind, under⟩ ht ot hs os) :
    ({ t with nextId := t.nextId + 1 }.take h ⟨t.nextId, kind, under⟩).Wf ∧
      Top ({ t with nextId := t.nextId + 1 }.take h ⟨t.nextId, kind, under⟩).live h
        ⟨t.nextId, kind, under⟩ := by
  have hnl := live_of_objs hn
  have hmono := hw.forest.mono (Nat.le_succ t.nextId)
  obtain ⟨hf, ht⟩ := hmono.add (o := ⟨t.nextId, kind, under⟩) hnl (Nat.lt_succ_self _) (by
    intro u hu'
    obtain ⟨o, htop⟩ := hu u hu'
    exact ⟨o, htop, hw.forest.fresh htop.eq⟩)
  have hl : ({ t with nextId := t.nextId + 1 }.take h ⟨t.nextId, kind, under⟩).live =
      Function.update t.live h (some ⟨t.nextId, kind, under⟩) := live_take
  rw [hl]
  refine ⟨⟨?_, ?_, fun {k' e} hk' => hw.nonneg_set hk hk'⟩, ht⟩
  · rw [hl]
    exact hf
  · rw [hl]
    exact hw.typed.add hnl hb hkind

/-- A new object is put on a stack. -/
theorem Holds.make (hh : Holds ks s ob c t) {kind : Kind} (hk : 0 ≤ h) (hn : t.objs h = none)
    (hkind : kind = .httpSock → ∃ ks', ks = .termSock :: .suffixSock :: ks') :
    Holds (kind :: ks) h ob c
      ({ t with nextId := t.nextId + 1 }.take h ⟨t.nextId, kind, some s⟩) := by
  have hnl := live_of_objs hn
  obtain ⟨hw, ht⟩ := hh.wf.add kind (some s) hk hn
    (fun u hu => Option.some.inj hu ▸ hh.top) (fun _ => ⟨s, rfl⟩) (by
      intro hk'
      obtain ⟨ks', rfl⟩ := hkind hk'
      obtain ⟨ot, hs, hot, hkt, hut, os, b, hos, hks, -, -⟩ := hh.layers
      exact ⟨s, ot, hs, os, rfl, hot, hkt, hut, hos, hks⟩)
  refine ⟨hw, ⟨_, ht⟩, ⟨_, s, ht.eq, rfl, rfl, ?_⟩, hh.count⟩
  rw [live_take]
  exact hh.layers.add hh.wf.forest hnl

/-- A new object gets a number, and a handle that is not in use or none. -/
theorem make_ok {w w' : World} {kind : Kind} {under : Option ℤ} {r : Except Errno ℤ}
    (hr : make kind under w = .ok (r, w')) :
    ∃ a rest, w.env = a :: rest ∧ ¬ a.reply.Rejects ∧
      match r with
      | .error _ => w' =
          { w with nextId := w.nextId + 1, flags := a.flags, env := rest }
      | .ok h => 0 ≤ h ∧ w.objs h = none ∧ w' =
          { toTable := { w.toTable with nextId := w.nextId + 1 }.take h ⟨w.nextId, kind, under⟩
            flags := a.flags, env := rest } := by
  obtain ⟨o, w₀, ho, hr⟩ := bind_ok hr
  cases ho
  obtain ⟨w₂, hmade, hres⟩ := hmake_ok hr
  obtain ⟨a, rest, henv, hx, rfl⟩ := reply_ok hmade
  refine ⟨a, rest, henv, fun hrej => ?_, ?_⟩
  · cases ha : a.reply with
    | status r =>
      rw [ha] at hx
      cases hx
    | _ =>
      rw [ha] at hrej
      exact hrej
  · cases r with
    | error e => exact hres
    | ok h => exact hres

theorem make_spec {kind : Kind}
    (hkind : kind = .httpSock → ∃ ks', ks = .termSock :: .suffixSock :: ks') :
    Triple (Met env (Holds ks s ob c)) (make kind (some s)) fun r => Met env fun t =>
      match r with
      | .ok h => Holds (kind :: ks) h ob c t
      | .error _ => Holds ks s ob c t := by
  intro w r w' hm hr
  obtain ⟨a, rest, henv, hrej, hres⟩ := make_ok hr
  have hh := hm.holds
  cases r with
  | error e =>
    have hw' : w' = { w with nextId := w.nextId + 1, flags := a.flags, env := rest } := hres
    rw [hw']
    refine ⟨hm.accepted.next henv hrej, ⟨⟨?_, hh.wf.typed, hh.wf.nonneg⟩, hh.top, hh.layers,
      hh.count⟩⟩
    exact hh.wf.forest.mono (Nat.le_succ _)
  | ok h =>
    obtain ⟨hk, hn, rfl⟩ := hres
    exact ⟨hm.accepted.next henv hrej, hh.make hk hn hkind⟩

/-- The object at the top is freed, and what is under it is at the top. -/
theorem free_spec {kind : Kind} (hQ : ∀ t, Q t → Holds (kind :: ks) s ob c t ∧ t.live s = some o ∧
    o.under = some u) :
    Triple (Met env Q) (free s o) fun _ => Met env (Holds ks u ob c) := by
  apply change_spec
  intro t ht
  obtain ⟨hh, ho, hu⟩ := hQ t ht
  obtain ⟨o', htop⟩ := hh.top
  have ho' : o' = o := Option.some.inj (htop.eq.symm.trans ho)
  rw [ho'] at htop
  obtain ⟨o₁, u₁, he, -, hu₁, hlay⟩ := hh.layers
  have ho₁ : o₁ = o := Option.some.inj (he.symm.trans ho)
  have huu : u₁ = u := Option.some.inj ((ho₁ ▸ hu₁).symm.trans hu)
  rw [huu] at hlay
  obtain ⟨o₂, htop₂, -⟩ := hh.wf.forest.top_erase htop hu
  refine ⟨hh.wf.erase htop live_retire rfl ⟨_, rfl⟩, ⟨o₂, ?_⟩, ?_, hh.count⟩
  · rw [live_retire]
    exact htop₂
  · rw [live_retire]
    exact hlay.erase hh.wf.forest htop hu

end Libdill.Layer
