import Libdill.Foundations.Answers
import Libdill.Suffix.Model
import Libdill.Term.Receive

/-!
# Closing one direction

The flags `indone` and `outdone` of a TERM socket are set by `dill_term_done` and when the terminator
arrives; only `dill_term_done` and `dill_term_detach` look at them.

* `step_calls`: which functions of the socket below a call uses, by the flags.
* `half_close_final`: in a run in which nothing is sent after `dill_term_done` and nothing received
  after the terminator, the handshake does not send or receive anything more either.
-/

namespace Libdill.Term

open Foundations Libdill.Sock

variable {σ : Type} {u : Msock σ}

/-! ## What is done to the socket below -/

/-- A call of a function of the socket below. -/
inductive Ev
  | send
  | recv
  deriving DecidableEq

/-- The socket `u` with a list of the calls of its functions that have returned. -/
def logged (u : Msock σ) : Msock (σ × List Ev) where
  msendl first := fun (s, log) =>
    match u.msendl first s with
    | .error r => .error r
    | .ok (o, s) => .ok (o, s, log ++ [.send])
  mrecvl first ends := fun (s, log) =>
    match u.mrecvl first ends s with
    | .error r => .error r
    | .ok (o, s) => .ok (o, s, log ++ [.recv])

/-- The calls on a TERM socket. -/
inductive Op
  | msendl (first : List (List UInt8))
  | mrecvl (junk : ℕ → UInt8) (first : List Elem)
  | done
  | detach (junk : ℕ → UInt8) (n : ℕ)

/-- After this call there is no TERM socket any more. -/
def Op.isDetach : Op → Bool
  | .detach _ _ => true
  | _ => false

/-- The function of a call; what a receive returns is its size. -/
def Op.run (u : Msock σ) : Op → Call (TermSock × σ) Stop Errno ℕ
  | .msendl first => do
    Term.msendl u first
    pure 0
  | .mrecvl junk first => do
    let r ← Term.mrecvl u junk first true
    pure r.1
  | .done => do
    Term.done u
    pure 0
  | .detach junk n => do
    Term.detach u junk n
    pure 0

/-- A call in a run: what it was, what it has returned, what it has done to the socket below, and
the flag `indone` afterwards. -/
structure Record where
  op : Op
  result : Except Errno ℕ
  calls : List Ev
  indone : Bool

/-- A TERM socket, until it is detached, and the socket below. -/
abbrev State (σ : Type) : Type := Option TermSock × σ

/-- A call on the socket, if it returns. `dill_term_detach` is the last one. -/
def step (u : Msock σ) (p : State σ) (op : Op) : Option (State σ × Record) :=
  match p.1 with
  | none => none
  | some self =>
    match op.run (logged u) (self, p.2, []) with
    | .error _ => none
    | .ok (o, self', s', log) =>
      some ((if op.isDetach then none else some self', s'), ⟨op, o, log, self'.indone⟩)

/-- A call that ends the sending direction: a successful `dill_term_done`. -/
def Record.Closes (r : Record) : Prop := r.op = .done ∧ ∃ n, r.result = .ok n

/-- A call that sees the end of the receiving direction: a receive that returns `EPIPE` because the
terminator has arrived. -/
def Record.Ends (r : Record) : Prop :=
  (∃ junk first, r.op = .mrecvl junk first) ∧ r.result = .error .EPIPE ∧ r.indone = true

/-- The call puts nothing on the wire, and fails if it is meant to. -/
def Record.SendsNothing (r : Record) : Prop :=
  .send ∉ r.calls ∧ ((∃ first, r.op = .msendl first) → r.result = .error .EPIPE)

/-- The call does not read from the socket below, and fails if it is meant to. -/
def Record.ReadsNothing (r : Record) : Prop :=
  .recv ∉ r.calls ∧ ((∃ junk first, r.op = .mrecvl junk first) → r.result = .error .EPIPE)

/-- Half-close is final. -/
def Final (rs : List Record) : Prop :=
  rs.Pairwise fun r r' => (r.Closes → r'.SendsNothing) ∧ (r.Ends → r'.ReadsNothing)

/-- The call does not send after the sending direction has been closed, or receive after the end of
the other one. -/
def Op.Proper (p : State σ) (op : Op) : Prop :=
  ∀ self, p.1 = some self →
    ((∃ first, op = .msendl first) → self.outdone = false) ∧
      ((∃ junk first, op = .mrecvl junk first) → self.indone = false)

/-- A run in which all calls are proper. -/
inductive Run (u : Msock σ) (p₀ : State σ) : State σ → List Record → Prop
  | start : Run u p₀ p₀ []
  | call {p p' : State σ} {rs : List Record} {op : Op} {r : Record} :
    Run u p₀ p rs → op.Proper p → step u p op = some (p', r) → Run u p₀ p' (rs ++ [r])

/-! ## What a function does -/

/-- From one state to another, only calls that satisfy `A` are added to the list, and no flag is
cleared. -/
structure Did (A : Ev → Prop) (s s' : TermSock × σ × List Ev) : Prop where
  calls : ∃ l, s'.2.2 = s.2.2 ++ l ∧ ∀ e ∈ l, A e
  outdone : s.1.outdone = true → s'.1.outdone = true
  indone : s.1.indone = true → s'.1.indone = true

variable {A B : Ev → Prop} {s s' s'' : TermSock × σ × List Ev} {α β : Type}

theorem Did.refl (A : Ev → Prop) (s : TermSock × σ × List Ev) : Did A s s :=
  ⟨⟨[], by simp, by simp⟩, id, id⟩

theorem Did.trans (h : Did A s s') (h' : Did A s' s'') : Did A s s'' := by
  obtain ⟨l, hl, hA⟩ := h.calls
  obtain ⟨l', hl', hA'⟩ := h'.calls
  refine ⟨⟨l ++ l', by rw [hl', hl, List.append_assoc], ?_⟩, fun ho => h'.outdone (h.outdone ho),
    fun hi => h'.indone (h.indone hi)⟩
  intro e he
  rcases List.mem_append.mp he with he | he
  · exact hA e he
  · exact hA' e he

/-- The function makes only calls that satisfy `A`. -/
def Does (A : Ev → Prop) (x : Call (TermSock × σ × List Ev) Stop Errno α)
    (s : TermSock × σ × List Ev) : Prop :=
  x.Ends s fun _ s' => Did A s s'

theorem Does.bind {x : Call (TermSock × σ × List Ev) Stop Errno α}
    {f : α → Call (TermSock × σ × List Ev) Stop Errno β} (hx : Does A x s)
    (hf : ∀ a s', x s = .ok (.ok a, s') → Does A (f a) s') : Does A (x >>= f) s :=
  Call.Ends.bind_of_trans (fun _ _ _ h h' => h.trans h') hx fun a s' ha _ => hf a s' ha

theorem does_pure (a : α) : Does A (pure a) s := Call.Ends.ret (Did.refl A s)

theorem does_require (c : Bool) (e : Errno) : Does A (Call.require c e) s :=
  Call.Ends.require (fun _ => Did.refl A s) fun _ => Did.refl A s

theorem does_look (g : TermSock × σ × List Ev → α) : Does A (Call.look g) s := by
  intro o s' h
  cases h
  exact Did.refl A s

theorem does_below_msendl (first : List (List UInt8)) :
    Does (· = .send) (below ((logged u).msendl first)) s := by
  obtain ⟨self, t, log⟩ := s
  intro o s' h
  obtain ⟨⟨t', log'⟩, hx, rfl⟩ := below_eq_ok h
  unfold logged at hx
  simp only at hx
  split at hx
  · cases hx
  · cases hx
    exact ⟨⟨[.send], rfl, by simp⟩, id, id⟩

theorem does_below_mrecvl (first : List Elem) (ends : Bool) :
    Does (· = .recv) (below ((logged u).mrecvl first ends)) s := by
  obtain ⟨self, t, log⟩ := s
  intro o s' h
  obtain ⟨⟨t', log'⟩, hx, rfl⟩ := below_eq_ok h
  unfold logged at hx
  simp only at hx
  split at hx
  · cases hx
  · cases hx
    exact ⟨⟨[.recv], rfl, by simp⟩, id, id⟩

theorem does_msendl (first : List (List UInt8)) : Does (· = .send) (msendl (logged u) first) s := by
  unfold msendl Sock.msendl
  split
  · obtain ⟨self, t⟩ := s
    intro o s' h
    cases h
    exact Did.refl _ _
  · exact does_below_msendl first

theorem does_done : Does (· = .send) (done (logged u)) s := by
  unfold done
  refine (does_look _).bind fun _ _ _ => ?_
  refine (does_require _ _).bind fun _ _ _ => ?_
  refine (does_look _).bind fun _ _ _ => ?_
  refine (does_below_msendl _).bind fun _ s₁ _ => ?_
  intro o s' h
  cases h
  exact ⟨⟨[], by simp, by simp⟩, fun _ => rfl, id⟩

/-- A second `dill_term_done` does nothing. -/
theorem does_done_again (h : s.1.outdone = true) : Does A (done (logged u)) s := by
  intro o s' hr
  unfold done at hr
  rw [Call.look_bind, h, show (true == false) = false by rfl, Call.bind_fail Call.require_false] at hr
  cases hr
  exact Did.refl _ s

theorem does_arrived : Does A (arrived : Call (TermSock × σ × List Ev) Stop Errno α) s := by
  intro o s' h
  cases h
  exact ⟨⟨[], by simp, by simp⟩, id, fun _ => rfl⟩

theorem does_took (term : List UInt8) (first : List Elem) (r : ℕ × List Elem) :
    Does A (took term first r) s := by
  unfold took
  split
  · split
    · exact does_arrived
    · exact does_pure _
  · split
    · exact does_arrived
    · exact does_pure _

theorem does_mrecvl (junk : ℕ → UInt8) (first : List Elem) :
    Does (· = .recv) (mrecvl (logged u) junk first true) s := by
  obtain ⟨self, t⟩ := s
  intro o s' h
  rw [mrecvl_eq] at h
  exact (does_below_mrecvl _ _).bind (fun r _ _ => does_took _ _ r) o s' h

theorem does_drain (junk : ℕ → UInt8) (n : ℕ) : Does (· = .recv) (drain (logged u) junk n) s := by
  induction n generalizing s with
  | zero => exact Call.Ends.stop
  | succ n ih =>
    have hturn : Does (· = .recv) (drainTurn (logged u) junk) s := by
      intro o s' h
      unfold drainTurn at h
      split at h
      · cases h
      · rename_i hrecv
        cases h
        exact does_mrecvl _ _ _ _ hrecv
      · rename_i hrecv
        split at h <;> cases h <;> exact does_mrecvl _ _ _ _ hrecv
    unfold drain
    refine hturn.bind fun last _ _ => ?_
    split
    · exact does_pure _
    · exact ih

/-- What `dill_term_detach` sends is the terminator, if it has not been sent. -/
theorem does_finish : Does (· = .send) (finish (logged u)) s := by
  unfold finish
  refine (does_look _).bind fun outdone _ _ => ?_
  split
  · exact does_pure _
  · exact does_done

theorem does_detachDone : Does (· = .send) (detachDone (logged u)) s := by
  unfold detachDone
  refine does_finish.bind fun _ s₁ _ => ?_
  have hlook : Does (· = .send) (Call.look fun s : TermSock × σ × List Ev => s.1.indone) s₁ :=
    does_look _
  exact hlook.bind fun _ _ _ => does_pure _

theorem detachDone_again (h : s.1.outdone = true) :
    detachDone (logged u) s = .ok (.ok (!s.1.indone), s) := by
  have hfinish : finish (logged u) s = .ok (.ok (), s) := by
    unfold finish
    rw [Call.look_bind, h]
    rfl
  unfold detachDone
  rw [Call.bind_ret hfinish]
  rfl

/-- It waits for the terminator of the peer if that has not arrived. -/
theorem detachDone_waits {a : Bool} (h : detachDone (logged u) s = .ok (.ok a, s')) :
    a = !s'.1.indone := by
  have hends : (detachDone (logged u)).Ends s fun o s' => ∀ a, o = .ok a → a = !s'.1.indone := by
    unfold detachDone
    refine Call.Ends.bind_ok fun _ s₁ _ => ?_
    intro o s' hr a ha
    cases hr
    cases ha
    rfl
  exact hends _ _ h a rfl

theorem does_detach_closed (junk : ℕ → UInt8) (n : ℕ) (h : s.1.outdone = true) :
    Does (· = .recv) (detach (logged u) junk n) s := by
  unfold detach
  intro o s' hr
  rw [Call.bind_ret (detachDone_again h)] at hr
  revert hr o s'
  cases !s.1.indone with
  | true => exact does_drain junk n
  | false => exact does_pure _

theorem does_detach_ended (junk : ℕ → UInt8) (n : ℕ) (h : s.1.indone = true) :
    Does (· = .send) (detach (logged u) junk n) s := by
  unfold detach
  refine does_detachDone.bind fun wait s₁ hr => ?_
  have hin : s₁.1.indone = true := (does_detachDone _ _ hr).indone h
  have hwait := detachDone_waits hr
  rw [hin] at hwait
  rw [hwait]
  exact does_pure _

/-! ## One call -/

variable {p p' : State σ} {op : Op} {r : Record}

theorem step_eq_some (h : step u p op = some (p', r)) :
    ∃ self o self' s' log, p.1 = some self ∧
      op.run (logged u) (self, p.2, []) = .ok (o, self', s', log) ∧
      p'.1 = (if op.isDetach then none else some self') ∧ r = ⟨op, o, log, self'.indone⟩ := by
  unfold step at h
  split at h
  · cases h
  · rename_i self hself
    split at h
    · cases h
    · rename_i hrun
      cases h
      exact ⟨self, _, _, _, _, hself, hrun, rfl, rfl⟩

/-- The calls in a record are those that were made. -/
theorem Did.mem_calls {self self' : TermSock} {t t' : σ} {log : List Ev}
    (h : Did A (self, t, []) (self', t', log)) {e : Ev} (he : e ∈ log) : A e := by
  obtain ⟨l, hl, hA⟩ := h.calls
  have heq : log = l := hl
  rw [heq] at he
  exact hA e he

/-- **Which calls a function makes, by the flags.** -/
theorem step_calls {self : TermSock} {o : Except Errno ℕ} (hself : p.1 = some self)
    (hproper : op.Proper p)
    (h : op.run (logged u) (self, p.2, []) = .ok (o, s')) :
    (self.outdone = true → Did (· = .recv) (self, p.2, []) s') ∧
      (self.indone = true → Did (· = .send) (self, p.2, []) s') := by
  obtain ⟨hsend, hrecv⟩ := hproper self hself
  cases op with
  | msendl first =>
    have hopen := hsend ⟨first, rfl⟩
    have hdoes : Does (· = .send) ((Op.msendl first).run (logged u)) (self, p.2, []) :=
      (does_msendl first).bind fun _ _ _ => does_pure _
    refine ⟨fun hout => ?_, fun _ => hdoes _ _ h⟩
    rw [hopen] at hout
    cases hout
  | mrecvl junk first =>
    have hopen := hrecv ⟨junk, first, rfl⟩
    have hdoes : Does (· = .recv) ((Op.mrecvl junk first).run (logged u)) (self, p.2, []) :=
      (does_mrecvl junk first).bind fun _ _ _ => does_pure _
    refine ⟨fun _ => hdoes _ _ h, fun hin => ?_⟩
    rw [hopen] at hin
    cases hin
  | done =>
    have hdoes : Does (· = .send) (Op.done.run (logged u)) (self, p.2, []) :=
      does_done.bind fun _ _ _ => does_pure _
    refine ⟨fun hout => ?_, fun _ => hdoes _ _ h⟩
    have hagain : Does (· = .recv) (Op.done.run (logged u)) (self, p.2, []) :=
      (does_done_again hout).bind fun _ _ _ => does_pure _
    exact hagain _ _ h
  | detach junk n =>
    constructor
    · intro hout
      have hdoes : Does (· = .recv) ((Op.detach junk n).run (logged u)) (self, p.2, []) :=
        (does_detach_closed junk n hout).bind fun _ _ _ => does_pure _
      exact hdoes _ _ h
    · intro hin
      have hdoes : Does (· = .send) ((Op.detach junk n).run (logged u)) (self, p.2, []) :=
        (does_detach_ended junk n hin).bind fun _ _ _ => does_pure _
      exact hdoes _ _ h

theorem done_closes {a : ℕ} (h : Op.done.run (logged u) s = .ok (.ok a, s')) :
    s'.1.outdone = true := by
  have hdone : (done (logged u)).Ends s fun o s' => ∀ a, o = .ok a → s'.1.outdone = true := by
    unfold done
    refine Call.Ends.bind_ok fun _ _ _ => ?_
    refine Call.Ends.bind_ok fun _ _ _ => ?_
    refine Call.Ends.bind_ok fun _ _ _ => ?_
    refine Call.Ends.bind_ok fun _ _ _ => ?_
    intro o s' hr _ _
    cases hr
    rfl
  have hrun : (Op.done.run (logged u)).Ends s
      fun o s' => ∀ a, o = .ok a → s'.1.outdone = true := by
    refine Call.Ends.bind_ok fun a s₁ hs₁ => ?_
    have hout := hdone _ _ hs₁ a rfl
    intro o s'' hr _ _
    cases hr
    exact hout
  exact hrun _ _ h a rfl

/-! ## Runs -/

variable {p₀ : State σ} {rs : List Record}

/-- The flags remember what has happened. -/
structure Kept (p : State σ) (rs : List Record) : Prop where
  closed : (∃ r ∈ rs, r.Closes) → ∀ self, p.1 = some self → self.outdone = true
  ended : (∃ r ∈ rs, r.Ends) → ∀ self, p.1 = some self → self.indone = true

/-- What one call preserves. -/
theorem step_final (hkept : Kept p rs) (hproper : op.Proper p) (h : step u p op = some (p', r)) :
    ((∃ r ∈ rs, r.Closes) → r.SendsNothing) ∧ ((∃ r ∈ rs, r.Ends) → r.ReadsNothing) ∧
      Kept p' (rs ++ [r]) := by
  obtain ⟨self, o, self', s', log, hself, hrun, hp', rfl⟩ := step_eq_some h
  obtain ⟨hclosed, hended⟩ := step_calls hself hproper hrun
  obtain ⟨hsend, hrecv⟩ := hproper self hself
  refine ⟨fun hc => ?_, fun he => ?_, ⟨?_, ?_⟩⟩
  · have hout := hkept.closed hc self hself
    refine ⟨fun hmem => ?_, fun hop => ?_⟩
    · have hev := (hclosed hout).mem_calls hmem
      cases hev
    · have hopen := hsend hop
      rw [hout] at hopen
      cases hopen
  · have hin := hkept.ended he self hself
    refine ⟨fun hmem => ?_, fun hop => ?_⟩
    · have hev := (hended hin).mem_calls hmem
      cases hev
    · have hopen := hrecv hop
      rw [hin] at hopen
      cases hopen
  · rintro ⟨r, hr, hc⟩ self₁ hself₁
    rw [hp'] at hself₁
    split at hself₁
    · cases hself₁
    · cases hself₁
      rcases List.mem_append.mp hr with hr | hr
      · exact (hclosed (hkept.closed ⟨r, hr, hc⟩ self hself)).outdone
          (hkept.closed ⟨r, hr, hc⟩ self hself)
      · rw [List.mem_singleton.mp hr] at hc
        obtain ⟨hop, a, ha⟩ := hc
        have hop' : op = .done := hop
        have ha' : o = .ok a := ha
        rw [hop', ha'] at hrun
        exact done_closes hrun
  · rintro ⟨r, hr, he⟩ self₁ hself₁
    rw [hp'] at hself₁
    split at hself₁
    · cases hself₁
    · cases hself₁
      rcases List.mem_append.mp hr with hr | hr
      · exact (hended (hkept.ended ⟨r, hr, he⟩ self hself)).indone
          (hkept.ended ⟨r, hr, he⟩ self hself)
      · rw [List.mem_singleton.mp hr] at he
        exact he.2.2

/-- **Half-close.** In every run of proper calls on a TERM socket, over any message socket and with
any terminator, nothing is sent after a successful `dill_term_done`, and nothing is received after
the terminator has arrived. -/
theorem half_close_final (u : Msock σ) (term : List UInt8) (s : σ) (p : State σ)
    (rs : List Record) (h : Run u (some ⟨term, false, false⟩, s) p rs) : Final rs := by
  have hboth : Kept p rs ∧ Final rs := by
    induction h with
    | start => exact ⟨⟨fun ⟨_, hr, _⟩ => absurd hr List.not_mem_nil,
        fun ⟨_, hr, _⟩ => absurd hr List.not_mem_nil⟩, List.Pairwise.nil⟩
    | call _ hproper hstep ih =>
      obtain ⟨hkept, hfinal⟩ := ih
      obtain ⟨hsends, hreads, hkept'⟩ := step_final hkept hproper hstep
      refine ⟨hkept', List.pairwise_append.mpr ⟨hfinal, List.pairwise_singleton _ _, ?_⟩⟩
      intro r hr r' hr'
      rw [List.mem_singleton.mp hr']
      exact ⟨fun hc => hsends ⟨r, hr, hc⟩, fun he => hreads ⟨r, hr, he⟩⟩
  exact hboth.2

/-- An HTTP socket that has sent nothing, with the bytes `wire` to be read. -/
def lines (wire : List UInt8) : State (Suffix.SuffixSock × List UInt8 × List UInt8) :=
  (some ⟨[], false, false⟩, Suffix.crlf.attach, wire, [])

/-- A receive into two bytes. -/
def recvTwo : Op := .mrecvl (fun _ => 0) [.buf [0, 0]]

theorem half_close_final_line : ∃ p rs,
    Run (Suffix.msock duplex 8) (lines [13, 10, 65, 13, 10]) p rs ∧ rs.length = 3 ∧ Final rs := by
  have hsend := @Run.call _ (Suffix.msock duplex 8) (lines [13, 10, 65, 13, 10]) _ _ _
    (.msendl [[65]]) _ .start (by rintro self ⟨⟩; simp) rfl
  have hdone := @Run.call _ _ _ _ _ _ .done _ hsend (by rintro self ⟨⟩; simp) rfl
  have hrecv := @Run.call _ _ _ _ _ _ recvTwo _ hdone (by rintro self ⟨⟩; simp [recvTwo]) rfl
  exact ⟨_, _, hrecv, rfl, half_close_final _ _ _ _ _ hrecv⟩

/-- After `dill_term_done` a line is sent, and after the empty line the next one is received. -/
theorem half_close_ignored :
    (∃ p rs, answers (step (Suffix.msock duplex 8)) (lines []) [.done, .msendl [[65]]] = some (p, rs)
      ∧ ¬ Final rs) ∧
    ∃ p rs, answers (step (Suffix.msock duplex 8)) (lines [13, 10, 65, 13, 10]) [recvTwo, recvTwo]
      = some (p, rs) ∧ ¬ Final rs := by
  constructor
  · refine ⟨_, _, rfl, fun h => ?_⟩
    have hsends := (List.pairwise_pair.mp h).1 ⟨rfl, 0, rfl⟩
    exact hsends.1 (List.mem_singleton_self Ev.send)
  · refine ⟨_, _, rfl, fun h => ?_⟩
    have hreads := (List.pairwise_pair.mp h).2 ⟨⟨_, _, rfl⟩, rfl, rfl⟩
    apply hreads.1
    decide

end Libdill.Term
