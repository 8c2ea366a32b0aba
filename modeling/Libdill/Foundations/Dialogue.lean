import Libdill.Foundations.Diamond
import Mathlib.Data.List.Basic

/-!
# Dialogues

A program that sends and receives symbols and asks its environment questions, as the tree of what it
does next. Two programs that talk to each other over two queues can take their steps in any order.

* `bind`, with its equations: programs in sequence.
* `Talk.diamond`: the order of the steps of the two programs does not matter.
* `Talk.ends_of_leads`: if the conversation comes to an end in one order, it does in every order, and
  in the same way.
-/

namespace Foundations

/-- A program that talks: it sends symbols, receives a number of them or asks a question, and goes on
from there; in the end it returns, fails or crashes. -/
inductive Dialogue (β Q A ε α : Type) : Type
  | ret (a : α)
  | fail (e : ε)
  | crash
  | send (bs : List β) (next : Dialogue β Q A ε α)
  | recv (n : ℕ) (next : {bs : List β // bs.length = n} → Dialogue β Q A ε α)
  | ask (q : Q) (next : A → Dialogue β Q A ε α)

namespace Dialogue

variable {β Q A ε α γ δ : Type}

/-- One program and then another one. -/
def andThen : Dialogue β Q A ε α → (α → Dialogue β Q A ε γ) → Dialogue β Q A ε γ
  | .ret a, f => f a
  | .fail e, _ => .fail e
  | .crash, _ => .crash
  | .send bs next, f => .send bs (next.andThen f)
  | .recv n next, f => .recv n fun bs => (next bs).andThen f
  | .ask q next, f => .ask q fun a => (next a).andThen f

instance : Monad (Dialogue β Q A ε) where
  pure := .ret
  bind := andThen

variable {f : α → Dialogue β Q A ε γ} {g : γ → Dialogue β Q A ε δ} {d : Dialogue β Q A ε α}

@[simp] theorem pure_eq (a : α) : (pure a : Dialogue β Q A ε α) = .ret a := rfl

@[simp] theorem ret_bind (a : α) : (.ret a : Dialogue β Q A ε α) >>= f = f a := rfl

@[simp] theorem fail_bind (e : ε) : (.fail e : Dialogue β Q A ε α) >>= f = .fail e := rfl

@[simp] theorem crash_bind : (.crash : Dialogue β Q A ε α) >>= f = .crash := rfl

@[simp] theorem send_bind (bs : List β) : .send bs d >>= f = .send bs (d >>= f) := rfl

@[simp] theorem recv_bind (n : ℕ) (k : {bs : List β // bs.length = n} → Dialogue β Q A ε α) :
    .recv n k >>= f = .recv n fun bs => k bs >>= f := rfl

@[simp] theorem ask_bind (q : Q) (k : A → Dialogue β Q A ε α) :
    .ask q k >>= f = .ask q fun a => k a >>= f := rfl

@[simp] theorem bind_assoc : d >>= f >>= g = d >>= fun a => f a >>= g := by
  induction d with
  | ret a => rfl
  | fail e => rfl
  | crash => rfl
  | send bs d ih => simp [ih]
  | recv n k ih =>
    rw [recv_bind, recv_bind, recv_bind]
    congr 1
    funext bs
    exact ih bs
  | ask q k ih =>
    rw [ask_bind, ask_bind, ask_bind]
    congr 1
    funext a
    exact ih a

/-- The program fails if `c`. -/
def refuse (c : Bool) (e : ε) : Dialogue β Q A ε Unit := if c then .fail e else .ret ()

/-- The program crashes unless `c`. -/
def assert (c : Bool) : Dialogue β Q A ε Unit := if c then .ret () else .crash

@[simp] theorem refuse_true (e : ε) : (refuse true e : Dialogue β Q A ε Unit) = .fail e := rfl

@[simp] theorem refuse_false (e : ε) : (refuse false e : Dialogue β Q A ε Unit) = .ret () := rfl

@[simp] theorem assert_true : (assert true : Dialogue β Q A ε Unit) = .ret () := rfl

@[simp] theorem assert_false : (assert false : Dialogue β Q A ε Unit) = .crash := rfl

/-- The program has come to its end. -/
def Ended : Dialogue β Q A ε α → Prop
  | .ret _ => True
  | .fail _ => True
  | .crash => True
  | _ => False

end Dialogue

/-! ## One side of a conversation -/

/-- A program with the symbols sent to it that it has not received yet, and the questions it has asked
with their answers. -/
structure Side (β Q A ε α : Type) where
  prog : Dialogue β Q A ε α
  inbox : List β
  asked : List (Q × A)

namespace Side

variable {β Q A ε α γ : Type}

/-- One step, with what is sent to the other side; the environment gives the answers. A program that
has not got all it wants to receive waits. -/
def step (env : Q → A) (s : Side β Q A ε α) : Option (Side β Q A ε α × List β) :=
  match s.prog with
  | .ret _ => none
  | .fail _ => none
  | .crash => none
  | .send bs next => some ({ s with prog := next }, bs)
  | .recv n next =>
    if h : n ≤ s.inbox.length then
      some ({ s with
        prog := next ⟨s.inbox.take n, List.length_take_of_le h⟩
        inbox := s.inbox.drop n }, [])
    else none
  | .ask q next => some ({ s with prog := next (env q), asked := s.asked ++ [(q, env q)] }, [])

/-- The side gets more symbols. -/
def get (s : Side β Q A ε α) (bs : List β) : Side β Q A ε α := { s with inbox := s.inbox ++ bs }

theorem step_recv {env : Q → A} {n : ℕ} {inbox : List β} (h : n ≤ inbox.length)
    (next : {bs : List β // bs.length = n} → Dialogue β Q A ε α) (asked : List (Q × A)) :
    (⟨.recv n next, inbox, asked⟩ : Side β Q A ε α).step env
      = some (⟨next ⟨inbox.take n, List.length_take_of_le h⟩, inbox.drop n, asked⟩, []) :=
  dif_pos h

/-- What a side does it does no matter how much more has been sent to it. -/
theorem step_get {env : Q → A} {s s' : Side β Q A ε α} {out : List β}
    (h : s.step env = some (s', out)) (bs : List β) :
    (s.get bs).step env = some (s'.get bs, out) := by
  obtain ⟨prog, inbox, asked⟩ := s
  cases prog with
  | ret a => cases h
  | fail e => cases h
  | crash => cases h
  | send bs' next =>
    cases h
    rfl
  | recv n next =>
    by_cases hn : n ≤ inbox.length
    · rw [step_recv hn] at h
      cases h
      have hn' : n ≤ (inbox ++ bs).length := by
        rw [List.length_append]
        omega
      unfold get
      rw [step_recv hn']
      simp only [List.take_append_of_le_length hn, List.drop_append_of_le_length hn]
    · have hnone : (⟨.recv n next, inbox, asked⟩ : Side β Q A ε α).step env = none := dif_neg hn
      rw [hnone] at h
      cases h
  | ask q next =>
    cases h
    rfl

/-- The side, with a program that goes on behind its own. -/
def andThen (s : Side β Q A ε α) (f : α → Dialogue β Q A ε γ) : Side β Q A ε γ :=
  ⟨s.prog >>= f, s.inbox, s.asked⟩

theorem step_andThen {env : Q → A} {s s' : Side β Q A ε α} {out : List β}
    (h : s.step env = some (s', out)) (f : α → Dialogue β Q A ε γ) :
    (s.andThen f).step env = some (s'.andThen f, out) := by
  obtain ⟨prog, inbox, asked⟩ := s
  cases prog with
  | ret a => cases h
  | fail e => cases h
  | crash => cases h
  | send bs next =>
    cases h
    rfl
  | recv n next =>
    by_cases hn : n ≤ inbox.length
    · rw [step_recv hn] at h
      cases h
      exact step_recv hn _ _
    · have hnone : (⟨.recv n next, inbox, asked⟩ : Side β Q A ε α).step env = none := dif_neg hn
      rw [hnone] at h
      cases h
  | ask q next =>
    cases h
    rfl

theorem get_andThen (s : Side β Q A ε α) (bs : List β) (f : α → Dialogue β Q A ε γ) :
    (s.get bs).andThen f = (s.andThen f).get bs := rfl

end Side

/-! ## Conversations -/

/-- Two sides that talk to each other. -/
structure Talk (β Q A ε α γ : Type) where
  left : Side β Q A ε α
  right : Side β Q A ε γ

namespace Talk

variable {β Q A ε α γ : Type}

/-- The conversation at its beginning. -/
def start (l : Dialogue β Q A ε α) (r : Dialogue β Q A ε γ) : Talk β Q A ε α γ :=
  ⟨⟨l, [], []⟩, ⟨r, [], []⟩⟩

/-- A step of either side. -/
inductive Step (env : Q → A) : Talk β Q A ε α γ → Talk β Q A ε α γ → Prop
  | left {l l' : Side β Q A ε α} {r : Side β Q A ε γ} {out : List β} :
    l.step env = some (l', out) → Step env ⟨l, r⟩ ⟨l', r.get out⟩
  | right {l : Side β Q A ε α} {r r' : Side β Q A ε γ} {out : List β} :
    r.step env = some (r', out) → Step env ⟨l, r⟩ ⟨l.get out, r'⟩

variable {env : Q → A}

/-- **The order of the steps does not matter.** -/
theorem diamond : Diamond (Step env : Talk β Q A ε α γ → Talk β Q A ε α γ → Prop) := by
  intro p q r hq hr
  cases hq with
  | @left l l₁ r out hl =>
    cases hr with
    | @left _ l₂ _ out' hl' =>
      rw [hl] at hl'
      cases hl'
      exact .inl rfl
    | @right _ _ r' out' hr' =>
      exact .inr ⟨_, .right (Side.step_get hr' out), .left (Side.step_get hl out')⟩
  | @right l r r₁ out hr₁ =>
    cases hr with
    | @left _ l' _ out' hl' =>
      exact .inr ⟨_, .left (Side.step_get hl' out), .right (Side.step_get hr₁ out')⟩
    | @right _ _ r₂ out' hr₂ =>
      rw [hr₁] at hr₂
      cases hr₂
      exact .inl rfl

/-- In every order the conversation comes to an end, and it ends in `F`. -/
def Ends (env : Q → A) (p F : Talk β Q A ε α γ) : Prop :=
  Final (Step env) F ∧ ∃ k, ∀ i q, Leads (Step env) i p q → ∃ j, k = i + j ∧ Leads (Step env) j q F

theorem step_ended {s : Side β Q A ε α} (h : s.prog.Ended) : s.step env = none := by
  unfold Side.step
  split
  · rfl
  · rfl
  · rfl
  · rename_i heq
    rw [heq] at h
    exact h.elim
  · rename_i heq
    rw [heq] at h
    exact h.elim
  · rename_i heq
    rw [heq] at h
    exact h.elim

theorem final_of_ended {p : Talk β Q A ε α γ} (hl : p.left.prog.Ended) (hr : p.right.prog.Ended) :
    Final (Step env) p := by
  intro q hq
  cases hq with
  | left h =>
    rw [step_ended hl] at h
    cases h
  | right h =>
    rw [step_ended hr] at h
    cases h

/-- **One order is enough.** -/
theorem ends_of_leads {k : ℕ} {p F : Talk β Q A ε α γ} (h : Leads (Step env) k p F)
    (hl : F.left.prog.Ended) (hr : F.right.prog.Ended) : Ends env p F :=
  ⟨final_of_ended hl hr, k, fun _ _ hq => leads_of_run diamond (final_of_ended hl hr) h hq⟩

/-! ### Runs, step by step -/

/-- Some run leads from `p` to `F`. -/
def Reaches (env : Q → A) (p F : Talk β Q A ε α γ) : Prop := ∃ k, Leads (Step env) k p F

variable {l : Side β Q A ε α} {r : Side β Q A ε γ} {F : Talk β Q A ε α γ} {n : ℕ}
  {inbox rest : List β} {asked : List (Q × A)}

theorem reaches_refl : Reaches env F F := ⟨0, .refl F⟩

theorem reaches_left {l' : Side β Q A ε α} {out : List β} (hl : l.step env = some (l', out))
    (h : Reaches env ⟨l', r.get out⟩ F) : Reaches env ⟨l, r⟩ F := by
  obtain ⟨k, hk⟩ := h
  exact ⟨k + 1, .cons (.left hl) hk⟩

theorem reaches_right {r' : Side β Q A ε γ} {out : List β} (hr : r.step env = some (r', out))
    (h : Reaches env ⟨l.get out, r'⟩ F) : Reaches env ⟨l, r⟩ F := by
  obtain ⟨k, hk⟩ := h
  exact ⟨k + 1, .cons (.right hr) hk⟩

theorem step_recv_append {next : {bs : List β // bs.length = n} → Dialogue β Q A ε α}
    (bs : {bs : List β // bs.length = n}) :
    (⟨.recv n next, bs.1 ++ rest, asked⟩ : Side β Q A ε α).step env
      = some (⟨next bs, rest, asked⟩, []) := by
  have hle : n ≤ (bs.1 ++ rest).length := by
    rw [List.length_append, bs.2]
    omega
  rw [Side.step_recv hle]
  congr 4
  · exact Subtype.ext (List.take_left' bs.2)
  · exact List.drop_left' bs.2

theorem get_nil (s : Side β Q A ε α) : s.get [] = s := by
  unfold Side.get
  rw [List.append_nil]

theorem send_left {bs : List β} {next : Dialogue β Q A ε α} {d : Dialogue β Q A ε γ}
    {inbox' : List β} {asked' : List (Q × A)}
    (h : Reaches env ⟨⟨next, inbox, asked⟩, ⟨d, inbox' ++ bs, asked'⟩⟩ F) :
    Reaches env ⟨⟨.send bs next, inbox, asked⟩, ⟨d, inbox', asked'⟩⟩ F := reaches_left rfl h

theorem send_right {bs : List β} {next : Dialogue β Q A ε γ} {d : Dialogue β Q A ε α}
    {inbox' : List β} {asked' : List (Q × A)}
    (h : Reaches env ⟨⟨d, inbox' ++ bs, asked'⟩, ⟨next, inbox, asked⟩⟩ F) :
    Reaches env ⟨⟨d, inbox', asked'⟩, ⟨.send bs next, inbox, asked⟩⟩ F := reaches_right rfl h

theorem recv_left {next : {bs : List β // bs.length = n} → Dialogue β Q A ε α}
    (bs : {bs : List β // bs.length = n}) (h : Reaches env ⟨⟨next bs, rest, asked⟩, r⟩ F) :
    Reaches env ⟨⟨.recv n next, bs.1 ++ rest, asked⟩, r⟩ F :=
  reaches_left (step_recv_append bs) (by rw [get_nil]; exact h)

theorem recv_right {next : {bs : List β // bs.length = n} → Dialogue β Q A ε γ}
    (bs : {bs : List β // bs.length = n}) (h : Reaches env ⟨l, ⟨next bs, rest, asked⟩⟩ F) :
    Reaches env ⟨l, ⟨.recv n next, bs.1 ++ rest, asked⟩⟩ F :=
  reaches_right (step_recv_append bs) (by rw [get_nil]; exact h)

theorem ask_right {q : Q} {next : A → Dialogue β Q A ε γ}
    (h : Reaches env ⟨l, ⟨next (env q), inbox, asked ++ [(q, env q)]⟩⟩ F) :
    Reaches env ⟨l, ⟨.ask q next, inbox, asked⟩⟩ F :=
  reaches_right rfl (by rw [get_nil]; exact h)

theorem reaches_trans {p q : Talk β Q A ε α γ} (h : Reaches env p q) (h' : Reaches env q F) :
    Reaches env p F := by
  obtain ⟨i, hi⟩ := h
  obtain ⟨j, hj⟩ := h'
  exact ⟨i + j, hi.trans hj⟩

/-- A run of the left program is a run of the longer one. -/
theorem andThen_left {δ : Type} {p : Talk β Q A ε α γ} (f : α → Dialogue β Q A ε δ)
    (h : Reaches env p F) :
    Reaches env ⟨p.left.andThen f, p.right⟩ ⟨F.left.andThen f, F.right⟩ := by
  obtain ⟨k, hk⟩ := h
  induction hk with
  | refl p => exact reaches_refl
  | cons hstep _ ih =>
    cases hstep with
    | left hl => exact reaches_left (Side.step_andThen hl f) ih
    | right hr => exact reaches_right hr (by rw [← Side.get_andThen]; exact ih)

/-- A run of the right program is a run of the longer one. -/
theorem andThen_right {δ : Type} {p : Talk β Q A ε α γ} (f : γ → Dialogue β Q A ε δ)
    (h : Reaches env p F) :
    Reaches env ⟨p.left, p.right.andThen f⟩ ⟨F.left, F.right.andThen f⟩ := by
  obtain ⟨k, hk⟩ := h
  induction hk with
  | refl p => exact reaches_refl
  | cons hstep _ ih =>
    cases hstep with
    | left hl => exact reaches_left hl (by rw [← Side.get_andThen]; exact ih)
    | right hr => exact reaches_right (Side.step_andThen hr f) ih

theorem ends_of_reaches {p : Talk β Q A ε α γ} (h : Reaches env p F)
    (hl : F.left.prog.Ended) (hr : F.right.prog.Ended) : Ends env p F := by
  obtain ⟨k, hk⟩ := h
  exact ends_of_leads hk hl hr

end Talk

end Foundations
