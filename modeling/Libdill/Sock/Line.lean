import Libdill.Foundations.Dialogue
import Libdill.Sock.Iolist

/-!
# Dialogues over a bytestream

A program that talks, run on a bytestream socket. If a call of the socket fails, so does the program.

* `line`: a bytestream with any peer, that breaks off in whatever way.
-/

namespace Libdill.Sock

open Foundations

variable {σ Q A α γ : Type}

/-- What a program does on a bytestream, with the questions it asks and the answers of `env`. An error
is what is in `errno`, if it has been set. -/
def onStream (u : Bsock σ) (env : Q → A) : Dialogue UInt8 Q A (Option Errno) α →
    Call (σ × List (Q × A)) Stop (Option Errno) α
  | .ret a => pure a
  | .fail e => Call.fail e
  | .crash => Call.stop .fault
  | .send bs next => fun (s, asked) =>
    match bsend u bs s with
    | .error r => .error r
    | .ok (.error e, s) => .ok (.error (some e), s, asked)
    | .ok (.ok (), s) => onStream u env next (s, asked)
  | .recv n next => fun (s, asked) =>
    match brecv u n s with
    | .error r => .error r
    | .ok (.error e, s) => .ok (.error (some e), s, asked)
    | .ok (.ok bs, s) =>
      if h : bs.length = n then onStream u env (next ⟨bs, h⟩) (s, asked) else .error .fault
  | .ask q next => fun (s, asked) => onStream u env (next (env q)) (s, asked ++ [(q, env q)])

/-! ## Lines -/

/-- What a peer sends, and how the calls that send to it end: with an error, or not. -/
structure Line where
  incoming : List UInt8
  sends : List (Option Errno)
  deriving DecidableEq

/-- The bytestream on a line. When the incoming bytes do not suffice, receiving fails with the given
error or waits; a send of which nothing is known succeeds. -/
def line (fate : Option Errno) : Bsock Line where
  bsendl s _ :=
    match s.sends with
    | [] => (.ok (), s)
    | none :: sends => (.ok (), { s with sends := sends })
    | some e :: sends => (.error e, { s with sends := sends })
  brecvl s lens ends :=
    ((ending fate).brecvl s.incoming lens ends).map fun r => (r.1, { s with incoming := r.2 })

variable {fate : Option Errno} {env : Q → A} {asked : List (Q × A)} {s : Line}
  {next : Dialogue UInt8 Q A (Option Errno) α}

/-- How the next send ends, and the line behind it. -/
def Line.sent (s : Line) : Option Errno × Line :=
  match s.sends with
  | [] => (none, s)
  | e :: sends => (e, { s with sends := sends })

@[simp] theorem sent_incoming (s : Line) : s.sent.2.incoming = s.incoming := by
  unfold Line.sent
  split <;> rfl

theorem onStream_send (bs : List UInt8) :
    onStream (line fate) env (.send bs next) (s, asked)
      = s.sent.1.elim (onStream (line fate) env next (s.sent.2, asked))
          fun e => .ok (.error (some e), s.sent.2, asked) := by
  obtain ⟨incoming, sends⟩ := s
  cases sends with
  | nil => rfl
  | cons e sends => cases e <;> rfl

variable {n : ℕ} {k : {bs : List UInt8 // bs.length = n} → Dialogue UInt8 Q A (Option Errno) α}

theorem brecv_line (n : ℕ) (s : Line) :
    brecv (line fate) n s =
      if n ≤ s.incoming.length then
        .ok (.ok (s.incoming.take n), { s with incoming := s.incoming.drop n })
      else fate.elim (.error .waits) fun e => .ok (.error e, { s with incoming := [] }) := by
  have h := @brecv_ending fate n s.incoming
  unfold brecv at h ⊢
  unfold line
  simp only
  by_cases hle : n ≤ s.incoming.length
  · rw [if_pos hle] at h ⊢
    cases hr : (ending fate).brecvl s.incoming [n] true with
    | none =>
      rw [hr] at h
      cases h
    | some r =>
      rw [hr] at h
      cases h
      rfl
  · rw [if_neg hle] at h ⊢
    cases hr : (ending fate).brecvl s.incoming [n] true with
    | none =>
      rw [hr] at h
      cases fate with
      | none => rfl
      | some e => cases h
    | some r =>
      rw [hr] at h
      cases fate with
      | none => cases h
      | some e =>
        cases h
        rfl

theorem onStream_recv (h : n ≤ s.incoming.length) :
    onStream (line fate) env (.recv n k) (s, asked)
      = onStream (line fate) env (k ⟨s.incoming.take n, List.length_take_of_le h⟩)
          ({ s with incoming := s.incoming.drop n }, asked) := by
  have hread := @brecv_line fate n s
  rw [if_pos h] at hread
  simp only [onStream, hread, dif_pos (List.length_take_of_le h)]

theorem onStream_recv_short (h : ¬ n ≤ s.incoming.length) :
    onStream (line fate) env (.recv n k) (s, asked)
      = fate.elim (.error .waits)
          fun e => .ok (.error (some e), { s with incoming := [] }, asked) := by
  have hread := @brecv_line fate n s
  rw [if_neg h] at hread
  cases fate with
  | none => simp only [onStream, hread, Option.elim_none]
  | some e => simp only [onStream, hread, Option.elim_some]

/-! ## Conditions on all runs -/

/-- Whatever the program receives and however its sends end, what it does when it returns has `Q`,
where `bs` is what it has received; it does not crash; and when it fails, the error has `E`. -/
def Meets (env : Q → A) (Q' : α → List UInt8 → List (Q × A) → Prop) (E : Option Errno → Prop) :
    Dialogue UInt8 Q A (Option Errno) α → List UInt8 → List (Q × A) → Prop
  | .ret a, bs, asked => Q' a bs asked
  | .fail e, _, _ => E e
  | .crash, _, _ => False
  | .send _ next, bs, asked => Meets env Q' E next bs asked
  | .recv n k, bs, asked => ∀ got : {bs : List UInt8 // bs.length = n},
      Meets env Q' E (k got) (bs ++ got.1) asked
  | .ask q k, bs, asked => Meets env Q' E (k (env q)) bs (asked ++ [(q, env q)])

section Rules

variable {Q' : α → List UInt8 → List (Q × A) → Prop} {E : Option Errno → Prop}
  {bs got : List UInt8}

theorem meets_ret {a : α} : Meets env Q' E (.ret a) got asked ↔ Q' a got asked := Iff.rfl

theorem meets_fail {e : Option Errno} :
    Meets env Q' E (.fail e : Dialogue UInt8 Q A (Option Errno) α) got asked ↔ E e := Iff.rfl

theorem meets_send :
    Meets env Q' E (.send bs next) got asked ↔ Meets env Q' E next got asked := Iff.rfl

theorem meets_recv :
    Meets env Q' E (.recv n k) got asked ↔ ∀ bs, Meets env Q' E (k bs) (got ++ bs.1) asked := Iff.rfl

theorem meets_ask {q : Q} {k : A → Dialogue UInt8 Q A (Option Errno) α} :
    Meets env Q' E (.ask q k) got asked
      ↔ Meets env Q' E (k (env q)) got (asked ++ [(q, env q)]) := Iff.rfl

end Rules

/-- **Soundness of the conditions.** -/
theorem onStream_meets {Q' : α → List UInt8 → List (Q × A) → Prop} {E : Option Errno → Prop}
    (he : ∀ e, E (some e)) {d : Dialogue UInt8 Q A (Option Errno) α} {bs : List UInt8}
    (h : Meets env Q' E d bs asked) :
    onStream (line fate) env d (s, asked) ≠ .error .fault ∧
      ∀ o s' asked', onStream (line fate) env d (s, asked) = .ok (o, s', asked') →
        (∀ a, o = .ok a → ∃ got, s.incoming = got ++ s'.incoming ∧ Q' a (bs ++ got) asked') ∧
        ∀ e, o = .error e → E e := by
  induction d generalizing s bs asked with
  | ret a =>
    constructor
    · intro hr
      cases hr
    · intro o s' asked' hr
      cases hr
      refine ⟨fun a ha => ?_, fun e h => by cases h⟩
      cases ha
      exact ⟨[], rfl, by rw [List.append_nil]; exact h⟩
  | fail e =>
    constructor
    · intro hr
      cases hr
    · intro o s' asked' hr
      cases hr
      refine ⟨fun a ha => (by cases ha), fun e' h' => ?_⟩
      cases h'
      exact h
  | crash => exact h.elim
  | send bs' next ih =>
    obtain ⟨hfault, hall⟩ := ih (s := s.sent.2) h
    rw [onStream_send]
    cases s.sent.1 with
    | none =>
      refine ⟨hfault, fun o s' asked' hr => ?_⟩
      have hend := hall o s' asked' hr
      rw [sent_incoming] at hend
      exact hend
    | some e =>
      constructor
      · intro hr
        cases hr
      · intro o s' asked' hr
        cases hr
        refine ⟨fun a ha => (by cases ha), fun e' h' => ?_⟩
        cases h'
        exact he e
  | recv n k ih =>
    by_cases hle : n ≤ s.incoming.length
    · rw [onStream_recv hle]
      obtain ⟨hfault, hall⟩ := ih ⟨s.incoming.take n, List.length_take_of_le hle⟩
        (s := { s with incoming := s.incoming.drop n }) (h ⟨_, List.length_take_of_le hle⟩)
      refine ⟨hfault, fun o s' asked' hr => ?_⟩
      obtain ⟨hok, herr⟩ := hall o s' asked' hr
      refine ⟨fun a ha => ?_, herr⟩
      obtain ⟨got, hgot, hq⟩ := hok a ha
      refine ⟨s.incoming.take n ++ got, ?_, ?_⟩
      · rw [List.append_assoc, ← hgot]
        exact (List.take_append_drop n s.incoming).symm
      · rw [← List.append_assoc]
        exact hq
    · rw [onStream_recv_short hle]
      cases fate with
      | none =>
        constructor
        · intro hr
          cases hr
        · intro o s' asked' hr
          cases hr
      | some e =>
        constructor
        · intro hr
          cases hr
        · intro o s' asked' hr
          cases hr
          refine ⟨fun a ha => (by cases ha), fun e' h' => ?_⟩
          cases h'
          exact he e
  | ask q k ih => exact ih (env q) h

attribute [irreducible] Meets

end Libdill.Sock
