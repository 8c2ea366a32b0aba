import Libdill.Ws.Close

/-!
# Streams that break off

A receive on a stream that breaks off does what it does on the whole stream, or fails and leaves
nothing on the stream. From this, what a call does on a stream that ends in whatever way follows from
what it does on a lossless one.

* `follows_recvlBase`, `follows_receive`: the two streams compared.
* `payload_consumes`: a payload that has been read has been taken off the stream, no byte more or
  less.
-/

namespace Libdill.Ws

open Foundations Libdill.Sock

variable {fate : Option Errno} {lost : List UInt8} {n : ℕ}

/-- The same receive on the stream that does not break off. -/
def Rx.ext (lost : List UInt8) (s : Rx (List UInt8)) : Rx (List UInt8) := { s with u := s.u ++ lost }

/-- Nothing is left on the stream. -/
def Rx.Spent (s : Rx (List UInt8)) : Prop := s.u = []

/-- A call on the stream that breaks off, and the same call on the whole stream. -/
abbrev Follows {α : Type} (lost : List UInt8) (x y : Call (Rx (List UInt8)) Stop Errno α)
    (s : Rx (List UInt8)) : Prop :=
  Call.Follows (Rx.ext lost) Rx.Spent .waits x y s

/-- The same for calls on the stream itself. -/
abbrev FollowsU {α : Type} (lost : List UInt8) (x y : Call (List UInt8) Stop Errno α)
    (s : List UInt8) : Prop :=
  Call.Follows (· ++ lost) (· = []) .waits x y s

/-! ## The calls of the layer below -/

theorem follows_brecv (n : ℕ) (s : List UInt8) :
    FollowsU lost (brecv (ending fate) n) (brecv lossless n) s := by
  have hall := @brecv_ending none n (s ++ lost)
  have hcut := @brecv_ending fate n s
  by_cases hle : n ≤ s.length
  · have hread := reads_lossless (s.take n) (s.drop n ++ lost)
    rw [List.length_take_of_le hle, ← List.append_assoc, List.take_append_drop] at hread
    rw [if_pos hle] at hcut
    constructor
    · intro o s' h
      rw [hcut] at h
      cases h
      exact .inl hread
    · intro r h
      rw [hcut] at h
      cases h
  · rw [if_neg hle] at hcut
    cases fate with
    | none =>
      constructor
      · intro o s' h
        rw [hcut] at h
        cases h
      · intro r h
        rw [hcut] at h
        cases h
        exact .inr rfl
    | some e =>
      constructor
      · intro o s' h
        rw [hcut] at h
        cases h
        exact .inr ⟨⟨e, rfl⟩, rfl⟩
      · intro r h
        rw [hcut] at h
        cases h

/-- Receiving from the stream in the state of a receive. -/
theorem follows_recv (n : ℕ) (s : Rx (List UInt8)) :
    Follows lost (recv (ending fate) n) (recv lossless n) s := by
  obtain ⟨hok, herr⟩ := @follows_brecv fate lost n s.u
  unfold recv
  constructor
  · intro o s' h
    simp only at h
    split at h
    · cases h
    · rename_i hread
      cases h
      rcases hok _ _ hread with h | ⟨he, hnil⟩
      · left
        simp only [Rx.ext, h]
      · exact .inr ⟨he, hnil⟩
  · intro r h
    simp only at h
    split at h
    · rename_i hread
      cases h
      rcases herr _ hread with h | h
      · left
        simp only [Rx.ext, h]
      · exact .inr h
    · cases h

theorem follows_readSize (sz : UInt8) (s : Rx (List UInt8)) :
    Follows lost (readSize (ending fate) sz) (readSize lossless sz) s := by
  unfold readSize
  split
  · exact (follows_recv 2 s).bind fun _ _ _ => Call.Follows.ret _
  · split
    · exact (follows_recv 8 s).bind fun _ _ _ => Call.Follows.ret _
    · exact Call.Follows.ret _

theorem follows_readMask (server : Bool) (s : Rx (List UInt8)) :
    Follows lost (readMask (ending fate) server) (readMask lossless server) s := by
  unfold readMask
  split
  · exact (follows_recv 4 s).bind fun _ _ _ => Call.Follows.ret _
  · exact Call.Follows.ret _

theorem follows_switchOpcode (opcode : UInt8) (s : Rx (List UInt8)) :
    Follows lost (switchOpcode opcode) (switchOpcode opcode) s := by
  unfold switchOpcode
  split
  · exact Call.Follows.ret _
  · split
    · exact Call.Follows.change rfl
    · split
      · exact Call.Follows.change rfl
      · split
        · exact Call.Follows.change rfl
        · exact Call.Follows.fail _

theorem follows_chunk (mask : Option (List UInt8)) (toread : ℕ) (it : Elem) (s : List UInt8) :
    FollowsU lost (chunk (ending fate) mask toread it) (chunk lossless mask toread it) s := by
  unfold chunk
  split
  · exact Call.Follows.ret _
  · refine (follows_brecv toread s).bind fun bs s' _ => ?_
    cases mask with
    | none => exact Call.Follows.ret _
    | some mask =>
      cases it with
      | null m => exact Call.Follows.stop _
      | buf mem => exact Call.Follows.ret _

/-! ## The payload -/

theorem follows_payload (mask : Option (List UInt8)) (sz : ℕ) (l : List Elem) (s : List UInt8) :
    (∀ o passed rest s', payload (ending fate) mask sz l s = .ok (o, passed, rest, s') →
      payload lossless mask sz l (s ++ lost) = .ok (o, passed, rest, s' ++ lost) ∨
        ((∃ e, o = .error e) ∧ s' = [])) ∧
    ∀ r, payload (ending fate) mask sz l s = .error r →
      payload lossless mask sz l (s ++ lost) = .error r ∨ r = .waits := by
  induction l generalizing sz s with
  | nil =>
    unfold payload
    by_cases hsz : sz = 0
    · simp only [if_pos hsz]
      refine ⟨fun o passed rest s' h => ?_, fun r h => by cases h⟩
      cases h
      exact .inl rfl
    · simp only [if_neg hsz]
      refine ⟨fun o passed rest s' h => (by cases h), fun r h => .inl h⟩
  | cons it next ih =>
    obtain ⟨hok, herr⟩ := @follows_chunk fate lost mask (min sz it.len) it s
    unfold payload
    simp only
    cases hchunk : chunk (ending fate) mask (min sz it.len) it s with
    | error r =>
      refine ⟨fun o passed rest s' h => (by cases h), fun r' h => ?_⟩
      cases h
      rcases herr r hchunk with h | h
      · left
        rw [h]
      · exact .inr h
    | ok p =>
      obtain ⟨o, s₁⟩ := p
      have hfst := hok o s₁ hchunk
      cases o with
      | error e =>
        refine ⟨fun o passed rest s' h => ?_, fun r h => by cases h⟩
        cases h
        rcases hfst with h | h
        · left
          rw [h]
        · exact .inr ⟨⟨e, rfl⟩, h.2⟩
      | ok it' =>
        have hall : chunk lossless mask (min sz it.len) it (s ++ lost) = .ok (.ok it', s₁ ++ lost) := by
          rcases hfst with h | ⟨⟨e, he⟩, -⟩
          · exact h
          · cases he
        obtain ⟨hrest, hstop⟩ := ih (sz - min sz it.len) s₁
        rw [hall]
        simp only
        by_cases hz : sz - min sz it.len = 0
        · simp only [if_pos hz]
          refine ⟨fun o passed rest s' h => ?_, fun r h => by cases h⟩
          cases h
          exact .inl rfl
        · simp only [if_neg hz]
          cases hnext : next.isEmpty with
          | true =>
            simp only [if_true]
            refine ⟨fun o passed rest s' h => ?_, fun r h => by cases h⟩
            cases h
            exact .inl rfl
          | false =>
            simp only [Bool.false_eq_true, if_false]
            cases hp : payload (ending fate) mask (sz - min sz it.len) next s₁ with
            | error r =>
              refine ⟨fun o passed rest s' h => (by cases h), fun r' h => ?_⟩
              cases h
              rcases hstop r hp with h | h
              · left
                rw [h]
              · exact .inr h
            | ok q =>
              obtain ⟨o₂, passed₂, rest₂, s₂⟩ := q
              refine ⟨fun o passed rest s' h => ?_, fun r h => by cases h⟩
              cases h
              rcases hrest _ _ _ _ hp with h | h
              · left
                rw [h]
              · exact .inr h

theorem follows_readPayload (close : Bool) (mask : Option (List UInt8)) (sz : ℕ)
    (s : Rx (List UInt8)) :
    Follows lost (readPayload (ending fate) close mask sz) (readPayload lossless close mask sz) s := by
  have hrun : ∀ l, _ := fun l => @follows_payload fate lost mask sz l s.u
  unfold readPayload
  cases close with
  | true =>
    obtain ⟨hok, herr⟩ := hrun s.self.elems
    constructor
    · intro o s' h
      simp only [if_true] at h ⊢
      split at h
      · cases h
      · rename_i hpay
        cases h
        rcases hok _ _ _ _ hpay with h | h
        · left
          simp only [Rx.ext, h]
        · exact .inr h
    · intro r h
      simp only [if_true] at h ⊢
      split at h
      · rename_i hpay
        cases h
        rcases herr _ hpay with h | h
        · left
          simp only [Rx.ext, h]
        · exact .inr h
      · cases h
  | false =>
    obtain ⟨hok, herr⟩ := hrun s.it
    constructor
    · intro o s' h
      simp only [Bool.false_eq_true, if_false] at h ⊢
      split at h
      · cases h
      · rename_i hpay
        cases h
        rcases hok _ _ _ _ hpay with h | h
        · left
          simp only [Rx.ext, h]
        · exact .inr h
    · intro r h
      simp only [Bool.false_eq_true, if_false] at h ⊢
      split at h
      · rename_i hpay
        cases h
        rcases herr _ hpay with h | h
        · left
          simp only [Rx.ext, h]
        · exact .inr h
      · cases h

/-! ## Whole receives -/

theorem follows_frame (res : UInt64) (s : Rx (List UInt8)) :
    Follows lost (frame (ending fate) res) (frame lossless res) s := by
  unfold frame
  refine (follows_recv 2 s).bind fun hdr1 s₁ _ => ?_
  refine (Call.Follows.require _ _).bind fun _ s₂ _ => ?_
  refine (follows_switchOpcode _ s₂).bind fun _ s₃ _ => ?_
  refine (Call.Follows.look (s := s₃) rfl).bind fun server s₄ _ => ?_
  refine (Call.Follows.require _ _).bind fun _ s₅ _ => ?_
  refine (follows_readSize _ s₅).bind fun sz s₆ _ => ?_
  refine (Call.Follows.require _ _).bind fun _ s₇ _ => ?_
  refine (follows_readMask _ s₇).bind fun mask s₈ _ => ?_
  exact (follows_readPayload _ mask _ s₈).bind fun _ _ _ => Call.Follows.ret _

theorem follows_frames (n : ℕ) (res : UInt64) (s : Rx (List UInt8)) :
    Follows lost (frames (ending fate) n res) (frames lossless n res) s := by
  induction n generalizing res s with
  | zero => exact Call.Follows.stop _
  | succ n ih =>
    rw [frames, frames]
    refine (follows_frame res s).bind fun r s' _ => ?_
    obtain ⟨res', fin⟩ := r
    cases fin with
    | true => exact Call.Follows.ret _
    | false => exact ih res' s'

theorem follows_closed (res : UInt64) (s : Rx (List UInt8)) :
    Follows lost (closed res) (closed res) s := by
  unfold closed
  split
  · exact Call.Follows.fail _
  · split
    · refine Call.Follows.bind (Call.Follows.change ?_) fun _ s₁ _ => ?_
      · rfl
      · refine (Call.Follows.look (s := s₁) rfl).bind fun status s₂ _ => ?_
        refine (Call.Follows.require _ _).bind fun _ s₃ _ => ?_
        refine Call.Follows.bind (Call.Follows.change ?_) fun _ _ _ => Call.Follows.fail _
        rfl
    · refine Call.Follows.bind (Call.Follows.change ?_) fun _ _ _ => Call.Follows.fail _
      rfl

/-- **A receive on a stream that breaks off.** -/
theorem follows_recvlBase (n : ℕ) (s : Rx (List UInt8)) :
    Follows lost (recvlBase (ending fate) n) (recvlBase lossless n) s := by
  unfold recvlBase
  refine (Call.Follows.look (s := s) rfl).bind fun indone s₁ _ => ?_
  refine (Call.Follows.require _ _).bind fun _ s₂ _ => ?_
  refine (follows_frames n 0 s₂).bind fun res s₃ _ => ?_
  refine (Call.Follows.look (s := s₃) rfl).bind fun indone s₄ _ => ?_
  split
  · exact follows_closed res s₄
  · exact Call.Follows.ret _

/-- What a call of the socket's receive functions does. -/
theorem follows_receive {c : Receive} {self : WsSock} {s : List UInt8} :
    (∀ o r, receive (ending fate) c self s = .ok (o, r) →
      receive lossless c self (s ++ lost) = .ok (o, r.ext lost) ∨
        ((∃ e, o = .error e) ∧ r.u = [])) ∧
    ∀ r, receive (ending fate) c self s = .error r →
      receive lossless c self (s ++ lost) = .error r ∨ r = .waits := by
  have hbase := @follows_recvlBase fate lost c.n (.start self s c.first)
  unfold receive
  split
  · refine Call.Follows.bind hbase fun sz s₁ _ => ?_
    refine Call.Follows.bind (Call.Follows.look rfl) fun flags s₂ _ => ?_
    cases flags with
    | none => exact Call.Follows.stop _
    | some flags => exact (Call.Follows.require _ _).bind fun _ _ _ => Call.Follows.ret _
  · exact hbase

/-! ## What a payload takes off the stream -/

theorem chunk_consumes {u : Bsock (List UInt8)} (hc : Consumes u) {mask : Option (List UInt8)}
    {it it' : Elem} {s s' : List UInt8} (h : chunk u mask n it s = .ok (.ok it', s')) :
    ∃ bs, s = bs ++ s' ∧ bs.length = n := by
  unfold chunk at h
  split at h
  · rename_i hz
    cases h
    exact ⟨[], rfl, hz.symm⟩
  · obtain ⟨bs, s₁, hread, h⟩ := Call.ret_of_bind h
    have hbs := (hc n s _ _ hread).2 bs rfl
    cases mask with
    | none =>
      cases h
      exact ⟨bs, hbs⟩
    | some mask =>
      cases it with
      | null m => cases h
      | buf mem =>
        cases h
        exact ⟨bs, hbs⟩

/-- **A payload that has been read.** -/
theorem payload_consumes {u : Bsock (List UInt8)} (hc : Consumes u) {mask : Option (List UInt8)}
    {sz : ℕ} {l passed rest : List Elem} {s s' : List UInt8}
    (h : payload u mask sz l s = .ok (.ok (), passed, rest, s')) :
    ∃ bs, s = bs ++ s' ∧ bs.length = sz := by
  induction l generalizing sz s passed with
  | nil =>
    unfold payload at h
    split at h
    · rename_i hz
      cases h
      exact ⟨[], rfl, hz.symm⟩
    · cases h
  | cons it next ih =>
    unfold payload at h
    simp only at h
    split at h
    · cases h
    · cases h
    · rename_i hchunk
      obtain ⟨bs, hbs, hlen⟩ := chunk_consumes hc hchunk
      split at h
      · cases h
        exact ⟨bs, hbs, by omega⟩
      · split at h
        · cases h
        · split at h
          · cases h
          · rename_i hpay
            cases h
            obtain ⟨bs', hbs', hlen'⟩ := ih hpay
            refine ⟨bs ++ bs', ?_, ?_⟩
            · rw [hbs, hbs', List.append_assoc]
            · rw [List.length_append]
              omega

theorem readPayload_consumes {u : Bsock (List UInt8)} (hc : Consumes u) {close : Bool}
    {mask : Option (List UInt8)} {sz : ℕ} {s s' : Rx (List UInt8)}
    (h : readPayload u close mask sz s = .ok (.ok (), s')) :
    (∃ bs, s.u = bs ++ s'.u ∧ bs.length = sz) ∧ (close = false → s'.self = s.self) := by
  unfold readPayload at h
  cases close with
  | true =>
    simp only [if_true] at h
    split at h
    · cases h
    · rename_i hpay
      cases h
      exact ⟨payload_consumes hc hpay, fun h => by cases h⟩
  | false =>
    simp only [Bool.false_eq_true, if_false] at h
    split at h
    · cases h
    · rename_i hpay
      cases h
      exact ⟨payload_consumes hc hpay, fun _ => rfl⟩

end Libdill.Ws
