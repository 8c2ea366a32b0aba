import Libdill.Foundations.Answers
import Libdill.Tcp.Conn

/-!
# What a connection sends

The sending direction of a connection over a whole run: the bytes handed to the kernel are those
of the calls that succeeded and the beginning of the message of the call in progress or of the
first call that failed.
-/

namespace Libdill.Tcp

open Foundations Libdill.Sock Libdill.Fd

/-- The bytes handed to the kernel. -/
def handed (outs : List TxOut) : List UInt8 := outs.flatMap TxOut.took

/-- The messages of the successful calls. -/
def okSent (outs : List TxOut) : List UInt8 :=
  outs.flatMap fun o =>
    match o.result with
    | some (.ok (), m) => m
    | _ => []

@[simp] theorem handed_append (outs outs' : List TxOut) :
    handed (outs ++ outs') = handed outs ++ handed outs' := List.flatMap_append

@[simp] theorem okSent_append (outs outs' : List TxOut) :
    okSent (outs ++ outs') = okSent outs ++ okSent outs' := List.flatMap_append

/-- What an event does to the sending direction. -/
inductive TxStep (s : TxSide) : TxEv → TxSide → TxOut → Prop
  | busy {first : List (List UInt8)} : s.sbusy = true →
      TxStep s (.call first) s ⟨[], some (.error .EBUSY, first.flatten)⟩
  | outdone {first : List (List UInt8)} : s.sbusy = false → s.outdone = true →
      TxStep s (.call first) s ⟨[], some (.error .EPIPE, first.flatten)⟩
  | outerr {first : List (List UInt8)} : s.sbusy = false → s.outerr = true →
      TxStep s (.call first) s ⟨[], some (.error .ECONNRESET, first.flatten)⟩
  | start {first : List (List UInt8)} {s' : TxSide} {o : TxOut} :
      s.sbusy = false → s.outdone = false → s.outerr = false →
      ({ s with sbusy := true, smsg := first.flatten } : TxSide).settle [] (sendTurn first)
        = (s', o) → TxStep s (.call first) s' o
  | kernel {iov : List (List UInt8)} {a : SendAns} {s' : TxSide} {o : TxOut} :
      s.sjob = some (iov, false) → s.settle (sent iov a).1 (sent iov a).2 = (s', o) →
      TxStep s (.kernel a) s' o
  | woken {iov : List (List UInt8)} {s' : TxSide} {o : TxOut} : s.sjob = some (iov, true) →
      s.settle [] (sendTurn iov) = (s', o) → TxStep s (.fdout (.ok ())) s' o
  | refused {iov : List (List UInt8)} {e : Errno} {s' : TxSide} {o : TxOut} :
      s.sjob = some (iov, true) → s.settle [] (.failed e) = (s', o) →
      TxStep s (.fdout (.error e)) s' o

theorem txStep {s s' : TxSide} {a : TxEv} {o : TxOut} (hs : s.step a = some (s', o)) :
    TxStep s a s' o := by
  cases a with
  | call first =>
    unfold TxSide.step at hs
    simp only at hs
    split at hs
    · cases hs
    · split at hs
      · rename_i hb
        cases hs
        exact .busy hb
      · rename_i hb
        have hb' := Bool.eq_false_iff.mpr hb
        split at hs
        · rename_i hd
          cases hs
          exact .outdone hb' hd
        · rename_i hd
          split at hs
          · rename_i he
            cases hs
            exact .outerr hb' he
          · rename_i he
            exact .start hb' (Bool.eq_false_iff.mpr hd) (Bool.eq_false_iff.mpr he)
              (Option.some.inj hs)
  | kernel b =>
    unfold TxSide.step at hs
    simp only at hs
    split at hs
    · rename_i iov hj
      split at hs
      · exact .kernel hj (Option.some.inj hs)
      · cases hs
    · cases hs
  | fdout r =>
    unfold TxSide.step at hs
    simp only at hs
    split at hs
    · rename_i iov hj
      split at hs
      · exact .woken hj (Option.some.inj hs)
      · exact .refused hj (Option.some.inj hs)
    · cases hs

/-- The bytes a call in progress still has to send. -/
def TxSide.left (s : TxSide) : List UInt8 :=
  match s.sjob with
  | none => []
  | some (iov, _) => iov.flatten

/-- The state of the sending direction and its history, as long as no call has failed in the
middle: the message in progress is what was handed to the kernel of it and what is left. -/
structure TxInv (s : TxSide) (outs : List TxOut) : Prop where
  busy : s.sbusy = s.sjob.isSome
  outdone : s.outdone = false
  running : s.sjob ≠ none → s.outerr = false
  idle : s.sjob = none → s.smsg = []
  bytes : s.outerr = false →
    ∃ p, handed outs = okSent outs ++ p ∧ s.smsg = p ++ s.left

theorem txInv_init : TxInv .init [] where
  busy := rfl
  outdone := rfl
  running h := absurd rfl h
  idle _ := rfl
  bytes _ := ⟨[], rfl, rfl⟩

variable {s s' : TxSide} {evs : List TxEv} {outs : List TxOut} {a : TxEv} {e : Errno}
  {m : List UInt8}

/-- The bytes of a message that were handed to the kernel before the call failed. -/
def Cut (outs : List TxOut) (m : List UInt8) : Prop :=
  ∃ p, handed outs = okSent outs ++ p ∧ p <+: m

/-- A stretch of a send either goes on, with the invariant, or fails in the middle of its
message. -/
theorem txInv_settle {took : List UInt8} {oc : SendOutcome} {p : List UInt8} {o : TxOut}
    (hset : s.settle took oc = (s', o)) (hb : s.sbusy = true) (hd : s.outdone = false)
    (he : s.outerr = false) (hp : handed outs = okSent outs ++ p)
    (hgood : oc.Good → s.smsg = p ++ took ++ oc.left)
    (hbad : ∀ e, oc = .failed e → took = [] ∧ p <+: s.smsg) :
    TxInv s' (outs ++ [o]) ∧
      ∀ e m, o.result = some (.error e, m) → Cut (outs ++ [o]) m ∧ s'.outerr = true ∧
        s'.sjob = none ∧ s'.sbusy = false := by
  have hhanded : ∀ r, handed (outs ++ [⟨took, r⟩]) = okSent outs ++ (p ++ took) := by
    intro r
    rw [handed_append, hp, List.append_assoc]
    exact congrArg _ (congrArg _ (List.append_nil _))
  cases oc with
  | done =>
    cases hset
    have hok : okSent (outs ++ [⟨took, some (.ok (), s.smsg)⟩]) = okSent outs ++ s.smsg := by
      rw [okSent_append]
      exact congrArg _ (List.append_nil _)
    have hall : s.smsg = p ++ took ++ [] := hgood trivial
    rw [List.append_nil] at hall
    refine ⟨⟨rfl, hd, fun h => absurd rfl h, fun _ => rfl, fun _ => ⟨[], ?_, rfl⟩⟩,
      fun e m h => by cases h⟩
    rw [hhanded, hok, List.append_nil, hall]
  | failed e =>
    cases hset
    obtain ⟨rfl, hpre⟩ := hbad e rfl
    have hok : okSent (outs ++ [⟨[], some (.error e, s.smsg)⟩]) = okSent outs := by
      rw [okSent_append]
      exact List.append_nil _
    refine ⟨⟨rfl, hd, fun h => absurd rfl h, fun _ => rfl, fun h => by cases h⟩,
      fun e' m h => ?_⟩
    cases h
    refine ⟨⟨p, ?_, hpre⟩, rfl, rfl, rfl⟩
    rw [hhanded, hok, List.append_nil]
  | syscall iov =>
    cases hset
    have hok : okSent (outs ++ [⟨took, none⟩]) = okSent outs := by
      rw [okSent_append]
      exact List.append_nil _
    refine ⟨⟨hb, hd, fun _ => he, nofun, fun _ => ⟨p ++ took, ?_, hgood trivial⟩⟩,
      fun e m h => by cases h⟩
    rw [hhanded, hok]
  | wait iov =>
    cases hset
    have hok : okSent (outs ++ [⟨took, none⟩]) = okSent outs := by
      rw [okSent_append]
      exact List.append_nil _
    refine ⟨⟨hb, hd, fun _ => he, nofun, fun _ => ⟨p ++ took, ?_, hgood trivial⟩⟩,
      fun e m h => by cases h⟩
    rw [hhanded, hok]

theorem TxInv.refuse (h : TxInv s outs) (e : Errno) (m : List UInt8) :
    TxInv s (outs ++ [⟨[], some (.error e, m)⟩]) := by
  have hh : handed (outs ++ [⟨[], some (.error e, m)⟩]) = handed outs := by
    rw [handed_append]
    exact List.append_nil _
  have hok : okSent (outs ++ [⟨[], some (.error e, m)⟩]) = okSent outs := by
    rw [okSent_append]
    exact List.append_nil _
  refine { h with bytes := ?_ }
  rw [hh, hok]
  exact h.bytes

theorem sendTurn_failed (iov : List (List UInt8)) (e : Errno) : sendTurn iov ≠ .failed e := by
  unfold sendTurn
  simp only
  split <;> nofun

theorem sent_failed {iov : List (List UInt8)} {b : SendAns} (h : (sent iov b).2 = .failed e) :
    (sent iov b).1 = [] := by
  cases b with
  | accepted n =>
    unfold sent at h
    simp only at h
    split at h <;> cases h
  | again => rfl
  | fail e => rfl

/-- Nothing is sent any more. -/
structure Shut (s : TxSide) : Prop where
  idle : s.sjob = none
  free : s.sbusy = false
  outdone : s.outdone = false
  outerr : s.outerr = true

/-- One event: the invariant is kept, and the first call that fails, other than for being made
during another one, leaves a direction on which nothing is sent any more. -/
theorem TxInv.step (h : TxInv s outs) {o : TxOut} (hs : s.step a = some (s', o)) :
    TxInv s' (outs ++ [o]) ∧
      ∀ e m, o.result = some (.error e, m) → e ≠ .EBUSY → Shut s' ∧
        (s.outerr = false → Cut (outs ++ [o]) m) := by
  have hjob : ∀ {iov w}, s.sjob = some (iov, w) →
      s.sbusy = true ∧ s.outerr = false ∧
        ∃ p, handed outs = okSent outs ++ p ∧ s.smsg = p ++ iov.flatten := by
    intro iov w hj
    have he := h.running (by rw [hj]; exact Option.some_ne_none _)
    obtain ⟨p, hp, hmsg⟩ := h.bytes he
    refine ⟨by rw [h.busy, hj]; rfl, he, p, hp, ?_⟩
    rw [hmsg, TxSide.left, hj]
  have hfin : ∀ {o : TxOut} {s' : TxSide},
      (TxInv s' (outs ++ [o]) ∧ ∀ e m, o.result = some (.error e, m) →
        Cut (outs ++ [o]) m ∧ s'.outerr = true ∧ s'.sjob = none ∧ s'.sbusy = false) →
      TxInv s' (outs ++ [o]) ∧ ∀ e m, o.result = some (.error e, m) → e ≠ .EBUSY → Shut s' ∧
        (s.outerr = false → Cut (outs ++ [o]) m) := by
    rintro o s' ⟨hinv, herr⟩
    refine ⟨hinv, fun e m hr _ => ?_⟩
    obtain ⟨hcut, he, hj, hb⟩ := herr e m hr
    exact ⟨⟨hj, hb, hinv.outdone, he⟩, fun _ => hcut⟩
  cases txStep hs with
  | busy =>
    refine ⟨h.refuse _ _, fun e m hr he => ?_⟩
    cases hr
    exact absurd rfl he
  | outdone hb hd =>
    rw [h.outdone] at hd
    cases hd
  | outerr hb he =>
    refine ⟨h.refuse _ _, fun e m hr _ => ⟨⟨?_, hb, h.outdone, he⟩, fun hn => ?_⟩⟩
    · have hbusy := h.busy
      rw [hb] at hbusy
      exact Option.isNone_iff_eq_none.mp (Option.isSome_eq_false_iff.mp hbusy.symm)
    · rw [he] at hn
      cases hn
  | @start first _ _ hb hd he hset =>
    obtain ⟨p, hp, hmsg⟩ := h.bytes he
    have hjn : s.sjob = none := by
      have hbusy := h.busy
      rw [hb] at hbusy
      exact Option.isNone_iff_eq_none.mp (Option.isSome_eq_false_iff.mp hbusy.symm)
    have hleft : s.left = [] := by rw [TxSide.left, hjn]
    rw [h.idle hjn, hleft, List.append_nil] at hmsg
    rw [← hmsg] at hp
    apply hfin
    apply txInv_settle hset rfl hd he hp
    · intro _
      show first.flatten = [] ++ [] ++ (sendTurn first).left
      rw [sendTurn_left]
      rfl
    · intro e hf
      exact absurd hf (sendTurn_failed first e)
  | @kernel iov b _ _ hj hset =>
    obtain ⟨hb, he, p, hp, hmsg⟩ := hjob hj
    apply hfin
    apply txInv_settle hset hb h.outdone he hp
    · intro hgood
      rw [hmsg, sent_left iov b hgood, List.append_assoc]
    · intro e hf
      exact ⟨sent_failed hf, hmsg ▸ List.prefix_append _ _⟩
  | @woken iov _ _ hj hset =>
    obtain ⟨hb, he, p, hp, hmsg⟩ := hjob hj
    apply hfin
    apply txInv_settle hset hb h.outdone he hp
    · intro _
      rw [hmsg, sendTurn_left, List.append_nil]
    · intro e hf
      exact absurd hf (sendTurn_failed iov e)
  | @refused iov e _ _ hj hset =>
    obtain ⟨hb, he, p, hp, hmsg⟩ := hjob hj
    apply hfin
    apply txInv_settle hset hb h.outdone he hp
    · exact fun hgood => hgood.elim
    · exact fun _ _ => ⟨rfl, hmsg ▸ List.prefix_append _ _⟩

theorem txInv_of_answers (hr : answers TxSide.step .init evs = some (s, outs)) : TxInv s outs :=
  answers_induction (I := fun s _ outs => TxInv s outs) txInv_init
    (fun _ _ _ _ _ _ hi hs => (hi.step hs).1) hr

theorem Shut.step (h : Shut s) {o : TxOut} (hs : s.step a = some (s', o)) :
    s' = s ∧ o.took = [] ∧ ∃ m, o.result = some (.error .ECONNRESET, m) := by
  cases txStep hs with
  | busy hb =>
    rw [h.free] at hb
    cases hb
  | outdone _ hd =>
    rw [h.outdone] at hd
    cases hd
  | outerr => exact ⟨rfl, rfl, _, rfl⟩
  | start _ _ he =>
    rw [h.outerr] at he
    cases he
  | kernel hj =>
    rw [h.idle] at hj
    cases hj
  | woken hj =>
    rw [h.idle] at hj
    cases hj
  | refused hj =>
    rw [h.idle] at hj
    cases hj

theorem Shut.answers (h : Shut s) (hr : answers TxSide.step s evs = some (s', outs)) :
    handed outs = [] ∧ ∀ o ∈ outs, ∃ m, o.result = some (.error .ECONNRESET, m) := by
  have hi := answers_induction
    (I := fun s₁ _ outs => s₁ = s ∧ handed outs = [] ∧
      ∀ o ∈ outs, ∃ m, o.result = some (.error .ECONNRESET, m))
    ⟨rfl, rfl, fun o ho => absurd ho List.not_mem_nil⟩ ?_ hr
  · exact hi.2
  · rintro s₁ evs outs a s₂ o ⟨rfl, hd, ho⟩ hs
    obtain ⟨rfl, htook, hres⟩ := h.step hs
    refine ⟨rfl, ?_, ?_⟩
    · rw [handed_append, hd]
      show [] ++ (o.took ++ []) = []
      rw [htook]
      rfl
    · intro o' hm
      rcases List.mem_append.mp hm with hm | hm
      · exact ho o' hm
      · rw [List.mem_singleton.mp hm]
        exact hres

end Libdill.Tcp
