import Libdill.Fd.ScatterSpec
import Mathlib.Data.List.DropRight

/-!
# The direct receive as a plan

The loop of `dill_fd_recv` that receives directly into the user's buffers splits the list at null
buffers and at empty ones. What it does is a list of actions that depends on the buffers only,
`plan`, and not on how the elements are linked.

* `direct_eq`: the loop performs the plan of its list. If the list does not end in `last`, it runs
  off the end of the list then.
* `perform_spec`: a plan receives what it should.
* `plan_crowded`: the kernel refuses a part of the plan when too many buffers stand together.
-/

namespace Libdill.Fd.Scatter

open Foundations Libdill.Sock

variable {n : ℕ}

/-- What the loop does: a null buffer is skipped, and adjacent buffers are received into. -/
inductive Action
  | skip (len : ℕ)
  | recv (iov : List Buf)

/-- The buffers that have been collected are received into. -/
def flush (acc : List Buf) : List Action := if acc = [] then [] else [.recv acc]

/-- The actions for a list of buffers, when the buffers `acc` have been collected before. If the
list does not end in `last`, those at its end are not received into. -/
def plan (ends : Bool) : List Buf → List Buf → List Action
  | acc, [] => if ends then flush acc else []
  | acc, b :: l =>
    if b.2 = 0 then flush acc ++ plan ends [] l
    else if b.1 = none then flush acc ++ .skip b.2 :: plan ends [] l
    else plan ends (acc ++ [b]) l

/-- The actions one after the other. -/
def perform : List Action → Recv n Unit
  | [] => pure ()
  | .skip len :: acts => do
    ignore (fdSkip (toSsize len))
    perform acts
  | .recv iov :: acts => do
    recvIov iov
    perform acts

/-- Bytes are received into the buffer: it is neither null nor empty. -/
def Buf.Full (b : Buf) : Prop := b.1 ≠ none ∧ 0 < b.2

instance (b : Buf) : Decidable (Buf.Full b) := inferInstanceAs (Decidable (_ ∧ _))

/-- More than `max` buffers that bytes are received into stand next to each other. -/
def Crowded (max : ℕ) (l : List Buf) : Prop :=
  ∃ run, run <:+: l ∧ max < run.length ∧ ∀ b ∈ run, b.Full

/-- The buffers that the loop comes to: if the list does not end in `last`, those at its end are not
received into. -/
def reached (ends : Bool) (l : List Buf) : List Buf :=
  if ends then l else l.rdropWhile fun b => decide (Buf.Full b)

variable {A : Prop} {P : ℕ → Prop} {s s' : Rcv n} {acts acts' : List Action} {acc l : List Buf}
  {b : Buf} {iov : List Buf} {k len max : ℕ} {ends : Bool}

/-! ## Plans -/

/-- The addresses of the bytes that an action receives. -/
def Action.cells : Action → List (Option ℕ)
  | .skip len => List.replicate len none
  | .recv iov => Scatter.cells iov

/-- An action on something: `P` is what is known of the lengths of null buffers. -/
def Action.Fine (P : ℕ → Prop) : Action → Prop
  | .skip len => 0 < len ∧ P len
  | .recv iov => iov ≠ [] ∧ ∀ b ∈ iov, 0 < b.2

theorem flush_cells (acc : List Buf) : (flush acc).flatMap Action.cells = cells acc := by
  unfold flush
  split
  · rename_i hnil
    rw [hnil]
    rfl
  · exact List.append_nil _

theorem bufCells_zero (h : b.2 = 0) : Buf.cells b = [] := by
  apply List.length_eq_zero_iff.mp
  rw [length_bufCells, h]

theorem plan_cells (acc l : List Buf) :
    (plan true acc l).flatMap Action.cells = cells acc ++ cells l := by
  induction l generalizing acc with
  | nil =>
    rw [plan, if_pos rfl, flush_cells]
    exact (List.append_nil _).symm
  | cons b l ih =>
    unfold plan
    split
    · rename_i hzero
      rw [List.flatMap_append, flush_cells, ih, cells_cons, bufCells_zero hzero]
      rfl
    · split
      · rename_i hnull
        have hskip : (Action.skip b.2).cells = Buf.cells b := by
          unfold Buf.cells Action.cells
          rw [hnull]
        rw [List.flatMap_append, List.flatMap_cons, flush_cells, ih, cells_cons, hskip]
        rfl
      · rw [ih, cells_append, cells_cons, cells_cons, List.append_assoc]
        show _ ++ (Buf.cells b ++ [] ++ cells l) = _
        rw [List.append_nil]

theorem flush_fine (hacc : ∀ b ∈ acc, 0 < b.2) : ∀ a ∈ flush acc, a.Fine P := by
  intro a ha
  unfold flush at ha
  split at ha
  · cases ha
  · rename_i hne
    rw [List.mem_singleton.mp ha]
    exact ⟨hne, hacc⟩

theorem plan_fine (hacc : ∀ b ∈ acc, 0 < b.2)
    (hl : ∀ b ∈ l, b.1 = none → b.2 = 0 ∨ P b.2) : ∀ a ∈ plan ends acc l, a.Fine P := by
  induction l generalizing acc with
  | nil =>
    intro a ha
    unfold plan at ha
    split at ha
    · exact flush_fine hacc a ha
    · cases ha
  | cons b l ih =>
    obtain ⟨hb, hl⟩ := List.forall_mem_cons.mp hl
    have hnil : ∀ b ∈ ([] : List Buf), 0 < b.2 := fun b hb => absurd hb List.not_mem_nil
    intro a ha
    unfold plan at ha
    split at ha
    · rcases List.mem_append.mp ha with ha | ha
      · exact flush_fine hacc a ha
      · exact ih hnil hl a ha
    · rename_i hpos
      split at ha
      · rename_i hnull
        rcases List.mem_append.mp ha with ha | ha
        · exact flush_fine hacc a ha
        · rcases List.mem_cons.mp ha with rfl | ha
          · exact ⟨Nat.pos_of_ne_zero hpos, (hb hnull).resolve_left hpos⟩
          · exact ih hnil hl a ha
      · refine ih ?_ hl a ha
        intro b' hb'
        rcases List.mem_append.mp hb' with hb' | hb'
        · exact hacc b' hb'
        · rw [List.mem_singleton.mp hb']
          exact Nat.pos_of_ne_zero hpos

theorem toSsize_eq (h : len < 2 ^ 63) : toSsize len = len := by
  unfold toSsize
  have h64 : ((2 ^ 64 : ℕ) : ℤ) = 2 ^ 64 := rfl
  rw [Int.bmod_def, h64]
  split <;> omega

/-- **A plan receives what it should.** When `A` holds nothing may be skipped, because nobody
notices when that fails. -/
theorem perform_spec (h : ∀ a ∈ acts, a.Fine fun len => ¬A ∧ len < 2 ^ 63)
    (hmax : ∀ iov : List Buf, .recv iov ∈ acts → iov.length ≤ s.iovMax) (hu : unread s.rx = []) :
    Spec A none (acts.flatMap Action.cells) (perform acts) s := by
  induction acts generalizing s with
  | nil => exact spec_pure A none s
  | cons a acts ih =>
    obtain ⟨ha, hrest⟩ := List.forall_mem_cons.mp h
    have hnext : ∀ s', Keeps none s s' → Spec A none (acts.flatMap Action.cells) (perform acts) s' :=
      fun s' hkeep => ih hrest
        (fun iov hiov => hkeep.iovMax ▸ hmax iov (List.mem_cons_of_mem _ hiov))
        (by rw [hkeep.rx rfl, hu])
    rw [List.flatMap_cons]
    cases a with
    | skip len =>
      obtain ⟨-, hA, hlt⟩ := ha
      have hskip : Spec False none (List.replicate (len : ℤ).toNat none) (fdSkip len) s :=
        fdSkip_spec (by omega) hu
      rw [Int.toNat_natCast, ← toSsize_eq hlt] at hskip
      exact (hskip.ignored.imp hA).bind fun s' _ => hnext s'
    | recv iov =>
      exact (recvIov_spec s ha.1 ha.2 (hmax iov List.mem_cons_self) hu).bind fun s' _ => hnext s'

/-! ## Buffers that stand together -/

theorem Crowded.length (h : Crowded max l) : max < l.length := by
  obtain ⟨run, hrun, hlen, -⟩ := h
  exact hlen.trans_le hrun.length_le

theorem Crowded.ne_nil (h : Crowded max l) : l ≠ [] :=
  List.ne_nil_of_length_pos ((Nat.zero_le max).trans_lt h.length)

theorem Crowded.mono {l' : List Buf} (h : Crowded max l) (hl : l <:+: l') : Crowded max l' := by
  obtain ⟨run, hrun, hlen, hfull⟩ := h
  exact ⟨run, hrun.trans hl, hlen, hfull⟩

/-- The first buffer may be another one. -/
theorem Crowded.head {b' : Buf} (h : Crowded max (b' :: l)) (hb : Buf.Full b' → Buf.Full b) :
    Crowded max (b :: l) := by
  obtain ⟨run, hrun, hlen, hfull⟩ := h
  rcases List.infix_cons_iff.mp hrun with hhead | hin
  · rcases List.prefix_cons_iff.mp hhead with rfl | ⟨t, rfl, ht⟩
    · exact absurd hlen (Nat.not_lt_zero max)
    · obtain ⟨hb', ht'⟩ := List.forall_mem_cons.mp hfull
      exact ⟨b :: t, (List.cons_prefix_cons.mpr ⟨rfl, ht⟩).isInfix, hlen,
        List.forall_mem_cons.mpr ⟨hb hb', ht'⟩⟩
  · exact ⟨run, List.infix_cons hin, hlen, hfull⟩

theorem crowded_full (hl : ∀ b ∈ l, Buf.Full b) : Crowded max l ↔ max < l.length :=
  ⟨Crowded.length, fun hlen => ⟨l, List.infix_rfl, hlen, hl⟩⟩

/-- Buffers that do not reach beyond one that nothing is received into. -/
theorem infix_split {run : List Buf} (hb : ¬Buf.Full b) (hfull : ∀ b ∈ run, Buf.Full b)
    (h : run <:+: acc ++ b :: l) : run <:+: acc ∨ run <:+: l := by
  have hout : b ∉ run := fun hmem => hb (hfull b hmem)
  have hhead : ∀ acc : List Buf, run <+: acc ++ b :: l → run <+: acc := by
    intro acc hpre
    rcases Nat.lt_or_ge acc.length run.length with hlt | hle
    · have hmore : acc ++ [b] <+: run := by
        refine List.prefix_of_prefix_length_le ⟨l, by rw [List.append_assoc]; rfl⟩ hpre ?_
        rw [List.length_append]
        exact hlt
      exact absurd (hmore.subset (List.mem_append_right _ (List.mem_singleton_self b))) hout
    · exact List.prefix_of_prefix_length_le hpre (List.prefix_append acc _) hle
  induction acc with
  | nil =>
    rcases List.infix_cons_iff.mp h with hpre | hin
    · exact .inl (hhead [] hpre).isInfix
    · exact .inr hin
  | cons a acc ih =>
    rcases List.infix_cons_iff.mp h with hpre | hin
    · exact .inl (hhead (a :: acc) hpre).isInfix
    · exact (ih hin).imp_left List.infix_cons

theorem crowded_split (hb : ¬Buf.Full b) :
    Crowded max (acc ++ b :: l) ↔ Crowded max acc ∨ Crowded max l := by
  constructor
  · rintro ⟨run, hrun, hlen, hfull⟩
    exact (infix_split hb hfull hrun).imp (⟨run, ·, hlen, hfull⟩) (⟨run, ·, hlen, hfull⟩)
  · rintro (h | h)
    · exact h.mono (List.prefix_append acc _).isInfix
    · exact h.mono ((List.suffix_cons b l).trans (List.suffix_append acc _)).isInfix

theorem flush_crowded :
    (∃ iov : List Buf, .recv iov ∈ flush acc ∧ max < iov.length) ↔ max < acc.length := by
  unfold flush
  split
  · rename_i hnil
    rw [hnil]
    exact iff_of_false (fun ⟨_, hmem, _⟩ => absurd hmem List.not_mem_nil) (Nat.not_lt_zero max)
  · constructor
    · rintro ⟨iov, hmem, hlen⟩
      cases List.mem_singleton.mp hmem
      exact hlen
    · exact fun hlen => ⟨acc, List.mem_singleton_self _, hlen⟩

theorem plan_crowded_acc (hacc : ∀ b ∈ acc, Buf.Full b) :
    (∃ iov : List Buf, .recv iov ∈ plan true acc l ∧ max < iov.length) ↔ Crowded max (acc ++ l) := by
  induction l generalizing acc with
  | nil => rw [plan, if_pos rfl, List.append_nil, flush_crowded, crowded_full hacc]
  | cons b l ih =>
    have hrest : (∃ iov : List Buf, .recv iov ∈ plan true [] l ∧ max < iov.length) ↔
        Crowded max l := ih fun b hb => absurd hb List.not_mem_nil
    unfold plan
    split
    · rename_i hzero
      rw [crowded_split fun hfull => hfull.2.ne' hzero, crowded_full hacc, ← flush_crowded, ← hrest]
      simp only [List.mem_append, or_and_right, exists_or]
    · rename_i hpos
      split
      · rename_i hnull
        rw [crowded_split fun hfull => hfull.1 hnull, crowded_full hacc, ← flush_crowded, ← hrest]
        simp only [List.mem_append, List.mem_cons, reduceCtorEq, false_or, or_and_right, exists_or]
      · rename_i hbase
        have hmore := @ih (acc ++ [b])
        rw [← List.append_cons] at hmore
        refine hmore fun b' hb' => ?_
        rcases List.mem_append.mp hb' with hb' | hb'
        · exact hacc b' hb'
        · rw [List.mem_singleton.mp hb']
          exact ⟨hbase, Nat.pos_of_ne_zero hpos⟩

/-- **What the kernel refuses**: a part of the plan has too many buffers exactly when they stand
together in the list. -/
theorem plan_crowded :
    (∃ iov : List Buf, .recv iov ∈ plan true [] l ∧ max < iov.length) ↔ Crowded max l :=
  plan_crowded_acc fun _ hb => absurd hb List.not_mem_nil

theorem plan_append (hacc : ∀ b ∈ acc, Buf.Full b) (acc' : List Buf) :
    plan ends acc' (acc ++ l) = plan ends (acc' ++ acc) l := by
  induction acc generalizing acc' with
  | nil => rw [List.append_nil, List.nil_append]
  | cons b acc ih =>
    obtain ⟨hb, hacc⟩ := List.forall_mem_cons.mp hacc
    rw [List.cons_append, plan, if_neg hb.2.ne', if_neg hb.1, ih hacc, List.append_assoc]
    rfl

/-- What is behind the last buffer that the loop does not receive into is dropped. -/
theorem reached_split (hb : ¬Buf.Full b) :
    reached false (acc ++ b :: l) = acc ++ b :: reached false l := by
  have hhead : decide (Buf.Full b) = false := decide_eq_false hb
  unfold reached List.rdropWhile
  rw [if_neg Bool.false_ne_true, if_neg Bool.false_ne_true, List.reverse_append, List.reverse_cons,
    List.append_assoc, List.dropWhile_append]
  split
  · rename_i hnil
    rw [List.isEmpty_iff.mp hnil, List.singleton_append, List.dropWhile_cons_of_neg (by simpa using hb),
      List.reverse_cons, List.reverse_reverse, List.reverse_nil]
  · simp

theorem plan_false (hacc : ∀ b ∈ acc, Buf.Full b) :
    plan false acc l = plan true [] (reached false (acc ++ l)) := by
  have hnil : flush [] = [] := if_pos rfl
  induction l generalizing acc with
  | nil =>
    have hall : reached false (acc ++ []) = [] := by
      unfold reached
      rw [List.append_nil, if_neg Bool.false_ne_true, List.rdropWhile_eq_nil_iff]
      exact fun b hb => decide_eq_true (hacc b hb)
    rw [hall, plan, plan, if_neg Bool.false_ne_true, if_pos rfl, hnil]
  | cons b l ih =>
    have hrest : plan false [] l = plan true [] (reached false l) :=
      ih fun _ hb => absurd hb List.not_mem_nil
    by_cases hzero : b.2 = 0
    · rw [reached_split fun hfull => hfull.2.ne' hzero, plan_append hacc, plan, plan, if_pos hzero,
        if_pos hzero, hrest]
      rfl
    · by_cases hnull : b.1 = none
      · rw [reached_split fun hfull => hfull.1 hnull, plan_append hacc, plan, plan, if_neg hzero,
          if_neg hzero, if_pos hnull, if_pos hnull, hrest]
        rfl
      · rw [plan, if_neg hzero, if_neg hnull, ih, ← List.append_cons]
        intro b' hb'
        rcases List.mem_append.mp hb' with hb' | hb'
        · exact hacc b' hb'
        · rw [List.mem_singleton.mp hb']
          exact ⟨hnull, Nat.pos_of_ne_zero hzero⟩

/-- The plan is that of the buffers that the loop comes to. -/
theorem plan_reached (ends : Bool) (l : List Buf) : plan ends [] l = plan true [] (reached ends l) := by
  cases ends with
  | true => rfl
  | false => exact plan_false fun _ hb => absurd hb List.not_mem_nil

theorem plan_room (h : ¬Crowded max l) :
    ∀ iov : List Buf, .recv iov ∈ plan true [] l → iov.length ≤ max := by
  intro iov hmem
  by_contra hlen
  exact h (plan_crowded.mp ⟨iov, hmem, not_le.mp hlen⟩)

/-! ## Calls that do not look at the elements -/

/-- The state with other elements. -/
def Rcv.withIol (s : Rcv n) (iol : IolMem n) : Rcv n := { s with iol := iol }

/-- The call does the same whatever the elements are, and leaves them as they are. -/
def IolFree {α : Type} (x : Recv n α) : Prop :=
  ∀ s iol, x (s.withIol iol) = (x s).map fun r => (r.1, r.2.withIol iol)

theorem IolFree.bind {α β : Type} {x : Recv n α} {f : α → Recv n β} (hx : IolFree x)
    (hf : ∀ a, IolFree (f a)) : IolFree (x >>= f) := by
  intro s iol
  cases h : x s with
  | error h' =>
    have hx' := hx s iol
    rw [h] at hx'
    rw [Call.bind_stop h, Call.bind_stop hx']
    rfl
  | ok p =>
    obtain ⟨o, s₁⟩ := p
    have hx' := hx s iol
    rw [h] at hx'
    cases o with
    | error e =>
      rw [Call.bind_fail h, Call.bind_fail hx']
      rfl
    | ok a =>
      rw [Call.bind_ret h, Call.bind_ret hx', hf a s₁ iol]

theorem iolFree_pure {α : Type} (a : α) : IolFree (pure a : Recv n α) := fun _ _ => rfl

theorem iolFree_sysRecv (niov room : ℕ) :
    IolFree (sysRecv niov room : Recv n (List UInt8)) := by
  intro s iol
  obtain ⟨i, mem, rx, alloc, pieces, iovMax⟩ := s
  unfold sysRecv Rcv.withIol
  dsimp only
  split
  · rfl
  · split
    · rfl
    · cases pieces with
      | nil => rfl
      | cons p ps =>
        cases p with
        | data bs =>
          dsimp only
          split <;> rfl
        | _ => rfl

theorem iolFree_fdin : IolFree (fdin : Recv n Unit) := by
  intro s iol
  obtain ⟨i, mem, rx, alloc, pieces, iovMax⟩ := s
  unfold fdin Rcv.withIol
  cases pieces with
  | nil => rfl
  | cons p ps => cases p <;> rfl

theorem iolFree_recvLoop (k : ℕ) (iov : List Buf) : IolFree (recvLoop k iov : Recv n Unit) := by
  induction k generalizing iov with
  | zero => exact fun _ _ => rfl
  | succ k ih =>
    unfold recvLoop
    refine (iolFree_sysRecv _ _).bind fun bs => IolFree.bind (fun _ _ => rfl) fun _ => ?_
    dsimp only
    split
    · exact iolFree_pure ()
    · exact iolFree_fdin.bind fun _ => ih _

theorem iolFree_recvIov (iov : List Buf) : IolFree (recvIov iov : Recv n Unit) := fun s iol =>
  iolFree_recvLoop (s.turns + 1) iov s iol

theorem IolFree.keeps {α : Type} {x : Recv n α} (hx : IolFree x) {r : Except Errno α}
    (h : x s = .ok (r, s')) : s'.iol = s.iol := by
  have hsame := hx s s.iol
  rw [h] at hsame
  have hs : s.withIol s.iol = s := rfl
  rw [hs, h] at hsame
  have heq := (Prod.mk.inj (Except.ok.inj hsame)).2
  rw [heq]
  rfl

/-- A part of the elements is changed for the time of the call. -/
theorem IolFree.restore {α : Type} {x : Recv n α} (hx : IolFree x) (s : Rcv n)
    (iol : IolMem n) {f : Rcv n → Rcv n} (hf : ∀ s' : Rcv n, f (s'.withIol iol) = s'.withIol s.iol) :
    finally' x f (s.withIol iol) = x s := by
  unfold finally'
  rw [hx s iol]
  cases h : x s with
  | error h' => rfl
  | ok p =>
    obtain ⟨r, s'⟩ := p
    have hkeep := hx.keeps h
    show Except.ok (r, f (s'.withIol iol)) = _
    rw [hf, ← hkeep]
    rfl

/-! ## The loop over the elements -/

variable {first start it last : IolPtr n} {els rest pre : List (IolPtr n)}

/-- The buffers of some elements. -/
def bufs (iol : IolMem n) (l : List (IolPtr n)) : List Buf := l.map fun x => IolElem.buf (iol x)

theorem ioltoiov_chain {iol : IolMem n} (hch : Chain iol.next first els 0) (h0 : 0 ∉ els)
    (hk : els.length ≤ k) : ioltoiov iol k first =
      some (els.map fun x => (some (iol x).iolBase, (iol x).iolLen)) := by
  induction els generalizing first k with
  | nil =>
    obtain rfl : first = 0 := hch
    unfold ioltoiov
    rw [if_pos rfl]
    rfl
  | cons x els ih =>
    obtain ⟨rfl, hch⟩ := hch
    obtain ⟨hfirst, h0⟩ := not_or.mp (fun h => h0 (List.mem_cons.mpr h))
    obtain ⟨k, rfl⟩ : ∃ k', k = k' + 1 := ⟨k - 1, by rw [List.length_cons] at hk; omega⟩
    unfold ioltoiov
    rw [if_neg (Ne.symm hfirst)]
    dsimp only
    rw [ih hch h0 (Nat.le_of_succ_le_succ hk)]
    rfl

theorem ioltoiov_eq {iol : IolMem n} (hch : Chain iol.next first els 0) (h0 : 0 ∉ els)
    (hk : els.length ≤ k) (hbase : ∀ x ∈ els, (iol x).iolBase ≠ 0) :
    ioltoiov iol k first = some (bufs iol els) := by
  rw [ioltoiov_chain hch h0 hk]
  unfold bufs IolElem.buf
  congr 1
  apply List.map_congr_left
  intro x hx
  rw [if_neg (hbase x hx)]

theorem check_eq (hm : ∀ x ∈ els, (s.iol x).iolRsvd = 0) (hv : Valid first last s.iol els) :
    check first last s = .ok (.ok (), s) := by
  unfold check
  rw [iolcheck_valid hm hv]

/-- `dill_fd_recv_` of a valid list of buffers. -/
theorem fdRecv_eq (hm : ∀ x ∈ els, (s.iol x).iolRsvd = 0) (hch : Chain s.iol.next first els 0)
    (h0 : 0 ∉ els) (hlast : els.getLast? = some last) (hlen : els.length ≤ n)
    (hbase : ∀ x ∈ els, (s.iol x).iolBase ≠ 0) :
    fdRecv_ first last s = recvIov (bufs s.iol els) s := by
  unfold fdRecv_
  rw [Call.bind_ret (check_eq hm (.inr ⟨hch, h0, hlast⟩)), Call.look_bind,
    ioltoiov_eq hch h0 (by omega) hbase]

/-- The last buffers before one that has to be treated on its own, or before the end. -/
theorem plan_flush (hacc : acc ≠ []) (h : ends = true ∨ l ≠ [])
    (hl : ∀ b l', l = b :: l' → b.1 = none ∨ b.2 = 0) :
    plan ends acc l = .recv acc :: plan ends [] l := by
  have hflush : flush acc = [.recv acc] := if_neg hacc
  have hnil : flush [] = [] := if_pos rfl
  cases l with
  | nil =>
    obtain rfl := h.resolve_right fun hne => hne rfl
    rw [plan, plan, if_pos rfl, if_pos rfl, hflush, hnil]
  | cons b l =>
    unfold plan
    split
    · rw [hflush, hnil]
      rfl
    · rename_i hpos
      rw [if_pos ((hl b l rfl).resolve_right hpos), if_pos ((hl b l rfl).resolve_right hpos), hflush,
        hnil]
      rfl

/-- How the loop ends behind the last element. -/
def landing (ends : Bool) : Recv n Unit := if ends then pure () else Call.stop .fault

/-- The list that the loop is on ends in `last`, or it does not have `last` in it. -/
def Lands (ends : Bool) (last : IolPtr n) (l : List (IolPtr n)) : Prop :=
  if ends then l.getLast? = some last else last ∉ l

theorem Lands.tail {x : IolPtr n} (h : Lands ends last (it :: x :: rest)) :
    Lands ends last (x :: rest) := by
  cases ends with
  | true => exact (List.getLast?_cons_cons (a := it)).symm.trans h
  | false => exact fun hm => h (List.mem_cons_of_mem _ hm)

/-- The element is `last` if it is the end of a list that ends in `last`, and not otherwise. -/
theorem Lands.eq_last (h : Lands ends last (it :: rest)) (hnd : (it :: rest).Nodup) :
    it = last ↔ ends = true ∧ rest = [] := by
  cases ends with
  | false =>
    refine iff_of_false ?_ (by simp)
    rintro rfl
    exact h List.mem_cons_self
  | true =>
    have h : (it :: rest).getLast? = some last := h
    cases rest with
    | nil =>
      rw [List.getLast?_singleton, Option.some.injEq] at h
      exact iff_of_true h ⟨rfl, rfl⟩
    | cons x rest =>
      refine iff_of_false ?_ (by simp)
      rintro rfl
      rw [List.getLast?_cons_cons] at h
      exact (List.nodup_cons.mp hnd).1 (List.mem_of_getLast? h)

theorem bind_congr_of {α β : Type} {x : Recv n α} {f g : α → Recv n β}
    (h : ∀ a s', x s = .ok (.ok a, s') → f a s' = g a s') : (x >>= f) s = (x >>= g) s := by
  cases hx : x s with
  | error h' => rw [Call.bind_stop hx, Call.bind_stop hx]
  | ok p =>
    obtain ⟨o, s'⟩ := p
    cases o with
    | error e => rw [Call.bind_fail hx, Call.bind_fail hx]
    | ok a => rw [Call.bind_ret hx, Call.bind_ret hx, h a s' hx]

theorem elem_bind {α : Type} (hit : it ≠ 0) (f : IolElem n → Recv n α) :
    (elem it >>= f) s = f (s.iol it) s := Call.bind_ret (if_neg hit)

theorem elem_null {α : Type} (f : IolElem n → Recv n α) : (elem 0 >>= f) s = .error .fault :=
  Call.bind_stop (if_pos rfl)

/-- The elements that have been collected are received into, cut off from the rest of the list for
the time of the call. -/
theorem split_recv {α : Type} {els : List (IolPtr n)}
    (hm : ∀ x ∈ els ++ [it], (s.iol x).iolRsvd = 0)
    (hch : Chain s.iol.next start els it) (h0 : 0 ∉ els ++ [it]) (hnd : (els ++ [it]).Nodup)
    (hbase : ∀ x ∈ els ++ [it], (s.iol x).iolBase ≠ 0) (hlen : (els ++ [it]).length ≤ n)
    (f : Unit → Recv n α) :
    (Call.change (fun s => s.setNext it 0) >>= fun _ =>
      finally' (fdRecv_ start it) (fun s' => s'.setNext it (s.iol it).iolNext) >>= f) s =
      (recvIov (bufs s.iol (els ++ [it])) >>= f) s := by
  set iol : IolMem n := Function.update s.iol it { s.iol it with iolNext := 0 } with hiol
  have hrest : ∀ x, (iol x).iolBase = (s.iol x).iolBase ∧ (iol x).iolLen = (s.iol x).iolLen ∧
      (iol x).iolRsvd = (s.iol x).iolRsvd := by
    intro x
    rw [hiol]
    by_cases hx : x = it
    · subst hx
      rw [Function.update_self]
      exact ⟨rfl, rfl, rfl⟩
    · rw [Function.update_of_ne hx]
      exact ⟨rfl, rfl, rfl⟩
  have hnext : ∀ x, x ≠ it → iol.next x = s.iol.next x := by
    intro x hx
    unfold IolMem.next
    rw [hiol, Function.update_of_ne hx]
  have hend : iol.next it = 0 := by
    unfold IolMem.next
    rw [hiol, Function.update_self]
  have hch' : Chain iol.next start (els ++ [it]) 0 := by
    refine chain_concat.mpr ⟨hch.congr fun x hx => hnext x ?_, hend⟩
    rintro rfl
    exact (List.nodup_append.mp hnd).2.2 x hx x (List.mem_singleton_self x) rfl
  have hbufs : bufs iol (els ++ [it]) = bufs s.iol (els ++ [it]) := by
    apply List.map_congr_left
    intro x _
    unfold IolElem.buf
    rw [(hrest x).1, (hrest x).2.1]
  have hrecv : fdRecv_ start it (s.withIol iol) =
      recvIov (bufs s.iol (els ++ [it])) (s.withIol iol) := by
    rw [← hbufs]
    exact fdRecv_eq (fun x hx => ((hrest x).2.2).trans (hm x hx)) hch' h0 (List.getLast?_concat) hlen
      fun x hx => by rw [show ((s.withIol iol).iol x).iolBase = _ from (hrest x).1]; exact hbase x hx
  have hfinal : finally' (fdRecv_ start it) (fun s' => s'.setNext it (s.iol it).iolNext)
      (s.withIol iol) = recvIov (bufs s.iol (els ++ [it])) s := by
    rw [← (iolFree_recvIov (bufs s.iol (els ++ [it]))).restore s iol
      (f := fun s' => s'.setNext it (s.iol it).iolNext)]
    · unfold finally'
      rw [hrecv]
    · intro s'
      have hback : Function.update iol it { iol it with iolNext := (s.iol it).iolNext } = s.iol := by
        rw [hiol, Function.update_self, Function.update_idem]
        exact Function.update_eq_self it s.iol
      unfold Rcv.setNext Rcv.withIol
      dsimp only
      rw [hback]
  rw [Call.change_bind]
  show (finally' (fdRecv_ start it) (fun s' => s'.setNext it (s.iol it).iolNext) >>= f)
    (s.withIol iol) = _
  change Call.andThen _ f _ = Call.andThen _ f _
  unfold Call.andThen
  rw [hfinal]

theorem bufs_cons (iol : IolMem n) (x : IolPtr n) (l : List (IolPtr n)) :
    bufs iol (x :: l) = IolElem.buf (iol x) :: bufs iol l := rfl

theorem bufs_append (iol : IolMem n) (l l' : List (IolPtr n)) :
    bufs iol (l ++ l') = bufs iol l ++ bufs iol l' := List.map_append

theorem buf_null {e : IolElem n} : (IolElem.buf e).1 = none ↔ e.iolBase = 0 := by
  unfold IolElem.buf
  by_cases h : e.iolBase = 0
  · rw [if_pos h]
    exact iff_of_true rfl h
  · rw [if_neg h]
    exact iff_of_false (fun hno => by cases hno) h

/-- Where the loop goes on after an element, and the elements it has treated are forgotten. -/
def goOn (last : IolPtr n) (k : ℕ) (it : IolPtr n) : Recv n Unit :=
  if it = last then pure ()
  else do
    let e ← elem it
    direct last k e.iolNext e.iolNext

theorem ignore_keeps {x : Recv n Unit} (hx : IolFree x) {r : Except Errno Unit}
    (h : ignore x s = .ok (r, s')) : s'.iol = s.iol := by
  unfold ignore at h
  cases hrun : x s with
  | error h' =>
    rw [hrun] at h
    cases h
  | ok p =>
    rw [hrun] at h
    cases h
    exact hx.keeps hrun

theorem iolFree_skipLoop (k : ℕ) (len : ℤ) : IolFree (skipLoop k len : Recv n Unit) := by
  induction k generalizing len with
  | zero => exact fun _ _ => rfl
  | succ k ih =>
    unfold skipLoop
    split
    · exact iolFree_pure ()
    · exact (iolFree_recvIov _).bind fun _ => ih _

theorem iolFree_fdSkip (len : ℤ) : IolFree (fdSkip len : Recv n Unit) := fun s iol =>
  iolFree_skipLoop _ len s iol

/-- A turn of the loop. -/
theorem direct_turn (hit : it ≠ 0) : direct last (k + 1) start it s =
    (if (s.iol it).iolLen = 0 then assert (it = start) >>= fun _ => goOn last k it
    else if (s.iol it).iolBase = 0 then
      assert (it = start) >>= fun _ => ignore (fdSkip (toSsize (s.iol it).iolLen)) >>= fun _ =>
        goOn last k it
    else
      splits last it (s.iol it) >>= fun split =>
      if split then
        Call.change (fun s => s.setNext it 0) >>= fun _ =>
          finally' (fdRecv_ start it) (fun s' => s'.setNext it (s.iol it).iolNext) >>= fun _ =>
            goOn last k it
      else direct last k start (s.iol it).iolNext) s := by
  conv_lhs => unfold direct
  rw [elem_bind hit]
  rfl

/-- What the loop does behind an element, from what it does with the list from the next one on. -/
theorem goOn_plan {iol : IolMem n} (hit0 : it ≠ 0) (hnd : (it :: rest).Nodup)
    (hlands : Lands ends last (it :: rest)) (hrest : Chain iol.next (iol.next it) rest 0) (hk : 0 < k)
    (hloop : ∀ y l, rest = y :: l → ∀ s : Rcv n, s.iol = iol →
      direct last k y y s = (perform (plan ends [] (bufs iol rest)) >>= fun _ => landing ends) s)
    (hiol : s.iol = iol) :
    goOn last k it s = (perform (plan ends [] (bufs iol rest)) >>= fun _ => landing ends) s := by
  have hlast := hlands.eq_last hnd
  unfold goOn
  by_cases hend : it = last
  · obtain ⟨rfl, rfl⟩ := hlast.mp hend
    rw [if_pos hend]
    rfl
  · rw [if_neg hend, elem_bind hit0, hiol]
    change direct last k (iol.next it) (iol.next it) s = _
    cases rest with
    | nil =>
      obtain rfl : ends = false := Bool.eq_false_iff.mpr fun h => hend (hlast.mpr ⟨h, rfl⟩)
      have hnull : iol.next it = 0 := hrest
      obtain ⟨k, rfl⟩ : ∃ k', k = k' + 1 := ⟨k - 1, by omega⟩
      rw [hnull]
      unfold direct
      rw [elem_null]
      rfl
    | cons y rest =>
      obtain ⟨hy, -⟩ := hrest
      rw [hy]
      exact hloop y rest rfl s hiol

/-- The elements that have been collected are received into when the list is to be split behind
`it`. -/
theorem received_plan {iol : IolMem n} (hiol : s.iol = iol)
    (hm : ∀ x ∈ els ++ [it], (iol x).iolRsvd = 0) (hacc : Chain iol.next start els it)
    (hnd : (els ++ [it]).Nodup) (h0 : 0 ∉ els ++ [it])
    (hbase : ∀ x ∈ els ++ [it], (iol x).iolBase ≠ 0)
    (hgo : ∀ s : Rcv n, s.iol = iol → goOn last k it s =
      (perform (plan ends [] (bufs iol rest)) >>= fun _ => landing ends) s)
    (hends : ends = true ∨ bufs iol rest ≠ [])
    (hstop : ∀ b l, bufs iol rest = b :: l → b.1 = none ∨ b.2 = 0) :
    (Call.change (fun s => s.setNext it 0) >>= fun _ =>
      finally' (fdRecv_ start it) (fun s => s.setNext it (iol it).iolNext) >>= fun _ =>
        goOn last k it) s =
      (perform (plan ends (bufs iol (els ++ [it])) (bufs iol rest)) >>= fun _ => landing ends) s := by
  subst hiol
  rw [split_recv hm hacc h0 hnd hbase (length_le_of_nodup hnd h0) fun _ => goOn last k it,
    plan_flush (by simp [bufs]) hends hstop]
  show _ = ((recvIov (bufs s.iol (els ++ [it])) >>= fun _ =>
    perform (plan ends [] (bufs s.iol rest))) >>= fun _ => landing ends) s
  rw [Call.bind_assoc]
  exact bind_congr_of fun a s' hs' => hgo s' ((iolFree_recvIov _).keeps hs')

/-- An element with a buffer is collected. -/
theorem plan_collect {iol : IolMem n} (hbase : (iol it).iolBase ≠ 0) (hlen : (iol it).iolLen ≠ 0) :
    plan ends (bufs iol els) (bufs iol (it :: rest)) =
      plan ends (bufs iol (els ++ [it])) (bufs iol rest) := by
  rw [bufs_cons, plan, if_neg (show ¬(IolElem.buf (iol it)).2 = 0 from hlen),
    if_neg (fun h => hbase (buf_null.mp h)), bufs_append]
  rfl

/-- **The loop performs the plan of its list.** -/
theorem direct_eq {iol : IolMem n} (hiol : s.iol = iol)
    (hm : ∀ x ∈ els ++ it :: rest, (iol x).iolRsvd = 0)
    (hacc : Chain iol.next start els it) (hit : Chain iol.next it (it :: rest) 0)
    (h0 : 0 ∉ els ++ it :: rest) (hlands : Lands ends last (it :: rest))
    (hels : ∀ x ∈ els, (iol x).iolBase ≠ 0 ∧ (iol x).iolLen ≠ 0)
    (hone : els ≠ [] → (iol it).iolBase ≠ 0 ∧ (iol it).iolLen ≠ 0) (hk : rest.length + 1 < k) :
    direct last k start it s =
      (perform (plan ends (bufs iol els) (bufs iol (it :: rest))) >>= fun _ => landing ends) s := by
  induction k generalizing s start els it rest with
  | zero => omega
  | succ k ih =>
    have hall : Chain iol.next start (els ++ it :: rest) 0 := chain_append.mpr ⟨it, hacc, hit⟩
    have hnd : (els ++ it :: rest).Nodup := hall.nodup h0
    have hnd' : (it :: rest).Nodup := (List.nodup_append.mp hnd).2.1
    have hit0 : it ≠ 0 := fun h => h0 (List.mem_append_right _ (h ▸ List.mem_cons_self))
    have hlast := hlands.eq_last hnd'
    have hrest : Chain iol.next (iol.next it) rest 0 := hit.2
    -- what comes behind the element
    have hgo : ∀ s' : Rcv n, s'.iol = iol → goOn last k it s' =
        (perform (plan ends [] (bufs iol rest)) >>= fun _ => landing ends) s' := by
      intro s' hs'
      refine goOn_plan hit0 hnd' hlands hrest (by omega) ?_ hs'
      rintro y l rfl s hs
      exact @ih s y y [] l hs
        (fun x hx => hm x (List.mem_append_right _ (List.mem_cons_of_mem _ hx))) rfl
        ⟨rfl, hrest.2⟩ (fun h => h0 (List.mem_append_right _ (List.mem_cons_of_mem _ h)))
        hlands.tail (fun x hx => absurd hx List.not_mem_nil) (fun hne => absurd rfl hne)
        (by rw [List.length_cons] at hk; omega)
    have hfirst : ¬((iol it).iolBase ≠ 0 ∧ (iol it).iolLen ≠ 0) → els = [] := fun hn =>
      by_contra fun hne => hn (hone hne)
    have hsafe : els = [] → ∀ {α : Type} (f : Unit → Recv n α),
        (assert (it = start) >>= f) s = f () s := by
      rintro rfl α f
      obtain rfl : start = it := hacc
      unfold assert
      rw [if_pos (decide_eq_true rfl)]
      rfl
    rw [direct_turn hit0, hiol]
    by_cases hzero : (iol it).iolLen = 0
    · obtain rfl := hfirst fun h => h.2 hzero
      rw [if_pos hzero, hsafe rfl, hgo s hiol, bufs_cons]
      show _ = (perform (plan ends [] _) >>= _) s
      rw [plan, if_pos (show (IolElem.buf (iol it)).2 = 0 from hzero)]
      rfl
    · by_cases hnull : (iol it).iolBase = 0
      · obtain rfl := hfirst fun h => h.1 hnull
        rw [if_neg hzero, if_pos hnull, hsafe rfl, bufs_cons]
        show _ = (perform (plan ends [] _) >>= _) s
        rw [plan, if_neg (show ¬(IolElem.buf (iol it)).2 = 0 from hzero), if_pos (buf_null.mpr hnull)]
        show _ = ((ignore (fdSkip (toSsize (iol it).iolLen)) >>= fun _ =>
          perform (plan ends [] (bufs iol rest))) >>= fun _ => landing ends) s
        rw [Call.bind_assoc]
        refine bind_congr_of fun a s' hs' => ?_
        exact hgo s' ((ignore_keeps (iolFree_fdSkip _) hs').trans hiol)
      · rw [if_neg hzero, if_neg hnull, plan_collect hnull hzero]
        have hels' : ∀ x ∈ els ++ [it], (iol x).iolBase ≠ 0 ∧ (iol x).iolLen ≠ 0 := by
          intro x hx
          rcases List.mem_append.mp hx with hx | hx
          · exact hels x hx
          · rw [List.mem_singleton.mp hx]
            exact ⟨hnull, hzero⟩
        have hsnoc : els ++ it :: rest = (els ++ [it]) ++ rest := by rw [List.append_assoc]; rfl
        have hrecv := received_plan hiol
          (fun x hx => hm x (hsnoc ▸ List.mem_append_left _ hx)) hacc
          (List.nodup_append.mp (hsnoc ▸ hnd)).1 (fun h => h0 (hsnoc ▸ List.mem_append_left _ h))
          (fun x hx => (hels' x hx).1) hgo
        by_cases hend : it = last
        · obtain ⟨rfl, rfl⟩ := hlast.mp hend
          have hsplit : splits last it (iol it) s = .ok (.ok true, s) := by
            unfold splits
            rw [if_pos hend]
            rfl
          rw [Call.bind_ret hsplit, if_pos rfl]
          exact hrecv (.inl rfl) fun b l' hb => by cases hb
        · have hsplit : splits last it (iol it) = elem (iol it).iolNext >>= fun e' =>
              pure (decide (e'.iolBase = 0 ∨ e'.iolLen = 0)) := by
            unfold splits
            rw [if_neg hend]
          rw [hsplit]
          cases rest with
          | nil =>
            obtain rfl : ends = false := Bool.eq_false_iff.mpr fun h => hend (hlast.mpr ⟨h, rfl⟩)
            have hnil : (iol it).iolNext = 0 := hrest
            rw [hnil, Call.bind_assoc, elem_null]
            rfl
          | cons y rest =>
            obtain ⟨hy, hrest⟩ := hrest
            have hy' : (iol it).iolNext = y := hy
            have hy0 : y ≠ 0 := fun h => h0 (by rw [h]; simp)
            rw [hy', Call.bind_assoc, elem_bind hy0, hiol, Call.bind_ret (Call.pure_run)]
            by_cases hstop : (iol y).iolBase = 0 ∨ (iol y).iolLen = 0
            · rw [decide_eq_true hstop, if_pos rfl]
              have hseg := hrecv (.inr (List.cons_ne_nil _ _)) fun b l' hb => by
                obtain ⟨rfl, -⟩ := List.cons.inj hb
                exact hstop.imp buf_null.mpr id
              rw [hy'] at hseg
              exact hseg
            · rw [decide_eq_false hstop, if_neg Bool.false_ne_true]
              obtain ⟨hb, hl⟩ := not_or.mp hstop
              refine ih hiol ?_ (chain_concat.mpr ⟨hacc, hy⟩) ⟨rfl, hrest⟩ ?_ hlands.tail hels'
                (fun _ => ⟨hb, hl⟩) (by rw [List.length_cons] at hk; omega)
              · rw [← hsnoc]
                exact hm
              · rw [← hsnoc]
                exact h0

end Libdill.Fd.Scatter
