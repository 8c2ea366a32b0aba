import Libdill.Borrow.Calls
import Libdill.Fd.ScatterFrame
import Libdill.Sock.Marks

/-!
# What the layers leave of an iolist

The functions that work on an iolist for the ones above them, one after the other. Each one hands
the list on with an element of its own in front of it or behind it, or cut off where a message ends;
what it has changed it puts back when the call below returns, with success or without.

* `receive_leaves`, `suffixMsendl_leaves`: the list that is cut off, and the one that is made longer.
* `wsMsendl_leaves`, `wsMrecvl_leaves`: the list that is marked while it is checked.
-/

namespace Libdill.Borrow

open Foundations Libdill.Sock Fd Fd.Scatter
open Foundations.Call (Spares)

variable {n : ℕ} {α β : Type} {v : Vars n} {own own' : List (IolPtr n)} {s s' : Stack n}
  {first last it : IolPtr n} {els : List (IolPtr n)} {k : ℕ}

/-- The call leaves all elements as they are but those at the addresses `own`. -/
abbrev Leaves (own : List (IolPtr n)) (x : On n α) (s : Stack n) : Prop :=
  Spares (fun s : Stack n => s.iol) own x s

/-- A list of elements of the functions themselves, or one that ends where it should. -/
def Fit (own : List (IolPtr n)) (last : IolPtr n) (els : List (IolPtr n)) : Prop :=
  els.getLast? = some last ∨ els ⊆ own

/-! ## Lists -/

theorem own_subset (v : Locals n) (ts : List (TermLocals n)) : v.own [] ⊆ v.own ts := by
  induction ts with
  | nil => exact List.Subset.refl _
  | cons t ts ih =>
    exact fun x hx => List.mem_cons_of_mem _ (List.mem_cons_of_mem _ (ih hx))

theorem own_nodup (v : Locals n) (ts : List (TermLocals n)) (h : (0 :: v.own ts).Nodup) :
    (0 :: v.own []).Nodup := by
  induction ts with
  | nil => exact h
  | cons t ts ih =>
    obtain ⟨h0, hnd⟩ := List.nodup_cons.mp h
    have hrest := (List.nodup_cons.mp (List.nodup_cons.mp hnd).2).2
    refine ih (List.nodup_cons.mpr ⟨fun hmem => h0 ?_, hrest⟩)
    exact List.mem_cons_of_mem _ (List.mem_cons_of_mem _ hmem)

theorem Vars.nodup (v : Vars n) : 0 ∉ v.own [] ∧ (v.own []).Nodup :=
  List.nodup_cons.mp (own_nodup v.toLocals v.terms v.apart)

theorem Vars.ne_zero (hit : it ∈ v.own []) : it ≠ 0 := fun h => v.nodup.1 (h ▸ hit)

/-- An element with nothing behind it. -/
theorem lent_single {iol : IolMem n} {b l : ℕ} (hit : it ≠ 0) (hown : it ∉ own)
    (hself : iol it = ⟨b, l, 0, 0⟩) : Lent own iol it [it] where
  chain := ⟨rfl, by rw [IolMem.next, hself]; rfl⟩
  null h0 := hit (List.mem_singleton.mp h0).symm
  reserved x hx := by rw [List.mem_singleton.mp hx, hself]
  apart x hx := by rwa [List.mem_singleton.mp hx]

/-! ## Memory -/

theorem rcv_ends {x : Recv n α} {Q : Except Errno α → Rcv n → Prop}
    (h : Call.Ends x s.toRcv Q) : Call.Ends (rcv x) s fun o s' => Q o s'.toRcv := by
  intro o s' hr
  unfold rcv at hr
  cases hx : x s.toRcv with
  | error r =>
    rw [hx] at hr
    cases hr
  | ok p =>
    rw [hx] at hr
    cases hr
    exact h p.1 p.2 hx

theorem rcv_leaves {x : Recv n α} (h : Spares Rcv.iol own x s.toRcv) : Leaves own (rcv x) s :=
  rcv_ends h

theorem bytesAt_leaves (base len : ℕ) (s : Stack n) : Leaves own (bytesAt base len) s :=
  Spares.look _

theorem storeAt_leaves (base : ℕ) (bs : List UInt8) (s : Stack n) :
    Leaves own (storeAt base bs) s := Spares.change_other rfl

theorem assign_leaves (hit : it ∈ own) (e : IolElem n) (s : Stack n) :
    Leaves own (assign it e) s := rcv_leaves (setElem_spares hit e s.toRcv)

/-- A null pointer is not followed. -/
theorem element_leaves {f : IolElem n → On n α} (h : it ≠ 0 → Leaves own (f (s.iol it)) s) :
    Leaves own (element it >>= f) s := by
  by_cases hit : it = 0
  · subst hit
    intro o s' hr
    have hnull : element (0 : IolPtr n) s = .error .fault := rfl
    rw [Call.bind_stop hnull] at hr
    cases hr
  · intro o s' hr
    have helem : element it s = .ok (.ok (s.iol it), s) := by
      unfold element rcv elem
      rw [if_neg hit]
    rw [Call.bind_ret helem] at hr
    exact h hit o s' hr

/-- The element that has just been assigned. -/
theorem assign_self {e : IolElem n} {u : Unit} (h : assign it e s = .ok (.ok u, s')) :
    s'.iol = Function.update s.iol it e := by
  cases h
  rfl

/-- A call with something behind it that puts right what is not as it was. -/
theorem settle_ends {x : On n α} {done : Stack n → Stack n} {failed : Errno → Stack n → Stack n}
    {P Q : Except Errno α → Stack n → Prop} (h : Call.Ends x s P)
    (hdone : ∀ o s', P o s' → Q o (done s'))
    (hfailed : ∀ e s', Q (.error e) s' → Q (.error e) (failed e s')) :
    Call.Ends (settle x done failed) s Q := by
  intro o s' hr
  unfold settle at hr
  cases hx : x s with
  | error r =>
    rw [hx] at hr
    cases hr
  | ok p =>
    obtain ⟨o', s₁⟩ := p
    have hq := hdone o' s₁ (h o' s₁ hx)
    rw [hx] at hr
    cases o' with
    | error e =>
      cases hr
      exact hfailed e _ hq
    | ok a =>
      cases hr
      exact hq

theorem settle_leaves {x : On n α} {done : Stack n → Stack n} {failed : Errno → Stack n → Stack n}
    (h : Leaves own x s) (hdone : ∀ s, (done s).iol = s.iol)
    (hfailed : ∀ e s, (failed e s).iol = s.iol) : Leaves own (settle x done failed) s := by
  refine settle_ends h ?_ ?_
  · exact fun o s' hi x hx => (congrFun (hdone s') x).trans (hi x hx)
  · exact fun e s' hi x hx => (congrFun (hfailed e s') x).trans (hi x hx)

/-! ## Connections -/

theorem fdSend_leaves (hv : Valid first last s.iol els) (hr : ∀ x ∈ els, (s.iol x).iolRsvd = 0) :
    Leaves [] (fdSend first last) s := by
  have hcheck := iolcheck_valid hr hv
  intro o s' hrun
  unfold fdSend at hrun
  rw [hcheck] at hrun
  dsimp only [Option.map, Option.getD] at hrun
  split at hrun
  · cases hrun
    exact .refl [] _
  · cases hrun
    exact .refl [] _
  · cases hrun
  · cases hrun

theorem connBsendl_leaves (hv : Valid first last s.iol els)
    (hr : ∀ x ∈ els, (s.iol x).iolRsvd = 0) : Leaves [] (connBsendl first last) s := by
  unfold connBsendl
  refine Spares.look_bind ?_
  refine Spares.require_bind fun _ => Spares.require_bind fun _ => Spares.require_bind fun _ => ?_
  refine Spares.change_bind rfl ?_
  exact settle_leaves (fdSend_leaves hv hr) (fun _ => rfl) fun _ _ => rfl

theorem connBrecvl_leaves (h : Lent [v.curr] s.iol first els) (last : IolPtr n) :
    Leaves [v.curr] (connBrecvl v first last) s := by
  unfold connBrecvl
  refine Spares.look_bind ?_
  refine Spares.require_bind fun _ => Spares.require_bind fun _ => Spares.require_bind fun _ => ?_
  refine Spares.change_bind rfl ?_
  refine settle_leaves (rcv_leaves (fdRecv_spares h (Vars.ne_zero List.mem_cons_self) last))
    (fun _ => rfl) fun e s => ?_
  split <;> rfl

theorem bsendl_leaves (hv : Valid first last s.iol els)
    (hr : ∀ x ∈ els, (s.iol x).iolRsvd = 0) : Leaves [] (bsendl first last) s :=
  Spares.require_bind fun _ => element_leaves fun _ => Spares.require_bind fun _ =>
    connBsendl_leaves hv hr

theorem brecvl_leaves (h : Lent [v.curr] s.iol first els) (last : IolPtr n) :
    Leaves [v.curr] (brecvl v first last) s :=
  Spares.require_bind fun _ => element_leaves fun _ => Spares.require_bind fun _ =>
    connBrecvl_leaves h last

/-- `dill_bsend` has nothing but its own element. -/
theorem bsend_leaves (v : Vars n) (buf len : ℕ) (s : Stack n) :
    Leaves [v.iol] (bsend v buf len) s := by
  have hiol : v.iol ≠ 0 := v.ne_zero (by simp [Locals.own])
  refine (assign_leaves (List.mem_singleton_self _) _ s).bind fun _ s' hset _ => ?_
  have hself : s'.iol v.iol = ⟨buf, len, 0, 0⟩ := by
    rw [assign_self hset, Function.update_self]
  have hl : Lent [] s'.iol v.iol [v.iol] := lent_single hiol List.not_mem_nil hself
  exact (connBsendl_leaves (.inr ⟨hl.chain, hl.null, rfl⟩) hl.reserved).mono (List.nil_subset _)

/-- And so has `dill_brecv`, but for the one of `dill_fd_recv`. -/
theorem brecv_leaves (v : Vars n) (buf len : ℕ) (s : Stack n) :
    Leaves [v.curr, v.iol] (brecv v buf len) s := by
  have hiol : v.iol ≠ 0 := v.ne_zero (by simp [Locals.own])
  have hne : v.iol ∉ [v.curr] := by
    have hnd := v.nodup.2
    simp only [Locals.own, List.nodup_cons, List.mem_cons, not_or] at hnd
    exact fun h => hnd.1.1 (List.mem_singleton.mp h).symm
  refine (assign_leaves (by simp) _ s).bind fun _ s' hset _ => ?_
  have hself : s'.iol v.iol = ⟨buf, len, 0, 0⟩ := by
    rw [assign_self hset, Function.update_self]
  exact (connBrecvl_leaves (lent_single hiol hne hself) _).mono (by simp)

/-! ## PREFIX -/

/-- A valid list with an element of the function's own in front of it. -/
theorem valid_cons (hch : Chain s.iol.next first els 0) (h0 : 0 ∉ els) (hit : it ≠ 0)
    (hnext : (s.iol it).iolNext = first) (hlast : els.getLast? = some last) :
    Valid it last s.iol (it :: els) := by
  refine .inr ⟨⟨rfl, ?_⟩, ?_, ?_⟩
  · rw [IolMem.next, hnext]
    exact hch
  · exact fun h => (List.mem_cons.mp h).elim (fun h => hit h.symm) h0
  · rw [List.getLast?_cons, hlast]
    rfl

theorem prefixMsendl_leaves (h : Lent [v.hdr] s.iol first els) (hlast : els.getLast? = some last) :
    Leaves [v.hdr] (prefixMsendl v first last) s := by
  have hhdr : v.hdr ≠ 0 := v.ne_zero (by simp [Locals.own])
  refine Spares.look_bind (Spares.require_bind fun _ => Spares.look_bind ?_)
  cases missing s.iol (n + 1) first 0 with
  | none => exact Spares.stop _
  | some sz =>
    refine (storeAt_leaves _ _ s).bind fun _ s' _ hi => ?_
    have h' := h.congr hi
    refine (assign_leaves (List.mem_singleton_self _) _ s').bind fun _ s'' hset hi' => ?_
    have hself := assign_self hset
    have h'' := h'.congr hi'
    have hv : Valid v.hdr last s''.iol (v.hdr :: els) :=
      valid_cons h''.chain h''.null hhdr (by rw [hself, Function.update_self]) hlast
    have hr : ∀ x ∈ v.hdr :: els, (s''.iol x).iolRsvd = 0 :=
      List.forall_mem_cons.mpr ⟨by rw [hself, Function.update_self], h''.reserved⟩
    exact settle_leaves ((bsendl_leaves hv hr).mono (List.nil_subset _)) (fun _ => rfl)
      fun _ _ => rfl

theorem prefixIn_leaves {x : On n α} (h : Leaves own x s) : Leaves own (prefixIn x) s :=
  settle_leaves h (fun _ => rfl) fun _ _ => rfl

/-- The element the message ends in is one of the list. -/
theorem trim_ends {s : Rcv n} {sz : ℕ} (h : Lent own s.iol first els) :
    Call.Ends (Prefix.Memory.trim k first sz) s fun o s' => s' = s ∧
      ∀ it rmn, o = .ok (it, rmn) → it ≠ 0 ∧
        ∃ pre post, els = pre ++ it :: post ∧ Chain s.iol.next first pre it := by
  induction k generalizing first els sz with
  | zero => exact Call.Ends.stop
  | succ k ih =>
    unfold Prefix.Memory.trim
    refine elem_ends fun hfirst => ?_
    obtain ⟨els, rfl, -, htail⟩ := h.head hfirst
    split
    · refine Call.Ends.ret ⟨rfl, fun it rmn ho => ?_⟩
      cases ho
      exact ⟨hfirst, [], els, rfl, rfl⟩
    · split
      · refine Call.Ends.fail ⟨rfl, fun it rmn ho => ?_⟩
        cases ho
      · refine (ih htail).mono fun o s' h' => ⟨h'.1, fun it rmn ho => ?_⟩
        obtain ⟨hit, pre, post, rfl, hpre⟩ := h'.2 it rmn ho
        exact ⟨hit, first :: pre, post, rfl, rfl, hpre⟩

/-- The receive into the list that is cut off behind `it`. -/
theorem receive_leaves {pre post : List (IolPtr n)} (last : IolPtr n) (rmn : ℕ)
    (h : Lent [v.curr] s.iol first (pre ++ it :: post)) (hpre : Chain s.iol.next first pre it) :
    Leaves [v.curr] (Call.change (cutAt it rmn 0) >>= fun _ =>
      prefixIn (settle (brecvl v first last) (cutAt it (s.iol it).iolLen (s.iol it).iolNext)
        fun _ s => s)) s := by
  have hmem : it ∈ pre ++ it :: post := List.mem_append_right _ List.mem_cons_self
  let e : IolElem n := ⟨(s.iol it).iolBase, rmn, 0, (s.iol it).iolRsvd⟩
  have hcut : Lent [v.curr] (cutAt it rmn 0 s).iol first (pre ++ [it]) :=
    h.cut hpre rfl (h.reserved it hmem)
  refine Call.Ends.change_bind ?_
  refine settle_ends (P := fun _ s' => Intact [v.curr] s.iol s'.iol) ?_ (fun _ s' hi => hi)
    fun _ s' hi => hi
  refine settle_ends (brecvl_leaves hcut last) (fun _ s' hi => ?_) fun _ s' hi => hi
  have hi' : Intact [v.curr] (Function.update s.iol it e) s'.iol := hi
  have hsame : s'.iol it = e := (hi' it (h.apart it hmem)).trans (Function.update_self _ _ _)
  show Intact [v.curr] s.iol (Function.update s'.iol it _)
  rw [hsame]
  exact hi'.restore

theorem cutOff_ends (h : Lent own s.iol first els) (sz : ℕ) :
    Call.Ends (prefixIn (rcv (Prefix.Memory.trim (n + 1) first sz))) s fun o s' =>
      s'.iol = s.iol ∧ ∀ it rmn, o = .ok (it, rmn) → it ≠ 0 ∧
        ∃ pre post, els = pre ++ it :: post ∧ Chain s.iol.next first pre it :=
  settle_ends ((rcv_ends (trim_ends h)).mono fun _ _ h' => ⟨congrArg Rcv.iol h'.1, h'.2⟩)
    (fun _ _ h' => h') fun _ _ h' => h'

theorem prefixMrecvl_leaves (h : Lent [v.curr, v.iol] s.iol first els) (last : IolPtr n) :
    Leaves [v.curr, v.iol] (prefixMrecvl v first last) s := by
  refine Spares.look_bind (Spares.require_bind fun _ => ?_)
  refine (prefixIn_leaves (brecv_leaves v _ _ s)).bind fun _ s₁ _ hi => ?_
  have h₁ := h.congr hi
  refine (bytesAt_leaves _ _ s₁).bind fun szbuf s₂ hbytes _ => ?_
  cases hbytes
  refine Spares.cond (fun _ => ?_) fun _ => ?_
  · exact (prefixIn_leaves (brecv_leaves v _ _ s₁)).andThen fun _ s' => Spares.ret _
  · refine Spares.bind_ends (cutOff_ends h₁ _) (fun _ _ hend x _ => congrFun hend.1 x) ?_
    intro r s₂ hend
    obtain ⟨hsame, hr⟩ := hend
    obtain ⟨hit, pre, post, rfl, hpre⟩ := hr r.1 r.2 rfl
    rw [← hsame] at h₁ hpre
    have hcurr : [v.curr] ⊆ [v.curr, v.iol] := by simp
    refine element_leaves fun _ => ?_
    have hreceive := (receive_leaves last r.2 (h₁.mono hcurr) hpre).mono hcurr
    exact Spares.congr Call.bind_assoc.symm (hreceive.andThen fun _ s' => Spares.ret _)

/-! ## SUFFIX -/

/-- A list with an element of the function's own linked behind it. -/
theorem lent_link {iol : IolMem n} {pre : List (IolPtr n)} (h : Lent [it] iol first (pre ++ [last]))
    (hit : it ≠ 0) (hnext : (iol it).iolNext = 0) (hr : (iol it).iolRsvd = 0) :
    Lent [] (Function.update iol last { iol last with iolNext := it }) first
      (pre ++ [last] ++ [it]) := by
  have hlast : last ∈ pre ++ [last] := List.mem_append_right _ (List.mem_singleton_self _)
  have hne : it ≠ last := fun heq => h.apart last hlast (List.mem_singleton.mpr heq.symm)
  have hchain := h.chain.snoc h.nodup fun hmem => h.apart it hmem (List.mem_singleton_self it)
  refine ⟨hchain.congr fun x hx => ?_, ?_, fun x hx => ?_, fun _ _ => List.not_mem_nil⟩
  · by_cases hx' : x = last
    · rw [hx', next_update, Function.update_self]
    · unfold IolMem.next
      rw [Function.update_of_ne hx', Function.update_of_ne hx']
      by_cases hxi : x = it
      · rw [hxi, Function.update_self, hnext]
      · rw [Function.update_of_ne hxi]
  · intro h0
    rcases List.mem_append.mp h0 with h0 | h0
    · exact h.null h0
    · exact hit (List.mem_singleton.mp h0).symm
  · by_cases hx' : x = last
    · rw [hx', Function.update_self]
      exact h.reserved last hlast
    · rw [Function.update_of_ne hx']
      rcases List.mem_append.mp hx with hx | hx
      · exact h.reserved x hx
      · rwa [List.mem_singleton.mp hx]

theorem suffixMsendl_leaves (h : Lent [v.chr] s.iol first els) (hlast : els.getLast? = some last) :
    Leaves [v.chr] (suffixMsendl v first last) s := by
  have hchr : v.chr ≠ 0 := v.ne_zero (by simp [Locals.own])
  obtain ⟨pre, rfl⟩ := List.getLast?_eq_some_iff.mp hlast
  have hmem : last ∈ pre ++ [last] := List.mem_append_right _ (List.mem_singleton_self _)
  refine Spares.look_bind (Spares.require_bind fun _ => ?_)
  refine (assign_leaves (List.mem_singleton_self _) _ s).bind fun _ s₁ hset hi => ?_
  have hself : s₁.iol v.chr = ⟨v.suffix, s.suffixSock.suffix.bytes.length, 0, 0⟩ := by
    rw [assign_self hset, Function.update_self]
  have h₁ := h.congr hi
  have hend : (s₁.iol last).iolNext = 0 := (chain_concat.mp h₁.chain).2
  have hlink := lent_link h₁ hchr (by rw [hself]) (by rw [hself])
  refine element_leaves fun _ => Call.Ends.change_bind ?_
  -- the list is as it was when the last element is the last one again
  refine settle_ends (connBsendl_leaves (.inr ⟨hlink.chain, hlink.null, List.getLast?_concat⟩)
    hlink.reserved) (fun _ s' hi' => ?_) fun _ _ hi' => hi'
  let e : IolElem n := ⟨(s₁.iol last).iolBase, (s₁.iol last).iolLen, v.chr, (s₁.iol last).iolRsvd⟩
  have hi'' : Intact [] (Function.update s₁.iol last e) s'.iol := hi'
  have hsame : s'.iol last = e :=
    (hi'' last List.not_mem_nil).trans (Function.update_self _ _ _)
  show Intact [v.chr] s₁.iol (Function.update s'.iol last { s'.iol last with iolNext := 0 })
  rw [hsame, ← hend]
  exact (hi''.restore).mono (List.nil_subset _)

theorem suffixIn_leaves {x : On n α} (h : Leaves own x s) : Leaves own (suffixIn x) s :=
  settle_leaves h (fun _ => rfl) fun _ _ => rfl

theorem ignoreEmpty_leaves (first : IolPtr n) (k : ℕ) (it : IolElem n) (s : Stack n) :
    Leaves own (ignoreEmpty first k it) s := by
  induction k generalizing it s with
  | zero => exact Spares.stop _
  | succ k ih =>
    refine element_leaves fun _ => Spares.cond (fun _ => Spares.ret _) fun _ => ?_
    refine Spares.cond (fun _ => suffixIn_leaves (Spares.fail _)) fun _ => ?_
    exact element_leaves fun _ => ih _ s

theorem moveChar_leaves (v : Vars n) (it : IolElem n) (s : Stack n) :
    Leaves own (moveChar v it) s :=
  Spares.cond (fun _ => (bytesAt_leaves _ _ s).andThen fun _ s' =>
    (storeAt_leaves _ _ s').andThen fun _ _ => Spares.ret _) fun _ => Spares.ret _

/-- The loop receives into the local element, and only what is in the buffers of the user's elements
changes. -/
theorem scan_leaves (h : Lent [v.curr] s.iol v.chr [v.chr]) (first : IolPtr n) (k : ℕ)
    (it : IolElem n) (sz : ℕ) : Leaves [v.curr] (scan v first k it sz) s := by
  induction k generalizing it sz s with
  | zero => exact Spares.stop _
  | succ k ih =>
    refine Spares.look_bind (Spares.look_bind ?_)
    refine Spares.cond (fun _ => Spares.ret _) fun _ => ?_
    refine (ignoreEmpty_leaves first (n + 1) it s).bind fun _ s₁ _ hi₁ => ?_
    refine (moveChar_leaves v _ s₁).bind fun _ s₂ _ hi₂ => ?_
    refine (storeAt_leaves _ _ s₂).bind fun _ s₃ _ hi₃ => ?_
    have h₃ := ((h.congr hi₁).congr hi₂).congr hi₃
    refine (suffixIn_leaves (connBrecvl_leaves h₃ v.chr)).bind fun _ s₄ _ hi₄ => ?_
    exact ih (h₃.congr hi₄) _ _

theorem suffixMrecvl_leaves (v : Vars n) (turns : ℕ) (first last : IolPtr n) (s : Stack n) :
    Leaves [v.curr, v.chr] (suffixMrecvl v turns first last) s := by
  have hchr : v.chr ≠ 0 := v.ne_zero (by simp [Locals.own])
  have hne : v.chr ∉ [v.curr] := by
    have hnd := v.nodup.2
    simp only [Locals.own, List.nodup_cons, List.mem_cons, not_or] at hnd
    exact fun h => hnd.1.2.2.1 (List.mem_singleton.mp h).symm
  have hcurr : [v.curr] ⊆ [v.curr, v.chr] := by simp
  have hlist : ∀ {s s' : Stack n} {u : Unit} {b l : ℕ},
      assign v.chr ⟨b, l, 0, 0⟩ s = .ok (.ok u, s') → Lent [v.curr] s'.iol v.chr [v.chr] := by
    intro s s' u b l hset
    exact lent_single hchr hne (by rw [assign_self hset, Function.update_self])
  refine Spares.look_bind (Spares.require_bind fun _ => ?_)
  refine (assign_leaves (by simp) _ s).bind fun _ s₁ hset _ => ?_
  refine ((suffixIn_leaves (connBrecvl_leaves (hlist hset) _)).mono hcurr).andThen fun _ s₂ => ?_
  refine (assign_leaves (by simp) _ s₂).bind fun _ s₃ hset' _ => ?_
  exact element_leaves fun _ => (scan_leaves (hlist hset') first turns _ 0).mono hcurr

/-! ## WebSockets -/

/-- A list that has been checked is not marked if it was valid; if not, it may be. -/
theorem checkIol_leaves (h : Lent own' s.iol first els) (hfit : Fit own last els) :
    Leaves own (checkIol first last) s := by
  intro o s' hr
  unfold checkIol at hr
  rcases hfit with hlast | hsub
  · rw [iolcheck_valid h.reserved (.inr ⟨h.chain, h.null, hlast⟩)] at hr
    cases hr
    exact .refl own _
  · cases hcheck : iolcheck first last s.iol with
    | none =>
      rw [hcheck] at hr
      cases hr
    | some r =>
      obtain ⟨r, iol⟩ := r
      have hi := (iolcheck_intact h.chain hcheck).mono hsub
      rw [hcheck] at hr
      cases r with
      | error e =>
        cases hr
        exact hi
      | ok r =>
        cases hr
        exact hi

theorem wsMask_leaves (server : Bool) (random : Except Errno (List UInt8)) (s : Stack n) :
    Leaves own (wsMask server random) s := by
  refine Spares.cond (fun _ => Spares.ret _) fun _ => ?_
  cases random with
  | ok mask => exact Spares.ret mask
  | error e => exact Spares.fail e

theorem sendBytes_leaves (mask : List UInt8) (k base pos : ℕ) (s : Stack n) :
    Leaves [v.iol] (sendBytes v mask k base pos) s := by
  induction k generalizing base pos s with
  | zero => exact Spares.ret pos
  | succ k ih =>
    refine (bytesAt_leaves base 1 s).andThen fun b s₁ => ?_
    refine (storeAt_leaves _ _ s₁).andThen fun _ s₂ => ?_
    exact (bsend_leaves v v.byte 1 s₂).andThen fun _ s₃ => ih _ _ s₃

theorem sendElems_leaves (mask : List UInt8) (k : ℕ) (first : IolPtr n) (pos : ℕ) (s : Stack n) :
    Leaves [v.iol] (sendElems v mask k first pos) s := by
  induction k generalizing first pos s with
  | zero => exact Spares.stop _
  | succ k ih =>
    refine Spares.cond (fun _ => Spares.ret _) fun _ => element_leaves fun _ => ?_
    refine Spares.cond (fun _ => Spares.stop _) fun _ => ?_
    exact (sendBytes_leaves mask _ _ pos s).andThen fun _ s' => ih _ _ s'

/-- A client sends its bytes one by one; a server sends the list as it is. -/
theorem wsMsendl_leaves (random : Except Errno (List UInt8)) (h : Lent [v.iol] s.iol first els)
    (hlast : els.getLast? = some last) : Leaves [v.iol] (wsMsendl v random first last) s := by
  refine Spares.look_bind (Spares.look_bind (Spares.require_bind fun _ => ?_))
  refine (checkIol_leaves h (.inl hlast)).bind fun len s₀ _ hi₀ => ?_
  refine (wsMask_leaves _ _ s₀).bind fun mask s₁ _ hi₁ => ?_
  cases Ws.putHdr s.wsSock.server (Ws.opcodeOf s.wsSock.flags) (UInt64.ofNat len) mask with
  | none => exact Spares.stop _
  | some r =>
    refine (storeAt_leaves _ _ s₁).bind fun _ s₂ _ hi₂ => ?_
    refine (bsend_leaves v v.wsbuf _ s₂).bind fun _ s₃ _ hi₃ => ?_
    refine Spares.cond (fun _ => ?_) fun _ => sendElems_leaves mask _ first 0 s₃
    have h₃ := (((h.congr hi₀).congr hi₁).congr hi₂).congr hi₃
    have hv₃ : Valid first last s₃.iol els := .inr ⟨h₃.chain, h₃.null, hlast⟩
    exact (bsendl_leaves hv₃ h₃.reserved).mono (List.nil_subset _)

/-- The elements that `dill_ws_recvl_base` and the functions below it use. -/
def Vars.wsOwn (v : Vars n) : List (IolPtr n) := [v.curr, v.iol, v.msg]

theorem wsBrecv_leaves (buf len : ℕ) (s : Stack n) : Leaves v.wsOwn (brecv v buf len) s :=
  (brecv_leaves v buf len s).mono (by simp [Vars.wsOwn])

theorem wsSwitch_leaves (opcode : UInt8) (x : WsVars n) (s : Stack n) :
    Leaves v.wsOwn (wsSwitch v opcode x) s := by
  refine Spares.cond (fun _ => Spares.ret x) fun _ => Spares.cond (fun _ => Spares.ret _) fun _ => ?_
  refine Spares.cond (fun _ => Spares.ret _) fun _ => Spares.cond (fun _ => ?_) fun _ => ?_
  · refine Spares.look_bind ?_
    refine (assign_leaves (by simp [Vars.wsOwn]) _ s).andThen fun _ s' => ?_
    exact Spares.change_bind rfl (Spares.ret _)
  · exact Spares.fail _

theorem wsSize_leaves (sz : UInt8) (s : Stack n) : Leaves v.wsOwn (wsSize v sz) s := by
  refine Spares.cond (fun _ => ?_) fun _ => Spares.cond (fun _ => ?_) fun _ => Spares.ret _
  · exact (wsBrecv_leaves _ _ s).andThen fun _ s' => Spares.look_bind (Spares.ret _)
  · exact (wsBrecv_leaves _ _ s).andThen fun _ s' => Spares.look_bind (Spares.ret _)

theorem wsChunk_leaves (server : Bool) (mask : List UInt8) (base toread : ℕ) (s : Stack n) :
    Leaves v.wsOwn (wsChunk v server mask base toread) s := by
  refine Spares.cond (fun _ => Spares.ret _) fun _ => ?_
  refine (wsBrecv_leaves base toread s).andThen fun _ s₁ => ?_
  refine Spares.cond (fun _ => Spares.cond (fun _ => Spares.stop _) fun _ => ?_) fun _ => Spares.ret _
  exact (bytesAt_leaves _ _ s₁).andThen fun bs s₂ => storeAt_leaves _ _ s₂

theorem wsPayload_leaves (server : Bool) (mask : List UInt8) (k sz : ℕ) (it : Option (IolElem n))
    (s : Stack n) : Leaves v.wsOwn (wsPayload v server mask k sz it) s := by
  induction k generalizing sz it s with
  | zero => exact Spares.stop _
  | succ k ih =>
    cases it with
    | none => exact Spares.cond (fun _ => Spares.ret _) fun _ => Spares.stop _
    | some it =>
      refine (wsChunk_leaves server mask _ _ s).andThen fun _ s' => ?_
      refine Spares.cond (fun _ => Spares.ret _) fun _ =>
        Spares.cond (fun _ => Spares.fail _) fun _ => ?_
      exact element_leaves fun _ => ih _ _ s'

theorem wsReadMask_leaves (server : Bool) (s : Stack n) : Leaves v.wsOwn (wsReadMask v server) s :=
  Spares.cond (fun _ => (wsBrecv_leaves v.mask 4 s).andThen fun _ s' => bytesAt_leaves _ _ s')
    fun _ => Spares.ret _

/-- One frame is received into the local elements, and into the buffers of the user's. -/
theorem wsFrame_leaves (x : WsVars n) (s : Stack n) : Leaves v.wsOwn (wsFrame v x) s := by
  refine (wsBrecv_leaves v.hdr1 2 s).andThen fun _ s₁ => Spares.look_bind ?_
  refine Spares.require_bind fun _ => (wsSwitch_leaves _ x s₁).andThen fun x s₂ => ?_
  refine Spares.look_bind (Spares.require_bind fun _ => ?_)
  refine (wsSize_leaves _ s₂).andThen fun sz s₃ => Spares.require_bind fun _ => ?_
  refine (wsReadMask_leaves _ s₃).andThen fun mask s₄ => ?_
  exact (wsPayload_leaves _ mask _ _ x.it s₄).andThen fun _ _ => Spares.ret _

theorem wsFrames_leaves (k : ℕ) (x : WsVars n) (s : Stack n) : Leaves v.wsOwn (wsFrames v k x) s := by
  induction k generalizing x s with
  | zero => exact Spares.stop _
  | succ k ih =>
    exact (wsFrame_leaves x s).andThen fun r s' => Spares.cond (fun _ => Spares.ret _) fun _ => ih _ s'

theorem wsClosed_leaves (res : UInt64) (s : Stack n) : Leaves own (wsClosed v res) s := by
  refine Spares.cond (fun _ => Spares.fail _) fun _ => Spares.cond (fun _ => ?_) fun _ => ?_
  · refine Spares.look_bind (Spares.look_bind (Spares.look_bind (Spares.change_bind rfl ?_)))
    refine Spares.look_bind ((storeAt_leaves _ _ _).andThen fun _ s' => ?_)
    exact Spares.require_bind fun _ => Spares.change_bind rfl (Spares.fail _)
  · exact Spares.change_bind rfl (Spares.fail _)

theorem wsRecvl_leaves (turns : ℕ) (hown : v.wsOwn ⊆ own) (h : Lent own' s.iol first els)
    (hfit : Fit own last els) : Leaves own (wsRecvl v turns first last) s := by
  refine Spares.look_bind (Spares.require_bind fun _ => ?_)
  refine (checkIol_leaves h hfit).andThen fun _ s' => ?_
  have hframes : ∀ it : Option (IolElem n), Leaves own
      (wsFrames v turns ⟨it, none, 0⟩ >>= fun x => Call.look Stack.wsSock >>= fun self =>
        if self.indone then wsClosed v x.res >>= fun sz => pure (sz, x.flags)
        else pure (x.res.toInt64.toInt, x.flags)) s' := by
    intro it
    refine ((wsFrames_leaves turns _ s').mono hown).andThen fun x s'' => Spares.look_bind ?_
    refine Spares.cond (fun _ => ?_) fun _ => Spares.ret _
    exact (wsClosed_leaves x.res s'').andThen fun _ _ => Spares.ret _
  exact Spares.cond (fun _ => hframes none) fun _ => element_leaves fun _ => hframes _

theorem wsMrecvl_leaves (turns : ℕ) (hown : v.wsOwn ⊆ own) (h : Lent own' s.iol first els)
    (hfit : Fit own last els) : Leaves own (wsMrecvl v turns first last) s := by
  refine (wsRecvl_leaves turns hown h hfit).andThen fun r s' => ?_
  refine Spares.cond (fun _ => Spares.ret _) fun _ => ?_
  cases r.2 with
  | none => exact Spares.stop _
  | some flags => exact Spares.look_bind (Spares.require_bind fun _ => Spares.ret _)

end Libdill.Borrow
