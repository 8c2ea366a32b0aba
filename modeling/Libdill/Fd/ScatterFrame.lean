import Libdill.Fd.ScatterRecv
import Libdill.Foundations.Frame

/-!
# Receives leave the elements as they were

`dill_fd_recv` with the functions it calls. While it receives directly, the list is cut off behind
the elements that it is about to fill, and these are marked while they are checked. None of this is
left when the call returns, whether it has succeeded or not.

* `fdRecv_spares`: nothing but the local element has changed.
-/

namespace Libdill.Fd.Scatter

open Foundations Libdill.Sock
open Foundations.Call (Spares)

variable {n : ℕ}

/-- A list that a call may use: it ends, no element of it is marked, and none is one of the call's
own elements. -/
structure Lent (own : List (IolPtr n)) (iol : IolMem n) (first : IolPtr n)
    (els : List (IolPtr n)) : Prop where
  chain : Chain iol.next first els 0
  null : 0 ∉ els
  reserved : ∀ x ∈ els, (iol x).iolRsvd = 0
  apart : ∀ x ∈ els, x ∉ own

variable {own own' : List (IolPtr n)} {iol iol' : IolMem n} {curr first last start it x : IolPtr n}
  {els pre post : List (IolPtr n)} {s s' : Rcv n} {k : ℕ}

/-! ## Lists -/

theorem Lent.same (h : Lent own iol first els) (hi : Intact own iol iol') :
    ∀ x ∈ els, iol' x = iol x := fun x hx => hi x (h.apart x hx)

theorem Lent.congr (h : Lent own iol first els) (hi : Intact own iol iol') :
    Lent own iol' first els where
  chain := h.chain.congr fun x hx => congrArg IolElem.iolNext (h.same hi x hx)
  null := h.null
  reserved x hx := by
    rw [h.same hi x hx]
    exact h.reserved x hx
  apart := h.apart

theorem Lent.mono (h : Lent own iol first els) (hsub : own' ⊆ own) : Lent own' iol first els where
  chain := h.chain
  null := h.null
  reserved := h.reserved
  apart x hx hx' := h.apart x hx (hsub hx')

theorem Lent.nodup (h : Lent own iol first els) : els.Nodup := h.chain.nodup h.null

/-- A list that is not empty starts at its first element. -/
theorem Lent.head (h : Lent own iol first els) (hfirst : first ≠ 0) :
    ∃ els', els = first :: els' ∧ first ∉ own ∧ Lent own iol (iol first).iolNext els' := by
  cases els with
  | nil => exact absurd h.chain hfirst
  | cons x els =>
    obtain ⟨⟨rfl, hch⟩, h0, hr, ha⟩ := h
    obtain ⟨-, h0⟩ := not_or.mp (fun h => h0 (List.mem_cons.mpr h))
    obtain ⟨-, hr⟩ := List.forall_mem_cons.mp hr
    obtain ⟨hown, ha⟩ := List.forall_mem_cons.mp ha
    exact ⟨els, rfl, hown, hch, h0, hr, ha⟩

/-- An element in front of a list. -/
theorem Lent.cons (h : Lent own iol (iol x).iolNext els) (hx : x ≠ 0) (hr : (iol x).iolRsvd = 0)
    (hown : x ∉ own) : Lent own iol x (x :: els) where
  chain := ⟨rfl, h.chain⟩
  null h0 := (List.mem_cons.mp h0).elim (fun h' => hx h'.symm) h.null
  reserved := List.forall_mem_cons.mpr ⟨hr, h.reserved⟩
  apart := List.forall_mem_cons.mpr ⟨hown, h.apart⟩

/-- The rest of a list. -/
theorem Lent.drop (h : Lent own iol first (pre ++ post)) (hpre : Chain iol.next first pre it) :
    Lent own iol it post := by
  obtain ⟨b, hb, hpost⟩ := chain_append.mp h.chain
  rw [hb.arrives hpre] at hpost
  exact ⟨hpost, fun h0 => h.null (List.mem_append_right _ h0),
    fun x hx => h.reserved x (List.mem_append_right _ hx),
    fun x hx => h.apart x (List.mem_append_right _ hx)⟩

/-- A list that is cut off behind one of its elements. -/
theorem Lent.cut (h : Lent own iol first (pre ++ it :: post)) (hpre : Chain iol.next first pre it)
    {e : IolElem n} (hnext : e.iolNext = 0) (hr : e.iolRsvd = 0) :
    Lent own (Function.update iol it e) first (pre ++ [it]) := by
  have hsub : ∀ x ∈ pre ++ [it], x ∈ pre ++ it :: post := by
    intro x hx
    rw [List.append_cons]
    exact List.mem_append_left _ hx
  have hother : ∀ x ∈ pre, Function.update iol it e x = iol x := by
    intro x hx
    have hne : x ≠ it := fun heq =>
      (List.nodup_append.mp h.nodup).2.2 x hx it List.mem_cons_self heq
    exact Function.update_of_ne hne _ _
  refine ⟨?_, fun h0 => h.null (hsub 0 h0), fun x hx => ?_, fun x hx => h.apart x (hsub x hx)⟩
  · rw [chain_concat, next_update]
    exact ⟨hpre.congr fun x hx => congrArg IolElem.iolNext (hother x hx), hnext⟩
  · have hx0 := h.reserved x (hsub x hx)
    rcases List.mem_append.mp hx with hx | hx
    · rwa [hother x hx]
    · rw [List.mem_singleton.mp hx, Function.update_self]
      exact hr

/-! ## Parts of the receive -/

theorem IolFree.spares {α : Type} {x : Recv n α} (hx : IolFree x) (s : Rcv n) :
    Spares Rcv.iol own x s := fun _ _ h x _ => congrFun (hx.keeps h) x

/-- A null pointer is not followed. -/
theorem elem_ends {α : Type} {f : IolElem n → Recv n α} {Q : Except Errno α → Rcv n → Prop}
    (h : it ≠ 0 → Call.Ends (f (s.iol it)) s Q) : Call.Ends (elem it >>= f) s Q := by
  by_cases hit : it = 0
  · subst hit
    intro o s' hr
    rw [elem_null] at hr
    cases hr
  · intro o s' hr
    rw [elem_bind hit] at hr
    exact h hit o s' hr

theorem elem_spares {α : Type} {f : IolElem n → Recv n α}
    (h : it ≠ 0 → Spares Rcv.iol own (f (s.iol it)) s) : Spares Rcv.iol own (elem it >>= f) s :=
  elem_ends h

theorem setElem_spares (hit : it ∈ own) (e : IolElem n) (s : Rcv n) :
    Spares Rcv.iol own (setElem it e) s := Spares.change (intact_update hit s.iol e)

theorem assert_spares (c : Bool) (s : Rcv n) : Spares Rcv.iol own (assert c) s := by
  unfold assert
  split
  · exact Spares.ret ()
  · exact Spares.stop _

theorem ignore_spares {α : Type} {x : Recv n α} (h : Spares Rcv.iol own x s) :
    Spares Rcv.iol own (ignore x) s := by
  intro o s' hr
  unfold ignore at hr
  cases hx : x s with
  | error r =>
    rw [hx] at hr
    cases hr
  | ok p =>
    rw [hx] at hr
    cases hr
    exact h p.1 p.2 hx

theorem fdCopy_spares (it : IolPtr n) (s : Rcv n) : Spares Rcv.iol own (fdCopy it) s := by
  intro o s' hr
  unfold fdCopy at hr
  cases hrx : s.rx with
  | none =>
    rw [hrx] at hr
    cases hr
  | some rx =>
    rw [hrx] at hr
    cases hr
    exact .refl own _

theorem allocbuf_spares (s : Rcv n) : Spares Rcv.iol own allocbuf s := by
  intro o s' hr
  unfold allocbuf at hr
  cases hrx : s.rx with
  | none =>
    rw [hrx] at hr
    cases hr
  | some rx =>
    rw [hrx] at hr
    dsimp only at hr
    split at hr
    · cases hr
      exact .refl own _
    · split at hr
      · cases hr
        exact .refl own _
      · cases hr
        exact .refl own _

/-- A valid list is not marked when it has been checked. -/
theorem recvList_spares (hv : Valid first last s.iol els) (hr : ∀ x ∈ els, (s.iol x).iolRsvd = 0) :
    Spares Rcv.iol own (fdRecv_ first last) s := by
  have hcheck : check first last s = .ok (.ok (), s) := by
    unfold check
    rw [iolcheck_valid hr hv]
  unfold fdRecv_
  refine Spares.bind ?_ fun _ s' _ _ => ?_
  · intro o s' hrun
    rw [hcheck] at hrun
    cases hrun
    exact .refl own _
  · refine (Spares.look _).andThen fun iov s' => ?_
    cases iov with
    | none => exact Spares.stop _
    | some iov => exact (iolFree_recvIov iov).spares s'

/-! ## Without a receive buffer -/

/-- The elements that have been collected, cut off from the rest of the list for the time of the
call. -/
theorem cut_spares (h : Lent [] s.iol start (pre ++ it :: post))
    (hpre : Chain s.iol.next start pre it) :
    Spares Rcv.iol []
      (Call.change (fun s => s.setNext it 0) >>= fun _ =>
        finally' (fdRecv_ start it) fun s' => s'.setNext it (s.iol it).iolNext) s := by
  have hit := h.reserved it (List.mem_append_right _ List.mem_cons_self)
  have hcut : Lent [] (s.setNext it 0).iol start (pre ++ [it]) := h.cut hpre rfl hit
  have hrun := @recvList_spares n [] start it _ _ (.inr ⟨hcut.chain, hcut.null, List.getLast?_concat⟩)
    hcut.reserved
  intro o s' hs
  rw [Call.change_bind] at hs
  unfold finally' at hs
  cases hx : fdRecv_ start it (s.setNext it 0) with
  | error r =>
    rw [hx] at hs
    cases hs
  | ok p =>
    rw [hx] at hs
    cases hs
    have hi := hrun _ _ hx
    have hsame : p.2.iol it = { s.iol it with iolNext := 0 } :=
      (hi it List.not_mem_nil).trans (Function.update_self _ _ _)
    show Intact [] s.iol (Function.update p.2.iol it _)
    rw [hsame]
    exact hi.restore

/-- **The loop that receives directly.** `pre` are the elements that have been collected. -/
theorem direct_spares (h : Lent [] s.iol start (pre ++ post))
    (hpre : Chain s.iol.next start pre it) : Spares Rcv.iol [] (direct last k start it) s := by
  induction k generalizing start it pre post s with
  | zero => exact Spares.stop _
  | succ k ih =>
    by_cases hit : it = 0
    · subst hit
      exact elem_spares fun h0 => absurd rfl h0
    obtain ⟨post, rfl, -, htail⟩ := (h.drop hpre).head hit
    -- the elements up to `it` are forgotten
    have hgo : ∀ s' : Rcv n, s'.iol = s.iol → Spares Rcv.iol [] (goOn last k it) s' := by
      intro s' hsame
      unfold goOn
      split
      · exact Spares.ret ()
      · refine elem_spares fun _ => ?_
        rw [hsame]
        exact @ih _ _ [] post s' (hsame ▸ htail) rfl
    refine Spares.congr (direct_turn hit) ?_
    split
    · exact (assert_spares _ s).bind fun _ s' _ hi => hgo s' (intact_nil.mp hi)
    · split
      · refine (assert_spares _ s).bind fun _ s' _ hi => ?_
        refine (ignore_spares ((iolFree_fdSkip _).spares s')).bind fun _ s'' _ hi' => ?_
        exact hgo s'' (intact_nil.mp (hi.trans hi'))
      · refine Spares.bind (x := splits last it (s.iol it)) ?_ fun split s' hsplit hi => ?_
        · unfold splits
          split
          · exact Spares.ret _
          · exact elem_spares fun _ => Spares.ret _
        · have hsame := intact_nil.mp hi
          cases split with
          | true =>
            rw [if_pos rfl, ← Call.bind_bind, ← hsame]
            refine (cut_spares (hsame ▸ h) (hsame ▸ hpre)).bind fun _ s'' _ hi' => ?_
            exact hgo s'' ((intact_nil.mp hi').trans hsame)
          | false =>
            rw [if_neg Bool.false_ne_true]
            rw [List.append_cons] at h
            have hpre' : Chain s.iol.next start (pre ++ [it]) (s.iol it).iolNext :=
              chain_concat.mpr ⟨hpre, rfl⟩
            exact ih (hsame ▸ h) (hsame ▸ hpre')

/-! ## With a receive buffer -/

/-- The element that could not be filled from the receive buffer is one of the list. -/
theorem drain_ends (h : Lent own s.iol first els) :
    Call.Ends (drain k first) s fun o s' => s'.iol = s.iol ∧
      ∀ x sz, o = .ok (some (x, sz)) → ∃ els', Lent own s.iol x els' := by
  induction k generalizing first els s with
  | zero => exact Call.Ends.stop
  | succ k ih =>
    unfold drain
    refine elem_ends fun hfirst => ?_
    obtain ⟨els', rfl, -, htail⟩ := h.head hfirst
    have hcopy := @fdCopy_spares n [] first s
    refine Call.Ends.bind hcopy ?_ ?_
    · intro e s' hi
      refine ⟨intact_nil.mp hi, fun x sz ho => ?_⟩
      cases ho
    · intro sz s' hi
      have hsame := intact_nil.mp hi
      split
      · refine Call.Ends.ret ⟨hsame, fun x sz ho => ?_⟩
        cases ho
        exact ⟨_, h⟩
      · split
        · refine Call.Ends.ret ⟨hsame, fun x sz ho => ?_⟩
          cases ho
        · rw [← hsame] at htail ⊢
          exact ih htail

theorem copyOut_spares (hcurr : curr ∈ own) (k : ℕ) (s : Rcv n) :
    Spares Rcv.iol own (copyOut curr k) s := by
  induction k generalizing s with
  | zero => exact Spares.stop _
  | succ k ih =>
    unfold copyOut
    refine (fdCopy_spares curr s).andThen fun sz s' => elem_spares fun _ => ?_
    split
    · exact Spares.ret _
    · split
      · exact Spares.ret _
      · refine elem_spares fun _ => ?_
        exact (setElem_spares hcurr _ s').andThen fun _ s'' => ih s''

/-- **The loop that receives through the receive buffer** has only the local element to change. -/
theorem buffered_spares (hcurr : curr ∈ own) (k : ℕ) (s : Rcv n) :
    Spares Rcv.iol own (buffered curr k) s := by
  induction k generalizing s with
  | zero => exact Spares.stop _
  | succ k ih =>
    unfold buffered
    refine (allocbuf_spares s).andThen fun _ s₁ => ?_
    refine ((iolFree_sysRecv _ _).spares s₁).andThen fun bs s₂ => ?_
    refine (Spares.change_other rfl).andThen fun _ s₃ => ?_
    refine (copyOut_spares hcurr _ s₃).andThen fun r s₄ => ?_
    cases r with
    | none => exact Spares.ret ()
    | some sz =>
      refine elem_spares fun _ => (setElem_spares hcurr _ s₄).andThen fun _ s₅ => ?_
      exact (iolFree_fdin.spares s₅).andThen fun _ s₆ => ih s₆

/-! ## The whole receive -/

/-- The receive from the element that could not be filled on. The local element takes the place of
that one. -/
theorem resume_spares (h : Lent [curr] s.iol x els) (hcurr : curr ≠ 0) (last : IolPtr n)
    (rx : Option RxBuf) (sz : ℕ) : Spares Rcv.iol [curr] (resume curr last rx x sz) s := by
  unfold resume
  refine elem_spares fun hx => ?_
  obtain ⟨els, rfl, -, htail⟩ := h.head hx
  refine (setElem_spares (List.mem_singleton_self curr) _ s).bind fun _ s' hset hi => ?_
  have hself : s'.iol curr = ⟨(IolElem.skip (s.iol x) sz).iolBase,
      (IolElem.skip (s.iol x) sz).iolLen, (s.iol x).iolNext, 0⟩ := by
    cases hset
    exact Function.update_self curr _ s.iol
  have hnext : (s'.iol curr).iolNext = (s.iol x).iolNext := by rw [hself]
  have hrest : Lent [] s'.iol (s'.iol curr).iolNext els := by
    rw [hnext]
    exact (htail.congr hi).mono (List.nil_subset _)
  have hlist := hrest.cons hcurr (by rw [hself]) List.not_mem_nil
  refine (Spares.look _).bind fun miss s'' hlook _ => ?_
  cases hlook
  dsimp only
  cases missing s'.iol (n + 1) curr 0 with
  | none => exact Spares.stop _
  | some miss =>
    refine Spares.cond (fun _ => ?_) fun _ => ?_
    · exact (@direct_spares n _ curr curr [] (curr :: els) s' _ hlist rfl).mono (List.nil_subset _)
    · exact fun o s'' hr => buffered_spares (List.mem_singleton_self curr) (s'.turns + 1) s' o s'' hr

/-- **The elements are as they were**, whatever comes on the descriptor and however the call ends.
Where the list does not end in `last` this is so as well. -/
theorem fdRecv_spares (h : Lent [curr] s.iol first els) (hcurr : curr ≠ 0) (last : IolPtr n) :
    Spares Rcv.iol [curr] (fdRecv curr first last) s := by
  by_cases hnull : first = 0 ∧ last = 0
  · unfold fdRecv
    rw [if_pos hnull]
    exact (iolFree_fdSkip _).spares s
  · refine Spares.congr (fdRecv_start curr first last hnull s) ?_
    have hstart : Call.Ends (if s.rx.isSome then drain (n + 1) first else pure (some (first, 0))) s
        fun o s' => s'.iol = s.iol ∧
          ∀ x sz, o = .ok (some (x, sz)) → ∃ els', Lent [curr] s.iol x els' := by
      split
      · exact drain_ends h
      · refine Call.Ends.ret ⟨rfl, fun x sz ho => ?_⟩
        cases ho
        exact ⟨els, h⟩
    refine Spares.bind_ends hstart (fun _ _ hs x _ => congrFun hs.1 x) ?_
    intro r s' hs
    obtain ⟨hsame, hx⟩ := hs
    cases r with
    | none => exact Spares.ret ()
    | some r =>
      obtain ⟨els', h'⟩ := hx r.1 r.2 rfl
      rw [← hsame] at h'
      exact resume_spares h' hcurr last s.rx r.2

end Libdill.Fd.Scatter
