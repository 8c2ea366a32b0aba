import Libdill.Borrow.Layers

/-!
# Iolists are borrowed

What the calls with iolists in memory leave of the elements that they have been given, on a
connection or on any of the sockets that are stacked on it. A TERM socket receives into an element
of its own that it puts in front of what is left of the list, and the sockets below it do so with
that list.

* `topMrecvl_receives`: any number of TERM sockets on top of each other.
* `borrowed`: whatever call it is and however it returns, the elements are as they were.
-/

namespace Libdill.Borrow

open Foundations Libdill.Sock Fd Fd.Scatter
open Foundations.Call (Spares)

variable {n : ℕ} {α : Type} {v : Vars n} {own : List (IolPtr n)} {s s' : Stack n}
  {first last it : IolPtr n} {els : List (IolPtr n)} {k : ℕ}

/-- The iolist that a call is given: it is valid, and it has none of the elements of the functions
themselves in it. -/
structure Given (v : Vars n) (iol : IolMem n) (first last : IolPtr n) (els : List (IolPtr n)) :
    Prop where
  valid : Valid first last iol els
  reserved : ∀ x ∈ els, (iol x).iolRsvd = 0
  apart : ∀ x ∈ els, x ∉ v.own v.terms

theorem Given.lent (h : Given v s.iol first last els) : Lent (v.own v.terms) s.iol first els := by
  obtain ⟨hfirst, -, rfl⟩ | ⟨hch, h0, -⟩ := h.valid
  · exact ⟨hfirst, List.not_mem_nil, h.reserved, h.apart⟩
  · exact ⟨hch, h0, h.reserved, h.apart⟩

/-! ## TERM -/

theorem msendl_leaves {x : IolPtr n → IolPtr n → On n Unit}
    (h : first ≠ 0 → Leaves own (x first last) s) : Leaves own (msendl x first last) s :=
  Spares.require_bind fun hc => element_leaves fun _ => Spares.require_bind fun _ =>
    h (of_decide_eq_true hc).1

theorem mrecvl_leaves {x : IolPtr n → IolPtr n → On n ℤ} (h : Leaves own (x first last) s) :
    Leaves own (mrecvl x first last) s := by
  have hcheck : ∀ next : IolPtr n, Leaves own (Call.require
      (decide (next = 0) && (decide (first = 0) == decide (last = 0))) .EINVAL >>= fun _ =>
        x first last) s := fun next => Spares.require_bind fun _ => h
  exact Spares.cond (fun _ => hcheck 0) fun _ => element_leaves fun _ => hcheck _

/-- The function can be called with any list that does not have the elements `own` in it. It changes
none but those at `all`, among which there may be some of the list. -/
def Receives (own all : List (IolPtr n)) (x : IolPtr n → IolPtr n → On n ℤ) : Prop :=
  ∀ s first last els, Lent own s.iol first els → Fit all last els → Leaves all (x first last) s

/-- The element with the first byte that is left is one of the list. -/
theorem trimLoop_lent {iol : IolMem n} {m r : ℕ} (h : Lent own iol first els) (hm : 0 < m)
    (hrun : Slices.trimLoop iol k first m = .ok (some (it, r))) :
    it ≠ 0 ∧ ∃ els', els' <:+ els ∧ Lent own iol (iol it).iolNext els' := by
  induction k generalizing first els m with
  | zero => cases hrun
  | succ k ih =>
    unfold Slices.trimLoop at hrun
    rw [if_neg hm.ne'] at hrun
    split at hrun
    · cases hrun
    · rename_i hfirst
      obtain ⟨els, rfl, -, htail⟩ := h.head hfirst
      split at hrun
      · cases hrun
        exact ⟨hfirst, els, List.suffix_cons _ _, htail⟩
      · obtain ⟨hit, els', hsuf, h'⟩ := ih htail (by omega) hrun
        exact ⟨hit, els', hsuf.trans (List.suffix_cons _ _), h'⟩

/-- What is left of the list is behind the local element. -/
theorem ioltrim_ends {result : IolPtr n} (h : Lent own s.iol first els) {m : ℕ} (hm : 0 < m)
    (h0 : result ≠ 0) (hres : result ∈ own) :
    Call.Ends (ioltrim first m result) s fun o s' => Intact own s.iol s'.iol ∧
      ∀ rc, o = .ok rc → ¬rc < 0 → (s'.iol result).iolRsvd = 0 ∧
        ∃ els', els' <:+ els ∧ Lent own s'.iol (s'.iol result).iolNext els' := by
  intro o s' hr
  unfold ioltrim Slices.ioltrim at hr
  cases hloop : Slices.trimLoop s.iol (n + 1) first m with
  | error e =>
    rw [hloop] at hr
    cases hr
  | ok r =>
    cases r with
    | none =>
      rw [hloop] at hr
      cases hr
      refine ⟨.refl _ _, fun rc ho hrc => ?_⟩
      cases ho
      exact absurd (by decide) hrc
    | some r =>
      obtain ⟨it, r⟩ := r
      obtain ⟨hit, els', hsuf, hrest⟩ := trimLoop_lent h hm hloop
      rw [hloop] at hr
      change (match (if it = 0 ∨ result = 0 then Except.error Halt.fault
        else Except.ok ((0 : ℤ), Function.update s.iol result (Slices.restOf (s.iol it) r))) with
        | .error h => .error h
        | .ok (rc, iol) => .ok (.ok rc, { s with iol := iol })) = Except.ok (o, s') at hr
      rw [if_neg (not_or.mpr ⟨hit, h0⟩)] at hr
      cases hr
      have hi := intact_update hres s.iol (Slices.restOf (s.iol it) r)
      refine ⟨hi, fun rc _ _ => ⟨?_, els', hsuf, ?_⟩⟩
      · show (Function.update s.iol result _ result).iolRsvd = 0
        rw [Function.update_self]
        rfl
      · show Lent own (Function.update s.iol result _)
          (Function.update s.iol result _ result).iolNext els'
        rw [Function.update_self]
        exact hrest.congr hi

theorem arrived_leaves (i : ℕ) (s : Stack n) : Leaves own (arrived (α := α) i) s :=
  Spares.change_bind rfl (Spares.fail _)

theorem iolto_leaves (src : List UInt8) (first : IolPtr n) (s : Stack n) :
    Leaves own (iolto src first) s := by
  intro o s' hr
  unfold iolto at hr
  cases hto : Slices.iolto src first s.iol s.mem with
  | error e =>
    rw [hto] at hr
    cases hr
  | ok r =>
    rw [hto] at hr
    cases hr
    exact .refl own _

section Term

variable {t : TermLocals n} {ts : List (TermLocals n)} {all : List (IolPtr n)}

/-- What is left of a list. -/
theorem Fit.suffix {els' : List (IolPtr n)} (h : Fit own last els) (hsuf : els' <:+ els)
    (hne : els' ≠ []) : Fit own last els' := by
  rcases h with hlast | hsub
  · left
    obtain ⟨pre, rfl⟩ := hsuf
    rwa [List.getLast?_append_of_ne_nil _ hne] at hlast
  · exact .inr fun x hx => hsub (hsuf.subset hx)

/-- The list that the message is received into. -/
theorem term_lent {v : Locals n} {rc : ℤ} {b l : ℕ} {u : Unit} (hnd : (0 :: v.own (t :: ts)).Nodup)
    (hset : assign t.term ⟨b, l, if rc < 0 then 0 else t.trimmed, 0⟩ s = .ok (.ok u, s'))
    (hall : v.own (t :: ts) ⊆ all) (hfit : Fit all last els)
    (hrest : ¬rc < 0 → (s.iol t.trimmed).iolRsvd = 0 ∧
      ∃ els', els' <:+ els ∧ Lent (v.own (t :: ts)) s.iol (s.iol t.trimmed).iolNext els') :
    ∃ els', Lent (v.own ts) s'.iol t.term els' ∧ Fit all (if rc < 0 then t.term else last) els' := by
  obtain ⟨h0, hnd⟩ := List.nodup_cons.mp hnd
  obtain ⟨hterm, hnd⟩ := List.nodup_cons.mp hnd
  obtain ⟨htrimmed, -⟩ := List.nodup_cons.mp hnd
  have hne : t.trimmed ≠ t.term := fun h => hterm (h ▸ List.mem_cons_self)
  have hterm0 : t.term ≠ 0 := fun h => h0 (h ▸ List.mem_cons_self)
  have htrimmed0 : t.trimmed ≠ 0 := fun h => h0 (h ▸ List.mem_cons_of_mem _ List.mem_cons_self)
  have hterm' : t.term ∉ v.own ts := fun h => hterm (List.mem_cons_of_mem _ h)
  have hsub : v.own ts ⊆ v.own (t :: ts) := fun x hx =>
    List.mem_cons_of_mem _ (List.mem_cons_of_mem _ hx)
  have hiol := assign_self hset
  have hself : s'.iol t.term = ⟨b, l, if rc < 0 then 0 else t.trimmed, 0⟩ := by
    rw [hiol, Function.update_self]
  by_cases hrc : rc < 0
  · rw [if_pos hrc] at hself ⊢
    exact ⟨_, lent_single hterm0 hterm' hself, .inl rfl⟩
  · rw [if_neg hrc] at hself ⊢
    obtain ⟨hr, els', hsuf, hels⟩ := hrest hrc
    have hels' := (hels.congr (hiol ▸ intact_update List.mem_cons_self s.iol _)).mono hsub
    have hsame : s'.iol t.trimmed = s.iol t.trimmed := by
      rw [hiol, Function.update_of_ne hne]
    rw [← hsame] at hels' hr
    have hlist : Lent (v.own ts) s'.iol (s'.iol t.term).iolNext (t.trimmed :: els') := by
      rw [hself]
      exact hels'.cons htrimmed0 hr htrimmed
    refine ⟨_, hlist.cons hterm0 (by rw [hself]) hterm', ?_⟩
    -- if nothing is left behind the local elements, there are only these
    by_cases hnil : els' = []
    · subst hnil
      right
      intro x hx
      apply hall
      rcases List.mem_pair.mp hx with rfl | rfl
      · exact List.mem_cons_self
      · exact List.mem_cons_of_mem _ List.mem_cons_self
    · rcases hfit.suffix hsuf hnil with hlast | hsub'
      · left
        rw [List.getLast?_cons, List.getLast?_cons, hlast]
        rfl
      · right
        intro x hx
        rcases List.mem_cons.mp hx with rfl | hx
        · exact hall List.mem_cons_self
        · rcases List.mem_cons.mp hx with rfl | hx
          · exact hall (List.mem_cons_of_mem _ List.mem_cons_self)
          · exact hsub' hx

/-- The message is received into the local element with the rest of the list behind it, or into that
element alone. -/
theorem termMrecvl_receives {v : Locals n} (hnd : (0 :: v.own (t :: ts)).Nodup)
    (hall : v.own (t :: ts) ⊆ all) (i : ℕ) {x : IolPtr n → IolPtr n → On n ℤ}
    (hx : Receives (v.own ts) all x) : Receives (v.own (t :: ts)) all (termMrecvl t i x) := by
  intro s first last els h hfit
  have hterm : t.term ∈ v.own (t :: ts) := List.mem_cons_self
  have htrimmed : t.trimmed ∈ v.own (t :: ts) := List.mem_cons_of_mem _ List.mem_cons_self
  have htrimmed0 : t.trimmed ≠ 0 := fun h => (List.nodup_cons.mp hnd).1 (h ▸ htrimmed)
  have hsub : v.own ts ⊆ v.own (t :: ts) := fun x hx =>
    List.mem_cons_of_mem _ (List.mem_cons_of_mem _ hx)
  refine Spares.look_bind (Spares.cond (fun _ => ?_) fun hlen => ?_)
  · refine (mrecvl_leaves (hx s first last els (h.mono hsub) hfit)).andThen
      fun sz s' => Spares.cond (fun _ => Spares.ret _) fun _ => ?_
    exact Spares.cond (fun _ => arrived_leaves i s') fun _ => Spares.ret _
  · refine (assign_leaves (hall htrimmed) _ s).bind fun _ s₁ hset _ => ?_
    have h₁ := h.congr (assign_self hset ▸ intact_update htrimmed s.iol _)
    refine Spares.bind_ends (ioltrim_ends h₁ (Nat.pos_of_ne_zero hlen) htrimmed0 htrimmed)
      (fun _ _ hq => hq.1.mono hall) fun rc s₂ hq => ?_
    refine (assign_leaves (hall hterm) _ s₂).bind fun _ s₃ hset' _ => ?_
    obtain ⟨els', hlist, hfit'⟩ := term_lent hnd hset' hall hfit (hq.2 rc rfl)
    refine (mrecvl_leaves (hx s₃ _ _ els' hlist hfit')).andThen fun sz s₄ => ?_
    refine (bytesAt_leaves _ _ s₄).andThen fun buf s₅ => ?_
    refine Spares.cond (fun _ => Spares.ret _) fun _ => ?_
    refine Spares.cond (fun _ => arrived_leaves i s₅) fun _ => ?_
    exact (iolto_leaves buf first s₅).andThen fun _ _ => Spares.ret _

end Term

/-! ## Sockets on top of each other -/

theorem Msock.msendl_leaves (m : Msock) (random : Except Errno (List UInt8))
    (h : Lent (v.own []) s.iol first els) (hlast : els.getLast? = some last) :
    Leaves (v.own []) (m.msendl v random first last) s := by
  have hlent : ∀ l, l ⊆ v.own [] → Lent l s.iol first els := fun l hl => h.mono hl
  cases m with
  | prefixSock =>
    have hsub : [v.hdr] ⊆ v.own [] := by simp [Locals.own]
    exact (prefixMsendl_leaves (hlent _ hsub) hlast).mono hsub
  | suffixSock =>
    have hsub : [v.chr] ⊆ v.own [] := by simp [Locals.own]
    exact (suffixMsendl_leaves (hlent _ hsub) hlast).mono hsub
  | wsSock =>
    have hsub : [v.iol] ⊆ v.own [] := by simp [Locals.own]
    exact (wsMsendl_leaves random (hlent _ hsub) hlast).mono hsub

theorem Msock.mrecvl_receives (m : Msock) (turns : ℕ) {all : List (IolPtr n)}
    (hall : v.own [] ⊆ all) : Receives (v.own []) all (m.mrecvl v turns) := by
  intro s first last els h hfit
  cases m with
  | prefixSock =>
    have hsub : [v.curr, v.iol] ⊆ v.own [] := by simp [Locals.own]
    exact (prefixMrecvl_leaves (h.mono hsub) last).mono (List.Subset.trans hsub hall)
  | suffixSock =>
    have hsub : [v.curr, v.chr] ⊆ v.own [] := by simp [Locals.own]
    exact (suffixMrecvl_leaves v turns first last s).mono (List.Subset.trans hsub hall)
  | wsSock =>
    have hsub : v.wsOwn ⊆ v.own [] := by simp [Locals.own, Vars.wsOwn]
    exact wsMrecvl_leaves turns (List.Subset.trans hsub hall) h hfit

/-- Each TERM socket hands the list on as it is. -/
theorem topMsendl_leaves (m : Msock) (random : Except Errno (List UInt8))
    (ts : List (TermLocals n)) (h : Lent (v.own []) s.iol first els)
    (hlast : els.getLast? = some last) :
    Leaves (v.own []) (topMsendl v random m ts first last) s := by
  induction ts with
  | nil => exact m.msendl_leaves random h hlast
  | cons t ts ih => exact msendl_leaves fun _ => ih

/-- **Nested layers.** Each TERM socket has elements of its own, which are apart from those of the
sockets below it. -/
theorem topMrecvl_receives (m : Msock) (turns : ℕ) {ts : List (TermLocals n)}
    {all : List (IolPtr n)} (hnd : (0 :: v.own ts).Nodup) (hall : v.own ts ⊆ all) :
    Receives (v.own ts) all (topMrecvl v turns m ts) := by
  induction ts with
  | nil => exact m.mrecvl_receives turns hall
  | cons t ts ih =>
    refine termMrecvl_receives hnd hall ts.length (ih ?_ ?_)
    · obtain ⟨h0, hnd⟩ := List.nodup_cons.mp hnd
      have hrest := (List.nodup_cons.mp (List.nodup_cons.mp hnd).2).2
      refine List.nodup_cons.mpr ⟨fun hmem => h0 ?_, hrest⟩
      exact List.mem_cons_of_mem _ (List.mem_cons_of_mem _ hmem)
    · exact fun x hx => hall (List.mem_cons_of_mem _ (List.mem_cons_of_mem _ hx))

/-! ## The calls of the user -/

theorem run_leaves {x : On n α} (h : Leaves own x s) : Leaves own (run x) s :=
  h.andThen fun _ _ => Spares.ret ()

/-- The end of a list that is not empty. -/
theorem Given.getLast (h : Given v s.iol first last els) (hfirst : first ≠ 0) :
    els.getLast? = some last := by
  obtain ⟨h0, -⟩ | ⟨-, -, hlast⟩ := h.valid
  · exact absurd h0 hfirst
  · exact hlast

theorem Given.fit (h : Given v s.iol first last els) : Fit own last els := by
  obtain ⟨-, -, rfl⟩ | ⟨-, -, hlast⟩ := h.valid
  · exact .inr (List.nil_subset _)
  · exact .inl hlast

/-- **Each call** changes the elements of the functions themselves, and no others. -/
theorem call_leaves (turns : ℕ) (random : Except Errno (List UInt8)) (op : Op)
    (h : Given v s.iol first last els) :
    Leaves (v.own v.terms) (op.call v turns random first last) s := by
  have hown := own_subset v.toLocals v.terms
  have hl := h.lent
  cases op with
  | bsendl => exact (bsendl_leaves h.valid h.reserved).mono (List.nil_subset _)
  | brecvl =>
    have hsub : [v.curr] ⊆ v.own v.terms := fun x hx =>
      hown (List.mem_cons.mpr (.inl (by simpa using hx)))
    exact (brecvl_leaves (hl.mono hsub) last).mono hsub
  | msendl m =>
    refine msendl_leaves fun hfirst => ?_
    exact (topMsendl_leaves m random v.terms (hl.mono hown) (h.getLast hfirst)).mono hown
  | mrecvl m =>
    refine run_leaves (mrecvl_leaves ?_)
    exact topMrecvl_receives m turns v.apart (List.Subset.refl _) s first last els hl h.fit

/-- **The caller's iolists are borrowed.** Whatever the call is, whatever state it is called in and
however it returns, each element of the list is what it was. -/
theorem borrowed (turns : ℕ) (random : Except Errno (List UInt8)) (op : Op)
    (h : Given v s.iol first last els) {o : Except Errno Unit}
    (hrun : op.call v turns random first last s = .ok (o, s')) :
    ∀ x ∈ els, s'.iol x = s.iol x :=
  fun x hx => call_leaves turns random op h o s' hrun x (h.apart x hx)

/-- The local elements are the first seven, and the arrays are behind the buffers of the user. -/
def sevenVars : Vars 9 where
  curr := 1
  iol := 2
  hdr := 3
  chr := 4
  msg := 5
  szbuf := 200
  suffix := 210
  chrbuf := 220
  hdr1 := 230
  hdr2 := 240
  mask := 250
  wsbuf := 260
  byte := 270
  status := 280
  msgbuf := 290
  terms := [⟨6, 7, 300⟩]
  apart := by decide

/-- A message of three bytes is to be received into two elements of two bytes and of four. -/
def threeBytes : Stack 9 where
  iol it := if it = 8 then ⟨100, 2, 9, 0⟩ else if it = 9 then ⟨110, 4, 0, 0⟩ else ⟨0, 0, 0, 0⟩
  mem _ := 0
  rx := none
  alloc := true
  pieces := [.data [3, 65, 66], .again, .data [67]]
  iovMax := Prefix.Memory.linuxIovMax
  sends := []
  rbusy := false
  sbusy := false
  indone := false
  outdone := false
  inerr := false
  outerr := false
  prefixSock := Prefix.Memory.oneByteHeader
  suffixSock := ⟨Suffix.crlf, false, false⟩
  termSocks _ := ⟨[0], false, false⟩
  wsSock := Ws.WsSock.attach true true 0 []

theorem given_threeBytes : Given sevenVars threeBytes.iol 8 9 [8, 9] where
  valid := .inr ⟨⟨rfl, rfl, rfl⟩, by decide, rfl⟩
  reserved := by decide
  apart := by decide

/-- The terminator is compared with the first byte. The rest of the list is cut off in the second
element, which is marked while it is checked. -/
theorem borrowed_threeBytes : ∃ s',
    (Op.mrecvl .prefixSock).call sevenVars 0 (.ok []) 8 9 threeBytes = .ok (.ok (), s') ∧
      ∀ x ∈ [8, 9], s'.iol x = threeBytes.iol x := by
  have hret : ((Op.mrecvl .prefixSock).call sevenVars 0 (.ok []) 8 9 threeBytes).toOption.bind
      (fun r => r.1.toOption) = some () := by decide +kernel
  cases hrun : (Op.mrecvl .prefixSock).call sevenVars 0 (.ok []) 8 9 threeBytes with
  | error h =>
    rw [hrun] at hret
    cases hret
  | ok r =>
    obtain ⟨o, s'⟩ := r
    cases o with
    | error e =>
      rw [hrun] at hret
      cases hret
    | ok _ => exact ⟨s', rfl, borrowed 0 (.ok []) (.mrecvl .prefixSock) given_threeBytes hrun⟩

end Libdill.Borrow
