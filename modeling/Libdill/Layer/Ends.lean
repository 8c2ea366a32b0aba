import Libdill.Layer.Ownership

/-!
# How detaching ends

What the detach functions do to a stack: either the socket at its top is gone and the rest of the
stack is handed over, or the whole stack is closed. `dill_ws_detach` alone leaves the stack as it is
when it fails.
-/

namespace Libdill.Layer

open Foundations Libdill.Sock

variable {env : List Ans} {ks : List Kind} {ob : Obj} {c : ℕ} {s : ℤ} {kind : Kind}

/-- The object at the top of a stack and what is under it. -/
structure Layered (kind : Kind) (ks : List Kind) (s : ℤ) (ob : Obj) (c : ℕ) (o : Obj) (u : ℤ)
    (t : Table) : Prop where
  holds : Holds (kind :: ks) s ob c t
  eq : t.live s = some o
  kind : o.kind = kind
  under : o.under = some u

theorem Triple.layered {α : Type} {x : M α} {R : α → World → Prop}
    (h : ∀ o u, Triple (Met env (Layered kind ks s ob c o u)) x R) :
    Triple (Met env (Holds (kind :: ks) s ob c)) x R := by
  intro w r w' hm hr
  obtain ⟨o, u, he, hk, hu, -⟩ := hm.holds.layers
  exact h o u w r w' ⟨hm.accepted, hm.holds, he, hk, hu⟩ hr

variable {o : Obj} {u : ℤ}

/-- A socket is asked for its own type. -/
theorem hquery_own : Triple (Met env (Layered kind ks s ob c o u)) (hquery s (.sock kind))
    fun r w => r = .ok () ∧ Met env (Layered kind ks s ob c o u) w := by
  refine Triple.given (p := o.kind = kind) (fun w hw => hw.holds.kind) fun hk => ?_
  refine (hquery_spec fun t ht => ht.eq).mono (fun _ => id) fun r w hr => ⟨?_, hr.2⟩
  have hq : o.kind.query (.sock kind) = true := by
    rw [hk]
    unfold Kind.query
    exact beq_self_eq_true kind
  rw [hr.1, hq]
  rfl

theorem Layered.fail {err : Errno} : Triple (Met env (Layered kind ks s ob c o u)) (fail s err)
    fun r => Met env (Ended ks ob c r) := by
  refine fail_spec.mono (fun w hw => hw.mono fun h => h.holds) ?_
  rintro r w ⟨rfl, hw⟩
  exact hw

theorem Layered.closeFail {err : Errno} :
    Triple (Met env (Layered kind ks s ob c o u)) (closeFail s err)
      fun r => Met env (Ended ks ob c r) := by
  refine closeFail_spec.mono (fun w hw => hw.mono fun h => h.holds) ?_
  rintro r w ⟨rfl, hw⟩
  exact hw

/-- The end of the detach functions. -/
theorem Layered.handOver : Triple (Met env (Layered kind ks s ob c o u))
    (do
      let u ← Obj.u o
      free s o
      return .ok u)
    fun r => Met env (Ended ks ob c r) := by
  refine Triple.given (p := o.under = some u) (fun w hw => hw.holds.under) fun hu => ?_
  refine (under_spec hu).bind fun u' => Triple.given (fun _ hw => hw.1) ?_
  rintro rfl
  have hfree : Triple (Met env (Layered kind ks s ob c o u')) (free s o)
      fun _ => Met env (Holds ks u' ob c) := free_spec fun t ht => ⟨ht.holds, ht.eq, ht.under⟩
  refine (hfree.mono (fun w hw => hw.2) fun _ _ => id).bind fun _ => .pure fun w hw => ?_
  exact hw

/-- `dill_prefix_detach` and `dill_suffix_detach`. -/
theorem framedDetach_spec : Triple (Met env (Holds (kind :: ks) s ob c)) (framedDetach kind s)
    fun r => Met env (Ended ks ob c r) := by
  apply Triple.layered
  intro o u
  refine hquery_own.bind fun r => Triple.given (fun _ hw => hw.1) ?_
  rintro rfl
  refine ((self_spec fun t ht => ht.eq).mono (fun w hw => hw.2) fun _ _ => id).bind fun o' =>
    Triple.given (fun _ hw => hw.1) ?_
  rintro rfl
  refine (getFlags_spec.mono (fun w hw => hw.2) fun _ _ => id).bind fun fl => ?_
  split
  · exact Layered.fail
  · exact Layered.handOver

theorem drain_spec {Q : Table → Prop} : Triple (Met env Q) drain fun _ => Met env Q := by
  have hn : ∀ n, Triple (Met env Q) (drainN n) fun _ => Met env Q := by
    intro n
    induction n with
    | zero => exact stop_spec
    | succ n ih =>
      refine recv_spec.bind fun r => ?_
      split
      · exact ih
      · exact .pure fun _ => id
      · exact .pure fun _ => id
  exact fun w r w' hm hr => hn _ w r w' hm hr

theorem termDone_spec : Triple (Met env (Layered .termSock ks s ob c o u)) (termDone s)
    fun _ => Met env (Layered .termSock ks s ob c o u) := by
  refine hquery_own.bind fun r => Triple.given (fun _ hw => hw.1) ?_
  rintro rfl
  refine ((self_spec fun t ht => ht.eq).mono (fun w hw => hw.2) fun _ _ => id).bind fun o' =>
    Triple.given (fun _ hw => hw.1) ?_
  rintro rfl
  refine (getFlags_spec.mono (fun w hw => hw.2) fun _ _ => id).bind fun fl => ?_
  split
  · exact .pure fun _ => id
  · refine call_spec.bind fun r => ?_
    split
    · exact .pure fun _ => id
    · exact setFlags_spec.bind fun _ => .pure fun _ => id

theorem unlessDone_spec {P : World → Prop} {done : Bool} {x : M (Except Errno Unit)}
    (hx : Triple P x fun _ => P) : Triple P (unlessDone done x) fun _ => P := by
  unfold unlessDone
  split
  · exact .pure fun _ => id
  · exact hx

/-- `dill_term_detach`. -/
theorem termDetach_spec : Triple (Met env (Holds (.termSock :: ks) s ob c)) (termDetach s)
    fun r => Met env (Ended ks ob c r) := by
  apply Triple.layered
  intro o u
  refine hquery_own.bind fun r => Triple.given (fun _ hw => hw.1) ?_
  rintro rfl
  refine ((self_spec fun t ht => ht.eq).mono (fun w hw => hw.2) fun _ _ => id).bind fun o' =>
    Triple.given (fun _ hw => hw.1) ?_
  rintro rfl
  refine (getFlags_spec.mono (fun w hw => hw.2) fun _ _ => id).bind fun fl => ?_
  refine (unlessDone_spec termDone_spec).bind fun r => ?_
  split
  · exact Layered.closeFail
  · refine getFlags_spec.bind fun fl => (unlessDone_spec drain_spec).bind fun r => ?_
    split
    · exact Layered.closeFail
    · exact Layered.handOver

/-- `dill_http_detach`. -/
theorem httpDetach_spec :
    Triple (Met env (Holds (.httpSock :: .termSock :: .suffixSock :: ks) s ob c)) (httpDetach s)
      fun r => Met env (Ended ks ob c r) := by
  apply Triple.layered
  intro o u
  refine hquery_own.bind fun r => Triple.given (fun _ hw => hw.1) ?_
  rintro rfl
  refine ((self_spec fun t ht => ht.eq).mono (fun w hw => hw.2) fun _ _ => id).bind fun o' =>
    Triple.given (fun _ hw => hw.1) ?_
  rintro rfl
  refine Triple.given (p := o'.under = some u) (fun w hw => hw.2.holds.under) fun hu => ?_
  refine (under_spec hu).bind fun u' => Triple.given (fun _ hw => hw.1) ?_
  rintro rfl
  have hfree : Triple (Met env (Layered .httpSock (.termSock :: .suffixSock :: ks) s ob c o' u'))
      (free s o') fun _ => Met env (Holds (.termSock :: .suffixSock :: ks) u' ob c) :=
    free_spec fun t ht => ⟨ht.holds, ht.eq, ht.under⟩
  refine (hfree.mono (fun w hw => hw.2.2) fun _ _ => id).bind fun _ => ?_
  refine termDetach_spec.bind fun r => ?_
  split
  · exact .pure fun _ => id
  · exact framedDetach_spec

/-! ## The terminal handshake of WebSockets -/

/-- The answers are messages of the peer and then the end. -/
def Drains : List Ans → Prop
  | [] => False
  | a :: rest =>
    match a.reply with
    | .recv (.ok _) => Drains rest
    | .recv (.error .EPIPE) => rest = []
    | _ => False

/-- The terminal handshake completes: the close frame has been sent or can be, and what comes in
ends. -/
def Completes (w : World) (o : Obj) (valid : Bool) : Prop :=
  if (w.flags o.id).outdone then Drains w.env
  else valid = true ∧ ∃ a rest, w.env = a :: rest ∧ a.reply = .call (.ok ()) ∧ Drains rest

variable {w w' : World}

theorem hquery_live {ty : Ty} (hl : w.live s = some o) :
    hquery s ty w = .ok (if o.kind.query ty then .ok () else .error .ENOTSUP, w) := by
  unfold hquery
  show (entry s w >>= _) = _
  rw [entry_live hl]
  rfl

theorem self_live (hl : w.live s = some o) : self s w = .ok (o, w) := by
  unfold self
  show (entry s w >>= _) = _
  rw [entry_live hl]
  rfl

theorem drains_cons {a : Ans} {rest : List Ans} {x : Except Errno ℕ} (ha : a.reply = .recv x) :
    Drains (a :: rest) ↔
      (∃ n, x = .ok n) ∧ Drains rest ∨ x = .error .EPIPE ∧ rest = [] := by
  rw [Drains, ha]
  cases x with
  | ok n => exact ⟨fun hd => .inl ⟨⟨n, rfl⟩, hd⟩, fun h => h.elim (·.2) nofun⟩
  | error e =>
    by_cases he : e = .EPIPE
    · subst he
      exact ⟨fun hd => .inr ⟨rfl, hd⟩, fun h => h.elim nofun (·.2)⟩
    · constructor
      · intro hd
        split at hd
        · rename_i heq
          cases heq
        · rename_i heq
          cases heq
          exact absurd rfl he
        · exact hd.elim
      · rintro (⟨⟨n, heq⟩, -⟩ | ⟨heq, -⟩)
        · cases heq
        · exact absurd (Except.error.inj heq) he

/-- The loop ends well exactly when the answers drain. -/
theorem drainN_run {n : ℕ} {r : Except Errno Unit} (hr : drainN n w = .ok (r, w'))
    (henv : w'.env = []) : Drains w.env ↔ r = .ok () := by
  induction n generalizing w with
  | zero => cases hr
  | succ n ih =>
    obtain ⟨x, w₁, hx, hr⟩ := bind_ok hr
    obtain ⟨a, rest, hw, hrecv, rfl⟩ := reply_ok hx
    have hreply : a.reply = .recv x := by
      cases ha : a.reply with
      | recv y =>
        rw [ha] at hrecv
        cases hrecv
        rfl
      | _ =>
        rw [ha] at hrecv
        cases hrecv
    rw [hw, drains_cons hreply]
    split at hr
    · rename_i n'
      have hdr := ih hr
      refine ⟨fun hd => hdr.mp ?_, fun hok => .inl ⟨⟨n', rfl⟩, hdr.mpr hok⟩⟩
      rcases hd with ⟨-, hd⟩ | ⟨heq, -⟩
      · exact hd
      · cases heq
    · cases hr
      exact iff_of_true (.inr ⟨rfl, henv⟩) rfl
    · rename_i err hne
      cases hr
      refine iff_of_false (fun hd => ?_) nofun
      rcases hd with ⟨⟨n', heq⟩, -⟩ | ⟨heq, -⟩
      · cases heq
      · cases heq
        exact hne rfl

/-- `dill_ws_done` on a socket on which it has not been called. -/
theorem wsDone_run {valid : Bool} {r : Except Errno Unit} (hl : w.live s = some o)
    (hk : o.kind = .wsSock) (hout : (w.flags o.id).outdone = false)
    (hr : wsDone s valid w = .ok (r, w')) :
    (r = .ok () ∧ valid = true ∧ ∃ a, w.env = a :: w'.env ∧ a.reply = .call (.ok ())) ∨
      (∃ err, r = .error err) ∧
        ∀ a rest, w.env = a :: rest → a.reply = .call (.ok ()) → valid = false := by
  unfold wsDone at hr
  cases valid with
  | false =>
    cases hr
    exact .inr ⟨⟨_, rfl⟩, fun _ _ _ _ => rfl⟩
  | true =>
    have hq : hquery s (.sock .wsSock) w = _ := hquery_live hl
    rw [hk] at hq
    obtain ⟨x, w₁, hx, hr⟩ := bind_ok hr
    rw [hq] at hx
    cases hx
    obtain ⟨x, w₁, hx, hr⟩ := bind_ok hr
    rw [self_live hl] at hx
    cases hx
    obtain ⟨fl, w₁, hfl, hr⟩ := bind_ok hr
    cases hfl
    rw [hout] at hr
    obtain ⟨x, w₁, hx, hr⟩ := bind_ok hr
    obtain ⟨a, rest, hw, hcall, rfl⟩ := reply_ok hx
    have hreply : a.reply = .call x := by
      cases ha : a.reply with
      | call y =>
        rw [ha] at hcall
        cases hcall
        rfl
      | _ =>
        rw [ha] at hcall
        cases hcall
    cases x with
    | error err =>
      cases hr
      refine .inr ⟨⟨_, rfl⟩, fun a' rest' hw' hr' => ?_⟩
      rw [hw] at hw'
      cases hw'
      rw [hreply] at hr'
      cases hr'
    | ok u =>
      cases hr
      exact .inl ⟨rfl, rfl, a, hw, hreply⟩

theorem wsDone_spec {valid : Bool} : Triple (Met env (Layered .wsSock ks s ob c o u))
    (wsDone s valid) fun _ => Met env (Layered .wsSock ks s ob c o u) := by
  unfold wsDone
  split
  · exact .pure fun _ => id
  · refine hquery_own.bind fun r => Triple.given (fun _ hw => hw.1) ?_
    rintro rfl
    refine ((self_spec fun t ht => ht.eq).mono (fun w hw => hw.2) fun _ _ => id).bind fun o' =>
      Triple.given (fun _ hw => hw.1) ?_
    rintro rfl
    refine (getFlags_spec.mono (fun w hw => hw.2) fun _ _ => id).bind fun fl => ?_
    split
    · exact .pure fun _ => id
    · refine call_spec.bind fun r => ?_
      split
      · exact .pure fun _ => id
      · exact setFlags_spec.bind fun _ => .pure fun _ => id

/-- The stack is handed over, or it stays as it is. -/
def Stays (kind : Kind) (ks : List Kind) (s : ℤ) (ob : Obj) (c : ℕ) (r : Except Errno ℤ)
    (t : Table) : Prop :=
  match r with
  | .ok u => Holds ks u ob c t
  | .error _ => Holds (kind :: ks) s ob c t

/-- `dill_ws_detach` closes nothing. -/
theorem wsDetach_spec {valid : Bool} :
    Triple (Met env (Holds (.wsSock :: ks) s ob c)) (wsDetach s valid)
      fun r => Met env (Stays .wsSock ks s ob c r) := by
  apply Triple.layered
  intro o u
  have herr : ∀ err, Triple (Met env (Layered .wsSock ks s ob c o u))
      (pure (.error err) : M (Except Errno ℤ)) fun r => Met env (Stays .wsSock ks s ob c r) :=
    fun err => .pure fun w hw => hw.mono fun h => h.holds
  refine hquery_own.bind fun r => Triple.given (fun _ hw => hw.1) ?_
  rintro rfl
  refine ((self_spec fun t ht => ht.eq).mono (fun w hw => hw.2) fun _ _ => id).bind fun o' =>
    Triple.given (fun _ hw => hw.1) ?_
  rintro rfl
  refine (getFlags_spec.mono (fun w hw => hw.2) fun _ _ => id).bind fun fl =>
    (unlessDone_spec wsDone_spec).bind fun r => ?_
  split
  · exact herr _
  · refine drain_spec.bind fun r => ?_
    split
    · exact herr _
    · refine Triple.given (p := o'.under = some u) (fun w hw => hw.holds.under) fun hu => ?_
      refine (under_spec hu).bind fun u' => Triple.given (fun _ hw => hw.1) ?_
      rintro rfl
      have hfree : Triple (Met env (Layered .wsSock ks s ob c o' u')) (free s o')
          fun _ => Met env (Holds ks u' ob c) := free_spec fun t ht => ⟨ht.holds, ht.eq, ht.under⟩
      exact (hfree.mono (fun w hw => hw.2) fun _ _ => id).bind fun _ => .pure fun w hw => hw

/-- `dill_ws_detach` succeeds exactly when the handshake completes. -/
theorem wsDetach_run {valid : Bool} {r : Except Errno ℤ}
    (hl : Layered .wsSock ks s ob c o u w.toTable) (hr : wsDetach s valid w = .ok (r, w'))
    (henv : w'.env = []) : Completes w o valid ↔ ∃ u, r = .ok u := by
  unfold wsDetach at hr
  have hq : hquery s (.sock .wsSock) w = _ := hquery_live hl.eq
  rw [hl.kind] at hq
  obtain ⟨x, w₁, hx, hr⟩ := bind_ok hr
  rw [hq] at hx
  cases hx
  obtain ⟨x, w₁, hx, hr⟩ := bind_ok hr
  rw [self_live hl.eq] at hx
  cases hx
  obtain ⟨fl, w₁, hfl, hr⟩ := bind_ok hr
  cases hfl
  obtain ⟨d, w₁, hd, hr⟩ := bind_ok hr
  have hfirst : d = .ok () ∧ (Completes w o valid ↔ Drains w₁.env) ∨
      (∃ err, d = .error err) ∧ ¬ Completes w o valid := by
    unfold Completes
    unfold unlessDone at hd
    cases hout : (w.flags o.id).outdone with
    | true =>
      rw [hout] at hd
      cases hd
      exact .inl ⟨rfl, Iff.rfl⟩
    | false =>
      rw [hout] at hd
      rw [if_neg (by decide)]
      rcases wsDone_run hl.eq hl.kind hout hd with ⟨hok, hv, a, hw, ha⟩ | ⟨herr, hno⟩
      · refine .inl ⟨hok, fun hc => ?_, fun hdr => ⟨hv, a, _, hw, ha, hdr⟩⟩
        obtain ⟨-, a', rest, hw', -, hdr⟩ := hc
        rw [hw] at hw'
        cases hw'
        exact hdr
      · refine .inr ⟨herr, fun hc => ?_⟩
        obtain ⟨hv, a, rest, hw, ha, -⟩ := hc
        rw [hno a rest hw ha] at hv
        cases hv
  rcases hfirst with ⟨rfl, hcomp⟩ | ⟨⟨err, rfl⟩, hno⟩
  · obtain ⟨x, w₂, hx, hr⟩ := bind_ok hr
    cases x with
    | error err =>
      cases hr
      have hdr := drainN_run hx henv
      refine ⟨fun hc => ?_, nofun⟩
      cases hdr.mp (hcomp.mp hc)
    | ok y =>
      obtain ⟨u', w₃, hu', hr₁⟩ := bind_ok hr
      have hw₃ : w₃ = w₂ := by
        unfold Obj.u at hu'
        rw [hl.under] at hu'
        cases hu'
        rfl
      obtain ⟨z, w₄, hz, hr₂⟩ := bind_ok hr₁
      have hend : w₂.env = [] := by
        rw [← hw₃]
        cases hr₂
        cases hz
        exact henv
      have hdr := drainN_run hx hend
      refine ⟨fun _ => ⟨u', ?_⟩, fun _ => hcomp.mpr (hdr.mpr rfl)⟩
      cases hr₂
      rfl
  · cases hr
    exact ⟨fun hc => absurd hc hno, nofun⟩

end Libdill.Layer
