import Libdill.Ipc.Conn

/-!
# One receive at a time

What holds of the receives on a UNIX connection in every run in which no receive begins while a
call of `ipc_recvfd` is in progress that the flags of the connection do not show, and in which
`recvmsg` does not fail: then there is one receive at a time, and nothing aborts.

* `Phase`: where the receive in progress is, if there is one.
* `Closed`: the connection after a receive that has failed with an error of the connection.
-/

namespace Libdill.Ipc

open Foundations Libdill.Sock Libdill.Fd Libdill.Tcp

/-- The calls of `ipc_recvfd` in progress: those that wait and those whose wait has ended. -/
def IpcConn.waiters (c : IpcConn) : List Waiter := c.fdin.toList ++ c.woken.map Prod.fst

/-- The calls of `ipc_recvfd` among the waiters. -/
def Waiter.isRecvfd : Waiter → Bool
  | .recvfd _ => true
  | .brecvl => false

/-- The receives in progress: a call of `brecvl` is in progress when the connection is busy. -/
def IpcConn.receives (c : IpcConn) : List Waiter :=
  (if c.rbusy then [.brecvl] else []) ++ c.waiters.filter Waiter.isRecvfd

/-- No `brecvl` is called during a call of `ipc_recvfd`, no `ipc_recvfd` between the end of the wait
of another one and its system call, and the `recvmsg` of `ipc_recvfd` does not fail. -/
def Met (c : IpcConn) : Ev → Prop
  | .brecvl _ => c.waiters.all fun w => !w.isRecvfd
  | .recvfd _ _ => c.woken.all fun w => !w.1.isRecvfd
  | .recvmsg (.fail _) => False
  | _ => True

instance (c : IpcConn) (ev : Ev) : Decidable (Met c ev) := by
  unfold Met
  split <;> infer_instance

/-! ## Where the receive is -/

/-- No flag of the receiving direction is set. -/
structure Open (c : IpcConn) : Prop where
  indone : c.indone = false
  inerr : c.inerr = false

/-- The receive in progress. -/
inductive Phase (c : IpcConn) : Prop
  | idle : c.rbusy = false → c.rjob = none → c.fdin = none → c.woken = [] → Phase c
  | syscall {j : Job} : c.rbusy = true → Open c → c.rjob = some (j, false) → c.fdin = none →
      c.woken = [] → Phase c
  | wait {j : Job} : c.rbusy = true → Open c → c.rjob = some (j, true) → c.fdin = some .brecvl →
      c.woken = [] → Phase c
  | woken {j : Job} {r : Except Errno Unit} : c.rbusy = true → Open c → c.rjob = some (j, true) →
      c.fdin = none → c.woken = [(.brecvl, r)] → Phase c
  | fdWait {cr : ℕ} : c.rbusy = false → Open c → c.rjob = none → c.fdin = some (.recvfd cr) →
      c.woken = [] → Phase c
  | fdWoken {cr : ℕ} {r : Except Errno Unit} : c.rbusy = false → Open c → c.rjob = none →
      c.fdin = none → c.woken = [(.recvfd cr, r)] → (r = .ok () → c.kernel.readable = true) →
      (∀ e, r = .error e → ofConn e = false) → Phase c

theorem phase_init : Phase .init := .idle rfl rfl rfl rfl

variable {c c' : IpcConn} {ev : Ev} {o : Out}

/-- There is one receive at a time. -/
theorem Phase.single (h : Phase c) : c.receives.length ≤ 1 := by
  unfold IpcConn.receives IpcConn.waiters
  cases h with
  | idle hb _ hf hw => rw [hb, hf, hw]; decide
  | syscall hb _ _ hf hw => rw [hb, hf, hw]; decide
  | wait hb _ _ hf hw => rw [hb, hf, hw]; exact le_refl _
  | woken hb _ _ hf hw => rw [hb, hf, hw]; exact le_refl _
  | fdWait hb _ _ hf hw => rw [hb, hf, hw]; exact le_refl _
  | fdWoken hb _ _ hf hw => rw [hb, hf, hw]; exact le_refl _

/-- How a stretch of a call of `brecvl` ends, on a connection that it has made busy. -/
inductive Settled (s : RxSide) : RxSide × RxOut → Prop
  | ok {s' : RxSide} {bs : List UInt8} : s'.rbusy = false → s'.rjob = none →
      Settled s (s', some (.ok bs))
  | error {s' : RxSide} {e : Errno} : s'.rbusy = false → s'.rjob = none →
      (s'.indone = true ∨ s'.inerr = true) → Settled s (s', some (.error e))
  | goesOn {s' : RxSide} {j : Job} {b : Bool} : s'.rbusy = s.rbusy → s'.indone = s.indone →
      s'.inerr = s.inerr → s'.rjob = some (j, b) → Settled s (s', none)

/-- A call of `brecvl` that fails sets a flag. -/
structure Failed (s : RxSide) (o : RxOut) (e : Errno) : Prop where
  free : s.rbusy = false
  rjob : s.rjob = none
  flags : s.indone = true ∨ s.inerr = true
  result : o = some (.error e)

theorem failed_spec (s : RxSide) (e : Errno) : Failed (s.failed e).1 (s.failed e).2 e := by
  unfold RxSide.failed
  split
  · exact ⟨rfl, rfl, .inl rfl, rfl⟩
  · exact ⟨rfl, rfl, .inr rfl, rfl⟩

theorem settled_settle (s : RxSide) (r : List UInt8 × Option RxBuf × Outcome) :
    Settled s (s.settle r) := by
  obtain ⟨got, rx, oc⟩ := r
  cases oc with
  | done => exact .ok rfl rfl
  | failed e =>
    have hf := failed_spec { s with rxbuf := rx, rgot := s.rgot ++ got } e
    show Settled s (RxSide.failed { s with rxbuf := rx, rgot := s.rgot ++ got } e)
    rw [← Prod.mk.eta (p := RxSide.failed _ e), hf.result]
    exact .error hf.free hf.rjob hf.flags
  | syscall j => exact .goesOn rfl rfl rfl rfl
  | wait j => exact .goesOn rfl rfl rfl rfl

theorem segment_no_wait (rest : List ℕ) (j : Job) : Fd.segment rest ≠ .wait j := by
  unfold Fd.segment
  simp only
  split <;> exact nofun

theorem start_no_wait (rx : Option RxBuf) (first : List ℕ) (j : Job) :
    (start rx first).2.2 ≠ .wait j := by
  unfold start
  cases rx with
  | none => exact segment_no_wait first j
  | some rx =>
    simp only
    split
    · exact nofun
    · split
      · exact segment_no_wait _ j
      · exact nofun

/-- A call does a system call before it waits. -/
theorem settle_start (s : RxSide) (first : List ℕ) (j : Job) :
    (s.settle (start s.rxbuf first)).1.rjob ≠ some (j, true) := by
  have hnw := start_no_wait s.rxbuf first
  generalize start s.rxbuf first = r at hnw
  obtain ⟨got, rx, oc⟩ := r
  cases oc with
  | done => exact nofun
  | failed e =>
    unfold RxSide.settle RxSide.failed
    simp only
    split <;> exact nofun
  | syscall j' => exact nofun
  | wait j' => exact absurd rfl (hnw j')

/-! ## One event -/

/-- The receive has failed with an error of the connection; for `brecvl` that is any error but
`EBUSY`. -/
def Out.Broken : Out → Prop
  | .brecvl (some (.error e)) => e ≠ .EBUSY
  | .recvfd _ (some (.error e)) => ofConn e = true
  | _ => False

/-- Nothing is received, and the flags of the connection say so. -/
structure Closed (c : IpcConn) : Prop where
  free : c.rbusy = false
  rjob : c.rjob = none
  fdin : c.fdin = none
  woken : c.woken = []
  flags : c.indone = true ∨ c.inerr = true

/-- What an event does that meets the condition. -/
structure Kept (c : IpcConn) (o : Out) : Prop where
  phase : Phase c
  alive : c.aborted = false
  noAbort : o ≠ .abort
  closed : o.Broken → Closed c

theorem Phase.congr (h : Phase c) (hrx : c'.toRxSide = c.toRxSide) (hf : c'.fdin = c.fdin)
    (hw : c'.woken = c.woken) (hk : c.kernel.readable = true → c'.kernel.readable = true) :
    Phase c' := by
  have ho : Open c → Open c' := fun ho => ⟨hrx ▸ ho.indone, hrx ▸ ho.inerr⟩
  cases h with
  | idle hb hj hfd hwo => exact .idle (hrx ▸ hb) (hrx ▸ hj) (hf ▸ hfd) (hw ▸ hwo)
  | syscall hb hop hj hfd hwo =>
    exact .syscall (hrx ▸ hb) (ho hop) (hrx ▸ hj) (hf ▸ hfd) (hw ▸ hwo)
  | wait hb hop hj hfd hwo => exact .wait (hrx ▸ hb) (ho hop) (hrx ▸ hj) (hf ▸ hfd) (hw ▸ hwo)
  | woken hb hop hj hfd hwo => exact .woken (hrx ▸ hb) (ho hop) (hrx ▸ hj) (hf ▸ hfd) (hw ▸ hwo)
  | fdWait hb hop hj hfd hwo =>
    exact .fdWait (hrx ▸ hb) (ho hop) (hrx ▸ hj) (hf ▸ hfd) (hw ▸ hwo)
  | fdWoken hb hop hj hfd hwo hok herr =>
    exact .fdWoken (hrx ▸ hb) (ho hop) (hrx ▸ hj) (hf ▸ hfd) (hw ▸ hwo) (fun hr => hk (hok hr))
      herr

/-- A connection that refuses calls has nothing in progress. -/
theorem Phase.closed (h : Phase c) (hb : c.rbusy = false)
    (hflag : c.indone = true ∨ c.inerr = true) : Closed c := by
  have hnot : ¬ Open c := by
    rintro ⟨hin, hie⟩
    rw [hin, hie] at hflag
    rcases hflag with hf | hf <;> cases hf
  cases h with
  | idle _ hj hf hw => exact ⟨hb, hj, hf, hw, hflag⟩
  | syscall _ hop _ _ _ => exact absurd hop hnot
  | wait _ hop _ _ _ => exact absurd hop hnot
  | woken _ hop _ _ _ => exact absurd hop hnot
  | fdWait _ hop _ _ _ => exact absurd hop hnot
  | fdWoken _ hop _ _ _ _ _ => exact absurd hop hnot

/-- A call that is refused leaves everything as it is. -/
theorem Phase.refused (h : Phase c) (ha : c.aborted = false) (hn : o ≠ .abort)
    (ho : o.Broken → c.rbusy = false ∧ (c.indone = true ∨ c.inerr = true)) : Kept c o :=
  ⟨h, ha, hn, fun hbr => h.closed (ho hbr).1 (ho hbr).2⟩

theorem Phase.brecvl (h : Phase c) (ha : c.aborted = false) {first : List ℕ}
    (hm : Met c (.brecvl first)) {s : RxSide} {r : RxOut}
    (hs : c.toRxSide.step (.call first) = some (s, r)) :
    Kept { c with toRxSide := s } (.brecvl r) := by
  cases rxStep hs with
  | busy hb => exact h.refused ha nofun fun hbr => absurd rfl hbr
  | indone hb hin => exact h.refused ha nofun fun _ => ⟨hb, .inl hin⟩
  | inerr hb hin hie => exact h.refused ha nofun fun _ => ⟨hb, .inr hie⟩
  | start hb hin hie hset =>
    have hidle : c.fdin = none ∧ c.woken = [] := by
      unfold Met IpcConn.waiters at hm
      cases h with
      | idle _ _ hf hw => exact ⟨hf, hw⟩
      | syscall hb' _ _ _ _ => rw [hb] at hb'; cases hb'
      | wait hb' _ _ _ _ => rw [hb] at hb'; cases hb'
      | woken hb' _ _ _ _ => rw [hb] at hb'; cases hb'
      | fdWait _ _ _ hf hw => rw [hf, hw] at hm; exact absurd hm Bool.false_ne_true
      | fdWoken _ _ _ hf hw _ _ => rw [hf, hw] at hm; exact absurd hm Bool.false_ne_true
    have hsettled := settled_settle { c.toRxSide with rbusy := true } (start c.rxbuf first)
    have hno := settle_start { c.toRxSide with rbusy := true } first
    rw [hset] at hsettled hno
    cases hsettled with
    | ok hb' hj => exact ⟨.idle hb' hj hidle.1 hidle.2, ha, nofun, nofun⟩
    | error hb' hj hfl =>
      exact ⟨.idle hb' hj hidle.1 hidle.2, ha, nofun, fun _ => ⟨hb', hj, hidle.1, hidle.2, hfl⟩⟩
    | @goesOn _ j b hb' hin' hie' hj =>
      have hop : Open { c with toRxSide := s } := ⟨hin'.trans hin, hie'.trans hie⟩
      cases b with
      | false => exact ⟨.syscall hb' hop hj hidle.1 hidle.2, ha, nofun, nofun⟩
      | true => exact absurd hj (hno j)

theorem Failed.kept {s : RxSide} {r : RxOut} {e : Errno} (h : Failed s r e) (c : IpcConn)
    (ha : c.aborted = false) (hf : c.fdin = none) (hw : c.woken = []) :
    Kept { c with toRxSide := s } (.brecvl r) :=
  ⟨.idle h.free h.rjob hf hw, ha, nofun, fun _ => ⟨h.free, h.rjob, hf, hw, h.flags⟩⟩

/-- The system call of `brecvl`, and the beginning of a wait. -/
theorem Phase.recv (h : Phase c) (ha : c.aborted = false) {a : RecvAns} {refuse : Option Errno}
    (hs : c.act (.recv a refuse) = some (c', o)) : Kept c' o := by
  unfold IpcConn.act at hs
  simp only at hs
  split at hs
  swap
  · cases hs
  obtain ⟨k, -, hs⟩ := Option.bind_eq_some_iff.mp hs
  obtain ⟨⟨s, r⟩, hrx, heq⟩ := Option.map_eq_some_iff.mp hs
  cases rxStep hrx with
  | @kernel j _ _ _ hj hset =>
    obtain ⟨hb, hop, hf, hw⟩ : c.rbusy = true ∧ Open c ∧ c.fdin = none ∧ c.woken = [] := by
      cases h with
      | idle _ hj' _ _ => rw [hj] at hj'; cases hj'
      | syscall hb hop _ hf hw => exact ⟨hb, hop, hf, hw⟩
      | wait _ _ hj' _ _ => rw [hj] at hj'; cases hj'
      | woken _ _ hj' _ _ => rw [hj] at hj'; cases hj'
      | fdWait _ _ hj' _ _ => rw [hj] at hj'; cases hj'
      | fdWoken _ _ hj' _ _ _ _ => rw [hj] at hj'; cases hj'
    have hsettled := settled_settle c.toRxSide (turn c.rxbuf j a)
    rw [hset] at hsettled
    cases hsettled with
    | ok hb' hj' =>
      rw [hj'] at heq
      cases heq
      exact ⟨.idle hb' hj' hf hw, ha, nofun, nofun⟩
    | error hb' hj' hfl =>
      rw [hj'] at heq
      cases heq
      exact ⟨.idle hb' hj' hf hw, ha, nofun, fun _ => ⟨hb', hj', hf, hw, hfl⟩⟩
    | @goesOn _ j' b hb' hin' hie' hj' =>
      have hin₁ : s.indone = false := hin'.trans hop.indone
      have hie₁ : s.inerr = false := hie'.trans hop.inerr
      rw [hj'] at heq
      cases b with
      | false =>
        cases heq
        exact ⟨.syscall (hb'.trans hb) ⟨hin₁, hie₁⟩ hj' hf hw, ha, nofun, nofun⟩
      | true =>
        unfold IpcConn.fdWait at heq
        cases refuse with
        | some e =>
          cases heq
          exact (failed_spec s e).kept { c with kernel := k } ha hf hw
        | none =>
          simp only [hf] at heq
          cases heq
          exact ⟨.wait (hb'.trans hb) ⟨hin₁, hie₁⟩ hj' rfl hw, ha, nofun, nofun⟩

theorem Phase.recvfd (h : Phase c) (ha : c.aborted = false) {cr : ℕ} {refuse : Option Errno}
    (hm : Met c (.recvfd cr refuse)) (hs : c.act (.recvfd cr refuse) = some (c', o)) :
    Kept c' o := by
  unfold IpcConn.act at hs
  simp only at hs
  split at hs
  swap
  · cases hs
  rename_i hr
  split at hs
  · cases hs
    exact h.refused ha nofun fun hbr => absurd hbr Bool.false_ne_true
  · rename_i hb
    have hb' := Bool.eq_false_iff.mpr hb
    split at hs
    · rename_i hin
      cases hs
      exact h.refused ha nofun fun _ => ⟨hb', .inl hin⟩
    · rename_i hin
      split at hs
      · rename_i hie
        cases hs
        exact h.refused ha nofun fun _ => ⟨hb', .inr hie⟩
      · rename_i hie
        have hop : Open c := ⟨Bool.eq_false_iff.mpr hin, Bool.eq_false_iff.mpr hie⟩
        unfold IpcConn.fdWait at hs
        cases refuse with
        | some e =>
          cases hs
          refine h.refused ha nofun fun hbr => ?_
          have hno : ofConn e = false := by simpa [waitError] using hr
          have hyes : ofConn e = true := hbr
          rw [hno] at hyes
          cases hyes
        | none =>
          simp only at hs
          split at hs
          · rename_i c₁ heq
            split at heq
            · cases heq
            · rename_i hf
              have hfd : c.fdin = none := Option.not_isSome_iff_eq_none.mp hf
              cases heq
              cases hs
              unfold Met at hm
              cases h with
              | idle _ hj _ hw =>
                exact ⟨.fdWait hb' ⟨hop.indone, hop.inerr⟩ hj rfl hw, ha, nofun, nofun⟩
              | syscall hb'' _ _ _ _ => exact absurd hb'' hb
              | wait hb'' _ _ _ _ => exact absurd hb'' hb
              | woken hb'' _ _ _ _ => exact absurd hb'' hb
              | fdWait _ _ _ hf' _ => rw [hfd] at hf'; cases hf'
              | fdWoken _ _ _ _ hw _ _ => rw [hw] at hm; exact absurd hm Bool.false_ne_true
          · rename_i e heq
            split at heq
            · cases heq
              cases hs
              exact h.refused ha nofun fun hbr => absurd hbr Bool.false_ne_true
            · cases heq

/-- `ipc_recvfd` after its wait: the kernel has something to deliver, since nobody else has received
in between. -/
theorem Phase.recvmsg (h : Phase c) (ha : c.aborted = false) {a : RecvAns}
    (hm : Met c (.recvmsg a)) (hs : c.act (.recvmsg a) = some (c', o)) : Kept c' o := by
  unfold IpcConn.act at hs
  simp only at hs
  split at hs
  swap
  · cases hs
  rename_i cr ws hwk
  split at hs
  swap
  · cases hs
  obtain ⟨k, hk, heq⟩ := Option.map_eq_some_iff.mp hs
  obtain ⟨hb, hop, hj, hf, hws, hrd⟩ : c.rbusy = false ∧ Open c ∧ c.rjob = none ∧ c.fdin = none ∧
      ws = [] ∧ c.kernel.readable = true := by
    cases h with
    | idle _ _ _ hw => rw [hwk] at hw; cases hw
    | syscall _ _ _ _ hw => rw [hwk] at hw; cases hw
    | wait _ _ _ _ hw => rw [hwk] at hw; cases hw
    | woken _ _ _ _ hw => rw [hwk] at hw; cases hw
    | fdWait _ _ _ _ hw => rw [hwk] at hw; cases hw
    | fdWoken hb hop hj hf hw hok _ =>
      rw [hwk] at hw
      cases hw
      exact ⟨hb, hop, hj, hf, rfl, hok rfl⟩
  unfold IpcConn.recvmsg at heq
  cases a with
  | data bs =>
    simp only at heq
    split at heq
    · cases heq
      exact ⟨.idle hb hj hf hws, ha, nofun, nofun⟩
    · cases heq
      exact ⟨.idle hb hj hf hws, ha, nofun, fun _ => ⟨hb, hj, hf, hws, .inr rfl⟩⟩
  | eof =>
    cases heq
    exact ⟨.idle hb hj hf hws, ha, nofun, fun _ => ⟨hb, hj, hf, hws, .inl rfl⟩⟩
  | again =>
    unfold Kernel.answer at hk
    rw [hrd] at hk
    cases hk
  | fail e => exact absurd hm id
  | noBuf => cases hk

theorem Phase.wake (h : Phase c) (ha : c.aborted = false) {r : Except Errno Unit}
    (hs : c.act (.wake r) = some (c', o)) : Kept c' o := by
  unfold IpcConn.act at hs
  simp only at hs
  split at hs
  swap
  · cases hs
  rename_i w hfd
  have hnext : (r = .ok () → c.kernel.readable = true) → (∀ e, r = .error e → ofConn e = false) →
      Phase { c with fdin := none, woken := c.woken ++ [(w, r)] } := by
    intro hok herr
    cases h with
    | idle _ _ hf _ => rw [hfd] at hf; cases hf
    | syscall _ _ _ hf _ => rw [hfd] at hf; cases hf
    | wait hb hop hj hf hw =>
      rw [hfd] at hf
      cases hf
      exact .woken hb ⟨hop.indone, hop.inerr⟩ hj rfl (congrArg (· ++ _) hw)
    | woken _ _ _ hf _ => rw [hfd] at hf; cases hf
    | fdWait hb hop hj hf hw =>
      rw [hfd] at hf
      cases hf
      exact .fdWoken hb ⟨hop.indone, hop.inerr⟩ hj rfl (congrArg (· ++ _) hw) hok herr
    | fdWoken _ _ _ hf _ _ _ => rw [hfd] at hf; cases hf
  cases r with
  | ok u =>
    simp only at hs
    split at hs
    · rename_i hrd
      cases hs
      exact ⟨hnext (fun _ => hrd) nofun, ha, nofun, nofun⟩
    · cases hs
  | error e =>
    simp only at hs
    split at hs
    · rename_i he
      cases hs
      have hno : ofConn e = false := by simpa [waitError] using he
      exact ⟨hnext nofun fun e' he' => by cases he'; exact hno, ha, nofun, nofun⟩
    · cases hs

theorem Phase.resume (h : Phase c) (ha : c.aborted = false)
    (hs : c.act .resume = some (c', o)) : Kept c' o := by
  unfold IpcConn.act at hs
  simp only at hs
  split at hs
  · rename_i r ws hwk
    obtain ⟨⟨s, r'⟩, hrx, heq⟩ := Option.map_eq_some_iff.mp hs
    cases heq
    obtain ⟨hb, hop, hf, hws⟩ : c.rbusy = true ∧ Open c ∧ c.fdin = none ∧ ws = [] := by
      cases h with
      | idle _ _ _ hw => rw [hwk] at hw; cases hw
      | syscall _ _ _ _ hw => rw [hwk] at hw; cases hw
      | wait _ _ _ _ hw => rw [hwk] at hw; cases hw
      | woken hb hop _ hf hw => rw [hwk] at hw; cases hw; exact ⟨hb, hop, hf, rfl⟩
      | fdWait _ _ _ _ hw => rw [hwk] at hw; cases hw
      | fdWoken _ _ _ _ hw _ _ => rw [hwk] at hw; cases hw
    cases rxStep hrx with
    | woken hj => exact ⟨.syscall hb ⟨hop.indone, hop.inerr⟩ rfl hf hws, ha, nofun, nofun⟩
    | @refused j e _ _ hj hset =>
      have hfailed := failed_spec c.toRxSide e
      rw [hset] at hfailed
      exact hfailed.kept { c with woken := ws } ha hf hws
  · rename_i cr e ws hwk
    cases hs
    cases h with
    | idle _ _ _ hw => rw [hwk] at hw; cases hw
    | syscall _ _ _ _ hw => rw [hwk] at hw; cases hw
    | wait _ _ _ _ hw => rw [hwk] at hw; cases hw
    | woken _ _ _ _ hw => rw [hwk] at hw; cases hw
    | fdWait _ _ _ _ hw => rw [hwk] at hw; cases hw
    | fdWoken hb hop hj hf hw _ herr =>
      rw [hwk] at hw
      cases hw
      refine ⟨.idle hb hj hf rfl, ha, nofun, fun hbr => ?_⟩
      have hno := herr e rfl
      have hyes : ofConn e = true := hbr
      rw [hno] at hyes
      cases hyes
  · cases hs

theorem step_act (hs : c.step ev = some (c', o)) : c.aborted = false ∧ c.act ev = some (c', o) := by
  unfold IpcConn.step at hs
  split at hs
  · cases hs
  · rename_i ha
    exact ⟨Bool.eq_false_iff.mpr ha, hs⟩

theorem readable_arrive {k : Kernel} {b : UInt8} {fd : Option ℕ} :
    ({ k with queue := k.queue ++ [(b, fd)] } : Kernel).readable = true := by
  unfold Kernel.readable
  simp

theorem readable_hangup {k : Kernel} : ({ k with ended := true } : Kernel).readable = true := by
  unfold Kernel.readable
  simp

theorem readable_fault {k : Kernel} {e : Errno} :
    ({ k with err := some e } : Kernel).readable = true := by
  unfold Kernel.readable
  simp

/-- One event that meets the condition. -/
theorem Phase.step (h : Phase c) (hm : Met c ev) (hs : c.step ev = some (c', o)) : Kept c' o := by
  obtain ⟨ha, hs⟩ := step_act hs
  cases ev with
  | arrive b fd =>
    cases hs
    exact ⟨h.congr rfl rfl rfl fun _ => readable_arrive, ha, nofun, nofun⟩
  | hangup =>
    cases hs
    exact ⟨h.congr rfl rfl rfl fun _ => readable_hangup, ha, nofun, nofun⟩
  | fault e =>
    unfold IpcConn.act at hs
    simp only at hs
    split at hs
    · cases hs
    · cases hs
      exact ⟨h.congr rfl rfl rfl fun _ => readable_fault, ha, nofun, nofun⟩
  | brecvl first =>
    obtain ⟨⟨s, r⟩, hrx, heq⟩ := Option.map_eq_some_iff.mp hs
    cases heq
    exact h.brecvl ha hm hrx
  | recv a refuse => exact h.recv ha hs
  | recvfd cr refuse => exact h.recvfd ha hm hs
  | recvmsg a => exact h.recvmsg ha hm hs
  | wake r => exact h.wake ha hs
  | resume => exact h.resume ha hs
  | tx e =>
    obtain ⟨⟨s, r⟩, -, heq⟩ := Option.map_eq_some_iff.mp hs
    cases heq
    exact ⟨h.congr rfl rfl rfl id, ha, nofun, nofun⟩

/-! ## The other direction -/

/-- The event is one of the sending direction. -/
def Ev.isTx : Ev → Bool
  | .tx _ => true
  | _ => false

theorem recvmsg_toTxSide {cr : ℕ} {a : RecvAns} {fd : Option ℕ} (hm : ∀ e, a ≠ .fail e) :
    (c.recvmsg cr a fd).1.toTxSide = c.toTxSide := by
  unfold IpcConn.recvmsg
  cases a with
  | data bs =>
    simp only
    split <;> rfl
  | eof => rfl
  | again => rfl
  | fail e => exact absurd rfl (hm e)
  | noBuf => rfl

/-- An event of the receiving direction that meets the condition leaves the sending direction
alone. -/
theorem step_toTxSide (hm : Met c ev) (he : ev.isTx = false) (hs : c.step ev = some (c', o)) :
    c'.toTxSide = c.toTxSide := by
  obtain ⟨-, hs⟩ := step_act hs
  cases ev with
  | arrive b fd =>
    cases hs
    rfl
  | hangup =>
    cases hs
    rfl
  | fault e =>
    unfold IpcConn.act at hs
    simp only at hs
    split at hs <;> cases hs
    rfl
  | brecvl first =>
    obtain ⟨⟨s, r⟩, hrx, heq⟩ := Option.map_eq_some_iff.mp hs
    cases heq
    rfl
  | recv a refuse =>
    unfold IpcConn.act at hs
    simp only at hs
    split at hs
    swap
    · cases hs
    obtain ⟨k, -, hs⟩ := Option.bind_eq_some_iff.mp hs
    obtain ⟨⟨s, r⟩, hrx, heq⟩ := Option.map_eq_some_iff.mp hs
    simp only [IpcConn.fdWait] at heq
    split at heq
    · cases refuse with
      | some e =>
        cases heq
        rfl
      | none =>
        simp only at heq
        split at heq
        · rename_i hw
          split at hw <;> cases hw
          cases heq
          rfl
        · rename_i hw
          split at hw <;> cases hw
          cases heq
          rfl
    · cases heq
      rfl
  | recvfd cr refuse =>
    unfold IpcConn.act IpcConn.fdWait at hs
    simp only at hs
    split at hs
    swap
    · cases hs
    split at hs
    · cases hs
      rfl
    · split at hs
      · cases hs
        rfl
      · split at hs
        · cases hs
          rfl
        · split at hs
          · rename_i hw
            split at hw
            · cases hw
            · split at hw <;> cases hw
              cases hs
              rfl
          · cases hs
            rfl
  | recvmsg a =>
    unfold IpcConn.act at hs
    simp only at hs
    split at hs
    swap
    · cases hs
    split at hs
    swap
    · cases hs
    obtain ⟨k, -, heq⟩ := Option.map_eq_some_iff.mp hs
    have htx := congrArg (fun r => r.1.toTxSide) heq
    rw [← htx]
    apply recvmsg_toTxSide
    rintro e rfl
    exact hm
  | wake r =>
    unfold IpcConn.act at hs
    simp only at hs
    split at hs
    · split at hs <;> split at hs <;> cases hs <;> rfl
    · cases hs
  | resume =>
    unfold IpcConn.act at hs
    simp only at hs
    split at hs
    · obtain ⟨⟨s, r⟩, hrx, heq⟩ := Option.map_eq_some_iff.mp hs
      cases heq
      rfl
    · cases hs
      rfl
    · cases hs
  | tx e => cases he

/-! ## After a failure -/

/-- Every receive that returns fails. -/
def Out.NoData : Out → Prop
  | .brecvl (some (.ok _)) => False
  | .recvfd _ (some (.ok _)) => False
  | _ => True

/-- A connection that refuses calls stays so, and no event takes anything from the kernel. -/
theorem Closed.step (h : Closed c) (hs : c.step ev = some (c', o)) :
    Closed c' ∧ o.NoData ∧ c.kernel.queue <+: c'.kernel.queue := by
  obtain ⟨ha, hs⟩ := step_act hs
  have hsame : ∀ o : Out, o.NoData → Closed c ∧ o.NoData ∧ c.kernel.queue <+: c.kernel.queue :=
    fun o ho => ⟨h, ho, List.prefix_refl _⟩
  cases ev with
  | arrive b fd =>
    cases hs
    exact ⟨⟨h.free, h.rjob, h.fdin, h.woken, h.flags⟩, trivial, List.prefix_append _ _⟩
  | hangup =>
    cases hs
    exact ⟨⟨h.free, h.rjob, h.fdin, h.woken, h.flags⟩, trivial, List.prefix_refl _⟩
  | fault e =>
    unfold IpcConn.act at hs
    simp only at hs
    split at hs <;> cases hs
    exact ⟨⟨h.free, h.rjob, h.fdin, h.woken, h.flags⟩, trivial, List.prefix_refl _⟩
  | brecvl first =>
    obtain ⟨⟨s, r⟩, hrx, heq⟩ := Option.map_eq_some_iff.mp hs
    cases heq
    cases rxStep hrx with
    | busy hb => rw [h.free] at hb; cases hb
    | indone _ _ => exact hsame _ trivial
    | inerr _ _ _ => exact hsame _ trivial
    | start _ hin hie _ =>
      have hfl := h.flags
      rw [hin, hie] at hfl
      rcases hfl with hfl | hfl <;> cases hfl
  | recv a refuse =>
    unfold IpcConn.act at hs
    simp only at hs
    split at hs
    swap
    · cases hs
    obtain ⟨k, -, hs⟩ := Option.bind_eq_some_iff.mp hs
    obtain ⟨⟨s, r⟩, hrx, heq⟩ := Option.map_eq_some_iff.mp hs
    cases rxStep hrx with
    | kernel hj _ => rw [h.rjob] at hj; cases hj
  | recvfd cr refuse =>
    unfold IpcConn.act at hs
    simp only at hs
    rw [h.free] at hs
    split at hs
    swap
    · cases hs
    simp only [Bool.false_eq_true, if_false] at hs
    split at hs
    · cases hs
      exact hsame _ trivial
    · rename_i hin
      split at hs
      · cases hs
        exact hsame _ trivial
      · rename_i hie
        exact absurd h.flags (not_or.mpr ⟨hin, hie⟩)
  | recvmsg a =>
    unfold IpcConn.act at hs
    simp only [h.woken] at hs
    cases hs
  | wake r =>
    unfold IpcConn.act at hs
    simp only [h.fdin] at hs
    cases hs
  | resume =>
    unfold IpcConn.act at hs
    simp only [h.woken] at hs
    cases hs
  | tx e =>
    obtain ⟨⟨s, r⟩, -, heq⟩ := Option.map_eq_some_iff.mp hs
    cases heq
    exact ⟨⟨h.free, h.rjob, h.fdin, h.woken, h.flags⟩, trivial, List.prefix_refl _⟩

theorem Closed.answers (h : Closed c) {evs : List Ev} {outs : List Out}
    (hr : answers IpcConn.step c evs = some (c', outs)) :
    (∀ o ∈ outs, o.NoData) ∧ c.kernel.queue <+: c'.kernel.queue := by
  have hi := answers_induction
    (I := fun c₁ _ outs => Closed c₁ ∧ (∀ o ∈ outs, Out.NoData o) ∧
      c.kernel.queue <+: c₁.kernel.queue)
    ⟨h, fun o ho => absurd ho List.not_mem_nil, List.prefix_refl _⟩ ?_ hr
  · exact hi.2
  · rintro c₁ _ outs a c₂ o ⟨hc, ho, hp⟩ hs
    obtain ⟨hc', hnd, hp'⟩ := hc.step hs
    refine ⟨hc', ?_, hp.trans hp'⟩
    intro o' hm
    rcases List.mem_append.mp hm with hm | hm
    · exact ho o' hm
    · rw [List.mem_singleton.mp hm]
      exact hnd

/-! ## Runs -/

/-- A run from a new connection all of whose events meet the condition. -/
def Runs (evs : List Ev) (c : IpcConn) (outs : List Out) : Prop :=
  answers (guarded Met IpcConn.step) .init evs = some (c, outs)

variable {evs : List Ev} {outs : List Out}

theorem Runs.kept (h : Runs evs c outs) : Phase c ∧ .abort ∉ outs := by
  refine answers_induction (I := fun c _ outs => Phase c ∧ Out.abort ∉ outs)
    ⟨phase_init, List.not_mem_nil⟩ ?_ h
  rintro c _ outs ev c' o ⟨hp, ho⟩ hs
  obtain ⟨hm, hs⟩ := guarded_eq_some hs
  have hk := hp.step hm hs
  refine ⟨hk.phase, fun hab => ?_⟩
  rcases List.mem_append.mp hab with hab | hab
  · exact ho hab
  · exact hk.noAbort (List.mem_singleton.mp hab).symm

/-- A call of `brecvl` during another receive. -/
theorem Phase.brecvl_busy (h : Phase c) {first : List ℕ} (hr : c.receives ≠ [])
    (hm : Met c (.brecvl first)) (hs : c.step (.brecvl first) = some (c', o)) :
    c' = c ∧ o = .brecvl (some (.error .EBUSY)) := by
  obtain ⟨-, hs⟩ := step_act hs
  obtain ⟨⟨s, r⟩, hrx, heq⟩ := Option.map_eq_some_iff.mp hs
  cases heq
  have hb : c.rbusy = true := by
    unfold IpcConn.receives at hr
    unfold Met IpcConn.waiters at hm
    unfold IpcConn.waiters at hr
    cases h with
    | idle hb _ hf hw =>
      rw [hb, hf, hw] at hr
      exact absurd rfl hr
    | syscall hb _ _ _ _ => exact hb
    | wait hb _ _ _ _ => exact hb
    | woken hb _ _ _ _ => exact hb
    | fdWait _ _ _ hf hw => rw [hf, hw] at hm; exact absurd hm Bool.false_ne_true
    | fdWoken _ _ _ hf hw _ _ => rw [hf, hw] at hm; exact absurd hm Bool.false_ne_true
  cases rxStep hrx with
  | busy _ => exact ⟨rfl, rfl⟩
  | indone hb' _ => rw [hb] at hb'; cases hb'
  | inerr hb' _ _ => rw [hb] at hb'; cases hb'
  | start hb' _ _ _ => rw [hb] at hb'; cases hb'

/-- A call of `ipc_recvfd` during another receive; a coroutine that is canceled is told so. -/
theorem Phase.recvfd_busy (h : Phase c) {cr : ℕ} {refuse : Option Errno} (hr : c.receives ≠ [])
    (hm : Met c (.recvfd cr refuse)) (hs : c.step (.recvfd cr refuse) = some (c', o)) :
    c' = c ∧ ∃ e, o = .recvfd cr (some (.error e)) ∧ (e = .EBUSY ∨ refuse = some e) := by
  obtain ⟨-, hs⟩ := step_act hs
  unfold IpcConn.act at hs
  simp only at hs
  split at hs
  swap
  · cases hs
  split at hs
  · cases hs
    exact ⟨rfl, .EBUSY, rfl, .inl rfl⟩
  · rename_i hb
    obtain ⟨hop, hf⟩ : Open c ∧ c.fdin.isSome = true := by
      unfold IpcConn.receives IpcConn.waiters at hr
      unfold Met at hm
      cases h with
      | idle hb' _ hf hw =>
        rw [hb', hf, hw] at hr
        exact absurd rfl hr
      | syscall hb' _ _ _ _ => exact absurd hb' hb
      | wait hb' _ _ _ _ => exact absurd hb' hb
      | woken hb' _ _ _ _ => exact absurd hb' hb
      | fdWait _ hop _ hf _ =>
        rw [hf]
        exact ⟨hop, rfl⟩
      | fdWoken _ _ _ _ hw _ _ => rw [hw] at hm; exact absurd hm Bool.false_ne_true
    simp only [hop.indone, hop.inerr, Bool.false_eq_true, if_false, IpcConn.fdWait, hf, if_true]
      at hs
    cases refuse with
    | some e =>
      cases hs
      exact ⟨rfl, e, rfl, .inr rfl⟩
    | none =>
      cases hs
      exact ⟨rfl, .EBUSY, rfl, .inl rfl⟩

/-- What is to hold of the receives after a run that has led to `c`, and in what comes next. -/
structure Exclusive (c : IpcConn) (outs : List Out) : Prop where
  /-- At most one receive is in progress. -/
  single : c.receives.length ≤ 1
  /-- A receive that is called while another one is in progress is refused and changes nothing. -/
  brecvlBusy : c.receives ≠ [] → ∀ first c' o, Met c (.brecvl first) →
    c.step (.brecvl first) = some (c', o) → c' = c ∧ o = .brecvl (some (.error .EBUSY))
  recvfdBusy : c.receives ≠ [] → ∀ cr refuse c' o, Met c (.recvfd cr refuse) →
    c.step (.recvfd cr refuse) = some (c', o) →
      c' = c ∧ ∃ e, o = .recvfd cr (some (.error e)) ∧ (e = .EBUSY ∨ refuse = some e)
  /-- No assertion fails. -/
  noAbort : .abort ∉ outs
  /-- After a receive has failed with an error of the connection no receive succeeds or takes
  anything from the kernel. -/
  closed : ∀ ev c' o, Met c ev → c.step ev = some (c', o) → o.Broken →
    ∀ evs' c'' outs', answers IpcConn.step c' evs' = some (c'', outs') →
      (∀ o' ∈ outs', o'.NoData) ∧ c'.kernel.queue <+: c''.kernel.queue
  /-- Receiving does not change the sending direction. -/
  sending : ∀ ev c' o, Met c ev → ev.isTx = false → c.step ev = some (c', o) →
    c'.toTxSide = c.toTxSide

/-- **Exclusive receives**, in every run whose events all meet the condition. -/
theorem ipc_receive_exclusive (evs : List Ev) (c : IpcConn) (outs : List Out)
    (h : Runs evs c outs) : Exclusive c outs where
  single := h.kept.1.single
  brecvlBusy hr _ _ _ hm hs := h.kept.1.brecvl_busy hr hm hs
  recvfdBusy hr _ _ _ _ hm hs := h.kept.1.recvfd_busy hr hm hs
  noAbort := h.kept.2
  closed _ _ _ hm hs hb _ _ _ hr := ((h.kept.1.step hm hs).closed hb).answers hr
  sending _ _ _ hm he hs := step_toTxSide hm he hs

/-- One coroutine waits for a byte, and another one is refused meanwhile. -/
def refusedRun : List Ev := [.brecvl [1], .recv .again none, .recvfd 0 none]

theorem ipc_receive_exclusive_refused : ∃ c outs, Runs refusedRun c outs ∧
    outs.getLast? = some (.recvfd 0 (some (.error .EBUSY))) ∧ Exclusive c outs :=
  ⟨_, _, rfl, rfl, ipc_receive_exclusive refusedRun _ _ rfl⟩

/-- A coroutine waits in `ipc_recvfd` and a byte arrives; before it runs, another coroutine receives
the byte. -/
def stolenByte : List Ev :=
  [.recvfd 0 none, .arrive 0 none, .wake (.ok ()), .brecvl [1], .recv (.data [0]) none]

/-- A coroutine waits in `ipc_recvfd` and the peer resets the connection. -/
def resetPeer : List Ev :=
  [.recvfd 0 none, .fault .ECONNRESET, .wake (.ok ()), .recvmsg (.fail .ECONNRESET)]

/-- Two receives are in progress, the second one takes the byte of the first one, and the first one
aborts the process. After a reset nothing can be sent, and the next receive is not refused. -/
theorem ipc_recvfd_aborts :
    (∃ c outs c', answers IpcConn.step .init (stolenByte.take 4) = some (c, outs) ∧
      c.receives = [.brecvl, .recvfd 0] ∧
      ∃ outs', answers IpcConn.step .init (stolenByte ++ [.recvmsg .again]) = some (c', outs') ∧
        outs'.getLast? = some .abort) ∧
    ∃ c outs, answers IpcConn.step .init resetPeer = some (c, outs) ∧
      outs.getLast? = some (.recvfd 0 (some (.error .ECONNRESET))) ∧ c.outerr = true ∧
      ∃ c', c.step (.recvfd 1 none) = some (c', .recvfd 1 none) :=
  ⟨⟨_, _, _, rfl, rfl, _, rfl, rfl⟩, _, _, rfl, rfl, rfl, _, rfl⟩

end Libdill.Ipc
