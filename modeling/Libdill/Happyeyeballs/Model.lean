import Libdill.Foundations.Run
import Libdill.Sched.State
import Mathlib.Data.Finset.Basic
import Mathlib.Data.Fin.VecNotation

/-!
# Happy Eyeballs

`dill_happyeyeballs_connect` with the coroutines it launches: the coordinator, the two DNS
queries and the connection attempts (`happyeyeballs.c`). A step is one library call of the
running coroutine, the resumption of another one at the end of `dill_wait`, or something from
outside: an event on a socket, a timer, the clock, the cancellation of the caller. A coroutine
that launches another one, or that suspends, gives up the processor; any ready coroutine may be
resumed next.

The program counters name the calls. A coroutine suspended in a call is at the counter that ends
in `Wait`; what wakes it moves it to the place where its function goes on, so that being linked
in the list of a channel or in the list of timers is the same as being at such a counter. When
several attempts wait on one channel any of them may be served first.

`dill_tcp_connect` and `dill_ipaddr_remotes` are not looked into: they may suspend any number of
times, and end as they like. Memory is assumed to be there for the coordinator, whose assertions
say that it is; the caller checks, and may be refused.
-/

namespace Libdill.Happyeyeballs

open Foundations
open Libdill.Sched (Errno)

/-! ## Addresses -/

/-- `DILL_IPADDR_IPV6` and `DILL_IPADDR_IPV4`. -/
inductive Fam
  | ipv6
  | ipv4
  deriving DecidableEq, Repr

/-- `struct dill_ipaddr`. -/
inductive IpAddr
  | inet (addr : BitVec 32) (port : BitVec 16)
  | inet6 (addr : BitVec 128) (port : BitVec 16)
  deriving DecidableEq, Repr

/-- `dill_ipaddr_family`. -/
def IpAddr.family : IpAddr → Fam
  | .inet _ _ => .ipv4
  | .inet6 _ _ => .ipv6

/-- `dill_ipaddr_port`. -/
def IpAddr.port : IpAddr → BitVec 16
  | .inet _ p => p
  | .inet6 _ p => p

/-- `dill_ipaddr_equal`. -/
def ipaddrEqual (a b : IpAddr) (ignorePort : Bool) : Bool :=
  match a, b with
  | .inet x p, .inet y q => x == y && (ignorePort || p == q)
  | .inet6 x p, .inet6 y q => x == y && (ignorePort || p == q)
  | _, _ => false

/-- `dill_ipaddr_local(&addr, "0.0.0.0", 0, DILL_IPADDR_IPV4)`. -/
def nulladdr : IpAddr := .inet 0 0

/-- The arguments of the call. -/
structure Call where
  name : Option String
  port : ℤ
  deadline : ℤ

/-- What `dill_ipaddr_remotes` can store for a query of this family: at most 10 addresses of the
family, with the port of the call. -/
def Answers (c : Call) (f : Fam) (l : List IpAddr) : Prop :=
  l.length ≤ 10 ∧ ∀ a ∈ l, a.family = f ∧ (a.port.toNat : ℤ) = c.port

instance (c : Call) (f : Fam) (l : List IpAddr) : Decidable (Answers c f l) :=
  inferInstanceAs (Decidable (_ ∧ _))

/-! ## Coroutines -/

/-- The coroutines. -/
inductive Who
  /-- The caller. -/
  | main
  | coordinator
  | dnsquery (f : Fam)
  | attempt (i : ℕ)
  deriving DecidableEq, Repr

/-- Where `dill_happyeyeballs_connect` is; `r` stands for `res` and `err`. -/
inductive MainPc
  | start
  | go
  | chrecv
  | chrecvWait
  | exit3 (r : Except Errno ℕ)
  | exit3Wait (r : Except Errno ℕ)
  | exit2 (r : Except Errno ℕ)
  | returned (r : Except Errno ℕ)

/-- Where `dill_happyeyeballs_coordinator` is. -/
inductive CoordinatorPc
  /-- Not launched. -/
  | absent
  | start
  | goIpv6
  | goIpv4
  | chrecv
  | chrecvWait (deadline : ℕ)
  /-- `dill_chrecv` succeeded. -/
  | received (addr : IpAddr)
  /-- The beginning of the loop. -/
  | choose
  | chooseWait (nw : ℕ)
  | useAddress (idx : Fin 2) (nw : ℕ) (addr : IpAddr)
  | msleep (idx : Fin 2) (nw : ℕ)
  | msleepWait (deadline : ℕ)
  /-- The label `cancel`, and the loop of `dill_bundle_close`. -/
  | cancel
  /-- In `dill_cr_close` for this coroutine. -/
  | cancelWait (w : Who)
  /-- The bundle is closed, the channels are not. -/
  | hclose
  | done
  deriving DecidableEq

/-- Where a `dill_happyeyeballs_dnsquery` is. The addresses not sent yet are `rest`; when there
are none, the end marker is next. `marked` tells whether it was delivered. -/
inductive DnsPc
  | absent
  | remotes
  | remotesWait
  | chsend (rest : List IpAddr)
  | chsendWait (rest : List IpAddr)
  | leave (marked : Bool)
  | done (marked : Bool)
  deriving DecidableEq

/-- Where a `dill_happyeyeballs_attempt` is. -/
inductive AttemptPc
  | connect
  | connectWait
  | chsend (conn : ℕ)
  | chsendWait (conn : ℕ)
  | hclose (conn : ℕ)
  | leave
  | done
  deriving DecidableEq

/-- The caller; `noBlocking` is `no_blocking1`, set once it is closed. -/
structure Main where
  pc : MainPc := .start
  noBlocking : Bool := false
  chconns : ℕ × ℕ := (0, 0)
  coord : ℕ := 0

/-- The coordinator; `cls i` is the family whose channel is in `cls[i].ch`. -/
structure Coordinator where
  pc : CoordinatorPc := .absent
  noBlocking : Bool := false
  chipv6 : ℕ × ℕ := (0, 0)
  chipv4 : ℕ × ℕ := (0, 0)
  bndl : ℕ := 0
  cls : Fin 2 → Fam := ![.ipv6, .ipv4]

/-- A DNS query and the addresses it found. -/
structure Dnsquery where
  pc : DnsPc := .absent
  noBlocking : Bool := false
  addrs : List IpAddr := []

/-- A connection attempt. No function reads `fam`, the channel its address came from, and `conn`,
the connection once `dill_tcp_connect` succeeded. -/
structure Attempt where
  fam : Fam
  addr : IpAddr
  pc : AttemptPc := .connect
  noBlocking : Bool := false
  conn : Option ℕ := none

/-- The state: the clock, the coroutine that runs, the open handles and the coroutines. -/
structure St where
  now : ℕ := 0
  cur : Option Who := some .main
  handles : Finset ℕ := ∅
  main : Main := {}
  coordinator : Coordinator := {}
  dns : Fam → Dnsquery := fun _ => {}
  attempts : List Attempt := []

/-- What the running coroutine is told from outside: the numbers of the handles a call opens, a
refusal for lack of memory, and how the calls that are not looked into go on. -/
inductive Input
  | none
  | handles (l : List ℕ)
  | fails (e : Errno)
  /-- The attempt whose clause is the first in the list of the channel. -/
  | sender (i : ℕ)
  | block
  | conn (h : Option ℕ)
  /-- The empty list is also a failure: `count` is then not positive. -/
  | answers (l : List IpAddr)

/-- The steps. -/
inductive Act
  | run (x : Input)
  | resume (w : Who)
  /-- What `dill_tcp_connect` or `dill_ipaddr_remotes` waits for in this coroutine happens. -/
  | event (w : Who)
  | timeout (w : Who)
  | tick (d : ℕ)
  | cancel

/-- Why there is no next state. -/
inductive Stop
  /-- An assertion fails. -/
  | assert
  /-- The step does not apply. -/
  | stuck
  deriving DecidableEq

/-! ## Helpers -/

namespace St

@[simp] def mainAt (s : St) (pc : MainPc) : St := { s with main := { s.main with pc := pc } }

@[simp] def coordinatorAt (s : St) (pc : CoordinatorPc) : St :=
  { s with coordinator := { s.coordinator with pc := pc } }

@[simp] def dnsAt (s : St) (f : Fam) (pc : DnsPc) : St :=
  { s with dns := Function.update s.dns f { s.dns f with pc := pc } }

@[simp] def attemptAt (s : St) (i : ℕ) (pc : AttemptPc) : St :=
  { s with attempts := s.attempts.modify i fun a => { a with pc := pc } }

/-- The running coroutine suspends. -/
@[simp] def block (s : St) : St := { s with cur := none }

/-- `dill_hmake` for new handles. -/
def hmake (s : St) : List ℕ → Except Stop St
  | [] => .ok s
  | h :: l =>
    if h ∈ s.handles then .error .stuck else { s with handles := insert h s.handles }.hmake l

/-- `dill_hclose` of channels and connections, with `dill_assert(rc == 0)`. -/
def hclose (s : St) : List ℕ → Except Stop St
  | [] => .ok s
  | h :: l =>
    if h ∈ s.handles then { s with handles := s.handles.erase h }.hclose l else .error .assert

/-- The attempt is suspended in `dill_chsend`. -/
def sending (s : St) (i : ℕ) : Option ℕ :=
  match (s.attempts[i]?).map Attempt.pc with
  | some (.chsendWait conn) => some conn
  | _ => none

end St

/-- The address a query sends next. -/
def outgoing (rest : List IpAddr) : IpAddr := rest.headD nulladdr

/-- Where a query is when `outgoing rest` was sent. -/
def afterSend : List IpAddr → DnsPc
  | [] => .leave true
  | _ :: rest => .chsend rest

/-- The clause of `dill_choose` that waits on the channel of this family. -/
def clauseOn (cls : Fin 2 → Fam) (f : Fam) : Option (Fin 2) :=
  if cls 0 = f then some 0 else if cls 1 = f then some 1 else none

/-- Where the coordinator goes on if it waits for an address of this family and gets one. -/
def Coordinator.receive (k : Coordinator) (f : Fam) (addr : IpAddr) : Option CoordinatorPc :=
  match k.pc with
  | .chrecvWait _ => if f = .ipv6 then some (.received addr) else none
  | .chooseWait nw => (clauseOn k.cls f).map fun idx => .useAddress idx nw addr
  | _ => none

/-! ## Closing coroutines -/

/-- What `dill_cr_close` wakes: a call that waits fails with `ECANCELED`, which the coordinator
must not be told inside `dill_cr_close`. -/
def CoordinatorPc.canceled : CoordinatorPc → Except Stop CoordinatorPc
  | .chrecvWait _ => .ok .cancel
  | .chooseWait _ => .ok .cancel
  | .msleepWait _ => .ok .cancel
  | .cancelWait _ => .error .assert
  | pc => .ok pc

def DnsPc.canceled : DnsPc → DnsPc
  | .remotesWait => .remotes
  | .chsendWait _ => .leave false
  | pc => pc

def AttemptPc.canceled : AttemptPc → AttemptPc
  | .connectWait => .connect
  | .chsendWait conn => .hclose conn
  | pc => pc

def Dnsquery.close (d : Dnsquery) : Dnsquery := { d with pc := d.pc.canceled, noBlocking := true }

def Attempt.close (a : Attempt) : Attempt := { a with pc := a.pc.canceled, noBlocking := true }

namespace DnsPc

/-- The coroutine has ended, or was never launched. -/
def finished : DnsPc → Bool
  | .absent => true
  | .done _ => true
  | _ => false

/-- Running or in the ready queue. -/
def ready : DnsPc → Bool
  | .remotes => true
  | .chsend _ => true
  | .leave _ => true
  | _ => false

end DnsPc

namespace AttemptPc

def ready : AttemptPc → Bool
  | .connectWait => false
  | .chsendWait _ => false
  | .done => false
  | _ => true

end AttemptPc

def CoordinatorPc.ready : CoordinatorPc → Bool
  | .absent => false
  | .chrecvWait _ => false
  | .chooseWait _ => false
  | .msleepWait _ => false
  | .cancelWait _ => false
  | .done => false
  | _ => true

def MainPc.ready : MainPc → Bool
  | .chrecvWait => false
  | .exit3Wait _ => false
  | .returned _ => false
  | _ => true

namespace St

/-- The coroutine can run. -/
def ready (s : St) : Who → Bool
  | .main => s.main.pc.ready
  | .coordinator => s.coordinator.pc.ready
  | .dnsquery f => (s.dns f).pc.ready
  | .attempt i => (s.attempts[i]?).any fun a => a.pc.ready

/-- The coroutine of the bundle has not ended. -/
def unfinished (s : St) : Who → Bool
  | .dnsquery f => !(s.dns f).pc.finished
  | .attempt i => (s.attempts[i]?).any fun a => a.pc ≠ .done
  | _ => false

/-- The coroutines the bundle was made to run, in the order of its list `crs`. -/
def members (s : St) : List Who :=
  .dnsquery .ipv6 :: .dnsquery .ipv4 :: (List.range s.attempts.length).map .attempt

/-- `dill_cr_close`, up to the wait. -/
def crClose (s : St) : Who → St
  | .dnsquery f => { s with dns := Function.update s.dns f (s.dns f).close }
  | .attempt i => { s with attempts := s.attempts.modify i Attempt.close }
  | _ => s

/-- `dill_epilogue` resumes the coordinator if it waits for this coroutine to end. -/
def epilogue (s : St) (w : Who) : St :=
  if s.coordinator.pc = .cancelWait w then s.coordinatorAt .cancel else s

end St

/-! ## The functions -/

namespace St

/-- `dill_happyeyeballs_connect`. -/
def connect (c : Call) (s : St) (x : Input) : Except Stop St :=
  match s.main.pc with
  | .start =>
    if c.name = none ∨ c.port ≤ 0 then .ok (s.mainAt (.returned (.error .EINVAL))).block
    else match x with
      | .fails e => .ok (s.mainAt (.returned (.error e))).block
      | .handles [h₀, h₁] => do
        let s ← s.hmake [h₀, h₁]
        .ok { s with main := { s.main with pc := .go, chconns := (h₀, h₁) } }
      | _ => .error .stuck
  | .go =>
    match x with
    | .fails e => .ok (s.mainAt (.exit2 (.error e)))
    | .handles [h] => do
      let s ← s.hmake [h]
      .ok { s with
        cur := some .coordinator
        main := { s.main with pc := .chrecv, coord := h }
        coordinator := { pc := .start } }
    | _ => .error .stuck
  | .chrecv =>
    if s.main.noBlocking then .ok (s.mainAt (.exit3 (.error .ECANCELED)))
    else match x with
      | .sender i =>
        match s.sending i with
        | some conn => .ok ((s.attemptAt i .leave).mainAt (.exit3 (.ok conn)))
        | none => .error .stuck
      | .none =>
        if ∃ i < s.attempts.length, s.sending i ≠ none then .error .stuck
        else if c.deadline = 0 then .ok (s.mainAt (.exit3 (.error .ETIMEDOUT)))
        else .ok (s.mainAt .chrecvWait).block
      | _ => .error .stuck
  | .exit3 r =>
    if s.coordinator.pc = .done then do
      let s ← s.hclose [s.main.coord]
      .ok (s.mainAt (.exit2 r))
    else do
      let pc ← s.coordinator.pc.canceled
      .ok ({ s with
        coordinator := { s.coordinator with pc := pc, noBlocking := true } }.mainAt
          (.exit3Wait r)).block
  | .exit2 r => do
    let s ← s.hclose [s.main.chconns.1, s.main.chconns.2]
    .ok (s.mainAt (.returned r)).block
  | _ => .error .stuck

/-- `dill_happyeyeballs_coordinator`. -/
def coordinate (s : St) (x : Input) : Except Stop St :=
  let k := s.coordinator
  match k.pc with
  | .start =>
    -- `dill_chmake_mem` and `dill_bundle_mem` are refused when no blocking is allowed
    if k.noBlocking then .error .assert
    else match x with
      | .handles [h₀, h₁, h₂, h₃, h₄] => do
        let s ← s.hmake [h₀, h₁, h₂, h₃, h₄]
        .ok { s with
          coordinator := { k with
            pc := .goIpv6
            chipv6 := (h₀, h₁)
            chipv4 := (h₂, h₃)
            bndl := h₄ } }
      | _ => .error .stuck
  | .goIpv6 =>
    if k.noBlocking then .ok (s.coordinatorAt .cancel)
    else .ok { (s.dnsAt .ipv6 .remotes).coordinatorAt .goIpv4 with cur := some (.dnsquery .ipv6) }
  | .goIpv4 =>
    if k.noBlocking then .ok (s.coordinatorAt .cancel)
    else .ok { (s.dnsAt .ipv4 .remotes).coordinatorAt .chrecv with cur := some (.dnsquery .ipv4) }
  | .chrecv =>
    if k.noBlocking then .ok (s.coordinatorAt .cancel)
    else match (s.dns .ipv6).pc with
      | .chsendWait rest =>
        .ok ((s.dnsAt .ipv6 (afterSend rest)).coordinatorAt (.received (outgoing rest)))
      | _ => .ok (s.coordinatorAt (.chrecvWait (s.now + 50))).block
  | .received addr => .ok (s.coordinatorAt (.useAddress 0 s.now addr))
  | .choose =>
    if k.noBlocking then .ok (s.coordinatorAt .cancel)
    else match (s.dns (k.cls 0)).pc, (s.dns (k.cls 1)).pc with
      | .chsendWait rest, _ => .ok ((s.dnsAt (k.cls 0) (afterSend rest)).coordinatorAt
          (.useAddress 0 s.now (outgoing rest)))
      | _, .chsendWait rest => .ok ((s.dnsAt (k.cls 1) (afterSend rest)).coordinatorAt
          (.useAddress 1 s.now (outgoing rest)))
      | _, _ => .ok (s.coordinatorAt (.chooseWait s.now)).block
  | .useAddress idx nw addr =>
    if ipaddrEqual addr nulladdr false then .ok (s.coordinatorAt .choose)
    else if k.noBlocking then .ok (s.coordinatorAt .cancel)
    else .ok { s.coordinatorAt (.msleep idx nw) with
      cur := some (.attempt s.attempts.length)
      attempts := s.attempts ++ [{ fam := k.cls idx, addr := addr }] }
  | .msleep idx nw =>
    let s := if idx = 0 then
        { s with coordinator := { k with cls := ![k.cls 1, k.cls 0] } } else s
    if k.noBlocking then .ok (s.coordinatorAt .cancel)
    else .ok (s.coordinatorAt (.msleepWait (nw + 300))).block
  | .cancel =>
    match s.members.find? s.unfinished with
    | some w => .ok ((s.crClose w).coordinatorAt (.cancelWait w)).block
    | none => do
      let s ← s.hclose [k.bndl]
      .ok (s.coordinatorAt .hclose)
  | .hclose => do
    let s ← s.hclose [k.chipv4.1, k.chipv4.2, k.chipv6.1, k.chipv6.2]
    let s := (s.coordinatorAt .done).block
    match s.main.pc with
    | .exit3Wait r => .ok (s.mainAt (.exit3 r))
    | _ => .ok s
  | _ => .error .stuck

/-- `dill_happyeyeballs_dnsquery`. -/
def dnsquery (c : Call) (s : St) (f : Fam) (x : Input) : Except Stop St :=
  match (s.dns f).pc with
  | .remotes =>
    match x with
    | .block => if (s.dns f).noBlocking then .error .stuck else .ok (s.dnsAt f .remotesWait).block
    | .answers l =>
      if Answers c f l then
        .ok { s with dns := Function.update s.dns f { s.dns f with pc := .chsend l, addrs := l } }
      else .error .stuck
    | _ => .error .stuck
  | .chsend rest =>
    if (s.dns f).noBlocking then .ok (s.dnsAt f (.leave false))
    else match s.coordinator.receive f (outgoing rest) with
      | some pc => .ok ((s.coordinatorAt pc).dnsAt f (afterSend rest))
      | none => .ok (s.dnsAt f (.chsendWait rest)).block
  | .leave marked => .ok ((s.dnsAt f (.done marked)).epilogue (.dnsquery f)).block
  | _ => .error .stuck

/-- `dill_happyeyeballs_attempt`. -/
def attempt (s : St) (i : ℕ) (x : Input) : Except Stop St :=
  match s.attempts[i]? with
  | none => .error .stuck
  | some a =>
    match a.pc with
    | .connect =>
      match x with
      | .block => if a.noBlocking then .error .stuck else .ok (s.attemptAt i .connectWait).block
      | .conn none => .ok (s.attemptAt i .leave)
      | .conn (some h) => do
        let s ← s.hmake [h]
        .ok { s with attempts := s.attempts.modify i fun a =>
          { a with pc := .chsend h, conn := some h } }
      | _ => .error .stuck
    | .chsend conn =>
      if a.noBlocking then .ok (s.attemptAt i (.hclose conn))
      else match s.main.pc with
        | .chrecvWait => .ok ((s.attemptAt i .leave).mainAt (.exit3 (.ok conn)))
        | _ => .ok (s.attemptAt i (.chsendWait conn)).block
    | .hclose conn => do
      let s ← s.hclose [conn]
      .ok (s.attemptAt i .leave)
    | .leave => .ok ((s.attemptAt i .done).epilogue (.attempt i)).block
    | _ => .error .stuck

/-! ## Steps -/

/-- A clause on a socket fires: the function that waits on it goes on. -/
def event (s : St) : Who → Except Stop St
  | .dnsquery f =>
    match (s.dns f).pc with
    | .remotesWait => .ok (s.dnsAt f .remotes)
    | _ => .error .stuck
  | .attempt i =>
    match (s.attempts[i]?).map Attempt.pc with
    | some .connectWait => .ok (s.attemptAt i .connect)
    | _ => .error .stuck
  | _ => .error .stuck

/-- A timer fires. -/
def timeout (c : Call) (s : St) : Who → Except Stop St
  | .main =>
    match s.main.pc with
    | .chrecvWait =>
      if 0 ≤ c.deadline ∧ c.deadline ≤ s.now then .ok (s.mainAt (.exit3 (.error .ETIMEDOUT)))
      else .error .stuck
    | _ => .error .stuck
  | .coordinator =>
    match s.coordinator.pc with
    | .chrecvWait deadline =>
      if deadline ≤ s.now then .ok (s.coordinatorAt .choose) else .error .stuck
    | .msleepWait deadline =>
      if deadline ≤ s.now then .ok (s.coordinatorAt .choose) else .error .stuck
    | _ => .error .stuck
  | _ => .error .stuck

/-- The coroutine of the caller is closed by another one while the caller is in `dill_chrecv` (or
about to enter or to leave it). -/
def cancel (s : St) : Except Stop St :=
  if s.main.noBlocking then .error .stuck
  else match s.main.pc with
    | .chrecvWait => .ok { s with
        main := { s.main with pc := .exit3 (.error .ECANCELED), noBlocking := true } }
    | .chrecv => .ok { s with main := { s.main with noBlocking := true } }
    | .exit3 _ => .ok { s with main := { s.main with noBlocking := true } }
    | _ => .error .stuck

/-- One step. Everything but the running coroutine and the clock has to wait until it is
suspended. -/
def step (c : Call) (s : St) : Act → Except Stop St
  | .run x =>
    match s.cur with
    | some .main => s.connect c x
    | some .coordinator => s.coordinate x
    | some (.dnsquery f) => s.dnsquery c f x
    | some (.attempt i) => s.attempt i x
    | none => .error .stuck
  | .resume w => if s.cur = none ∧ s.ready w then .ok { s with cur := some w } else .error .stuck
  | .event w => if s.cur = none then s.event w else .error .stuck
  | .timeout w => if s.cur = none then s.timeout c w else .error .stuck
  | .tick d => .ok { s with now := s.now + d }
  | .cancel => if s.cur = none then s.cancel else .error .stuck

end St

/-- The call is entered, at any time and with any open handles. -/
structure Init (base : Finset ℕ) (s : St) : Prop where
  cur : s.cur = some .main
  handles : s.handles = base
  main : s.main.pc = .start
  canceled : s.main.noBlocking = false
  coordinator : s.coordinator = {}
  dns : s.dns = fun _ => {}
  attempts : s.attempts = []

/-- The states the call goes through. -/
abbrev Reachable (c : Call) (base : Finset ℕ) (s : St) : Prop :=
  Reach (St.step c) (Init base) (fun _ _ => True) s

end Libdill.Happyeyeballs
