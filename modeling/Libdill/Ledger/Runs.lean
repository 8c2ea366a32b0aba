import Libdill.Foundations.Run
import Libdill.Ledger.Specs

/-!
# The ledger

Any number of coroutines call the functions of `Ledger/Open.lean`. A call runs until it is done or
waits, and the end of the wait of any of the calls comes next, or the call of another coroutine. The
program also has descriptors of its own, which it opens, closes and hands to the `fromfd` functions.

`books_balance`: every open descriptor belongs to one socket, to one waiting call, to the program, or
it is lost; every block belongs to one socket or waiting call, or it is lost; and no step closes,
frees or uses what is not there, or closes a descriptor that somebody waits for. What is lost is what
`Act.lostFds` and `Act.lostObjs` say: a duplicate made by a `fromfd` function, when no handle can be
made for it, the memory of the second socket of `dill_ipc_pair`, when no handle can be made for that
one, and all descriptors of a message but the first.
-/

namespace Libdill.Ledger

open Foundations Libdill.Sock Libdill.Utils

/-- Where the memory of a new object comes from: it is allocated, or the caller passes it, or
`NULL`. -/
inductive Place
  | heap
  | storage (mem : Option ℕ)

/-- The functions. -/
inductive Op
  | tcpFromfd (p : Place) (fd : ℤ)
  | tcpListenerFromfd (p : Place) (fd : ℤ)
  | ipcFromfd (p : Place) (fd : ℤ)
  | ipcListenerFromfd (p : Place) (fd : ℤ)
  | tcpConnect (p : Place) (addr : Ipaddr)
  | ipcConnect (p : Place) (addr : CString)
  | tcpListen (p : Place) (addr : Ipaddr)
  | ipcListen (p : Place) (addr : CString)
  | tcpAccept (p : Place) (s : ℤ)
  | ipcAccept (p : Place) (s : ℤ)
  | udpOpen (p : Place) (localAddr remote : Option Ipaddr)
  | ipcPair
  | ipcPairMem (mem : Option (ℕ × ℕ))
  | ipcRecvfd (h : ℤ)
  | tcpClose (h : ℤ)
  | ipcClose (h : ℤ)
  | hclose (h : ℤ)

/-- The variant of a function for a place. -/
def Place.call (p : Place) (alloc : M Progress) (mem : Option ℕ → M Progress) : M Progress :=
  match p with
  | .heap => alloc
  | .storage m => mem m

def Op.run : Op → M Progress
  | .tcpFromfd p fd => p.call (Ledger.tcpFromfd fd) (tcpFromfdMem fd)
  | .tcpListenerFromfd p fd => p.call (Ledger.tcpListenerFromfd fd) (tcpListenerFromfdMem fd)
  | .ipcFromfd p fd => p.call (Ledger.ipcFromfd fd) (ipcFromfdMem fd)
  | .ipcListenerFromfd p fd => p.call (Ledger.ipcListenerFromfd fd) (ipcListenerFromfdMem fd)
  | .tcpConnect p addr => p.call (Ledger.tcpConnect addr) (tcpConnectMem addr)
  | .ipcConnect p addr => p.call (Ledger.ipcConnect addr) (ipcConnectMem addr)
  | .tcpListen p addr => p.call (Ledger.tcpListen addr) (tcpListenMem addr)
  | .ipcListen p addr => p.call (Ledger.ipcListen addr) (ipcListenMem addr)
  | .tcpAccept p s => p.call (Ledger.tcpAccept s) (tcpAcceptMem s)
  | .ipcAccept p s => p.call (Ledger.ipcAccept s) (ipcAcceptMem s)
  | .udpOpen p l r => p.call (Ledger.udpOpen l r) (udpOpenMem l r)
  | .ipcPair => Ledger.ipcPair
  | .ipcPairMem mem => Ledger.ipcPairMem mem
  | .ipcRecvfd h => Ledger.ipcRecvfd h
  | .tcpClose h => Ledger.tcpClose h
  | .ipcClose h => Ledger.ipcClose h
  | .hclose h => do
    Ledger.hclose h
    return .done 0

/-- A waiting call goes on. -/
def Pending.resume (r : Except Errno Unit) : Pending → M Progress
  | .connect kind alloc s a =>
    if alloc then onHeap a (connected kind s a r) else connected kind s a r
  | .accept kind alloc s a => if alloc then onHeap a (accepted kind s a r) else accepted kind s a r
  | .close h _ => closed h r
  | .recvfd _ => receivedFd r

/-- What happens next: a call, the end of the wait of another one, or the program opens or closes a
descriptor of its own. -/
inductive Ev
  | call (op : Op)
  | wake (p : Pending) (r : Except Errno Unit)
  | enter (d : Desc)
  | drop (fd : ℤ)

def Ev.run : Ev → M Progress
  | .call op => op.run
  | .wake p r => fun w =>
    if p ∈ w.calls then p.resume r { w with calls := w.calls.erase p } else .error .blocked
  | .enter d => do
    let s ← result (← answer Reply.fd?)
    let s ← opened d s
    return .done s
  | .drop fd => do
    close fd
    return .done 0

/-- An event and the answers it gets. -/
structure Act where
  ev : Ev
  env : List Reply

/-- A call that waits is put down. -/
def World.settle (w : World) : Except Errno Progress → World
  | .ok (.waits p) => { w with calls := p :: w.calls }
  | _ => w

/-! ## The accounts -/

/-- The descriptor handed to a `fromfd` function. -/
def Op.fromfd? : Op → Option (Place × ℤ)
  | .tcpFromfd p fd => some (p, fd)
  | .tcpListenerFromfd p fd => some (p, fd)
  | .ipcFromfd p fd => some (p, fd)
  | .ipcListenerFromfd p fd => some (p, fd)
  | _ => none

/-- The answers without that of `malloc`. -/
def Place.rest : Place → List Reply → List Reply
  | .heap, env => env.tail
  | .storage _, env => env

/-- A `fromfd` function has taken the descriptor over. -/
def takenOver : List Reply → Bool
  | [.call _, .call _, .fd (.ok _), .made _] => true
  | _ => false

/-- **A duplicate is left behind**: there was no handle for it. -/
def leftBehind : List Reply → List ℤ
  | [.call _, .call _, .fd (.ok n), .made (.error _)] => [n]
  | _ => []

/-- **The memory of the second socket of a pair is left behind**: there was no handle for it. -/
def pairBehind : List Reply → List ℕ
  | [.socketpair _, .malloc _, .malloc (some b), .made (.ok _), .made (.error _)] => [b]
  | _ => []

/-- The descriptors of a message. -/
def messageFds : List Reply → List ℤ
  | [.rights (.ok fds)] => fds.map Prod.fst
  | _ => []

/-- The descriptors of the program after a step. -/
def Act.mine (a : Act) (mine : List ℤ) : List ℤ :=
  match a.ev with
  | .call op =>
    match op.fromfd? with
    | some (p, fd) => if takenOver (p.rest a.env) then mine.erase fd else mine
    | none => mine
  | .wake (.recvfd _) _ => (messageFds a.env).take 1 ++ mine
  | .wake _ _ => mine
  | .enter _ =>
    match a.env with
    | [.fd (.ok s)] => s :: mine
    | _ => mine
  | .drop fd => mine.erase fd

/-- The descriptors that a step loses. -/
def Act.lostFds (a : Act) : List ℤ :=
  match a.ev with
  | .call op =>
    match op.fromfd? with
    | some (p, _) => leftBehind (p.rest a.env)
    | none => []
  | .wake (.recvfd _) _ => (messageFds a.env).drop 1
  | _ => []

/-- The blocks that a step loses. -/
def Act.lostObjs (a : Act) : List ℕ :=
  match a.ev with
  | .call .ipcPair => pairBehind a.env
  | _ => []

/-- The world with the accounts: the descriptors of the program, and what is lost. -/
structure State where
  world : World
  mine : List ℤ
  lostFds : List ℤ
  lostObjs : List ℕ

/-- A step; the answers are used up. -/
def State.next (s : State) (a : Act) : Except Stop State :=
  match a.ev.run { s.world with env := a.env } with
  | .error e => .error e
  | .ok (o, w) =>
    if w.env.isEmpty then
      .ok ⟨w.settle o, a.mine s.mine, a.lostFds ++ s.lostFds, a.lostObjs ++ s.lostObjs⟩
    else .error .blocked

/-- Before the first call. -/
def State.init : State where
  world := ⟨[], fun _ => ⟨none, .other, false, false⟩, [], [], [], [], []⟩
  mine := []
  lostFds := []
  lostObjs := []

/-! ## What callers are to do -/

/-- The memory that is passed is not that of another socket. -/
def Place.Free (w : World) : Place → Prop
  | .heap => True
  | .storage none => True
  | .storage (some a) => a ∉ w.addrs

/-- The handle has not been closed with `dill_tcp_close` or `dill_ipc_close`, and nobody waits for
its descriptor. -/
def Unused (w : World) (h : ℤ) : Prop :=
  h ∉ w.stale ∧ ∀ c ∈ w.socks, c.1 = h → ∀ p ∈ w.calls, p.fd ≠ c.2.fd

/-- The handle is being closed. -/
def Pending.closes (h : ℤ) : Pending → Bool
  | .close h' _ => h' == h
  | _ => false

/-- The caller passes `NULL`. -/
def Place.isNull : Place → Bool
  | .storage none => true
  | _ => false

/-- What a call may be passed. `dill_ipc_listen_mem` takes no `NULL`. -/
def Op.Allowed (s : State) : Op → Prop
  | .tcpFromfd p fd => p.Free s.world ∧ (fd ∈ s.mine ∨ fd ∉ s.world.fds)
  | .tcpListenerFromfd p fd => p.Free s.world ∧ (fd ∈ s.mine ∨ fd ∉ s.world.fds)
  | .ipcFromfd p fd => p.Free s.world ∧ (fd ∈ s.mine ∨ fd ∉ s.world.fds)
  | .ipcListenerFromfd p fd => p.Free s.world ∧ (fd ∈ s.mine ∨ fd ∉ s.world.fds)
  | .tcpConnect p _ => p.Free s.world
  | .ipcConnect p _ => p.Free s.world
  | .tcpListen p _ => p.Free s.world
  | .ipcListen p _ => p.Free s.world ∧ p.isNull = false
  | .tcpAccept p h => p.Free s.world ∧ h ∉ s.world.stale
  | .ipcAccept p h => p.Free s.world ∧ h ∉ s.world.stale
  | .udpOpen p _ _ => p.Free s.world
  | .ipcPair => True
  | .ipcPairMem none => True
  | .ipcPairMem (some c) => c.1 ≠ c.2 ∧ c.1 ∉ s.world.addrs ∧ c.2 ∉ s.world.addrs
  | .ipcRecvfd h => h ∉ s.world.stale ∧ ∀ p ∈ s.world.calls, p.closes h = false
  | .tcpClose h => Unused s.world h
  | .ipcClose h => Unused s.world h
  | .hclose h => Unused s.world h

/-- What may happen next. -/
def Allowed (s : State) (a : Act) : Prop :=
  match a.ev with
  | .call op => op.Allowed s
  | .wake p _ => p ∈ s.world.calls
  | .enter _ => True
  | .drop fd => fd ∈ s.mine

instance (w : World) (p : Place) : Decidable (p.Free w) :=
  match p with
  | .heap => isTrue trivial
  | .storage none => isTrue trivial
  | .storage (some a) => inferInstanceAs (Decidable (a ∉ w.addrs))

instance (w : World) (h : ℤ) : Decidable (Unused w h) :=
  inferInstanceAs (Decidable (h ∉ w.stale ∧ ∀ c ∈ w.socks, c.1 = h → ∀ p ∈ w.calls, p.fd ≠ c.2.fd))

instance (s : State) : (op : Op) → Decidable (op.Allowed s)
  | .tcpFromfd p fd | .tcpListenerFromfd p fd | .ipcFromfd p fd | .ipcListenerFromfd p fd =>
    inferInstanceAs (Decidable (p.Free s.world ∧ (fd ∈ s.mine ∨ fd ∉ s.world.fds)))
  | .tcpConnect p _ | .ipcConnect p _ | .tcpListen p _ | .udpOpen p _ _ =>
    inferInstanceAs (Decidable (p.Free s.world))
  | .ipcListen p _ => inferInstanceAs (Decidable (p.Free s.world ∧ p.isNull = false))
  | .tcpAccept p h | .ipcAccept p h =>
    inferInstanceAs (Decidable (p.Free s.world ∧ h ∉ s.world.stale))
  | .ipcPair | .ipcPairMem none => isTrue trivial
  | .ipcPairMem (some c) =>
    inferInstanceAs (Decidable (c.1 ≠ c.2 ∧ c.1 ∉ s.world.addrs ∧ c.2 ∉ s.world.addrs))
  | .ipcRecvfd h =>
    inferInstanceAs (Decidable (h ∉ s.world.stale ∧ ∀ p ∈ s.world.calls, p.closes h = false))
  | .tcpClose h | .ipcClose h | .hclose h => inferInstanceAs (Decidable (Unused s.world h))

instance (s : State) : (a : Act) → Decidable (Allowed s a)
  | ⟨.call op, _⟩ => inferInstanceAs (Decidable (op.Allowed s))
  | ⟨.wake p _, _⟩ => inferInstanceAs (Decidable (p ∈ s.world.calls))
  | ⟨.enter _, _⟩ => isTrue trivial
  | ⟨.drop fd, _⟩ => inferInstanceAs (Decidable (fd ∈ s.mine))

/-! ## Calls that wait -/

variable {w w' w₀ : World} {F : List ℤ} {O : List ℕ} {s h : ℤ} {a : ℕ} {x : Sock} {kind : Kind}
  {p q : Pending}

/-- A call that is closing its socket. -/
def Pending.closing : Pending → Bool
  | .close _ _ => true
  | _ => false

/-- While a socket is being closed, nobody else waits for its descriptor. -/
def Apart (p q : Pending) : Prop := p.fd = q.fd → p.closing = false ∧ q.closing = false

theorem Apart.symm (h : Apart p q) : Apart q p := fun heq => (h heq.symm).symm

/-- **The invariant.** The books are kept and the calls do not get in the way of each other. -/
structure Good (w : World) (F : List ℤ) (O : List ℕ) : Prop extends Books w F O where
  apart : w.calls.Pairwise Apart

theorem Books.sock_of_fd (hb : Books w F O) {c d : ℤ × Sock} (hc : c ∈ w.socks) (hd : d ∈ w.socks)
    (heq : c.2.fd = d.2.fd) : c = d := by
  have hnodup := (List.nodup_append.mp (List.nodup_append.mp hb.disjoint).1).1
  exact List.inj_on_of_nodup_map hnodup hc hd heq

theorem listener_listener {k : Kind} (h : kind.listener = some k) : k.listener = none := by
  cases kind with
  | tcp =>
    cases h
    rfl
  | ipc =>
    cases h
    rfl
  | tcpListener => cases h
  | ipcListener => cases h
  | udp => cases h

/-- A call that begins to wait, and is not closing anything, does not wait for what is being
closed. -/
theorem Books.apart_new (hb : Books w (p.fds ++ F) O) (hp : p.Waits w) {a : ℕ} (ha : p.addrs = [a])
    (hq : q ∈ w.calls) : Apart p q := by
  intro heq
  have hwaits := hb.waits q hq
  cases p with
  | close h s => cases ha
  | recvfd s => cases ha
  | connect k alloc s a =>
    have hne := hb.held_ne (hb.held_of_waits hq) (List.mem_append_left _ List.mem_cons_self)
    exact absurd heq.symm hne
  | accept k alloc s a =>
    refine ⟨rfl, ?_⟩
    cases q with
    | close h s' =>
      obtain ⟨c, hc, hfd, hkind⟩ := hp
      obtain ⟨d, hd, hfd', -, hkind'⟩ := hwaits
      have hcd := hb.sock_of_fd hc hd (by rw [hfd, hfd']; exact heq)
      rw [← hcd] at hkind'
      rw [listener_listener hkind] at hkind'
      cases hkind'
    | connect => rfl
    | accept => rfl
    | recvfd => rfl

/-- A call begins to wait. -/
theorem Good.push (hw : At w₀ (p.fds ++ F) (p.blocks ++ O) w) (hp : p.Waits w)
    (haddrs : (p.addrs ++ w.addrs).Nodup) (hapart : ∀ q ∈ w.calls, Apart p q)
    (hcalls : w.calls.Pairwise Apart) : Good { w with calls := p :: w.calls } F O := by
  refine ⟨⟨?_, ?_, hw.nodup_fds, hw.nodup_heap, ?_, hw.nodup_handles, hw.suits, ?_⟩,
    List.pairwise_cons.mpr ⟨hapart, hcalls⟩⟩
  · refine hw.fds.trans (List.perm_iff_count.mpr fun t => ?_)
    simp only [World.held, List.flatMap_cons, List.count_append]
    omega
  · refine hw.heap.trans (List.perm_iff_count.mpr fun b => ?_)
    simp only [World.blocks, List.flatMap_cons, List.count_append]
    omega
  · refine (List.Perm.nodup_iff (List.perm_iff_count.mpr fun b => ?_)).mp haddrs
    simp only [World.addrs, List.flatMap_cons, List.count_append]
    omega
  · intro q hq
    obtain rfl | hq := List.mem_cons.mp hq
    · exact hp.mono (fun _ h => h) fun _ _ => rfl
    · exact (hw.waits q hq).mono (fun _ h => h) fun _ _ => rfl

/-- The world without a waiting call. -/
def World.pull (w : World) (p : Pending) : World := { w with calls := w.calls.erase p }

/-- A waiting call goes on: what it has is nobody else's. -/
theorem Good.pull (hw : Good w F O) (hp : p ∈ w.calls) :
    Good (w.pull p) (p.fds ++ F) (p.blocks ++ O) ∧ p.Waits (w.pull p) ∧
      (∀ a ∈ p.addrs, a ∉ (w.pull p).addrs) ∧ ∀ q ∈ (w.pull p).calls, Apart p q := by
  have hperm := List.perm_cons_erase hp
  have hmono : ∀ q : Pending, q.Waits w → q.Waits (w.pull p) :=
    fun q hq => hq.mono (fun _ h => h) fun _ _ => rfl
  have hcount : ∀ {α : Type} [DecidableEq α] (f : Pending → List α) (b : α),
      (w.calls.flatMap f).count b = (f p).count b + ((w.calls.erase p).flatMap f).count b := by
    intro α _ f b
    rw [(hperm.flatMap_right f).count_eq, List.flatMap_cons, List.count_append]
  have haddrs : (p.addrs ++ (w.pull p).addrs).Nodup := by
    refine (List.Perm.nodup_iff (List.perm_iff_count.mpr fun b => ?_)).mp hw.nodup_addrs
    simp only [World.addrs, World.pull, List.count_append, hcount]
    omega
  have hpairs := (hperm.pairwise_iff Apart.symm).mp hw.apart
  rw [List.pairwise_cons] at hpairs
  refine ⟨⟨⟨?_, ?_, hw.nodup_fds, hw.nodup_heap, haddrs.of_append_right, hw.nodup_handles, hw.suits,
    ?_⟩, hpairs.2⟩, hmono p (hw.waits p hp), ?_, hpairs.1⟩
  · refine hw.fds.trans (List.perm_iff_count.mpr fun t => ?_)
    simp only [World.held, World.pull, List.count_append, hcount]
    omega
  · refine hw.heap.trans (List.perm_iff_count.mpr fun b => ?_)
    simp only [World.blocks, World.pull, List.count_append, hcount]
    omega
  · intro q hq
    exact hmono q (hw.waits q (List.mem_of_mem_erase hq))
  · intro b hb hb'
    exact (List.nodup_append.mp haddrs).2.2 b hb b hb' rfl

/-! ## Steps -/

/-- The end of a step. -/
def Ends (s : State) (a : Act) (o : Except Errno Progress) (w : World) : Prop :=
  w.env = [] → Good (w.settle o) (a.mine s.mine ++ (a.lostFds ++ s.lostFds)) (a.lostObjs ++ s.lostObjs)

/-- The books of a state. -/
def State.Balanced (s : State) : Prop := Good s.world (s.mine ++ s.lostFds) s.lostObjs

theorem Good.of_at (hw : At w₀ F O w) (hcalls : w₀.calls.Pairwise Apart) : Good w F O :=
  ⟨hw.toBooks, hw.calls ▸ hcalls⟩

/-- **A call that makes a socket.** -/
theorem Settled.good {o : Except Errno Progress} (h : Settled kind w₀ F O o w)
    (hcalls : w₀.calls.Pairwise Apart) : Good (w.settle o) F O := by
  match o with
  | .error e => exact .of_at h hcalls
  | .ok (.done h') =>
    obtain ⟨x, -, hat⟩ := h
    exact ⟨hat.toBooks, hat.calls ▸ hcalls⟩
  | .ok (.waits p) =>
    obtain ⟨hat, hwaits, -, a, haddrs, ha⟩ := h
    refine .push hat hwaits ?_ (fun q hq => hat.apart_new hwaits haddrs hq) (hat.calls ▸ hcalls)
    rw [haddrs]
    refine List.nodup_cons.mpr ⟨?_, hat.nodup_addrs⟩
    change a ∉ w.addrs
    rw [hat.addrs]
    exact ha

/-- A function that makes a socket, in either variant. -/
theorem opens_keeps {f : Option ℕ → M Progress} {p : Place} (hw : At w₀ F O w) (hp : p.Free w₀)
    (hnull : p = .storage none → f none w = .ok (.error .EINVAL, w))
    (hf : ∀ a O w, At w₀ F O w → a ∉ w₀.addrs → Keeps (f (some a)) w (Ended kind w₀ F O a)) :
    Keeps (p.call (allocating f) f) w (Settled kind w₀ F O) := by
  cases p with
  | heap => exact allocating_keeps hw hf
  | storage mem =>
    cases mem with
    | none => exact .of_ok (hnull rfl) hw
    | some a => exact (hf a O w hw hp).mono fun o w' h => h.settled hp

theorem Good.perm {F' : List ℤ} (hw : Good w F O) (hF : F.Perm F') : Good w F' O :=
  ⟨hw.toBooks.perm hF (.refl O), hw.apart⟩

/-! ### The `fromfd` functions -/

theorem short_answers {env : List Reply} (h : env.length ≤ 3) :
    takenOver env = false ∧ leftBehind env = [] := by
  constructor
  · unfold takenOver
    split
    · simp only [List.length_cons, List.length_nil] at h
      omega
    · rfl
  · unfold leftBehind
    split
    · simp only [List.length_cons, List.length_nil] at h
      omega
    · rfl

/-- The accounts of a `fromfd` function for the answers `env`. -/
def fromfdAccount (env : List Reply) (fd : ℤ) (mine lost : List ℤ) : List ℤ :=
  (if takenOver env then mine.erase fd else mine) ++ (leftBehind env ++ lost)

theorem fromfdAccount_short {env : List Reply} (h : env.length ≤ 3) (fd : ℤ) (mine lost : List ℤ) :
    fromfdAccount env fd mine lost = mine ++ lost := by
  unfold fromfdAccount
  rw [(short_answers h).1, (short_answers h).2]
  rfl

theorem Handed.good {fd : ℤ} {mine lost : List ℤ} {env : List Reply} {o : Except Errno Progress}
    (hfd : fd ∈ mine) (h : Handed w₀ fd (mine.erase fd ++ lost) O env o w) (henv : w.env = [])
    (hcalls : w₀.calls.Pairwise Apart) : Good (w.settle o) (fromfdAccount env fd mine lost) O := by
  have hmine : (fd :: (mine.erase fd ++ lost)).Perm (mine ++ lost) :=
    (List.perm_cons_erase hfd).symm.append_right lost
  match o with
  | .error e =>
    obtain ⟨hat, used, hlen, hused⟩ | ⟨n, e', u, v, hat, hused⟩ := h
    · rw [henv, List.append_nil] at hused
      rw [hused, fromfdAccount_short hlen]
      exact (Good.of_at hat hcalls).perm hmine
    · rw [henv, List.append_nil] at hused
      subst hused
      exact (Good.of_at hat hcalls).perm List.perm_middle.symm
  | .ok (.done h') =>
    obtain ⟨x, n, u, v, hat, hused⟩ := h
    rw [henv, List.append_nil] at hused
    subst hused
    exact ⟨hat.toBooks, hat.calls ▸ hcalls⟩
  | .ok (.waits p) => exact h.elim

theorem fromfd_good {families : List Family} {listening : Bool} {fd : ℤ} {mine lost : List ℤ}
    {p : Place} (hw : Good w (mine ++ lost) O) (hkind : kind.type = .stream ∧ kind.families = families)
    (hp : p.Free w) (hfd : fd ∈ mine ∨ fd ∉ w.fds) :
    Keeps (p.call (allocating (fromfdMem kind families listening fd))
      (fromfdMem kind families listening fd)) w fun o w' =>
        w'.env = [] → Good (w'.settle o) (fromfdAccount (p.rest w.env) fd mine lost) O := by
  -- If the function fails at once, it has got no answer of its own.
  have hnothing : ∀ {w'} {e : Errno} {env}, At w (mine ++ lost) O w' → env = w'.env → w'.env = [] →
      Good (w'.settle (.error e)) (fromfdAccount env fd mine lost) O := by
    intro w' e env hat henv hnil
    rw [henv, hnil, fromfdAccount_short (Nat.zero_le _)]
    exact .of_at hat hw.apart
  by_cases hclosed : fd ∈ w.fds
  · have hmem : fd ∈ mine := hfd.resolve_right fun h => h hclosed
    have hmine : (mine ++ lost).Perm (fd :: (mine.erase fd ++ lost)) :=
      (List.perm_cons_erase hmem).append_right lost
    have hat := hw.toBooks.at.perm hmine (.refl O)
    cases p with
    | heap =>
      refine (fromfd_keeps hat hkind).mono ?_
      rintro o w' ⟨r, env, henv, hhanded⟩ hnil
      change Good _ (fromfdAccount w.env.tail fd mine lost) O
      rw [henv]
      exact hhanded.good hmem hnil hw.apart
    | storage mem =>
      cases mem with
      | none =>
        refine .of_ok (Call.bind_fail Call.require_false) fun hnil => ?_
        exact hnothing hw.toBooks.at rfl hnil
      | some a =>
        refine (fromfdMem_keeps hat hkind hp).mono ?_
        intro o w' htaken hnil
        exact htaken.handed.good hmem hnil hw.apart
  · cases p with
    | heap =>
      refine (malloc_keeps hw.toBooks.at).bind ?_ ?_
      · rintro e w' ⟨hat, r, henv⟩ hnil
        refine hnothing hat ?_ hnil
        change w.env.tail = _
        rw [henv]
        rfl
      rintro a w' ⟨hat, -, henv, -⟩
      have hclosed' : fd ∉ w'.fds := by
        rw [hat.mem_fds]
        rwa [hw.toBooks.at.mem_fds] at hclosed
      obtain ⟨e, hrun⟩ := fromfdMem_closed kind families listening hclosed' (some a)
      refine Call.Meets.bind (Q := Outcome (Left w (mine ++ lost) fun O' env => O' = O ∧ env = w'.env)
        fun _ _ => False) ?_ ?_ (fun r w'' h => h.elim)
      · exact free_left (.of_ok hrun ⟨a :: O, hat, O, rfl, rfl, rfl⟩)
      · rintro e' w'' ⟨O', hat', rfl, henv'⟩ hnil
        refine hnothing hat' ?_ hnil
        change w.env.tail = _
        rw [henv, henv']
        rfl
    | storage mem =>
      obtain ⟨e, hrun⟩ := fromfdMem_closed kind families listening hclosed mem
      exact .of_ok hrun fun hnil => hnothing hw.toBooks.at rfl hnil

/-! ### The other functions -/

theorem closeOver_good {listener : Kind} (hw : Good w F O) (hkind : kind.listener = some listener)
    (hh : Unused w h) : Keeps (closeOver kind listener h) w fun o w' => Good (w'.settle o) F O := by
  refine (closeOver_keeps hw.toBooks.at hh.1 fun x hx => hh.2 (h, x) hx rfl).mono ?_
  intro o w' hend
  match o with
  | .error e =>
    obtain hat | ⟨x, -, hat⟩ := hend
    · exact .of_at hat hw.apart
    · exact ⟨hat.toBooks, hat.calls ▸ hw.apart⟩
  | .ok (.done r) =>
    obtain ⟨x, -, hat⟩ := hend
    exact ⟨hat.toBooks, hat.calls ▸ hw.apart⟩
  | .ok (.waits p) =>
    obtain ⟨x, hx, hk, rfl, hat⟩ := hend
    have hidle : ∀ q ∈ w'.calls, Apart (.close h x.fd) q :=
      fun q hq heq => absurd heq.symm (hh.2 (h, x) hx rfl q (hat.calls ▸ hq))
    refine .push hat ?_ hat.nodup_addrs hidle (hat.calls ▸ hw.apart)
    refine ⟨(h, x), hat.socks ▸ hx, rfl, rfl, ?_⟩
    change x.kind.listener.isSome = true
    rw [hk, hkind]
    rfl

theorem hclose_good (hw : Good w F O) (hh : Unused w h) :
    Keeps (do hclose h; return Progress.done 0) w fun o w' => Good (w'.settle o) F O := by
  have hat := hw.toBooks.at
  cases hl : w.socks.lookup h with
  | none =>
    have hrun : hclose h w = .ok (.error .EBADF, w) := by
      refine Call.bind_fail ?_
      unfold self
      rw [if_neg hh.1, hl]
    exact .of_ok (Call.bind_fail hrun) hw
  | some x =>
    obtain ⟨l₁, l₂, heq, -⟩ := List.lookup_eq_some_iff.mp hl
    have hx : (h, x) ∈ w.socks := by
      rw [heq]
      exact List.mem_append_right _ List.mem_cons_self
    refine (drop_keeps hat hx (hh.2 (h, x) hx rfl)).mono ?_
    rintro o w' ⟨rfl, hat'⟩
    exact ⟨hat'.toBooks, hat'.calls ▸ hw.apart⟩

theorem ipcRecvfd_good (hw : Good w F O) (hh : h ∉ w.stale)
    (hclose : ∀ p ∈ w.calls, p.closes h = false) :
    Keeps (ipcRecvfd h) w fun o w' => Good (w'.settle o) F O := by
  refine (ipcRecvfd_keeps hw.toBooks.at hh).mono ?_
  intro o w' hend
  match o with
  | .error e => exact .of_at hend hw.apart
  | .ok (.done r) => exact hend.elim
  | .ok (.waits p) =>
    obtain ⟨x, hx, rfl, hat⟩ := hend
    refine .push hat ⟨(h, x), hat.socks ▸ hx, rfl⟩ hat.nodup_addrs ?_ (hat.calls ▸ hw.apart)
    intro q hq heq
    refine ⟨rfl, ?_⟩
    cases q with
    | close h' s =>
      obtain ⟨c, hc, hfd, hhandle, -⟩ := hat.waits _ hq
      have hcx : c = (h, x) := hat.sock_of_fd hc (hat.socks ▸ hx) (hfd.trans heq.symm)
      subst hcx
      cases hhandle
      have hno := hclose _ (hat.calls ▸ hq)
      change (h == h) = false at hno
      rw [beq_self_eq_true] at hno
      cases hno
    | connect => rfl
    | accept => rfl
    | recvfd => rfl

theorem pairBehind_short {env : List Reply} (h : env.length ≤ 4) : pairBehind env = [] := by
  unfold pairBehind
  split
  · simp only [List.length_cons, List.length_nil] at h
    omega
  · rfl

theorem pairBehind_made (used : List Reply) (h : ℤ) : pairBehind (used ++ [.made (.ok h)]) = [] := by
  unfold pairBehind
  split
  · rename_i heq
    have hlast := congrArg List.getLast? heq
    simp at hlast
  · rfl

theorem ipcPair_good (hw : Good w F O) : Keeps ipcPair w fun o w' =>
    w'.env = [] → Good (w'.settle o) F (pairBehind w.env ++ O) := by
  refine (ipcPair_keeps hw.toBooks.at).mono ?_
  intro o w' hend hnil
  match o with
  | .error e =>
    obtain ⟨O', hat, hleft⟩ := hend
    obtain ⟨rfl, used, hlen, henv⟩ | ⟨fds, a, b, h, e', rfl, henv⟩ := hleft
    · rw [hnil, List.append_nil] at henv
      rw [henv, pairBehind_short hlen]
      exact .of_at hat hw.apart
    · rw [hnil, List.append_nil] at henv
      rw [henv]
      exact .of_at hat hw.apart
  | .ok (.done r) =>
    obtain ⟨⟨h, x, k, y, hat⟩, used, h', -, henv⟩ := hend
    rw [hnil] at henv
    rw [henv, pairBehind_made]
    exact ⟨hat.toBooks, hat.calls ▸ hw.apart⟩
  | .ok (.waits p) => exact hend.1.elim

/-- The kind of the socket that a function opens from nothing. -/
def Op.makes : Op → Option Kind
  | .tcpConnect _ _ | .tcpAccept _ _ => some .tcp
  | .ipcConnect _ _ | .ipcAccept _ _ => some .ipc
  | .tcpListen _ _ => some .tcpListener
  | .ipcListen _ _ => some .ipcListener
  | .udpOpen _ _ _ => some .udp
  | _ => none

theorem op_settles {s : State} {op : Op} (hop : op.makes = some kind) (hat : At w₀ F O w)
    (hw₀ : w₀.addrs = s.world.addrs ∧ w₀.stale = s.world.stale) (ha : op.Allowed s) :
    Keeps op.run w (Settled kind w₀ F O) := by
  have hfree : ∀ {p : Place}, p.Free s.world → p.Free w₀ := by
    intro p hp
    match p with
    | .heap => trivial
    | .storage none => trivial
    | .storage (some a) =>
      change a ∉ w₀.addrs
      rw [hw₀.1]
      exact hp
  have hstale : ∀ {h : ℤ}, h ∉ s.world.stale → h ∉ w₀.stale := by
    intro h hh
    rwa [hw₀.2]
  cases op with
  | tcpConnect p addr =>
    cases hop
    exact opens_keeps hat (hfree ha) (fun _ => rfl) fun a O w hw ha => tcpConnectMem_keeps hw ha
  | ipcConnect p addr =>
    cases hop
    exact opens_keeps hat (hfree ha) (fun _ => rfl) fun a O w hw ha => ipcConnectMem_keeps hw ha
  | tcpListen p addr =>
    cases hop
    exact opens_keeps hat (hfree ha) (fun _ => rfl) fun a O w hw ha => tcpListenMem_keeps hw ha
  | ipcListen p addr =>
    cases hop
    have hnull : p ≠ .storage none := by
      rintro rfl
      cases ha.2
    exact opens_keeps hat (hfree ha.1) (fun h => absurd h hnull)
      fun a O w hw ha => ipcListenMem_keeps hw ha
  | tcpAccept p h =>
    cases hop
    exact opens_keeps hat (hfree ha.1) (fun _ => rfl)
      fun a O w hw ha' => tcpAcceptMem_keeps hw (hstale ha.2) ha'
  | ipcAccept p h =>
    cases hop
    exact opens_keeps hat (hfree ha.1) (fun _ => rfl)
      fun a O w hw ha' => ipcAcceptMem_keeps hw (hstale ha.2) ha'
  | udpOpen p l r =>
    cases hop
    exact opens_keeps hat (hfree ha) (fun _ => rfl) fun a O w hw ha => udpOpenMem_keeps hw ha
  | _ => cases hop

/-- The step of a call. -/
theorem op_keeps {s : State} {op : Op} {env : List Reply} (hs : s.Balanced) (ha : op.Allowed s) :
    Keeps op.run { s.world with env := env } (Ends s ⟨.call op, env⟩) := by
  have hw : Good { s.world with env := env } (s.mine ++ s.lostFds) s.lostObjs :=
    ⟨(hs.toBooks.at.env env).toBooks, hs.apart⟩
  have hat := hw.toBooks.at
  have hopens : ∀ {kind}, op.makes = some kind → Keeps op.run { s.world with env := env } fun o w =>
      w.env = [] → Good (w.settle o) (s.mine ++ s.lostFds) s.lostObjs := by
    intro kind hop
    exact (op_settles hop hat ⟨rfl, rfl⟩ ha).mono fun o w' h _ => h.good hw.apart
  cases op with
  | tcpFromfd p fd => exact fromfd_good hw ⟨rfl, rfl⟩ ha.1 ha.2
  | tcpListenerFromfd p fd => exact fromfd_good hw ⟨rfl, rfl⟩ ha.1 ha.2
  | ipcFromfd p fd => exact fromfd_good hw ⟨rfl, rfl⟩ ha.1 ha.2
  | ipcListenerFromfd p fd => exact fromfd_good hw ⟨rfl, rfl⟩ ha.1 ha.2
  | tcpConnect p addr => exact hopens rfl
  | ipcConnect p addr => exact hopens rfl
  | tcpListen p addr => exact hopens rfl
  | ipcListen p addr => exact hopens rfl
  | tcpAccept p h => exact hopens rfl
  | ipcAccept p h => exact hopens rfl
  | udpOpen p l r => exact hopens rfl
  | ipcPair => exact ipcPair_good hw
  | ipcPairMem mem =>
    cases mem with
    | none => exact .of_ok rfl fun _ => hw
    | some conns =>
      obtain ⟨hne, h₁, h₂⟩ := ha
      refine (ipcPairMem_keeps hat hne h₁ h₂).mono ?_
      intro o w' hend _
      match o with
      | .error e => exact .of_at hend hw.apart
      | .ok (.done r) =>
        obtain ⟨h, x, k, y, hat'⟩ := hend
        exact ⟨hat'.toBooks, hat'.calls ▸ hw.apart⟩
      | .ok (.waits p) => exact hend.elim
  | ipcRecvfd h => exact (ipcRecvfd_good hw ha.1 ha.2).mono fun o w' h _ => h
  | tcpClose h => exact (closeOver_good hw rfl ha).mono fun o w' h _ => h
  | ipcClose h => exact (closeOver_good hw rfl ha).mono fun o w' h _ => h
  | hclose h => exact (hclose_good hw ha).mono fun o w' h _ => h

/-! ### The ends of waits -/

theorem messageFds_none {env : List Reply} (h : ∀ fd d fds, env ≠ [.rights (.ok ((fd, d) :: fds))]) :
    messageFds env = [] := by
  unfold messageFds
  split
  · rename_i fds
    cases fds with
    | nil => rfl
    | cons c fds => exact absurd rfl (h c.1 c.2 fds)
  · rfl

theorem resume_keeps (hw : At w₀ (p.fds ++ F) (p.blocks ++ O) w) (hp : p.Waits w₀)
    (haddrs : ∀ a ∈ p.addrs, a ∉ w₀.addrs) {a : ℕ} (ha : p.addrs = [a]) {r : Except Errno Unit}
    (hdesc : w.desc = w₀.desc) (hmakes : p.makes = some kind) :
    Keeps (p.resume r) w (Settled kind w₀ F O) := by
  have hfree : a ∉ w₀.addrs := haddrs a (ha ▸ List.mem_singleton.mpr rfl)
  cases p with
  | close h s => cases ha
  | recvfd s => cases ha
  | connect kind alloc s b =>
    cases ha
    cases hmakes
    have hsuits : kind.Suits (w.desc s) := by
      rw [hdesc]
      exact hp
    cases alloc with
    | true => exact onHeap_keeps (connected_keeps hw hsuits hfree) hfree
    | false => exact (connected_keeps hw hsuits hfree).mono fun o w' h => h.settled hfree
  | accept kind alloc s b =>
    cases ha
    cases hmakes
    cases alloc with
    | true => exact onHeap_keeps (accepted_keeps hw hp hfree) hfree
    | false => exact (accepted_keeps hw hp hfree).mono fun o w' h => h.settled hfree

theorem wake_keeps {s : State} {r : Except Errno Unit} {env : List Reply} (hs : s.Balanced)
    (hp : p ∈ s.world.calls) :
    Keeps (Ev.wake p r).run { s.world with env := env } (Ends s ⟨.wake p r, env⟩) := by
  have hw : Good { s.world with env := env } (s.mine ++ s.lostFds) s.lostObjs :=
    ⟨(hs.toBooks.at.env env).toBooks, hs.apart⟩
  obtain ⟨hgood, hwaits, haddrs, hapart⟩ := hw.pull hp
  have hrun : (Ev.wake p r).run { s.world with env := env } =
      p.resume r (World.pull { s.world with env := env } p) := if_pos hp
  unfold Keeps Call.Meets
  rw [hrun]
  change Keeps (p.resume r) _ (Ends s ⟨.wake p r, env⟩)
  cases p with
  | connect kind alloc fd a =>
    exact (resume_keeps hgood.toBooks.at hwaits haddrs rfl rfl rfl).mono
      fun o w' h _ => h.good hgood.apart
  | accept kind alloc fd a =>
    exact (resume_keeps hgood.toBooks.at hwaits haddrs rfl rfl rfl).mono
      fun o w' h _ => h.good hgood.apart
  | close h fd =>
    obtain ⟨⟨h', x⟩, hx, hfd, hh, -⟩ := hwaits
    cases hfd
    cases hh
    have hidle : World.Idle (World.pull { s.world with env := env } (.close h' x.fd)) x :=
      fun q hq heq => Bool.noConfusion (hapart q hq heq.symm).1
    refine (closed_keeps hgood.toBooks.at hx hidle).mono ?_
    rintro o w' ⟨hwaits, hat⟩ -
    have hsettle : w'.settle o = w' := by
      match o with
      | .error e => rfl
      | .ok (.done h) => rfl
      | .ok (.waits p) => exact absurd rfl (hwaits p)
    rw [hsettle]
    exact ⟨hat.toBooks, hat.calls ▸ hgood.apart⟩
  | recvfd fd =>
    refine (receivedFd_keeps hgood.toBooks.at).mono ?_
    intro o w' hend hnil
    match o with
    | .error e =>
      obtain ⟨hat, henv⟩ := hend
      rw [hnil] at henv
      have hmessage : messageFds env = [] := messageFds_none henv
      change Good w' (((messageFds env).take 1 ++ s.mine) ++ ((messageFds env).drop 1 ++ s.lostFds)) _
      rw [hmessage]
      exact .of_at hat hgood.apart
    | .ok (.done fd) =>
      obtain ⟨d, fds, henv, hat⟩ := hend
      rw [hnil] at henv
      cases henv
      refine (Good.of_at hat hgood.apart).perm ?_
      change (fd :: (fds.map Prod.fst ++ (s.mine ++ s.lostFds))).Perm
        (fd :: (s.mine ++ (fds.map Prod.fst ++ s.lostFds)))
      exact (List.perm_append_comm_assoc _ _ _).cons fd
    | .ok (.waits p) => exact hend.elim

/-- The program opens a descriptor. -/
theorem enter_keeps {s : State} {d : Desc} {env : List Reply} (hs : s.Balanced) :
    Keeps (Ev.enter d).run { s.world with env := env } (Ends s ⟨.enter d, env⟩) := by
  have hat := hs.toBooks.at.env env
  refine answer_keeps.bind (by rintro e w' ⟨r, env, hr, -⟩; cases hr) ?_
  rintro r w' ⟨r', env', hr, rfl, b, henv, hf⟩
  cases hr
  cases b with
  | fd q =>
    cases hf
    cases henv
    refine result_keeps.bind ?_ ?_
    · rintro e w' ⟨he, rfl⟩ hnil
      cases he
      exact .of_at (hat.env env') hs.apart
    · rintro n w' ⟨hn, rfl⟩
      cases hn
      refine (opened_keeps (hat.env env')).bind (by rintro e w' ⟨h, -⟩; cases h) ?_
      rintro m w' ⟨-, hat', -, henv', -⟩
      refine .ret fun hnil => ?_
      rw [hnil] at henv'
      cases henv'
      exact .of_at hat' hs.apart
  | _ => cases hf

theorem drop_keeps' {s : State} {fd : ℤ} {env : List Reply} (hs : s.Balanced) (hfd : fd ∈ s.mine) :
    Keeps (Ev.drop fd).run { s.world with env := env } (Ends s ⟨.drop fd, env⟩) := by
  have hmine : (s.mine ++ s.lostFds).Perm (fd :: (s.mine.erase fd ++ s.lostFds)) :=
    (List.perm_cons_erase hfd).append_right _
  have hat := (hs.toBooks.at.env env).perm hmine (.refl _)
  refine (close_keeps hat).bind (by rintro e w' ⟨h, -⟩; cases h) ?_
  rintro u w' ⟨-, hat', -⟩
  exact .ret fun _ => .of_at hat' hs.apart

/-! ## Runs -/

/-- **One step** keeps the books, and it ends unless an answer is missing. -/
theorem step_keeps {s : State} {a : Act} (hs : s.Balanced) (ha : Allowed s a) :
    Keeps a.ev.run { s.world with env := a.env } (Ends s a) := by
  obtain ⟨ev, env⟩ := a
  cases ev with
  | call op => exact op_keeps hs ha
  | wake p r => exact wake_keeps hs ha
  | enter d => exact enter_keeps hs
  | drop fd => exact drop_keeps' hs ha

theorem balanced_next {s s' : State} {a : Act} (hs : s.Balanced) (ha : Allowed s a)
    (hr : s.next a = .ok s') : s'.Balanced := by
  unfold State.next at hr
  split at hr
  · cases hr
  · rename_i o w hrun
    split at hr
    · rename_i hnil
      cases hr
      exact (step_keeps hs ha).returns hrun (List.isEmpty_iff.mp hnil)
    · cases hr

theorem balanced_init : State.init.Balanced :=
  ⟨⟨.refl _, .refl _, .nil, .nil, .nil, .nil, nofun, nofun⟩, .nil⟩

theorem next_stops {s : State} {a : Act} (hs : s.Balanced) (ha : Allowed s a) {e : Stop}
    (hr : s.next a = .error e) : e = .blocked := by
  unfold State.next at hr
  split at hr
  · rename_i e' hrun
    cases hr
    exact (step_keeps hs ha).stops hrun
  · split at hr
    · cases hr
    · cases hr
      rfl

theorem balanced_of_reach {s : State} (h : Reach State.next (· = .init) Allowed s) : s.Balanced := by
  refine h.invariant ?_ ?_
  · rintro s rfl
    exact balanced_init
  · intro s a s' hs ha hr
    exact balanced_next hs ha hr

/-- **The books balance.** In every run of calls, in any order and with any answers from outside,
every open descriptor is that of one socket, of one call that waits, of the program or lost, every
block is that of one socket or of one call that waits or lost, the descriptors of the sockets are of
the right type and do not block, and whatever may come next never closes or frees what is not there,
uses no object that is gone and closes no descriptor that somebody waits for. -/
theorem books_balance {s : State} (h : Reach State.next (· = .init) Allowed s) :
    Books s.world (s.mine ++ s.lostFds) s.lostObjs ∧
      ∀ a e, Allowed s a → s.next a = .error e → e = .blocked := by
  have hs := balanced_of_reach h
  exact ⟨hs.toBooks, fun a e ha hr => next_stops hs ha hr⟩

/-- A descriptor of the program cannot be made a socket; a connection is accepted and closed, while
the listener stays. -/
def refusedAndClosed : List Act :=
  [⟨.enter ⟨some .stream, .inet, false, false⟩, [.fd (.ok 5)]⟩,
    ⟨.call (.tcpFromfd .heap 5), [.malloc (some 1), .call (.ok ()), .call (.ok ()), .fd (.ok 6),
      .made (.error .ENOMEM)]⟩,
    ⟨.call (.tcpListen .heap ⟨false, 0⟩), [.malloc (some 1), .fd (.ok 5), .call (.ok ()),
      .call (.ok ()), .call (.ok ()), .made (.ok 0)]⟩,
    ⟨.call (.tcpAccept .heap 0), [.malloc (some 2), .fd (.error .EAGAIN)]⟩,
    ⟨.wake (.accept .tcp true 5 2) (.ok ()), [.fd (.error ECONNABORTED), .fd (.ok 7),
      .made (.ok 1)]⟩,
    ⟨.call (.tcpClose 1), [.call (.ok ())]⟩,
    ⟨.wake (.close 1 7) (.error .EPIPE), []⟩]

theorem books_balance_refused :
    ∃ s, runIf State.next Allowed .init refusedAndClosed = some s ∧ s.lostFds = [6] ∧
      s.world.fds = [5, 6] ∧ s.world.heap = [1] ∧ s.world.stale = [1] ∧
      Books s.world (s.mine ++ s.lostFds) s.lostObjs ∧
      ∀ a e, Allowed s a → s.next a = .error e → e = .blocked := by
  obtain ⟨s, hr, hp⟩ := exists_of_runIf State.next Allowed .init refusedAndClosed
    (fun s => decide (s.lostFds = [6] ∧ s.world.fds = [5, 6] ∧ s.world.heap = [1] ∧
      s.world.stale = [1])) (by decide +kernel)
  rw [decide_eq_true_eq] at hp
  exact ⟨s, hr, hp.1, hp.2.1, hp.2.2.1, hp.2.2.2, books_balance (reach_of_runIf (.init rfl) hr)⟩

end Libdill.Ledger
