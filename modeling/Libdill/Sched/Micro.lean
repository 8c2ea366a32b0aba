import Libdill.Sched.Elementary

/-!
# The moves a step is made of

A step of the scheduler is a sequence of *moves*: a clause is queued, a linked clause is triggered,
two channel operations meet, a coroutine is suspended, resumed or launched, a bundle is closed one
coroutine at a time. `Micro` lists them with everything the code has checked when it makes them.
That every function is a sequence of moves is proved once, in `Sched/Refine.lean`; an invariant of
the runs is then an invariant of the moves.

Between two moves of a step the running coroutine is in the middle of a call. `Cur` says where:
what it has already done, and what it is about to do.
-/

namespace Libdill.Sched

open Foundations

/-! ## What a call asks for and what it reports -/

/-- The channel operations a call asks for, in the order it tries them. -/
def Call.chanClauses : Call → List ChClause
  | .chsend h val len _ => [⟨some .out, h, val, len⟩]
  | .chrecv h val len _ => [⟨some .inn, h, val, len⟩]
  | .choose (some cls) _ => cls
  | _ => []

/-- A channel operation: its side, its half-channel and its buffer. -/
structure ChanArg where
  sd : Side
  half : HalfRef
  val : Addr
  len : ℕ
  deriving DecidableEq, Repr

/-- Channel operation `i` of a call, when the handles of the call stand for `objs`. -/
def Call.chanArg (c : Call) (objs : List (Option Obj)) (i : ℕ) : Option ChanArg :=
  match c.chanClauses[i]?, objs[i]? with
  | some ⟨some sd, _, val, len⟩, some (some (.half ch)) => some ⟨sd, Ctx.target ch sd, val, len⟩
  | _, _ => none

/-- What the result of a call says about its channel operations: which one was done, with
`errno` zero for a transfer and `EMSGSIZE` for a mismatch of the lengths; `none` when the call
reports neither. -/
def Call.verdict : Call → ℤ → Errno → Option (ℕ × Errno)
  | .chsend .., v, e => if v = 0 then some (0, .ok) else if e = .EMSGSIZE then some (0, e) else none
  | .chrecv .., v, e => if v = 0 then some (0, .ok) else if e = .EMSGSIZE then some (0, e) else none
  | .choose .., v, e =>
    if 0 ≤ v ∧ (e = .ok ∨ e = .EMSGSIZE) then some (v.toNat, e) else none
  | _, _, _ => none

/-- The same, read off the result a suspended coroutine is resumed with. -/
def Frame.verdict : Frame → ℤ → Errno → Option (ℕ × Errno)
  | .chan _, id, e => if id = 0 ∧ (e = .ok ∨ e = .EMSGSIZE) then some (0, e) else none
  | .choose n, id, e =>
    if 0 ≤ id ∧ id ≠ n ∧ (e = .ok ∨ e = .EMSGSIZE) then some (id.toNat, e) else none
  | _, _, _ => none

/-- The frames a call can be suspended in. -/
def Frame.Of : Frame → Call → List (Option Obj) → Prop
  | .go _, .go .., _ => True
  | .yield, .yield, _ => True
  | .msleep, .msleep _, _ => True
  | .fdwait, .fdwait .., _ => True
  | .chan .out, .chsend .., _ => True
  | .chan .inn, .chrecv .., _ => True
  | .choose n, .choose (some cls) _, _ => n = cls.length
  | .bundleWait b, .bundleWait .., objs => objs = [some (.bundle b)]
  | .crClose b h _ _, .hclose h', objs => h = h' ∧ objs = [some (.bundle b)]
  | _, _, _ => False

theorem Frame.Of.hclose {b : BundleId} {h : Handle} {old : Bool} {it : CrId} {c : Call}
    {objs : List (Option Obj)} (ho : (Frame.crClose b h old it).Of c objs) :
    c = .hclose h ∧ objs = [some (.bundle b)] := by
  cases c with
  | hclose h' => exact ⟨by rw [ho.1], ho.2⟩
  | _ => exact ho.elim

/-- The frames of a coroutine that waits on clauses. -/
def Frame.Waits : Frame → Prop
  | .msleep => True
  | .fdwait => True
  | .chan _ => True
  | .choose _ => True
  | .bundleWait _ => True
  | _ => False

/-- The clause is not triggered by a rendezvous. -/
def Cancel.Quiet : Cancel → Errno → Prop
  | .ch _ _, e => e = .EPIPE
  | _, _ => True

/-- A call in progress: its number, the call, and the objects its handles stand for. -/
structure Job where
  op : ℕ
  call : Call
  objs : List (Option Obj)

/-- The bundle a call closes. -/
def Job.closes (j : Job) : Option BundleId :=
  match j.call, j.objs with
  | .hclose _, [some (.bundle b)] => some b
  | _, _ => none

/-- The call closes an object of the user. -/
def Job.Holds (j : Job) (h : Handle) : Prop := j.call = .hclose h ∧ j.objs = [some .user]

theorem Job.closes_of_call {j : Job} {c : Call} (hj : j.call = c) (hc : ∀ h, c ≠ .hclose h) :
    j.closes = none := by
  unfold Job.closes
  rw [hj]
  cases c <;> first | rfl | exact absurd rfl (hc _)

theorem Job.closes_of_verdict {j : Job} {v : ℤ} {e : Errno} {x : ℕ × Errno}
    (hv : j.call.verdict v e = some x) : j.closes = none := by
  refine closes_of_call rfl fun h hc => ?_
  rw [hc] at hv
  cases hv

theorem Job.closes_of_objs {j : Job} {o : Option Obj} (ho : j.objs = [o])
    (hb : ∀ b, o ≠ some (.bundle b)) : j.closes = none := by
  unfold Job.closes
  rw [ho]
  split
  · rename_i heq
    cases heq
    exact absurd rfl (hb _)
  · rfl

/-- Where the running coroutine is between two moves. -/
inductive Cur
  /-- In the code of the user, or suspended. -/
  | idle
  /-- In a call; a channel operation of it may already have met another one. -/
  | busy (j : Job) (m : Option (ℕ × Errno))
  /-- Registering its clauses, to be suspended in the frame `f`. -/
  | waiting (j : Job) (f : Frame)
  /-- In the loop of `dill_chdone` over those who wait on a half-channel. -/
  | terming (j : Job) (ch : HalfRef)
  /-- In the loop of `dill_bundle_close`, with these coroutines still to be closed. -/
  | closing (j : Job) (b : BundleId) (h : Handle) (old : Bool) (rest : List CrId)
  /-- In `dill_epilogue`. -/
  | exiting

namespace Ctx

/-- Call `op` was made by coroutine `c`. -/
def Called (s : Ctx) (c : CrId) (j : Job) : Prop := .call j.op c j.call j.objs ∈ s.log

/-- A change of flags that matter neither to the scheduler nor to channels and bundles: handles
that are released or stand for objects of the user, `no_blocking2`, what is freed or closed. -/
structure Quiet (s s' : Ctx) : Prop where
  r : s'.r = s.r
  phase : s'.phase = s.phase
  ready : s'.ready = s.ready
  timers : s'.timers = s.timers
  ncrs : s'.ncrs = s.ncrs
  nchans : s'.nchans = s.nchans
  nbundles : s'.nbundles = s.nbundles
  mem : s'.mem = s.mem
  nops : s'.nops = s.nops
  log : s'.log = s.log
  cr : ∀ c, ∃ nb fr, s'.crs c = { s.crs c with noBlocking2 := nb, freed := fr }
  fresh : ∀ c, s.ncrs ≤ c → s'.crs c = s.crs c
  half : ∀ h, ∃ cl, s'.half h = { s.half h with closed := cl }
  freshHalf : ∀ h : HalfRef, s.nchans ≤ h.chan → s'.half h = s.half h
  bundle : ∀ b, ∃ fr, s'.bundles b = { s.bundles b with freed := fr }
  waiter : ∀ f sd, (s'.fds f).waiter sd = (s.fds f).waiter sd
  cached : ∀ f, (s'.fds f).cached = false →
    (s.fds f).cached = false ∨ ∀ sd, (s.fds f).waiter sd = none
  handles : ∀ h, s'.handles h = s.handles h ∨ s'.handles h = none ∨ s'.handles h = some .user

/-- The state after a channel operation has met the first clause `c` of the other side. -/
def met (s : Ctx) (op i : ℕ) (a : ChanArg) (c : ChanClause) : Ctx :=
  if a.len = c.len then
    let m := meeting a.half a.sd op i a.val a.len c .ok
    ((s.memcpy m.dst m.src a.len).wake c.cr c.id .ok).record m
  else (s.wake c.cr c.id .EMSGSIZE).record (meeting a.half a.sd op i a.val a.len c .EMSGSIZE)

/-- The state after `dill_chmake` has made its two handles. -/
def chmade (s : Ctx) (h₀ h₁ : Handle) : Ctx :=
  ({ s with
    nchans := s.nchans + 1
    half := Function.update (Function.update s.half ⟨s.nchans, false⟩ {}) ⟨s.nchans, true⟩ {} }
      |>.setHandle h₀ (some (.half ⟨s.nchans, false⟩))).setHandle h₁
        (some (.half ⟨s.nchans, true⟩))

/-- The state after `dill_bundle` has made its handle. -/
def bundleMade (s : Ctx) (mem : Bool) (h : Handle) : Ctx :=
  { s with
    nbundles := s.nbundles + 1
    bundles := Function.update s.bundles s.nbundles { mem := mem, owner := s.r } }.setHandle h
      (some (.bundle s.nbundles))

/-- The state after `dill_cr_close` has stopped coroutine `c` and its caller waits for it. -/
def closeWaited (s : Ctx) (op : ℕ) (b : BundleId) (h : Handle) (old : Bool) (c : CrId) : Ctx :=
  let s₁ := s.updCr c fun cr => { cr with noBlocking1 := true }
  let s₂ := if c ∈ s.ready then s₁ else s₁.wake c (-1) .ECANCELED
  (s₂.block op (.crClose b h old c)).updCr c fun cr => { cr with closer := some s.r }

end Ctx

open Ctx

/-- The moves. The flag tells whether a move may touch memory: only a rendezvous does. -/
inductive Micro : Bool → Cur → Ctx → Cur → Ctx → Prop
  | quiet {l : Bool} {k : Cur} {s s' : Ctx} (h : Quiet s s') : Micro l k s k s'
  | trigger {l : Bool} {k : Cur} {s : Ctx} {e : Cancel} {c : CrId} {i : ℕ} {err : Errno}
      (hk : ∀ j f, k ≠ .waiting j f) (hl : s.Linked e c i) (he : e.Fires err)
      (hq : e.Quiet err) : Micro l k s k (s.wake c i err)
  | meet {s : Ctx} {j : Job} {i : ℕ} {a : ChanArg} {c : ChanClause} {rest : List ChanClause}
      (ha : j.call.chanArg j.objs i = some a) (hd : (s.half a.half).done = false)
      (hq : (s.half a.half).queue a.sd.peer = c :: rest) :
      Micro true (.busy j none) s
        (.busy j (some (i, if a.len = c.len then .ok else .EMSGSIZE))) (s.met j.op i a c)
  | ret {l : Bool} {s : Ctx} {j : Job} {m : Option (ℕ × Errno)} {v : ℤ} {e : Errno}
      (hv : j.call.verdict v e = m) (hc : j.closes = none) :
      Micro l (.busy j m) s .idle (s.ret j.op v e)
  /-- `dill_hclose` calls the close callback of an object of the user. -/
  | hold {l : Bool} {s : Ctx} {j : Job} {h : Handle} {old : Bool} (hj : j.Holds h) :
      Micro l (.busy j none) s .idle
        (s.updCr s.r fun cr => { cr with closing := (j.op, h, old) :: cr.closing })
  | unhold {l : Bool} {s : Ctx} {j : Job} {h : Handle} {old : Bool}
      {rest : List (ℕ × Handle × Bool)} (hu : s.phase = .user)
      (hc : (s.crs s.r).closing = (j.op, h, old) :: rest) (hj : s.Called s.r j)
      (hh : j.Holds h) :
      Micro l .idle s (.busy j none) (s.updCr s.r fun cr => { cr with closing := rest })
  | chmake {l : Bool} {s : Ctx} {j : Job} (h₀ h₁ : Handle) :
      Micro l (.busy j none) s (.busy j none) (s.chmade h₀ h₁)
  | bundle {l : Bool} {s : Ctx} {j : Job} (mem : Bool) (h : Handle) :
      Micro l (.busy j none) s (.busy j none) (s.bundleMade mem h)
  | startTerm {l : Bool} {s : Ctx} {j : Job} (ch : HalfRef) (hn : ch.chan < s.nchans) :
      Micro l (.busy j none) s (.terming j ch) (s.updHalf ch fun x => { x with done := true })
  | endTerm {l : Bool} {s : Ctx} {j : Job} {ch : HalfRef}
      (hq : ∀ sd, (s.half ch).queue sd = []) : Micro l (.terming j ch) s (.busy j none) s
  | startWait {l : Bool} {s : Ctx} {j : Job} {f : Frame} (hb : s.canblock = true) (hw : f.Waits)
      (hf : f.Of j.call j.objs) (hn : s.nops = j.op + 1) :
      Micro l (.busy j none) s (.waiting j f) s
  | enqueue {l : Bool} {s : Ctx} {j : Job} {f : Frame} {i : ℕ} {a : ChanArg}
      (hi : i ∉ (s.crs s.r).clauses.map Clause.id) (hf : f.Allows ⟨i, .ch a.half a.sd⟩)
      (ha : j.call.chanArg j.objs i = some a) (hlt : ∀ cl ∈ (s.crs s.r).clauses, cl.id < i)
      (hn : a.half.chan < s.nchans) (hd : (s.half a.half).done = false)
      (hp : ∀ e ∈ (s.half a.half).queue a.sd.peer, e.cr = s.r) :
      Micro l (.waiting j f) s (.waiting j f) (s.enqueue j.op i a.sd a.half a.val a.len)
  | timer {l : Bool} {s : Ctx} {j : Job} {f : Frame} {i : ℕ} (deadline : ℤ)
      (hi : i ∉ (s.crs s.r).clauses.map Clause.id) (hf : f.Allows ⟨i, .timer⟩) :
      Micro l (.waiting j f) s (.waiting j f) (s.timer i deadline)
  | linkFd {l : Bool} {s : Ctx} {j : Job} {fd : ℕ} {sd : Side}
      (hi : 1 ∉ (s.crs s.r).clauses.map Clause.id) (hc : (s.fds fd).cached = true)
      (hw : (s.fds fd).waiter sd = none) :
      Micro l (.waiting j .fdwait) s (.waiting j .fdwait) (s.linkFd fd sd)
  | setWaiter {l : Bool} {s : Ctx} {j : Job} {b : BundleId}
      (hi : 0 ∉ (s.crs s.r).clauses.map Clause.id) (hb : (s.bundles b).crs ≠ []) :
      Micro l (.waiting j (.bundleWait b)) s (.waiting j (.bundleWait b))
        ((s.updBundle b fun x => { x with waiter := some ⟨s.r, 0⟩ }).waitfor ⟨0, .null⟩)
  | block {l : Bool} {s : Ctx} {j : Job} {f : Frame}
      (hw : ∀ b, f = .bundleWait b → (s.bundles b).waiter = some ⟨s.r, 0⟩) :
      Micro l (.waiting j f) s .idle (s.block j.op f)
  | yield {l : Bool} {s : Ctx} {j : Job} (hb : s.canblock = true) (hj : j.call = .yield) :
      Micro l (.busy j none) s .idle ((s.resume s.r 0 .ok).block j.op .yield)
  | launch {l : Bool} {s : Ctx} {j : Job} {b : BundleId} (mem : Bool) (v : Handle)
      (hb : s.canblock = true) (hj : (Frame.go v).Of j.call j.objs)
      (hh : ∃ h, s.handles h = some (.bundle b)) :
      Micro l (.busy j none) s .idle (s.launch j.op b mem v)
  /-- A coroutine is resumed in a frame other than those of the next two moves. -/
  | popped {l : Bool} {s : Ctx} {c : CrId} {rest : List CrId} {j : Job} {f : Frame}
      (hp : s.phase = .switch) (hr : s.ready = c :: rest) (hf : (s.crs c).frame = some (j.op, f))
      (hj : s.Called c j) (ho : f.Of j.call j.objs) (hn : ∀ b, f ≠ .bundleWait b)
      (hc : ∀ b h old it, f ≠ .crClose b h old it) :
      Micro l .idle s (.busy j (f.verdict (s.crs c).id (s.crs c).err)) (s.popped c rest)
  | poppedWait {l : Bool} {s : Ctx} {c : CrId} {rest : List CrId} {j : Job} {b : BundleId}
      (hp : s.phase = .switch) (hr : s.ready = c :: rest)
      (hf : (s.crs c).frame = some (j.op, .bundleWait b)) (hj : s.Called c j)
      (ho : (Frame.bundleWait b).Of j.call j.objs) :
      Micro l .idle s (.busy j none)
        ((s.popped c rest).updBundle b fun x => { x with waiter := none })
  | poppedClose {l : Bool} {s : Ctx} {c : CrId} {rest : List CrId} {j : Job} {b : BundleId}
      {h : Handle} {old : Bool} {it : CrId} (hp : s.phase = .switch) (hr : s.ready = c :: rest)
      (hf : (s.crs c).frame = some (j.op, .crClose b h old it)) (hj : s.Called c j)
      (ho : (Frame.crClose b h old it).Of j.call j.objs) (he : (s.crs c).err = .ok) :
      Micro l .idle s (.closing j b h old (after it (s.bundles b).crs)) (s.popped c rest)
  | startClose {l : Bool} {s : Ctx} {j : Job} {b : BundleId} {h : Handle} (old : Bool)
      (hj : j.call = .hclose h) (ho : j.objs = [some (.bundle b)])
      (hh : s.handles h = some (.bundle b)) :
      Micro l (.busy j none) s (.closing j b h old (s.bundles b).crs) s
  | closeNext {l : Bool} {s : Ctx} {j : Job} {b : BundleId} {h : Handle} {old : Bool} {c : CrId}
      {rest : List CrId} (hd : (s.crs c).done = true) :
      Micro l (.closing j b h old (c :: rest)) s (.closing j b h old rest) s
  | closeWait {l : Bool} {s : Ctx} {j : Job} {b : BundleId} {h : Handle} {old : Bool} {c : CrId}
      {rest : List CrId} (hd : (s.crs c).done = false) :
      Micro l (.closing j b h old (c :: rest)) s .idle (s.closeWaited j.op b h old c)
  | closeEnd {l : Bool} {s : Ctx} {j : Job} {b : BundleId} {h : Handle} {old : Bool}
      (hh : s.handles h = none) : Micro l (.closing j b h old []) s .idle (s.ret j.op 0 .ok)
  | finish {l : Bool} {s : Ctx} (hu : s.phase = .user) :
      Micro l .idle s .exiting (s.updCr s.r fun cr => { cr with done := true })
  | wakeCloser {l : Bool} {s : Ctx} {p : CrId} (hp : (s.crs s.r).closer = some p)
      (hr : p ∉ s.ready) : Micro l .exiting s .exiting (s.wake p (-1) .ok)
  | wakeWaiter {l : Bool} {s : Ctx} {b : BundleId} {w : ClauseRef}
      (hn : (s.crs s.r).noBlocking1 = false) (hb : (s.crs s.r).bundle = some b)
      (hl : (s.bundles b).crs.length = 1) (hw : (s.bundles b).waiter = some w)
      (hr : w.cr ∉ s.ready) : Micro l .exiting s .exiting (s.wake w.cr w.id .ok)
  | leave {l : Bool} {s : Ctx} {b : BundleId} (hn : (s.crs s.r).noBlocking1 = false)
      (hb : (s.crs s.r).bundle = some b) :
      Micro l .exiting s .exiting (s.updBundle b fun x => { x with crs := x.crs.erase s.r })
  | sleep {l : Bool} {s : Ctx} : Micro l .exiting s .idle (s.block 0 .epilogue)

/-- Sequences of moves. -/
inductive Micros (l : Bool) : Cur → Ctx → Cur → Ctx → Prop
  | refl {k : Cur} {s : Ctx} : Micros l k s k s
  | cons {k k' k'' : Cur} {s s' s'' : Ctx} :
      Micro l k s k' s' → Micros l k' s' k'' s'' → Micros l k s k'' s''

theorem Micro.one {l : Bool} {k k' : Cur} {s s' : Ctx} (h : Micro l k s k' s') :
    Micros l k s k' s' := .cons h .refl

theorem Micros.trans {l : Bool} {k k' k'' : Cur} {s s' s'' : Ctx} (h : Micros l k s k' s')
    (h' : Micros l k' s' k'' s'') : Micros l k s k'' s'' := by
  induction h with
  | refl => exact h'
  | cons hm _ ih => exact .cons hm (ih h')

theorem Micro.loud {k k' : Cur} {s s' : Ctx} (h : Micro false k s k' s') : Micro true k s k' s' := by
  cases h with
  | quiet h => exact .quiet h
  | trigger hk hl he hq => exact .trigger hk hl he hq
  | ret hv hc => exact .ret hv hc
  | hold hj => exact .hold hj
  | unhold hu hc hj hh => exact .unhold hu hc hj hh
  | chmake h₀ h₁ => exact .chmake h₀ h₁
  | bundle mem h => exact .bundle mem h
  | startTerm ch hn => exact .startTerm ch hn
  | endTerm hq => exact .endTerm hq
  | startWait hb hw hf hn => exact .startWait hb hw hf hn
  | enqueue hi hf ha hlt hn hd hp => exact .enqueue hi hf ha hlt hn hd hp
  | timer deadline hi hf => exact .timer deadline hi hf
  | linkFd hi hc hw => exact .linkFd hi hc hw
  | setWaiter hi hb => exact .setWaiter hi hb
  | block hw => exact .block hw
  | yield hb hj => exact .yield hb hj
  | launch mem v hb hj hh => exact .launch mem v hb hj hh
  | popped hp hr hf hj ho hn hc => exact .popped hp hr hf hj ho hn hc
  | poppedWait hp hr hf hj ho => exact .poppedWait hp hr hf hj ho
  | poppedClose hp hr hf hj ho he => exact .poppedClose hp hr hf hj ho he
  | startClose old hj ho hh => exact .startClose old hj ho hh
  | closeNext hd => exact .closeNext hd
  | closeWait hd => exact .closeWait hd
  | closeEnd hh => exact .closeEnd hh
  | finish hu => exact .finish hu
  | wakeCloser hp hr => exact .wakeCloser hp hr
  | wakeWaiter hn hb hl hw hr => exact .wakeWaiter hn hb hl hw hr
  | leave hn hb => exact .leave hn hb
  | sleep => exact .sleep

theorem Micros.loud {k k' : Cur} {s s' : Ctx} (h : Micros false k s k' s') :
    Micros true k s k' s' := by
  induction h with
  | refl => exact .refl
  | cons hm _ ih => exact .cons hm.loud ih

/-- A property that every move keeps is kept by every sequence of moves. -/
theorem Micros.keeps {l : Bool} {I : Cur → Ctx → Prop}
    (hI : ∀ k s k' s', I k s → Micro l k s k' s' → I k' s') {k k' : Cur} {s s' : Ctx}
    (h : Micros l k s k' s') (hk : I k s) : I k' s' := by
  induction h with
  | refl => exact hk
  | cons hm _ ih => exact ih (hI _ _ _ _ hk hm)

end Libdill.Sched
