import Libdill.Sched.Cr

/-!
# Channels

The functions of `chan.c`. The four places where a channel operation is tried at once (in
`dill_chsend`, in `dill_chrecv` and in the two arms of `dill_choose`) are one function,
`tryClause`, applied to the side the operation is on.
-/

namespace Libdill.Sched

open Foundations

namespace Ctx

/-- `dill_hquery(h, dill_halfchan_type)`. -/
def hqueryHalf (s : Ctx) (h : Handle) : Except Errno HalfRef :=
  match s.handles h with
  | none => .error .EBADF
  | some (.half ch) => .ok ch
  | some _ => .error .ENOTSUP

/-- The half-channel an operation through a handle of `ch` works on: receiving is done on the
half itself, sending and closing on the opposite one. -/
def target (ch : HalfRef) : Side → HalfRef
  | .inn => ch
  | .out => ch.other

/-- `memcpy(dst, src, len)`. -/
def memcpy (s : Ctx) (dst src : Addr) (len : ℕ) : Ctx :=
  { s with mem := fun a => if dst ≤ a ∧ a < dst + len then s.mem (src + (a - dst)) else s.mem a }

/-- The rendezvous of clause `i` of call `op`, on side `sd`, with a clause queued on the other
side. -/
def meeting (ch : HalfRef) (sd : Side) (op i : ℕ) (val : Addr) (len : ℕ) (c : ChanClause)
    (err : Errno) : Meeting :=
  match sd with
  | .out => ⟨ch, ⟨op, i⟩, ⟨c.op, c.id⟩, val, c.val, len, err⟩
  | .inn => ⟨ch, ⟨c.op, c.id⟩, ⟨op, i⟩, c.val, val, len, err⟩

def record (s : Ctx) (m : Meeting) : Ctx := { s with log := s.log ++ [.meet m] }

/-- Try a channel operation at once: `none` when it would have to wait, otherwise its `errno`. -/
def tryClause (s : Ctx) (op i : ℕ) (sd : Side) (ch : HalfRef) (val : Addr) (len : ℕ) :
    Except Stop (Option (Errno × Ctx)) :=
  if (s.half ch).done then .ok (some (.EPIPE, s))
  else match (s.half ch).queue sd.peer with
    | [] => .ok none
    | c :: _ =>
      if len ≠ c.len then do
        let s ← s.trigger ⟨c.cr, c.id⟩ .EMSGSIZE
        .ok (some (.EMSGSIZE, s.record (meeting ch sd op i val len c .EMSGSIZE)))
      else do
        let m := meeting ch sd op i val len c .ok
        let s ← (s.memcpy m.dst m.src len).trigger ⟨c.cr, c.id⟩ .ok
        .ok (some (.ok, s.record m))

/-- Queue a clause of the running coroutine and wait for it. -/
def enqueue (s : Ctx) (op i : ℕ) (sd : Side) (ch : HalfRef) (val : Addr) (len : ℕ) : Ctx :=
  (s.updHalf ch fun x => { x with
    queue := Function.update x.queue sd (x.queue sd ++ [⟨s.r, i, val, len, op⟩]) }).waitfor
      ⟨i, .ch ch sd⟩

/-- `dill_chsend` and `dill_chrecv` for the side `sd`. -/
def chanOp (s : Ctx) (op : ℕ) (sd : Side) (h : Handle) (val : Addr) (len : ℕ) (deadline : ℤ) :
    Except Stop Ctx :=
  if !s.canblock then .ok (s.ret op (-1) .ECANCELED)
  else match s.hqueryHalf h with
    | .error e => .ok (s.ret op (-1) e)
    | .ok ch => do
      match ← s.tryClause op 0 sd (target ch sd) val len with
      | some (e, s') => .ok (s'.ret op (if e = .ok then 0 else -1) e)
      | none =>
        if deadline = 0 then .ok (s.ret op (-1) .ETIMEDOUT)
        else .ok ((s.enqueue op 0 sd (target ch sd) val len |>.timer 1 deadline).block op
          (.chan sd))

/-- `dill_chsend`. -/
def chsend (s : Ctx) (op : ℕ) (h : Handle) (val : Addr) (len : ℕ) (deadline : ℤ) :
    Except Stop Ctx :=
  s.chanOp op .out h val len deadline

/-- `dill_chrecv`. -/
def chrecv (s : Ctx) (op : ℕ) (h : Handle) (val : Addr) (len : ℕ) (deadline : ℤ) :
    Except Stop Ctx :=
  s.chanOp op .inn h val len deadline

/-- The first loop of `dill_choose`, from clause `i` on: the index and `errno` of the first
clause that can complete or fail at once. -/
def scan (op : ℕ) : ℕ → List ChClause → Ctx → Except Stop (Option (ℕ × Errno × Ctx))
  | _, [], _ => .ok none
  | i, cl :: cls, s =>
    match s.hqueryHalf cl.ch with
    | .error e => .ok (some (i, e, s))
    | .ok ch =>
      if cl.len > 0 ∧ cl.val = 0 then .ok (some (i, .EINVAL, s))
      else match cl.op with
        | none => .ok (some (i, .EINVAL, s))
        | some sd => do
          match ← s.tryClause op i sd (target ch sd) cl.val cl.len with
          | some (e, s') => .ok (some (i, e, s'))
          | none => scan op (i + 1) cls s

/-- The second loop of `dill_choose`: queue every clause. A clause that is not `DILL_CHRECV` is
taken as `DILL_CHSEND`. -/
def enqueueAll (op : ℕ) : ℕ → List ChClause → Ctx → Except Stop Ctx
  | _, [], s => .ok s
  | i, cl :: cls, s =>
    match s.hqueryHalf cl.ch with
    | .error _ => .error .assertChoose
    | .ok ch =>
      let sd := if cl.op = some .inn then .inn else .out
      enqueueAll op (i + 1) cls (s.enqueue op i sd (target ch sd) cl.val cl.len)

/-- `dill_choose`. -/
def choose (s : Ctx) (op : ℕ) (clauses : Option (List ChClause)) (deadline : ℤ) :
    Except Stop Ctx :=
  if !s.canblock then .ok (s.ret op (-1) .ECANCELED)
  else match clauses with
    | none => .ok (s.ret op (-1) .EINVAL)
    | some cls => do
      match ← scan op 0 cls s with
      | some (i, e, s') => .ok (s'.ret op i e)
      | none =>
        if deadline = 0 then .ok (s.ret op (-1) .ETIMEDOUT)
        else do
          let s ← enqueueAll op 0 cls s
          .ok ((s.timer cls.length deadline).block op (.choose cls.length))

/-- Resume everybody queued on one side of a half-channel with `EPIPE`; the third argument bounds
the turns of the loop. -/
def termQueue (ch : HalfRef) (sd : Side) : ℕ → Ctx → Except Stop Ctx
  | n, s =>
    match (s.half ch).queue sd, n with
    | [], _ => .ok s
    | _ :: _, 0 => .error .diverge
    | c :: _, n + 1 => do
      let s ← s.trigger ⟨c.cr, c.id⟩ .EPIPE
      termQueue ch sd n s

/-- `dill_halfchan_term`, also the end of `dill_chdone`. -/
def halfchanTerm (s : Ctx) (ch : HalfRef) : Except Stop Ctx := do
  let s ← termQueue ch .inn ((s.half ch).queue .inn).length s
  termQueue ch .out ((s.half ch).queue .out).length s

/-- `dill_chdone`. -/
def chdone (s : Ctx) (op : ℕ) (h : Handle) : Except Stop Ctx :=
  match s.hqueryHalf h with
  | .error e => .ok (s.ret op (-1) e)
  | .ok ch =>
    if (s.half ch.other).done then .ok (s.ret op (-1) .EPIPE)
    else do
      let s ← (s.updHalf ch.other fun x => { x with done := true }).halfchanTerm ch.other
      .ok (s.ret op 0 .ok)

/-- `dill_halfchan_close`. -/
def halfchanClose (s : Ctx) (ch : HalfRef) : Except Stop Ctx :=
  if (s.half ch).closed then .error .assertHalfchanClose
  else if !(s.half ch.other).closed then .ok (s.updHalf ch fun x => { x with closed := true })
  else do
    let s ← s.halfchanTerm ⟨ch.chan, false⟩
    s.halfchanTerm ⟨ch.chan, true⟩

/-- `dill_chmake` and `dill_chmake_mem`. -/
def chmake (s : Ctx) (op : ℕ) (h₀ h₁ : Handle) : Except Stop Ctx := do
  let n := s.nchans
  let s' := { s with
    nchans := n + 1
    half := Function.update (Function.update s.half ⟨n, false⟩ {}) ⟨n, true⟩ {} }
  match ← s'.hmake h₀ (.half ⟨n, false⟩) with
  | none => .ok (s.ret op (-1) .ECANCELED)
  | some s' =>
    match ← s'.hmake h₁ (.half ⟨n, true⟩) with
    | none => .ok (s.ret op (-1) .ECANCELED)
    | some s' => .ok (s'.ret op 0 .ok)

/-- `dill_hclose`: the handle is released when the close callback is done. The callback of a
user-defined object runs in the code of the user, see `hcloseEnd`. -/
def hclose (s : Ctx) (op : ℕ) (h : Handle) : Except Stop Ctx :=
  let old := (s.crs s.r).noBlocking2
  let s' := s.updCr s.r fun cr => { cr with noBlocking2 := true }
  match s.handles h with
  | none => .ok (s.ret op (-1) .EBADF)
  | some (.half ch) => do
    let s' ← s'.halfchanClose ch
    .ok (((s'.updCr s'.r fun cr => { cr with noBlocking2 := old }).setHandle h none).ret op 0 .ok)
  | some (.bundle b) =>
    closeCrs op b h old (s.bundles b).crs s'
  | some .user => .ok (s'.updCr s'.r fun cr => { cr with closing := (op, h, old) :: cr.closing })

/-- The rest of `dill_hclose` when the close callback of a user-defined object returns. -/
def hcloseEnd (s : Ctx) : Except Stop Ctx :=
  match (s.crs s.r).closing with
  | [] => .error .stuck
  | (op, h, old) :: rest =>
    .ok (((s.updCr s.r fun cr => { cr with noBlocking2 := old, closing := rest }).setHandle h
      none).ret op 0 .ok)

end Ctx

end Libdill.Sched
