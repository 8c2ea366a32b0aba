import Mathlib.Data.Int.Notation
import Mathlib.Data.Nat.Notation
import Mathlib.Logic.Function.Basic

/-!
# The handle table

`handle.c`: the array of handles, the list of unused ones that is threaded through it, and the
cache of the last query of each handle. Objects, types and query results are parameters: `ω` is
what a `dill_hvfs` pointer stands for, and `query` its virtual function.

The array is reallocated when the table grows; `block` numbers the places it has been at, so that
a pointer into it can be told from a pointer into an array that has been freed. A write through
the latter changes nothing in the table.
-/

namespace Libdill.Handle

/-- The values of `errno` set by `handle.c`; `ENOTSUP` is the one of the query functions. -/
inductive Errno
  | EINVAL
  | ECANCELED
  | ENOMEM
  | EBADF
  | ENOTSUP
  deriving DecidableEq, Repr

/-- Ends of a run that are no result: an element is taken from an empty list, or a null pointer is
followed. -/
inductive Stop
  | emptyList
  | noObject
  deriving DecidableEq, Repr

/-- `dill_handle`. -/
structure Slot (ω τ π : Type) where
  vfs : Option ω
  next : ℤ
  type : Option τ
  ptr : Option π

/-- `dill_ctx_handle`. -/
structure Ctx (ω τ π : Type) where
  handles : ℤ → Slot ω τ π
  block : ℕ
  nhandles : ℤ
  nused : ℤ
  first : ℤ
  last : ℤ

/-- How a call of `realloc` ends. -/
inductive Alloc
  | failed
  | inPlace
  | moved
  deriving DecidableEq, Repr

variable {ω τ π : Type}

/-- `dill_ctx_handle_init`. -/
def Ctx.init : Ctx ω τ π where
  handles _ := ⟨none, 0, none, none⟩
  block := 0
  nhandles := 0
  nused := 0
  first := -1
  last := -1

/-- The macro `dill_slow`: the truth value of its argument. -/
def slow (x : ℤ) : ℤ := if x = 0 then 0 else 1

/-- The test of `DILL_CHECKHANDLE`. -/
def Ctx.InUse (c : Ctx ω τ π) (h : ℤ) : Prop :=
  0 ≤ h ∧ h < c.nhandles ∧ (c.handles h).next = -2

instance (c : Ctx ω τ π) (h : ℤ) : Decidable (c.InUse h) :=
  inferInstanceAs (Decidable (_ ∧ _ ∧ _))

/-- One entry of the array is written. -/
def Ctx.upd (c : Ctx ω τ π) (h : ℤ) (f : Slot ω τ π → Slot ω τ π) : Ctx ω τ π :=
  { c with handles := Function.update c.handles h (f (c.handles h)) }

/-- The size of the array after the next growth. -/
def Ctx.grown (c : Ctx ω τ π) : ℤ := if c.nhandles = 0 then 256 else c.nhandles * 2

/-- The growth of the array in `dill_hmake`: the new entries become the list of unused handles. -/
def Ctx.grow (c : Ctx ω τ π) (moved : Bool) : Ctx ω τ π where
  handles i :=
    if c.nhandles ≤ i ∧ i < c.grown then
      { c.handles i with next := if i = c.grown - 1 then -1 else i + 1 }
    else c.handles i
  block := if moved then c.block + 1 else c.block
  nhandles := c.grown
  nused := c.nused
  first := c.nhandles
  last := c.grown - 1

/-- The end of `dill_hmake`: the first unused handle is taken. -/
def Ctx.take (c : Ctx ω τ π) (vfs : ω) : Except Stop (ℤ × Ctx ω τ π) :=
  if c.first = -1 then .error .emptyList
  else
    let h := c.first
    let first := (c.handles h).next
    .ok (h, { c.upd h fun _ => ⟨some vfs, -2, none, none⟩ with
      nused := c.nused + 1
      first := first
      last := if slow first = -1 then -1 else c.last })

/-- The growth is due when no more than 8 handles are unused. -/
def Ctx.Full (c : Ctx ω τ π) : Prop := c.nhandles - c.nused ≤ 8

instance (c : Ctx ω τ π) : Decidable c.Full := inferInstanceAs (Decidable (_ ≤ _))

/-- `dill_hmake`; `canblock` is the result of `dill_canblock`. -/
def Ctx.hmake (c : Ctx ω τ π) (vfs : Option ω) (canblock : Bool) (a : Alloc) :
    Except Stop (Except Errno ℤ × Ctx ω τ π) :=
  match vfs with
  | none => .ok (.error .EINVAL, c)
  | some vfs =>
    if canblock = false then .ok (.error .ECANCELED, c)
    else if c.Full then
      match a with
      | .failed => .ok (.error .ENOMEM, c)
      | .inPlace => ((c.grow false).take vfs).map fun r => (.ok r.1, r.2)
      | .moved => ((c.grow true).take vfs).map fun r => (.ok r.1, r.2)
    else (c.take vfs).map fun r => (.ok r.1, r.2)

/-- The writes to `hndl->ptr` and `hndl->next` through a pointer into the given block. -/
def Ctx.retire (c : Ctx ω τ π) (h : ℤ) (block : ℕ) : Ctx ω τ π :=
  if block = c.block then c.upd h fun hndl => { hndl with ptr := none, next := -1 } else c

/-- The handle is put to the end of the list of unused handles. -/
def Ctx.push (c : Ctx ω τ π) (h : ℤ) : Ctx ω τ π :=
  if c.first = -1 then { c with first := h, last := h, nused := c.nused - 1 }
  else
    { c.upd c.last fun hndl => { hndl with next := h } with last := h, nused := c.nused - 1 }

/-- The end of `dill_hown` and of `dill_hclose`: "Return a handle to the shared pool." -/
def Ctx.release (c : Ctx ω τ π) (h : ℤ) (block : ℕ) : Ctx ω τ π := (c.retire h block).push h

/-- The virtual call of `dill_hquery`, which updates the cache. -/
def Ctx.ask (query : ω → τ → Option π) (c : Ctx ω τ π) (h : ℤ) (type : τ) :
    Except Stop (Except Errno π × Ctx ω τ π) :=
  match (c.handles h).vfs with
  | none => .error .noObject
  | some vfs =>
    match query vfs type with
    | none => .ok (.error .ENOTSUP, c)
    | some p =>
      .ok (.ok p, c.upd h fun hndl => { hndl with type := some type, ptr := some p })

/-- `dill_hquery`, with the one-entry cache. -/
def Ctx.hquery [DecidableEq τ] (query : ω → τ → Option π) (c : Ctx ω τ π) (h : ℤ) (type : τ) :
    Except Stop (Except Errno π × Ctx ω τ π) :=
  if c.InUse h then
    match (c.handles h).ptr with
    | some p => if (c.handles h).type = some type then .ok (.ok p, c) else c.ask query h type
    | none => c.ask query h type
  else .ok (.error .EBADF, c)

/-! ## Callers -/

/-- A call of `dill_hclose` that is inside the close callback: the coroutine, the handle, the block
`hndl` points into and, when the call was made by `dill_hown`, the error to be returned. -/
structure Closing where
  cr : ℕ
  h : ℤ
  block : ℕ
  own : Option Errno
  deriving DecidableEq

/-- What happened to a handle: it was given out or returned to the pool. -/
inductive Record
  | issued (h : ℤ)
  | released (h : ℤ)
  deriving DecidableEq

/-- The table with the calls that are in progress, the latest first; `log` is history and no
function reads it. -/
structure Sys (ω τ π : Type) where
  ctx : Ctx ω τ π
  closing : List Closing
  log : List Record

/-- The calls; `ret` is the return from a close callback. -/
inductive Call (ω τ : Type)
  | hmake (vfs : Option ω)
  | hown (h : ℤ)
  | hquery (h : ℤ) (type : τ)
  | hclose (h : ℤ)
  | ret

/-- A call made by a coroutine, whether the coroutine is being canceled, and how an allocation
ends. -/
structure Act (ω τ : Type) where
  cr : ℕ
  canceled : Bool
  alloc : Alloc
  call : Call ω τ

/-- What a call returns. -/
inductive Ans (π : Type)
  | handle (r : Except Errno ℤ)
  | ptr (r : Except Errno π)
  | closed (r : Except Errno Unit)

/-- The coroutine is inside a close callback, where `no_blocking2` is set. -/
def Sys.Inside (s : Sys ω τ π) (cr : ℕ) : Prop := ∃ p ∈ s.closing, p.cr = cr

instance (s : Sys ω τ π) (cr : ℕ) : Decidable (s.Inside cr) :=
  inferInstanceAs (Decidable (∃ p ∈ s.closing, p.cr = cr))

/-- `dill_canblock`. -/
def Sys.canblock (s : Sys ω τ π) (a : Act ω τ) : Bool := !a.canceled && !decide (s.Inside a.cr)

/-- A close callback begins. -/
def Sys.enter (s : Sys ω τ π) (cr : ℕ) (h : ℤ) (own : Option Errno) : Sys ω τ π :=
  { s with closing := ⟨cr, h, s.ctx.block, own⟩ :: s.closing }

/-- One call, or the end of a close callback. A call that enters a callback has no answer yet. -/
def Sys.step [DecidableEq τ] (query : ω → τ → Option π) (s : Sys ω τ π) (a : Act ω τ) :
    Except Stop (Sys ω τ π × Option (Ans π)) :=
  match a.call with
  | .hmake vfs =>
    match s.ctx.hmake vfs (s.canblock a) a.alloc with
    | .error e => .error e
    | .ok (.error e, _) => .ok (s, some (.handle (.error e)))
    | .ok (.ok h, ctx) =>
      .ok ({ s with ctx := ctx, log := .issued h :: s.log }, some (.handle (.ok h)))
  | .hown h =>
    if s.ctx.InUse h then
      match s.ctx.hmake (s.ctx.handles h).vfs (s.canblock a) a.alloc with
      | .error e => .error e
      | .ok (.error e, _) => .ok (s.enter a.cr h (some e), none)
      | .ok (.ok res, ctx) =>
        -- The pointer is recomputed, so the write goes to the present array.
        .ok ({ s with
          ctx := ctx.release h ctx.block
          log := .released h :: .issued res :: s.log }, some (.handle (.ok res)))
    else .ok (s, some (.handle (.error .EBADF)))
  | .hquery h type =>
    match s.ctx.hquery query h type with
    | .error e => .error e
    | .ok (r, ctx) => .ok ({ s with ctx := ctx }, some (.ptr r))
  | .hclose h =>
    if s.ctx.InUse h then .ok (s.enter a.cr h none, none)
    else .ok (s, some (.closed (.error .EBADF)))
  | .ret =>
    match s.closing.find? fun p => p.cr = a.cr with
    | none => .ok (s, none)
    | some p =>
      .ok ({ s with
        ctx := s.ctx.release p.h p.block
        closing := s.closing.eraseP fun p => p.cr = a.cr
        log := .released p.h :: s.log },
        some (match p.own with
          | none => .closed (.ok ())
          | some e => .handle (.error e)))

/-- The next state alone. -/
def Sys.next [DecidableEq τ] (query : ω → τ → Option π) (s : Sys ω τ π) (a : Act ω τ) :
    Except Stop (Sys ω τ π) :=
  (s.step query a).map Prod.fst

/-- The table of a new process. -/
def Sys.init : Sys ω τ π := ⟨.init, [], []⟩

end Libdill.Handle
