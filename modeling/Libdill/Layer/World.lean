import Libdill.Foundations.Forest
import Libdill.Sock.Bsock
import Mathlib.Data.Int.Notation

/-!
# Stacks of sockets

The objects behind the handles, as far as ownership goes: a protocol socket owns the handle of the
socket under it, and closes it in its close callback. The handle table is taken as a map from the
handles in use to objects (`handle.c` refines such a map, see `Handle/Registry.lean`); which unused
handle `dill_hmake` gives out, and whether it refuses to, is an answer from outside, as are the
results of everything that is sent and received.

Each object has a number of its own, and `closed` lists the numbers of the objects whose close
callbacks have been invoked, the latest first.
-/

namespace Libdill.Layer

open Foundations Libdill.Sock

/-- What an object is. `conn` and `listener` are the connections and listeners of `tcp.c` and
`ipc.c`, and `other` any object that may support the interfaces of a bytestream or of a message
socket. -/
inductive Kind
  | prefixSock
  | suffixSock
  | termSock
  | httpSock
  | wsSock
  | conn
  | listener
  | other (bsock msock : Bool)
  deriving DecidableEq

/-- The kinds of the protocol sockets. -/
def Kind.isLayer : Kind → Bool
  | .conn => false
  | .listener => false
  | .other _ _ => false
  | _ => true

/-- The types that are queried. -/
inductive Ty
  | bsock
  | msock
  | sock (k : Kind)
  deriving DecidableEq

/-- The query functions of the objects. -/
def Kind.query : Kind → Ty → Bool
  | k, .sock k' => k == k'
  | .conn, .bsock => true
  | .other b _, .bsock => b
  | .other _ m, .msock => m
  | .prefixSock, .msock => true
  | .suffixSock, .msock => true
  | .termSock, .msock => true
  | .wsSock, .msock => true
  | _, _ => false

/-- An object: its number, its kind and the handle `u` under it. -/
abbrev Obj := Node ℤ Kind

/-- A handle in use. `gone` says that the object is not there any more, or is being taken down. -/
structure Entry where
  obj : Obj
  gone : Bool

/-- The handle table and the objects. -/
structure Table where
  objs : ℤ → Option Entry
  nused : ℤ
  nextId : ℕ
  closed : List ℕ

/-- The flags of a socket. -/
structure Flags where
  indone : Bool
  outdone : Bool
  inerr : Bool
  outerr : Bool

/-- The results that are not determined by the table. -/
inductive Reply
  /-- `dill_hmake`: a handle that is not in use, or a refusal. -/
  | made (r : Except Errno ℤ)
  | malloc (ok : Bool)
  /-- A call that sends something, or computes a key. -/
  | call (r : Except Errno Unit)
  | recv (r : Except Errno ℕ)
  /-- `dill_http_recvstatus`, `dill_http_recvrequest` and `dill_http_recvfield`. -/
  | status (r : Except Errno ℕ)
  | command (r : Except Errno String)
  | field (r : Except Errno (String × String))
  /-- `dill_ws_response_key`. -/
  | key (r : Except Errno String)

/-- An answer from outside, and the flags of all sockets after it. -/
structure Ans where
  reply : Reply
  flags : ℕ → Flags

/-- The table, the flags of the sockets, by the numbers of the objects, and the answers to come. -/
structure World extends Table where
  flags : ℕ → Flags
  env : List Ans

/-- Ends of a call that are no result: it waits for an answer, it uses an object that is not there
or writes out of bounds, or an assertion fails. -/
inductive Stop
  | blocked
  | fault
  | assertion
  deriving DecidableEq

abbrev M := StateT World (Except Stop)

def stop {α : Type} (e : Stop) : M α := fun _ => .error e

/-- The next answer. -/
def reply {α : Type} (f : Reply → Option α) : M α := fun w =>
  match w.env with
  | [] => .error .blocked
  | a :: env =>
    match f a.reply with
    | none => .error .blocked
    | some x => .ok (x, { w with flags := a.flags, env := env })

def Reply.made? : Reply → Option (Except Errno ℤ)
  | .made r => some r
  | _ => none

def Reply.malloc? : Reply → Option Bool
  | .malloc ok => some ok
  | _ => none

def Reply.call? : Reply → Option (Except Errno Unit)
  | .call r => some r
  | _ => none

def Reply.recv? : Reply → Option (Except Errno ℕ)
  | .recv r => some r
  | _ => none

def Reply.status? : Reply → Option (Except Errno ℕ)
  | .status r => some r
  | _ => none

def Reply.command? : Reply → Option (Except Errno String)
  | .command r => some r
  | _ => none

def Reply.field? : Reply → Option (Except Errno (String × String))
  | .field r => some r
  | _ => none

def Reply.key? : Reply → Option (Except Errno String)
  | .key r => some r
  | _ => none

/-- A change of the table. -/
def change (f : Table → Table) : M Unit := fun w => .ok ((), { w with toTable := f w.toTable })

def Table.set (t : Table) (h : ℤ) (e : Option Entry) : Table :=
  { t with objs := Function.update t.objs h e }

/-- The object is going away: nobody else may use it from now on. -/
def Table.retire (t : Table) (h : ℤ) (o : Obj) : Table := t.set h (some ⟨o, true⟩)

/-- A handle is returned to the pool. -/
def Table.release (t : Table) (h : ℤ) : Table := { t.set h none with nused := t.nused - 1 }

/-- A handle is given out. -/
def Table.take (t : Table) (h : ℤ) (o : Obj) : Table :=
  { t.set h (some ⟨o, false⟩) with nused := t.nused + 1 }

/-- The close callback of the object of a handle is invoked. -/
def Table.callback (t : Table) (h : ℤ) (o : Obj) : Table :=
  { t.retire h o with closed := o.id :: t.closed }

/-- `DILL_CHECKHANDLE`, and the object of the handle. -/
def entry (h : ℤ) : M (Option Obj) := fun w =>
  match w.objs h with
  | none => .ok (none, w)
  | some e => if e.gone then .error .fault else .ok (some e.obj, w)

/-- `dill_hmake` of an object. -/
def hmake (o : Obj) : M (Except Errno ℤ) := do
  match ← reply Reply.made? with
  | .error e => return .error e
  | .ok h =>
    fun w =>
      if 0 ≤ h ∧ (w.objs h).isNone then .ok (.ok h, { w with toTable := w.toTable.take h o })
      else .error .blocked

/-- `dill_hclose`, with the close callbacks of the objects: each closes the handle under it. The
first argument bounds the height of the stack. -/
def hcloseN : ℕ → ℤ → M (Except Errno Unit)
  | 0, _ => stop .fault
  | n + 1, h => do
    match ← entry h with
    | none => return .error .EBADF
    | some o =>
      change fun t => t.callback h o
      match o.under with
      | none => pure ()
      | some u =>
        match ← hcloseN n u with
        | .error _ => stop .assertion
        | .ok () => pure ()
      change fun t => t.release h
      return .ok ()

/-- `dill_hclose`. -/
def hclose (h : ℤ) : M (Except Errno Unit) := fun w => hcloseN w.nextId h w

/-- `dill_hown`. -/
def hown (h : ℤ) : M (Except Errno ℤ) := do
  match ← entry h with
  | none => return .error .EBADF
  | some o =>
    match ← hmake o with
    | .error e =>
      match ← hclose h with
      | .error _ => stop .assertion
      | .ok () => return .error e
    | .ok res =>
      change fun t => t.release h
      return .ok res

/-- `dill_hquery`. -/
def hquery (h : ℤ) (type : Ty) : M (Except Errno Unit) := do
  match ← entry h with
  | none => return .error .EBADF
  | some o => return if o.kind.query type then .ok () else .error .ENOTSUP

/-- The object of a handle that has been queried. -/
def self (h : ℤ) : M Obj := do
  match ← entry h with
  | none => stop .fault
  | some o => return o

/-- The handle under an object. -/
def Obj.u (o : Obj) : M ℤ :=
  match o.under with
  | none => stop .fault
  | some u => pure u

def getFlags (o : Obj) : M Flags := fun w => .ok (w.flags o.id, w)

def setFlags (o : Obj) (f : Flags → Flags) : M Unit := fun w =>
  .ok ((), { w with flags := Function.update w.flags o.id (f (w.flags o.id)) })

/-- The object of a handle is freed, without its close callback. -/
def free (h : ℤ) (o : Obj) : M Unit := change fun t => t.retire h o

/-- A new object and its handle. -/
def make (kind : Kind) (under : Option ℤ) : M (Except Errno ℤ) := do
  let o : Obj ← fun w => .ok (⟨w.nextId, kind, under⟩, { w with nextId := w.nextId + 1 })
  hmake o

/-- The label `error` of the attach and detach functions: the handle, if there still is one, is
closed. -/
def fail {α : Type} (s : ℤ) (err : Errno) : M (Except Errno α) := do
  if 0 ≤ s then
    let _ ← hclose s
    return .error err
  else return .error err

end Libdill.Layer
