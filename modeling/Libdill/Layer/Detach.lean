import Libdill.Layer.World

/-!
# Detaching

The detach functions of `prefix.c`, `suffix.c`, `term.c`, `http.c` and `ws.c`, and `dill_tcp_close`
of `tcp.c` with its twin in `ipc.c`. A socket that is taken off a stack is freed and the handle
under it is returned.
-/

namespace Libdill.Layer

open Libdill.Sock

/-- A part of the terminal handshake that may have been done already. -/
def unlessDone (done : Bool) (x : M (Except Errno Unit)) : M (Except Errno Unit) :=
  if done then return .ok () else x

/-- `dill_prefix_detach` and `dill_suffix_detach`. -/
def framedDetach (kind : Kind) (s : ℤ) : M (Except Errno ℤ) := do
  match ← hquery s (.sock kind) with
  | .error err => fail s err
  | .ok () =>
    let o ← self s
    let fl ← getFlags o
    if fl.inerr || fl.outerr then fail s .ECONNRESET
    else
      let u ← o.u
      free s o
      return .ok u

/-- `dill_prefix_detach`. -/
def prefixDetach (s : ℤ) : M (Except Errno ℤ) := framedDetach .prefixSock s

/-- `dill_suffix_detach`. -/
def suffixDetach (s : ℤ) : M (Except Errno ℤ) := framedDetach .suffixSock s

/-- `dill_term_done`. -/
def termDone (s : ℤ) : M (Except Errno Unit) := do
  match ← hquery s (.sock .termSock) with
  | .error err => return .error err
  | .ok () =>
    let o ← self s
    let fl ← getFlags o
    if fl.outdone then return .error .EPIPE
    else
      match ← reply Reply.call? with
      | .error err => return .error err
      | .ok () =>
        setFlags o fun fl => { fl with outdone := true }
        return .ok ()

/-- Messages are received until a receive fails; `EPIPE` is the end. -/
def drainN : ℕ → M (Except Errno Unit)
  | 0 => stop .blocked
  | n + 1 => do
    match ← reply Reply.recv? with
    | .ok _ => drainN n
    | .error .EPIPE => return .ok ()
    | .error err => return .error err

/-- The loop of the detach functions: each receive takes an answer. -/
def drain : M (Except Errno Unit) := fun w => drainN (w.env.length + 1) w

/-- The label `error` of `dill_term_detach`. -/
def closeFail (s : ℤ) (err : Errno) : M (Except Errno ℤ) := do
  match ← hclose s with
  | .error _ => stop .assertion
  | .ok () => return .error err

/-- `dill_term_detach`. -/
def termDetach (s : ℤ) : M (Except Errno ℤ) := do
  match ← hquery s (.sock .termSock) with
  | .error err => return .error err
  | .ok () =>
    let o ← self s
    let fl ← getFlags o
    match ← unlessDone fl.outdone (termDone s) with
    | .error err => closeFail s err
    | .ok () =>
      let fl ← getFlags o
      match ← unlessDone fl.indone drain with
      | .error err => closeFail s err
      | .ok () =>
        let u ← o.u
        free s o
        return .ok u

/-- `dill_http_detach`. The object is freed at the end; nobody else may use it from the beginning
on. -/
def httpDetach (s : ℤ) : M (Except Errno ℤ) := do
  match ← hquery s (.sock .httpSock) with
  | .error err => return .error err
  | .ok () =>
    let o ← self s
    let u ← o.u
    free s o
    match ← termDetach u with
    | .error err => return .error err
    | .ok u => suffixDetach u

/-- `dill_ws_done`; `valid` is the check of the status and of the buffer. -/
def wsDone (s : ℤ) (valid : Bool) : M (Except Errno Unit) := do
  if !valid then return .error .EINVAL
  else
    match ← hquery s (.sock .wsSock) with
    | .error err => return .error err
    | .ok () =>
      let o ← self s
      let fl ← getFlags o
      if fl.outdone then return .error .EPIPE
      else
        match ← reply Reply.call? with
        | .error err => return .error err
        | .ok () =>
          setFlags o fun fl => { fl with outdone := true }
          return .ok ()

/-- `dill_ws_detach`. -/
def wsDetach (s : ℤ) (valid : Bool) : M (Except Errno ℤ) := do
  match ← hquery s (.sock .wsSock) with
  | .error err => return .error err
  | .ok () =>
    let o ← self s
    let fl ← getFlags o
    match ← unlessDone fl.outdone (wsDone s valid) with
    | .error err => return .error err
    | .ok () =>
      match ← drain with
      | .error err => return .error err
      | .ok () =>
        let u ← o.u
        free s o
        return .ok u

/-- The call of the close callback of a connection, without `dill_hclose`. -/
def connHclose (s : ℤ) (o : Obj) : M Unit := change fun t => t.callback s o

/-- The rest of the terminal handshake of `dill_tcp_close`. -/
def connHandshake (fl : Flags) : M (Except Errno Unit) := do
  if fl.inerr || fl.outerr then return .error .ECONNRESET
  else
    match ← unlessDone fl.outdone (reply Reply.call?) with
    | .error err => return .error err
    | .ok () =>
      match ← reply Reply.recv? with
      | .ok _ => stop .assertion
      | .error .EPIPE => return .ok ()
      | .error err => return .error err

/-- `dill_tcp_close` and `dill_ipc_close`. -/
def connClose (s : ℤ) : M (Except Errno Unit) := do
  match ← hquery s (.sock .listener) with
  | .ok () => hclose s
  | .error _ =>
    match ← hquery s (.sock .conn) with
    | .error err => return .error err
    | .ok () =>
      let o ← self s
      let fl ← getFlags o
      let r ← connHandshake fl
      connHclose s o
      return r

end Libdill.Layer
