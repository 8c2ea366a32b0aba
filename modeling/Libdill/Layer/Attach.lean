import Libdill.Layer.Detach

/-!
# Attaching

The attach functions of `prefix.c`, `suffix.c`, `term.c`, `http.c` and `ws.c`: they take ownership
of the handle under them with `dill_hown` and close it when they fail. The variants without `_mem`
allocate the object first. Pointer arguments are given by whether they are not `NULL`.
-/

namespace Libdill.Layer

open Libdill.Sock

/-- The attach functions that allocate the object. -/
def allocated (attachMem : ℤ → M (Except Errno ℤ)) (s : ℤ) : M (Except Errno ℤ) := do
  if ← reply Reply.malloc? then attachMem s else fail s .ENOMEM

/-- The error for a socket under it of a wrong type. -/
def wrongType (err : Errno) : Errno := if err = .ENOTSUP then .EPROTO else err

/-- What the attach functions of `prefix.c`, `suffix.c` and `term.c` do: the arguments are checked,
the socket under it is owned and queried, and the new object gets a handle. With `fault` the object
is written out of bounds. -/
def attachOver (bad : Bool) (type : Ty) (fault : Bool) (kind : Kind) (s : ℤ) :
    M (Except Errno ℤ) := do
  if bad then fail s .EINVAL
  else
    match ← hown s with
    | .error err => fail (-1) err
    | .ok s =>
      match ← hquery s type with
      | .error err => fail s (wrongType err)
      | .ok () =>
        if fault then stop .fault
        else
          match ← make kind (some s) with
          | .error err => fail s err
          | .ok h => return .ok h

/-- `dill_prefix_attach_mem`. -/
def prefixAttachMem (mem : Bool) (hdrlen : ℕ) (s : ℤ) : M (Except Errno ℤ) :=
  attachOver (!mem || hdrlen == 0) .bsock false .prefixSock s

/-- `dill_suffix_attach_mem`. -/
def suffixAttachMem (mem suffix : Bool) (suffixlen : ℕ) (s : ℤ) : M (Except Errno ℤ) :=
  attachOver (!mem || !suffix || suffixlen == 0 || decide (suffixlen > 32)) .bsock false .suffixSock s

/-- `dill_term_attach_mem`. The check lets a long terminator pass when there is memory, and no
memory when the terminator is short; then the object is written out of bounds. -/
def termAttachMem (mem buf : Bool) (len : ℕ) (s : ℤ) : M (Except Errno ℤ) :=
  attachOver (!mem && decide (len > 32) || decide (len > 0) && !buf) .msock
    (!mem || decide (len > 32)) .termSock s

/-- `dill_http_attach_mem`. -/
def httpAttachMem (mem : Bool) (s : ℤ) : M (Except Errno ℤ) := do
  if !mem then fail s .EINVAL
  else
    match ← hquery s .bsock with
    | .error err => fail s err
    | .ok () =>
      match ← hown s with
      | .error err => fail (-1) err
      | .ok s =>
        match ← suffixAttachMem true true 2 s with
        | .error err => fail (-1) err
        | .ok s =>
          match ← termAttachMem true false 0 s with
          | .error err => fail (-1) err
          | .ok s =>
            match ← make .httpSock (some s) with
            | .error err => fail s err
            | .ok h => return .ok h

/-! ## The handshakes of WebSockets -/

/-- Calls one after the other, up to the first that fails. -/
def inOrder : List (M (Except Errno Unit)) → M (Except Errno Unit)
  | [] => return .ok ()
  | x :: xs => do
    match ← x with
    | .error err => return .error err
    | .ok () => inOrder xs

/-- A function of `http.c` with the result `f`. -/
def httpCall {α : Type} (s : ℤ) (f : Reply → Option (Except Errno α)) : M (Except Errno α) := do
  match ← hquery s (.sock .httpSock) with
  | .error err => return .error err
  | .ok () => reply f

def httpSendrequest (s : ℤ) : M (Except Errno Unit) := httpCall s Reply.call?

def httpSendstatus (s : ℤ) : M (Except Errno Unit) := httpCall s Reply.call?

def httpSendfield (s : ℤ) : M (Except Errno Unit) := httpCall s Reply.call?

def httpDone (s : ℤ) : M (Except Errno Unit) := httpCall s Reply.call?

/-- `dill_ws_request_key`. -/
def wsRequestKey : M (Except Errno Unit) := reply Reply.call?

def httpRecvstatus (s : ℤ) : M (Except Errno ℕ) := httpCall s Reply.status?

def httpRecvrequest (s : ℤ) : M (Except Errno String) := httpCall s Reply.command?

def httpRecvfield (s : ℤ) : M (Except Errno (String × String)) := httpCall s Reply.field?

/-- The header fields that have been received. -/
structure Seen where
  host : Bool
  upgrade : Bool
  connection : Bool
  key : Bool
  version : Bool

def Seen.none : Seen := ⟨false, false, false, false, false⟩

/-- `strcasecmp`. -/
def sameText (a b : String) : Bool := a.toLower == b.toLower

/-- A field that must come once and have a given value. -/
def once (seen : Bool) (value expected : String) (next : Seen) : Except Errno Seen :=
  if seen || !sameText value expected then .error .EPROTO else .ok next

/-- A field of the response in `dill_ws_attach_client_mem`. -/
def clientField (seen : Seen) (name value : String) : M (Except Errno Seen) := do
  if sameText name "Upgrade" then
    return once seen.upgrade value "websocket" { seen with upgrade := true }
  else if sameText name "Connection" then
    return once seen.connection value "Upgrade" { seen with connection := true }
  else if sameText name "Sec-WebSocket-Accept" then
    if seen.key then return .error .EPROTO
    else
      match ← reply Reply.key? with
      | .error err => return .error err
      | .ok key =>
        return if value = key then .ok { seen with key := true } else .error .EPROTO
  else return .ok seen

/-- A field of the request in `dill_ws_attach_server_mem`; `hostlen` is the size of the buffer. -/
def serverField (hostlen : ℕ) (seen : Seen) (name value : String) : M (Except Errno Seen) := do
  if sameText name "Host" then
    return if seen.host then .error .EPROTO
      else if hostlen ≤ value.utf8ByteSize then .error .EMSGSIZE
      else .ok { seen with host := true }
  else if sameText name "Upgrade" then
    return once seen.upgrade value "websocket" { seen with upgrade := true }
  else if sameText name "Connection" then
    return once seen.connection value "Upgrade" { seen with connection := true }
  else if sameText name "Sec-WebSocket-Key" then
    if seen.key then return .error .EPROTO
    else
      match ← reply Reply.key? with
      | .error err => return .error err
      | .ok _ => return .ok { seen with key := true }
  else if sameText name "Sec-WebSocket-Version" then
    return once seen.version value "13" { seen with version := true }
  else return .ok seen

/-- The loop over the header fields; `EPIPE` is their end. -/
def recvFieldsN (field : Seen → String → String → M (Except Errno Seen)) (s : ℤ) :
    ℕ → Seen → M (Except Errno Seen)
  | 0, _ => stop .blocked
  | n + 1, seen => do
    match ← httpRecvfield s with
    | .error .EPIPE => return .ok seen
    | .error err => return .error err
    | .ok (name, value) =>
      match ← field seen name value with
      | .error err => return .error err
      | .ok seen => recvFieldsN field s n seen

/-- Each turn of the loop takes an answer. -/
def recvFields (field : Seen → String → String → M (Except Errno Seen)) (s : ℤ) :
    M (Except Errno Seen) :=
  fun w => recvFieldsN field s (w.env.length + 1) .none w

/-- The label `error` of `dill_ws_attach_server_mem`. -/
def serverFail (s : ℤ) (err : Errno) : M (Except Errno ℤ) :=
  if 0 ≤ s then closeFail s err else return .error err

/-- The end of the attach functions of `ws.c`, with the code at their label `error`. -/
def wsMake (error : ℤ → Errno → M (Except Errno ℤ)) (s : ℤ) : M (Except Errno ℤ) := do
  match ← make .wsSock (some s) with
  | .error err => error s err
  | .ok h => return .ok h

/-- The attach functions of `ws.c` after the handshake. -/
def wsFinish (error : ℤ → Errno → M (Except Errno ℤ)) (s : ℤ) : M (Except Errno ℤ) := do
  match ← httpDetach s with
  | .error err => error (-1) err
  | .ok s => wsMake error s

/-- What the attach functions of `ws.c` do before the handshake. -/
def wsAttach (error : ℤ → Errno → M (Except Errno ℤ)) (mem nohttp : Bool)
    (handshake : ℤ → M (Except Errno ℤ)) (s : ℤ) : M (Except Errno ℤ) := do
  if !mem then error s .EINVAL
  else
    match ← hquery s .bsock with
    | .error err => error s err
    | .ok () =>
      match ← hown s with
      | .error err => error (-1) err
      | .ok s => if nohttp then wsMake error s else handshake s

/-- The HTTP request in `dill_ws_attach_client_mem`. -/
def clientRequest (s : ℤ) : M (Except Errno Unit) :=
  inOrder [httpSendrequest s, httpSendfield s, httpSendfield s, httpSendfield s,
    wsRequestKey, httpSendfield s, httpSendfield s, httpDone s]

/-- The handshake in `dill_ws_attach_client_mem`; `named` says that `resource` and `host` are given.
When the status is not 101 the function returns without closing the HTTP socket, which is on its
stack. -/
def clientHandshake (named : Bool) (s : ℤ) : M (Except Errno ℤ) := do
  if !named then fail s .EINVAL
  else
    match ← httpAttachMem true s with
    | .error err => fail (-1) err
    | .ok s =>
      match ← clientRequest s with
      | .error err => fail s err
      | .ok () =>
        match ← httpRecvstatus s with
        | .error err => fail s err
        | .ok rc =>
          if rc ≠ 101 then
            let o ← self s
            free s o
            return .error .EPROTO
          else
            match ← recvFields clientField s with
            | .error err => fail s err
            | .ok seen =>
              if !seen.upgrade || !seen.connection || !seen.key then fail s .EPROTO
              else wsFinish fail s

/-- `dill_ws_attach_client_mem`. -/
def wsAttachClientMem (mem nohttp named : Bool) (s : ℤ) : M (Except Errno ℤ) :=
  wsAttach fail mem nohttp (clientHandshake named) s

/-- The HTTP response in `dill_ws_attach_server_mem`. -/
def serverResponse (s : ℤ) : M (Except Errno Unit) :=
  inOrder [httpSendstatus s, httpSendfield s, httpSendfield s, httpSendfield s]

/-- The handshake in `dill_ws_attach_server_mem`. -/
def serverHandshake (hostlen : ℕ) (s : ℤ) : M (Except Errno ℤ) := do
  match ← httpAttachMem true s with
  | .error err => serverFail (-1) err
  | .ok s =>
    match ← httpRecvrequest s with
    | .error err => serverFail s err
    | .ok command =>
      if command ≠ "GET" then serverFail s .EPROTO
      else
        match ← recvFields (serverField hostlen) s with
        | .error err => serverFail s err
        | .ok seen =>
          if !seen.upgrade || !seen.connection || !seen.key || !seen.version then
            serverFail s .EPROTO
          else
            match ← serverResponse s with
            | .error err => serverFail s err
            | .ok () => wsFinish serverFail s

/-- `dill_ws_attach_server_mem`. -/
def wsAttachServerMem (mem nohttp : Bool) (hostlen : ℕ) (s : ℤ) : M (Except Errno ℤ) :=
  wsAttach serverFail mem nohttp (serverHandshake hostlen) s

/-- The attach functions with their arguments but the handle. -/
inductive Attach
  | prefixMem (mem : Bool) (hdrlen : ℕ)
  | prefixAlloc (hdrlen : ℕ)
  | suffixMem (mem suffix : Bool) (suffixlen : ℕ)
  | suffixAlloc (suffix : Bool) (suffixlen : ℕ)
  | termMem (mem buf : Bool) (len : ℕ)
  | termAlloc (buf : Bool) (len : ℕ)
  | httpMem (mem : Bool)
  | httpAlloc
  | wsClientMem (mem nohttp named : Bool)
  | wsClientAlloc (nohttp named : Bool)
  | wsServerMem (mem nohttp : Bool) (hostlen : ℕ)
  | wsServerAlloc (nohttp : Bool) (hostlen : ℕ)

/-- A call of an attach function. -/
def Attach.call : Attach → ℤ → M (Except Errno ℤ)
  | .prefixMem mem hdrlen => prefixAttachMem mem hdrlen
  | .prefixAlloc hdrlen => allocated (prefixAttachMem true hdrlen)
  | .suffixMem mem suffix suffixlen => suffixAttachMem mem suffix suffixlen
  | .suffixAlloc suffix suffixlen => allocated (suffixAttachMem true suffix suffixlen)
  | .termMem mem buf len => termAttachMem mem buf len
  | .termAlloc buf len => allocated (termAttachMem true buf len)
  | .httpMem mem => httpAttachMem mem
  | .httpAlloc => allocated (httpAttachMem true)
  | .wsClientMem mem nohttp named => wsAttachClientMem mem nohttp named
  | .wsClientAlloc nohttp named => allocated (wsAttachClientMem true nohttp named)
  | .wsServerMem mem nohttp hostlen => wsAttachServerMem mem nohttp hostlen
  | .wsServerAlloc nohttp hostlen => allocated (wsAttachServerMem true nohttp hostlen)

end Libdill.Layer
