import Libdill.Http.Partner
import Libdill.Http.Grammar
import Libdill.Ws.Key
import Libdill.Ws.Model

/-!
# The opening handshake

`dill_ws_attach_client_mem` and `dill_ws_attach_server_mem`, over any bytestream, when there are
handles and memory for the sockets. The loop over the header fields is the same for both; what they
make of a field is not.
-/

namespace Libdill.Ws

open Foundations Libdill.Sock Libdill.Utils Libdill.Http
open Libdill.Suffix (SuffixSock Source crlf wireOf)
open Libdill.Term (TermSock)

/-! ## Strings -/

theorem null_notMem_front (bs : List UInt8) : 0 ∉ bs.takeWhile (· != 0) := fun h =>
  absurd (List.mem_takeWhile_imp h) (by decide)

/-- The string in front of the first null character. -/
def cut (bs : List UInt8) : CString where
  bytes := bs.takeWhile (· != 0)
  noNull := null_notMem_front bs

/-- The string in an array. -/
def stringIn {τ : Type} (bs : List UInt8) : Call τ Stop Errno CString :=
  if 0 ∈ bs then pure (cut bs) else Call.stop .fault

/-- A string of the source. -/
def lit (w : String) : CString := cut (ascii w)

/-- `tolower` in the C locale. -/
def tolower (c : UInt8) : UInt8 := if 65 ≤ c ∧ c ≤ 90 then c + 32 else c

/-- Whether `strcasecmp` finds no difference. -/
def strcasecmp (s t : CString) : Bool := s.bytes.map tolower == t.bytes.map tolower

/-- `strcpy` into an array. -/
def strcpy (buf : List UInt8) (s : CString) : List UInt8 :=
  s.bytes ++ 0 :: buf.drop (s.bytes.length + 1)

/-! ## The header fields -/

/-- `DILL_WS_NOHTTP`. -/
def noHttp : UInt32 := 2

/-- What `dill_random` returns for a key. -/
structure Nonce where
  bytes : List UInt8
  length_bytes : bytes.length = 16

/-- What the functions find in memory that they have not written, and how `memcmp` works. -/
structure Memory where
  machine : Machine
  full : Bool
  rxbuf : ℕ → Rxbuf
  args : Args
  command : (args .command).length = 32
  reason : (args .reason).length = 256
  name : (args .name).length = 256
  value : (args .value).length = 256
  requestKey : ℕ → UInt8
  responseKey : ℕ → UInt8

/-- `dill_ws_response_key`. -/
def respond {τ : Type} (m : Machine) (k : ℕ) (key : CString) (out : ℕ → UInt8) :
    Call τ Stop Errno (ℕ → UInt8) :=
  match responseKey m k (some key.bytes) (some out) with
  | .error r => Call.stop r
  | .ok (.error e) => Call.fail e
  | .ok (.ok mem) => pure mem

/-- `dill_ws_request_key`. -/
def request {τ : Type} (random : Except Errno Nonce) (out : ℕ → UInt8) :
    Call τ Stop Errno (ℕ → UInt8) :=
  match random with
  | .error e => Call.fail e
  | .ok nonce =>
    match requestKey nonce.bytes (some out) with
    | .error r => Call.stop r
    | .ok (.error e) => Call.fail e
    | .ok (.ok mem) => pure mem

/-- The string in a key. -/
def keyString {τ : Type} (mem : ℕ → UInt8) : Call τ Stop Errno CString :=
  stringIn ((List.range keySize).map mem)

/-- The string in one of the buffers. -/
def string (a : Arg) : Call Args Stop Errno CString := fun s => stringIn (s a) s

/-- `has_upgrade`, `has_connection` and `has_key` of the client. -/
structure ClientSeen where
  upgrade : Bool
  connection : Bool
  key : Bool

/-- What the client makes of a field. -/
def clientField (m : Machine) (k : ℕ) (requestKey : CString) (out : ℕ → UInt8) (has : ClientSeen) :
    Call Args Stop Errno ClientSeen := do
  let name ← string .name
  let value ← string .value
  if strcasecmp name (lit "Upgrade") then do
    Call.require (!has.upgrade && strcasecmp value (lit "websocket")) .EPROTO
    pure { has with upgrade := true }
  else if strcasecmp name (lit "Connection") then do
    Call.require (!has.connection && strcasecmp value (lit "Upgrade")) .EPROTO
    pure { has with connection := true }
  else if strcasecmp name (lit "Sec-WebSocket-Accept") then do
    Call.require (!has.key) .EPROTO
    let mem ← respond m k requestKey out
    let responseKey ← keyString mem
    Call.require (decide (value.bytes = responseKey.bytes)) .EPROTO
    pure { has with key := true }
  else pure has

/-- The flags of the server, the buffer of its caller for the host and `response_key`. -/
structure ServerSeen where
  host : Bool
  upgrade : Bool
  connection : Bool
  key : Bool
  version : Bool
  hostBuf : List UInt8
  responseKey : ℕ → UInt8

/-- What the server makes of a field. -/
def serverField (m : Machine) (k : ℕ) (has : ServerSeen) : Call Args Stop Errno ServerSeen := do
  let name ← string .name
  let value ← string .value
  if strcasecmp name (lit "Host") then do
    Call.require (!has.host) .EPROTO
    Call.require (decide (value.bytes.length < has.hostBuf.length)) .EMSGSIZE
    pure { has with host := true, hostBuf := strcpy has.hostBuf value }
  else if strcasecmp name (lit "Upgrade") then do
    Call.require (!has.upgrade && strcasecmp value (lit "websocket")) .EPROTO
    pure { has with upgrade := true }
  else if strcasecmp name (lit "Connection") then do
    Call.require (!has.connection && strcasecmp value (lit "Upgrade")) .EPROTO
    pure { has with connection := true }
  else if strcasecmp name (lit "Sec-WebSocket-Key") then do
    Call.require (!has.key) .EPROTO
    -- Generate the key to be sent back to the client.
    let mem ← respond m k value has.responseKey
    pure { has with key := true, responseKey := mem }
  else if strcasecmp name (lit "Sec-WebSocket-Version") then do
    Call.require (!has.version && strcasecmp value (lit "13")) .EPROTO
    pure { has with version := true }
  else pure has

/-! ## The functions -/

section Calls

variable {σ : Type} (u : Bsock σ) (n k : ℕ) (v : Memory)

/-- The loop over the fields, for at most `k` of them. -/
def fields {φ : Type} (next : φ → Call Args Stop Errno φ) :
    ℕ → φ → Call (Args × Stack σ) Stop Errno φ
  | 0, _ => Call.stop .waits
  | k + 1, has => fun s =>
    match recvfield u n (v.rxbuf (k + 1)) s with
    | .error r => .error r
    | .ok (.error e, s) => if e = .EPIPE then .ok (.ok has, s) else .ok (.error e, s)
    | .ok (.ok (), s) => (onArgs (next has) >>= fields next k) s

/-- The request and the response, as the client sees them. -/
def clientHandshake (resource host : CString) (random : Except Errno Nonce) :
    Call (Args × Stack σ) Stop Errno Unit := do
  -- Send HTTP request.
  below (sendrequest u n (lit "GET") resource)
  below (sendfield u n (lit "Host") host)
  below (sendfield u n (lit "Upgrade") (lit "websocket"))
  below (sendfield u n (lit "Connection") (lit "Upgrade"))
  let mem ← request random v.requestKey
  let requestKey ← keyString mem
  below (sendfield u n (lit "Sec-WebSocket-Key") requestKey)
  below (sendfield u n (lit "Sec-WebSocket-Version") (lit "13"))
  below (Http.done u n)
  -- Receive HTTP response from the server.
  let rc ← recvstatus u n v.full (v.rxbuf 0)
  Call.require (rc == 101) .EPROTO
  let has ← fields u n v (clientField v.machine k requestKey v.responseKey) k ⟨false, false, false⟩
  Call.require (has.upgrade && has.connection && has.key) .EPROTO
  below (Http.detach u n k)

/-- The request and the response, as the server sees them. -/
def serverHandshake (host : List UInt8) : Call (Args × Stack σ) Stop Errno (List UInt8) := do
  -- Receive the HTTP request from the client.
  recvrequest u n v.full (v.rxbuf 0)
  let command ← fun s => stringIn (s.1 .command) s
  Call.require (decide (command.bytes = ascii "GET")) .EPROTO
  let has ← fields u n v (serverField v.machine k) k
    ⟨false, false, false, false, false, host, v.responseKey⟩
  Call.require (has.upgrade && has.connection && has.key && has.version) .EPROTO
  -- Send HTTP response back to the client.
  below (sendstatus u n 101 (lit "Switching Protocols"))
  below (sendfield u n (lit "Upgrade") (lit "websocket"))
  below (sendfield u n (lit "Connection") (lit "Upgrade"))
  let responseKey ← keyString has.responseKey
  below (sendfield u n (lit "Sec-WebSocket-Accept") responseKey)
  below (Http.detach u n k)
  pure has.hostBuf

/-- `dill_ws_attach_client_mem`, with what happens to be in the field `msg`. -/
def attachClient (flags : UInt32) (resource host : Option CString) (random : Except Errno Nonce)
    (msg : List UInt8) : Call σ Stop Errno WsSock := fun s =>
  let self := WsSock.attach false v.machine.little flags msg
  if flags &&& noHttp ≠ 0 then .ok (.ok self, s)
  else
    match resource, host with
    | some resource, some host =>
      match clientHandshake u n k v resource host random (v.args, Http.attach s) with
      | .error r => .error r
      | .ok (o, _, z) => .ok (o.map fun _ => self, z.2.2)
    | _, _ => .ok (.error .EINVAL, s)

/-- `dill_ws_attach_server_mem`: the socket, and what is in the buffers of the caller for the resource
and for the host. -/
def attachServer (flags : UInt32) (resource host : List UInt8) (msg : List UInt8) :
    Call σ Stop Errno (WsSock × List UInt8 × List UInt8) := fun s =>
  let self := WsSock.attach true v.machine.little flags msg
  if flags &&& noHttp ≠ 0 then .ok (.ok (self, resource, host), s)
  else
    match serverHandshake u n k v host (Function.update v.args .resource resource, Http.attach s) with
    | .error r => .error r
    | .ok (o, args, z) => .ok (o.map fun host => (self, args .resource, host), z.2.2)

end Calls

end Libdill.Ws
