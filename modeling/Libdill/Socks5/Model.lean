import Libdill.Foundations.Dialogue
import Libdill.Sock.Bsock
import Mathlib.Data.List.TakeWhile

/-!
# SOCKS5

The functions of `socks5.c`, as dialogues: they send and receive bytes, and the proxy asks `auth_fn`.
Memory of a fixed size is a list of bytes; what is outside of it cannot be read or written, and a
program that tries to crashes, as it does when an assertion fails. The value of an error is what is in
`errno`, if the function has set it.

`inet_pton`, `inet_ntop` and the resolver are parameters.
-/

namespace Libdill.Socks5

open Foundations Libdill.Sock

/-! ## Memory -/

/-- A string: the bytes before the terminator. -/
structure CString where
  bytes : List UInt8
  noNul : 0 ∉ bytes
  deriving DecidableEq

/-- A function of this file; it may call `auth_fn` with a user name and a password. -/
abbrev Prog (α : Type) := Dialogue UInt8 (CString × CString) Bool (Option Errno) α

/-- `buf[i]`. -/
def byteAt (buf : List UInt8) (i : ℕ) : Prog UInt8 :=
  match buf[i]? with
  | some b => .ret b
  | none => .crash

/-- `memcpy(dst, buf + off, n)`. -/
def load (buf : List UInt8) (off n : ℕ) : Prog (List UInt8) :=
  if off + n ≤ buf.length then .ret ((buf.drop off).take n) else .crash

/-- `memcpy(buf + off, bs, n)`. -/
def store (buf : List UInt8) (off : ℕ) (bs : List UInt8) : Prog (List UInt8) :=
  if off + bs.length ≤ buf.length then .ret (buf.take off ++ bs ++ buf.drop (off + bs.length))
  else .crash

/-- `strcpy(buf + off, str)`. -/
def strcpy (buf : List UInt8) (off : ℕ) (str : CString) : Prog (List UInt8) :=
  store buf off (str.bytes ++ [0])

/-- The string at the beginning of `bs`. -/
def CString.upto (bs : List UInt8) : CString :=
  ⟨bs.takeWhile (· != 0), fun h => by simpa using List.mem_takeWhile_imp h⟩

/-- The string at `buf + off`. It has to end inside of the buffer. -/
def stringAt (buf : List UInt8) (off : ℕ) : Prog CString :=
  if 0 ∈ buf.drop off then .ret (CString.upto (buf.drop off)) else .crash

/-- `dill_bsend(s, buf, n)`. -/
def sendFrom (buf : List UInt8) (n : ℕ) : Prog Unit := do
  let bs ← load buf 0 n
  .send bs (.ret ())

/-- `dill_brecv(s, buf + off, n)`. -/
def recvAt (buf : List UInt8) (off n : ℕ) : Prog (List UInt8) :=
  if off + n ≤ buf.length then .recv n fun bs => store buf off bs.1 else .crash

/-- Fails with `e` if `c`. -/
def refuse (c : Bool) (e : Errno) : Prog Unit := Dialogue.refuse c (some e)

/-- The two bytes of a port. -/
def htons (port : ℕ) : List UInt8 := [UInt8.ofNat (port >>> 8), UInt8.ofNat (port &&& 0xff)]

/-- `ntohs` of the two bytes at `buf + off`. -/
def ntohsAt (buf : List UInt8) (off : ℕ) : Prog ℕ := do
  let hi ← byteAt buf off
  let lo ← byteAt buf (off + 1)
  .ret (hi.toNat * 256 + lo.toNat)

/-- Memory of `n` bytes with `w` at its beginning. -/
def filled (w : List UInt8) (n : ℕ) : List UInt8 := w ++ List.replicate (n - w.length) 0

theorem filled_nil (n : ℕ) : List.replicate n 0 = filled [] n := rfl

section Memory

variable {w bs a b : List UInt8} {n off : ℕ}

theorem length_filled (h : w.length ≤ n) : (filled w n).length = n := by
  unfold filled
  rw [List.length_append, List.length_replicate]
  omega

theorem store_append (ha : off = a.length) (h : bs.length ≤ b.length) :
    store (a ++ b) off bs = .ret (a ++ bs ++ b.drop bs.length) := by
  subst ha
  unfold store
  rw [if_pos (by rw [List.length_append]; omega), List.take_left, List.drop_length_add_append]

theorem drop_fill :
    (List.replicate (n - w.length) (0 : UInt8)).drop bs.length
      = List.replicate (n - (w ++ bs).length) 0 := by
  rw [List.drop_replicate, List.length_append]
  congr 1
  omega

theorem store_filled (ho : off = w.length) (h : w.length + bs.length ≤ n) :
    store (filled w n) off bs = .ret (filled (w ++ bs) n) := by
  have hlen : bs.length ≤ (List.replicate (n - w.length) (0 : UInt8)).length := by
    rw [List.length_replicate]
    omega
  unfold filled
  rw [store_append ho hlen, drop_fill]

theorem recvAt_filled {k : ℕ} (ho : off = w.length) (h : w.length + k ≤ n) :
    recvAt (filled w n) off k = .recv k fun bs => .ret (filled (w ++ bs.1) n) := by
  unfold recvAt
  rw [if_pos (by rw [length_filled (by omega)]; omega)]
  congr 1
  funext bs
  exact store_filled ho (by rw [bs.2]; exact h)

/-- The terminator is in its place already. -/
theorem strcpy_filled {str : CString} (ho : off = w.length) :
    strcpy (filled w n) off str =
      if w.length + str.bytes.length < n then .ret (filled (w ++ str.bytes) n) else .crash := by
  unfold strcpy
  split
  · rename_i h
    rw [store_filled ho (by simp only [List.length_append, List.length_singleton]; omega)]
    have hfill : n - (w ++ str.bytes).length
        = n - (w ++ (str.bytes ++ [0])).length + 1 := by
      simp only [List.length_append, List.length_singleton]
      omega
    unfold filled
    rw [hfill, List.replicate_succ]
    simp only [List.append_assoc, List.singleton_append]
  · rename_i h
    unfold store
    rw [if_neg]
    unfold filled
    simp only [List.length_append, List.length_singleton, List.length_replicate]
    omega

theorem byteAt_filled {x : UInt8} (h : w[off]? = some x) : byteAt (filled w n) off = .ret x := by
  obtain ⟨hlt, hx⟩ := List.getElem?_eq_some_iff.1 h
  unfold byteAt filled
  rw [List.getElem?_append_left hlt, h]

theorem load_append (ha : off = a.length) : load (a ++ bs ++ b) off bs.length = .ret bs := by
  subst ha
  unfold load
  rw [if_pos (by simp only [List.length_append]; omega), List.append_assoc, List.drop_left,
    List.take_left]

theorem sendFrom_filled {k : ℕ} (hk : k = w.length) :
    sendFrom (filled w n) k = .send w (.ret ()) := by
  subst hk
  have h : load ([] ++ w ++ List.replicate (n - w.length) 0) 0 w.length = .ret w := load_append rfl
  unfold sendFrom filled
  rw [List.nil_append] at h
  rw [h, Dialogue.ret_bind]

theorem stringAt_append (ha : off = a.length) :
    stringAt (a ++ (bs ++ 0 :: b)) off = .ret (CString.upto bs) := by
  subst ha
  unfold stringAt
  rw [List.drop_left, if_pos (by simp)]
  congr 1
  unfold CString.upto
  congr 1
  rw [List.takeWhile_append]
  split
  · rename_i h
    have hall : bs.takeWhile (· != 0) = bs := List.takeWhile_prefix _ |>.eq_of_length h
    rw [hall]
    simp
  · rfl

end Memory

/-! ## Errors -/

def EIO : Errno := .other 5

def EACCES : Errno := .other 13

def EOPNOTSUPP : Errno := .other 95

def EAFNOSUPPORT : Errno := .other 97

def ENETUNREACH : Errno := .other 101

def ECONNREFUSED : Errno := .other 111

def EHOSTUNREACH : Errno := .other 113

/-! ## Authentication -/

/-- The part of `s5_client_auth` that sends the user name and the password. -/
def clientUserpass (username password : CString) : Prog Unit := do
  let upauth := List.replicate 513 0
  let ulen := UInt8.ofNat username.bytes.length
  let plen := UInt8.ofNat password.bytes.length
  let upauth ← store upauth 0 [0x01]
  let upauth ← store upauth 1 [ulen]
  let upauth ← strcpy upauth 2 username
  let upauth ← store upauth (2 + ulen.toNat) [plen]
  let upauth ← strcpy upauth (3 + ulen.toNat) password
  sendFrom upauth (3 + ulen.toNat + plen.toNat)
  let upauthr ← recvAt [0, 0] 0 2
  refuse ((← byteAt upauthr 0) != 0x01) .EPROTO
  refuse ((← byteAt upauthr 1) != 0x00) EACCES

/-- `s5_client_auth`. -/
def clientAuth (username password : Option CString) : Prog Unit := do
  refuse (username.any fun u => 255 < u.bytes.length) .EINVAL
  refuse (password.any fun p => 255 < p.bytes.length) .EINVAL
  let vims := List.replicate 4 0
  let vims ← store vims 0 [0x05]
  let vims ← store vims 2 [0x00]
  let vims ← store vims 3 [0x02]
  let noauth := username.isNone || password.isNone
  let vims ← store vims 1 [if noauth then 1 else 2]
  sendFrom vims (if noauth then 3 else 4)
  let vimr ← recvAt [0, 0] 0 2
  refuse ((← byteAt vimr 0) != 0x05) .EPROTO
  let method ← byteAt vimr 1
  if method = 0x00 then .ret ()
  else if method = 0x02 then
    -- the two assertions
    match username, password with
    | some username, some password => clientUserpass username password
    | _, _ => .crash
  else if method = 0xff then .fail (some EACCES)
  else .crash

/-- The loop over the methods, from index `i` on; the flags are `req_up` and `req_na`. -/
def scanMethods (vims : List UInt8) : ℕ → ℕ → Bool × Bool → Prog (Bool × Bool)
  | 0, _, req => .ret req
  | n + 1, i, (reqUp, reqNa) => do
    let method ← byteAt vims (2 + i)
    scanMethods vims n (i + 1)
      (if method = 0x00 then (reqUp, true) else if method = 0x02 then (true, reqNa)
        else (reqUp, reqNa))

/-- What follows the label `accept_noauth`. -/
def acceptNoauth : Prog Unit := sendFrom [0x05, 0x00] 2

/-- What follows the label `pwauth_success`. -/
def pwauthSuccess : Prog Unit := sendFrom [0x01, 0x00] 2

/-- The part of `dill_socks5_proxy_auth` that receives the user name and the password. -/
def proxyUserpass : Prog Unit := do
  sendFrom [0x05, 0x02] 2
  let authr := List.replicate 514 0
  let authr ← recvAt authr 0 2
  refuse ((← byteAt authr 0) != 0x01) .EPROTO
  let ulen := (← byteAt authr 1).toNat
  let authr ← recvAt authr 2 ulen
  let authr ← recvAt authr (2 + ulen) 1
  let plen := (← byteAt authr (2 + ulen)).toNat
  let authr ← recvAt authr (3 + ulen) plen
  let authr ← store authr (2 + ulen) [0x00]
  let authr ← store authr (3 + ulen + plen) [0x00]
  let uname ← stringAt authr 2
  let passwd ← stringAt authr (3 + ulen)
  let accepted ← .ask (uname, passwd) .ret
  if accepted then pwauthSuccess
  else do
    sendFrom [0x01, 0xff] 2
    .fail none

/-- `dill_socks5_proxy_auth`; the flag says whether there is an `auth_fn`. -/
def proxyAuth (authFn : Bool) : Prog Unit := do
  let vims := List.replicate 257 0
  let vims ← recvAt vims 0 2
  refuse ((← byteAt vims 0) != 0x05) .EPROTO
  let nmethods := (← byteAt vims 1).toNat
  let vims ← recvAt vims 2 nmethods
  let (reqUp, reqNa) ← scanMethods vims nmethods 0 (false, false)
  if reqNa && !authFn then acceptNoauth
  else if reqUp && authFn then proxyUserpass
  else do
    sendFrom [0x05, 0xff] 2
    .fail none

/-! ## Addresses -/

/-- An IPv4 or IPv6 address with its port, in host byte order. -/
inductive IpAddr
  | inet (addr : {a : List UInt8 // a.length = 4}) (port : UInt16)
  | inet6 (addr : {a : List UInt8 // a.length = 16}) (port : UInt16)
  deriving DecidableEq

/-- `_socks5_addr`. -/
structure S5Addr where
  atyp : UInt8
  addr : List UInt8
  alen : ℕ
  port : ℕ

/-- `s5_ipaddr_to_s5addr`. -/
def ipaddrToS5addr : IpAddr → Prog S5Addr
  | .inet a port => do
    let addr ← store (List.replicate 257 0) 0 a.1
    .ret ⟨1, addr, 4, port.toNat⟩
  | .inet6 a port => do
    let addr ← store (List.replicate 257 0) 0 a.1
    .ret ⟨4, addr, 16, port.toNat⟩

/-- The modes of `dill_ipaddr_remote` used here. -/
inductive Mode
  | ipv4
  | ipv6
  | prefIpv4

/-- `dill_ipaddr_remote`. -/
abbrev Remote := CString → ℕ → Mode → Except Errno IpAddr

/-- "127.0.0.1". -/
def loopback : CString := ⟨[49, 50, 55, 46, 48, 46, 48, 46, 49], by decide⟩

/-- "::1". -/
def loopback6 : CString := ⟨[58, 58, 49], by decide⟩

/-- A call of `dill_ipaddr_remote`. -/
def resolve (remote : Remote) (name : CString) (port : ℕ) (mode : Mode) : Prog IpAddr :=
  match remote name port mode with
  | .ok addr => .ret addr
  | .error e => .fail (some e)

/-- `memcpy(&ipv4->sin_addr, a, n)`. -/
def IpAddr.setInet (a : List UInt8) : IpAddr → Prog IpAddr
  | .inet _ port => if h : a.length = 4 then .ret (.inet ⟨a, h⟩ port) else .crash
  | .inet6 _ _ => .crash

/-- `memcpy(&ipv6->sin6_addr, a, n)`. -/
def IpAddr.setInet6 (a : List UInt8) : IpAddr → Prog IpAddr
  | .inet _ _ => .crash
  | .inet6 _ port => if h : a.length = 16 then .ret (.inet6 ⟨a, h⟩ port) else .crash

/-- `s5_s5addr_to_ipaddr`; `addr` is what is stored there before. -/
def s5addrToIpaddr (remote : Remote) (addr : IpAddr) (s5 : S5Addr) : Prog IpAddr := do
  refuse (65535 < s5.port) .EINVAL
  if s5.atyp = 1 then do
    let addr ← resolve remote loopback s5.port .ipv4
    addr.setInet (← load s5.addr 0 s5.alen)
  else if s5.atyp = 4 then do
    let addr ← resolve remote loopback6 s5.port .ipv6
    addr.setInet6 (← load s5.addr 0 s5.alen)
  else if s5.atyp = 3 then do
    resolve remote (← stringAt s5.addr 0) s5.port .prefIpv4
  else .ret addr

/-! ## Commands -/

/-- `s5_recv_command_request_response`: `conn` afterwards. -/
def recvCommandRequestResponse (conn : List UInt8) : Prog (List UInt8) := do
  let conn ← recvAt conn 0 4
  refuse ((← byteAt conn 0) != 0x05) .EPROTO
  refuse ((← byteAt conn 2) != 0x00) .EPROTO
  let atyp ← byteAt conn 3
  if atyp = 1 then recvAt conn 4 6
  else if atyp = 4 then recvAt conn 4 18
  else if atyp = 3 then do
    let conn ← recvAt conn 4 1
    recvAt conn 5 ((← byteAt conn 4).toNat + 2)
  else .fail (some .EPROTO)

/-- What `errno` is set to for a reply. -/
def replyErrno (rep : UInt8) : Errno :=
  if rep = 0x01 then EIO
  else if rep = 0x02 then EACCES
  else if rep = 0x03 then ENETUNREACH
  else if rep = 0x04 then EHOSTUNREACH
  else if rep = 0x05 then ECONNREFUSED
  else if rep = 0x06 then .ETIMEDOUT
  else if rep = 0x07 then EOPNOTSUPP
  else if rep = 0x08 then EAFNOSUPPORT
  else .EPROTO

/-- `s5_handle_connection_response`. -/
def handleConnectionResponse : Prog Unit := do
  let conn ← recvCommandRequestResponse (List.replicate 262 0)
  let rep ← byteAt conn 1
  if rep = 0x00 then .ret () else .fail (some (replyErrno rep))

/-- `inet_pton` for the two families. -/
structure Pton where
  inet : CString → Option {a : List UInt8 // a.length = 4}
  inet6 : CString → Option {a : List UInt8 // a.length = 16}

/-- The request of `s5_client_connectbyname`, and how many bytes of `conn` it takes. -/
def putName (pton : Pton) (conn : List UInt8) (hostname : CString) (port : ℕ) :
    Prog (List UInt8 × ℕ) :=
  match pton.inet hostname with
  | some ina4 => do
    let conn ← store conn 3 [1]
    let conn ← store conn 4 ina4.1
    let conn ← store conn 8 (htons port)
    .ret (conn, 10)
  | none =>
    match pton.inet6 hostname with
    | some ina6 => do
      let conn ← store conn 3 [4]
      let conn ← store conn 4 ina6.1
      let conn ← store conn 20 (htons port)
      .ret (conn, 22)
    | none => do
      let alen := UInt8.ofNat hostname.bytes.length
      let conn ← store conn 3 [3]
      let conn ← store conn 4 [alen]
      let conn ← store conn 5 (hostname.bytes.take alen.toNat)
      let conn ← store conn (5 + alen.toNat) (htons port)
      .ret (conn, 7 + alen.toNat)

/-- `s5_client_connectbyname`. -/
def clientConnectbyname (pton : Pton) (hostname : Option CString) (port : ℤ) : Prog Unit :=
  match hostname with
  | none => .fail (some .EINVAL)
  | some hostname => do
    refuse (255 < hostname.bytes.length) .EINVAL
    refuse (port ≤ 0 || 65535 < port) .EINVAL
    let conn := List.replicate 262 0
    let conn ← store conn 0 [0x05]
    let conn ← store conn 1 [0x01]
    let conn ← store conn 2 [0x00]
    let (conn, connLen) ← putName pton conn hostname port.toNat
    sendFrom conn connLen
    handleConnectionResponse

/-- `s5_client_connect`. -/
def clientConnect (ipaddr : Option IpAddr) : Prog Unit :=
  match ipaddr with
  | none => .fail (some .EINVAL)
  | some ipaddr => do
    let conn := List.replicate 262 0
    let conn ← store conn 0 [0x05]
    let conn ← store conn 1 [0x01]
    let conn ← store conn 2 [0x00]
    let s5addr ← ipaddrToS5addr ipaddr
    let conn ← store conn 3 [s5addr.atyp]
    let conn ← store conn 4 (← load s5addr.addr 0 s5addr.alen)
    let conn ← store conn (4 + s5addr.alen) (htons s5addr.port)
    sendFrom conn (s5addr.alen + 6)
    handleConnectionResponse

/-- The part of `dill_socks5_proxy_recvcommand` that copies the address; the port is read where it
says. -/
def getS5addr (conn : List UInt8) : Prog S5Addr := do
  let atyp ← byteAt conn 3
  let addr := List.replicate 257 0
  if atyp = 1 then do
    let addr ← store addr 0 (← load conn 4 4)
    .ret ⟨atyp, addr, 4, ← ntohsAt conn 8⟩
  else if atyp = 4 then do
    let addr ← store addr 0 (← load conn 4 16)
    .ret ⟨atyp, addr, 16, ← ntohsAt conn 20⟩
  else if atyp = 3 then do
    let alen := (← byteAt conn 4).toNat
    let addr ← store addr 0 (← load conn 5 alen)
    let addr ← store addr alen [0x00]
    .ret ⟨atyp, addr, alen, ← ntohsAt conn (5 + alen)⟩
  else .crash

/-- `dill_socks5_proxy_recvcommand`: the command and the address, which is stored over `ipaddr`. -/
def proxyRecvcommand (remote : Remote) (ipaddr : IpAddr) : Prog (UInt8 × IpAddr) := do
  let conn ← recvCommandRequestResponse (List.replicate 262 0)
  let cmd ← byteAt conn 1
  refuse (cmd < 1 || 3 < cmd) .EPROTO
  let s5addr ← getS5addr conn
  let ipaddr ← s5addrToIpaddr remote ipaddr s5addr
  .ret (cmd, ipaddr)

/-- The part of `dill_socks5_proxy_recvcommandbyname` that writes the name into `host`; `ntop` is
`inet_ntop`. -/
def getName (ntop : List UInt8 → CString) (conn host : List UInt8) : Prog (List UInt8 × ℕ) := do
  let atyp ← byteAt conn 3
  if atyp = 1 then do
    let host ← strcpy host 0 (ntop (← load conn 4 4))
    .ret (host, ← ntohsAt conn 8)
  else if atyp = 4 then do
    let host ← strcpy host 0 (ntop (← load conn 4 16))
    .ret (host, ← ntohsAt conn 20)
  else if atyp = 3 then do
    let alen := (← byteAt conn 4).toNat
    let host ← store host 0 (← load conn 5 alen)
    let host ← store host alen [0x00]
    .ret (host, ← ntohsAt conn (5 + alen))
  else .crash

/-- `dill_socks5_proxy_recvcommandbyname`: the command, the memory of the caller for the name, and the
port. -/
def proxyRecvcommandbyname (ntop : List UInt8 → CString) (host : List UInt8) :
    Prog (UInt8 × List UInt8 × ℕ) := do
  let conn ← recvCommandRequestResponse (List.replicate 262 0)
  let cmd ← byteAt conn 1
  refuse (cmd < 1 || 3 < cmd) .EPROTO
  let (host, port) ← getName ntop conn host
  .ret (cmd, host, port)

/-- `dill_socks5_proxy_sendreply`. -/
def proxySendreply (reply : ℤ) (ipaddr : IpAddr) : Prog Unit := do
  refuse (reply < 0 || 8 < reply) .EINVAL
  let s5addr ← ipaddrToS5addr ipaddr
  let conn := List.replicate 262 0
  let conn ← store conn 0 [0x05]
  let conn ← store conn 1 [UInt8.ofNat reply.toNat]
  let conn ← store conn 2 [0x00]
  let conn ← store conn 3 [s5addr.atyp]
  let (conn, alen) ←
    if s5addr.atyp = 1 then do
      .ret (← store conn 4 (← load s5addr.addr 0 4), s5addr.alen)
    else if s5addr.atyp = 4 then do
      .ret (← store conn 4 (← load s5addr.addr 0 16), s5addr.alen)
    else if s5addr.atyp = 3 then do
      let conn ← store conn 4 [UInt8.ofNat s5addr.alen]
      .ret (← store conn 5 (← load s5addr.addr 0 s5addr.alen), s5addr.alen + 1)
    else .crash
  let conn ← store conn (4 + alen) (htons s5addr.port)
  sendFrom conn (alen + 6)

/-- `dill_socks5_client_connect`. -/
def socksConnect (username password : Option CString) (addr : Option IpAddr) : Prog Unit := do
  clientAuth username password
  clientConnect addr

/-- `dill_socks5_client_connectbyname`. -/
def socksConnectbyname (pton : Pton) (username password : Option CString)
    (hostname : Option CString) (port : ℤ) : Prog Unit := do
  clientAuth username password
  clientConnectbyname pton hostname port

end Libdill.Socks5
