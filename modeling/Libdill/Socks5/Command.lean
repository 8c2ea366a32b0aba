import Libdill.Socks5.Auth

/-!
# SOCKS5: commands

* `onStream_framed`: what the two receiving sides read of a request or a reply.
* `clientConnect_eq`, `clientConnectbyname_eq`, `proxySendreply_eq`: the bytes that are sent.
* `command_roundtrip`: what is sent is received, and nothing else.
-/

namespace Libdill.Socks5

open Foundations Libdill.Sock

variable {α : Type} {fate : Option Errno} {env : CString × CString → Bool}
  {asked : List ((CString × CString) × Bool)} {rest : List UInt8} {sends : List (Option Errno)}

/-! ## Frames -/

/-- A whole request or reply with the command or the code `c`. -/
inductive Framed (c : UInt8) : List UInt8 → Prop
  | inet (bs : List UInt8) (h : bs.length = 6) : Framed c ([0x05, c, 0x00, 1] ++ bs)
  | inet6 (bs : List UInt8) (h : bs.length = 18) : Framed c ([0x05, c, 0x00, 4] ++ bs)
  | name (len : UInt8) (bs : List UInt8) (h : bs.length = len.toNat + 2) :
    Framed c ([0x05, c, 0x00, 3] ++ [len] ++ bs)

theorem onStream_recv_append {n : ℕ} {k : {bs : List UInt8 // bs.length = n} → Prog α}
    (bs : {bs : List UInt8 // bs.length = n}) :
    onStream (line fate) env (.recv n k) (⟨bs.1 ++ rest, sends⟩, asked)
      = onStream (line fate) env (k bs) (⟨rest, sends⟩, asked) := by
  have hle : n ≤ (bs.1 ++ rest).length := by
    rw [List.length_append, bs.2]
    omega
  rw [onStream_recv hle]
  have htake : (⟨(bs.1 ++ rest).take n, List.length_take_of_le hle⟩ :
      {bs : List UInt8 // bs.length = n}) = bs := Subtype.ext (List.take_left' bs.2)
  rw [htake, List.drop_left' bs.2]

/-- **One message is read.** -/
theorem onStream_framed {c : UInt8} {w : List UInt8} (h : Framed c w) (f : List UInt8 → Prog α) :
    onStream (line fate) env (recvCommandRequestResponse (List.replicate 262 0) >>= f)
        (⟨w ++ rest, sends⟩, asked)
      = onStream (line fate) env (f (filled w 262)) (⟨rest, sends⟩, asked) := by
  unfold recvCommandRequestResponse
  rw [filled_nil, recvAt_filled (w := []) (by rfl) (by decide)]
  simp only [Dialogue.recv_bind, Dialogue.ret_bind, Dialogue.bind_assoc]
  cases h with
  | inet bs h =>
    rw [List.append_assoc]
    refine (onStream_recv_append ⟨[0x05, c, 0x00, 1], rfl⟩).trans ?_
    rw [byteAt_filled (x := 0x05) rfl, Dialogue.ret_bind, refuse_bne, if_pos rfl,
      byteAt_filled (x := 0x00) rfl, Dialogue.ret_bind, refuse_bne, if_pos rfl,
      byteAt_filled (x := 1) rfl, Dialogue.ret_bind, if_pos rfl,
      recvAt_filled (w := [] ++ [0x05, c, 0x00, 1]) (by rfl) (by simp), Dialogue.recv_bind]
    exact onStream_recv_append ⟨bs, h⟩
  | inet6 bs h =>
    rw [List.append_assoc]
    refine (onStream_recv_append ⟨[0x05, c, 0x00, 4], rfl⟩).trans ?_
    rw [byteAt_filled (x := 0x05) rfl, Dialogue.ret_bind, refuse_bne, if_pos rfl,
      byteAt_filled (x := 0x00) rfl, Dialogue.ret_bind, refuse_bne, if_pos rfl,
      byteAt_filled (x := 4) rfl, Dialogue.ret_bind, if_neg (by decide), if_pos rfl,
      recvAt_filled (w := [] ++ [0x05, c, 0x00, 4]) (by rfl) (by simp), Dialogue.recv_bind]
    exact onStream_recv_append ⟨bs, h⟩
  | name len bs h =>
    have hlen := len.toNat_lt
    rw [List.append_assoc, List.append_assoc]
    refine (onStream_recv_append ⟨[0x05, c, 0x00, 3], rfl⟩).trans ?_
    rw [byteAt_filled (x := 0x05) rfl, Dialogue.ret_bind, refuse_bne, if_pos rfl,
      byteAt_filled (x := 0x00) rfl, Dialogue.ret_bind, refuse_bne, if_pos rfl,
      byteAt_filled (x := 3) rfl, Dialogue.ret_bind, if_neg (by decide), if_neg (by decide),
      if_pos rfl, recvAt_filled (w := [] ++ [0x05, c, 0x00, 3]) (by rfl) (by simp),
      Dialogue.recv_bind, Dialogue.recv_bind]
    refine (onStream_recv_append ⟨[len], rfl⟩).trans ?_
    rw [Dialogue.ret_bind, byteAt_filled (x := len) rfl, Dialogue.ret_bind,
      recvAt_filled (w := [] ++ [0x05, c, 0x00, 3] ++ [len]) (by rfl)
        (by simp only [List.length_append, List.length_cons, List.length_nil]; omega),
      Dialogue.recv_bind]
    exact onStream_recv_append ⟨bs, h⟩

/-! ## The senders -/

/-- The code of the type of the address. -/
def IpAddr.atyp : IpAddr → UInt8
  | .inet _ _ => 1
  | .inet6 _ _ => 4

/-- The bytes of the address. -/
def IpAddr.bytes : IpAddr → List UInt8
  | .inet a _ => a.1
  | .inet6 a _ => a.1

/-- The port of the address. -/
def IpAddr.port : IpAddr → UInt16
  | .inet _ port => port
  | .inet6 _ port => port

theorem IpAddr.length_bytes (addr : IpAddr) : addr.bytes.length ≤ 16 := by
  cases addr with
  | inet a port => exact (Nat.le_of_eq a.2).trans (by decide)
  | inet6 a port => exact Nat.le_of_eq a.2

/-- The message with a command or a code, and an address. -/
def frame (c : UInt8) (addr : IpAddr) : List UInt8 :=
  [0x05] ++ [c] ++ [0x00] ++ [addr.atyp] ++ addr.bytes ++ htons addr.port.toNat

theorem framed_frame (c : UInt8) (addr : IpAddr) : Framed c (frame c addr) := by
  cases addr with
  | inet a port =>
    have h := Framed.inet (c := c) (a.1 ++ htons port.toNat) (by rw [List.length_append, a.2]; rfl)
    rw [← List.append_assoc] at h
    exact h
  | inet6 a port =>
    have h := Framed.inet6 (c := c) (a.1 ++ htons port.toNat) (by rw [List.length_append, a.2]; rfl)
    rw [← List.append_assoc] at h
    exact h

theorem load_filled {w : List UInt8} {n : ℕ} : load (filled w n) 0 w.length = .ret w := by
  have h := @load_append w [] (List.replicate (n - w.length) 0) 0 rfl
  rw [List.nil_append] at h
  exact h

theorem ipaddrToS5addr_eq (addr : IpAddr) : ipaddrToS5addr addr
    = .ret ⟨addr.atyp, filled addr.bytes 257, addr.bytes.length, addr.port.toNat⟩ := by
  cases addr with
  | inet a port =>
    unfold ipaddrToS5addr
    simp only
    rw [filled_nil, store_filled (w := []) (by rfl)
      (by rw [a.2]; decide), Dialogue.ret_bind]
    simp only [List.nil_append, IpAddr.atyp, IpAddr.bytes, IpAddr.port, a.2]
  | inet6 a port =>
    unfold ipaddrToS5addr
    simp only
    rw [filled_nil, store_filled (w := []) (by rfl)
      (by rw [a.2]; decide), Dialogue.ret_bind]
    simp only [List.nil_append, IpAddr.atyp, IpAddr.bytes, IpAddr.port, a.2]

/-- The four bytes at the beginning of a message. -/
theorem store_header (c atyp : UInt8) (k : List UInt8 → Prog α) :
    (do
      let conn ← store (List.replicate 262 0) 0 [0x05]
      let conn ← store conn 1 [c]
      let conn ← store conn 2 [0x00]
      let conn ← store conn 3 [atyp]
      k conn) = k (filled ([0x05] ++ [c] ++ [0x00] ++ [atyp]) 262) := by
  rw [filled_nil, store_filled (w := []) (by rfl) (by decide), Dialogue.ret_bind,
    store_filled (w := [] ++ [0x05]) (by rfl) (by simp), Dialogue.ret_bind,
    store_filled (w := [] ++ [0x05] ++ [c]) (by rfl) (by simp), Dialogue.ret_bind,
    store_filled (w := [] ++ [0x05] ++ [c] ++ [0x00]) (by rfl) (by simp), Dialogue.ret_bind]
  rfl

/-- The rest of a message with an address. -/
theorem store_address {c : UInt8} (addr : IpAddr) (k : List UInt8 → Prog α) :
    (do
      let conn ← store (filled ([0x05] ++ [c] ++ [0x00] ++ [addr.atyp]) 262) 4 addr.bytes
      let conn ← store conn (4 + addr.bytes.length) (htons addr.port.toNat)
      k conn) = k (filled (frame c addr) 262) := by
  have hlen := addr.length_bytes
  have hend : 4 + addr.bytes.length
      = ([0x05] ++ [c] ++ [0x00] ++ [addr.atyp] ++ addr.bytes).length := by
    rw [List.length_append]
    rfl
  rw [store_filled (w := [0x05] ++ [c] ++ [0x00] ++ [addr.atyp]) (by rfl)
      (by simp only [List.length_append, List.length_cons, List.length_nil]; omega),
    Dialogue.ret_bind, store_filled hend
      (by rw [← hend]; simp only [htons, List.length_cons, List.length_nil]; omega),
    Dialogue.ret_bind]
  rfl

theorem length_frame (c : UInt8) (addr : IpAddr) :
    (frame c addr).length = addr.bytes.length + 6 := by
  unfold frame htons
  simp only [List.length_append, List.length_cons, List.length_nil]
  omega

/-- **The client sends the address.** -/
theorem clientConnect_eq (addr : IpAddr) :
    clientConnect (some addr) = .send (frame 1 addr) handleConnectionResponse := by
  unfold clientConnect
  simp only [ipaddrToS5addr_eq, Dialogue.ret_bind, load_filled]
  rw [store_header, store_address, sendFrom_filled (length_frame 1 addr).symm,
    Dialogue.send_bind, Dialogue.ret_bind]

/-- **The proxy sends the reply.** -/
theorem proxySendreply_eq {reply : ℤ} (h0 : 0 ≤ reply) (h8 : reply ≤ 8) (addr : IpAddr) :
    proxySendreply reply addr = .send (frame (UInt8.ofNat reply.toNat) addr) (.ret ()) := by
  have hrange : (reply < 0 || 8 < reply : Bool) = false := by simp; omega
  unfold proxySendreply refuse
  rw [hrange, Dialogue.refuse_false, Dialogue.ret_bind]
  simp only [ipaddrToS5addr_eq, Dialogue.ret_bind]
  rw [store_header]
  cases addr with
  | inet a port =>
    have hload : load (filled (IpAddr.inet a port).bytes 257) 0 4 = .ret a.1 := by
      have h := @load_filled a.1 257
      rw [a.2] at h
      exact h
    have h1 : (IpAddr.inet a port).atyp = 1 := rfl
    rw [if_pos h1, hload, Dialogue.ret_bind]
    refine (store_address (IpAddr.inet a port) _).trans ?_
    exact sendFrom_filled (length_frame _ _).symm
  | inet6 a port =>
    have hload : load (filled (IpAddr.inet6 a port).bytes 257) 0 16 = .ret a.1 := by
      have h := @load_filled a.1 257
      rw [a.2] at h
      exact h
    have h1 : ¬ (IpAddr.inet6 a port).atyp = 1 := (by decide : ¬ (4 : UInt8) = 1)
    have h4 : (IpAddr.inet6 a port).atyp = 4 := rfl
    rw [if_neg h1, if_pos h4, hload, Dialogue.ret_bind]
    refine (store_address (IpAddr.inet6 a port) _).trans ?_
    exact sendFrom_filled (length_frame _ _).symm

/-- The message with a command and a name. -/
def nameFrame (c : UInt8) (name : List UInt8) (port : ℕ) : List UInt8 :=
  [0x05] ++ [c] ++ [0x00] ++ [3] ++ [UInt8.ofNat name.length] ++ name ++ htons port

theorem framed_nameFrame {c : UInt8} {name : List UInt8} {port : ℕ} (h : name.length ≤ 255) :
    Framed c (nameFrame c name port) := by
  have hlen : (UInt8.ofNat name.length).toNat = name.length := by
    rw [UInt8.toNat_ofNat']
    omega
  have hframed := Framed.name (c := c) (UInt8.ofNat name.length) (name ++ htons port)
    (by rw [List.length_append, hlen]; rfl)
  rw [← List.append_assoc] at hframed
  exact hframed

/-- A literal of `k` bytes and a port. -/
theorem store_literal (a : List UInt8) (atyp : UInt8) (port : ℕ) {k : ℕ} (ha : a.length = k)
    (hk : k ≤ 16) (f : List UInt8 → Prog α) :
    (do
      let conn ← store (filled ([0x05] ++ [1] ++ [0x00]) 262) 3 [atyp]
      let conn ← store conn 4 a
      let conn ← store conn (4 + k) (htons port)
      f conn)
    = f (filled ([0x05] ++ [1] ++ [0x00] ++ [atyp] ++ a ++ htons port) 262) := by
  subst ha
  have hend : 4 + a.length = ([0x05] ++ [1] ++ [0x00] ++ [atyp] ++ a).length := by
    rw [List.length_append]
    rfl
  rw [store_filled (w := [0x05] ++ [1] ++ [0x00]) (by rfl) (by simp), Dialogue.ret_bind,
    store_filled (w := [0x05] ++ [1] ++ [0x00] ++ [atyp]) (by rfl)
      (by simp only [List.length_append, List.length_cons, List.length_nil]; omega),
    Dialogue.ret_bind, store_filled hend
      (by rw [← hend]; simp only [htons, List.length_cons, List.length_nil]; omega),
    Dialogue.ret_bind]

theorem putName_name {pton : Pton} {hostname : CString} (hname : hostname.bytes.length ≤ 255)
    (h4 : pton.inet hostname = none) (h6 : pton.inet6 hostname = none) (port : ℕ) :
    putName pton (filled ([0x05] ++ [1] ++ [0x00]) 262) hostname port
      = .ret (filled (nameFrame 1 hostname.bytes port) 262,
          (nameFrame 1 hostname.bytes port).length) := by
  have hlen : (UInt8.ofNat hostname.bytes.length).toNat = hostname.bytes.length := by
    rw [UInt8.toNat_ofNat']
    omega
  have hend : 5 + hostname.bytes.length = ([0x05] ++ [1] ++ [0x00] ++ [3]
      ++ [UInt8.ofNat hostname.bytes.length] ++ hostname.bytes).length := by
    rw [List.length_append]
    rfl
  have hall : 7 + hostname.bytes.length = (nameFrame 1 hostname.bytes port).length := by
    unfold nameFrame htons
    simp only [List.length_append, List.length_cons, List.length_nil]
    omega
  unfold putName
  simp only [h4, h6]
  rw [hlen, List.take_length,
    store_filled (w := [0x05] ++ [1] ++ [0x00]) (by rfl) (by simp), Dialogue.ret_bind,
    store_filled (w := [0x05] ++ [1] ++ [0x00] ++ [3]) (by rfl) (by simp), Dialogue.ret_bind,
    store_filled (w := [0x05] ++ [1] ++ [0x00] ++ [3] ++ [UInt8.ofNat hostname.bytes.length])
      (by rfl) (by simp only [List.length_append, List.length_cons, List.length_nil]; omega),
    Dialogue.ret_bind, store_filled hend
      (by rw [← hend]; simp only [htons, List.length_cons, List.length_nil]; omega),
    Dialogue.ret_bind, hall]
  rfl

/-- The request fits, whatever kind of name it is. -/
theorem putName_eq (pton : Pton) {hostname : CString} (hname : hostname.bytes.length ≤ 255)
    (port : ℕ) :
    ∃ w, putName pton (filled ([0x05] ++ [1] ++ [0x00]) 262) hostname port
      = .ret (filled w 262, w.length) := by
  cases h4 : pton.inet hostname with
  | some a =>
    refine ⟨[0x05] ++ [1] ++ [0x00] ++ [1] ++ a.1 ++ htons port, ?_⟩
    unfold putName
    simp only [h4]
    refine (store_literal a.1 1 port a.2 (by decide) _).trans ?_
    congr 2
    simp only [List.length_append, a.2]
    rfl
  | none =>
    cases h6 : pton.inet6 hostname with
    | some a =>
      refine ⟨[0x05] ++ [1] ++ [0x00] ++ [4] ++ a.1 ++ htons port, ?_⟩
      unfold putName
      simp only [h4, h6]
      refine (store_literal a.1 4 port a.2 (by decide) _).trans ?_
      congr 2
      simp only [List.length_append, a.2]
      rfl
    | none => exact ⟨_, putName_name hname h4 h6 port⟩

theorem clientConnectbyname_of_put {pton : Pton} {hostname : CString} {port : ℤ} {w : List UInt8}
    (hname : hostname.bytes.length ≤ 255) (h1 : 1 ≤ port) (hmax : port ≤ 65535)
    (hput : putName pton (filled ([0x05] ++ [1] ++ [0x00]) 262) hostname port.toNat
      = .ret (filled w 262, w.length)) :
    clientConnectbyname pton (some hostname) port = .send w handleConnectionResponse := by
  have hlong : (255 < hostname.bytes.length : Bool) = false := by simpa using hname
  have hrange : (port ≤ 0 || 65535 < port : Bool) = false := by simp; omega
  unfold clientConnectbyname refuse
  simp only
  rw [hlong, hrange, Dialogue.refuse_false, Dialogue.ret_bind, Dialogue.ret_bind, filled_nil,
    store_filled (w := []) (by rfl) (by decide), Dialogue.ret_bind,
    store_filled (w := [] ++ [0x05]) (by rfl) (by simp), Dialogue.ret_bind,
    store_filled (w := [] ++ [0x05] ++ [1]) (by rfl) (by simp), Dialogue.ret_bind,
    List.nil_append, hput, Dialogue.ret_bind]
  simp only
  rw [sendFrom_filled rfl, Dialogue.send_bind, Dialogue.ret_bind]

/-- **The client sends the name.** -/
theorem clientConnectbyname_eq {pton : Pton} {hostname : CString} {port : ℤ}
    (hname : hostname.bytes.length ≤ 255) (h4 : pton.inet hostname = none)
    (h6 : pton.inet6 hostname = none) (h1 : 1 ≤ port) (hmax : port ≤ 65535) :
    clientConnectbyname pton (some hostname) port
      = .send (nameFrame 1 hostname.bytes port.toNat) handleConnectionResponse :=
  clientConnectbyname_of_put hname h1 hmax (putName_name hname h4 h6 _)

/-! ## The receivers -/

theorem ntohs_htons {port : ℕ} (h : port ≤ 65535) :
    (UInt8.ofNat (port >>> 8)).toNat * 256 + (UInt8.ofNat (port &&& 0xff)).toNat = port := by
  have hand : port &&& 0xff = port % 256 := Nat.and_two_pow_sub_one_eq_mod port 8
  rw [UInt8.toNat_ofNat', UInt8.toNat_ofNat', hand, Nat.shiftRight_eq_div_pow]
  omega

theorem ntohsAt_filled {w a b : List UInt8} {off n port : ℕ} (hw : w = a ++ htons port ++ b)
    (ho : off = a.length) (h : port ≤ 65535) : ntohsAt (filled w n) off = .ret port := by
  have hhi : w[off]? = some (UInt8.ofNat (port >>> 8)) := by
    rw [hw, ho, List.append_assoc, List.getElem?_append_right (Nat.le_refl _), Nat.sub_self]
    rfl
  have hlo : w[off + 1]? = some (UInt8.ofNat (port &&& 0xff)) := by
    rw [hw, ho, List.append_assoc, List.getElem?_append_right (Nat.le_add_right _ 1),
      Nat.add_sub_cancel_left]
    rfl
  unfold ntohsAt
  rw [byteAt_filled hhi, Dialogue.ret_bind, byteAt_filled hlo, Dialogue.ret_bind, ntohs_htons h]

theorem load_between {w a bs b : List UInt8} {off k n : ℕ} (hw : w = a ++ bs ++ b)
    (ho : off = a.length) (hk : bs.length = k) : load (filled w n) off k = .ret bs := by
  subst hw hk
  unfold filled
  rw [List.append_assoc]
  exact load_append ho

theorem framed_get {c : UInt8} {w : List UInt8} (h : Framed c w) : w[1]? = some c := by
  cases h with
  | inet bs h => rfl
  | inet6 bs h => rfl
  | name len bs h => rfl

/-- **The client receives a reply.** -/
theorem handleConnectionResponse_framed {c : UInt8} {w : List UInt8} (h : Framed c w) :
    onStream (line fate) env handleConnectionResponse (⟨w ++ rest, sends⟩, asked)
      = .ok (if c = 0 then .ok () else .error (some (replyErrno c)), ⟨rest, sends⟩, asked) := by
  unfold handleConnectionResponse
  rw [onStream_framed h, byteAt_filled (framed_get h), Dialogue.ret_bind]
  split
  · rfl
  · rfl

theorem getS5addr_frame (c : UInt8) (addr : IpAddr) :
    getS5addr (filled (frame c addr) 262)
      = .ret ⟨addr.atyp, filled addr.bytes 257, addr.bytes.length, addr.port.toNat⟩ := by
  have hport := addr.port.toNat_lt
  have hframe : frame c addr
      = [0x05] ++ [c] ++ [0x00] ++ [addr.atyp] ++ addr.bytes ++ htons addr.port.toNat ++ [] :=
    (List.append_nil _).symm
  unfold getS5addr
  rw [byteAt_filled (x := addr.atyp) rfl, Dialogue.ret_bind]
  cases addr with
  | inet a port =>
    have h1 : (IpAddr.inet a port).atyp = 1 := rfl
    have hlen : (IpAddr.inet a port).bytes.length = 4 := a.2
    have hload : load (filled (frame c (IpAddr.inet a port)) 262) 4 4 = .ret a.1 :=
      load_between rfl rfl a.2
    rw [if_pos h1, hload, Dialogue.ret_bind, filled_nil,
      store_filled (w := []) (by rfl) (by rw [a.2]; decide), Dialogue.ret_bind,
      ntohsAt_filled hframe (by rw [List.length_append, hlen]; rfl) (by omega),
      Dialogue.ret_bind, hlen]
    rfl
  | inet6 a port =>
    have h1 : ¬ (IpAddr.inet6 a port).atyp = 1 := (by decide : ¬ (4 : UInt8) = 1)
    have h4 : (IpAddr.inet6 a port).atyp = 4 := rfl
    have hlen : (IpAddr.inet6 a port).bytes.length = 16 := a.2
    have hload : load (filled (frame c (IpAddr.inet6 a port)) 262) 4 16 = .ret a.1 :=
      load_between rfl rfl a.2
    rw [if_neg h1, if_pos h4, hload, Dialogue.ret_bind, filled_nil,
      store_filled (w := []) (by rfl) (by rw [a.2]; decide), Dialogue.ret_bind,
      ntohsAt_filled hframe (by rw [List.length_append, hlen]; rfl) (by omega),
      Dialogue.ret_bind, hlen]
    rfl

/-- The resolver takes the two loopback literals for what they are. -/
def Literals (remote : Remote) : Prop :=
  ∀ port : UInt16,
    remote loopback port.toNat .ipv4 = .ok (.inet ⟨[127, 0, 0, 1], rfl⟩ port) ∧
    remote loopback6 port.toNat .ipv6 = .ok (.inet6 ⟨List.replicate 15 0 ++ [1], rfl⟩ port)

theorem s5addrToIpaddr_eq {remote : Remote} (hremote : Literals remote) (old addr : IpAddr) :
    s5addrToIpaddr remote old ⟨addr.atyp, filled addr.bytes 257, addr.bytes.length, addr.port.toNat⟩
      = .ret addr := by
  have hport := addr.port.toNat_lt
  have hrange : (65535 < addr.port.toNat : Bool) = false := by simp; omega
  unfold s5addrToIpaddr refuse
  simp only
  rw [hrange, Dialogue.refuse_false, Dialogue.ret_bind, load_filled]
  cases addr with
  | inet a port =>
    have h1 : (IpAddr.inet a port).atyp = 1 := rfl
    have hres : resolve remote loopback (IpAddr.inet a port).port.toNat .ipv4
        = .ret (.inet ⟨[127, 0, 0, 1], rfl⟩ port) := by
      unfold resolve
      rw [(hremote _).1]
      rfl
    rw [if_pos h1, hres, Dialogue.ret_bind, Dialogue.ret_bind]
    exact dif_pos a.2
  | inet6 a port =>
    have h1 : ¬ (IpAddr.inet6 a port).atyp = 1 := (by decide : ¬ (4 : UInt8) = 1)
    have h4 : (IpAddr.inet6 a port).atyp = 4 := rfl
    have hres : resolve remote loopback6 (IpAddr.inet6 a port).port.toNat .ipv6
        = .ret (.inet6 ⟨List.replicate 15 0 ++ [1], rfl⟩ port) := by
      unfold resolve
      rw [(hremote _).2]
      rfl
    rw [if_neg h1, if_pos h4, hres, Dialogue.ret_bind, Dialogue.ret_bind]
    exact dif_pos a.2

/-- **The proxy receives a command with an address.** -/
theorem proxyRecvcommand_frame {remote : Remote} (hremote : Literals remote) {c : UInt8}
    (h1 : 1 ≤ c) (h3 : c ≤ 3) (old addr : IpAddr) :
    onStream (line fate) env (proxyRecvcommand remote old) (⟨frame c addr ++ rest, sends⟩, asked)
      = .ok (.ok (c, addr), ⟨rest, sends⟩, asked) := by
  have hrange : (c < 1 || 3 < c : Bool) = false := by
    rw [decide_eq_false (UInt8.not_lt.2 h1), decide_eq_false (UInt8.not_lt.2 h3)]
    rfl
  unfold proxyRecvcommand refuse
  rw [onStream_framed (framed_frame c addr), byteAt_filled (framed_get (framed_frame c addr)),
    Dialogue.ret_bind, hrange, Dialogue.refuse_false, Dialogue.ret_bind, getS5addr_frame,
    Dialogue.ret_bind, s5addrToIpaddr_eq hremote, Dialogue.ret_bind]
  rfl

/-- **The proxy receives a command with a name.** -/
theorem proxyRecvcommandbyname_frame {ntop : List UInt8 → CString} {host name : List UInt8}
    (hhost : host.length = 256) (hname : name.length ≤ 255) {c : UInt8} (h1 : 1 ≤ c) (h3 : c ≤ 3)
    {port : ℕ} (hport : port ≤ 65535) :
    onStream (line fate) env (proxyRecvcommandbyname ntop host)
        (⟨nameFrame c name port ++ rest, sends⟩, asked)
      = .ok (.ok (c, name ++ [0] ++ (host.drop name.length).drop 1, port), ⟨rest, sends⟩, asked) := by
  have hrange : (c < 1 || 3 < c : Bool) = false := by
    rw [decide_eq_false (UInt8.not_lt.2 h1), decide_eq_false (UInt8.not_lt.2 h3)]
    rfl
  have hlen : (UInt8.ofNat name.length).toNat = name.length := by
    rw [UInt8.toNat_ofNat']
    omega
  have hfirst : store host 0 name = .ret (name ++ host.drop name.length) :=
    store_append (a := []) rfl (by omega)
  have hsecond : store (name ++ host.drop name.length) name.length [0]
      = .ret (name ++ [0] ++ (host.drop name.length).drop 1) :=
    store_append rfl (by rw [List.length_drop, List.length_singleton]; omega)
  have hload : load (filled (nameFrame c name port) 262) 5 name.length = .ret name :=
    load_between rfl rfl rfl
  have hread : ntohsAt (filled (nameFrame c name port) 262) (5 + name.length) = .ret port :=
    ntohsAt_filled (List.append_nil _).symm (by rw [List.length_append]; rfl) hport
  have hget : getName ntop (filled (nameFrame c name port) 262) host
      = .ret (name ++ [0] ++ (host.drop name.length).drop 1, port) := by
    unfold getName
    rw [byteAt_filled (x := 3) rfl, Dialogue.ret_bind, if_neg (by decide), if_neg (by decide),
      if_pos rfl, byteAt_filled (x := UInt8.ofNat name.length) rfl, Dialogue.ret_bind, hlen]
    simp only
    rw [hload, Dialogue.ret_bind, hfirst, Dialogue.ret_bind, hsecond, Dialogue.ret_bind, hread,
      Dialogue.ret_bind]
  unfold proxyRecvcommandbyname refuse
  rw [onStream_framed (framed_nameFrame hname), byteAt_filled (framed_get (framed_nameFrame hname)),
    Dialogue.ret_bind, hrange, Dialogue.refuse_false, Dialogue.ret_bind, hget, Dialogue.ret_bind]
  rfl

/-! ## Round trips -/

/-- **Commands and replies go through.** What one side sends, the other one consumes to the last byte,
and no further; it gets the same command, address, name and port. A reply means success exactly if its
code is 0. -/
theorem command_roundtrip {remote : Remote} (hremote : Literals remote) (pton : Pton)
    (ntop : List UInt8 → CString) :
    (∀ addr : IpAddr, ∃ bs, clientConnect (some addr) = .send bs handleConnectionResponse ∧
      ∀ old fate env rest sends asked,
        onStream (line fate) env (proxyRecvcommand remote old) (⟨bs ++ rest, sends⟩, asked)
          = .ok (.ok (1, addr), ⟨rest, sends⟩, asked)) ∧
    (∀ (hostname : CString) (port : ℤ), hostname.bytes.length ≤ 255 → pton.inet hostname = none →
      pton.inet6 hostname = none → 1 ≤ port → port ≤ 65535 →
      ∃ bs, clientConnectbyname pton (some hostname) port = .send bs handleConnectionResponse ∧
        ∀ (host : List UInt8) fate env rest sends asked, host.length = 256 → ∃ left,
          onStream (line fate) env (proxyRecvcommandbyname ntop host) (⟨bs ++ rest, sends⟩, asked)
            = .ok (.ok (1, hostname.bytes ++ [0] ++ left, port.toNat), ⟨rest, sends⟩, asked)) ∧
    ∀ (reply : ℤ) (addr : IpAddr), 0 ≤ reply → reply ≤ 8 →
      ∃ bs, proxySendreply reply addr = .send bs (.ret ()) ∧
        ∀ fate env rest sends asked, ∃ r,
          onStream (line fate) env handleConnectionResponse (⟨bs ++ rest, sends⟩, asked)
            = .ok (r, ⟨rest, sends⟩, asked) ∧ (r = .ok () ↔ reply = 0) := by
  refine ⟨fun addr => ?_, fun hostname port hname h4 h6 h1 hmax => ?_, fun reply addr h0 h8 => ?_⟩
  · refine ⟨_, clientConnect_eq addr, fun old fate env rest sends asked => ?_⟩
    exact proxyRecvcommand_frame hremote (by decide) (by decide) old addr
  · refine ⟨_, clientConnectbyname_eq hname h4 h6 h1 hmax, ?_⟩
    intro host fate env rest sends asked hhost
    exact ⟨_, proxyRecvcommandbyname_frame hhost hname (by decide) (by decide) (by omega)⟩
  · refine ⟨_, proxySendreply_eq h0 h8 addr, fun fate env rest sends asked => ?_⟩
    refine ⟨_, handleConnectionResponse_framed (framed_frame _ addr), ?_⟩
    have hbyte : (UInt8.ofNat reply.toNat).toNat = reply.toNat := by
      rw [UInt8.toNat_ofNat']
      omega
    by_cases hzero : reply = 0
    · subst hzero
      exact ⟨fun _ => rfl, fun _ => rfl⟩
    · have hne : ¬ UInt8.ofNat reply.toNat = 0 := by
        intro h
        rw [h] at hbyte
        have h0' : (0 : UInt8).toNat = 0 := rfl
        omega
      rw [if_neg hne]
      exact ⟨fun h => (by cases h), fun h => absurd h hzero⟩

/-- A resolver that knows the loopback literals only. -/
def loopbackRemote : Remote := fun name port mode =>
  match mode with
  | .ipv4 => if name = loopback then .ok (.inet ⟨[127, 0, 0, 1], rfl⟩ (UInt16.ofNat port))
    else .error EHOSTUNREACH
  | .ipv6 => if name = loopback6 then
      .ok (.inet6 ⟨List.replicate 15 0 ++ [1], rfl⟩ (UInt16.ofNat port))
    else .error EHOSTUNREACH
  | .prefIpv4 => .error EHOSTUNREACH

theorem literals_loopbackRemote : Literals loopbackRemote := by
  intro port
  unfold loopbackRemote
  simp only
  rw [if_pos trivial, if_pos trivial, UInt16.ofNat_toNat]
  exact ⟨rfl, rfl⟩

/-- The address 1.2.3.4, port 80. -/
theorem command_roundtrip_example :
    ∃ bs, clientConnect (some (.inet ⟨[1, 2, 3, 4], rfl⟩ 80)) = .send bs handleConnectionResponse ∧
      onStream (line none) (fun _ => false)
          (proxyRecvcommand loopbackRemote (.inet ⟨[0, 0, 0, 0], rfl⟩ 0)) (⟨bs ++ [7], []⟩, [])
        = .ok (.ok (1, .inet ⟨[1, 2, 3, 4], rfl⟩ 80), ⟨[7], []⟩, []) := by
  obtain ⟨bs, hsend, hrecv⟩ := (command_roundtrip literals_loopbackRemote ⟨fun _ => none,
    fun _ => none⟩ fun _ => loopback).1 (.inet ⟨[1, 2, 3, 4], rfl⟩ 80)
  exact ⟨bs, hsend, hrecv _ _ _ _ _ _⟩

end Libdill.Socks5
