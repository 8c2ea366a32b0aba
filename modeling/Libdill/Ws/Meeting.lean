import Libdill.Ws.Fields
import Libdill.Ws.Upgrade

/-!
# The two sides of the handshake

A client of this library and a server of this library, each over a bytestream to which sends do not
fail. The two halves meet at the lines that go over the connection: the client puts its request on the
stream before it looks at what comes in, whatever that is; a server that finds the request answers it;
and a client that finds the answer is upgraded.

* `server_takes`, `client_takes`: what each side makes of the fields of the other one.
* `client_asks`, `server_answers`, `client_answered`: the two functions, one half after the other.
* `handshake_completes`: both sides get their handles, and each has read exactly what the other one
  has sent.
-/

namespace Libdill.Ws

open Foundations Libdill.Sock Libdill.Utils Libdill.Http
open Libdill.Suffix (SuffixSock Source crlf)
open Libdill.Term (TermSock)

/-! ## What is made of the fields -/

/-- The fields that the client sends. -/
def requestFields (host key : CString) : List (CString × CString) :=
  [(lit "Host", host), (lit "Upgrade", lit "websocket"), (lit "Connection", lit "Upgrade"),
    (lit "Sec-WebSocket-Key", key), (lit "Sec-WebSocket-Version", lit "13")]

/-- The fields that the server sends. -/
def responseFields (accept : CString) : List (CString × CString) :=
  [(lit "Upgrade", lit "websocket"), (lit "Connection", lit "Upgrade"),
    (lit "Sec-WebSocket-Accept", accept)]

section Fields

variable {mach : Machine} {k : ℕ} {nonce : Nonce} {out : ℕ → UInt8} {q : CString × CString}

/-- The strings of a field that has been stored. -/
theorem string_stored (s : Args) (q : CString × CString) :
    string .name (stored s q) = .ok (.ok q.1, stored s q) ∧
      string .value (stored s q) = .ok (.ok (stripped q.2), stored s q) := by
  obtain ⟨hname, hvalue⟩ := string_field s q.1.bytes (stripped q.2).bytes
  rw [cut_bytes] at hname hvalue
  exact ⟨hname, hvalue⟩

/-- The key of the client, as a string. -/
def keyOf (nonce : Nonce) : CString := cut (rfc4648 nonce.bytes)

theorem stripped_key (bs : List UInt8) : stripped (cut (rfc4648 bs)) = cut (rfc4648 bs) := by
  have hbytes : (stripped (cut (rfc4648 bs))).bytes = (cut (rfc4648 bs)).bytes :=
    (strip_key bs).trans (bytes_cut fun h => (mem_rfc4648 h).1 rfl).symm
  rw [← cut_bytes (stripped (cut (rfc4648 bs))), hbytes, cut_bytes]

/-- There is a response to the key of a client. -/
theorem respond_key {τ : Type} {s : τ} :
    respond mach k (keyOf nonce) out s
      = .ok (.ok (patch out 0 (acceptValue (rfc4648 nonce.bytes) ++ [0])), s) := by
  have hwell : WellFormed (rfc4648 nonce.bytes) :=
    (isNonce_iff _).mp ⟨nonce.bytes, nonce.length_bytes, rfl⟩
  obtain ⟨hcount, hend, hover, hlen⟩ := hwell.facts mach.signed
  have hbytes : (keyOf nonce).bytes = rfc4648 nonce.bytes :=
    bytes_cut fun h => (mem_rfc4648 h).1 rfl
  have hrun := @response_ok mach k _ out hcount hend hover (by rw [hlen]; decide)
  unfold respond
  simp only [hbytes, hrun]
  rfl

/-- **What the server makes of the request.** -/
theorem server_takes (host : CString) (hostBuf : List UInt8)
    (hroom : (stripped host).bytes.length < hostBuf.length) :
    FieldRun (serverField mach k) ⟨false, false, false, false, false, hostBuf, out⟩
      (requestFields host (keyOf nonce))
      ⟨true, true, true, true, true, strcpy hostBuf (stripped host),
        patch out 0 (acceptValue (rfc4648 nonce.bytes) ++ [0])⟩ := by
  refine
    .cons (y := ⟨true, false, false, false, false, strcpy hostBuf (stripped host), out⟩) (fun s => ?_) <|
    .cons (y := ⟨true, true, false, false, false, strcpy hostBuf (stripped host), out⟩) (fun s => ?_) <|
    .cons (y := ⟨true, true, true, false, false, strcpy hostBuf (stripped host), out⟩) (fun s => ?_) <|
    .cons (y := ⟨true, true, true, true, false, strcpy hostBuf (stripped host),
      patch out 0 (acceptValue (rfc4648 nonce.bytes) ++ [0])⟩) (fun s => ?_) <|
    .cons (fun s => ?_) (.nil _)
  all_goals
    rw [serverField, Call.bind_ret (string_stored s _).1, Call.bind_ret (string_stored s _).2]
    dsimp only
  · rw [if_pos (by decide)]
    refine (Call.bind_ret Call.require_true).trans ?_
    rw [decide_eq_true hroom]
    rfl
  · rw [if_neg (by decide), if_pos (by decide)]
    exact Call.bind_ret Call.require_true
  · rw [if_neg (by decide), if_neg (by decide), if_pos (by decide)]
    exact Call.bind_ret Call.require_true
  · rw [if_neg (by decide), if_neg (by decide), if_neg (by decide),
      if_pos (by decide)]
    refine (Call.bind_ret Call.require_true).trans ?_
    rw [keyOf, stripped_key]
    exact Call.bind_ret respond_key
  · rw [if_neg (by decide), if_neg (by decide), if_neg (by decide),
      if_neg (by decide), if_pos (by decide)]
    exact Call.bind_ret Call.require_true

/-- **What the client makes of the response.** -/
theorem client_takes : FieldRun (clientField mach k (keyOf nonce) out) ⟨false, false, false⟩
    (responseFields (cut (acceptValue (rfc4648 nonce.bytes)))) ⟨true, true, true⟩ := by
  refine
    .cons (y := ⟨true, false, false⟩) (fun s => ?_) <|
    .cons (y := ⟨true, true, false⟩) (fun s => ?_) <|
    .cons (fun s => ?_) (.nil _)
  all_goals
    rw [clientField, Call.bind_ret (string_stored s _).1, Call.bind_ret (string_stored s _).2]
    dsimp only
  · rw [if_pos (by decide)]
    exact Call.bind_ret Call.require_true
  · rw [if_neg (by decide), if_pos (by decide)]
    exact Call.bind_ret Call.require_true
  · rw [if_neg (by decide), if_neg (by decide), if_pos (by decide)]
    refine (Call.bind_ret Call.require_true).trans ?_
    rw [Call.bind_ret respond_key, Call.bind_ret keyString_accept, acceptValue, stripped_key,
      decide_eq_true rfl]
    rfl

/-! ## Fields that pass -/

theorem passes_of (hname : strpbrk q.1 nameDelims = false) (hno : 10 ∉ q.2.bytes)
    (hvalue : ∃ c ∈ q.2.bytes, c ≠ 32) (hn : q.1.bytes.length < 256) (hv : q.2.bytes.length < 256) :
    Passes q := by
  have hle : (strip 32 q.2.bytes).length ≤ q.2.bytes.length :=
    (List.rdropWhile_prefix _ _).length_le.trans (List.dropWhile_suffix _).length_le
  refine ⟨⟨⟨hname, noCrlf_of_notMem hno, hvalue⟩, ?_⟩, hn, lt_of_le_of_lt hle hv⟩
  simp only [Http.Message.line, List.length_append, List.length_cons, List.length_nil]
  unfold rxbufSize
  omega

theorem mem_rfc4648_lt {bs : List UInt8} {d : UInt8} (h : d ∈ rfc4648 bs) : 32 < d.toNat := by
  obtain ⟨o, ho, htext⟩ := rfc4648_eq bs
  rw [htext, textOf, List.mem_append] at h
  rcases h with h | h
  · obtain ⟨n, hn, rfl⟩ := List.mem_map.mp h
    exact (charOf_ascii (ho.lt n hn)).1
  · rw [List.eq_of_mem_replicate h]
    decide

/-- The keys pass. -/
theorem passes_rfc4648 {name : CString} {bs : List UInt8} (hname : strpbrk name nameDelims = false)
    (hn : name.bytes.length < 256) (hpos : 0 < bs.length) (hle : bs.length ≤ 20) :
    Passes (name, cut (rfc4648 bs)) := by
  have hbytes : (cut (rfc4648 bs)).bytes = rfc4648 bs := bytes_cut fun h => (mem_rfc4648 h).1 rfl
  have hlen := length_rfc4648 bs
  apply passes_of hname _ _ hn <;> dsimp only <;> rw [hbytes]
  · omega
  · intro h
    exact absurd (mem_rfc4648_lt h) (by decide)
  · obtain ⟨d, hd⟩ := List.exists_mem_of_length_pos (show 0 < (rfc4648 bs).length by omega)
    exact ⟨d, hd, (mem_rfc4648 hd).2⟩

/-- The constants pass. -/
theorem passes_lit : Passes (lit "Upgrade", lit "websocket") ∧
    Passes (lit "Connection", lit "Upgrade") ∧ Passes (lit "Sec-WebSocket-Version", lit "13") := by
  refine ⟨?_, ?_, ?_⟩ <;>
    exact passes_of (by decide) (by decide) (by decide) (by decide)
      (by decide)

end Fields

/-! ## The two functions -/

/-- The request on the wire. -/
def requestWire (path host : CString) (nonce : Nonce) : List UInt8 :=
  Suffix.wireOf crlf (requestLines path host (rfc4648 nonce.bytes))

/-- The response on the wire. -/
def responseWire (nonce : Nonce) : List UInt8 :=
  Suffix.wireOf crlf (responseLines (acceptValue (rfc4648 nonce.bytes)))

theorem requestLines_eq (path host : CString) (nonce : Nonce) :
    requestLines path host (rfc4648 nonce.bytes)
      = (Http.Message.request (lit "GET") path).line ::
          ((requestFields host (keyOf nonce)).map fieldOf ++ [[]]) := by
  obtain ⟨hget, hprotocol, hhost, hkeyname, hversion⟩ := text_request
  obtain ⟨hupgrade, hconnection⟩ := text_upgrade
  have hkey : strip 32 (keyOf nonce).bytes = rfc4648 nonce.bytes := strip_key _
  simp only [requestLines, requestFields, fieldOf, Http.Message.line, List.map_cons, List.map_nil, hhost,
    hupgrade, hconnection, hkeyname, hversion, hkey, hget, ← hprotocol]
  simp

theorem responseLines_eq (nonce : Nonce) :
    responseLines (acceptValue (rfc4648 nonce.bytes))
      = (Http.Message.status 101 (lit "Switching Protocols")).line ::
          ((responseFields (cut (acceptValue (rfc4648 nonce.bytes)))).map fieldOf ++ [[]]) := by
  obtain ⟨hstatus, haccept⟩ := text_response
  obtain ⟨hupgrade, hconnection⟩ := text_upgrade
  have hkey : strip 32 (cut (acceptValue (rfc4648 nonce.bytes))).bytes
      = acceptValue (rfc4648 nonce.bytes) := strip_key _
  simp only [responseLines, responseFields, fieldOf, Http.Message.line, List.map_cons, List.map_nil,
    hstatus, hupgrade, hconnection, haccept, hkey]
  rfl

section Sides

variable {p : Partner} {n k i : ℕ} {o : List UInt8} {s : Args} {v : Memory}

/-- The bytestream is handed back. -/
theorem detach_goes {outdone : Bool} (hp : p.fate o = none) :
    Http.detach p.bsock n k (⟨[], true, outdone⟩, crlf.attach, i, o)
      = .ok (.ok (), ⟨[], true, true⟩, crlf.attach, i, if outdone then o else o ++ crlf.bytes) := by
  have hfinish : Term.finish (Suffix.msock p.bsock n) (⟨[], true, outdone⟩, crlf.attach, i, o)
      = .ok (.ok (), ⟨[], true, true⟩, crlf.attach, i, if outdone then o else o ++ crlf.bytes) := by
    cases outdone with
    | true => rfl
    | false => exact @done_goes p n i o true hp
  have hdone : Term.detachDone (Suffix.msock p.bsock n) (⟨[], true, outdone⟩, crlf.attach, i, o)
      = .ok (.ok false, ⟨[], true, true⟩, crlf.attach, i,
          if outdone then o else o ++ crlf.bytes) := by
    rw [Term.detachDone, Call.bind_ret hfinish]
    rfl
  have hdetach : Term.detach (Suffix.msock p.bsock n) noJunk k (⟨[], true, outdone⟩, crlf.attach, i, o)
      = .ok (.ok (), ⟨[], true, true⟩, crlf.attach, i,
          if outdone then o else o ++ crlf.bytes) := by
    rw [Term.detach, Call.bind_ret hdone]
    rfl
  rw [Http.detach, Call.bind_ret hdetach]
  rfl

/-- What the client does when it has sent the request. -/
def awaitResponse {σ : Type} (u : Bsock σ) (n k : ℕ) (v : Memory) (requestKey : CString) :
    Call (Args × Stack σ) Stop Errno Unit := do
  let rc ← recvstatus u n v.full (v.rxbuf 0)
  Call.require (rc == 101) .EPROTO
  let has ← fields u n v (clientField v.machine k requestKey v.responseKey) k ⟨false, false, false⟩
  Call.require (has.upgrade && has.connection && has.key) .EPROTO
  below (Http.detach u n k)

theorem request_key {τ : Type} {s : τ} {nonce : Nonce} {out : ℕ → UInt8} :
    request (.ok nonce) out s = .ok (.ok (patch out 0 (rfc4648 nonce.bytes ++ [0])), s) := by
  have hlen := nonce.length_bytes
  have henc : returned (base64Encode keySize nonce.bytes) out
      = .ok (24, patch out 0 (rfc4648 nonce.bytes ++ [0])) := by
    have hlarge := @encode_large keySize nonce.bytes out (by rw [hlen]; decide)
      (by rw [hlen]; decide)
    rw [hlen] at hlarge
    exact hlarge
  have hkey : requestKey nonce.bytes (some out)
      = .ok (.ok (patch out 0 (rfc4648 nonce.bytes ++ [0]))) := by
    unfold requestKey
    simp only [henc]
    rfl
  unfold request
  simp only [hkey]
  rfl

/-- **The request is sent before anything is received.** -/
theorem client_asks {path host : CString} {nonce : Nonce} (hp : ∀ o, p.fate o = none)
    (hpath : (Http.Message.request (lit "GET") path).Sendable) (hhost : Passes (lit "Host", host)) :
    clientHandshake p.bsock n k v path host (.ok nonce) (s, Http.attach (i, o))
      = awaitResponse p.bsock n k v (keyOf nonce)
          (s, ⟨[], false, true⟩, crlf.attach, i, o ++ requestWire path host nonce) := by
  have hkey : Passes (lit "Sec-WebSocket-Key", keyOf nonce) :=
    passes_rfc4648 (by decide) (by decide) (by rw [nonce.length_bytes]; decide)
      (by rw [nonce.length_bytes]; decide)
  obtain ⟨hupgrade, hconnection, hversion⟩ := passes_lit
  unfold clientHandshake
  refine (Call.bind_ret (message_goes (hp _) hpath.valid)).trans ?_
  refine (Call.bind_ret (message_goes (hp _) hhost.sendable.valid)).trans ?_
  refine (Call.bind_ret (message_goes (hp _) hupgrade.sendable.valid)).trans ?_
  refine (Call.bind_ret (message_goes (hp _) hconnection.sendable.valid)).trans ?_
  refine (Call.bind_ret request_key).trans ?_
  refine (Call.bind_ret (keyString_key (by rw [nonce.length_bytes]; decide))).trans ?_
  refine (Call.bind_ret (message_goes (hp _) hkey.sendable.valid)).trans ?_
  refine (Call.bind_ret (message_goes (hp _) hversion.sendable.valid)).trans ?_
  refine (Call.bind_ret (below_run (done_goes (hp _)))).trans ?_
  rw [requestWire, requestLines_eq]
  simp only [requestFields, Suffix.wireOf, List.map_cons, List.map_nil, List.flatMap_cons, List.flatMap_nil,
    List.cons_append, List.nil_append, List.append_nil, List.append_assoc]
  rfl

theorem client_broken {e : Errno} {key : CString} (h : p.incoming.get i = some (.error e)) :
    ∃ self, awaitResponse p.bsock n k v key (s, ⟨[], false, true⟩, crlf.attach, i, o)
      = .ok (.error e, s, ⟨[], false, true⟩, self, i, o) := by
  obtain ⟨self, hrecv⟩ := @receive_broken p n i o ⟨[], false, true⟩ s (v.rxbuf 0) _
    (fun sz rx => parseStatus v.full rx sz) e rfl h
  exact ⟨self, Call.bind_fail hrecv⟩

/-- **The response is accepted.** -/
theorem client_answered {nonce : Nonce} (hb : Buffers s) (hp : ∀ o, p.fate o = none)
    (hn : rxbufSize ≤ n) (hk : 3 < k) (hwire : p.incoming.Holds i (responseWire nonce)) :
    ∃ s', awaitResponse p.bsock n k v (keyOf nonce) (s, ⟨[], false, true⟩, crlf.attach, i, o)
      = .ok (.ok (), s', ⟨[], true, true⟩, crlf.attach, i + (responseWire nonce).length, o) := by
  have hmsg : (Http.Message.status 101 (lit "Switching Protocols")).Sendable := by
    refine ⟨⟨by decide, by decide, noCrlf_of_notMem (by decide), by decide⟩, ?_⟩
    decide
  have hfits : (Http.Message.status 101 (lit "Switching Protocols")).fits s = true := by
    apply fits_iff.mpr
    simp only [Http.Message.kind, Recv.args, Http.Message.strings, List.zip_cons_cons,
      List.zip_nil_left, List.forall_mem_cons, List.not_mem_nil, false_implies, implies_true, and_true]
    rw [hb.reason]
    decide
  have hparse := @parse_status s v.full _ 101 hb.sized hmsg.valid hfits
  have haccept : Passes (lit "Sec-WebSocket-Accept", cut (acceptValue (rfc4648 nonce.bytes))) :=
    passes_rfc4648 (by decide) (by decide) (by rw [length_sha1]; decide)
      (by rw [length_sha1])
  obtain ⟨hupgrade, hconnection, -⟩ := passes_lit
  have hall : ∀ q ∈ responseFields (cut (acceptValue (rfc4648 nonce.bytes))), Passes q := by
    simp only [responseFields, List.forall_mem_cons, List.not_mem_nil, false_implies, implies_true,
      and_true]
    exact ⟨hupgrade, hconnection, haccept⟩
  rw [responseWire, responseLines_eq] at hwire ⊢
  obtain ⟨hstatus, hrest⟩ := holds_lines.mp hwire
  have hreason : (lit "Switching Protocols").bytes.length < (s .reason).length := by
    rw [hb.reason]
    decide
  have hb' : Buffers (s.put .reason (lit "Switching Protocols").bytes) := hb.put hreason
  obtain ⟨s', -, hfields⟩ := @fields_run p n k _ o ⟨[], false, true⟩ _ v _ _ _ _ _
    (@client_takes v.machine k nonce v.responseKey) hall hb' rfl hn hk hrest
  refine ⟨s', ?_⟩
  unfold awaitResponse
  refine (Call.bind_ret ((receive_next (parses_status v.full) rfl
    ⟨hstatus, Http.Message.free_line hmsg.valid⟩ (Http.Message.line_ne_nil _) hmsg.short hn).trans
      (onArgs_run hparse))).trans ?_
  refine (Call.bind_ret Call.require_true).trans ?_
  refine (Call.bind_ret hfields).trans ?_
  refine (Call.bind_ret Call.require_true).trans ?_
  refine (below_run (detach_goes (hp _))).trans ?_
  rw [length_lines, Nat.add_assoc]
  rfl

/-- **The request is answered.** -/
theorem server_answers {path host : CString} {nonce : Nonce} {resource hostBuf : List UInt8}
    (hb : Buffers s) (hp : ∀ o, p.fate o = none) (h : Fit path host resource hostBuf)
    (hres : s .resource = resource) (hn : rxbufSize ≤ n) (hk : 5 < k)
    (hwire : p.incoming.Holds i (requestWire path host nonce)) :
    ∃ s', s' .resource = strcpy resource path ∧
      serverHandshake p.bsock n k v hostBuf (s, Http.attach (i, o))
        = .ok (.ok (strcpy hostBuf (stripped host)), s', ⟨[], true, true⟩, crlf.attach,
            i + (requestWire path host nonce).length, o ++ responseWire nonce) := by
  have hmsg := h.sendable
  have hcommand : (lit "GET").bytes.length < (s .command).length := by
    rw [hb.command]
    decide
  have hresource : path.bytes.length < ((s.put .command (lit "GET").bytes) .resource).length := by
    rw [length_put hcommand, hres]
    exact h.room
  have hfits : (Http.Message.request (lit "GET") path).fits s = true := by
    apply fits_iff.mpr
    simp only [Http.Message.kind, Recv.args, Http.Message.strings, List.zip_cons_cons,
      List.zip_nil_left, List.forall_mem_cons, List.not_mem_nil, false_implies, implies_true, and_true]
    exact ⟨hcommand, by rw [hres]; exact h.room⟩
  have hparse := @parse_request s v.full _ _ hb.sized hmsg.valid hfits
  have hkey : Passes (lit "Sec-WebSocket-Key", keyOf nonce) :=
    passes_rfc4648 (by decide) (by decide) (by rw [nonce.length_bytes]; decide)
      (by rw [nonce.length_bytes]; decide)
  have haccept : Passes (lit "Sec-WebSocket-Accept", cut (acceptValue (rfc4648 nonce.bytes))) :=
    passes_rfc4648 (by decide) (by decide) (by rw [length_sha1]; decide)
      (by rw [length_sha1])
  have hstatus : (Http.Message.status 101 (lit "Switching Protocols")).Valid :=
    ⟨by decide, by decide, noCrlf_of_notMem (by decide), by decide⟩
  obtain ⟨hupgrade, hconnection, hversion⟩ := passes_lit
  have hall : ∀ q ∈ requestFields host (keyOf nonce), Passes q := by
    simp only [requestFields, List.forall_mem_cons, List.not_mem_nil, false_implies, implies_true,
      and_true]
    exact ⟨h.passes, hupgrade, hconnection, hkey, hversion⟩
  rw [requestWire, requestLines_eq] at hwire ⊢
  obtain ⟨hstart, hrest⟩ := holds_lines.mp hwire
  have hb' := (hb.put hcommand).put hresource
  obtain ⟨s', hsame, hfields⟩ := @fields_run p n k _ o ⟨[], false, false⟩ _ v _ _ _ _ _
    (@server_takes v.machine k nonce v.responseKey host hostBuf h.hostRoom) hall hb' rfl hn hk hrest
  refine ⟨s', ?_, ?_⟩
  · rw [hsame, put_self, put_of_ne (by decide), hres]
    rfl
  unfold serverHandshake
  refine (Call.bind_ret ((receive_next (parses_request v.full) rfl
    ⟨hstart, Http.Message.free_line hmsg.valid⟩ (Http.Message.line_ne_nil _) hmsg.short hn).trans
      (onArgs_run hparse))).trans ?_
  have hget : (((s.put .command (lit "GET").bytes).put .resource path.bytes) .command)
      = (lit "GET").bytes ++ 0 :: (s .command).drop ((lit "GET").bytes.length + 1) := by
    rw [put_of_ne (by decide), put_self]
  have hstring : ∀ z : Stack (ℕ × List UInt8),
      stringIn (((s.put .command (lit "GET").bytes).put .resource path.bytes) .command)
        ((s.put .command (lit "GET").bytes).put .resource path.bytes, z)
      = .ok (.ok (lit "GET"), (s.put .command (lit "GET").bytes).put .resource path.bytes, z) := by
    intro z
    rw [hget, stringIn_null, cut_bytes]
  have hcheck : decide ((lit "GET").bytes = ascii "GET") = true := by decide
  refine (Call.bind_ret (x := fun s : Args × Stack (ℕ × List UInt8) => stringIn (s.1 .command) s)
    (hstring _)).trans ?_
  rw [hcheck]
  refine (Call.bind_ret Call.require_true).trans ?_
  refine (Call.bind_ret hfields).trans ?_
  refine (Call.bind_ret Call.require_true).trans ?_
  refine (Call.bind_ret (message_goes (hp _) hstatus)).trans ?_
  refine (Call.bind_ret (message_goes (hp _) hupgrade.sendable.valid)).trans ?_
  refine (Call.bind_ret (message_goes (hp _) hconnection.sendable.valid)).trans ?_
  refine (Call.bind_ret keyString_accept).trans ?_
  refine (Call.bind_ret (message_goes (hp _) haccept.sendable.valid)).trans ?_
  refine (Call.bind_ret (below_run (detach_goes (hp _)))).trans ?_
  rw [responseWire, responseLines_eq, length_lines, Nat.add_assoc]
  simp only [responseFields, Suffix.wireOf, List.map_cons, List.map_nil, List.flatMap_cons, List.flatMap_nil,
    List.cons_append, List.nil_append, List.append_nil, List.append_assoc]
  rfl

end Sides

/-! ## The handshake -/

/-- **The handshake completes.** Whatever comes in, the client sends the request before it looks at it,
so that a stream that has broken off makes the call fail with the request sent; a server that finds the
request has the strings of the caller of the client in the buffers of its own caller and has sent the
response; and a client that finds that one is upgraded. Each of them has read what the other one has
sent, and nothing of what comes behind it. -/
theorem handshake_completes (path host : CString) (resource hostBuf : List UInt8) (nonce : Nonce)
    (h : Fit path host resource hostBuf) (client server : Partner) (hclient : ∀ o, client.fate o = none)
    (hserver : ∀ o, server.fate o = none) (n k : ℕ) (hn : rxbufSize ≤ n) (hk : 5 < k)
    (vc vs : Memory) (hargs : Sized vc.args) (flags flags' : UInt32) (hf : flags &&& noHttp = 0)
    (hf' : flags' &&& noHttp = 0) (msg msg' : List UInt8) (i j : ℕ) (sent sent' : List UInt8) :
    attachClient client.bsock n k vc flags (some path) (some host) (.ok nonce) msg (i, sent)
      = (awaitResponse client.bsock n k vc (keyOf nonce) (vc.args, ⟨[], false, true⟩, crlf.attach, i,
          sent ++ requestWire path host nonce)).map (fun r =>
            (r.1.map fun _ => WsSock.attach false vc.machine.little flags msg, r.2.2.2.2)) ∧
    (∀ e, client.incoming.get i = some (.error e) →
      attachClient client.bsock n k vc flags (some path) (some host) (.ok nonce) msg (i, sent)
        = .ok (.error e, i, sent ++ requestWire path host nonce)) ∧
    (server.incoming.Holds j (requestWire path host nonce) →
      attachServer server.bsock n k vs flags' resource hostBuf msg' (j, sent')
        = .ok (.ok (WsSock.attach true vs.machine.little flags' msg', strcpy resource path,
            strcpy hostBuf (stripped host)), j + (requestWire path host nonce).length,
            sent' ++ responseWire nonce)) ∧
    (client.incoming.Holds i (responseWire nonce) →
      attachClient client.bsock n k vc flags (some path) (some host) (.ok nonce) msg (i, sent)
        = .ok (.ok (WsSock.attach false vc.machine.little flags msg), i + (responseWire nonce).length,
            sent ++ requestWire path host nonce)) := by
  have hfirst : attachClient client.bsock n k vc flags (some path) (some host) (.ok nonce) msg (i, sent)
      = (awaitResponse client.bsock n k vc (keyOf nonce) (vc.args, ⟨[], false, true⟩, crlf.attach, i,
          sent ++ requestWire path host nonce)).map fun r =>
            (r.1.map fun _ => WsSock.attach false vc.machine.little flags msg, r.2.2.2.2) := by
    unfold attachClient
    dsimp only
    rw [if_neg (by rw [hf]; exact not_not.mpr rfl),
      client_asks hclient h.sendable h.passes]
    cases awaitResponse client.bsock n k vc (keyOf nonce) (vc.args, ⟨[], false, true⟩, crlf.attach, i,
      sent ++ requestWire path host nonce) <;> rfl
  refine ⟨hfirst, ?_, ?_, ?_⟩
  · intro e he
    obtain ⟨self, hbroken⟩ := @client_broken client n k i (sent ++ requestWire path host nonce) vc.args
      vc e (keyOf nonce) he
    rw [hfirst, hbroken]
    rfl
  · intro hwire
    have hb : Buffers (Function.update vs.args .resource resource) := by
      have hlen : ∀ a, a ≠ .resource → (vs.args a).length = 32 ∨ (vs.args a).length = 256 := by
        intro a ha
        cases a with
        | command => exact .inl vs.command
        | resource => exact absurd rfl ha
        | reason => exact .inr vs.reason
        | name => exact .inr vs.name
        | value => exact .inr vs.value
      have hsize : ∀ a, 0 < (Function.update vs.args .resource resource a).length ∧
          (Function.update vs.args .resource resource a).length < sizeRange := by
        intro a
        by_cases ha : a = .resource
        · subst ha
          rw [Function.update_self]
          exact ⟨Nat.zero_lt_of_lt h.room, h.size⟩
        · rw [Function.update_of_ne ha]
          have hrange : 256 < sizeRange := by decide
          rcases hlen a ha with hl | hl <;> omega
      exact ⟨⟨fun a => (hsize a).1, fun a => (hsize a).2⟩, vs.command, vs.reason, vs.name, vs.value⟩
    obtain ⟨s', hres, hrun⟩ := @server_answers server n k j sent' _ vs path host nonce resource hostBuf
      hb hserver h (Function.update_self _ _ _) hn hk hwire
    unfold attachServer
    dsimp only
    rw [if_neg (by rw [hf']; exact not_not.mpr rfl), hrun]
    change Except.ok (Except.ok (_, s' .resource, _), _) = _
    rw [hres]
  · intro hwire
    have hb : Buffers vc.args := ⟨hargs, vc.command, vc.reason, vc.name, vc.value⟩
    obtain ⟨s', hrun⟩ := @client_answered client n k i (sent ++ requestWire path host nonce) _ vc nonce
      hb hclient hn (by omega) hwire
    rw [hfirst, hrun]
    rfl

/-- The nonce of a request for `/`. -/
def getRootNonce : Nonce := ⟨List.replicate 16 0, rfl⟩

theorem fit_getRoot : Fit (lit "/") (lit "a") [0, 0] [0, 0] where
  sendable := ⟨⟨by decide, by decide, by decide, by decide⟩,
    by decide⟩
  passes := passes_of (by decide) (by decide) (by decide) (by decide)
    (by decide)
  room := by decide
  size := by decide
  hostRoom := by decide

/-- The client that sends it, as the server sees it. -/
def getRootClient : Partner where
  incoming := Suffix.line ([] ++ requestWire (lit "/") (lit "a") getRootNonce)
  fate _ := none

theorem sized_cleared : Sized cleared.args := by
  constructor <;> intro a <;> cases a <;> simp only [cleared, List.length_replicate] <;> decide

theorem handshake_completes_getRoot :
    attachServer getRootClient.bsock rxbufSize 6 cleared 0 [0, 0] [0, 0] [] (0, [])
      = .ok (.ok (WsSock.attach true true 0 [], strcpy [0, 0] (lit "/"),
          strcpy [0, 0] (stripped (lit "a"))),
          0 + (requestWire (lit "/") (lit "a") getRootNonce).length, [] ++ responseWire getRootNonce) :=
  (handshake_completes (lit "/") (lit "a") [0, 0] [0, 0] getRootNonce fit_getRoot getRootClient
    getRootClient (fun _ => rfl) (fun _ => rfl) rxbufSize 6 (le_refl _) (by decide) cleared cleared
    sized_cleared 0 0 (by decide) (by decide) [] [] 0 0 [] []).2.2.1 (holds_line [] _)

end Libdill.Ws
