import Libdill.Ws.Attach

/-!
# Who gets through the handshake

The partner may send any lines, in any order and any number, and break off at any place. The flags of
the loop say how often each of the fields has occurred among the lines that have been looked at; and a
stream that has broken off is told from the empty line by `dill_http_detach`.

* `fields_ok`: what the loop has gone through.
* `attach_sound_iff`: what the two sides know when they get a handle, and what a server does not know
  about the key.
-/

namespace Libdill.Ws

open Foundations Libdill.Sock Libdill.Utils Libdill.Http
open Libdill.Suffix (SuffixSock Source crlf)
open Libdill.Term (TermSock)

/-! ## Header fields -/

/-- Lines from position `i` on that are not empty, and the empty line behind them, which ends at `j`. -/
def Lines (f : Source) : ℕ → List (List UInt8) → ℕ → Prop
  | i, [], j => f.Message crlf i [] ∧ j = i + crlf.bytes.length
  | i, m :: ms, j => m ≠ [] ∧ f.Message crlf i m ∧ Lines f (i + (m ++ crlf.bytes).length) ms j

/-- The strings that a field with this name has as its values, the letter case of the name aside. -/
def values (name : String) (ms : List (List UInt8)) : List CString :=
  (ms.filter fun m => strcasecmp (cut (nameOf m)) (lit name)).map fun m => cut (Http.valueOf m)

/-- The field occurs exactly once, with a value that satisfies `P`. -/
def Once (name : String) (P : CString → Prop) (ms : List (List UInt8)) : Prop :=
  ∃ v, values name ms = [v] ∧ P v

/-- The field has been seen, exactly once, or has not occurred. -/
def Tally (has : Bool) (name : String) (P : CString → Prop) (ms : List (List UInt8)) : Prop :=
  if has then Once name P ms else values name ms = []

variable {name : String} {P : CString → Prop} {ms : List (List UInt8)} {m w x : List UInt8}
  {has : Bool} {a b c : CString}

theorem strcasecmp_iff : strcasecmp a b = true ↔ a.bytes.map tolower = b.bytes.map tolower := beq_iff_eq

/-- A string that is equal to one of two different ones is not equal to the other. -/
theorem strcasecmp_other (h : strcasecmp a b = true) (hbc : strcasecmp b c = false) :
    strcasecmp a c = false := by
  rw [Bool.eq_false_iff] at hbc ⊢
  intro hac
  apply hbc
  rw [strcasecmp_iff] at h hac ⊢
  rw [← h, hac]

theorem values_same (h : strcasecmp (cut (nameOf m)) (lit name) = true) :
    values name (ms ++ [m]) = values name ms ++ [cut (Http.valueOf m)] := by
  simp [values, h]

theorem values_other (h : strcasecmp (cut (nameOf m)) (lit name) = false) :
    values name (ms ++ [m]) = values name ms := by
  simp [values, h]

theorem Tally.other (ht : Tally has name P ms)
    (h : strcasecmp (cut (nameOf m)) (lit name) = false) : Tally has name P (ms ++ [m]) := by
  unfold Tally Once at ht ⊢
  rw [values_other h]
  exact ht

/-- The first field of this name. -/
theorem Tally.first {Q : CString → Prop} (ht : Tally has name P ms) (hhas : has = false)
    (h : strcasecmp (cut (nameOf m)) (lit name) = true) (hv : Q (cut (Http.valueOf m))) :
    Tally true name Q (ms ++ [m]) := by
  subst hhas
  refine ⟨_, ?_, hv⟩
  rw [values_same h, show values name ms = [] from ht, List.nil_append]

theorem Tally.once (ht : Tally has name P ms) (hhas : has = true) : Once name P ms := by
  subst hhas
  exact ht

theorem Tally.length_le (ht : Tally has name P ms) : (values name ms).length ≤ 1 := by
  unfold Tally at ht
  split at ht
  · obtain ⟨v, hv, -⟩ := ht
    rw [hv]
    rfl
  · rw [ht]
    exact Nat.zero_le 1

/-! ## Strings in the buffers -/

theorem cut_append_null (w t : List UInt8) : cut (w ++ 0 :: t) = cut w := by
  unfold cut
  congr 1
  induction w with
  | nil => rfl
  | cons c w ih =>
    rw [List.cons_append, List.takeWhile_cons, List.takeWhile_cons, ih]

theorem stringIn_null {τ : Type} {s : τ} (w t : List UInt8) :
    stringIn (w ++ 0 :: t) s = .ok (.ok (cut w), s) := by
  unfold stringIn
  rw [if_pos (by simp), cut_append_null]
  rfl

/-- The strings of a field. -/
theorem string_field (s : Args) (w x : List UInt8) :
    string .name ((s.put .name w).put .value x)
        = .ok (.ok (cut w), (s.put .name w).put .value x) ∧
      string .value ((s.put .name w).put .value x)
        = .ok (.ok (cut x), (s.put .name w).put .value x) := by
  constructor
  · unfold string
    rw [put_of_ne (by decide), put_self]
    exact stringIn_null w _
  · unfold string
    rw [put_self]
    exact stringIn_null x _

theorem bytes_cut (h : 0 ∉ w) : (cut w).bytes = w := by
  unfold cut
  rw [List.takeWhile_eq_self_iff]
  intro c hc
  rw [bne_iff_ne]
  exact fun h0 => h (h0 ▸ hc)

theorem length_value_le (m : List UInt8) : (cut (Http.valueOf m)).bytes.length ≤ m.length := by
  have hcut : (cut (Http.valueOf m)).bytes.length ≤ (Http.valueOf m).length :=
    (List.takeWhile_prefix _).length_le
  have hvalue : (Http.valueOf m).length ≤ (afterName m).tail.length :=
    (List.dropWhile_suffix _).length_le
  have htail : (afterName m).tail.length ≤ (afterName m).length := by
    rw [List.length_tail]
    omega
  have hname : (afterName m).length ≤ m.length :=
    ((List.dropWhile_suffix _).trans ((List.dropWhile_suffix _).trans
      (List.dropWhile_suffix _))).length_le
  omega

/-! ## The keys -/

variable {mach : Machine} {n k : ℕ} {key : List UInt8} {out mem : ℕ → UInt8} {e : Errno}

/-- The characters of an encoding. -/
theorem mem_rfc4648 {bs : List UInt8} {d : UInt8} (h : d ∈ rfc4648 bs) : d ≠ 0 ∧ d ≠ 32 := by
  obtain ⟨o, ho, htext⟩ := rfc4648_eq bs
  rw [htext, textOf, List.mem_append] at h
  rcases h with h | h
  · obtain ⟨n, hn, rfl⟩ := List.mem_map.mp h
    have hlow := (charOf_ascii (ho.lt n hn)).1
    exact ⟨fun hz => by rw [hz] at hlow; exact absurd hlow (by decide),
      fun hz => by rw [hz] at hlow; exact absurd hlow (by decide)⟩
  · rw [List.eq_of_mem_replicate h]
    decide

theorem length_rfc4648 (bs : List UInt8) : (rfc4648 bs).length = 4 * ((bs.length + 2) / 3) := by
  obtain ⟨o, ho, htext⟩ := rfc4648_eq bs
  rw [htext, ho.length]

/-- A string in a key. -/
theorem keyString_patch {τ : Type} {s : τ} (hlen : w.length < keySize) :
    keyString (patch out 0 (w ++ [0])) s = .ok (.ok (cut w), s) := by
  have harray : ∃ t, (List.range keySize).map (patch out 0 (w ++ [0])) = w ++ 0 :: t := by
    obtain ⟨r, hr⟩ : ∃ r, keySize = (w ++ [0]).length + r :=
      ⟨keySize - (w ++ [0]).length, by simp; omega⟩
    refine ⟨((List.range r).map ((w ++ [0]).length + ·)).map (patch out 0 (w ++ [0])), ?_⟩
    have hfront : (List.range (w ++ [0]).length).map (patch out 0 (w ++ [0])) = w ++ [0] := by
      apply List.ext_getElem
      · simp
      · intro i hi hi'
        have hget := @patch_get _ out 0 i (w ++ [0]) hi'
        rw [Nat.zero_add] at hget
        rw [List.getElem_map, List.getElem_range, hget]
    rw [hr, List.range_add, List.map_append, hfront, List.append_assoc]
    rfl
  obtain ⟨t, ht⟩ := harray
  unfold keyString
  rw [ht]
  exact stringIn_null w t

theorem keyString_key {τ : Type} {s : τ} {bs : List UInt8} (hlen : bs.length ≤ 20) :
    keyString (patch out 0 (rfc4648 bs ++ [0])) s = .ok (.ok (cut (rfc4648 bs)), s) := by
  apply keyString_patch
  rw [length_rfc4648]
  unfold keySize
  omega

/-- The key of the client. -/
theorem request_ok {τ : Type} {s s' : τ} {random : Except Errno Nonce}
    (h : request random out s = .ok (.ok mem, s')) :
    ∃ nonce, random = .ok nonce ∧ mem = patch out 0 (rfc4648 nonce.bytes ++ [0]) ∧ s' = s := by
  unfold request at h
  cases random with
  | error e => cases h
  | ok nonce =>
    have hlen := nonce.length_bytes
    have henc : returned (base64Encode keySize nonce.bytes) out
        = .ok (24, patch out 0 (rfc4648 nonce.bytes ++ [0])) := by
      have hlarge := @encode_large keySize nonce.bytes out (by rw [hlen]; decide)
        (by rw [hlen]; decide)
      rw [hlen] at hlarge
      exact hlarge
    have hkey : requestKey nonce.bytes (some out)
        = .ok (.ok (patch out 0 (rfc4648 nonce.bytes ++ [0]))) := by
      unfold requestKey
      simp only [henc]
      rfl
    simp only [hkey] at h
    cases h
    exact ⟨nonce, rfl, rfl, rfl⟩

/-- What the check of the key finds. -/
structure Sixteen (signed : Bool) (key : List UInt8) : Prop where
  count : sextetCount key = 22
  finishes : Finishes key
  overrun : overrun signed (seen key) = false

theorem Sixteen.iff (h : Sixteen mach.signed key) : IsNonce key ↔ WellChecked mach.signed key := by
  rw [isNonce_iff]
  constructor
  · exact fun hwell => .inr (.inl ⟨h.finishes, h.overrun, fun _ => hwell⟩)
  · rintro (hover | ⟨-, -, hwell⟩ | ⟨hend, -⟩)
    · rw [h.count] at hover
      exact absurd hover (Nat.lt_irrefl 22)
    · exact hwell h.count
    · exact absurd h.finishes hend

/-- A key for which there is a response. -/
theorem respond_ok {τ : Type} {s s' : τ} {text : CString} (hlen : text.bytes.length < 2 ^ 31)
    (h : respond mach k text out s = .ok (.ok mem, s')) :
    Sixteen mach.signed text.bytes ∧ mem = patch out 0 (acceptValue text.bytes ++ [0]) ∧ s' = s := by
  have hend : Finishes text.bytes := .inr (by unfold uintRange; omega)
  unfold respond at h
  rcases Nat.lt_trichotomy (sextetCount text.bytes) 22 with hlt | heq | hgt
  · cases hover : overrun mach.signed (seen text.bytes) with
    | true =>
      have hrun := @response_stop mach k _ out _ (decode_overrun (by omega) hend hover)
      simp only [hrun] at h
      cases h
    | false =>
      have hrun := @response_short mach k _ out hlt hend hover
      simp only [hrun] at h
      cases h
  · cases hover : overrun mach.signed (seen text.bytes) with
    | true =>
      have hrun := @response_stop mach k _ out _ (decode_overrun (by omega) hend hover)
      simp only [hrun] at h
      cases h
    | false =>
      have hrun := @response_ok mach k _ out heq hend hover hlen
      simp only [hrun] at h
      cases h
      exact ⟨⟨heq, hend, hover⟩, rfl, rfl⟩
  · have hrun := @response_over mach k _ out hgt
    simp only [hrun] at h
    cases h

theorem keyString_accept {τ : Type} {s : τ} :
    keyString (patch out 0 (acceptValue key ++ [0])) s = .ok (.ok (cut (acceptValue key)), s) :=
  keyString_key (by rw [length_sha1])

theorem bytes_accept (key : List UInt8) : (cut (acceptValue key)).bytes = acceptValue key :=
  bytes_cut fun h => (mem_rfc4648 h).1 rfl

/-! ## A field -/

/-- The flags of the client, when it has sent a key. -/
structure ClientSeen.Of (has : ClientSeen) (key : List UInt8) (ms : List (List UInt8)) : Prop where
  upgrade : Tally has.upgrade "Upgrade" (strcasecmp · (lit "websocket") = true) ms
  connection : Tally has.connection "Connection" (strcasecmp · (lit "Upgrade") = true) ms
  key : Tally has.key "Sec-WebSocket-Accept" (·.bytes = acceptValue key) ms

theorem clientField_ok {s s' : Args} {nonce : Nonce} {has has' : ClientSeen}
    (h : has.Of (rfc4648 nonce.bytes) ms)
    (hrun : clientField mach k (cut (rfc4648 nonce.bytes)) out has
      ((s.put .name (nameOf m)).put .value (Http.valueOf m)) = .ok (.ok has', s')) :
    has'.Of (rfc4648 nonce.bytes) (ms ++ [m]) := by
  obtain ⟨hname, hvalue⟩ := string_field s (nameOf m) (Http.valueOf m)
  unfold clientField at hrun
  rw [Call.bind_ret hname, Call.bind_ret hvalue] at hrun
  split at hrun
  · rename_i hupgrade
    obtain ⟨_, s₁, hreq, hret⟩ := Call.ret_of_bind hrun
    cases hret
    obtain ⟨hnew, hok⟩ := Bool.and_eq_true_iff.mp (Call.require_ok hreq).1
    exact ⟨h.upgrade.first (Bool.not_eq_true' _ ▸ hnew) hupgrade hok,
      h.connection.other (strcasecmp_other hupgrade (by decide +kernel)),
      h.key.other (strcasecmp_other hupgrade (by decide +kernel))⟩
  · rename_i hupgrade
    split at hrun
    · rename_i hconnection
      obtain ⟨_, s₁, hreq, hret⟩ := Call.ret_of_bind hrun
      cases hret
      obtain ⟨hnew, hok⟩ := Bool.and_eq_true_iff.mp (Call.require_ok hreq).1
      exact ⟨h.upgrade.other (Bool.eq_false_iff.mpr hupgrade),
        h.connection.first (Bool.not_eq_true' _ ▸ hnew) hconnection hok,
        h.key.other (strcasecmp_other hconnection (by decide +kernel))⟩
    · rename_i hconnection
      have hother := h.connection.other (Bool.eq_false_iff.mpr hconnection)
      split at hrun
      · rename_i hkey
        obtain ⟨_, s₁, hreq, hrest⟩ := Call.ret_of_bind hrun
        obtain ⟨hnew, rfl⟩ := Call.require_ok hreq
        obtain ⟨mem, s₂, hrespond, hrest⟩ := Call.ret_of_bind hrest
        have hbytes := bytes_cut (w := rfc4648 nonce.bytes) fun h => (mem_rfc4648 h).1 rfl
        have hlen : (cut (rfc4648 nonce.bytes)).bytes.length < 2 ^ 31 := by
          rw [hbytes, length_rfc4648, nonce.length_bytes]
          decide
        obtain ⟨-, rfl, rfl⟩ := respond_ok hlen hrespond
        rw [Call.bind_ret keyString_accept] at hrest
        obtain ⟨_, s₃, hsame, hret⟩ := Call.ret_of_bind hrest
        cases hret
        have heq := of_decide_eq_true (Call.require_ok hsame).1
        rw [bytes_accept, hbytes] at heq
        exact ⟨h.upgrade.other (Bool.eq_false_iff.mpr hupgrade), hother,
          h.key.first (Bool.not_eq_true' _ ▸ hnew) hkey heq⟩
      · rename_i hkey
        cases hrun
        exact ⟨h.upgrade.other (Bool.eq_false_iff.mpr hupgrade), hother,
          h.key.other (Bool.eq_false_iff.mpr hkey)⟩

/-- The flags of the server, and the response to the key. -/
structure ServerSeen.Of (has : ServerSeen) (signed : Bool) (ms : List (List UInt8)) : Prop where
  host : Tally has.host "Host" (fun _ => True) ms
  upgrade : Tally has.upgrade "Upgrade" (strcasecmp · (lit "websocket") = true) ms
  connection : Tally has.connection "Connection" (strcasecmp · (lit "Upgrade") = true) ms
  key : Tally has.key "Sec-WebSocket-Key" (fun v => Sixteen signed v.bytes ∧
    ∃ out, has.responseKey = patch out 0 (acceptValue v.bytes ++ [0])) ms
  version : Tally has.version "Sec-WebSocket-Version" (strcasecmp · (lit "13") = true) ms

theorem serverField_ok {s s' : Args} {has has' : ServerSeen} (h : has.Of mach.signed ms)
    (hlen : m.length < 2 ^ 31)
    (hrun : serverField mach k has ((s.put .name (nameOf m)).put .value (Http.valueOf m))
      = .ok (.ok has', s')) : has'.Of mach.signed (ms ++ [m]) := by
  obtain ⟨hname, hvalue⟩ := string_field s (nameOf m) (Http.valueOf m)
  unfold serverField at hrun
  rw [Call.bind_ret hname, Call.bind_ret hvalue] at hrun
  split at hrun
  · rename_i hhost
    obtain ⟨_, s₁, hreq, hrest⟩ := Call.ret_of_bind hrun
    obtain ⟨_, s₂, -, hret⟩ := Call.ret_of_bind hrest
    cases hret
    exact ⟨h.host.first (Bool.not_eq_true' _ ▸ (Call.require_ok hreq).1) hhost trivial,
      h.upgrade.other (strcasecmp_other hhost (by decide +kernel)),
      h.connection.other (strcasecmp_other hhost (by decide +kernel)),
      h.key.other (strcasecmp_other hhost (by decide +kernel)),
      h.version.other (strcasecmp_other hhost (by decide +kernel))⟩
  · rename_i hhost
    have hhost' := h.host.other (Bool.eq_false_iff.mpr hhost)
    split at hrun
    · rename_i hupgrade
      obtain ⟨_, s₁, hreq, hret⟩ := Call.ret_of_bind hrun
      cases hret
      obtain ⟨hnew, hok⟩ := Bool.and_eq_true_iff.mp (Call.require_ok hreq).1
      exact ⟨hhost', h.upgrade.first (Bool.not_eq_true' _ ▸ hnew) hupgrade hok,
        h.connection.other (strcasecmp_other hupgrade (by decide +kernel)),
        h.key.other (strcasecmp_other hupgrade (by decide +kernel)),
        h.version.other (strcasecmp_other hupgrade (by decide +kernel))⟩
    · rename_i hupgrade
      have hupgrade' := h.upgrade.other (Bool.eq_false_iff.mpr hupgrade)
      split at hrun
      · rename_i hconnection
        obtain ⟨_, s₁, hreq, hret⟩ := Call.ret_of_bind hrun
        cases hret
        obtain ⟨hnew, hok⟩ := Bool.and_eq_true_iff.mp (Call.require_ok hreq).1
        exact ⟨hhost', hupgrade', h.connection.first (Bool.not_eq_true' _ ▸ hnew) hconnection hok,
          h.key.other (strcasecmp_other hconnection (by decide +kernel)),
          h.version.other (strcasecmp_other hconnection (by decide +kernel))⟩
      · rename_i hconnection
        have hconnection' := h.connection.other (Bool.eq_false_iff.mpr hconnection)
        split at hrun
        · rename_i hkey
          obtain ⟨_, s₁, hreq, hrest⟩ := Call.ret_of_bind hrun
          obtain ⟨hnew, rfl⟩ := Call.require_ok hreq
          obtain ⟨mem, s₂, hrespond, hret⟩ := Call.ret_of_bind hrest
          cases hret
          have hshort : (cut (Http.valueOf m)).bytes.length < 2 ^ 31 :=
            lt_of_le_of_lt (length_value_le m) hlen
          obtain ⟨hsixteen, hmem, -⟩ := respond_ok hshort hrespond
          exact ⟨hhost', hupgrade', hconnection',
            h.key.first (Bool.not_eq_true' _ ▸ hnew) hkey ⟨hsixteen, _, hmem⟩,
            h.version.other (strcasecmp_other hkey (by decide +kernel))⟩
        · rename_i hkey
          have hkey' := h.key.other (Bool.eq_false_iff.mpr hkey)
          split at hrun
          · rename_i hversion
            obtain ⟨_, s₁, hreq, hret⟩ := Call.ret_of_bind hrun
            cases hret
            obtain ⟨hnew, hok⟩ := Bool.and_eq_true_iff.mp (Call.require_ok hreq).1
            exact ⟨hhost', hupgrade', hconnection', hkey',
              h.version.first (Bool.not_eq_true' _ ▸ hnew) hversion hok⟩
          · rename_i hversion
            cases hrun
            exact ⟨hhost', hupgrade', hconnection', hkey',
              h.version.other (Bool.eq_false_iff.mpr hversion)⟩

/-! ## The loop -/

section Loop

variable {p : Partner} {v : Memory} {φ : Type} {next : φ → Call Args Stop Errno φ} {x x' : φ}
  {I : φ → List (List UInt8) → Prop} {s s' : Args} {t t' : TermSock} {self : SuffixSock} {i : ℕ}
  {o : List UInt8} {z : SuffixSock × ℕ × List UInt8}

/-- **The fields that have been looked at.** They are lines of the stream; behind them there is the
empty line, or the stream is of no use any more. -/
theorem fields_ok
    (hI : ∀ (y y' : φ) (ms : List (List UInt8)) (m : List UInt8) (s s' : Args), I y ms →
      m.length < rxbufSize →
      next y ((s.put .name (nameOf m)).put .value (Http.valueOf m)) = .ok (.ok y', s') →
        I y' (ms ++ [m]))
    (h : IsHttp t self) (hx : I x ms)
    (hrun : fields p.bsock n v next k x (s, t, self, i, o) = .ok (.ok x', s', t', z)) :
    ∃ l, I x' (ms ++ l) ∧
      ((∃ j, Lines p.incoming i l j ∧ z = (self, j, o) ∧ t' = { t with indone := true }) ∨
        (t' = t ∧ z.1.inerr = true)) := by
  induction k generalizing x ms s i with
  | zero => cases hrun
  | succ k ih =>
    unfold fields at hrun
    cases hfield : recvfield p.bsock n (v.rxbuf (k + 1)) (s, t, self, i, o) with
    | error r =>
      simp only [hfield] at hrun
      cases hrun
    | ok r =>
      obtain ⟨r, s₁, t₁, z₁⟩ := r
      cases r with
      | error e =>
        simp only [hfield] at hrun
        split at hrun
        · rename_i he
          subst he
          cases hrun
          have hline : ∀ m s s', fieldLine m s ≠ .ok (.error .EPIPE, s') := by
            intro m s s' hfail
            rcases fieldLine_error hfail with he | he <;> cases he
          refine ⟨[], by rwa [List.append_nil], ?_⟩
          rcases receive_epipe parses_field h hline hfield with ⟨hm, ht, hz⟩ | hbroken
          · exact .inl ⟨_, ⟨hm, rfl⟩, hz, ht⟩
          · exact .inr hbroken
        · cases hrun
      | ok _ =>
        simp only [hfield] at hrun
        obtain ⟨m, hne, hshort, hm, hparse, rfl, rfl⟩ := receive_ok parses_field h hfield
        obtain rfl := fieldLine_ok hparse
        obtain ⟨y, ⟨s₂, q⟩, hnext, hrest⟩ := Call.ret_of_bind hrun
        obtain ⟨hfound, rfl⟩ := onArgs_inv hnext
        obtain ⟨l, hl, hend⟩ := ih (hI x y ms m s s₂ hx hshort hfound) hrest
        refine ⟨m :: l, ?_, ?_⟩
        · rwa [List.append_assoc] at hl
        · rcases hend with ⟨j, hlines, hz, ht⟩ | hbroken
          · exact .inl ⟨j, ⟨hne, hm, hlines⟩, hz, ht⟩
          · exact .inr hbroken

/-! ## The two sides -/

/-- The request of the client. -/
def requestLines (resource host : CString) (key : List UInt8) : List (List UInt8) :=
  [ascii "GET " ++ resource.bytes ++ ascii " HTTP/1.1", ascii "Host: " ++ strip 32 host.bytes,
    ascii "Upgrade: websocket", ascii "Connection: Upgrade", ascii "Sec-WebSocket-Key: " ++ key,
    ascii "Sec-WebSocket-Version: 13", []]

/-- The response of the server. -/
def responseLines (accept : List UInt8) : List (List UInt8) :=
  [ascii "HTTP/1.1 101 Switching Protocols", ascii "Upgrade: websocket", ascii "Connection: Upgrade",
    ascii "Sec-WebSocket-Accept: " ++ accept, []]

/-- What the client has received, up to position `j`, when it has sent the key. -/
structure ClientUpgraded (f : Source) (key start : List UInt8) (ms : List (List UInt8)) (j : ℕ) :
    Prop where
  lines : Lines f 0 (start :: ms) j
  status : word (behind start) = ascii "101"
  upgrade : Once "Upgrade" (strcasecmp · (lit "websocket") = true) ms
  connection : Once "Connection" (strcasecmp · (lit "Upgrade") = true) ms
  accept : Once "Sec-WebSocket-Accept" (·.bytes = acceptValue key) ms

/-- What the server has received; the key has been checked in the way `c` says. -/
structure ServerUpgraded (f : Source) (c : List UInt8 → Prop) (key start : List UInt8)
    (ms : List (List UInt8)) (j : ℕ) : Prop where
  lines : Lines f 0 (start :: ms) j
  command : word start = ascii "GET"
  host : (values "Host" ms).length ≤ 1
  upgrade : Once "Upgrade" (strcasecmp · (lit "websocket") = true) ms
  connection : Once "Connection" (strcasecmp · (lit "Upgrade") = true) ms
  version : Once "Sec-WebSocket-Version" (·.bytes = ascii "13") ms
  key : Once "Sec-WebSocket-Key" (fun w => w.bytes = key ∧ c key) ms

/-- The constants of the two functions, as they are sent. -/
theorem text_request : (lit "GET").bytes ++ [32] = ascii "GET " ∧ 32 :: http11 = ascii " HTTP/1.1" ∧
    (lit "Host").bytes ++ [58, 32] = ascii "Host: " ∧
    (lit "Sec-WebSocket-Key").bytes ++ [58, 32] = ascii "Sec-WebSocket-Key: " ∧
    (lit "Sec-WebSocket-Version").bytes ++ [58, 32] ++ strip 32 (lit "13").bytes
      = ascii "Sec-WebSocket-Version: 13" := by decide +kernel

theorem text_upgrade : (lit "Upgrade").bytes ++ [58, 32] ++ strip 32 (lit "websocket").bytes
      = ascii "Upgrade: websocket" ∧
    (lit "Connection").bytes ++ [58, 32] ++ strip 32 (lit "Upgrade").bytes
      = ascii "Connection: Upgrade" := by decide +kernel

theorem text_response : http11 ++ [32] ++ statusBuf 101 ++ (lit "Switching Protocols").bytes
      = ascii "HTTP/1.1 101 Switching Protocols" ∧
    (lit "Sec-WebSocket-Accept").bytes ++ [58, 32] = ascii "Sec-WebSocket-Accept: " := by
  decide +kernel

/-- A key is sent as it is. -/
theorem strip_key (bs : List UInt8) : strip 32 (cut (rfc4648 bs)).bytes = rfc4648 bs := by
  rw [bytes_cut fun h => (mem_rfc4648 h).1 rfl]
  have hne : ∀ d ∈ rfc4648 bs, ¬d = 32 := fun d hd => (mem_rfc4648 hd).2
  have hfront : (rfc4648 bs).dropWhile (· = 32) = rfc4648 bs := by
    apply List.dropWhile_eq_self_iff.mpr
    intro hlen
    simpa using hne _ (List.getElem_mem hlen)
  unfold strip
  rw [hfront, List.rdropWhile_eq_self_iff]
  intro hnil
  simpa using hne _ (List.getLast_mem hnil)

theorem number_101 {x y z : UInt8} (hd : [x, y, z].all isDigit = true) (h : number x y z = 101) :
    [x, y, z] = ascii "101" := by
  have hdigit : ∀ c : UInt8, isDigit c = true → 48 ≤ c.toNat ∧ c.toNat ≤ 57 := by
    intro c hc
    unfold isDigit at hc
    simp only [Bool.not_eq_true', Bool.or_eq_false_iff, decide_eq_false_iff_not, UInt8.not_lt] at hc
    exact ⟨UInt8.le_iff_toNat_le.mp hc.1, UInt8.le_iff_toNat_le.mp hc.2⟩
  simp only [List.all_cons, List.all_nil, Bool.and_true, Bool.and_eq_true] at hd
  have hx := hdigit x hd.1
  have hy := hdigit y hd.2.1
  have hz := hdigit z hd.2.2
  unfold number at h
  have hx' : x = 49 := UInt8.toNat_inj.mp (show x.toNat = 49 by omega)
  have hy' : y = 48 := UInt8.toNat_inj.mp (show y.toNat = 48 by omega)
  have hz' : z = 49 := UInt8.toNat_inj.mp (show z.toNat = 49 by omega)
  rw [hx', hy', hz']
  decide +kernel

variable {resource host : CString} {random : Except Errno Nonce}

/-- **The client.** -/
theorem clientHandshake_ok {q : Stack (ℕ × List UInt8)}
    (hrun : clientHandshake p.bsock n k v resource host random (s, Http.attach (0, []))
      = .ok (.ok (), s', q)) :
    ∃ nonce start ms j, random = .ok nonce ∧
      q.2.2 = (j, Suffix.wireOf crlf (requestLines resource host (rfc4648 nonce.bytes))) ∧
      ClientUpgraded p.incoming (rfc4648 nonce.bytes) start ms j := by
  obtain ⟨_, q₁, h₁, hrun⟩ := Call.ret_of_bind hrun
  obtain ⟨z₁, hsend₁, rfl⟩ := below_eq_ok h₁
  obtain rfl := sendrequest_ok hsend₁
  obtain ⟨_, q₂, h₂, hrun⟩ := Call.ret_of_bind hrun
  obtain ⟨z₂, hsend₂, rfl⟩ := below_eq_ok h₂
  obtain rfl := sendfield_ok hsend₂
  obtain ⟨_, q₃, h₃, hrun⟩ := Call.ret_of_bind hrun
  obtain ⟨z₃, hsend₃, rfl⟩ := below_eq_ok h₃
  obtain rfl := sendfield_ok hsend₃
  obtain ⟨_, q₄, h₄, hrun⟩ := Call.ret_of_bind hrun
  obtain ⟨z₄, hsend₄, rfl⟩ := below_eq_ok h₄
  obtain rfl := sendfield_ok hsend₄
  obtain ⟨mem, q₅, hkey, hrun⟩ := Call.ret_of_bind hrun
  obtain ⟨nonce, hrandom, rfl, rfl⟩ := request_ok hkey
  rw [Call.bind_ret (keyString_key (by rw [nonce.length_bytes]; decide))] at hrun
  obtain ⟨_, q₆, h₆, hrun⟩ := Call.ret_of_bind hrun
  obtain ⟨z₆, hsend₆, rfl⟩ := below_eq_ok h₆
  obtain rfl := sendfield_ok hsend₆
  obtain ⟨_, q₇, h₇, hrun⟩ := Call.ret_of_bind hrun
  obtain ⟨z₇, hsend₇, rfl⟩ := below_eq_ok h₇
  obtain rfl := sendfield_ok hsend₇
  obtain ⟨_, q₈, h₈, hrun⟩ := Call.ret_of_bind hrun
  obtain ⟨z₈, hsend₈, rfl⟩ := below_eq_ok h₈
  obtain rfl := done_ok rfl hsend₈
  obtain ⟨rc, ⟨s₉, t₉, z₉⟩, hstatus, hrun⟩ := Call.ret_of_bind hrun
  obtain ⟨start, hne, -, hm, hparse, rfl, rfl⟩ :=
    receive_ok (parses_status v.full) ⟨rfl, rfl⟩ hstatus
  obtain ⟨x, y, z, hword, hdigits, hnumber⟩ := statusLine_digits hparse
  obtain ⟨_, q₁₀, hcode, hrun⟩ := Call.ret_of_bind hrun
  obtain ⟨hrc, rfl⟩ := Call.require_ok hcode
  obtain ⟨has, ⟨s₁₁, t₁₁, z₁₁⟩, hfields, hrun⟩ := Call.ret_of_bind hrun
  have hinit : ClientSeen.Of ⟨false, false, false⟩ (rfc4648 nonce.bytes) [] := ⟨rfl, rfl, rfl⟩
  obtain ⟨ms, hseen, hend⟩ := fields_ok (I := fun has ms => has.Of (rfc4648 nonce.bytes) ms)
    (fun _ _ _ _ _ _ hof _ hfield => clientField_ok hof hfield) ⟨rfl, rfl⟩ hinit hfields
  obtain ⟨_, q₁₂, hall, hrun⟩ := Call.ret_of_bind hrun
  obtain ⟨hflags, rfl⟩ := Call.require_ok hall
  obtain ⟨⟨hup, hcon⟩, hkeyseen⟩ : (has.upgrade = true ∧ has.connection = true) ∧ has.key = true := by
    simpa only [Bool.and_eq_true] using hflags
  obtain ⟨z₁₂, hdetach, hq⟩ := below_eq_ok hrun
  cases hq
  rcases hend with ⟨j, hlines, rfl, rfl⟩ | ⟨rfl, hbroken⟩
  · obtain ⟨-, hleft⟩ := detach_ok rfl (.inl rfl) hdetach
    refine ⟨nonce, start, ms, j, hrandom, ?_, ⟨hne, hm, ?_⟩, ?_, ?_, ?_, ?_⟩
    · rw [hleft]
      refine congrArg (Prod.mk _) ?_
      obtain ⟨hget, hprotocol, hhost, hkeyname, hversion⟩ := text_request
      obtain ⟨hupgrade, hconnection⟩ := text_upgrade
      have hsuffix : crlf.attach.suffix = crlf := rfl
      simp only [if_true, requestLines, Suffix.wireOf, List.flatMap_cons, List.flatMap_nil, hget,
        hprotocol, hhost, hkeyname, hversion, hupgrade, hconnection, strip_key, hsuffix, List.nil_append,
        List.append_nil, List.append_assoc]
    · exact hlines
    · rw [hword]
      exact number_101 hdigits (by rw [← hnumber]; exact of_decide_eq_true hrc)
    · exact hseen.upgrade.once hup
    · exact hseen.connection.once hcon
    · exact hseen.key.once hkeyseen
  · obtain ⟨self, j, o⟩ := z₁₁
    cases (detach_ok rfl (.inr hbroken) hdetach).1

/-- Only a letter is the `tolower` of another character. -/
theorem tolower_eq {c d : UInt8} (hc : c.toNat < 97) (h : tolower d = c) : d = c := by
  unfold tolower at h
  split at h
  · rename_i hd
    have hlo := UInt8.le_iff_toNat_le.mp hd.1
    have hhi := UInt8.le_iff_toNat_le.mp hd.2
    have hsum : (d + 32).toNat = d.toNat + 32 := by
      rw [UInt8.toNat_add]
      exact Nat.mod_eq_of_lt (show d.toNat + 32 < 256 by change d.toNat ≤ 90 at hhi; omega)
    rw [h] at hsum
    change 65 ≤ d.toNat at hlo
    omega
  · exact h

theorem bytes_13 (h : strcasecmp a (lit "13") = true) : a.bytes = ascii "13" := by
  have hlit : (lit "13").bytes.map tolower = [49, 51] := by decide +kernel
  rw [strcasecmp_iff, hlit] at h
  obtain ⟨x, l, hx, hx', hl⟩ := List.map_eq_cons_iff.mp h
  obtain ⟨y, l', rfl, hy', hl'⟩ := List.map_eq_cons_iff.mp hl
  rw [List.map_eq_nil_iff] at hl'
  rw [hx, hl', tolower_eq (by decide) hx', tolower_eq (by decide) hy']
  decide +kernel

theorem null_notMem_word (m : List UInt8) : 0 ∉ word m := by
  intro h
  exact absurd (List.mem_takeWhile_imp h) (by decide)

/-- **The server.** -/
theorem serverHandshake_ok {q : Stack (ℕ × List UInt8)} {hostBuf hostBuf' : List UInt8}
    (hrun : serverHandshake p.bsock n k v hostBuf (s, Http.attach (0, []))
      = .ok (.ok hostBuf', s', q)) :
    ∃ key start ms j, q.2.2 = (j, Suffix.wireOf crlf (responseLines (acceptValue key))) ∧
      ServerUpgraded p.incoming (Sixteen v.machine.signed) key start ms j := by
  obtain ⟨_, ⟨s₁, t₁, z₁⟩, hrequest, hrun⟩ := Call.ret_of_bind hrun
  obtain ⟨start, hne, -, hm, hparse, rfl, rfl⟩ :=
    receive_ok (parses_request v.full) ⟨rfl, rfl⟩ hrequest
  obtain rfl := requestLine_found hparse
  obtain ⟨command, q₂, hcommand, hrun⟩ := Call.ret_of_bind hrun
  dsimp only at hcommand
  rw [put_of_ne (by decide), put_self, stringIn_null] at hcommand
  cases hcommand
  obtain ⟨_, q₃, hreq, hrun⟩ := Call.ret_of_bind hrun
  obtain ⟨hget, rfl⟩ := Call.require_ok hreq
  have hword := of_decide_eq_true hget
  rw [bytes_cut (null_notMem_word start)] at hword
  obtain ⟨has, ⟨s₄, t₄, self, j, o⟩, hfields, hrun⟩ := Call.ret_of_bind hrun
  have hinit : ServerSeen.Of ⟨false, false, false, false, false, hostBuf, v.responseKey⟩
      v.machine.signed [] := ⟨rfl, rfl, rfl, rfl, rfl⟩
  obtain ⟨ms, hseen, hend⟩ := fields_ok (I := fun has ms => has.Of v.machine.signed ms)
    (fun _ _ _ _ _ _ hof hlen hfield =>
      serverField_ok hof (lt_trans hlen (by decide)) hfield) ⟨rfl, rfl⟩ hinit hfields
  obtain ⟨_, q₅, hall, hrun⟩ := Call.ret_of_bind hrun
  obtain ⟨hflags, rfl⟩ := Call.require_ok hall
  obtain ⟨⟨⟨hup, hcon⟩, hkeyseen⟩, hver⟩ : ((has.upgrade = true ∧ has.connection = true) ∧
      has.key = true) ∧ has.version = true := by
    simpa only [Bool.and_eq_true] using hflags
  obtain ⟨key, hkey, hsixteen, out, hmem⟩ := hseen.key.once hkeyseen
  obtain ⟨_, q₆, h₆, hrun⟩ := Call.ret_of_bind hrun
  obtain ⟨z₆, hsend₆, rfl⟩ := below_eq_ok h₆
  obtain rfl := sendstatus_ok hsend₆
  obtain ⟨_, q₇, h₇, hrun⟩ := Call.ret_of_bind hrun
  obtain ⟨z₇, hsend₇, rfl⟩ := below_eq_ok h₇
  obtain rfl := sendfield_ok hsend₇
  obtain ⟨_, q₈, h₈, hrun⟩ := Call.ret_of_bind hrun
  obtain ⟨z₈, hsend₈, rfl⟩ := below_eq_ok h₈
  obtain rfl := sendfield_ok hsend₈
  rw [hmem, Call.bind_ret keyString_accept] at hrun
  obtain ⟨_, q₉, h₉, hrun⟩ := Call.ret_of_bind hrun
  obtain ⟨z₉, hsend₉, rfl⟩ := below_eq_ok h₉
  obtain rfl := sendfield_ok hsend₉
  obtain ⟨_, q₁₀, h₁₀, hret⟩ := Call.ret_of_bind hrun
  obtain ⟨z₁₀, hdetach, rfl⟩ := below_eq_ok h₁₀
  cases hret
  rcases hend with ⟨j', hlines, hz, rfl⟩ | ⟨rfl, hbroken⟩
  · cases hz
    obtain ⟨-, hleft⟩ := detach_ok rfl (.inl rfl) hdetach
    obtain ⟨w, hw, hsame⟩ := hseen.version.once hver
    refine ⟨key.bytes, start, ms, j, ?_, ⟨hne, hm, hlines⟩, hword, hseen.host.length_le,
      hseen.upgrade.once hup, hseen.connection.once hcon, ⟨w, hw, bytes_13 hsame⟩,
      ⟨key, hkey, rfl, hsixteen⟩⟩
    rw [hleft]
    refine congrArg (Prod.mk _) ?_
    obtain ⟨hstatus, haccept⟩ := text_response
    obtain ⟨hupgrade, hconnection⟩ := text_upgrade
    have hsuffix : crlf.attach.suffix = crlf := rfl
    have hstrip : strip 32 (cut (acceptValue key.bytes)).bytes = acceptValue key.bytes := strip_key _
    rw [hstatus]
    simp only [Bool.false_eq_true, if_false, responseLines, Suffix.wireOf, List.flatMap_cons,
      List.flatMap_nil, haccept, hupgrade, hconnection, hstrip, hsuffix, List.nil_append,
      List.append_nil, List.append_assoc]
  · cases (detach_ok rfl (.inr hbroken) hdetach).1

end Loop

/-! ## What is on the stream -/

variable {f : Source} {i j i' j' : ℕ} {p p' start : List UInt8} {ms' : List (List UInt8)}
  {signed : Bool}

theorem length_message_le {t : Suffix.Delim} (h : f.Message t i p) (h' : f.Message t i p') :
    p'.length ≤ p.length := by
  by_contra hlt
  have hsplit := List.take_append_drop (p ++ t.bytes).length (p' ++ t.bytes)
  have hfront : f.Holds i ((p' ++ t.bytes).take (p ++ t.bytes).length) := by
    have hholds := h'.1
    rw [← hsplit] at hholds
    exact (Suffix.holds_append.mp hholds).1
  have heq := Suffix.holds_unique h.1 hfront (by simp; omega)
  apply h'.2 p.length (by omega)
  unfold OccursAt
  rw [← hsplit, ← heq, List.append_assoc, List.drop_left]
  exact List.prefix_append _ _

theorem message_unique {t : Suffix.Delim} (h : f.Message t i p) (h' : f.Message t i p') : p = p' := by
  have hlen := le_antisymm (length_message_le h' h) (length_message_le h h')
  exact Suffix.holds_unique (Suffix.holds_append.mp h.1).1 (Suffix.holds_append.mp h'.1).1 hlen

/-- The lines are determined by the stream. -/
theorem lines_unique (h : Lines f i ms j) (h' : Lines f i ms' j') : ms = ms' := by
  induction ms generalizing i ms' with
  | nil =>
    cases ms' with
    | nil => rfl
    | cons m' ms' => exact absurd (message_unique h.1 h'.2.1).symm h'.1
  | cons m ms ih =>
    cases ms' with
    | nil => exact absurd (message_unique h.2.1 h'.1) h.1
    | cons m' ms' =>
      obtain rfl := message_unique h.2.1 h'.2.1
      rw [ih h.2.2 h'.2.2]

/-- Lines that are on a stream. -/
theorem lines_wire (bs : List UInt8) (h : ∀ m ∈ ms, m ≠ [] ∧ 13 ∉ m) :
    Lines (Suffix.line (bs ++ Suffix.wireOf crlf (ms ++ [[]]))) bs.length ms
      (bs ++ Suffix.wireOf crlf (ms ++ [[]])).length := by
  induction ms generalizing bs with
  | nil =>
    refine ⟨⟨holds_line bs _, free_of_notMem (by simp)⟩, ?_⟩
    rw [List.length_append]
    rfl
  | cons m ms ih =>
    obtain ⟨⟨hne, hm⟩, hms⟩ := List.forall_mem_cons.mp h
    have hwire : Suffix.wireOf crlf (m :: ms ++ [[]]) =
        (m ++ crlf.bytes) ++ Suffix.wireOf crlf (ms ++ [[]]) := rfl
    have hrest := ih (bs ++ (m ++ crlf.bytes)) hms
    rw [hwire, ← List.append_assoc]
    refine ⟨hne, ⟨?_, free_of_notMem hm⟩, ?_⟩
    · rw [List.append_assoc]
      exact (Suffix.holds_append.mp (holds_line bs _)).1
    · rw [← List.length_append]
      exact hrest

/-! ## Soundness -/

/-- A client that returns a handle has sent a key and received the response to it, up to the empty
line. -/
def ClientSound (f : Source) (resource host : Option CString)
    (r : Except Stop (Except Errno WsSock × ℕ × List UInt8)) : Prop :=
  ∀ sock j o, r = .ok (.ok sock, j, o) →
    ∃ path name key start ms, resource = some path ∧ host = some name ∧ IsNonce key ∧
      o = Suffix.wireOf crlf (requestLines path name key) ∧ ClientUpgraded f key start ms j

/-- A server that returns a handle has received a request with the encoding of a nonce, up to the
empty line, and has sent the response to it. -/
def ServerSound {α : Type} (f : Source) (r : Except Stop (Except Errno α × ℕ × List UInt8)) : Prop :=
  ∀ a j o, r = .ok (.ok a, j, o) →
    ∃ key start ms, o = Suffix.wireOf crlf (responseLines (acceptValue key)) ∧
      ServerUpgraded f IsNonce key start ms j

/-- The keys in a request that ends with an empty line are well checked. -/
def KeysChecked (signed : Bool) (f : Source) : Prop :=
  ∀ start ms j, Lines f 0 (start :: ms) j →
    ∀ key ∈ values "Sec-WebSocket-Key" ms, WellChecked signed key.bytes

section Sound

variable {n k : ℕ} {v : Memory} {flags : UInt32} {resource host : Option CString}
  {random : Except Errno Nonce} {msg path name : List UInt8} {q : Partner}

theorem clientSound (hflags : flags &&& noHttp = 0) : ClientSound q.incoming resource host
    (attachClient q.bsock n k v flags resource host random msg (0, [])) := by
  intro sock j o hrun
  unfold attachClient at hrun
  dsimp only at hrun
  rw [if_neg (by rw [hflags]; exact not_not.mpr rfl)] at hrun
  cases resource with
  | none => cases hrun
  | some resource =>
    cases host with
    | none => cases hrun
    | some host =>
      dsimp only at hrun
      cases hhand : clientHandshake q.bsock n k v resource host random
          (v.args, Http.attach (0, [])) with
      | error r =>
        rw [hhand] at hrun
        cases hrun
      | ok r =>
        obtain ⟨r, s', z⟩ := r
        rw [hhand] at hrun
        cases r with
        | error e => cases hrun
        | ok u =>
          obtain ⟨nonce, start, ms, j', -, hz, hup⟩ := clientHandshake_ok hhand
          simp only [Except.ok.injEq, Prod.mk.injEq] at hrun
          rw [hz] at hrun
          obtain ⟨-, rfl, rfl⟩ := hrun
          exact ⟨_, _, _, start, ms, rfl, rfl, ⟨nonce.bytes, nonce.length_bytes, rfl⟩, rfl, hup⟩

/-- What a server knows. -/
theorem server_returned {a : WsSock × List UInt8 × List UInt8} {o : List UInt8}
    (hflags : flags &&& noHttp = 0)
    (hrun : attachServer q.bsock n k v flags path name msg (0, []) = .ok (.ok a, j, o)) :
    ∃ key start ms, o = Suffix.wireOf crlf (responseLines (acceptValue key)) ∧
      ServerUpgraded q.incoming (Sixteen v.machine.signed) key start ms j := by
  unfold attachServer at hrun
  dsimp only at hrun
  rw [if_neg (by rw [hflags]; exact not_not.mpr rfl)] at hrun
  cases hhand : serverHandshake q.bsock n k v name
      (Function.update v.args .resource path, Http.attach (0, [])) with
  | error r =>
    rw [hhand] at hrun
    cases hrun
  | ok r =>
    obtain ⟨r, s', z⟩ := r
    rw [hhand] at hrun
    cases r with
    | error e => cases hrun
    | ok hostBuf =>
      obtain ⟨key, start, ms, j', hz, hup⟩ := serverHandshake_ok hhand
      simp only [Except.ok.injEq, Prod.mk.injEq] at hrun
      rw [hz] at hrun
      obtain ⟨-, rfl, rfl⟩ := hrun
      exact ⟨key, start, ms, rfl, hup⟩

variable {key key' : List UInt8}

/-- A key that is well checked is a nonce. -/
theorem ServerUpgraded.nonce (h : ServerUpgraded f (Sixteen v.machine.signed) key start ms j)
    (hchecked : KeysChecked v.machine.signed f) : ServerUpgraded f IsNonce key start ms j := by
  obtain ⟨w, hw, rfl, hsixteen⟩ := h.key
  have hwell := hchecked start ms j h.lines w (by rw [hw]; exact List.mem_singleton.mpr rfl)
  exact ⟨h.lines, h.command, h.host, h.upgrade, h.connection, h.version,
    ⟨w, hw, rfl, hsixteen.iff.mpr hwell⟩⟩

theorem ServerUpgraded.checked (h : ServerUpgraded f (Sixteen v.machine.signed) key start ms j)
    (hup : ServerUpgraded f IsNonce key' start' ms' j') : KeysChecked v.machine.signed f := by
  obtain ⟨w, hw, rfl, hsixteen⟩ := h.key
  obtain ⟨w', hw', rfl, hnonce⟩ := hup.key
  cases lines_unique h.lines hup.lines
  rw [hw, List.singleton_inj] at hw'
  subst hw'
  intro start'' ms'' j'' hlines key'' hkey
  cases lines_unique h.lines hlines
  rw [hw, List.mem_singleton] at hkey
  rw [hkey]
  exact hsixteen.iff.mp hnonce

/-- **Soundness of the opening handshake.** A client that returns a handle has been upgraded, and so
has a server if the keys are well checked; a server that returns a handle for another key has not. -/
theorem attach_sound_iff (q : Partner) (n k : ℕ) (v : Memory) (flags : UInt32)
    (hflags : flags &&& noHttp = 0) (resource host : Option CString) (random : Except Errno Nonce)
    (path name msg : List UInt8) :
    ClientSound q.incoming resource host
        (attachClient q.bsock n k v flags resource host random msg (0, [])) ∧
      (KeysChecked v.machine.signed q.incoming →
        ServerSound q.incoming (attachServer q.bsock n k v flags path name msg (0, []))) ∧
      ∀ a j o, attachServer q.bsock n k v flags path name msg (0, []) = .ok (.ok a, j, o) →
        ServerSound q.incoming (attachServer q.bsock n k v flags path name msg (0, [])) →
          KeysChecked v.machine.signed q.incoming := by
  refine ⟨clientSound hflags, ?_, ?_⟩
  · intro hchecked a j o hrun
    obtain ⟨key, start, ms, ho, hup⟩ := server_returned hflags hrun
    exact ⟨key, start, ms, ho, hup.nonce hchecked⟩
  · intro a j o hrun hsound
    obtain ⟨key, start, ms, -, hup⟩ := server_returned hflags hrun
    obtain ⟨key', start', ms', -, hup'⟩ := hsound a j o hrun
    exact hup.checked hup'

end Sound

/-! ## A key without its padding -/

/-- Arrays of zeros. -/
def cleared : Memory where
  machine := commonMachine
  full := false
  rxbuf _ := zeroed
  args a := match a with
    | .command => List.replicate 32 0
    | _ => List.replicate 256 0
  command := List.length_replicate
  reason := List.length_replicate
  name := List.length_replicate
  value := List.length_replicate
  requestKey _ := 0
  responseKey _ := 0

/-- A request for an upgrade. -/
def unpaddedFields : List (List UInt8) :=
  [ascii "Upgrade: websocket", ascii "Connection: Upgrade",
    ascii "Sec-WebSocket-Key: AAAAAAAAAAAAAAAAAAAAAA", ascii "Sec-WebSocket-Version: 13"]

/-- A client that sends it, and whose connection does not fail. -/
def unpaddedClient : Partner where
  incoming := Suffix.line ([] ++ Suffix.wireOf crlf (ascii "GET / HTTP/1.1" :: unpaddedFields ++ [[]]))
  fate _ := none

/-- The server, with two buffers of one byte each that it does not use. -/
def unpaddedServer : Except Stop (Except Errno (WsSock × List UInt8 × List UInt8) × ℕ × List UInt8) :=
  attachServer unpaddedClient.bsock 64 6 cleared 0 [0, 0] [0] [] (0, [])

/-- A call has returned a value. -/
def succeeded {α β : Type} : Except Stop (Except Errno α × β) → Bool
  | .ok (.ok _, _) => true
  | _ => false

theorem succeeded_iff {α β : Type} {r : Except Stop (Except Errno α × β)} :
    succeeded r = true ↔ ∃ a b, r = .ok (.ok a, b) := by
  constructor
  · intro h
    unfold succeeded at h
    split at h
    · exact ⟨_, _, rfl⟩
    · cases h
  · rintro ⟨a, b, rfl⟩
    rfl

/-- The server returns a handle. -/
theorem unpadded_returns : succeeded unpaddedServer = true := by decide +kernel

theorem unpadded_lines : ∃ j, Lines unpaddedClient.incoming 0
    (ascii "GET / HTTP/1.1" :: unpaddedFields) j := ⟨_, lines_wire [] (by decide +kernel)⟩

theorem unpadded_not_nonce : ¬IsNonce unpadded := by
  rw [isNonce_iff]
  intro hwell
  exact absurd (hwell.facts true).2.2.2 (by decide)

/-- The key it has accepted is not a nonce. -/
theorem unpadded_unsound : ¬ServerSound unpaddedClient.incoming unpaddedServer := by
  intro hsound
  obtain ⟨a, ⟨j, o⟩, hrun⟩ := succeeded_iff.mp unpadded_returns
  obtain ⟨key, start, ms, -, hup⟩ := hsound a j o hrun
  obtain ⟨w, hw, rfl, hnonce⟩ := hup.key
  obtain ⟨j', hlines⟩ := unpadded_lines
  cases lines_unique hup.lines hlines
  have hvalues : (values "Sec-WebSocket-Key" unpaddedFields).map CString.bytes = [unpadded] := by
    decide +kernel
  rw [hw, List.map_singleton, List.singleton_inj] at hvalues
  rw [hvalues] at hnonce
  exact unpadded_not_nonce hnonce

theorem attachServer_accepts_unpadded : ¬ServerSound unpaddedClient.incoming unpaddedServer :=
  unpadded_unsound

/-- It is not well checked. -/
theorem attach_sound_iff_unpadded : ¬KeysChecked true unpaddedClient.incoming := fun hchecked =>
  unpadded_unsound ((attach_sound_iff unpaddedClient 64 6 cleared 0 (by decide) none none
    (.error .ENOMEM) [0, 0] [0] []).2.1 hchecked)

end Libdill.Ws
