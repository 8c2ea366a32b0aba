import Libdill.Socks5.Model
import Libdill.Sock.Line

/-!
# SOCKS5: authentication

* `clientAuth_eq`, `proxyAuth_eq`: what the two sides do, without their buffers.
* `proxyAuth_sound`: the proxy succeeds only if `auth_fn` has accepted what the client sent.
* `auth_agreement`: the client against the proxy.
-/

namespace Libdill.Socks5

open Foundations Libdill.Sock

/-! ## Without buffers -/

/-- Receives a byte. -/
def recvByte {α : Type} (k : UInt8 → Prog α) : Prog α := .recv 1 fun bs => k (bs.1.getD 0 0)

/-- Receives two bytes. -/
def recvTwo {α : Type} (k : UInt8 → UInt8 → Prog α) : Prog α :=
  .recv 2 fun bs => k (bs.1.getD 0 0) (bs.1.getD 1 0)

variable {α : Type}

@[simp] theorem recvTwo_bind {γ : Type} (k : UInt8 → UInt8 → Prog α) (f : α → Prog γ) :
    recvTwo k >>= f = recvTwo fun x y => k x y >>= f := rfl

theorem refuse_bne (x y : UInt8) (e : Errno) (k : Unit → Prog α) :
    refuse (x != y) e >>= k = if x = y then k () else .fail (some e) := by
  unfold refuse
  by_cases h : x = y
  · subst h
    rw [if_pos rfl, bne_self_eq_false, Dialogue.refuse_false, Dialogue.ret_bind]
  · rw [if_neg h, bne_iff_ne.2 h, Dialogue.refuse_true, Dialogue.fail_bind]

theorem one_byte (bs : {bs : List UInt8 // bs.length = 1}) : ∃ x, bs = ⟨[x], rfl⟩ := by
  obtain ⟨bs, h⟩ := bs
  obtain ⟨x, rfl⟩ := List.length_eq_one_iff.1 h
  exact ⟨x, rfl⟩

theorem two_bytes (bs : {bs : List UInt8 // bs.length = 2}) : ∃ x y, bs = ⟨[x, y], rfl⟩ := by
  obtain ⟨bs, h⟩ := bs
  obtain ⟨x, y, rfl⟩ := List.length_eq_two.1 h
  exact ⟨x, y, rfl⟩

theorem recvTwo_filled {n : ℕ} (hn : 2 ≤ n) (f : List UInt8 → Prog α) :
    recvAt (filled [] n) 0 2 >>= f = recvTwo fun x y => f (filled [x, y] n) := by
  rw [recvAt_filled (w := []) (by rfl) (by rw [List.length_nil]; omega), Dialogue.recv_bind]
  unfold recvTwo
  congr 1
  funext bs
  obtain ⟨x, y, rfl⟩ := two_bytes bs
  rfl

theorem scanMethods_eq {vims ms a b : List UInt8} {i : ℕ} {req : Bool × Bool}
    (hv : vims = a ++ (ms ++ b)) (ha : a.length = 2 + i) :
    scanMethods vims ms.length i req = .ret (req.1 || ms.contains 2, req.2 || ms.contains 0) := by
  induction ms generalizing a i req with
  | nil => simp [scanMethods]
  | cons m ms ih =>
    obtain ⟨reqUp, reqNa⟩ := req
    have hbyte : byteAt vims (2 + i) = .ret m := by
      unfold byteAt
      rw [hv, List.getElem?_append_right (by omega), ha, Nat.sub_self]
      rfl
    have hnext := @ih (a ++ [m]) (i + 1)
      (if m = 0x00 then (reqUp, true) else if m = 0x02 then (true, reqNa) else (reqUp, reqNa))
      (by rw [hv, List.append_assoc]; rfl)
      (by rw [List.length_append, List.length_singleton, ha]; omega)
    rw [List.length_cons, scanMethods, hbyte, Dialogue.ret_bind, hnext]
    by_cases h0 : m = 0
    · subst h0
      simp
    · by_cases h2 : m = 2
      · subst h2
        simp
      · rw [if_neg h0, if_neg h2]
        have h0' : (0 == m) = false := beq_eq_false_iff_ne.2 fun h => h0 h.symm
        have h2' : (2 == m) = false := beq_eq_false_iff_ne.2 fun h => h2 h.symm
        rw [List.contains_cons, List.contains_cons, h0', h2', Bool.false_or, Bool.false_or]

/-- The terminators that `dill_socks5_proxy_auth` adds end the two strings. -/
theorem terminate_eq (u p : List UInt8) (plen z : UInt8) (ver ulen : UInt8) (rest : List UInt8)
    {m n : ℕ} (hu : u.length = m) (hp : p.length = n) (k : CString → CString → Prog α) :
    (do
      let authr ← store ([ver, ulen] ++ u ++ [plen] ++ p ++ z :: rest) (2 + m) [0x00]
      let authr ← store authr (3 + m + n) [0x00]
      let uname ← stringAt authr 2
      let passwd ← stringAt authr (3 + m)
      k uname passwd) = k (CString.upto u) (CString.upto p) := by
  subst hu hp
  have hlen : 2 + u.length = ([ver, ulen] ++ u).length := by
    rw [List.length_append]
    rfl
  have hlen' : 3 + u.length = ([ver, ulen] ++ u ++ [0]).length := by
    rw [List.length_append, ← hlen, List.length_singleton]
    omega
  have hfirst : store ([ver, ulen] ++ u ++ [plen] ++ p ++ z :: rest) (2 + u.length) [0]
      = .ret ([ver, ulen] ++ u ++ [0] ++ (p ++ z :: rest)) := by
    rw [List.append_assoc, List.append_assoc, store_append hlen (by simp)]
    rfl
  have hsecond : store ([ver, ulen] ++ u ++ [0] ++ (p ++ z :: rest)) (3 + u.length + p.length) [0]
      = .ret ([ver, ulen] ++ u ++ [0] ++ (p ++ 0 :: rest)) := by
    rw [← List.append_assoc, store_append (by rw [List.length_append, hlen']) (by simp)]
    simp
  have hname : stringAt ([ver, ulen] ++ u ++ [0] ++ (p ++ 0 :: rest)) 2
      = .ret (CString.upto u) := by
    rw [List.append_assoc, List.append_assoc]
    exact stringAt_append rfl
  rw [hfirst, Dialogue.ret_bind, hsecond, Dialogue.ret_bind, hname, Dialogue.ret_bind,
    stringAt_append hlen', Dialogue.ret_bind]

/-- **The proxy receives a user name and a password.** -/
theorem proxyUserpass_eq :
    proxyUserpass = .send [0x05, 0x02] (recvTwo fun ver ulen =>
      if ver = 1 then
        .recv ulen.toNat fun u => recvByte fun plen => .recv plen.toNat fun p =>
          .ask (CString.upto u.1, CString.upto p.1) fun accepted =>
            if accepted then .send [0x01, 0x00] (.ret ()) else .send [0x01, 0xff] (.fail none)
      else .fail (some .EPROTO)) := by
  have hsend : ∀ x y : UInt8, sendFrom [x, y] 2 = .send [x, y] (.ret ()) := fun _ _ => rfl
  unfold proxyUserpass
  rw [hsend, Dialogue.send_bind, Dialogue.ret_bind]
  simp only
  rw [filled_nil, recvTwo_filled (by decide)]
  congr 2
  funext ver ulen
  have hulen := ulen.toNat_lt
  rw [byteAt_filled (x := ver) rfl, Dialogue.ret_bind, refuse_bne]
  split
  · rw [byteAt_filled (x := ulen) rfl, Dialogue.ret_bind,
      recvAt_filled (w := [ver, ulen]) (by rfl) (by simp only [List.length_cons, List.length_nil]; omega),
      Dialogue.recv_bind]
    congr 1
    funext u
    obtain ⟨u, hu⟩ := u
    have hlen : 2 + ulen.toNat = ([ver, ulen] ++ u).length := by
      rw [List.length_append, hu]
      rfl
    rw [Dialogue.ret_bind, recvAt_filled hlen (by omega), Dialogue.recv_bind]
    unfold recvByte
    congr 1
    funext bs
    obtain ⟨plen, rfl⟩ := one_byte bs
    have hplen := plen.toNat_lt
    have hbyte : ([ver, ulen] ++ u ++ [plen])[2 + ulen.toNat]? = some plen := by
      rw [hlen]
      exact List.getElem?_concat_length
    have hlen' : 3 + ulen.toNat = ([ver, ulen] ++ u ++ [plen]).length := by
      rw [List.length_append, ← hlen]
      simp only [List.length_singleton]
      omega
    rw [Dialogue.ret_bind, byteAt_filled hbyte, Dialogue.ret_bind,
      recvAt_filled hlen' (by omega), Dialogue.recv_bind]
    congr 1
    funext p
    obtain ⟨p, hp⟩ := p
    obtain ⟨rest, hfill⟩ : ∃ rest, filled ([ver, ulen] ++ u ++ [plen] ++ p) 514
        = [ver, ulen] ++ u ++ [plen] ++ p ++ 0 :: rest := by
      refine ⟨List.replicate (510 - ulen.toNat - plen.toNat) 0, ?_⟩
      unfold filled
      rw [← List.replicate_succ]
      congr 2
      simp only [List.length_append, List.length_cons, List.length_nil, hu, hp]
      omega
    rw [Dialogue.ret_bind, hfill]
    exact terminate_eq u p plen 0 ver ulen rest hu hp _
  · rfl

/-- **The proxy.** -/
theorem proxyAuth_eq (authFn : Bool) :
    proxyAuth authFn = recvTwo fun ver nmethods =>
      if ver = 5 then
        .recv nmethods.toNat fun ms =>
          if ms.1.contains 0 && !authFn then .send [0x05, 0x00] (.ret ())
          else if ms.1.contains 2 && authFn then proxyUserpass
          else .send [0x05, 0xff] (.fail none)
      else .fail (some .EPROTO) := by
  unfold proxyAuth
  simp only
  rw [filled_nil, recvTwo_filled (by decide)]
  congr 1
  funext ver nmethods
  have hn := nmethods.toNat_lt
  rw [byteAt_filled (x := ver) rfl, Dialogue.ret_bind, refuse_bne]
  split
  · rw [byteAt_filled (x := nmethods) rfl, Dialogue.ret_bind,
      recvAt_filled (w := [ver, nmethods]) (by rfl)
        (by simp only [List.length_cons, List.length_nil]; omega),
      Dialogue.recv_bind]
    congr 1
    funext ms
    obtain ⟨ms, hms⟩ := ms
    have hscan := @scanMethods_eq (filled ([ver, nmethods] ++ ms) 257) ms [ver, nmethods]
      (List.replicate (257 - ([ver, nmethods] ++ ms).length) 0) 0 (false, false)
      (by unfold filled; rw [List.append_assoc]) rfl
    rw [hms] at hscan
    rw [Dialogue.ret_bind, hscan, Dialogue.ret_bind, Bool.false_or, Bool.false_or]
    rfl
  · rfl

/-- **The client sends a user name and a password.** Only if both are of the maximal length, the
terminator of the password is outside of the buffer. -/
theorem clientUserpass_eq {u p : CString} (hu : u.bytes.length ≤ 255) (hp : p.bytes.length ≤ 255) :
    clientUserpass u p =
      if u.bytes.length + p.bytes.length < 510 then
        .send ([1, UInt8.ofNat u.bytes.length] ++ u.bytes ++ [UInt8.ofNat p.bytes.length] ++ p.bytes)
          (recvTwo fun ver status =>
            if ver = 1 then if status = 0 then .ret () else .fail (some EACCES)
            else .fail (some .EPROTO))
      else .crash := by
  have hulen : (UInt8.ofNat u.bytes.length).toNat = u.bytes.length := by
    rw [UInt8.toNat_ofNat']
    omega
  have hplen : (UInt8.ofNat p.bytes.length).toNat = p.bytes.length := by
    rw [UInt8.toNat_ofNat']
    omega
  unfold clientUserpass
  simp only
  have hend : 2 + u.bytes.length
      = ([] ++ [1] ++ [UInt8.ofNat u.bytes.length] ++ u.bytes).length := by
    rw [List.length_append]
    rfl
  have hend' : 3 + u.bytes.length = ([] ++ [1] ++ [UInt8.ofNat u.bytes.length] ++ u.bytes
      ++ [UInt8.ofNat p.bytes.length]).length := by
    rw [List.length_append, ← hend, List.length_singleton]
    omega
  rw [hulen, hplen, filled_nil, store_filled (w := []) (by rfl) (by decide), Dialogue.ret_bind,
    store_filled (w := [] ++ [1]) (by rfl) (by simp), Dialogue.ret_bind,
    strcpy_filled (w := [] ++ [1] ++ [UInt8.ofNat u.bytes.length]) (by rfl), if_pos
      (by simp only [List.length_append, List.length_cons, List.length_nil]; omega),
    Dialogue.ret_bind, store_filled hend (by rw [← hend, List.length_singleton]; omega),
    Dialogue.ret_bind, strcpy_filled hend', ← hend']
  by_cases h : u.bytes.length + p.bytes.length < 510
  · rw [if_pos (by omega), if_pos h, Dialogue.ret_bind,
      sendFrom_filled (by rw [List.length_append, ← hend']), Dialogue.send_bind, Dialogue.ret_bind]
    congr 1
    refine (recvTwo_filled (n := 2) (by decide) _).trans ?_
    congr 1
    funext ver status
    rw [byteAt_filled (x := ver) rfl, Dialogue.ret_bind, refuse_bne,
      byteAt_filled (x := status) rfl, Dialogue.ret_bind]
    split
    · unfold refuse
      by_cases hs : status = 0
      · subst hs
        rfl
      · rw [if_neg hs, bne_iff_ne.2 hs]
        rfl
    · rfl
  · rw [if_neg (by omega), if_neg h]
    rfl

/-- The methods that the client offers. -/
def greeting (u p : Option CString) : List UInt8 :=
  if u.isNone || p.isNone then [0x05, 0x01, 0x00] else [0x05, 0x02, 0x00, 0x02]

/-- What the client does with the method that the proxy has chosen. -/
def chosen (u p : Option CString) (method : UInt8) : Prog Unit :=
  if method = 0x00 then .ret ()
  else if method = 0x02 then
    match u, p with
    | some u, some p => clientUserpass u p
    | _, _ => .crash
  else if method = 0xff then .fail (some EACCES)
  else .crash

/-- The lengths of the user name and of the password are allowed. -/
def Accepted (u p : Option CString) : Prop :=
  (∀ v, u = some v → v.bytes.length ≤ 255) ∧ ∀ v, p = some v → v.bytes.length ≤ 255

/-- **The client.** -/
theorem clientAuth_eq {u p : Option CString} (h : Accepted u p) :
    clientAuth u p = .send (greeting u p) (recvTwo fun ver method =>
      if ver = 5 then chosen u p method else .fail (some .EPROTO)) := by
  have hany : ∀ v : Option CString, (∀ w, v = some w → w.bytes.length ≤ 255) →
      (v.any fun w => 255 < w.bytes.length) = false := by
    intro v hv
    cases v with
    | none => rfl
    | some w => exact decide_eq_false (Nat.not_lt.2 (hv w rfl))
  have hsecond : ∀ ver method : UInt8,
      (do
        refuse ((← byteAt (filled [ver, method] 2) 0) != 0x05) .EPROTO
        chosen u p (← byteAt (filled [ver, method] 2) 1))
      = if ver = 5 then chosen u p method else .fail (some .EPROTO) := by
    intro ver method
    rw [byteAt_filled (x := ver) rfl, Dialogue.ret_bind, refuse_bne,
      byteAt_filled (x := method) rfl, Dialogue.ret_bind]
  unfold clientAuth greeting
  rw [hany u h.1, hany p h.2]
  cases u.isNone || p.isNone
  · refine congrArg (Dialogue.send [0x05, 0x02, 0x00, 0x02]) ?_
    refine (recvTwo_filled (n := 2) (by decide) _).trans ?_
    congr 1
    funext ver method
    exact hsecond ver method
  · refine congrArg (Dialogue.send [0x05, 0x01, 0x00]) ?_
    refine (recvTwo_filled (n := 2) (by decide) _).trans ?_
    congr 1
    funext ver method
    exact hsecond ver method

/-! ## Soundness of the proxy -/

section Sound

variable {env : CString × CString → Bool} {fate : Option Errno} {s : Line}

/-- What a proxy that succeeds may have received. Without an `auth_fn` the client has offered to go
without authentication; with one, the client has sent a user name and a password, `auth_fn` has been
called with the two strings, and it has returned `true`. -/
def Authenticated (env : CString × CString → Bool) (authFn : Bool) (got : List UInt8)
    (asked : List ((CString × CString) × Bool)) : Prop :=
  ∃ (nmethods : UInt8) (ms : List UInt8), ms.length = nmethods.toNat ∧
    (authFn = false → got = [0x05, nmethods] ++ ms ∧ 0x00 ∈ ms ∧ asked = []) ∧
    (authFn = true → ∃ (ulen : UInt8) (u : List UInt8) (plen : UInt8) (p : List UInt8),
      u.length = ulen.toNat ∧ p.length = plen.toNat ∧
        (CString.upto u).bytes.length ≤ 255 ∧ (CString.upto p).bytes.length ≤ 255 ∧
        got = [0x05, nmethods] ++ ms ++ [0x01, ulen] ++ u ++ [plen] ++ p ∧
        asked = [((CString.upto u, CString.upto p), env (CString.upto u, CString.upto p))] ∧
        env (CString.upto u, CString.upto p) = true)

theorem upto_length {bs : List UInt8} {n : UInt8} (h : bs.length = n.toNat) :
    (CString.upto bs).bytes.length ≤ 255 := by
  have hle : (CString.upto bs).bytes.length ≤ bs.length := (List.takeWhile_prefix _).length_le
  have hn := n.toNat_lt
  omega

variable {Q' : α → List UInt8 → List ((CString × CString) × Bool) → Prop}
  {E : Option Errno → Prop} {got : List UInt8} {asked : List ((CString × CString) × Bool)}

theorem meets_two {k : UInt8 → UInt8 → Prog α}
    (h : ∀ x y, Meets env Q' E (k x y) (got ++ [x, y]) asked) :
    Meets env Q' E (recvTwo k) got asked := by
  refine meets_recv.2 fun bs => ?_
  obtain ⟨x, y, rfl⟩ := two_bytes bs
  exact h x y

theorem meets_byte {k : UInt8 → Prog α} (h : ∀ x, Meets env Q' E (k x) (got ++ [x]) asked) :
    Meets env Q' E (recvByte k) got asked := by
  refine meets_recv.2 fun bs => ?_
  obtain ⟨x, rfl⟩ := one_byte bs
  exact h x

theorem proxyAuth_meets (authFn : Bool) :
    Meets env (fun _ got asked => Authenticated env authFn got asked) (fun _ => True)
      (proxyAuth authFn) [] [] := by
  rw [proxyAuth_eq]
  refine meets_two fun ver nmethods => ?_
  split
  · rename_i hver
    subst hver
    refine meets_recv.2 fun ms => ?_
    split
    · rename_i hna
      rw [Bool.and_eq_true, Bool.not_eq_true'] at hna
      obtain ⟨h0, rfl⟩ := hna
      exact meets_send.2 (meets_ret.2
        ⟨nmethods, ms.1, ms.2, fun _ => ⟨rfl, by simpa using h0, rfl⟩, fun h => by cases h⟩)
    · split
      · rename_i hup
        rw [Bool.and_eq_true] at hup
        obtain ⟨h2, rfl⟩ := hup
        rw [proxyUserpass_eq]
        refine meets_send.2 (meets_two fun ver ulen => ?_)
        split
        · rename_i hver
          subst hver
          refine meets_recv.2 fun u => meets_byte fun plen => meets_recv.2 fun p => meets_ask.2 ?_
          split
          · rename_i haccepted
            exact meets_send.2 (meets_ret.2 ⟨nmethods, ms.1, ms.2, fun h => (by cases h), fun _ =>
              ⟨ulen, u.1, plen, p.1, u.2, p.2, upto_length u.2, upto_length p.2, by simp,
                by rw [haccepted]; rfl, haccepted⟩⟩)
          · exact meets_send.2 (meets_fail.2 trivial)
        · exact meets_fail.2 trivial
      · exact meets_send.2 (meets_fail.2 trivial)
  · exact meets_fail.2 trivial

/-- **The proxy's authentication is sound.** Whatever the client sends and however the connection
breaks off, no index is out of range, and the proxy succeeds only if it may. -/
theorem proxyAuth_sound (authFn : Bool) :
    onStream (line fate) env (proxyAuth authFn) (s, []) ≠ .error .fault ∧
      ∀ s' asked, onStream (line fate) env (proxyAuth authFn) (s, []) = .ok (.ok (), s', asked) →
        ∃ got, s.incoming = got ++ s'.incoming ∧ Authenticated env authFn got asked := by
  have hmeets := @proxyAuth_meets env authFn
  refine ⟨(onStream_meets (fun _ => True.intro) hmeets).1, fun s' asked h => ?_⟩
  exact ((onStream_meets (fun _ => True.intro) hmeets).2 _ s' asked h).1 () rfl

end Sound

/-! ## Agreement -/

section Agreement

variable {env : CString × CString → Bool} {rest : List UInt8} {asked : List ((CString × CString) × Bool)}

theorem upto_bytes (u : CString) : CString.upto u.bytes = u := by
  obtain ⟨bs, h⟩ := u
  unfold CString.upto
  congr 1
  refine List.takeWhile_eq_self_iff.2 fun x hx => ?_
  rw [bne_iff_ne]
  rintro rfl
  exact h hx

theorem two_left {k : UInt8 → UInt8 → Prog α} {x y : UInt8} {r : Side UInt8 _ _ _ Unit}
    {F : Talk UInt8 _ _ _ α Unit} (h : Talk.Reaches env ⟨⟨k x y, rest, asked⟩, r⟩ F) :
    Talk.Reaches env ⟨⟨recvTwo k, x :: y :: rest, asked⟩, r⟩ F :=
  Talk.recv_left ⟨[x, y], rfl⟩ h

theorem two_right {k : UInt8 → UInt8 → Prog α} {x y : UInt8} {l : Side UInt8 _ _ _ Unit}
    {F : Talk UInt8 _ _ _ Unit α} (h : Talk.Reaches env ⟨l, ⟨k x y, rest, asked⟩⟩ F) :
    Talk.Reaches env ⟨l, ⟨recvTwo k, x :: y :: rest, asked⟩⟩ F :=
  Talk.recv_right ⟨[x, y], rfl⟩ h

/-- With these credentials and this `auth_fn`, the client is let in. -/
def letIn (env : CString × CString → Bool) (authFn : Bool) (u p : Option CString) : Bool :=
  !authFn ||
    match u, p with
    | some u, some p => env (u, p)
    | _, _ => false

/-- The calls of `auth_fn`. -/
def calls (env : CString × CString → Bool) (authFn : Bool) (u p : Option CString) :
    List ((CString × CString) × Bool) :=
  match u, p with
  | some u, some p => if authFn then [((u, p), env (u, p))] else []
  | _, _ => []

/-- How the conversation of the client and the proxy ends. -/
def outcome (env : CString × CString → Bool) (authFn : Bool) (u p : Option CString) :
    Talk UInt8 (CString × CString) Bool (Option Errno) Unit Unit :=
  if letIn env authFn u p then ⟨⟨.ret (), [], []⟩, ⟨.ret (), [], calls env authFn u p⟩⟩
  else ⟨⟨.fail (some EACCES), [], []⟩, ⟨.fail none, [], calls env authFn u p⟩⟩

/-- Not both are of the maximal length. -/
def Fitting (u p : Option CString) : Prop :=
  ∀ v w, u = some v → p = some w → ¬ (v.bytes.length = 255 ∧ w.bytes.length = 255)

theorem userpass_run {u p : CString} (hu : u.bytes.length ≤ 255) (hp : p.bytes.length ≤ 255)
    (hfit : ¬ (u.bytes.length = 255 ∧ p.bytes.length = 255)) :
    Talk.Reaches env ⟨⟨recvTwo fun ver method =>
        if ver = 5 then chosen (some u) (some p) method else .fail (some .EPROTO), [], []⟩,
        ⟨proxyUserpass, [], []⟩⟩
      (outcome env true (some u) (some p)) := by
  have hulen : (UInt8.ofNat u.bytes.length).toNat = u.bytes.length := by
    rw [UInt8.toNat_ofNat']
    omega
  have hplen : (UInt8.ofNat p.bytes.length).toNat = p.bytes.length := by
    rw [UInt8.toNat_ofNat']
    omega
  rw [proxyUserpass_eq]
  refine Talk.send_right (two_left ?_)
  have hchosen : (if (5 : UInt8) = 5 then chosen (some u) (some p) 2 else .fail (some .EPROTO))
      = clientUserpass u p := rfl
  have hrequest : [] ++ ([1, UInt8.ofNat u.bytes.length] ++ u.bytes ++ [UInt8.ofNat p.bytes.length]
        ++ p.bytes)
      = 1 :: UInt8.ofNat u.bytes.length :: (u.bytes ++ (UInt8.ofNat p.bytes.length ::
          (p.bytes ++ []))) := by simp
  rw [hchosen, clientUserpass_eq hu hp, if_pos (by omega)]
  refine Talk.send_left ?_
  rw [hrequest]
  refine two_right ?_
  rw [if_pos rfl]
  refine Talk.recv_right ⟨u.bytes, hulen.symm⟩ ?_
  refine Talk.recv_right ⟨[UInt8.ofNat p.bytes.length], rfl⟩ ?_
  refine Talk.recv_right ⟨p.bytes, hplen.symm⟩ (Talk.ask_right ?_)
  have houtcome : outcome env true (some u) (some p)
      = if env (u, p) then ⟨⟨.ret (), [], []⟩, ⟨.ret (), [], [((u, p), env (u, p))]⟩⟩
        else ⟨⟨.fail (some EACCES), [], []⟩, ⟨.fail none, [], [((u, p), env (u, p))]⟩⟩ := rfl
  simp only [upto_bytes]
  rw [houtcome]
  cases env (u, p)
  · exact Talk.send_right (two_left Talk.reaches_refl)
  · exact Talk.send_right (two_left Talk.reaches_refl)

theorem auth_run {u p : Option CString} (h : Accepted u p) (hfit : Fitting u p) (authFn : Bool) :
    Talk.Reaches env (Talk.start (clientAuth u p) (proxyAuth authFn)) (outcome env authFn u p) := by
  rw [clientAuth_eq h, proxyAuth_eq]
  cases u with
  | none =>
    refine Talk.send_left (two_right (Talk.recv_right ⟨[0x00], rfl⟩ ?_))
    cases authFn
    · exact Talk.send_right (two_left Talk.reaches_refl)
    · exact Talk.send_right (two_left Talk.reaches_refl)
  | some u =>
    cases p with
    | none =>
      refine Talk.send_left (two_right (Talk.recv_right ⟨[0x00], rfl⟩ ?_))
      cases authFn
      · exact Talk.send_right (two_left Talk.reaches_refl)
      · exact Talk.send_right (two_left Talk.reaches_refl)
    | some p =>
      refine Talk.send_left (two_right (Talk.recv_right ⟨[0x00, 0x02], rfl⟩ ?_))
      cases authFn
      · exact Talk.send_right (two_left Talk.reaches_refl)
      · exact userpass_run (h.1 u rfl) (h.2 p rfl) (hfit u p rfl rfl)

/-- **Agreement.** In whatever order the client and the proxy take their steps, both return. Either
both succeed or both fail, as the credentials and `auth_fn` say; `auth_fn` gets the credentials of the
client, and nothing that was sent is left over. -/
theorem auth_agreement {u p : Option CString} (h : Accepted u p) (hfit : Fitting u p)
    (authFn : Bool) :
    ∃ F, Talk.Ends env (Talk.start (clientAuth u p) (proxyAuth authFn)) F ∧
      (F.left.prog = .ret () ∨ ∃ e, F.left.prog = .fail (some e)) ∧
      (F.right.prog = .ret () ∨ ∃ e, F.right.prog = .fail e) ∧
      (F.left.prog = .ret () ↔ F.right.prog = .ret ()) ∧
      (F.right.prog = .ret () ↔ letIn env authFn u p = true) ∧
      F.right.asked = calls env authFn u p ∧
      F.left.inbox = [] ∧ F.right.inbox = [] := by
  refine ⟨outcome env authFn u p, ?_⟩
  have hrun := @auth_run env u p h hfit authFn
  unfold outcome at hrun ⊢
  cases hlet : letIn env authFn u p with
  | true =>
    rw [hlet, if_pos rfl] at hrun
    rw [if_pos rfl]
    exact ⟨Talk.ends_of_reaches hrun trivial trivial, .inl rfl, .inl rfl, Iff.rfl,
      ⟨fun _ => rfl, fun _ => rfl⟩, rfl, rfl, rfl⟩
  | false =>
    rw [hlet, if_neg Bool.false_ne_true] at hrun
    rw [if_neg Bool.false_ne_true]
    exact ⟨Talk.ends_of_reaches hrun trivial trivial, .inr ⟨_, rfl⟩, .inr ⟨_, rfl⟩,
      ⟨fun h => (by cases h), fun h => (by cases h)⟩,
      ⟨fun h => (by cases h), fun h => (by cases h)⟩, rfl, rfl, rfl⟩

/-- The credentials "a" and "b", and an `auth_fn` that accepts nothing else. -/
theorem auth_agreement_example :
    ∃ F, Talk.Ends (fun q => decide (q.1.bytes = [97] ∧ q.2.bytes = [98]))
        (Talk.start (clientAuth (some ⟨[97], by decide⟩) (some ⟨[98], by decide⟩))
          (proxyAuth true)) F ∧ F.left.prog = .ret () ∧ F.right.prog = .ret () := by
  obtain ⟨F, hends, -, -, hiff, hlet, -⟩ := @auth_agreement
    (fun q => decide (q.1.bytes = [97] ∧ q.2.bytes = [98]))
    (some ⟨[97], by decide⟩) (some ⟨[98], by decide⟩)
    ⟨fun v hv => by cases hv; decide, fun v hv => by cases hv; decide⟩
    (fun v w hv hw => by cases hv; cases hw; decide) true
  exact ⟨F, hends, hiff.2 (hlet.2 rfl), hlet.2 rfl⟩

end Agreement

end Libdill.Socks5
