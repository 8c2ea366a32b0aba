import Libdill.Socks5.Command

/-!
# SOCKS5: the client and any proxy

* `handleConnectionResponse_copes`, `exchange_copes`: the connect exchange copes with every proxy.
* `auth_robust_iff`: which answers of a proxy the authentication of the client does not cope with.
-/

namespace Libdill.Socks5

open Foundations Libdill.Sock

variable {α : Type} {fate : Option Errno} {env : CString × CString → Bool} {s : Line}
  {asked : List ((CString × CString) × Bool)} {got : List UInt8}

/-- The call returns 0, or -1 with `errno` set; it blocks only if the proxy is silent while the
connection stands and there is no deadline. -/
def Robust (fate : Option Errno) :
    Except Stop (Except (Option Errno) Unit × Line × List ((CString × CString) × Bool)) → Prop
  | .ok (.ok _, _) => True
  | .ok (.error e, _) => e ≠ none
  | .error .fault => False
  | .error .waits => fate = none

/-- Whatever is received, the program ends without a crash, and every failure sets `errno`. -/
abbrev Copes (env : CString × CString → Bool) (d : Prog Unit) (got : List UInt8)
    (asked : List ((CString × CString) × Bool)) : Prop :=
  Meets env (fun _ _ _ => True) (fun e => e ≠ none) d got asked

theorem onStream_stop {d : Prog α} {r : Stop} (h : onStream (line fate) env d (s, asked) = .error r)
    (hr : r ≠ .fault) : fate = none := by
  induction d generalizing s asked with
  | ret a => cases h
  | fail e => cases h
  | crash =>
    cases h
    exact absurd rfl hr
  | send bs next ih =>
    rw [onStream_send] at h
    cases hsent : s.sent.1 with
    | none =>
      rw [hsent] at h
      exact ih h
    | some e =>
      rw [hsent] at h
      cases h
  | recv n k ih =>
    by_cases hle : n ≤ s.incoming.length
    · rw [onStream_recv hle] at h
      exact ih _ h
    · rw [onStream_recv_short hle] at h
      cases fate with
      | none => rfl
      | some e => cases h
  | ask q k ih => exact ih _ h

theorem robust_of_copes {d : Prog Unit} (h : Copes env d got asked) :
    Robust fate (onStream (line fate) env d (s, asked)) := by
  have hne : ∀ e : Errno, some e ≠ none := fun e he => by cases he
  cases hrun : onStream (line fate) env d (s, asked) with
  | error r =>
    cases r with
    | waits => exact onStream_stop hrun (by decide)
    | fault => exact absurd hrun (onStream_meets hne h).1
  | ok x =>
    obtain ⟨o, s', asked'⟩ := x
    cases o with
    | ok a => exact trivial
    | error e => exact ((onStream_meets hne h).2 _ s' asked' hrun).2 e rfl

/-! ## The connect exchange -/

theorem four_bytes (bs : {bs : List UInt8 // bs.length = 4}) :
    ∃ x y z w, bs = ⟨[x, y, z, w], rfl⟩ := by
  obtain ⟨bs, h⟩ := bs
  match bs, h with
  | [x, y, z, w], _ => exact ⟨x, y, z, w, rfl⟩

/-- **Any reply.** -/
theorem handleConnectionResponse_copes : Copes env handleConnectionResponse got asked := by
  have hne : ∀ e : Errno, some e ≠ none := fun e he => by cases he
  have hlast : ∀ (rep : UInt8) (got : List UInt8),
      Copes env (if rep = 0x00 then .ret () else .fail (some (replyErrno rep))) got asked := by
    intro rep got
    split
    · exact meets_ret.2 trivial
    · exact meets_fail.2 (hne _)
  unfold handleConnectionResponse recvCommandRequestResponse
  rw [filled_nil, recvAt_filled (w := []) (by rfl) (by decide)]
  simp only [Dialogue.recv_bind, Dialogue.ret_bind, Dialogue.bind_assoc]
  refine meets_recv.2 fun hd => ?_
  obtain ⟨ver, rep, rsv, atyp, rfl⟩ := four_bytes hd
  rw [byteAt_filled (x := ver) rfl, Dialogue.ret_bind, refuse_bne]
  split
  · rw [byteAt_filled (x := rsv) rfl, Dialogue.ret_bind, refuse_bne]
    split
    · rw [byteAt_filled (x := atyp) rfl, Dialogue.ret_bind]
      split
      · rw [recvAt_filled (w := [] ++ [ver, rep, rsv, atyp]) (by rfl) (by simp),
          Dialogue.recv_bind]
        refine meets_recv.2 fun bs => ?_
        rw [Dialogue.ret_bind, byteAt_filled (x := rep) rfl, Dialogue.ret_bind]
        exact hlast rep _
      · split
        · rw [recvAt_filled (w := [] ++ [ver, rep, rsv, atyp]) (by rfl) (by simp),
            Dialogue.recv_bind]
          refine meets_recv.2 fun bs => ?_
          rw [Dialogue.ret_bind, byteAt_filled (x := rep) rfl, Dialogue.ret_bind]
          exact hlast rep _
        · split
          · rw [recvAt_filled (w := [] ++ [ver, rep, rsv, atyp]) (by rfl) (by simp),
              Dialogue.recv_bind, Dialogue.recv_bind]
            refine meets_recv.2 fun bs => ?_
            obtain ⟨len, rfl⟩ := one_byte bs
            have hlen := len.toNat_lt
            rw [Dialogue.ret_bind, byteAt_filled (x := len) rfl, Dialogue.ret_bind,
              recvAt_filled (w := [] ++ [ver, rep, rsv, atyp] ++ [len]) (by rfl)
                (by simp only [List.length_append, List.length_cons, List.length_nil]; omega),
              Dialogue.recv_bind]
            refine meets_recv.2 fun bs => ?_
            rw [Dialogue.ret_bind, byteAt_filled (x := rep) rfl, Dialogue.ret_bind]
            exact hlast rep _
          · exact meets_fail.2 (hne _)
    · exact meets_fail.2 (hne _)
  · exact meets_fail.2 (hne _)

/-- A request, if the arguments are valid. -/
inductive Exchange : Prog Unit → Prop
  | invalid (e : Errno) : Exchange (.fail (some e))
  | request (bs : List UInt8) : Exchange (.send bs handleConnectionResponse)

theorem exchange_copes {d : Prog Unit} (h : Exchange d) : Copes env d got asked := by
  cases h with
  | invalid e => exact meets_fail.2 fun he => by cases he
  | request bs => exact meets_send.2 handleConnectionResponse_copes

theorem clientConnect_exchange (addr : Option IpAddr) : Exchange (clientConnect addr) := by
  cases addr with
  | none => exact .invalid .EINVAL
  | some addr =>
    rw [clientConnect_eq]
    exact .request _

theorem clientConnectbyname_exchange (pton : Pton) (hostname : Option CString) (port : ℤ) :
    Exchange (clientConnectbyname pton hostname port) := by
  cases hostname with
  | none => exact .invalid .EINVAL
  | some hostname =>
    by_cases hname : hostname.bytes.length ≤ 255
    · by_cases hport : 1 ≤ port ∧ port ≤ 65535
      · obtain ⟨w, hw⟩ := putName_eq pton hname port.toNat
        rw [clientConnectbyname_of_put hname hport.1 hport.2 hw]
        exact .request w
      · have hlong : (255 < hostname.bytes.length : Bool) = false := by simpa using hname
        have hrange : (port ≤ 0 || 65535 < port : Bool) = true := by simp; omega
        unfold clientConnectbyname refuse
        simp only
        rw [hlong, hrange, Dialogue.refuse_false, Dialogue.ret_bind, Dialogue.refuse_true,
          Dialogue.fail_bind]
        exact .invalid .EINVAL
    · have hlong : (255 < hostname.bytes.length : Bool) = true := by simpa using hname
      unfold clientConnectbyname refuse
      simp only
      rw [hlong, Dialogue.refuse_true, Dialogue.fail_bind]
      exact .invalid .EINVAL

/-! ## Authentication -/

theorem clientAuth_refuses {u p : Option CString} (h : ¬ Accepted u p) :
    clientAuth u p = .fail (some .EINVAL) := by
  have hany : ∀ v : Option CString, (v.any fun w => 255 < w.bytes.length) = false →
      ∀ w, v = some w → w.bytes.length ≤ 255 := by
    rintro v hv w rfl
    exact Nat.not_lt.1 (of_decide_eq_false hv)
  unfold clientAuth refuse
  cases hu : u.any fun u => 255 < u.bytes.length with
  | true => rw [Dialogue.refuse_true, Dialogue.fail_bind]
  | false =>
    cases hp : p.any fun p => 255 < p.bytes.length with
    | true => rw [Dialogue.refuse_false, Dialogue.ret_bind, Dialogue.refuse_true, Dialogue.fail_bind]
    | false => exact absurd ⟨hany u hu, hany p hp⟩ h

/-- The client has no answer to this choice of the proxy: the method is unknown, or it is the one with
a user name and a password, and they are missing or take all 513 bytes. -/
def Helpless (u p : Option CString) (method : UInt8) : Prop :=
  (method ≠ 0x00 ∧ method ≠ 0x02 ∧ method ≠ 0xff) ∨
  (method = 0x02 ∧ (u = none ∨ p = none)) ∨
  (method = 0x02 ∧ ∃ v w, u = some v ∧ p = some w ∧ v.bytes.length = 255 ∧ w.bytes.length = 255)

theorem userpass_crash {u p : CString} (hu : u.bytes.length = 255) (hp : p.bytes.length = 255) :
    clientUserpass u p = .crash := by
  rw [clientUserpass_eq (Nat.le_of_eq hu) (Nat.le_of_eq hp), hu, hp]
  rfl

theorem chosen_crash {u p : Option CString} {method : UInt8} (h : Helpless u p method) :
    chosen u p method = .crash := by
  unfold chosen
  rcases h with ⟨h0, h2, hff⟩ | ⟨rfl, hnone⟩ | ⟨rfl, v, w, rfl, rfl, hv, hw⟩
  · rw [if_neg h0, if_neg h2, if_neg hff]
  · rw [if_neg (by decide), if_pos rfl]
    rcases hnone with rfl | rfl
    · rfl
    · cases u <;> rfl
  · rw [if_neg (by decide), if_pos rfl]
    exact userpass_crash hv hw

theorem chosen_copes {u p : Option CString} {method : UInt8} (hacc : Accepted u p)
    (h : ¬ Helpless u p method) {d : Prog Unit} (hd : ∀ got asked, Copes env d got asked) :
    Copes env (chosen u p method >>= fun _ => d) got asked := by
  have hne : ∀ e : Errno, some e ≠ none := fun e he => by cases he
  unfold chosen
  split
  · exact hd got asked
  · rename_i h0
    split
    · rename_i h2
      subst h2
      cases u with
      | none => exact absurd (.inr (.inl ⟨rfl, .inl rfl⟩)) h
      | some v =>
        cases p with
        | none => exact absurd (.inr (.inl ⟨rfl, .inr rfl⟩)) h
        | some w =>
          have hv := hacc.1 v rfl
          have hw := hacc.2 w rfl
          have hfit : v.bytes.length + w.bytes.length < 510 := by
            by_contra hlong
            exact h (.inr (.inr ⟨rfl, v, w, rfl, rfl, by omega, by omega⟩))
          simp only
          rw [clientUserpass_eq hv hw, if_pos hfit, Dialogue.send_bind, recvTwo_bind]
          refine meets_send.2 (meets_two fun ver status => ?_)
          split
          · split
            · exact hd _ _
            · exact meets_fail.2 (hne _)
          · exact meets_fail.2 (hne _)
    · rename_i h2
      split
      · exact meets_fail.2 (hne _)
      · rename_i hff
        exact absurd (.inl ⟨h0, h2, hff⟩) h

theorem onStream_two {x y : UInt8} {rest : List UInt8} (h : s.incoming = x :: y :: rest)
    (k : UInt8 → UInt8 → Prog α) :
    onStream (line fate) env (recvTwo k) (s, asked)
      = onStream (line fate) env (k x y) ({ s with incoming := rest }, asked) := by
  obtain ⟨incoming, sends⟩ := s
  simp only at h
  subst h
  exact onStream_recv_append ⟨[x, y], rfl⟩

theorem robust_short {n : ℕ} {k : {bs : List UInt8 // bs.length = n} → Prog Unit}
    (h : s.incoming.length < n) : Robust fate (onStream (line fate) env (.recv n k) (s, asked)) := by
  rw [onStream_recv_short (Nat.not_le.2 h)]
  cases fate with
  | none => exact rfl
  | some e => exact fun he => by cases he

/-- The proxy answers the greeting with a choice to which the client has no answer. -/
def Fatal (u p : Option CString) (s : Line) : Prop :=
  Accepted u p ∧ s.sent.1 = none ∧
    ∃ method rest, s.incoming = 0x05 :: method :: rest ∧ Helpless u p method

/-- The client and what it does when it is let in. -/
theorem auth_robust_iff {u p : Option CString} {d : Prog Unit}
    (hd : ∀ got asked, Copes env d got asked) :
    Robust fate (onStream (line fate) env (clientAuth u p >>= fun _ => d) (s, asked)) ↔ ¬ Fatal u p s := by
  by_cases hacc : Accepted u p
  · rw [clientAuth_eq hacc, Dialogue.send_bind, recvTwo_bind, onStream_send]
    cases hsent : s.sent.1 with
    | some e =>
      refine ⟨fun _ hfatal => ?_, fun _ he => by cases he⟩
      rw [hfatal.2.1] at hsent
      cases hsent
    | none =>
      rw [Option.elim_none]
      have hin := @sent_incoming s
      cases hbytes : s.incoming with
      | nil =>
        refine ⟨fun _ ⟨_, _, _, _, h, _⟩ => ?_, fun _ => robust_short ?_⟩
        · rw [hbytes] at h
          cases h
        · rw [hin, hbytes]
          decide
      | cons ver bytes =>
        cases bytes with
        | nil =>
          refine ⟨fun _ ⟨_, _, _, _, h, _⟩ => ?_, fun _ => robust_short ?_⟩
          · rw [hbytes] at h
            cases h
          · rw [hin, hbytes, List.length_singleton]
            decide
        | cons method rest =>
          rw [onStream_two (hin.trans hbytes)]
          by_cases hver : ver = 5
          · subst hver
            rw [if_pos rfl]
            by_cases hhelp : Helpless u p method
            · rw [chosen_crash hhelp, Dialogue.crash_bind]
              exact ⟨fun h => h.elim, fun h => h ⟨hacc, hsent, method, rest, hbytes, hhelp⟩⟩
            · refine ⟨fun _ ⟨_, _, _, _, h, hm⟩ => ?_, fun _ => ?_⟩
              · rw [hbytes] at h
                cases h
                exact hhelp hm
              · exact robust_of_copes (@chosen_copes env asked [] u p method hacc hhelp d hd)
          · rw [if_neg hver, Dialogue.fail_bind]
            refine ⟨fun _ ⟨_, _, _, _, h, _⟩ => ?_, fun _ he => by cases he⟩
            rw [hbytes] at h
            cases h
            exact hver rfl
  · rw [clientAuth_refuses hacc, Dialogue.fail_bind]
    exact ⟨fun _ hfatal => hacc hfatal.1, fun _ he => by cases he⟩

/-- **The client against any proxy.** Both ways to connect end as they should, except if the proxy
makes a choice to which the client has no answer. -/
theorem connect_robust_iff (u p : Option CString) (addr : Option IpAddr) (pton : Pton)
    (hostname : Option CString) (port : ℤ) (fate : Option Errno) (s : Line) :
    (Robust fate (onStream (line fate) env (socksConnect u p addr) (s, asked)) ↔ ¬ Fatal u p s) ∧
    (Robust fate (onStream (line fate) env (socksConnectbyname pton u p hostname port) (s, asked))
      ↔ ¬ Fatal u p s) :=
  ⟨auth_robust_iff fun _ _ => exchange_copes (clientConnect_exchange addr),
    auth_robust_iff fun _ _ => exchange_copes (clientConnectbyname_exchange pton hostname port)⟩

/-- A string of `n` letters. -/
def letters (n : ℕ) : CString :=
  ⟨List.replicate n 97, fun h => absurd (List.eq_of_mem_replicate h) (by decide)⟩

theorem length_letters (n : ℕ) : (letters n).bytes.length = n := List.length_replicate

theorem not_robust_longest {v w : CString} (hv : v.bytes.length = 255) (hw : w.bytes.length = 255)
    {d : Prog Unit} (hd : Exchange d) :
    ¬ Robust fate (onStream (line fate) env (clientAuth (some v) (some w) >>= fun _ => d)
      (⟨[0x05, 0x02], []⟩, asked)) := by
  have haccepted : Accepted (some v) (some w) :=
    ⟨fun _ h => Option.some.inj h ▸ Nat.le_of_eq hv, fun _ h => Option.some.inj h ▸ Nat.le_of_eq hw⟩
  intro h
  exact (auth_robust_iff fun _ _ => exchange_copes hd).1 h
    ⟨haccepted, rfl, 0x02, [], rfl, .inr (.inr ⟨rfl, v, w, rfl, rfl, hv, hw⟩)⟩

/-- The proxy chooses a method that the client has not offered; and it chooses the one with a user
name and a password, which are as long as they can be. -/
theorem connect_crashes :
    ¬ Robust none (onStream (line none) (fun _ => false)
      (socksConnect none none (some (.inet ⟨[127, 0, 0, 1], rfl⟩ 80))) (⟨[0x05, 0x07], []⟩, [])) ∧
    ¬ Robust none (onStream (line none) (fun _ => false)
      (socksConnect (some (letters 255)) (some (letters 255))
        (some (.inet ⟨[127, 0, 0, 1], rfl⟩ 80))) (⟨[0x05, 0x02], []⟩, [])) := by
  have hnone : Accepted none none := ⟨fun v hv => (by cases hv), fun v hv => (by cases hv)⟩
  have hexchange := clientConnect_exchange (some (.inet ⟨[127, 0, 0, 1], rfl⟩ 80))
  constructor
  · exact fun h => (auth_robust_iff fun _ _ => exchange_copes hexchange).1 h
      ⟨hnone, rfl, 0x07, [], rfl, .inl (by decide)⟩
  · exact not_robust_longest (length_letters 255) (length_letters 255) hexchange

end Libdill.Socks5
