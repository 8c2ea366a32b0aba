import Libdill.Socks5.Command

/-!
# SOCKS5: a session

A client that calls `dill_socks5_client_connect` or `dill_socks5_client_connectbyname`, and a proxy that
calls the functions of its side one after the other: it authenticates the client, receives the command
and sends a reply. The two take their steps in any order.

* `runs_right`, `runs_left`: what a side does alone on what has been sent to it.
* `session_run`: one order of the steps.
* `session_agreement`: in every order the session ends, and how it ends.
-/

namespace Libdill.Socks5

open Foundations Libdill.Sock

variable {α γ : Type} {env : CString × CString → Bool} {asked asked' : List ((CString × CString) × Bool)}
  {inbox rest : List UInt8}

/-! ## One side alone -/

/-- The end of a program. -/
def endOf (o : Except (Option Errno) α) : Prog α :=
  match o with
  | .ok a => .ret a
  | .error e => .fail e

/-- A program that sends nothing. On a line where sending fails it leaves the sends alone. -/
def Quiet (env : CString × CString → Bool) (d : Prog α) (inbox : List UInt8)
    (asked : List ((CString × CString) × Bool)) (o : Except (Option Errno) α) (rest : List UInt8)
    (asked' : List ((CString × CString) × Bool)) : Prop :=
  onStream (line none) env d (⟨inbox, [some EIO]⟩, asked) = .ok (o, ⟨rest, [some EIO]⟩, asked')

variable {d : Prog α} {o : Except (Option Errno) α}

theorem runs_right {l : Side UInt8 (CString × CString) Bool (Option Errno) γ}
    (h : Quiet env d inbox asked o rest asked') :
    Talk.Reaches env ⟨l, ⟨d, inbox, asked⟩⟩ ⟨l, ⟨endOf o, rest, asked'⟩⟩ := by
  unfold Quiet at h
  induction d generalizing inbox asked with
  | ret a =>
    cases h
    exact Talk.reaches_refl
  | fail e =>
    cases h
    exact Talk.reaches_refl
  | crash => cases h
  | send bs next ih => cases h
  | recv n k ih =>
    by_cases hn : n ≤ inbox.length
    · rw [onStream_recv hn] at h
      refine Talk.reaches_right (Side.step_recv hn _ _) ?_
      rw [Talk.get_nil]
      exact ih _ h
    · rw [onStream_recv_short hn] at h
      cases h
  | ask q k ih => exact Talk.ask_right (ih _ h)

theorem runs_left {r : Side UInt8 (CString × CString) Bool (Option Errno) γ}
    (h : Quiet env d inbox asked o rest asked') :
    Talk.Reaches env ⟨⟨d, inbox, asked⟩, r⟩ ⟨⟨endOf o, rest, asked'⟩, r⟩ := by
  unfold Quiet at h
  induction d generalizing inbox asked with
  | ret a =>
    cases h
    exact Talk.reaches_refl
  | fail e =>
    cases h
    exact Talk.reaches_refl
  | crash => cases h
  | send bs next ih => cases h
  | recv n k ih =>
    by_cases hn : n ≤ inbox.length
    · rw [onStream_recv hn] at h
      refine Talk.reaches_left (Side.step_recv hn _ _) ?_
      rw [Talk.get_nil]
      exact ih _ h
    · rw [onStream_recv_short hn] at h
      cases h
  | ask q k ih =>
    refine Talk.reaches_left rfl ?_
    rw [Talk.get_nil]
    exact ih _ h

/-! ## The session -/

/-- A proxy: the functions of its side, with the reply that it gives to a command. -/
def serve (authFn : Bool) (recvcommand : Prog γ) (answer : γ → ℤ × IpAddr) : Prog γ := do
  proxyAuth authFn
  let command ← recvcommand
  proxySendreply (answer command).1 (answer command).2
  .ret command

/-- How a session ends. A client that is let in learns what the reply says, and the proxy has its
command; the other one has not sent any. -/
def sessionEnd (env : CString × CString → Bool) (authFn : Bool) (u p : Option CString) (command : γ)
    (reply : ℤ) : Talk UInt8 (CString × CString) Bool (Option Errno) Unit γ :=
  if letIn env authFn u p then
    ⟨⟨if reply = 0 then .ret () else .fail (some (replyErrno (UInt8.ofNat reply.toNat))), [], []⟩,
      ⟨.ret command, [], calls env authFn u p⟩⟩
  else ⟨⟨.fail (some EACCES), [], []⟩, ⟨.fail none, [], calls env authFn u p⟩⟩

/-- Replies that can be sent. -/
def Replies (answer : γ → ℤ × IpAddr) : Prop := ∀ command, 0 ≤ (answer command).1 ∧ (answer command).1 ≤ 8

variable {u p : Option CString} {bs : List UInt8} {recvcommand : Prog γ} {command : γ}
  {answer : γ → ℤ × IpAddr}

/-- The reply is received. -/
theorem reply_received {reply : ℤ} (h0 : 0 ≤ reply) (h8 : reply ≤ 8) (addr : IpAddr) :
    Quiet env handleConnectionResponse (frame (UInt8.ofNat reply.toNat) addr) asked
      (if reply = 0 then .ok () else .error (some (replyErrno (UInt8.ofNat reply.toNat)))) [] asked := by
  have hrun := @handleConnectionResponse_framed none env asked [] [some EIO] _ _
    (framed_frame (UInt8.ofNat reply.toNat) addr)
  rw [List.append_nil] at hrun
  have hzero : UInt8.ofNat reply.toNat = 0 ↔ reply = 0 := by
    rw [← UInt8.toNat_inj, UInt8.toNat_ofNat']
    change reply.toNat % 256 = 0 ↔ reply = 0
    omega
  unfold Quiet
  rw [hrun]
  simp only [hzero]

/-- **One order of the steps.** -/
theorem session_run (h : Accepted u p) (hfit : Fitting u p) (authFn : Bool) (hanswer : Replies answer)
    (hrecv : ∀ asked, Quiet env recvcommand bs asked (.ok command) [] asked) :
    Talk.Reaches env
      (Talk.start (clientAuth u p >>= fun _ => .send bs handleConnectionResponse)
        (serve authFn recvcommand answer))
      (sessionEnd env authFn u p command (answer command).1) := by
  have hauth := @auth_run env u p h hfit authFn
  refine Talk.reaches_trans (Talk.andThen_right (fun _ => do
      let command ← recvcommand
      proxySendreply (answer command).1 (answer command).2
      .ret command)
    (Talk.andThen_left (fun _ => .send bs handleConnectionResponse) hauth)) ?_
  unfold outcome sessionEnd
  cases letIn env authFn u p with
  | false => exact Talk.reaches_refl
  | true =>
    simp only [if_true]
    obtain ⟨h0, h8⟩ := hanswer command
    have hcommand := Talk.andThen_right (fun command => do
        proxySendreply (answer command).1 (answer command).2
        .ret command)
      (runs_right (l := ⟨handleConnectionResponse, [], []⟩) (hrecv (calls env authFn u p)))
    refine Talk.send_left (Talk.reaches_trans hcommand ?_)
    have hreply : Side.andThen ⟨endOf (.ok command), [], calls env authFn u p⟩ (fun command => do
          proxySendreply (answer command).1 (answer command).2
          .ret command)
        = ⟨.send (frame (UInt8.ofNat (answer command).1.toNat) (answer command).2) (.ret command), [],
            calls env authFn u p⟩ := by
      unfold Side.andThen endOf
      simp only [Dialogue.ret_bind, proxySendreply_eq h0 h8, Dialogue.send_bind]
    rw [hreply]
    refine Talk.send_right (Talk.reaches_trans (runs_left (reply_received h0 h8 _)) ?_)
    have hend : ∀ reply : ℤ, (endOf (if reply = 0 then .ok () else
        .error (some (replyErrno (UInt8.ofNat reply.toNat)))) : Prog Unit)
        = if reply = 0 then .ret () else .fail (some (replyErrno (UInt8.ofNat reply.toNat))) := by
      intro reply
      unfold endOf
      split_ifs <;> rfl
    rw [hend]
    exact Talk.reaches_refl

theorem session_ends (h : Accepted u p) (hfit : Fitting u p) (authFn : Bool)
    (hanswer : Replies answer) (hrecv : ∀ asked, Quiet env recvcommand bs asked (.ok command) [] asked) :
    Talk.Ends env
      (Talk.start (clientAuth u p >>= fun _ => .send bs handleConnectionResponse)
        (serve authFn recvcommand answer))
      (sessionEnd env authFn u p command (answer command).1) := by
  have hended : (sessionEnd env authFn u p command (answer command).1).left.prog.Ended ∧
      (sessionEnd env authFn u p command (answer command).1).right.prog.Ended := by
    unfold sessionEnd
    split_ifs <;> exact ⟨trivial, trivial⟩
  exact Talk.ends_of_reaches (session_run h hfit authFn hanswer hrecv) hended.1 hended.2

/-- **A session.** In whatever order the client and the proxy take their steps, the session ends, and
nothing that was sent is left over. A client that is not let in fails, and the proxy gets no command
from it. Otherwise the proxy gets the address, or the name and the port, that the client has been given,
and the client succeeds if the proxy says so and else fails with the error for the reply. -/
theorem session_agreement (h : Accepted u p) (hfit : Fitting u p) (authFn : Bool)
    (env : CString × CString → Bool) :
    (∀ (remote : Remote) (old addr : IpAddr) (answer : UInt8 × IpAddr → ℤ × IpAddr),
      Literals remote → Replies answer →
      Talk.Ends env
        (Talk.start (socksConnect u p (some addr)) (serve authFn (proxyRecvcommand remote old) answer))
        (sessionEnd env authFn u p (1, addr) (answer (1, addr)).1)) ∧
    ∀ (pton : Pton) (ntop : List UInt8 → CString) (host : List UInt8) (hostname : CString) (port : ℤ)
      (answer : UInt8 × List UInt8 × ℕ → ℤ × IpAddr), host.length = 256 →
      hostname.bytes.length ≤ 255 → pton.inet hostname = none → pton.inet6 hostname = none →
      1 ≤ port → port ≤ 65535 → Replies answer →
      ∃ left, Talk.Ends env
        (Talk.start (socksConnectbyname pton u p (some hostname) port)
          (serve authFn (proxyRecvcommandbyname ntop host) answer))
        (sessionEnd env authFn u p (1, hostname.bytes ++ [0] ++ left, port.toNat)
          (answer (1, hostname.bytes ++ [0] ++ left, port.toNat)).1) := by
  constructor
  · intro remote old addr answer hremote hanswer
    have hrecv : ∀ asked, Quiet env (proxyRecvcommand remote old) (frame 1 addr) asked
        (.ok (1, addr)) [] asked := by
      intro asked
      have hrun := @proxyRecvcommand_frame none env asked [] [some EIO] remote hremote 1 (by decide)
        (by decide) old addr
      rwa [List.append_nil] at hrun
    unfold socksConnect
    rw [clientConnect_eq]
    exact session_ends h hfit authFn hanswer hrecv
  · intro pton ntop host hostname port answer hhost hname h4 h6 h1 hmax hanswer
    have hrecv : ∀ asked, Quiet env (proxyRecvcommandbyname ntop host)
        (nameFrame 1 hostname.bytes port.toNat) asked
        (.ok (1, hostname.bytes ++ [0] ++ (host.drop hostname.bytes.length).drop 1, port.toNat))
        [] asked := by
      intro asked
      have hrun := @proxyRecvcommandbyname_frame none env asked [] [some EIO] ntop host hostname.bytes
        hhost hname 1 (by decide) (by decide) port.toNat (by omega)
      rwa [List.append_nil] at hrun
    unfold socksConnectbyname
    rw [clientConnectbyname_eq hname h4 h6 h1 hmax]
    exact ⟨_, session_ends h hfit authFn hanswer hrecv⟩

/-- The client "a" with the password "b" is let in, and the proxy cannot reach 1.2.3.4. -/
theorem session_agreement_unreachable :
    ∃ F, Talk.Ends (fun q => decide (q.1.bytes = [97] ∧ q.2.bytes = [98]))
        (Talk.start
          (socksConnect (some ⟨[97], by decide⟩) (some ⟨[98], by decide⟩)
            (some (.inet ⟨[1, 2, 3, 4], rfl⟩ 80)))
          (serve true (proxyRecvcommand loopbackRemote (.inet ⟨[0, 0, 0, 0], rfl⟩ 0))
            fun c => (4, c.2))) F ∧
      F.left.prog = .fail (some EHOSTUNREACH) ∧
      F.right.prog = .ret (1, .inet ⟨[1, 2, 3, 4], rfl⟩ 80) := by
  have hends := (@session_agreement (some ⟨[97], by decide⟩) (some ⟨[98], by decide⟩)
    ⟨fun v hv => by cases hv; decide, fun v hv => by cases hv; decide⟩
    (fun v w hv hw => by cases hv; cases hw; decide) true
    fun q => decide (q.1.bytes = [97] ∧ q.2.bytes = [98])).1 loopbackRemote
      (.inet ⟨[0, 0, 0, 0], rfl⟩ 0) (.inet ⟨[1, 2, 3, 4], rfl⟩ 80) (fun c => (4, c.2))
      literals_loopbackRemote fun _ => ⟨(by decide : (0 : ℤ) ≤ 4), (by decide : (4 : ℤ) ≤ 8)⟩
  exact ⟨_, hends, rfl, rfl⟩

end Libdill.Socks5
