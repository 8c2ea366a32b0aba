import Libdill.Ledger.Books

/-!
# What the functions leave behind

For each function of `Ledger/Open.lean`: it gives back what it has got hold of when it fails, hands it
to the new socket when it succeeds, and hands it to the call when it waits. The functions that are
different say so: the `fromfd` functions and `dill_ipc_pair` lose something when a handle is refused.
-/

namespace Libdill.Ledger

open Foundations Libdill.Sock

variable {w w' w₀ : World} {F : List ℤ} {O : List ℕ} {s h : ℤ} {a : ℕ} {x : Sock} {kind : Kind}

/-- A call ends in one way when it fails and in another one when it returns a value. -/
def Outcome {α : Type} (failed : World → Prop) (returned : α → World → Prop) :
    Except Errno α → World → Prop
  | .error _, w => failed w
  | .ok r, w => returned r w

/-- A socket has been made in memory of the caller at `a`, or the call waits. -/
def Opened (kind : Kind) (w₀ : World) (F : List ℤ) (O : List ℕ) (a : ℕ) : Progress → World → Prop
  | .done h, w => ∃ s, At (w₀.add h ⟨kind, s, a, true⟩) F O w
  | .waits p, w => At w₀ (p.fds ++ F) O w ∧ p.Waits w ∧ p.addrs = [a] ∧ p.blocks = [] ∧
      p.makes = some kind

/-- A socket has been made, wherever its memory is, or the call waits. -/
def Placed (kind : Kind) (w₀ : World) (F : List ℤ) (O : List ℕ) : Progress → World → Prop
  | .done h, w => ∃ x, x.kind = kind ∧ At (w₀.add h x) F O w
  | .waits p, w =>
    At w₀ (p.fds ++ F) (p.blocks ++ O) w ∧ p.Waits w ∧ p.makes = some kind ∧
      ∃ a, p.addrs = [a] ∧ a ∉ w₀.addrs

/-- The end of a call that makes a socket in memory of the caller at `a`. -/
abbrev Ended (kind : Kind) (w₀ : World) (F : List ℤ) (O : List ℕ) (a : ℕ) :
    Except Errno Progress → World → Prop :=
  Outcome (At w₀ F O) (Opened kind w₀ F O a)

/-- The end of a call that makes a socket. -/
abbrev Settled (kind : Kind) (w₀ : World) (F : List ℤ) (O : List ℕ) :
    Except Errno Progress → World → Prop :=
  Outcome (At w₀ F O) (Placed kind w₀ F O)

theorem Ended.settled {o : Except Errno Progress} (h : Ended kind w₀ F O a o w)
    (ha : a ∉ w₀.addrs) : Settled kind w₀ F O o w := by
  match o with
  | .error e => exact h
  | .ok (.done h') =>
    obtain ⟨s, hat⟩ := h
    exact ⟨_, rfl, hat⟩
  | .ok (.waits p) =>
    obtain ⟨hat, hwaits, haddrs, hblocks, hmakes⟩ := h
    refine ⟨?_, hwaits, hmakes, a, haddrs, ha⟩
    rw [hblocks]
    exact hat

/-! ## Labels -/

/-- What a failure leaves behind: the blocks that belong to nobody, and the answers to come. -/
def Left (w₀ : World) (F : List ℤ) (E : List ℕ → List Reply → Prop) (w : World) : Prop :=
  ∃ O, At w₀ F O w ∧ E O w.env

variable {α : Type} {f : M α} {E : List ℕ → List Reply → Prop} {P : α → World → Prop}

/-- The blocks are known. -/
theorem left_eq : Left w₀ F (fun O' _ => O' = O) w ↔ At w₀ F O w := by
  constructor
  · rintro ⟨O', hat, rfl⟩
    exact hat
  · intro hat
    exact ⟨O, hat, rfl⟩

theorem outcome_left {o : Except Errno α} :
    Outcome (Left w₀ F fun O' _ => O' = O) P o w ↔ Outcome (At w₀ F O) P o w := by
  cases o with
  | error e => exact left_eq
  | ok r => exact Iff.rfl

/-- **The label that closes a descriptor.** Whoever fails inside still holds it. -/
theorem fdClose_left (hf : Keeps f w (Outcome (Left w₀ (s :: F) E) P)) :
    Keeps (Call.unwind (fdClose s) f) w (Outcome (Left w₀ F E) P) := by
  refine hf.unwind (fun r w' h => h) ?_
  rintro e w' ⟨O, hat, hE⟩
  refine (fdClose_keeps hat).mono ?_
  rintro o w'' ⟨-, hat', -, henv⟩
  exact ⟨O, hat', by rw [henv]; exact hE⟩

/-- **The label that frees a block.** -/
theorem free_left (hf : Keeps f w (Outcome (Left w₀ F fun O' env => ∃ O, O' = a :: O ∧ E O env) P)) :
    Keeps (Call.unwind (free a) f) w (Outcome (Left w₀ F E) P) := by
  refine hf.unwind (fun r w' h => h) ?_
  rintro e w' ⟨O', hat, O, rfl, hE⟩
  refine (free_keeps hat).mono ?_
  rintro o w'' ⟨-, hat', henv⟩
  exact ⟨O, hat', by rw [henv]; exact hE⟩

/-- **The label that closes a new socket again.** -/
theorem hclose_left (hidle : w₀.Idle x) (hf : Keeps f w (Outcome (Left (w₀.add h x) F E) P)) :
    Keeps (Call.unwind (hclose h) f) w (Outcome (Left w₀ F E) P) := by
  refine hf.unwind (fun r w' h => h) ?_
  rintro e w' ⟨O, hat, hE⟩
  refine (hclose_new_keeps hat hidle).mono ?_
  rintro o w'' ⟨-, hat', henv⟩
  exact ⟨O, hat', by rw [henv]; exact hE⟩

theorem fdClose_label (hf : Keeps f w (Outcome (At w₀ (s :: F) O) P)) :
    Keeps (Call.unwind (fdClose s) f) w (Outcome (At w₀ F O) P) :=
  (fdClose_left (hf.mono fun _ _ => outcome_left.mpr)).mono fun _ _ => outcome_left.mp

theorem hclose_label (hidle : w₀.Idle x) (hf : Keeps f w (Outcome (At (w₀.add h x) F O) P)) :
    Keeps (Call.unwind (hclose h) f) w (Outcome (At w₀ F O) P) :=
  (hclose_left hidle (hf.mono fun _ _ => outcome_left.mpr)).mono fun _ _ => outcome_left.mp

theorem free_label (hf : Keeps f w (Outcome (At w₀ F (a :: O)) P)) :
    Keeps (Call.unwind (free a) f) w (Outcome (At w₀ F O) P) := by
  refine hf.unwind (fun r w' h => h) ?_
  intro e w' hat
  refine (free_keeps hat).mono ?_
  rintro o w'' ⟨-, hat', -⟩
  exact hat'

/-- The same with a bare `close`. -/
theorem close_label (hf : Keeps f w (Outcome (At w₀ (s :: F) O) P)) :
    Keeps (Call.unwind (close s) f) w (Outcome (At w₀ F O) P) := by
  refine hf.unwind (fun r w' h => h) ?_
  intro e w' hat
  refine (close_keeps hat).mono ?_
  rintro o w'' ⟨-, hat', -⟩
  exact hat'

/-! ## Memory of the call -/

theorem allocated_fds (p : Pending) : p.allocated.fds = p.fds := by
  cases p <;> rfl

theorem allocated_addrs (p : Pending) : p.allocated.addrs = p.addrs := by
  cases p <;> rfl

theorem allocated_makes (p : Pending) : p.allocated.makes = p.makes := by
  cases p <;> rfl

theorem allocated_waits {p : Pending} (h : p.Waits w) : p.allocated.Waits w := by
  cases p <;> exact h

theorem allocated_blocks {p : Pending} (h : p.addrs = [a]) : p.allocated.blocks = [a] := by
  cases p with
  | connect k alloc s b =>
    cases h
    rfl
  | accept k alloc s b =>
    cases h
    rfl
  | close h' s => cases h
  | recvfd s => cases h

/-- **The object on the heap.** It is freed, or it belongs to the socket, or to the waiting call. -/
theorem onHeap_keeps {f : M Progress} (hf : Keeps f w (Ended kind w₀ F (a :: O) a))
    (ha : a ∉ w₀.addrs) : Keeps (onHeap a f) w (Settled kind w₀ F O) := by
  refine (free_label hf).bind (fun e w' h => h) ?_
  intro r w' hended
  cases r with
  | done h =>
    obtain ⟨s, hat⟩ := hended
    refine (own_keeps hat).bind ?_ ?_
    · rintro e w'' ⟨h, -⟩
      cases h
    · rintro u w'' ⟨-, hat', -⟩
      exact .ret ⟨_, rfl, hat'⟩
  | waits p =>
    obtain ⟨hat, hwaits, haddrs, hblocks, hmakes⟩ := hended
    refine .ret ⟨?_, allocated_waits hwaits, (allocated_makes p).trans hmakes, a,
      (allocated_addrs p).trans haddrs, ha⟩
    rw [allocated_fds, allocated_blocks haddrs]
    exact hat

/-- **The variant that allocates.** -/
theorem allocating_keeps {f : Option ℕ → M Progress} (hw : At w₀ F O w)
    (hf : ∀ a O w, At w₀ F O w → a ∉ w₀.addrs → Keeps (f (some a)) w (Ended kind w₀ F O a)) :
    Keeps (allocating f) w (Settled kind w₀ F O) := by
  refine (malloc_keeps hw).bind (fun e w' h => h.1) ?_
  rintro a w' ⟨hat, ha, -⟩
  exact onHeap_keeps (hf a (a :: O) w' hat ha) ha

/-! ## Between a label and its end -/

/-- Behind the label that closes `s`. -/
abbrev Holding (kind : Kind) (w₀ : World) (s : ℤ) (F : List ℤ) (O : List ℕ) (a : ℕ) :
    Except Errno Progress → World → Prop :=
  Outcome (At w₀ (s :: F) O) (Opened kind w₀ F O a)

/-- The handle at the end. -/
theorem made_keeps (hw : At w₀ (s :: F) O w) (hsuits : kind.Suits (w.desc s)) (ha : a ∉ w₀.addrs) :
    Keeps (do let h ← make kind s a; return .done h) w (Holding kind w₀ s F O a) := by
  refine (make_keeps hw hsuits ha).bind (fun e w' h => h.1) ?_
  rintro h w' ⟨hat, -⟩
  exact .ret ⟨s, hat⟩

/-- A call on the way. -/
theorem call_then {f : Unit → M Progress} {d : Desc} (hw : At w₀ (s :: F) O w) (hd : w.desc s = d)
    (hf : ∀ w', At w₀ (s :: F) O w' → w'.desc s = d → Keeps (f ()) w' (Holding kind w₀ s F O a)) :
    Keeps (call >>= f) w (Holding kind w₀ s F O a) := by
  refine call_keeps.bind ?_ ?_
  · rintro e w' ⟨r, env, rfl, -⟩
    exact hw.env env
  · rintro u w' ⟨r, env, rfl, -⟩
    exact hf _ (hw.env env) hd

theorem fdUnblock_then {f : Unit → M Progress} {d : Desc} (hw : At w₀ (s :: F) O w) (hd : w.desc s = d)
    (hf : ∀ w', At w₀ (s :: F) O w' → w'.desc s = { d with nonblock := true } →
      Keeps (f ()) w' (Holding kind w₀ s F O a)) :
    Keeps (fdUnblock s >>= f) w (Holding kind w₀ s F O a) := by
  refine (fdUnblock_keeps hw List.mem_cons_self).bind ?_ ?_
  · rintro e w' ⟨h, -⟩
    cases h
  · rintro u w' ⟨-, hat, hdesc, -⟩
    exact hf w' hat (hd ▸ hdesc)

/-- A new socket that does not block suits its kind. -/
theorem suits_socket {family : Family} {listening : Bool} (hfamily : family ∈ kind.families) :
    kind.Suits ⟨some kind.type, family, listening, true⟩ := ⟨rfl, hfamily, rfl⟩

/-! ## Connecting -/

/-- Only answers are used up. -/
def Asks (w : World) {α : Type} (_ : Except Errno α) (w' : World) : Prop :=
  ∃ env, w' = { w with env := env }

theorem fdConnect_keeps : Keeps fdConnect w (Asks w) := by
  refine answer_keeps.bind (by rintro e w' ⟨r, env, hr, -⟩; cases hr) ?_
  rintro r w' ⟨r', env, -, rfl, -⟩
  cases r with
  | ok u => exact .ret ⟨env, rfl⟩
  | error e =>
    cases hc : e == EINPROGRESS with
    | true => exact .of_ok (Call.bind_ret (hc ▸ Call.require_true)) ⟨env, rfl⟩
    | false => exact .of_ok (Call.bind_fail (hc ▸ Call.require_false)) ⟨env, rfl⟩

theorem fdConnected_keeps {r : Except Errno Unit} : Keeps (fdConnected r) w (Asks w) := by
  refine result_keeps.bind ?_ ?_
  · rintro e w' ⟨-, rfl⟩
    exact ⟨w'.env, rfl⟩
  · rintro u w' ⟨-, rfl⟩
    refine call_keeps.mono ?_
    rintro o w'' ⟨r, env, rfl, -⟩
    exact ⟨env, rfl⟩

theorem connectOver_keeps (hw : At w₀ F O w) {family : Family} (hfamily : family ∈ kind.families)
    (htype : kind.type = .stream) (ha : a ∉ w₀.addrs) :
    Keeps (connectOver kind family a) w (Ended kind w₀ F O a) := by
  refine (socket_keeps hw).bind (fun e w' h => h) ?_
  rintro s w' ⟨hat, hdesc⟩
  refine fdClose_label ?_
  refine fdUnblock_then hat hdesc ?_
  intro w' hat hdesc
  have hsuits : kind.Suits (w'.desc s) := by
    rw [hdesc, ← htype]
    exact suits_socket hfamily
  refine fdConnect_keeps.bind ?_ ?_
  · rintro e w'' ⟨env, rfl⟩
    exact hat.env env
  · rintro done w'' ⟨env, rfl⟩
    cases done with
    | true => exact made_keeps (hat.env env) hsuits ha
    | false => exact .ret ⟨hat.env env, hsuits, rfl, rfl, rfl⟩

theorem connected_keeps (hw : At w₀ (s :: F) O w) (hsuits : kind.Suits (w.desc s)) (ha : a ∉ w₀.addrs)
    {r : Except Errno Unit} : Keeps (connected kind s a r) w (Ended kind w₀ F O a) := by
  refine fdClose_label ?_
  refine fdConnected_keeps.bind ?_ ?_
  · rintro e w' ⟨env, rfl⟩
    exact hw.env env
  · rintro u w' ⟨env, rfl⟩
    exact made_keeps (hw.env env) hsuits ha

theorem Ipaddr.family_mem (addr : Ipaddr) : addr.family ∈ [Family.inet, Family.inet6] := by
  unfold Ipaddr.family
  split <;> decide

theorem tcpConnectMem_keeps {addr : Ipaddr} (hw : At w₀ F O w) (ha : a ∉ w₀.addrs) :
    Keeps (tcpConnectMem addr (some a)) w (Ended .tcp w₀ F O a) :=
  connectOver_keeps hw addr.family_mem rfl ha

/-- A check of the arguments. -/
theorem require_then {f : Unit → M Progress} (hw : At w₀ F O w) {c : Bool} {e : Errno}
    (hf : Keeps (f ()) w (Ended kind w₀ F O a)) :
    Keeps (Call.require c e >>= f) w (Ended kind w₀ F O a) := by
  cases c with
  | false => exact .of_ok (Call.bind_fail Call.require_false) hw
  | true =>
    unfold Keeps Call.Meets
    rw [Call.bind_ret Call.require_true]
    exact hf

theorem ipcConnectMem_keeps {addr : Utils.CString} (hw : At w₀ F O w) (ha : a ∉ w₀.addrs) :
    Keeps (ipcConnectMem addr (some a)) w (Ended .ipc w₀ F O a) :=
  require_then hw (connectOver_keeps hw (List.mem_singleton.mpr rfl) rfl ha)

/-! ## Listening -/

theorem listen_then {f : Unit → M Progress} {d : Desc} (hw : At w₀ (s :: F) O w) (hd : w.desc s = d)
    (hf : ∀ w', At w₀ (s :: F) O w' → w'.desc s = { d with listening := true } →
      Keeps (f ()) w' (Holding kind w₀ s F O a)) :
    Keeps (listen s >>= f) w (Holding kind w₀ s F O a) := by
  refine (listen_keeps hw List.mem_cons_self).bind (fun e w' h => h.1) ?_
  rintro u w' ⟨hat, hdesc⟩
  exact hf w' hat (hd ▸ hdesc rfl)

theorem tcpListenMem_keeps {addr : Ipaddr} (hw : At w₀ F O w) (ha : a ∉ w₀.addrs) :
    Keeps (tcpListenMem addr (some a)) w (Ended .tcpListener w₀ F O a) := by
  have hfamily : addr.family ∈ Kind.tcpListener.families := addr.family_mem
  refine (socket_keeps hw).bind (fun e w' h => h) ?_
  rintro s w' ⟨hat, hdesc⟩
  refine close_label ?_
  refine fdUnblock_then hat hdesc fun w' hat hdesc => ?_
  refine call_then hat hdesc fun w' hat hdesc => ?_
  refine listen_then hat hdesc fun w' hat hdesc => ?_
  split
  · refine call_then hat hdesc fun w' hat hdesc => ?_
    exact made_keeps hat (hdesc ▸ suits_socket hfamily) ha
  · exact made_keeps hat (hdesc ▸ suits_socket hfamily) ha

theorem ipcListenMem_keeps {addr : Utils.CString} (hw : At w₀ F O w) (ha : a ∉ w₀.addrs) :
    Keeps (ipcListenMem addr (some a)) w (Ended .ipcListener w₀ F O a) := by
  have hfamily : Family.unix ∈ Kind.ipcListener.families := List.mem_singleton.mpr rfl
  refine require_then hw ?_
  refine (socket_keeps hw).bind (fun e w' h => h) ?_
  rintro s w' ⟨hat, hdesc⟩
  refine close_label ?_
  refine fdUnblock_then hat hdesc fun w' hat hdesc => ?_
  refine call_then hat hdesc fun w' hat hdesc => ?_
  refine listen_then hat hdesc fun w' hat hdesc => ?_
  exact made_keeps hat (hdesc ▸ suits_socket hfamily) ha

/-! ## Datagrams -/

theorem openFamily_mem (localAddr remote : Option Ipaddr) :
    openFamily localAddr remote ∈ Kind.udp.families := by
  unfold openFamily
  cases remote with
  | some r => exact r.family_mem
  | none =>
    cases localAddr with
    | some l => exact l.family_mem
    | none => exact List.mem_cons_self

theorem bindLocal_keeps {localAddr : Option Ipaddr} : Keeps (bindLocal localAddr) w (Asks w) := by
  cases localAddr with
  | none => exact .ret ⟨w.env, rfl⟩
  | some l =>
    refine answer_keeps.bind (by rintro e w' ⟨r, env, hr, -⟩; cases hr) ?_
    rintro r w' ⟨r', env, -, rfl, -⟩
    split
    · refine call_keeps.mono ?_
      rintro o w'' ⟨r, env', rfl, -⟩
      exact ⟨env', rfl⟩
    · exact .ret ⟨env, rfl⟩

theorem udpOpenMem_keeps {localAddr remote : Option Ipaddr} (hw : At w₀ F O w) (ha : a ∉ w₀.addrs) :
    Keeps (udpOpenMem localAddr remote (some a)) w (Ended .udp w₀ F O a) := by
  refine require_then hw ?_
  refine (socket_keeps hw).bind (fun e w' h => h) ?_
  rintro s w' ⟨hat, hdesc⟩
  refine fdClose_label ?_
  refine fdUnblock_then hat hdesc fun w' hat hdesc => ?_
  refine bindLocal_keeps.bind ?_ ?_
  · rintro e w'' ⟨env, rfl⟩
    exact hat.env env
  · rintro u w'' ⟨env, rfl⟩
    refine made_keeps (hat.env env) ?_ ha
    change Kind.udp.Suits (w'.desc s)
    rw [hdesc]
    exact suits_socket (openFamily_mem localAddr remote)

/-! ## Accepting -/

/-- What is known of the descriptor of a listener. -/
def Listens (w : World) (kind : Kind) (s : ℤ) : Prop :=
  ∃ p ∈ w.socks, p.2.fd = s ∧ kind.listener = some p.2.kind

theorem listener_suits {k : Kind} (h : kind.listener = some k) {d : Desc} (hd : k.Suits d) :
    kind.Suits ⟨d.type, d.family, false, true⟩ := by
  cases kind with
  | tcp =>
    cases h
    exact ⟨hd.type, hd.family, rfl⟩
  | ipc =>
    cases h
    exact ⟨hd.type, hd.family, rfl⟩
  | tcpListener => cases h
  | ipcListener => cases h
  | udp => cases h

theorem fdAcceptN_keeps (n : ℕ) {w : World} (hw : At w₀ F O w) (hs : Listens w₀ kind s) :
    Keeps (fdAcceptN s n) w fun o w' =>
      match o with
      | .error _ => At w₀ F O w'
      | .ok none => At w₀ F O w'
      | .ok (some as) => At w₀ (as :: F) O w' ∧ kind.Suits (w'.desc as) := by
  induction n generalizing w with
  | zero => exact .of_error rfl rfl
  | succ n ih =>
    refine answer_keeps.bind (by rintro e w' ⟨r, env, hr, -⟩; cases hr) ?_
    rintro r w' ⟨r', env, -, rfl, -⟩
    cases r with
    | error e =>
      change Keeps (if e = ECONNABORTED then _ else _) _ _
      split
      · exact ih (hw.env env)
      · split
        · exact .ret (hw.env env)
        · exact .fail (hw.env env)
    | ok as =>
      refine descOf_keeps.bind ?_ ?_
      · rintro e w' ⟨rfl, -⟩
        exact hw.env env
      · rintro d w' ⟨rfl, hd⟩
        obtain ⟨p, hp, hfd, hkind⟩ := hs
        have hsuits : p.2.kind.Suits d := by
          obtain hd | ⟨-, hd⟩ := hd
          · cases hd
          · cases hd
            rw [← hfd]
            exact hw.suits p (hw.socks ▸ hp)
        refine (opened_keeps (hw.env env)).bind (by rintro e w' ⟨h, -⟩; cases h) ?_
        rintro as' w' ⟨heq, hat, hdesc, -⟩
        cases heq
        refine (fdUnblock_keeps hat List.mem_cons_self).bind (by rintro e w' ⟨h, -⟩; cases h) ?_
        rintro u w' ⟨-, hat, hdesc', -⟩
        refine .ret ⟨hat, ?_⟩
        rw [hdesc', hdesc]
        exact listener_suits (d := d) hkind hsuits

theorem acceptOver_keeps (hw : At w₀ F O w) (hs : Listens w₀ kind s) (ha : a ∉ w₀.addrs) :
    Keeps (acceptOver kind s a) w (Ended kind w₀ F O a) := by
  refine (fdAcceptN_keeps w.env.length hw hs).bind (fun e w' h => h) ?_
  intro r w' hr
  cases r with
  | none =>
    obtain ⟨p, hp, hfd, hkind⟩ := hs
    have hat : At w₀ F O w' := hr
    refine .ret ⟨hat, ⟨p, hat.socks ▸ hp, hfd, hkind⟩, rfl, rfl, rfl⟩
  | some as =>
    obtain ⟨hat, hsuits⟩ := hr
    refine fdClose_label ?_
    refine fdUnblock_then hat rfl fun w'' hat hdesc => ?_
    refine made_keeps hat ?_ ha
    rw [hdesc]
    exact ⟨hsuits.type, hsuits.family, rfl⟩

theorem accepted_keeps (hw : At w₀ F O w) (hs : Listens w₀ kind s) (ha : a ∉ w₀.addrs)
    {r : Except Errno Unit} : Keeps (accepted kind s a r) w (Ended kind w₀ F O a) := by
  refine result_keeps.bind ?_ ?_
  · rintro e w' ⟨-, rfl⟩
    exact hw
  · rintro u w' ⟨-, rfl⟩
    exact acceptOver_keeps hw hs ha

theorem hquery_then {f : Sock → M Progress} {listener : Kind} (hw : At w₀ F O w)
    (hh : h ∉ w₀.stale)
    (hf : ∀ x, (h, x) ∈ w₀.socks → x.kind = listener → Keeps (f x) w (Ended kind w₀ F O a)) :
    Keeps (hquery h listener >>= f) w (Ended kind w₀ F O a) := by
  have hstale : h ∉ w.stale := by rwa [hw.stale]
  refine (hquery_keeps hstale).bind ?_ ?_
  · rintro e w' ⟨rfl, -⟩
    exact hw
  · rintro x w' ⟨rfl, hx, hk⟩
    exact hf x (hw.socks ▸ hx) hk

theorem tcpAcceptMem_keeps (hw : At w₀ F O w) (hh : h ∉ w₀.stale) (ha : a ∉ w₀.addrs) :
    Keeps (tcpAcceptMem h (some a)) w (Ended .tcp w₀ F O a) := by
  refine hquery_then hw hh fun x hx hk => ?_
  exact acceptOver_keeps hw ⟨(h, x), hx, rfl, congrArg some hk.symm⟩ ha

theorem ipcAcceptMem_keeps (hw : At w₀ F O w) (hh : h ∉ w₀.stale) (ha : a ∉ w₀.addrs) :
    Keeps (ipcAcceptMem h (some a)) w (Ended .ipc w₀ F O a) := by
  refine hquery_then hw hh fun x hx hk => ?_
  exact acceptOver_keeps hw ⟨(h, x), hx, rfl, congrArg some hk.symm⟩ ha

/-! ## Descriptors from outside -/

/-- Some answers are used up, and nothing else has changed. -/
def Uses (w : World) (used : List Reply) (w' : World) : Prop :=
  ∃ env, w' = { w with env := env } ∧ w.env = used ++ env

theorem soType_keeps {d : Desc} : Keeps (soType d) w fun o w' =>
    w' = w ∧ ∀ val, o = .ok val → d.type = some val := by
  unfold soType
  cases htype : d.type with
  | none => exact .fail ⟨rfl, nofun⟩
  | some val => exact .ret ⟨rfl, fun v h => by cases h; rfl⟩

theorem checkListening_keeps {d : Desc} {listening : Bool} :
    Keeps (checkListening d listening) w fun _ w' => ∃ u, Uses w [.call u] w' := by
  refine answer_keeps.bind (by rintro e w' ⟨r, env, hr, -⟩; cases hr) ?_
  rintro r w' ⟨r', env, hr, rfl, b, henv, hf⟩
  cases hr
  cases b with
  | call u =>
    cases hf
    have huses : Uses w [.call r] { w with env := env } := ⟨env, rfl, henv⟩
    cases r with
    | ok v =>
      refine require_keeps.mono ?_
      rintro o w' ⟨rfl, -⟩
      exact ⟨_, huses⟩
    | error e =>
      refine require_keeps.mono ?_
      rintro o w' ⟨rfl, -⟩
      exact ⟨_, huses⟩
  | _ => cases hf

/-- A descriptor that has been checked is what the socket takes it for, but for the mode. -/
theorem fdCheck_keeps {type : SockType} {families : List Family} {listening : Bool} :
    Keeps (fdCheck s type families listening) w fun o w' => ∃ used, Uses w used w' ∧
      match o with
      | .error _ => used.length ≤ 2
      | .ok () => (∃ u v, used = [.call u, .call v]) ∧ s ∈ w.fds ∧ (w.desc s).type = some type ∧
        (w.desc s).family ∈ families := by
  have hnone : Uses w [] w := ⟨w.env, rfl, rfl⟩
  refine descOf_keeps.bind ?_ ?_
  · rintro e w' ⟨rfl, -⟩
    exact ⟨[], hnone, Nat.zero_le _⟩
  rintro d w' ⟨rfl, hd⟩
  obtain ⟨hs, rfl⟩ : s ∈ w'.fds ∧ d = w'.desc s := by
    obtain hd | ⟨hs, hd⟩ := hd
    · cases hd
    · cases hd
      exact ⟨hs, rfl⟩
  refine soType_keeps.bind ?_ ?_
  · rintro e w ⟨rfl, -⟩
    exact ⟨[], hnone, Nat.zero_le _⟩
  rintro val w ⟨rfl, htype⟩
  refine require_keeps.bind ?_ ?_
  · rintro e w' ⟨rfl, -⟩
    exact ⟨[], hnone, Nat.zero_le _⟩
  rintro u w' ⟨rfl, hval⟩
  obtain hval | ⟨-, hval⟩ := hval
  · cases hval
  have htype := htype val rfl
  rw [beq_iff_eq.mp hval] at htype
  refine checkListening_keeps.bind ?_ ?_
  · rintro e w ⟨v, huses⟩
    exact ⟨_, huses, Nat.le_succ 1⟩
  rintro u w ⟨v, env, rfl, henv⟩
  refine call_keeps.bind ?_ ?_
  · rintro e w ⟨r, env', rfl, henv'⟩
    exact ⟨[.call v, .call r], ⟨env', rfl, by rw [henv]; exact congrArg _ henv'⟩, le_rfl⟩
  rintro u w ⟨r, env', rfl, henv'⟩
  have huses : Uses w' [.call v, .call r] { w' with env := env' } :=
    ⟨env', rfl, by rw [henv]; exact congrArg _ henv'⟩
  refine require_keeps.mono ?_
  rintro o w ⟨rfl, ho⟩
  obtain rfl | ⟨rfl, hfamily⟩ := ho
  · exact ⟨_, huses, le_rfl⟩
  · exact ⟨_, huses, ⟨v, r, rfl⟩, hs, htype, List.contains_iff_mem.mp hfamily⟩

/-- A descriptor of the caller is replaced by a duplicate, unless there is none. -/
theorem fdOwn_keeps {fd : ℤ} (hw : At w₀ (fd :: F) O w) : Keeps (fdOwn fd) w fun o w' =>
    match o with
    | .error _ => At w₀ (fd :: F) O w' ∧ ∃ used, used.length ≤ 1 ∧ w.env = used ++ w'.env
    | .ok n => At w₀ (n :: F) O w' ∧ w'.desc n = w.desc fd ∧ w.env = .fd (.ok n) :: w'.env := by
  have hdup : Keeps (dup fd) w fun o w' =>
      match o with
      | .error _ => At w₀ (fd :: F) O w' ∧ ∃ used, used.length ≤ 1 ∧ w.env = used ++ w'.env
      | .ok n => At w₀ (n :: fd :: F) O w' ∧ w'.desc n = w.desc fd ∧ w.env = .fd (.ok n) :: w'.env := by
    refine descOf_keeps.bind ?_ ?_
    · rintro e w' ⟨rfl, -⟩
      exact ⟨hw, [], Nat.zero_le _, rfl⟩
    rintro d w' ⟨rfl, hd⟩
    obtain rfl : d = w'.desc fd := by
      obtain hd | ⟨-, hd⟩ := hd
      · cases hd
      · cases hd
        rfl
    refine answer_keeps.bind (by rintro e w' ⟨r, env, hr, -⟩; cases hr) ?_
    rintro r w ⟨r', env, hr, rfl, b, henv, hf⟩
    cases hr
    cases b with
    | fd q =>
      cases hf
      refine result_keeps.bind ?_ ?_
      · rintro e w ⟨-, rfl⟩
        exact ⟨hw.env env, [_], le_rfl, henv⟩
      · rintro n w ⟨hn, rfl⟩
        subst hn
        refine (opened_keeps (hw.env env)).mono ?_
        rintro o w ⟨rfl, hat, hdesc, henv', -⟩
        exact ⟨hat, hdesc, by rw [henv, henv']⟩
    | _ => cases hf
  refine hdup.bind (fun e w' h => h) ?_
  rintro n w' ⟨hat, hdesc, henv⟩
  refine (fdClose_keeps (hat.perm (List.Perm.swap _ _ _) (.refl _))).bind ?_ ?_
  · rintro e w'' ⟨h, -⟩
    cases h
  · rintro u w'' ⟨-, hat', hdesc', henv'⟩
    refine .ret ⟨hat', ?_, ?_⟩
    · rw [hdesc', hdesc]
    · rw [henv, henv']

/-- The answers that a `fromfd` function gets when the descriptor has been duplicated. -/
def handedOver (n : ℤ) (r : Except Errno ℤ) (u v : Except Errno Unit) : List Reply :=
  [.call u, .call v, .fd (.ok n), .made r]

/-- The end of a `fromfd_mem` function: it fails and the caller keeps the descriptor; it fails and
the duplicate stays behind; or the duplicate goes to the socket. -/
def Taken (w₀ : World) (fd : ℤ) (F : List ℤ) (O : List ℕ) (a : ℕ) (env : List Reply) :
    Except Errno Progress → World → Prop
  | .error _, w =>
    (At w₀ (fd :: F) O w ∧ ∃ used, used.length ≤ 3 ∧ env = used ++ w.env) ∨
      ∃ n e u v, At w₀ (n :: F) O w ∧ env = handedOver n (.error e) u v ++ w.env
  | .ok (.done h), w => ∃ kind n u v, At (w₀.add h ⟨kind, n, a, true⟩) F O w ∧
      env = handedOver n (.ok h) u v ++ w.env
  | .ok (.waits _), _ => False

theorem fromfdMem_keeps {families : List Family} {listening : Bool} {fd : ℤ}
    (hw : At w₀ (fd :: F) O w) (hkind : kind.type = .stream ∧ kind.families = families)
    (ha : a ∉ w₀.addrs) :
    Keeps (fromfdMem kind families listening fd (some a)) w (Taken w₀ fd F O a w.env) := by
  refine require_keeps.bind ?_ ?_
  · rintro e w' ⟨rfl, -⟩
    exact .inl ⟨hw, [], Nat.zero_le _, rfl⟩
  rintro u w' ⟨rfl, -⟩
  refine fdCheck_keeps.bind ?_ ?_
  · rintro e w ⟨used, ⟨env, rfl, henv⟩, hlen⟩
    exact .inl ⟨hw.env env, used, hlen.trans (Nat.le_succ 2), henv⟩
  rintro u w ⟨used, ⟨env, rfl, henv⟩, ⟨r₁, r₂, rfl⟩, -, htype, hfamily⟩
  refine (fdOwn_keeps (hw.env env)).bind ?_ ?_
  · rintro e w ⟨hat, used, hlen, henv'⟩
    refine .inl ⟨hat, [.call r₁, .call r₂] ++ used, ?_, ?_⟩
    · rw [List.length_append]
      exact Nat.add_le_add_left hlen 2
    · rw [henv, List.append_assoc]
      exact congrArg _ henv'
  rintro n w ⟨hat, hdesc, henv'⟩
  refine (fdUnblock_keeps hat List.mem_cons_self).bind (by rintro e w ⟨h, -⟩; cases h) ?_
  rintro u w'' ⟨-, hat', hdesc', henv'', -⟩
  have hsuits : kind.Suits (w''.desc n) := by
    rw [hdesc', hdesc]
    exact ⟨by rw [hkind.1]; exact htype, by rw [hkind.2]; exact hfamily, rfl⟩
  have hused : ∀ {r env'}, w''.env = Reply.made r :: env' →
      w'.env = handedOver n r r₁ r₂ ++ env' := by
    intro r env' heq
    have heq' : env = Reply.fd (.ok n) :: .made r :: env' := by
      rw [← heq, henv'']
      exact henv'
    rw [henv, heq']
    rfl
  refine (make_keeps hat' hsuits ha).bind ?_ ?_
  · rintro e w ⟨hat, henv⟩
    exact .inr ⟨n, e, r₁, r₂, hat, hused henv⟩
  · rintro h w ⟨hat, henv, -⟩
    exact .ret ⟨kind, n, r₁, r₂, hat, hused henv⟩

/-- A descriptor that is not open is refused. -/
theorem fromfdMem_closed (kind : Kind) (families : List Family) (listening : Bool) {fd : ℤ}
    (hfd : fd ∉ w.fds) (mem : Option ℕ) :
    ∃ e, fromfdMem kind families listening fd mem w = .ok (.error e, w) := by
  unfold fromfdMem
  cases mem with
  | none => exact ⟨.EINVAL, Call.bind_fail Call.require_false⟩
  | some a =>
    cases hsign : decide (0 ≤ fd) with
    | false => exact ⟨.EINVAL, Call.bind_fail Call.require_false⟩
    | true =>
      refine ⟨.EBADF, (Call.bind_ret Call.require_true).trans ?_⟩
      have hdesc : descOf fd w = .ok (.error .EBADF, w) := by
        unfold descOf
        rw [if_neg hfd]
      have hgiven : given (some a) w = .ok (.ok a, w) := rfl
      exact (Call.bind_ret hgiven).trans (Call.bind_fail (Call.bind_fail hdesc))

/-- The end of a `fromfd` function, wherever the memory is. -/
def Handed (w₀ : World) (fd : ℤ) (F : List ℤ) (O : List ℕ) (env : List Reply) :
    Except Errno Progress → World → Prop
  | .error _, w =>
    (At w₀ (fd :: F) O w ∧ ∃ used, used.length ≤ 3 ∧ env = used ++ w.env) ∨
      ∃ n e u v, At w₀ (n :: F) O w ∧ env = handedOver n (.error e) u v ++ w.env
  | .ok (.done h), w => ∃ x n u v, At (w₀.add h x) F O w ∧ env = handedOver n (.ok h) u v ++ w.env
  | .ok (.waits _), _ => False

theorem Taken.handed {fd : ℤ} {env : List Reply} {o : Except Errno Progress}
    (h : Taken w₀ fd F O a env o w) : Handed w₀ fd F O env o w := by
  match o with
  | .error e => exact h
  | .ok (.done h') =>
    obtain ⟨kind, n, u, v, hat, henv⟩ := h
    exact ⟨_, n, u, v, hat, henv⟩
  | .ok (.waits p) => exact h

/-- The `fromfd` functions that allocate: the answers to `malloc` come first. -/
theorem fromfd_keeps {families : List Family} {listening : Bool} {fd : ℤ}
    (hw : At w₀ (fd :: F) O w) (hkind : kind.type = .stream ∧ kind.families = families) :
    Keeps (allocating (fromfdMem kind families listening fd)) w fun o w' =>
      ∃ r env, w.env = .malloc r :: env ∧ Handed w₀ fd F O env o w' := by
  refine (malloc_keeps hw).bind ?_ ?_
  · rintro e w' ⟨hat, r, henv⟩
    exact ⟨r, w'.env, henv, .inl ⟨hat, [], Nat.zero_le _, rfl⟩⟩
  rintro a w' ⟨hat, ha, henv, -⟩
  have hunwind : Keeps (Call.unwind (free a) (fromfdMem kind families listening fd (some a))) w'
      fun o w'' =>
        match o with
        | .error e => Handed w₀ fd F O w'.env (.error e) w''
        | .ok r => Taken w₀ fd F (a :: O) a w'.env (.ok r) w'' := by
    refine (fromfdMem_keeps hat hkind ha).unwind (fun r w'' h => h) ?_
    intro e w'' h
    obtain ⟨hat', used, hlen, henv'⟩ | ⟨n, e', u, v, hat', henv'⟩ := h
    · refine (free_keeps hat').mono ?_
      rintro o w ⟨-, hat', heq⟩
      exact .inl ⟨hat', used, hlen, by rw [heq]; exact henv'⟩
    · refine (free_keeps hat').mono ?_
      rintro o w ⟨-, hat', heq⟩
      exact .inr ⟨n, e', u, v, hat', by rw [heq]; exact henv'⟩
  refine hunwind.bind (fun e w'' h => ⟨some a, w'.env, henv, h⟩) ?_
  intro r w'' h
  cases r with
  | waits p => exact h.elim
  | done h' =>
    obtain ⟨k, n, u, v, hat', henv'⟩ := h
    refine (own_keeps hat').bind (by rintro e w ⟨h, -⟩; cases h) ?_
    rintro u' w ⟨-, hat'', heq, -⟩
    exact .ret ⟨some a, w'.env, henv, _, n, u, v, hat'', by rw [heq]; exact henv'⟩

/-! ## Closing -/

theorem drop_keeps (hw : At w₀ F O w) (hx : (h, x) ∈ w₀.socks) (hidle : w₀.Idle x) {r : Progress} :
    Keeps (do hclose h; return r) w fun o w' => o = .ok r ∧ At (w₀.drop h x) F O w' := by
  refine (hclose_keeps hw hx hidle).bind (by rintro e w' ⟨h, -⟩; cases h) ?_
  rintro u w' ⟨-, hat, -⟩
  exact .ret ⟨rfl, hat⟩

/-- `dill_tcp_close` and `dill_ipc_close` before they wait: a listener goes, a connection that is
broken goes as well but for its handle, and with other handles nothing happens. -/
theorem closeOver_keeps {listener : Kind} (hw : At w₀ F O w) (hh : h ∉ w₀.stale)
    (hidle : ∀ x, (h, x) ∈ w₀.socks → w₀.Idle x) :
    Keeps (closeOver kind listener h) w fun o w' =>
      match o with
      | .error _ => At w₀ F O w' ∨ ∃ x, (h, x) ∈ w₀.socks ∧ At (w₀.strand h x) F O w'
      | .ok (.done _) => ∃ x, (h, x) ∈ w₀.socks ∧ At (w₀.drop h x) F O w'
      | .ok (.waits p) => ∃ x, (h, x) ∈ w₀.socks ∧ x.kind = kind ∧ p = .close h x.fd ∧
          At w₀ F O w' := by
  have hstale : h ∉ w.stale := by rwa [hw.stale]
  refine (self_keeps hstale).bind ?_ ?_
  · rintro e w' ⟨rfl, -⟩
    exact .inl hw
  rintro x w' ⟨rfl, hx⟩
  replace hx : (h, x) ∈ w₀.socks := hw.socks ▸ hx
  split
  · refine (drop_keeps hw hx (hidle x hx)).mono ?_
    rintro o w'' ⟨rfl, hat⟩
    exact ⟨x, hx, hat⟩
  refine require_keeps.bind ?_ ?_
  · rintro e w'' ⟨rfl, -⟩
    exact .inl hw
  rintro u w'' ⟨rfl, hkind⟩
  obtain hkind | ⟨-, hkind⟩ := hkind
  · cases hkind
  refine answer_keeps.bind (by rintro e w' ⟨r, env, hr, -⟩; cases hr) ?_
  rintro r w' ⟨r', env, -, rfl, -⟩
  cases r with
  | error e =>
    refine (closeObject_keeps (hw.env env) hx (hidle x hx)).bind (by rintro e w' ⟨h, -⟩; cases h) ?_
    rintro u w' ⟨-, hat⟩
    exact .fail (.inr ⟨x, hx, hat⟩)
  | ok v => exact .ret ⟨x, hx, beq_iff_eq.mp hkind, rfl, hw.env env⟩

theorem closed_keeps (hw : At w₀ F O w) (hx : (h, x) ∈ w₀.socks) (hidle : w₀.Idle x)
    {r : Except Errno Unit} : Keeps (closed h r) w fun o w' =>
      (∀ p, o ≠ .ok (.waits p)) ∧ At (w₀.strand h x) F O w' := by
  cases r with
  | ok u => exact .of_error rfl rfl
  | error e =>
    refine Call.Meets.bind (Q := fun o w' => w' = w ∧ o = .ok x)
      (.of_ok (self_run hw.toBooks (hw.mem hx)) ⟨rfl, rfl⟩) (by rintro e w' ⟨-, h⟩; cases h) ?_
    rintro y w' ⟨rfl, hy⟩
    cases hy
    refine (closeObject_keeps hw hx hidle).bind (by rintro e w' ⟨h, -⟩; cases h) ?_
    rintro u w' ⟨-, hat⟩
    refine require_keeps.bind ?_ ?_
    · rintro e w'' ⟨rfl, -⟩
      exact ⟨nofun, hat⟩
    · rintro u w'' ⟨rfl, -⟩
      exact .ret ⟨nofun, hat⟩

/-! ## Rights -/

theorem openedAll_keeps (fds : List (ℤ × Desc)) {F : List ℤ} {w : World} (hw : At w₀ F O w) :
    Keeps (openedAll fds) w fun o w' =>
      o = .ok () ∧ At w₀ (fds.map Prod.fst ++ F) O w' ∧ w'.env = w.env := by
  induction fds generalizing F w with
  | nil => exact .ret ⟨rfl, hw, rfl⟩
  | cons p fds ih =>
    obtain ⟨s, d⟩ := p
    refine (opened_keeps hw).bind (by rintro e w' ⟨h, -⟩; cases h) ?_
    rintro t w' ⟨-, hat, -, henv, -⟩
    refine (ih hat).mono ?_
    rintro o w'' ⟨rfl, hat', henv'⟩
    exact ⟨rfl, hat'.perm List.perm_middle (.refl _), henv'.trans henv⟩

theorem ipcRecvfd_keeps (hw : At w₀ F O w) (hh : h ∉ w₀.stale) :
    Keeps (ipcRecvfd h) w fun o w' =>
      match o with
      | .error _ => At w₀ F O w'
      | .ok (.done _) => False
      | .ok (.waits p) => ∃ x, (h, x) ∈ w₀.socks ∧ p = .recvfd x.fd ∧ At w₀ F O w' := by
  have hstale : h ∉ w.stale := by rwa [hw.stale]
  refine (hquery_keeps hstale).bind ?_ ?_
  · rintro e w' ⟨rfl, -⟩
    exact hw
  rintro x w' ⟨rfl, hx, -⟩
  refine call_keeps.bind ?_ ?_
  · rintro e w ⟨r, env, rfl, -⟩
    exact hw.env env
  · rintro u w ⟨r, env, rfl, -⟩
    exact .ret ⟨x, hw.socks ▸ hx, rfl, hw.env env⟩

theorem rights_of_ok {b : Reply} {fds : List (ℤ × Desc)} (h : b.rights? = some (.ok fds)) :
    b = .rights (.ok fds) := by
  cases b with
  | rights r =>
    cases r with
    | ok fds' =>
      cases h
      rfl
    | error e =>
      change (if e = .EPIPE ∨ e = .ECONNRESET then _ else _) = _ at h
      split_ifs at h
      cases h
  | _ => cases h

/-- The first descriptor of a message goes to the caller. -/
theorem receivedFd_keeps (hw : At w₀ F O w) {r : Except Errno Unit} :
    Keeps (receivedFd r) w fun o w' =>
      match o with
      | .error _ => At w₀ F O w' ∧ ∀ fd d fds, w.env ≠ .rights (.ok ((fd, d) :: fds)) :: w'.env
      | .ok (.done fd) => ∃ d fds, w.env = .rights (.ok ((fd, d) :: fds)) :: w'.env ∧
          At w₀ (fd :: (fds.map Prod.fst ++ F)) O w'
      | .ok (.waits _) => False := by
  refine result_keeps.bind ?_ ?_
  · rintro e w' ⟨-, rfl⟩
    exact ⟨hw, fun fd d fds h => List.cons_ne_self _ _ h.symm⟩
  rintro u w' ⟨-, rfl⟩
  refine answer_keeps.bind (by rintro e w' ⟨r, env, hr, -⟩; cases hr) ?_
  rintro q w ⟨q', env, hq, rfl, b, henv, hf⟩
  cases hq
  refine result_keeps.bind ?_ ?_
  · rintro e w ⟨he, rfl⟩
    refine ⟨hw.env env, ?_⟩
    intro fd d fds heq
    rw [henv] at heq
    obtain rfl : b = _ := (List.cons.inj heq).1
    cases hf
    cases he
  rintro fds w ⟨hfds, rfl⟩
  subst hfds
  refine (openedAll_keeps fds (hw.env env)).bind (by rintro e w ⟨h, -⟩; cases h) ?_
  rintro u w ⟨-, hat, henv'⟩
  rw [rights_of_ok hf] at henv
  cases fds with
  | nil =>
    refine .fail ⟨hat, ?_⟩
    intro fd d fds heq
    rw [henv] at heq
    cases (List.cons.inj heq).1
  | cons p fds => exact .ret ⟨p.2, fds, by rw [henv, henv'], hat⟩

/-! ## Pairs -/

/-- A fresh end of a pair. -/
def pairDesc : Desc := ⟨some .stream, .unix, false, false⟩

theorem pair_suits : Kind.ipc.Suits { pairDesc with nonblock := true } :=
  ⟨rfl, List.mem_singleton.mpr rfl, rfl⟩

theorem socketpair_keeps (hw : At w₀ F O w) : Keeps socketpair w fun o w' =>
    match o with
    | .error _ => At w₀ F O w' ∧ ∃ r, w.env = .socketpair r :: w'.env
    | .ok fds => At w₀ (fds.2 :: fds.1 :: F) O w' ∧ w.env = .socketpair (.ok fds) :: w'.env ∧
        w'.desc fds.1 = pairDesc ∧ w'.desc fds.2 = pairDesc := by
  refine answer_keeps.bind (by rintro e w' ⟨r, env, hr, -⟩; cases hr) ?_
  rintro r w' ⟨r', env, hr, rfl, b, henv, hf⟩
  cases hr
  cases b with
  | socketpair q =>
    cases hf
    refine result_keeps.bind ?_ ?_
    · rintro e w' ⟨-, rfl⟩
      exact ⟨hw.env env, _, henv⟩
    rintro fds w' ⟨hfds, rfl⟩
    subst hfds
    refine (opened_keeps (hw.env env)).bind (by rintro e w' ⟨h, -⟩; cases h) ?_
    rintro s₁ w₁ ⟨-, hat₁, hdesc₁, henv₁, -⟩
    refine (opened_keeps hat₁).bind (by rintro e w' ⟨h, -⟩; cases h) ?_
    rintro s₂ w₂ ⟨-, hat₂, hdesc₂, henv₂, hkept⟩
    refine .ret ⟨hat₂, by rw [henv, henv₂, henv₁], ?_, hdesc₂⟩
    rw [hkept _ (hat₁.mem_of_free List.mem_cons_self)]
    exact hdesc₁
  | _ => cases hf

/-- The ends of a pair are ready, and nobody waits for them. -/
structure Paired (w₀ : World) (fds : ℤ × ℤ) (F : List ℤ) (O : List ℕ) (w : World) : Prop where
  at_ : At w₀ (fds.1 :: fds.2 :: F) O w
  suits : Kind.ipc.Suits (w.desc fds.1) ∧ Kind.ipc.Suits (w.desc fds.2)

theorem unblock_pair {fds : ℤ × ℤ} {α : Type} {f : M α} {Q : Except Errno α → World → Prop}
    (hw : At w₀ (fds.2 :: fds.1 :: F) O w) (h₁ : w.desc fds.1 = pairDesc)
    (h₂ : w.desc fds.2 = pairDesc)
    (hf : ∀ w', Paired w₀ fds F O w' → w'.env = w.env → Keeps f w' Q) :
    Keeps (do fdUnblock fds.1; fdUnblock fds.2; f) w Q := by
  have hne : fds.2 ≠ fds.1 := by
    have hnodup := (List.nodup_append.mp hw.disjoint).2.1
    intro heq
    exact (List.nodup_cons.mp hnodup).1 (heq ▸ List.mem_cons_self)
  refine (fdUnblock_keeps hw (List.mem_cons_of_mem _ List.mem_cons_self)).bind
    (by rintro e w' ⟨h, -⟩; cases h) ?_
  rintro u w₁ ⟨-, hat₁, hdesc₁, henv₁, hkept₁⟩
  refine (fdUnblock_keeps hat₁ List.mem_cons_self).bind (by rintro e w' ⟨h, -⟩; cases h) ?_
  rintro u w₂ ⟨-, hat₂, hdesc₂, henv₂, hkept₂⟩
  refine hf w₂ ⟨hat₂.perm (List.Perm.swap _ _ _) (.refl _), ?_, ?_⟩ (henv₂.trans henv₁)
  · rw [hkept₂ _ hne.symm, hdesc₁, h₁]
    exact pair_suits
  · rw [hdesc₂, hkept₁ _ hne, h₂]
    exact pair_suits

theorem Paired.idle {fds : ℤ × ℤ} (hw : Paired w₀ fds F O w) {mem : Bool} :
    w₀.Idle ⟨.ipc, fds.1, a, mem⟩ := by
  intro p hp heq
  refine hw.at_.free_not_waited List.mem_cons_self ?_
  rw [hw.at_.calls]
  exact List.mem_map.mpr ⟨p, hp, heq⟩

/-- Two sockets have come. -/
def TwoMore (w₀ : World) (F : List ℤ) (O : List ℕ) : Progress → World → Prop
  | .done _, w => ∃ h x k y, At ((w₀.add h x).add k y) F O w
  | .waits _, _ => False

/-- The first socket of a pair has come. -/
structure OneMore (w₀ : World) (fds : ℤ × ℤ) (F : List ℤ) (O : List ℕ) (a : ℕ) (mem : Bool) (h : ℤ)
    (w : World) : Prop where
  at_ : At (w₀.add h ⟨.ipc, fds.1, a, mem⟩) (fds.2 :: F) O w
  idle : w₀.Idle ⟨.ipc, fds.1, a, mem⟩
  suits : Kind.ipc.Suits (w.desc fds.2)

theorem ipcPairMem_keeps (hw : At w₀ F O w) {conns : ℕ × ℕ} (hne : conns.1 ≠ conns.2)
    (h₁ : conns.1 ∉ w₀.addrs) (h₂ : conns.2 ∉ w₀.addrs) :
    Keeps (ipcPairMem (some conns)) w (Outcome (At w₀ F O) (TwoMore w₀ F O)) := by
  refine (socketpair_keeps hw).bind (fun e w' h => h.1) ?_
  rintro fds w' ⟨hat, -, hdesc₁, hdesc₂⟩
  refine fdClose_label ?_
  refine Call.Meets.bind (Q := Outcome (At w₀ (fds.2 :: F) O) (OneMore w₀ fds F O conns.1 true))
    ?_ (fun e w' h => h) ?_
  · refine fdClose_label ?_
    refine unblock_pair hat hdesc₁ hdesc₂ ?_
    intro w' hpair _
    refine (make_keeps hpair.at_ hpair.suits.1 h₁).mono ?_
    intro o w'' h
    cases o with
    | error e => exact h.1
    | ok s0 =>
      obtain ⟨hat', -, hdesc⟩ := h
      exact ⟨hat', hpair.idle, by rw [hdesc]; exact hpair.suits.2⟩
  · intro s0 w' hone
    have hfree : conns.2 ∉ (w₀.add s0 ⟨.ipc, fds.1, conns.1, true⟩).addrs := by
      rw [add_addrs]
      exact fun hmem => (List.mem_cons.mp hmem).elim (fun heq => hne heq.symm) h₂
    refine Call.Meets.bind (Q := Outcome (At w₀ (fds.2 :: F) O) fun _ => TwoMore w₀ F O (.done 0))
      ?_ (fun e w' h => h) (fun s1 w'' h => .ret h)
    refine hclose_label hone.idle ?_
    refine (make_keeps hone.at_ hone.suits hfree).mono ?_
    intro o w'' h
    cases o with
    | error e => exact h.1
    | ok s1 => exact ⟨_, _, _, _, h.1⟩

/-- The answers to `dill_ipc_pair` when the second handle is refused. -/
def secondRefused (fds : ℤ × ℤ) (a b : ℕ) (h : ℤ) (e : Errno) : List Reply :=
  [.socketpair (.ok fds), .malloc (some a), .malloc (some b), .made (.ok h), .made (.error e)]

/-- `dill_ipc_pair` has failed: nothing is left over, or the memory for the second socket is. -/
def PairLeft (O : List ℕ) (env : List Reply) (O' : List ℕ) (env' : List Reply) : Prop :=
  (O' = O ∧ ∃ used, used.length ≤ 4 ∧ env = used ++ env') ∨
    ∃ fds a b h e, O' = b :: O ∧ env = secondRefused fds a b h e ++ env'

/-- `dill_ipc_pair` has made two sockets; the last answer is the second handle. -/
def PairMade (w₀ : World) (F : List ℤ) (O : List ℕ) (env : List Reply) (r : Progress) (w : World) :
    Prop :=
  TwoMore w₀ F O r w ∧ ∃ used h, used.length = 4 ∧ env = used ++ .made (.ok h) :: w.env

/-- The first half of `dill_ipc_pair`: a socket that owns its memory, and the memory for the second
one. -/
structure HalfMade (w₀ : World) (fds : ℤ × ℤ) (F : List ℤ) (O : List ℕ) (env : List Reply) (a : ℕ)
    (r : ℤ × ℕ) (w : World) : Prop where
  one : OneMore w₀ fds F (r.2 :: O) a false r.1 w
  fresh : r.2 ≠ a ∧ r.2 ∉ w₀.addrs
  env : env = [.socketpair (.ok fds), .malloc (some a), .malloc (some r.2), .made (.ok r.1)] ++ w.env

theorem firstHalf_keeps {fds : ℤ × ℤ} {env : List Reply} (hw : At w₀ (fds.2 :: fds.1 :: F) O w)
    (h₁ : w.desc fds.1 = pairDesc) (h₂ : w.desc fds.2 = pairDesc)
    (henv : env = .socketpair (.ok fds) :: w.env) :
    Keeps (firstHalf fds) w (Outcome (Left w₀ (fds.1 :: fds.2 :: F) (PairLeft O env))
      fun r w' => ∃ a, HalfMade w₀ fds F O env a r w') := by
  refine unblock_pair hw h₁ h₂ ?_
  intro w₁ hpair henv₁
  rw [← henv₁] at henv
  refine (malloc_keeps hpair.at_).bind ?_ ?_
  · rintro e w₂ ⟨hat, r, henv₂⟩
    rw [henv₂] at henv
    exact ⟨O, hat, .inl ⟨rfl, [_, _], Nat.le_add_left 2 2, henv⟩⟩
  rintro a w₂ ⟨hat₂, ha, henv₂, hdesc₂⟩
  rw [henv₂] at henv
  refine free_left ?_
  refine (malloc_keeps hat₂).bind ?_ ?_
  · rintro e w₃ ⟨hat, r, henv₃⟩
    rw [henv₃] at henv
    exact ⟨a :: O, hat, O, rfl, .inl ⟨rfl, [_, _, _], Nat.le_add_left 3 1, henv⟩⟩
  rintro b w₃ ⟨hat₃, hb, henv₃, hdesc₃⟩
  rw [henv₃] at henv
  have hne : b ≠ a := by
    have hnodup := (List.nodup_append.mp (hat₃.heap.nodup_iff.mp hat₃.nodup_heap)).2.1
    exact fun heq => (List.nodup_cons.mp hnodup).1 (heq ▸ List.mem_cons_self)
  have hdesc : w₃.desc = w₁.desc := hdesc₃.trans hdesc₂
  refine Call.Meets.bind (Q := Outcome
    (Left w₀ (fds.1 :: fds.2 :: F) fun O' env' => ∃ O₁, O' = a :: O₁ ∧ PairLeft O env O₁ env')
    fun h w' => At (w₀.add h ⟨.ipc, fds.1, a, true⟩) (fds.2 :: F) (b :: a :: O) w' ∧
      w₃.env = .made (.ok h) :: w'.env ∧ w'.desc = w₃.desc) ?_ (fun e w' h => h) ?_
  · refine free_left ?_
    refine (make_keeps hat₃ (hdesc ▸ hpair.suits.1) ha).mono ?_
    intro o w₄ h
    cases o with
    | error e =>
      obtain ⟨hat, henv₄⟩ := h
      rw [henv₄] at henv
      exact ⟨b :: a :: O, hat, a :: O, rfl, O, rfl, .inl ⟨rfl, [_, _, _, _], le_rfl, henv⟩⟩
    | ok h' => exact h
  rintro s0 w₄ ⟨hat₄, henv₄, hdesc₄⟩
  rw [henv₄] at henv
  refine (own_keeps (hat₄.perm (.refl _) (List.Perm.swap _ _ _))).bind
    (by rintro e w ⟨h, -⟩; cases h) ?_
  rintro u w₅ ⟨-, hat₅, henv₅, hdesc₅⟩
  refine .ret ⟨a, ⟨hat₅, hpair.idle, ?_⟩, ⟨hne, hb⟩, ?_⟩
  · rw [hdesc₅, hdesc₄, hdesc]
    exact hpair.suits.2
  · rw [henv₅]
    exact henv

theorem ipcPair_keeps (hw : At w₀ F O w) :
    Keeps ipcPair w (Outcome (Left w₀ F (PairLeft O w.env)) (PairMade w₀ F O w.env)) := by
  refine (socketpair_keeps hw).bind ?_ ?_
  · rintro e w' ⟨hat, r, henv⟩
    exact ⟨O, hat, .inl ⟨rfl, [_], Nat.le_add_left 1 3, henv⟩⟩
  rintro fds w' ⟨hat, henv, hdesc₁, hdesc₂⟩
  refine fdClose_left ?_
  refine Call.Meets.bind (fdClose_left (firstHalf_keeps hat hdesc₁ hdesc₂ henv)) (fun e w'' h => h) ?_
  rintro ⟨s0, conn1⟩ w₁ ⟨a, hhalf⟩
  have hfree : conn1 ∉ (w₀.add s0 ⟨.ipc, fds.1, a, false⟩).addrs := by
    rw [add_addrs]
    exact fun hmem => (List.mem_cons.mp hmem).elim hhalf.fresh.1 hhalf.fresh.2
  have hmake := make_keeps hhalf.one.at_ hhalf.one.suits hfree
  refine Call.Meets.bind (Q := Outcome (Left w₀ (fds.2 :: F) (PairLeft O w.env)) fun s1 w₂ =>
    At ((w₀.add s0 ⟨.ipc, fds.1, a, false⟩).add s1 ⟨.ipc, fds.2, conn1, true⟩) F (conn1 :: O) w₂ ∧
      w₁.env = .made (.ok s1) :: w₂.env) ?_ (fun e w'' h => h) ?_
  · refine hclose_left hhalf.one.idle (hmake.mono ?_)
    intro o w₂ h
    cases o with
    | error e =>
      obtain ⟨hat₂, henv₂⟩ := h
      refine ⟨conn1 :: O, hat₂, .inr ⟨fds, a, conn1, s0, e, rfl, ?_⟩⟩
      rw [hhalf.env, henv₂]
      rfl
    | ok s1 => exact ⟨h.1, h.2.1⟩
  rintro s1 w₂ ⟨hat₂, henv₂⟩
  refine (own_keeps hat₂).bind (by rintro e w ⟨h, -⟩; cases h) ?_
  rintro u w₃ ⟨-, hat₃, henv₃, -⟩
  refine .ret ⟨⟨_, _, _, _, hat₃⟩, [.socketpair (.ok fds), .malloc (some a), .malloc (some conn1),
    .made (.ok s0)], s1, rfl, ?_⟩
  rw [hhalf.env, henv₂, henv₃]

end Libdill.Ledger
