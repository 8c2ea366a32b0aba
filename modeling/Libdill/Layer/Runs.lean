import Libdill.Foundations.Run
import Libdill.Layer.AllOrNothing

/-!
# Runs with protocol sockets

Any sequence of calls that make sockets, attach and detach protocols and close handles, each on a
handle that is open and is not owned by another socket, with any answers from outside.

* `attach_all_or_nothing_iff`: an attach function closes the socket when it fails, unless a server
  refuses the upgrade to WebSockets.
* `detach_clean_iff`: a detach function closes the socket when it fails, unless it is
  `dill_ws_detach`.
-/

namespace Libdill.Layer

open Foundations Libdill.Sock

/-- The detach functions with their arguments but the handle. -/
inductive Detach
  | prefixSock
  | suffixSock
  | termSock
  | httpSock
  | wsSock (valid : Bool)

/-- The kind of the socket a detach function is for. -/
def Detach.kind : Detach → Kind
  | .prefixSock => .prefixSock
  | .suffixSock => .suffixSock
  | .termSock => .termSock
  | .httpSock => .httpSock
  | .wsSock _ => .wsSock

/-- The layers of the socket under its top. -/
def Detach.inner : Detach → List Kind
  | .httpSock => [.termSock, .suffixSock]
  | _ => []

/-- A call of a detach function. -/
def Detach.call : Detach → ℤ → M (Except Errno ℤ)
  | .prefixSock => prefixDetach
  | .suffixSock => suffixDetach
  | .termSock => termDetach
  | .httpSock => httpDetach
  | .wsSock valid => fun s => wsDetach s valid

/-- The calls of a program: a socket that is no layer is made, or one of the functions is called;
`io` is any call that only sends or receives. -/
inductive Call
  | create (kind : Kind)
  | attach (a : Attach) (s : ℤ)
  | detach (d : Detach) (s : ℤ)
  | close (s : ℤ)
  | closeConn (s : ℤ)
  | io

/-- A call and the answers it gets. -/
structure Act where
  call : Call
  env : List Ans

def Call.run : Call → M Unit
  | .create kind => do
    let _ ← make kind none
  | .attach a s => do
    let _ ← a.call s
  | .detach d s => do
    let _ ← d.call s
  | .close s => do
    let _ ← hclose s
  | .closeConn s => do
    let _ ← connClose s
  | .io => do
    let _ ← reply some

/-- The world after a call. -/
def World.next (w : World) (a : Act) : Except Stop World :=
  (a.call.run { w with env := a.env }).map Prod.snd

/-- Before the first call. -/
def World.init : World where
  objs _ := none
  nused := 0
  nextId := 0
  closed := []
  flags _ := ⟨false, false, false, false⟩
  env := []

/-- The handle that is passed is open and belongs to the caller, and a detach function is called on
a socket of its kind. -/
def Allowed (w : World) (a : Act) : Prop :=
  match a.call with
  | .create kind => kind.isLayer = false
  | .attach _ s => ∃ o, Top w.live s o
  | .detach d s => ∃ o, Top w.live s o ∧ o.kind = d.kind
  | .close s => ∃ o, Top w.live s o
  | .closeConn s => ∃ o, Top w.live s o ∧ (o.kind = .conn ∨ o.kind = .listener)
  | .io => True

variable {w w' : World} {s : ℤ} {o ob : Obj} {env : List Ans}

theorem wf_init : World.init.Wf := by
  have hl : World.init.live = fun _ => none := rfl
  refine ⟨?_, ⟨nofun, nofun⟩, nofun⟩
  rw [hl]
  exact forest_none

theorem holds_own {t : Table} (hw : t.Wf) (htop : Top t.live s o) :
    Holds [] s o (t.closed.count o.id) t :=
  ⟨hw, ⟨o, htop⟩, htop.eq, rfl⟩

/-- A protocol socket stands on something. -/
theorem exists_holds {t : Table} (hw : t.Wf) (htop : Top t.live s o) {d : Detach}
    (hk : o.kind = d.kind) :
    ∃ ob, Holds (d.kind :: d.inner) s ob (t.closed.count ob.id) t := by
  have hlayer : o.kind.isLayer = true := by
    rw [hk]
    cases d <;> rfl
  obtain ⟨u, hu⟩ := hw.typed.based htop.eq hlayer
  cases d with
  | httpSock =>
    obtain ⟨ht, ot, hs, os, hov⟩ := hw.typed.http htop.eq hk
    have hos : os.kind.isLayer = true := by rw [hov.suffixKind]; rfl
    obtain ⟨b, hb⟩ := hw.typed.based hov.suffixObj hos
    obtain ⟨ob, hob, -⟩ := hw.forest.below hov.suffixObj hb
    exact ⟨ob, hw, ⟨o, htop⟩, ⟨o, ht, htop.eq, hk, hov.term, ot, hs, hov.termObj, hov.termKind,
      hov.suffix, os, b, hov.suffixObj, hov.suffixKind, hb, hob⟩, rfl⟩
  | _ =>
    obtain ⟨ob, hob, -⟩ := hw.forest.below htop.eq hu
    exact ⟨ob, hw, ⟨o, htop⟩, ⟨o, u, htop.eq, hk, hu, hob⟩, rfl⟩

/-- A detach function other than `dill_ws_detach`. -/
theorem detach_spec {c : ℕ} (d : Detach) (hd : d.kind ≠ .wsSock) :
    Triple (Met env (Holds (d.kind :: d.inner) s ob c)) (d.call s)
      fun r => Met env (Ended [] ob c r) := by
  cases d with
  | prefixSock => exact framedDetach_spec
  | suffixSock => exact framedDetach_spec
  | termSock => exact termDetach_spec
  | httpSock => exact httpDetach_spec
  | wsSock valid => exact absurd rfl hd

theorem Ended.wf {ks : List Kind} {c : ℕ} {r : Except Errno ℤ} {t : Table}
    (h : Ended ks ob c r t) : t.Wf := by
  cases r with
  | error err => exact Gone.wf h
  | ok u => exact Holds.wf h

/-! ## The invariant -/

/-- The handshake of a connection only sends and receives. -/
theorem connHandshake_spec {Q : Table → Prop} {fl : Flags} :
    Triple (Met env Q) (connHandshake fl) fun _ => Met env Q := by
  unfold connHandshake
  split
  · exact .pure fun _ => id
  · refine (unlessDone_spec call_spec).bind fun r => ?_
    split
    · exact .pure fun _ => id
    · refine recv_spec.bind fun r => ?_
      split
      · exact stop_spec
      · exact .pure fun _ => id
      · exact .pure fun _ => id

/-- `dill_tcp_close` on a connection only invokes the close callback. -/
theorem connClose_conn (hl : w.live s = some o) (hk : o.kind = .conn) {r : Except Errno Unit}
    (hr : connClose s w = .ok (r, w')) : w'.toTable = w.callback s o := by
  unfold connClose at hr
  have hq₁ : hquery s (.sock .listener) w = _ := hquery_live hl
  have hq₂ : hquery s (.sock .conn) w = _ := hquery_live hl
  rw [hk] at hq₁ hq₂
  obtain ⟨x, w₁, hx, hr₁⟩ := bind_ok hr
  rw [hq₁] at hx
  cases hx
  obtain ⟨x, w₁, hx, hr₂⟩ := bind_ok hr₁
  rw [hq₂] at hx
  cases hx
  obtain ⟨x, w₁, hx, hr₃⟩ := bind_ok hr₂
  rw [self_live hl] at hx
  cases hx
  obtain ⟨fl, w₁, hfl, hr₄⟩ := bind_ok hr₃
  cases hfl
  obtain ⟨x, w₂, hx, hr₅⟩ := bind_ok hr₄
  have hkeep := connHandshake_spec (Q := fun t => t = w.toTable) w x w₂
    ⟨⟨[], rfl, nofun⟩, rfl⟩ hx
  obtain ⟨y, w₃, hy, hr₆⟩ := bind_ok hr₅
  cases hr₆
  cases hy
  show w₂.callback s o = w.callback s o
  rw [hkeep.holds]

theorem connClose_wf (hw : w.Wf) (htop : Top w.live s o) (hk : o.kind = .conn ∨ o.kind = .listener)
    {r : Except Errno Unit} (hr : connClose s w = .ok (r, w')) : w'.Wf := by
  rcases hk with hk | hk
  · rw [connClose_conn htop.eq hk hr]
    exact hw.erase htop live_callback rfl ⟨_, rfl⟩
  · unfold connClose at hr
    have hq : hquery s (.sock .listener) w = _ := hquery_live htop.eq
    rw [hk] at hq
    obtain ⟨x, w₁, hx, hr₁⟩ := bind_ok hr
    rw [hq] at hx
    cases hx
    obtain ⟨t', heq, hg⟩ := hclose_total (holds_own hw htop)
    have hrun : hclose s w = .ok (r, w') := hr₁
    rw [heq] at hrun
    cases hrun
    exact hg.wf

theorem make_wf (hw : w.Wf) {kind : Kind} (hk : kind.isLayer = false) {r : Except Errno ℤ}
    (hr : make kind none w = .ok (r, w')) : w'.Wf := by
  obtain ⟨a, rest, -, -, hres⟩ := make_ok hr
  cases r with
  | error e =>
    have hw' : w' = { w with nextId := w.nextId + 1, flags := a.flags, env := rest } := hres
    rw [hw']
    exact ⟨hw.forest.mono (Nat.le_succ _), hw.typed, hw.nonneg⟩
  | ok h =>
    obtain ⟨hh, hn, rfl⟩ := hres
    refine (hw.add kind none hh hn nofun (fun hl => ?_) fun hkind => ?_).1
    · rw [hk] at hl
      cases hl
    · rw [hkind] at hk
      cases hk

theorem Allowed.wf {a : Act} (ha : Allowed w a) (hw : w.Wf) (hr : w.next a = .ok w') :
    w'.Wf := by
  unfold World.next at hr
  obtain ⟨call, env⟩ := a
  have hw₀ : ({ w with env := env } : World).Wf := hw
  have hmet : ∀ {ks : List Kind} {s : ℤ} {ob : Obj} {c : ℕ}, Holds ks s ob c w.toTable →
      Met env (Holds ks s ob c) { w with env := env } := fun h => ⟨⟨[], rfl, nofun⟩, h⟩
  cases hrun : call.run { w with env := env } with
  | error e =>
    rw [hrun] at hr
    cases hr
  | ok p =>
    rw [hrun] at hr
    cases hr
    obtain ⟨x, w₁⟩ := p
    show w₁.Wf
    cases call with
    | create kind =>
      obtain ⟨r, w₂, hm, hx⟩ := bind_ok hrun
      cases hx
      exact make_wf hw₀ ha hm
    | attach at' s =>
      obtain ⟨o, htop⟩ := ha
      obtain ⟨r, w₂, hm, hx⟩ := bind_ok hrun
      cases hx
      rcases attach_spec at' _ r w₁ (hmet (holds_own hw htop)) hm with h | ⟨-, h⟩
      · exact Ended.wf h.holds
      · exact h.wf
    | detach d s =>
      obtain ⟨o, htop, hk⟩ := ha
      obtain ⟨ob, hh⟩ := exists_holds hw htop hk
      obtain ⟨r, w₂, hm, hx⟩ := bind_ok hrun
      cases hx
      by_cases hd : d.kind = .wsSock
      · cases d with
        | wsSock valid =>
          have hpost := wsDetach_spec _ r w₁ (hmet hh) hm
          cases r with
          | error err => exact Holds.wf hpost.holds
          | ok u => exact Holds.wf hpost.holds
        | _ => cases hd
      · exact Ended.wf (detach_spec d hd _ r w₁ (hmet hh) hm).holds
    | close s =>
      obtain ⟨o, htop⟩ := ha
      obtain ⟨r, w₂, hm, hx⟩ := bind_ok hrun
      cases hx
      exact (hclose_spec _ r w₁ (hmet (holds_own hw htop)) hm).2.holds.wf
    | closeConn s =>
      obtain ⟨o, htop, hk⟩ := ha
      obtain ⟨r, w₂, hm, hx⟩ := bind_ok hrun
      cases hx
      exact connClose_wf hw₀ htop hk hm
    | io =>
      obtain ⟨r, w₂, hm, hx⟩ := bind_ok hrun
      cases hx
      obtain ⟨a, rest, -, -, rfl⟩ := reply_ok hm
      exact hw

/-- In every run the handle table is well formed. -/
theorem reach_wf (h : Reach World.next (fun w => w = .init) Allowed w) : w.Wf := by
  apply h.invariant (I := fun w => w.Wf)
  · rintro _ rfl
    exact wf_init
  · intro w a w' hw ha hr
    exact ha.wf hw hr

/-! ## Attaching -/

/-- The close callback of `ob` has been invoked once when the function has failed. Otherwise it has
not been invoked, and is invoked once when the new handle is closed. -/
structure AllOrNothing (w w' : World) (ob : Obj) (r : Except Errno ℤ) : Prop where
  failed : ∀ err, r = .error err → w'.closed.count ob.id = w.closed.count ob.id + 1
  attached : ∀ h, r = .ok h → w'.closed.count ob.id = w.closed.count ob.id ∧
    ∃ t, hclose h w' = .ok (.ok (), { w' with toTable := t }) ∧
      t.closed.count ob.id = w.closed.count ob.id + 1

/-- The answers contain a refusal of the upgrade, and the function is that of a client. -/
def Rejected (a : Attach) (env : List Ans) : Prop :=
  a.isClient = true ∧ ∃ x ∈ env, x.reply.Rejects

/-- **Attach is all or nothing**, exactly when the server does not refuse. -/
theorem attach_all_or_nothing_iff (h : Reach World.next (fun w => w = .init) Allowed w)
    (htop : Top w.live s ob) {a : Attach} {r : Except Errno ℤ}
    (hr : a.call s { w with env := env } = .ok (r, w')) (hall : w'.env = []) :
    AllOrNothing w w' ob r ↔ ¬ Rejected a env := by
  have hmet : Met env (Holds [] s ob (w.closed.count ob.id)) { w with env := env } :=
    ⟨⟨[], rfl, nofun⟩, holds_own (reach_wf h) htop⟩
  have hpost := attach_spec a _ r w' hmet hr
  rcases hpost with hm | ⟨hclient, hleak⟩
  · obtain ⟨pre, henv, hno⟩ := hm.accepted
    rw [hall, List.append_nil] at henv
    refine iff_of_true ?_ fun hrej => ?_
    · cases r with
      | error err => exact ⟨fun _ _ => Gone.count hm.holds, nofun⟩
      | ok k =>
        refine ⟨nofun, fun h hh => ?_⟩
        cases hh
        have hh : Holds (a.layers ++ []) k ob (w.closed.count ob.id) w'.toTable := hm.holds
        obtain ⟨t, heq, hg⟩ := hclose_total hh
        exact ⟨hh.count, t, heq, hg.count⟩
    · obtain ⟨-, x, hx, hrej⟩ := hrej
      rw [henv] at hx
      exact hno x hx hrej
  · obtain ⟨pre, henv, x, hx, hrej⟩ := hleak.refused
    rw [hall, List.append_nil] at henv
    refine iff_of_false (fun haon => ?_) fun hno => hno ⟨hclient, x, henv ▸ hx, hrej⟩
    obtain ⟨err, herr⟩ := hleak.error
    have hfail := haon.failed err herr
    have hcount := hleak.count
    have hsame : ({ w with env := env } : World).closed = w.closed := rfl
    rw [hsame] at hcount
    omega

/-- No socket has a flag set. -/
def noFlags (_ : ℕ) : Flags := ⟨false, false, false, false⟩

/-- A bytestream socket. -/
def stream : Obj := ⟨0, .other true false, none⟩

/-- The bytestream socket is opened with the handle 0. -/
def openStream : Act := ⟨.create (.other true false), [⟨.made (.ok 0), noFlags⟩]⟩

/-- The world after that. -/
def opened : World where
  objs := Function.update (fun _ => none) 0 (some ⟨stream, false⟩)
  nused := 1
  nextId := 1
  closed := []
  flags := noFlags
  env := []

theorem reach_opened : Reach World.next (fun w => w = .init) Allowed opened :=
  .step openStream (.init rfl) rfl rfl

theorem top_opened : Top opened.live 0 stream := by
  have h0 : (0 : ℤ) ≤ 0 := by omega
  have hadd := wf_init.add (.other true false) none h0 rfl nofun nofun nofun
  exact hadd.2

/-- The socket that is given moves to the handle 1, and the new one gets the handle 2. -/
def twoHandles : List Ans := [⟨.made (.ok 1), noFlags⟩, ⟨.made (.ok 2), noFlags⟩]

/-- The call has the result `r`, all answers are taken and `n` close callbacks are invoked. -/
def endedWith (r : Except Errno ℤ) (n : ℕ) (p : Except Errno ℤ × World) : Bool :=
  decide (p.1 = r) && p.2.env.isEmpty && decide (p.2.closed.length = n)

theorem endedWith_iff {r : Except Errno ℤ} {n : ℕ} {p : Except Errno ℤ × World} :
    endedWith r n p = true ↔ p.1 = r ∧ p.2.env = [] ∧ p.2.closed.length = n := by
  unfold endedWith
  rw [Bool.and_eq_true, Bool.and_eq_true, decide_eq_true_eq, decide_eq_true_eq, List.isEmpty_iff,
    and_assoc]

theorem exists_of_endedWith {x : Except Stop (Except Errno ℤ × World)} (r : Except Errno ℤ) (n : ℕ)
    (h : endsIn x (endedWith r n) = true) :
    ∃ w', x = .ok (r, w') ∧ w'.env = [] ∧ w'.closed.length = n := by
  obtain ⟨⟨r', w'⟩, hx, hp⟩ := exists_of_endsIn _ h
  obtain ⟨hr, henv, hn⟩ := endedWith_iff.mp hp
  have hr' : r' = r := hr
  exact ⟨w', hr' ▸ hx, henv, hn⟩

/-- A prefix socket is attached. -/
theorem attach_all_or_nothing_prefix : ∃ w',
    (Attach.prefixMem true 8).call 0 { opened with env := twoHandles } = .ok (.ok 2, w') ∧
    AllOrNothing opened w' stream (.ok 2) := by
  obtain ⟨w', hcall, henv, -⟩ := exists_of_endedWith
    (x := (Attach.prefixMem true 8).call 0 { opened with env := twoHandles }) (.ok 2) 0
    (by decide +kernel)
  refine ⟨w', hcall, ?_⟩
  apply (attach_all_or_nothing_iff reach_opened top_opened hcall henv).mpr
  rintro ⟨hclient, -⟩
  cases hclient

/-- A server answers the request of a client with the status 404. -/
def notFound : List Ans :=
  ([1, 2, 3, 4, 5, 6, 7].map fun h => ⟨.made (.ok h), noFlags⟩) ++
    List.replicate 8 ⟨.call (.ok ()), noFlags⟩ ++ [⟨.status (.ok 404), noFlags⟩]

/-- `dill_ws_attach_client` fails, and the socket under it is still open. -/
theorem attach_refused_leaks : ∃ w',
    (Attach.wsClientMem true false true).call 0 { opened with env := notFound } =
      .ok (.error .EPROTO, w') ∧
    w'.closed = [] ∧ ¬ AllOrNothing opened w' stream (.error .EPROTO) := by
  obtain ⟨w', hcall, -, hclosed⟩ := exists_of_endedWith
    (x := (Attach.wsClientMem true false true).call 0 { opened with env := notFound })
    (.error .EPROTO) 0 (by decide +kernel)
  have hnil := List.length_eq_zero_iff.mp hclosed
  refine ⟨w', hcall, hnil, fun h => ?_⟩
  have hcount := h.failed _ rfl
  rw [hnil] at hcount
  cases hcount

/-! ## Detaching -/

/-- The close callback of `ob` has been invoked once when the function has failed. Otherwise it has
not been invoked, and the handle that is returned is the one of `ob`. -/
structure Clean (w w' : World) (ob : Obj) (r : Except Errno ℤ) : Prop where
  failed : ∀ err, r = .error err → w'.closed.count ob.id = w.closed.count ob.id + 1
  detached : ∀ u, r = .ok u → w'.closed.count ob.id = w.closed.count ob.id ∧ w'.live u = some ob

/-- **A detach that fails closes**, exactly unless it is the terminal handshake of a WebSocket that
does not complete. -/
theorem detach_clean_iff (h : Reach World.next (fun w => w = .init) Allowed w) {d : Detach}
    (htop : Top w.live s o) (hob : Layers w.live ob (d.kind :: d.inner) s) {r : Except Errno ℤ}
    (hr : d.call s { w with env := env } = .ok (r, w')) (hall : w'.env = []) :
    Clean w w' ob r ↔ ∀ valid, d = .wsSock valid → Completes { w with env := env } o valid := by
  have hh : Holds (d.kind :: d.inner) s ob (w.closed.count ob.id) w.toTable :=
    ⟨reach_wf h, ⟨o, htop⟩, hob, rfl⟩
  have hmet : Met env (Holds (d.kind :: d.inner) s ob (w.closed.count ob.id))
      { w with env := env } := ⟨⟨[], rfl, nofun⟩, hh⟩
  by_cases hd : d.kind = .wsSock
  · cases d with
    | wsSock valid =>
      obtain ⟨o', u, ho, hk, hu, hl⟩ := hob
      have hoo : o' = o := Option.some.inj (ho.symm.trans htop.eq)
      subst hoo
      have hpost := (wsDetach_spec _ r w' hmet hr).holds
      have hlayered : Layered .wsSock [] s ob (w.closed.count ob.id) o' u
          ({ w with env := env } : World).toTable := ⟨hh, ho, hk, hu⟩
      have hiff := wsDetach_run hlayered hr hall
      constructor
      · rintro hclean v hv
        cases hv
        refine hiff.mpr ?_
        cases r with
        | error err =>
          have hfail := hclean.failed err rfl
          have hcount := Holds.count hpost
          omega
        | ok k => exact ⟨k, rfl⟩
      · intro hc
        obtain ⟨k, rfl⟩ := hiff.mp (hc valid rfl)
        refine ⟨nofun, fun u hu' => ?_⟩
        cases hu'
        exact ⟨Holds.count hpost, Holds.layers hpost⟩
    | _ => cases hd
  · have hpost := (detach_spec d hd _ r w' hmet hr).holds
    refine iff_of_true ?_ fun valid hv => absurd (congrArg Detach.kind hv) hd
    cases r with
    | error err => exact ⟨fun _ _ => Gone.count hpost, nofun⟩
    | ok k =>
      refine ⟨nofun, fun u hu' => ?_⟩
      cases hu'
      exact ⟨Holds.count hpost, Holds.layers hpost⟩

/-- The world after a socket of a given kind has been attached to the bytestream socket. -/
def layered (kind : Kind) : World where
  objs := Function.update (Function.update (Function.update (Function.update (fun _ => none) 0
    (some ⟨stream, false⟩)) 1 (some ⟨stream, false⟩)) 0 none) 2 (some ⟨⟨1, kind, some 1⟩, false⟩)
  nused := 2
  nextId := 2
  closed := []
  flags := noFlags
  env := []

theorem reach_prefix : Reach World.next (fun w => w = .init) Allowed (layered .prefixSock) :=
  reach_opened.step ⟨.attach (.prefixMem true 8) 0, twoHandles⟩ ⟨stream, top_opened⟩ rfl

/-- A prefix socket is detached. -/
theorem detach_clean_prefix : ∃ w',
    Detach.prefixSock.call 2 { layered .prefixSock with env := [] } = .ok (.ok 1, w') ∧
    Clean (layered .prefixSock) w' stream (.ok 1) := by
  obtain ⟨w', hcall, henv, -⟩ := exists_of_endedWith
    (x := Detach.prefixSock.call 2 { layered .prefixSock with env := [] }) (.ok 1) 0
    (by decide +kernel)
  refine ⟨w', hcall, ?_⟩
  have hl : Layers (layered .prefixSock).live stream [.prefixSock] 2 := ⟨_, 1, rfl, rfl, rfl, rfl⟩
  have htop : Top (layered .prefixSock).live 2 ⟨1, .prefixSock, some 1⟩ := by
    refine ⟨rfl, fun {h' o'} ho hu => ?_⟩
    have hobj := objs_of_live ho
    simp only [layered, Function.update_apply] at hobj
    split_ifs at hobj <;> cases hobj <;> cases hu
  apply (detach_clean_iff reach_prefix htop hl hcall henv).mpr
  rintro valid h
  cases h

/-- The close frame of a WebSocket cannot be sent: `dill_ws_detach` fails, and the socket under it
is still open. -/
theorem ws_detach_leaks : ∃ w',
    (Detach.wsSock true).call 2
      { layered .wsSock with env := [⟨.call (.error .ECONNRESET), noFlags⟩] } =
        .ok (.error .ECONNRESET, w') ∧
    w'.closed = [] ∧ ¬ Clean (layered .wsSock) w' stream (.error .ECONNRESET) := by
  obtain ⟨w', hcall, -, hclosed⟩ := exists_of_endedWith
    (x := (Detach.wsSock true).call 2
      { layered .wsSock with env := [⟨.call (.error .ECONNRESET), noFlags⟩] })
    (.error .ECONNRESET) 0 (by decide +kernel)
  have hnil := List.length_eq_zero_iff.mp hclosed
  refine ⟨w', hcall, hnil, fun h => ?_⟩
  have hcount := h.failed _ rfl
  rw [hnil] at hcount
  cases hcount

end Libdill.Layer
