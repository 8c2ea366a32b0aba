import Libdill.Suffix.Scan
import Libdill.Term.Model

/-!
# The end of an HTTP connection

`http.c` is TERM with an empty terminator over SUFFIX with CRLF: the lines of each direction end with
an empty line, and `dill_http_detach` hands back the bytestream for what comes behind it. Two peers
over a bytestream that is lossless in both directions; `dill_http_detach` is cut at the places where
it waits.

* `detach_eq`: the pieces are the function.
* `step_kept`: what one call makes of what comes in and of what goes out.
* `http_handshake`: each side finds the bytestream behind the empty line of the other one, and no call
  of `dill_http_detach` waits when the other side has sent its empty line.
-/

namespace Libdill.Http

open Foundations Libdill.Sock
open Libdill.Suffix (SuffixSock crlf wireOf)
open Libdill.Term (TermSock)

/-! ## The socket -/

section Calls

variable {σ : Type} (u : Bsock σ) (n : ℕ)

/-- What a call on an HTTP socket works on. -/
abbrev Stack (σ : Type) : Type := TermSock × SuffixSock × σ

/-- The sockets `dill_http_attach_mem` creates. -/
def attach (s : σ) : Stack σ := (⟨[], false, false⟩, crlf.attach, s)

/-- `dill_http_done`. -/
def done : Call (Stack σ) Stop Errno Unit := Term.done (Suffix.msock u n)

/-- `dill_suffix_detach`, as `dill_http_detach` calls it. -/
def leave : Call (Stack σ) Stop Errno Unit := fun s => .ok (s.2.1.detach, s)

/-- With an empty terminator there is no buffer for it. -/
def noJunk : ℕ → UInt8 := fun _ => 0

/-- A turn of the loop in `dill_http_detach`, and what follows the last one: whether it was. -/
def detachTurn : Call (Stack σ) Stop Errno Bool := do
  let last ← Term.drainTurn (Suffix.msock u n) noJunk
  if last then do
    leave
    pure true
  else pure false

/-- `dill_http_detach` before it waits for the first time: whether it has come to its end. -/
def detachStart : Call (Stack σ) Stop Errno Bool := do
  let wait ← Term.detachDone (Suffix.msock u n)
  if wait then pure false
  else do
    leave
    pure true

/-- `dill_http_detach`, with at most `k` turns of its loop. -/
def detach (k : ℕ) : Call (Stack σ) Stop Errno Unit := do
  Term.detach (Suffix.msock u n) noJunk k
  leave

end Calls

section Calls

variable {σ : Type} {u : Bsock σ} {n k : ℕ}

/-- The turns of the loop, for at most `k` of them. -/
def turns (u : Bsock σ) (n : ℕ) : ℕ → Call (Stack σ) Stop Errno Unit
  | 0 => Call.stop .waits
  | k + 1 => do
    let last ← detachTurn u n
    if last then pure () else turns u n k

theorem leave_last (y : Call (Stack σ) Stop Errno Unit) (s : Stack σ) :
    ((leave >>= fun _ => pure true) >>= fun last => if last then pure () else y) s = leave s := by
  cases h : s.2.1.detach with
  | error e =>
    have hleave : leave s = .ok (.error e, s) := by rw [leave, h]
    rw [hleave, Call.bind_fail (Call.bind_fail hleave)]
  | ok r =>
    have hleave : leave s = .ok (.ok r, s) := by rw [leave, h]
    rw [hleave, Call.bind_assoc, Call.bind_ret hleave]
    rfl

theorem drain_leave (s : Stack σ) :
    (Term.drain (Suffix.msock u n) noJunk k >>= fun _ => leave) s = turns u n k s := by
  induction k generalizing s with
  | zero => rfl
  | succ k ih =>
    unfold Term.drain turns detachTurn
    rw [Call.bind_assoc, Call.bind_assoc]
    apply Call.bind_congr
    intro last s'
    cases last with
    | true => exact (leave_last (turns u n k) s').symm
    | false => exact ih s'

/-- **The steps of `dill_http_detach`** are those it has been cut into. -/
theorem detach_eq (s : Stack σ) :
    detach u n k s = (detachStart u n >>= fun last => if last then pure () else turns u n k) s := by
  unfold detach Term.detach detachStart
  rw [Call.bind_assoc, Call.bind_assoc]
  apply Call.bind_congr
  intro wait s'
  cases wait with
  | true => exact drain_leave s'
  | false => exact (leave_last (turns u n k) s').symm

end Calls

/-! ## Two peers -/

/-- Where a peer is: it has not called `dill_http_detach`, it is in the loop of this function, or it
has got the bytestream back. -/
inductive Phase
  | running
  | draining
  | detached
  | failed
  deriving DecidableEq

/-- A peer, with what it has sent after it has got the bytestream back. -/
structure Peer where
  term : TermSock
  suffix : SuffixSock
  phase : Phase
  raw : List UInt8

/-- A line to be sent, from any iolist. -/
structure Line where
  bufs : List (List UInt8)
  nonempty : bufs.flatten ≠ []
  noCrlf : ∀ k, ¬ OccursAt crlf.bytes bufs.flatten k

/-- What a peer does: it sends lines and then, if it wants to, the empty line, it receives lines into
iolists the first element of which is not empty, and it calls `dill_http_detach`, each turn of the
loop of which is a step of its own. After that it sends bytes of the protocol that follows. -/
inductive Op
  | send (m : Line)
  | done
  | recv (first : Elem) (next : List Elem) (room : first.len ≠ 0)
  | detach
  | drain
  | raw (bs : List UInt8)

/-- What comes in and what goes out. -/
abbrev Wires : Type := List UInt8 × List UInt8

/-- A call of a peer, and the phase it leads to; a call that waits has no result yet. -/
def Peer.call {α : Type} (p : Peer) (w : Wires) (x : Call (Stack Wires) Stop Errno α)
    (next : Except Errno α → Phase) : Option (Peer × Wires) :=
  match x (p.term, p.suffix, w) with
  | .error .waits => none
  | .error .fault => some ({ p with phase := .failed }, w)
  | .ok (o, term, suffix, w) => some ({ p with term, suffix, phase := next o }, w)

/-- Where `dill_http_detach` is. -/
def Phase.ofDetach : Except Errno Bool → Phase
  | .ok true => .detached
  | .ok false => .draining
  | .error _ => .failed

/-- A step of a peer. It sends lines until it has sent the empty one, and receives until it has got
it. -/
def Peer.step (p : Peer) (w : Wires) (op : Op) : Option (Peer × Wires) :=
  let n := w.1.length + 1
  match op with
  | .send m =>
    if p.phase = .running ∧ p.term.outdone = false then
      p.call w (Term.msendl (Suffix.msock duplex n) m.bufs) fun _ => .running
    else none
  | .done =>
    if p.phase = .running ∧ p.term.outdone = false then
      p.call w (done duplex n) fun _ => .running
    else none
  | .recv first next _ =>
    if p.phase = .running ∧ p.term.indone = false then
      p.call w (Term.mrecvl (Suffix.msock duplex n) noJunk (first :: next) true) fun _ => .running
    else none
  | .detach =>
    if p.phase = .running then p.call w (detachStart duplex n) Phase.ofDetach else none
  | .drain =>
    if p.phase = .draining then p.call w (detachTurn duplex n) Phase.ofDetach else none
  | .raw bs =>
    if p.phase = .detached then some ({ p with raw := p.raw ++ bs }, w.1, w.2 ++ bs) else none

/-- The two peers and, for each of them, the bytes it has sent that the other one has not read. -/
structure Sys where
  peer : Bool → Peer
  wire : Bool → List UInt8

/-- A step of one of them. -/
def Sys.step (s : Sys) (a : Bool × Op) : Option Sys :=
  ((s.peer a.1).step (s.wire !a.1, s.wire a.1) a.2).map fun r =>
    { peer := fun y => if y = a.1 then r.1 else s.peer y
      wire := fun y => if y = a.1 then r.2.2 else r.2.1 }

/-- Steps of both in any order. -/
def Sys.run (s : Sys) : List (Bool × Op) → Option Sys
  | [] => some s
  | a :: as => (s.step a).bind fun s => s.run as

/-- The two peers when they have attached their sockets. -/
def Sys.init : Sys where
  peer _ := ⟨⟨[], false, false⟩, crlf.attach, .running, []⟩
  wire _ := []

/-! ## The calls -/

variable {t : TermSock} {i o r m : List UInt8} {n : ℕ} {it : Elem} {next : List Elem}

theorem send_run (m : Line) :
    Term.msendl (Suffix.msock duplex n) m.bufs (t, crlf.attach, i, o)
      = .ok (.ok (), t, crlf.attach, i, o ++ (m.bufs.flatten ++ crlf.bytes)) := by
  have hne : m.bufs ≠ [] := by
    intro h
    apply m.nonempty
    rw [h]
    rfl
  have hempty : m.bufs.isEmpty = false := by simpa using hne
  have hsend := @bsendl_duplex (m.bufs ++ [crlf.bytes]) (by simp) i o
  rw [List.flatten_append, List.flatten_singleton] at hsend
  have hrun := @Suffix.msendl_run crlf.attach _ _ _ _ _ hne rfl hsend
  unfold Term.msendl Sock.msendl
  rw [hempty]
  exact below_run hrun

theorem done_run (h : t.outdone = false) (ht : t.term = []) :
    done duplex n (t, crlf.attach, i, o)
      = .ok (.ok (), { t with outdone := true }, crlf.attach, i, o ++ crlf.bytes) := by
  have hsend := @bsendl_duplex ([[]] ++ [crlf.bytes]) (by simp) i o
  rw [List.flatten_append, List.flatten_singleton] at hsend
  have hrun := @Suffix.msendl_run crlf.attach _ _ _ _ [[]] (by simp) rfl hsend
  have hbelow : below ((Suffix.msock duplex n).msendl [t.term]) (t, crlf.attach, i, o)
      = .ok (.ok (), t, crlf.attach, i, o ++ crlf.bytes) := by
    rw [ht]
    exact below_run hrun
  unfold done Term.done
  rw [Call.look_bind, show (t, crlf.attach, i, o).1.outdone = false from h]
  change (Call.require true Errno.EPIPE >>= _) _ = _
  rw [Call.bind_ret Call.require_true, Call.look_bind, Call.bind_ret hbelow]
  rfl

/-- A receive over SUFFIX, with an empty terminator. -/
theorem mrecvl_eq (ht : t.term = []) :
    Term.mrecvl (Suffix.msock duplex n) noJunk (it :: next) true (t, crlf.attach, i, o)
      = (below (Suffix.mrecvl duplex n (it :: next)) >>= fun r =>
          if r.1 = 0 then Term.arrived else pure r) (t, crlf.attach, i, o) := by
  unfold Term.mrecvl
  rw [Call.look_bind, show (t, crlf.attach, i, o).1.term = [] from ht]
  rfl

theorem line_run (ht : t.term = []) (h : CutAt crlf.bytes i m r) (hm : m ≠ []) (hit : it.len ≠ 0)
    (hn : m.length < n) :
    Term.mrecvl (Suffix.msock duplex n) noJunk (it :: next) true (t, crlf.attach, i, o)
      = .ok (.ok (m.length, it.put (m.take it.len) :: next), t, crlf.attach, r, o) := by
  obtain ⟨v', hcut, rfl⟩ := @Suffix.mrecvl_cut _ _ _ _ crlf.attach i m r it next n (yields_duplex o)
    h rfl rfl (fun _ => hit) hn
  have hpos : m.length ≠ 0 := fun h0 => hm (List.length_eq_zero_iff.mp h0)
  rw [mrecvl_eq ht, Call.bind_ret (below_run hcut), if_neg hpos]
  rfl

theorem end_run (ht : t.term = []) (h : CutAt crlf.bytes i [] r) (hn : 0 < n) :
    Term.mrecvl (Suffix.msock duplex n) noJunk (it :: next) true (t, crlf.attach, i, o)
      = .ok (.error .EPIPE, { t with indone := true }, crlf.attach, r, o) := by
  obtain ⟨v', hcut, rfl⟩ := @Suffix.mrecvl_cut _ _ _ _ crlf.attach i [] r it next n
    (yields_duplex o) h rfl rfl (fun hne => absurd rfl hne) hn
  rw [mrecvl_eq ht, Call.bind_ret (below_run hcut), if_pos (show ([] : List UInt8).length = 0 from rfl)]
  rfl

/-- Without a line a receive waits. -/
theorem wait_run (ht : t.term = []) :
    Term.mrecvl (Suffix.msock duplex n) noJunk (it :: next) true (t, crlf.attach, [], o)
      = .error .waits := by
  have hwait : Suffix.mrecvl duplex n (it :: next) (crlf.attach, [], o) = .error .waits := rfl
  rw [mrecvl_eq ht, Call.bind_stop (below_stop hwait)]

/-! ## What is on a wire -/

/-- A peer before and after any step. -/
structure Peer.Ok (p : Peer) : Prop where
  term : p.term.term = []
  suffix : p.suffix = crlf.attach
  sent : p.phase ≠ .running → p.term.outdone = true
  draining : p.phase = .draining → p.term.indone = false
  detached : p.phase = .detached → p.term.indone = true
  raw : p.phase ≠ .detached → p.raw = []
  fine : p.phase ≠ .failed

/-- From the peer `x` to the peer `y` there are the lines `q`, the empty line if it has been sent and
not read, and then whatever has been sent behind it. -/
structure Link (x y : Peer) (q : List (List UInt8)) (w : List UInt8) : Prop where
  wire : w = wireOf crlf q ++ (if x.term.outdone && !y.term.indone then crlf.bytes else []) ++ x.raw
  lines : ∀ m ∈ q, m ≠ [] ∧ Free crlf.bytes m
  ended : y.term.indone = true → q = [] ∧ x.term.outdone = true

/-- Lines do not contain CRLF, and cannot form one with the one that follows. -/
theorem Line.free (m : Line) : Free crlf.bytes m.bufs.flatten := by
  intro k hk hocc
  have hdrop : (m.bufs.flatten ++ crlf.bytes).drop k = m.bufs.flatten.drop k ++ crlf.bytes :=
    List.drop_append_of_le_length (le_of_lt hk)
  unfold OccursAt at hocc
  rw [hdrop] at hocc
  have hlen : (m.bufs.flatten.drop k).length = m.bufs.flatten.length - k := List.length_drop
  by_cases htwo : 2 ≤ m.bufs.flatten.length - k
  · apply m.noCrlf k
    exact List.prefix_of_prefix_length_le hocc (List.prefix_append _ _) (by rw [hlen]; exact htwo)
  · obtain ⟨c, hc⟩ := List.length_eq_one_iff.mp (show (m.bufs.flatten.drop k).length = 1 by omega)
    rw [hc] at hocc
    obtain ⟨rest, hrest⟩ := hocc
    injection hrest with h1 h2
    injection h2 with h2 h3
    cases h2

variable {p p' x y z : Peer} {q : List (List UInt8)} {w w' : Wires} {op : Op}

theorem Peer.Ok.of_running (ht : p.term.term = []) (hs : p.suffix = crlf.attach)
    (hph : p.phase = .running) (hraw : p.raw = []) : p.Ok := by
  constructor <;> simp_all

theorem Peer.Ok.of_draining (ht : p.term.term = []) (hs : p.suffix = crlf.attach)
    (hph : p.phase = .draining) (hraw : p.raw = []) (hout : p.term.outdone = true)
    (hin : p.term.indone = false) : p.Ok := by
  constructor <;> simp_all

theorem Peer.Ok.of_detached (ht : p.term.term = []) (hs : p.suffix = crlf.attach)
    (hph : p.phase = .detached) (hout : p.term.outdone = true) (hin : p.term.indone = true) :
    p.Ok := by
  constructor <;> simp_all

theorem Peer.Ok.raw_nil (hx : x.Ok) (hout : x.term.outdone = false) : x.raw = [] := by
  apply hx.raw
  intro hph
  have hsent := hx.sent (by rw [hph]; decide)
  rw [hout] at hsent
  cases hsent

theorem Link.open {w : List UInt8} (h : Link x y q w) (hout : x.term.outdone = false) :
    y.term.indone = false := by
  cases hin : y.term.indone with
  | false => rfl
  | true =>
    have hend := (h.ended hin).2
    rw [hout] at hend
    cases hend

/-- The next line. -/
theorem Link.line {m : List UInt8} {w : List UInt8} (h : Link x y (m :: q) w) :
    ∃ w', CutAt crlf.bytes w m w' ∧ m ≠ [] ∧ y.term.indone = false ∧
      ∀ y' : Peer, y'.term.indone = false → Link x y' q w' := by
  obtain ⟨⟨hm, hfree⟩, hlines⟩ := List.forall_mem_cons.mp h.lines
  have hopen : y.term.indone = false := by
    cases hin : y.term.indone with
    | false => rfl
    | true => exact absurd (h.ended hin).1 (List.cons_ne_nil m q)
  have hwire := h.wire
  refine ⟨wireOf crlf q ++ (if x.term.outdone && !y.term.indone then crlf.bytes else []) ++ x.raw,
    ?_, hm, hopen, ?_⟩
  · rw [hwire]
    unfold wireOf
    rw [List.flatMap_cons, List.append_assoc (m ++ crlf.bytes), List.append_assoc (m ++ crlf.bytes)]
    exact cutAt_append hfree _
  · intro y' hy'
    refine ⟨?_, hlines, fun hin => ?_⟩
    · rw [hopen, hy']
    · rw [hy'] at hin
      cases hin

/-- The empty line. -/
theorem Link.end {w : List UInt8} (h : Link x y [] w) (hout : x.term.outdone = true)
    (hin : y.term.indone = false) :
    CutAt crlf.bytes w [] x.raw ∧ ∀ y' : Peer, y'.term.indone = true → Link x y' [] x.raw := by
  have hwire := h.wire
  rw [hout, hin] at hwire
  refine ⟨?_, fun y' hy' => ⟨?_, h.lines, fun _ => ⟨rfl, hout⟩⟩⟩
  · rw [hwire]
    exact @cutAt_append _ crlf.bytes [] (fun k hk => absurd hk (Nat.not_lt_zero k)) x.raw
  · rw [hy', Bool.not_true, Bool.and_false]
    rfl

/-- As long as there is neither, a receive waits. -/
theorem Link.empty {w : List UInt8} (h : Link x y [] w) (hx : x.Ok) (hout : x.term.outdone = false) :
    w = [] := by
  have hraw : x.raw = [] := hx.raw_nil hout
  have hwire := h.wire
  rw [hout, hraw] at hwire
  exact hwire

/-- What receiving one message makes of the link. -/
theorem Link.receive {w : List UInt8} (h : Link x y q w) (hx : x.Ok) (hin : y.term.indone = false) :
    (∃ m q' w', q = m :: q' ∧ CutAt crlf.bytes w m w' ∧ m ≠ [] ∧
      ∀ y' : Peer, y'.term.indone = false → Link x y' q' w') ∨
    (q = [] ∧ x.term.outdone = true ∧ CutAt crlf.bytes w [] x.raw ∧
      ∀ y' : Peer, y'.term.indone = true → Link x y' [] x.raw) ∨
    (q = [] ∧ x.term.outdone = false ∧ w = []) := by
  cases q with
  | cons m q =>
    obtain ⟨w', hcut, hm, -, hlink⟩ := h.line
    exact .inl ⟨m, q, w', rfl, hcut, hm, hlink⟩
  | nil =>
    right
    cases hout : x.term.outdone with
    | true =>
      obtain ⟨hcut, hlink⟩ := h.end hout hin
      exact .inl ⟨rfl, rfl, hcut, hlink⟩
    | false => exact .inr ⟨rfl, rfl, h.empty hx hout⟩

theorem Link.congr {x' y' : Peer} {w : List UInt8} (h : Link x y q w)
    (hout : x'.term.outdone = x.term.outdone) (hraw : x'.raw = x.raw)
    (hin : y'.term.indone = y.term.indone) : Link x' y' q w := by
  refine ⟨?_, h.lines, ?_⟩
  · rw [hout, hraw, hin]
    exact h.wire
  · rw [hout, hin]
    exact h.ended

/-- A line is sent. -/
theorem Link.send {w : List UInt8} (h : Link x y q w) (hx : x.Ok) (hout : x.term.outdone = false)
    (m : Line) : Link x y (q ++ [m.bufs.flatten]) (w ++ (m.bufs.flatten ++ crlf.bytes)) := by
  have hopen : y.term.indone = false := h.open hout
  have hraw : x.raw = [] := hx.raw_nil hout
  have hwire := h.wire
  rw [hout, hraw] at hwire
  refine ⟨?_, ?_, fun hin => ?_⟩
  · rw [hwire, hout, hraw]
    simp [wireOf]
  · intro m' hm'
    rcases List.mem_append.mp hm' with hm' | hm'
    · exact h.lines m' hm'
    · rw [List.mem_singleton.mp hm']
      exact ⟨m.nonempty, m.free⟩
  · rw [hopen] at hin
    cases hin

/-- The empty line is sent. -/
theorem Link.done {x' : Peer} {w : List UInt8} (h : Link x y q w) (hx : x.Ok)
    (hout : x.term.outdone = false) (hout' : x'.term.outdone = true) (hraw' : x'.raw = x.raw) :
    Link x' y q (w ++ crlf.bytes) := by
  have hopen : y.term.indone = false := h.open hout
  have hraw : x.raw = [] := hx.raw_nil hout
  have hwire := h.wire
  rw [hout, hraw] at hwire
  refine ⟨?_, h.lines, fun hin => ?_⟩
  · rw [hwire, hout', hraw', hraw, hopen]
    simp
  · rw [hopen] at hin
    cases hin

/-- Bytes of the next protocol are sent. -/
theorem Link.raw {x' : Peer} {w bs : List UInt8} (h : Link x y q w)
    (hout : x'.term.outdone = x.term.outdone) (hraw : x'.raw = x.raw ++ bs) :
    Link x' y q (w ++ bs) := by
  refine ⟨?_, h.lines, ?_⟩
  · rw [h.wire, hout, hraw, List.append_assoc, List.append_assoc]
  · rw [hout]
    exact h.ended

/-! ## One step -/

theorem detachStart_run (ht : t.term = []) :
    detachStart duplex n (t, crlf.attach, i, o)
      = .ok (.ok t.indone, { t with outdone := true }, crlf.attach, i,
          o ++ if t.outdone then [] else crlf.bytes) := by
  have hfinish : Term.finish (Suffix.msock duplex n) (t, crlf.attach, i, o)
      = .ok (.ok (), { t with outdone := true }, crlf.attach, i,
          o ++ if t.outdone then [] else crlf.bytes) := by
    unfold Term.finish
    rw [Call.look_bind]
    change (if t.outdone then pure () else Term.done (Suffix.msock duplex n)) (t, crlf.attach, i, o)
      = _
    cases hout : t.outdone with
    | true =>
      have hsame : ({ t with outdone := true } : TermSock) = t := by rw [← hout]
      rw [if_pos rfl, if_pos rfl, List.append_nil, hsame]
      rfl
    | false =>
      rw [if_neg Bool.false_ne_true, if_neg Bool.false_ne_true]
      exact done_run hout ht
  have hstart : Term.detachDone (Suffix.msock duplex n) (t, crlf.attach, i, o)
      = .ok (.ok (!t.indone), { t with outdone := true }, crlf.attach, i,
          o ++ if t.outdone then [] else crlf.bytes) := by
    unfold Term.detachDone
    rw [Call.bind_ret hfinish]
    rfl
  unfold detachStart
  rw [Call.bind_ret hstart]
  cases t.indone <;> rfl

theorem turn_line (h : Term.mrecvl (Suffix.msock duplex n) noJunk [.null Term.sizeMax] true
      (t, crlf.attach, i, o) = .ok (.ok (m.length, [it]), t, crlf.attach, r, o)) :
    detachTurn duplex n (t, crlf.attach, i, o) = .ok (.ok false, t, crlf.attach, r, o) := by
  have hturn : Term.drainTurn (Suffix.msock duplex n) noJunk (t, crlf.attach, i, o)
      = .ok (.ok false, t, crlf.attach, r, o) := by
    unfold Term.drainTurn
    rw [h]
  unfold detachTurn
  rw [Call.bind_ret hturn]
  rfl

theorem turn_end {t' : TermSock} (h : Term.mrecvl (Suffix.msock duplex n) noJunk
      [.null Term.sizeMax] true (t, crlf.attach, i, o)
        = .ok (.error .EPIPE, t', crlf.attach, r, o)) :
    detachTurn duplex n (t, crlf.attach, i, o) = .ok (.ok true, t', crlf.attach, r, o) := by
  have hturn : Term.drainTurn (Suffix.msock duplex n) noJunk (t, crlf.attach, i, o)
      = .ok (.ok true, t', crlf.attach, r, o) := by
    unfold Term.drainTurn
    rw [h]
    rfl
  unfold detachTurn
  rw [Call.bind_ret hturn]
  rfl

theorem turn_wait (h : Term.mrecvl (Suffix.msock duplex n) noJunk [.null Term.sizeMax] true
      (t, crlf.attach, i, o) = .error .waits) :
    detachTurn duplex n (t, crlf.attach, i, o) = .error .waits := by
  have hturn : Term.drainTurn (Suffix.msock duplex n) noJunk (t, crlf.attach, i, o)
      = .error .waits := by
    unfold Term.drainTurn
    rw [h]
  unfold detachTurn
  rw [Call.bind_stop hturn]

theorem call_ok {α : Type} {x : Call (Stack Wires) Stop Errno α} {next : Except Errno α → Phase}
    {a : Except Errno α} {t' : TermSock} {i' o' : List UInt8} (hp : p.Ok)
    (h : x (p.term, crlf.attach, i, o) = .ok (a, t', crlf.attach, i', o')) :
    p.call (i, o) x next = some ({ p with term := t', phase := next a }, i', o') := by
  unfold Peer.call
  rw [hp.suffix, h, ← hp.suffix]

theorem call_waits {α : Type} {x : Call (Stack Wires) Stop Errno α} {next : Except Errno α → Phase}
    (hp : p.Ok) (h : x (p.term, crlf.attach, i, o) = .error .waits) :
    p.call (i, o) x next = none := by
  unfold Peer.call
  rw [hp.suffix, h]

/-- What a step of `p` does to the two wires, on one of which the peer `x` sends the lines `q`. -/
structure Kept (x p p' : Peer) (q : List (List UInt8)) (i' o o' : List UInt8) : Prop where
  ok : p'.Ok
  into : ∃ q', Link x p' q' i' ∧ q'.length ≤ q.length
  out : ∀ z qz, Link p z qz o → ∃ qz', Link p' z qz' o' ∧ (p.term.outdone = true → qz' = qz)
  outdone : p.term.outdone = true → p'.term.outdone = true

/-- A step that does not touch what comes in. -/
theorem Kept.of_send {i o o' : List UInt8} (hok : p'.Ok) (hl : Link x p q i)
    (hin : p'.term.indone = p.term.indone)
    (hout : ∀ z qz, Link p z qz o → ∃ qz', Link p' z qz' o' ∧ (p.term.outdone = true → qz' = qz))
    (hdone : p.term.outdone = true → p'.term.outdone = true) : Kept x p p' q i o o' where
  ok := hok
  into := ⟨q, hl.congr rfl rfl hin, le_refl _⟩
  out := hout
  outdone := hdone

/-- A step that does not touch what goes out. -/
theorem Kept.of_receive {i' o : List UInt8} {q' : List (List UInt8)} (hok : p'.Ok)
    (hl : Link x p' q' i') (hle : q'.length ≤ q.length) (hraw : p'.raw = p.raw)
    (hdone : p'.term.outdone = p.term.outdone) : Kept x p p' q i' o o where
  ok := hok
  into := ⟨q', hl, hle⟩
  out _ qz h := ⟨qz, h.congr hdone hraw rfl, fun _ => rfl⟩
  outdone h := by rw [hdone, h]

theorem step_send {i' o' : List UInt8} {m : Line} (hp : p.Ok) (hl : Link x p q i)
    (h : p.step (i, o) (.send m) = some (p', i', o')) : Kept x p p' q i' o o' := by
  unfold Peer.step at h
  simp only at h
  split at h
  · rename_i hc
    rw [call_ok hp (send_run m)] at h
    have hsame : ({ p with phase := .running } : Peer) = p := by rw [← hc.1]
    rw [hsame] at h
    cases h
    refine Kept.of_send hp hl rfl (fun z qz hz => ⟨_, hz.send hp hc.2 m, ?_⟩) id
    intro hout
    rw [hc.2] at hout
    cases hout
  · cases h

theorem step_done {i' o' : List UInt8} (hp : p.Ok) (hl : Link x p q i)
    (h : p.step (i, o) .done = some (p', i', o')) : Kept x p p' q i' o o' := by
  unfold Peer.step at h
  simp only at h
  split at h
  · rename_i hc
    rw [call_ok hp (done_run hc.2 hp.term)] at h
    cases h
    have hok : Peer.Ok { p with term := { p.term with outdone := true }, phase := .running } :=
      .of_running hp.term hp.suffix rfl (hp.raw_nil hc.2)
    refine Kept.of_send hok hl rfl (fun z qz hz => ⟨qz, hz.done hp hc.2 rfl rfl, fun _ => rfl⟩) ?_
    exact fun _ => rfl
  · cases h

theorem step_raw {i' o' bs : List UInt8} (hp : p.Ok) (hl : Link x p q i)
    (h : p.step (i, o) (.raw bs) = some (p', i', o')) : Kept x p p' q i' o o' := by
  unfold Peer.step at h
  simp only at h
  split at h
  · rename_i hc
    cases h
    have hok : Peer.Ok { p with raw := p.raw ++ bs } :=
      .of_detached hp.term hp.suffix hc (hp.sent (by rw [hc]; decide)) (hp.detached hc)
    exact Kept.of_send hok hl rfl (fun z qz hz => ⟨qz, hz.raw rfl rfl, fun _ => rfl⟩) id
  · cases h

theorem step_detach {i' o' : List UInt8} (hp : p.Ok) (hl : Link x p q i)
    (h : p.step (i, o) .detach = some (p', i', o')) : Kept x p p' q i' o o' := by
  unfold Peer.step at h
  simp only at h
  split at h
  · rename_i hc
    rw [call_ok hp (detachStart_run hp.term)] at h
    cases h
    have hraw : p.raw = [] := hp.raw (by rw [hc]; decide)
    have hok : Peer.Ok { p with
        term := { p.term with outdone := true }, phase := Phase.ofDetach (.ok p.term.indone) } := by
      cases hin : p.term.indone with
      | false =>
        exact .of_draining hp.term hp.suffix rfl hraw rfl hin
      | true =>
        exact .of_detached hp.term hp.suffix rfl rfl hin
    refine Kept.of_send hok hl rfl ?_ (fun _ => rfl)
    intro z qz hz
    refine ⟨qz, ?_, fun _ => rfl⟩
    cases hout : p.term.outdone with
    | false => exact hz.done hp hout rfl rfl
    | true =>
      rw [if_pos rfl, List.append_nil]
      exact hz.congr hout.symm rfl rfl
  · cases h

/-- A receive takes a line, finds the end or waits. -/
theorem step_recv {i' o' : List UInt8} {hit : it.len ≠ 0} (hp : p.Ok) (hx : x.Ok)
    (hl : Link x p q i) (h : p.step (i, o) (.recv it next hit) = some (p', i', o')) :
    Kept x p p' q i' o o' := by
  unfold Peer.step at h
  simp only at h
  split at h
  · rename_i hc
    have hraw : p.raw = [] := hp.raw (by rw [hc.1]; decide)
    have hok : ∀ t : TermSock, t.term = [] → Peer.Ok { p with term := t, phase := .running } :=
      fun t ht => .of_running ht hp.suffix rfl hraw
    rcases hl.receive hx hc.2 with ⟨m, q', w', rfl, hcut, hm, hlink⟩ | ⟨rfl, -, hcut, hlink⟩ |
        ⟨-, -, rfl⟩
    · rw [call_ok hp (line_run hp.term hcut hm hit (by
        rw [hcut.eq]
        simp only [List.length_append]
        omega))] at h
      cases h
      exact Kept.of_receive (hok p.term hp.term) (hlink _ hc.2) (by simp) rfl rfl
    · rw [call_ok hp (end_run hp.term hcut (Nat.succ_pos _))] at h
      cases h
      exact Kept.of_receive (hok _ hp.term) (hlink _ rfl) (le_refl _) rfl rfl
    · rw [call_waits hp (wait_run hp.term)] at h
      cases h
  · cases h

/-- **A turn of the loop** of `dill_http_detach` comes closer to the empty line. -/
theorem step_drain (hp : p.Ok) (hx : x.Ok) (hl : Link x p q i) (hc : p.phase = .draining) :
    (∃ p' i' q', p.step (i, o) .drain = some (p', i', o) ∧ Kept x p p' q i' o o ∧
      Link x p' q' i' ∧ ((p'.phase = .draining ∧ q'.length < q.length) ∨ p'.phase = .detached)) ∨
    (p.step (i, o) .drain = none ∧ x.term.outdone = false) := by
  have hraw : p.raw = [] := hp.raw (by rw [hc]; decide)
  have hopen : p.term.indone = false := hp.draining hc
  have hsent : p.term.outdone = true := hp.sent (by rw [hc]; decide)
  have hmax : (Elem.null Term.sizeMax).len ≠ 0 := by decide
  have hstep : p.step (i, o) .drain
      = p.call (i, o) (detachTurn duplex (i.length + 1)) Phase.ofDetach := by
    unfold Peer.step
    simp only [hc, if_true]
  rw [hstep]
  rcases hl.receive hx hopen with ⟨m, q', w', rfl, hcut, hm, hlink⟩ | ⟨rfl, -, hcut, hlink⟩ |
      ⟨-, hout, rfl⟩
  · left
    have hlen : m.length < i.length + 1 := by
      rw [hcut.eq]
      simp only [List.length_append]
      omega
    rw [call_ok hp (turn_line (line_run hp.term hcut hm hmax hlen))]
    have hok : Peer.Ok { p with phase := Phase.ofDetach (.ok false) } :=
      .of_draining hp.term hp.suffix rfl hraw hsent hopen
    exact ⟨_, _, q', rfl, Kept.of_receive hok (hlink _ hopen) (by simp) rfl rfl, hlink _ hopen,
      .inl ⟨rfl, by simp⟩⟩
  · left
    rw [call_ok hp (turn_end (end_run hp.term hcut (Nat.succ_pos _)))]
    have hok : Peer.Ok { p with
        term := { p.term with indone := true }, phase := Phase.ofDetach (.ok true) } :=
      .of_detached hp.term hp.suffix rfl hsent rfl
    exact ⟨_, _, [], rfl, Kept.of_receive hok (hlink _ rfl) (le_refl _) rfl rfl, hlink _ rfl,
      .inr rfl⟩
  · right
    exact ⟨call_waits hp (turn_wait (wait_run hp.term)), hout⟩

/-- **One step.** -/
theorem step_kept {i' o' : List UInt8} (hp : p.Ok) (hx : x.Ok) (hl : Link x p q i)
    (h : p.step (i, o) op = some (p', i', o')) : Kept x p p' q i' o o' := by
  cases op with
  | send m => exact step_send hp hl h
  | done => exact step_done hp hl h
  | recv first next room => exact step_recv hp hx hl h
  | detach => exact step_detach hp hl h
  | raw bs => exact step_raw hp hl h
  | drain =>
    have hc : p.phase = .draining := by
      by_contra hne
      unfold Peer.step at h
      simp only [hne, if_false] at h
      cases h
    rcases step_drain hp hx hl hc with ⟨_, _, _, hstep, hkept, -⟩ | ⟨hstep, -⟩
    · rw [hstep] at h
      cases h
      exact hkept
    · rw [hstep] at h
      cases h

/-- A peer that has called `dill_http_detach` does nothing else until it has got the bytestream, and
then it only sends on this. -/
theorem step_after (hne : p.phase ≠ .running) (hop : op ≠ .drain) (h : p.step w op = some (p', w')) :
    p.phase = .detached ∧ p'.phase = .detached := by
  unfold Peer.step at h
  cases op with
  | raw bs =>
    simp only at h
    split at h
    · rename_i hc
      cases h
      exact ⟨hc, hc⟩
    · cases h
  | drain => exact absurd rfl hop
  | send m => simp [hne] at h
  | done => simp [hne] at h
  | recv first next room => simp [hne] at h
  | detach => simp [hne] at h

/-! ## Runs -/

/-- The peers and the wires in any reachable state. -/
structure Sys.Inv (s : Sys) : Prop where
  ok : ∀ x, (s.peer x).Ok
  link : ∀ x, ∃ q, Link (s.peer x) (s.peer !x) q (s.wire x)

variable {s s' : Sys} {a b : Bool} {k : ℕ}

theorem inv_init : Sys.init.Inv where
  ok _ := .of_running rfl rfl rfl rfl
  link _ := ⟨[], rfl, by simp, fun h => by cases h⟩

theorem Sys.Inv.into (hs : s.Inv) (x : Bool) :
    ∃ q, Link (s.peer !x) (s.peer x) q (s.wire !x) := by
  have h := hs.link !x
  rw [Bool.not_not] at h
  exact h

theorem step_eq_some (h : s.step (a, op) = some s') :
    ∃ p' i' o', (s.peer a).step (s.wire !a, s.wire a) op = some (p', i', o') ∧ s'.peer a = p' ∧
      (s'.peer !a) = (s.peer !a) ∧ s'.wire a = o' ∧ (s'.wire !a) = i' := by
  unfold Sys.step at h
  obtain ⟨⟨p', i', o'⟩, hstep, rfl⟩ := Option.map_eq_some_iff.mp h
  refine ⟨p', i', o', hstep, ?_, ?_, ?_, ?_⟩ <;> cases a <;> rfl

theorem Sys.Inv.kept (hs : s.Inv) (h : s.step (a, op) = some s') {q : List (List UInt8)}
    (hl : Link (s.peer !a) (s.peer a) q (s.wire !a)) :
    Kept (s.peer !a) (s.peer a) (s'.peer a) q (s'.wire !a) (s.wire a) (s'.wire a) := by
  obtain ⟨p', i', o', hstep, hp, -, ho, hi⟩ := step_eq_some h
  rw [hp, ho, hi]
  exact step_kept (hs.ok a) (hs.ok !a) hl hstep

theorem other_peer (h : s.step (a, op) = some s') : (s'.peer !a) = (s.peer !a) := by
  obtain ⟨_, _, _, -, -, hother, -⟩ := step_eq_some h
  exact hother

/-- **Every step keeps the invariant.** -/
theorem Sys.Inv.step (hs : s.Inv) (h : s.step (a, op) = some s') : s'.Inv := by
  obtain ⟨q, hl⟩ := hs.into a
  have hkept := hs.kept h hl
  have hother := other_peer h
  constructor
  · intro y
    by_cases hy : y = a
    · rw [hy]
      exact hkept.ok
    · rw [Bool.eq_not_of_ne hy, hother]
      exact hs.ok !a
  · intro y
    by_cases hy : y = a
    · obtain ⟨qz, hz⟩ := hs.link a
      obtain ⟨qz', hz', -⟩ := hkept.out _ qz hz
      rw [hy, hother]
      exact ⟨qz', hz'⟩
    · obtain ⟨q', hq', -⟩ := hkept.into
      rw [Bool.eq_not_of_ne hy, Bool.not_not, hother]
      exact ⟨q', hq'⟩

theorem Sys.Inv.run (hs : s.Inv) {as : List (Bool × Op)} (h : s.run as = some s') : s'.Inv := by
  induction as generalizing s with
  | nil =>
    cases h
    exact hs
  | cons a as ih =>
    obtain ⟨s₁, h₁, hrest⟩ := Option.bind_eq_some_iff.mp h
    exact ih (hs.step h₁) hrest

/-! ## The loop ends -/

/-- A turn of the loop of `x`. -/
def drains (x : Bool) : Bool × Op → Bool
  | (y, .drain) => y == x
  | _ => false

/-- The other peer has sent its empty line, and the loop of `x` takes at most `k` more turns. -/
structure Left (s : Sys) (x : Bool) (k : ℕ) : Prop where
  sent : (s.peer !x).term.outdone = true
  rank : ((s.peer x).phase = .draining ∧
    ∃ q, Link (s.peer !x) (s.peer x) q (s.wire !x) ∧ q.length < k) ∨ (s.peer x).phase = .detached

/-- A turn of the loop. -/
theorem Left.drain {x : Bool} (hs : s.Inv) (hk : Left s x k) (h : s.step (x, .drain) = some s') :
    0 < k ∧ Left s' x (k - 1) := by
  obtain ⟨p', i', o', hstep, hp, hother, ho, hi⟩ := step_eq_some h
  rcases hk.rank with ⟨hc, q, hl, hlt⟩ | hc
  · refine ⟨by omega, ?_, ?_⟩
    · rw [hother]
      exact hk.sent
    · rw [hother, hp, hi]
      rcases step_drain (hs.ok x) (hs.ok !x) hl hc with
        ⟨p₁, i₁, q₁, hrun, -, hlink, hrank⟩ | ⟨hrun, -⟩
      · rw [hrun] at hstep
        cases hstep
        rcases hrank with ⟨hc₁, hlt₁⟩ | hc₁
        · exact .inl ⟨hc₁, q₁, hlink, by omega⟩
        · exact .inr hc₁
      · rw [hrun] at hstep
        cases hstep
  · unfold Peer.step at hstep
    simp [hc] at hstep

/-- A step of the other peer, or one on the bytestream that `x` has got back. -/
theorem Left.other {x : Bool} (hs : s.Inv) (hk : Left s x k) (h : s.step (a, op) = some s')
    (hop : a = x → op ≠ .drain) : Left s' x k := by
  have hkept := fun q hl => @Sys.Inv.kept _ s s' a hs h q hl
  have hother := other_peer h
  by_cases ha : a = x
  · obtain ⟨p', i', o', hstep, hp, -⟩ := step_eq_some h
    have hne : (s.peer a).phase ≠ .running := by
      rw [ha]
      rcases hk.rank with ⟨hc, -⟩ | hc
      · rw [hc]
        decide
      · rw [hc]
        decide
    obtain ⟨-, hafter⟩ := step_after hne (hop ha) hstep
    rw [← hp, ha] at hafter
    refine ⟨?_, .inr hafter⟩
    rw [← ha, hother, ha]
    exact hk.sent
  · obtain rfl : a = !x := Bool.eq_not_of_ne ha
    rw [Bool.not_not] at hother
    obtain ⟨q, hl⟩ := hs.into !x
    have hkept := hkept q hl
    refine ⟨hkept.outdone hk.sent, ?_⟩
    rw [hother]
    rcases hk.rank with ⟨hc, qx, hlx, hlt⟩ | hc
    · obtain ⟨qx', hlx', hsame⟩ := hkept.out _ qx hlx
      exact .inl ⟨hc, qx', hlx', by rw [hsame hk.sent]; exact hlt⟩
    · exact .inr hc

/-- **The loop takes a bounded number of turns** in any run. -/
theorem Left.run {x : Bool} (hs : s.Inv) (hk : Left s x k) {as : List (Bool × Op)}
    (h : s.run as = some s') : as.countP (drains x) ≤ k := by
  induction as generalizing s k with
  | nil => exact Nat.zero_le k
  | cons a as ih =>
    obtain ⟨y, op⟩ := a
    obtain ⟨s₁, h₁, hrest⟩ := Option.bind_eq_some_iff.mp h
    rw [List.countP_cons]
    by_cases hd : y = x ∧ op = .drain
    · obtain ⟨rfl, rfl⟩ := hd
      obtain ⟨hpos, hleft⟩ := hk.drain hs h₁
      have hle := ih (hs.step h₁) hleft hrest
      have hone : drains y (y, .drain) = true := beq_self_eq_true y
      rw [if_pos hone]
      omega
    · have hleft := hk.other hs h₁ fun hy hop => hd ⟨hy, hop⟩
      have hle := ih (hs.step h₁) hleft hrest
      have hzero : drains x (y, op) = false := by
        cases op <;> simp_all [drains]
      rw [hzero]
      exact hle

/-! ## The handshake -/

/-- What holds in every reachable state. -/
structure Handshake (s : Sys) : Prop where
  /-- No call of `dill_http_detach` fails. -/
  fine : ∀ x, (s.peer x).phase ≠ .failed
  /-- Behind the last byte that a peer has read before it got the bytestream back there is what the
  other one has sent after its empty line, and nothing else. -/
  position : ∀ x, (s.peer x).phase = .detached → (s.wire !x) = (s.peer !x).raw
  /-- `dill_http_detach` starts without waiting. -/
  starts : ∀ x, (s.peer x).phase = .running → ∃ s', s.step (x, .detach) = some s'
  /-- A peer that has called it has sent its empty line. -/
  sent : ∀ x, (s.peer x).phase ≠ .running → (s.peer x).term.outdone = true
  /-- When the other one has sent its empty line, the loop does not wait and comes to an end. -/
  returns : ∀ x, (s.peer x).phase = .draining → (s.peer !x).term.outdone = true →
    (∃ s', s.step (x, .drain) = some s') ∧
      ∃ k, ∀ as s', s.run as = some s' → as.countP (drains x) ≤ k

/-- **The HTTP handshake.** -/
theorem http_handshake (as : List (Bool × Op)) (s : Sys) (h : Sys.init.run as = some s) :
    Handshake s := by
  have hs := inv_init.run h
  refine ⟨fun x => (hs.ok x).fine, ?_, ?_, fun x => (hs.ok x).sent, ?_⟩
  · intro x hc
    obtain ⟨q, hl⟩ := hs.into x
    have hin := (hs.ok x).detached hc
    have hwire := hl.wire
    rw [(hl.ended hin).1, hin, Bool.not_true, Bool.and_false] at hwire
    exact hwire
  · intro x hc
    have hrun : (s.peer x).call (s.wire !x, s.wire x)
        (detachStart duplex ((s.wire !x).length + 1)) Phase.ofDetach = _ :=
      call_ok (hs.ok x) (detachStart_run (hs.ok x).term)
    unfold Sys.step Peer.step
    simp only [hc, if_true]
    rw [hrun]
    exact ⟨_, rfl⟩
  · intro x hc hout
    obtain ⟨q, hl⟩ := hs.into x
    constructor
    · rcases @step_drain _ (s.wire x) _ _ _ (hs.ok x) (hs.ok !x) hl hc with
        ⟨_, _, _, hstep, -⟩ | ⟨-, hwait⟩
      · unfold Sys.step
        rw [hstep]
        exact ⟨_, rfl⟩
      · rw [hout] at hwait
        cases hwait
    · refine ⟨q.length + 1, fun as s' hrun => ?_⟩
      have hleft : Left s x (q.length + 1) := ⟨hout, .inl ⟨hc, q, hl, Nat.lt_succ_self _⟩⟩
      exact hleft.run hs hrun

/-- Both call `dill_http_detach` at once, and the first of them finds the empty line. -/
def bothDetach : List (Bool × Op) :=
  [(true, .detach), (false, .detach), (true, .drain)]

theorem http_handshake_both : ∃ s, Sys.init.run bothDetach = some s ∧ Handshake s :=
  ⟨_, rfl, http_handshake bothDetach _ rfl⟩

end Libdill.Http
