import Libdill.Foundations.Triple
import Libdill.Ledger.Runs
import Mathlib.Data.List.Count

/-!
# Opening is all or nothing

A call that opens a socket from nothing either leaves the world as it found it, or there is one socket
more, of the kind that the function makes, with one descriptor, which does not block, with its memory,
and with one handle (`open_all_or_nothing`). That is so however often the call waits in between,
whatever other calls do in the meantime and however `malloc`, the kernel or `dill_hmake` answer.
-/

namespace Libdill.Ledger

open Foundations Libdill.Sock

/-- The world without a waiting call and what it has got hold of. -/
def World.without (w : World) (p : Pending) : World :=
  { w with calls := w.calls.erase p, fds := w.fds.diff p.fds, heap := w.heap.diff p.blocks }

/-- A call that opens a socket of this kind begins, or it goes on. -/
def Ev.makes : Ev → Option Kind
  | .call op => op.makes
  | .wake p _ => p.makes
  | _ => none

/-- The world in which the call has nothing. -/
def Ev.base (w : World) : Ev → World
  | .wake p _ => w.without p
  | _ => w

/-- The sockets, the handles whose object is gone and the waiting calls are the same. -/
structure SameRest (w₀ w : World) : Prop where
  stale : w.stale = w₀.stale
  calls : w.calls = w₀.calls

/-- The call has failed and left nothing behind, or it has opened one socket, or it waits with what
it has got hold of. -/
def AllOrNothing (kind : Kind) (w₀ : World) : Except Errno Progress → World → Prop
  | .error _, w => SameRest w₀ w ∧ w.socks = w₀.socks ∧ w.fds.Perm w₀.fds ∧ w.heap.Perm w₀.heap
  | .ok (.done h), w => SameRest w₀ w ∧ ∃ x, w.socks = (h, x) :: w₀.socks ∧
      x.kind = kind ∧ w.fds.Perm (x.fd :: w₀.fds) ∧ w.heap.Perm (x.blocks ++ w₀.heap) ∧
      kind.Suits (w.desc x.fd) ∧ h ∉ w₀.socks.map Prod.fst ∧ h ∉ w₀.stale
  | .ok (.waits p), w => SameRest w₀ w ∧ p.makes = some kind ∧ w.socks = w₀.socks ∧
      w.fds.Perm (p.fds ++ w₀.fds) ∧ w.heap.Perm (p.blocks ++ w₀.heap)

variable {kind : Kind} {w w₀ w₁ : World} {F : List ℤ} {O : List ℕ} {p : Pending}

/-- What the books say about a call that has settled. -/
theorem Settled.allOrNothing {o : Except Errno Progress} (h : Settled kind w₁ F O o w)
    (hfds : w₀.fds.Perm (w₁.held ++ F)) (hheap : w₀.heap.Perm (w₁.blocks ++ O))
    (hsocks : w₁.socks = w₀.socks) (hrest : SameRest w₀ w₁) : AllOrNothing kind w₀ o w := by
  have hheld : ∀ {F O w}, At w₁ F O w → w.held = w₁.held := by
    intro F O w hat
    unfold World.held
    rw [hat.socks, hat.calls]
  have hblocks : ∀ {F O w}, At w₁ F O w → w.blocks = w₁.blocks := by
    intro F O w hat
    unfold World.blocks
    rw [hat.socks, hat.calls]
  match o with
  | .error e =>
    have hat : At w₁ F O w := h
    refine ⟨⟨hat.stale.trans hrest.stale, hat.calls.trans hrest.calls⟩, hat.socks.trans hsocks, ?_, ?_⟩
    · exact (hheld hat ▸ hat.fds).trans hfds.symm
    · exact (hblocks hat ▸ hat.heap).trans hheap.symm
  | .ok (.done k) =>
    obtain ⟨x, hkind, hat⟩ := h
    have hnew : w.socks = (k, x) :: w₁.socks := hat.socks
    have hmem : (k, x) ∈ w.socks := by
      rw [hnew]
      exact List.mem_cons_self
    refine ⟨⟨hat.stale.trans hrest.stale, hat.calls.trans hrest.calls⟩, x, hsocks ▸ hnew, hkind,
      ?_, ?_, hkind ▸ hat.suits _ hmem, ?_⟩
    · have hfds' := hat.fds
      unfold World.held at hfds'
      rw [hnew, hat.calls] at hfds'
      exact hfds'.trans (hfds.symm.cons x.fd)
    · have hheap' := hat.heap
      unfold World.blocks at hheap'
      rw [hnew, hat.calls, List.flatMap_cons, List.append_assoc, List.append_assoc] at hheap'
      refine hheap'.trans (List.Perm.append_left _ ?_)
      rw [← List.append_assoc]
      exact hheap.symm
    · have hnodup := hat.nodup_handles
      rw [hnew, hat.stale, hsocks] at hnodup
      have hnot := (List.nodup_cons.mp hnodup).1
      change k ∉ w₀.socks.map Prod.fst ++ w₁.stale at hnot
      rw [hrest.stale] at hnot
      exact ⟨fun hm => hnot (List.mem_append_left _ hm), fun hm => hnot (List.mem_append_right _ hm)⟩
  | .ok (.waits p) =>
    obtain ⟨hat, -, hmakes, -⟩ := h
    refine ⟨⟨hat.stale.trans hrest.stale, hat.calls.trans hrest.calls⟩, hmakes,
      hat.socks.trans hsocks, ?_, ?_⟩
    · refine (hheld hat ▸ hat.fds).trans ?_
      exact (List.perm_append_comm_assoc _ _ _).trans (hfds.symm.append_left _)
    · refine (hblocks hat ▸ hat.heap).trans ?_
      exact (List.perm_append_comm_assoc _ _ _).trans (hheap.symm.append_left _)

theorem perm_diff {α : Type} [DecidableEq α] {l m k n : List α} (h : l.Perm (m ++ (k ++ n))) :
    (l.diff k).Perm (m ++ n) := by
  refine List.perm_iff_count.mpr fun a => ?_
  have hcount := h.count_eq a
  rw [List.count_append, List.count_append] at hcount
  rw [List.count_diff, List.count_append]
  omega

/-- **All or nothing.** In every reachable state, and wherever a call that opens a socket is in its
course: against the world in which the call has nothing, the step leaves nothing behind, adds one
socket of the kind that the function is for, or lets the call wait with what it has got hold of. -/
theorem open_all_or_nothing {s : State} (h : Reach State.next (· = .init) Allowed s) {a : Act}
    (ha : Allowed s a) (hopens : a.ev.makes = some kind) {o : Except Errno Progress} {w : World}
    (hr : a.ev.run { s.world with env := a.env } = .ok (o, w)) :
    AllOrNothing kind (a.ev.base s.world) o w := by
  have hs := balanced_of_reach h
  have hw : Good { s.world with env := a.env } (s.mine ++ s.lostFds) s.lostObjs :=
    ⟨(hs.toBooks.at.env a.env).toBooks, hs.apart⟩
  obtain ⟨ev, env⟩ := a
  cases ev with
  | call op =>
    have hsettled := (op_settles hopens hw.toBooks.at ⟨rfl, rfl⟩ ha).returns hr
    exact hsettled.allOrNothing hw.fds hw.heap rfl ⟨rfl, rfl⟩
  | wake p r =>
    obtain ⟨hgood, hwaits, haddrs, -⟩ := hw.pull ha
    have hrun : (Ev.wake p r).run { s.world with env := env } =
        p.resume r (World.pull { s.world with env := env } p) := if_pos ha
    rw [hrun] at hr
    have hone : ∃ b, p.addrs = [b] := by
      cases p with
      | connect kind alloc fd b => exact ⟨b, rfl⟩
      | accept kind alloc fd b => exact ⟨b, rfl⟩
      | close h fd => cases hopens
      | recvfd fd => cases hopens
    obtain ⟨b, hb⟩ := hone
    have hsettled := (resume_keeps hgood.toBooks.at hwaits haddrs hb rfl hopens).returns hr
    exact hsettled.allOrNothing (perm_diff hgood.fds) (perm_diff hgood.heap) rfl ⟨rfl, rfl⟩
  | enter d => cases hopens
  | drop fd => cases hopens

/-- A coroutine waits for a connection. -/
def acceptWaits : List Act :=
  [⟨.call (.tcpListen .heap ⟨false, 0⟩), [.malloc (some 1), .fd (.ok 5), .call (.ok ()),
      .call (.ok ()), .call (.ok ()), .made (.ok 0)]⟩,
    ⟨.call (.tcpAccept .heap 0), [.malloc (some 2), .fd (.error .EAGAIN)]⟩]

/-- There is one, and no handle for it. -/
def acceptRefused : Act := ⟨.wake (.accept .tcp true 5 2) (.ok ()), [.fd (.ok 7), .made (.error .ENOMEM)]⟩

theorem open_all_or_nothing_refused : ∃ (s : State) (o : Except Errno Progress) (w : World),
    acceptRefused.ev.run { s.world with env := acceptRefused.env } = .ok (o, w) ∧
      s.world.heap = [2, 1] ∧ w.heap = [1] ∧ AllOrNothing .tcp (acceptRefused.ev.base s.world) o w := by
  obtain ⟨s, hr, hp⟩ := exists_of_runIf State.next Allowed .init acceptWaits
    (fun s => decide (Allowed s acceptRefused ∧ s.world.heap = [2, 1]) &&
      endsIn (acceptRefused.ev.run { s.world with env := acceptRefused.env }) fun r =>
        decide (r.2.heap = [1])) (by decide +kernel)
  rw [Bool.and_eq_true, decide_eq_true_eq] at hp
  obtain ⟨⟨o, w⟩, hrun, hheap⟩ := exists_of_endsIn _ hp.2
  exact ⟨s, o, w, hrun, hp.1.2, of_decide_eq_true hheap,
    open_all_or_nothing (reach_of_runIf (.init rfl) hr) hp.1.1 rfl hrun⟩

end Libdill.Ledger
