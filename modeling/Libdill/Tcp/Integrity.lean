import Libdill.Tcp.Receive
import Libdill.Tcp.Transmit

/-!
# Bytestream integrity of connections

`tcp_integrity`: the two directions of a connection are independent of each other, and in each of
them no byte is lost, duplicated or reordered, in every run of calls by any coroutines.
-/

namespace Libdill.Tcp

open Foundations Libdill.Sock Libdill.Fd

/-- The events of the receiving direction. -/
def Ev.rx? : Ev → Option RxEv
  | .rx e => some e
  | .tx _ => none

/-- The events of the sending direction. -/
def Ev.tx? : Ev → Option TxEv
  | .rx _ => none
  | .tx e => some e

/-- The answers of the receiving direction. -/
def Out.rx? : Out → Option RxOut
  | .rx o => some o
  | .tx _ => none

/-- The answers of the sending direction. -/
def Out.tx? : Out → Option TxOut
  | .rx _ => none
  | .tx o => some o

/-- The receiving direction of a run. -/
def rxEvs (evs : List Ev) : List RxEv := evs.filterMap Ev.rx?

def rxOuts (outs : List Out) : List RxOut := outs.filterMap Out.rx?

/-- The sending direction of a run. -/
def txEvs (evs : List Ev) : List TxEv := evs.filterMap Ev.tx?

def txOuts (outs : List Out) : List TxOut := outs.filterMap Out.tx?

variable {c c' : TcpConn} {evs : List Ev} {outs : List Out}

/-- A run of a connection is a run of its two directions, each on its own events. -/
theorem answers_directions (hr : answers TcpConn.step c evs = some (c', outs)) :
    answers RxSide.step c.toRxSide (rxEvs evs) = some (c'.toRxSide, rxOuts outs) ∧
      answers TxSide.step c.toTxSide (txEvs evs) = some (c'.toTxSide, txOuts outs) := by
  induction evs generalizing c outs with
  | nil =>
    cases hr
    exact ⟨rfl, rfl⟩
  | cons e evs ih =>
    unfold answers at hr
    obtain ⟨⟨c₁, o⟩, he, hr⟩ := Option.bind_eq_some_iff.mp hr
    obtain ⟨⟨c₂, outs₂⟩, hes, heq⟩ := Option.map_eq_some_iff.mp hr
    cases heq
    obtain ⟨hrx, htx⟩ := ih hes
    cases e with
    | rx e =>
      obtain ⟨⟨s, o'⟩, hs, heq⟩ := Option.map_eq_some_iff.mp he
      cases heq
      exact ⟨answers_cons hs hrx, htx⟩
    | tx e =>
      obtain ⟨⟨s, o'⟩, hs, heq⟩ := Option.map_eq_some_iff.mp he
      cases heq
      exact ⟨hrx, answers_cons hs htx⟩

/-- A run from a new connection. -/
def Runs (evs : List Ev) (c : TcpConn) (outs : List Out) : Prop :=
  answers TcpConn.step .init evs = some (c, outs)

/-- What a connection guarantees in every run: any sequence of calls of any coroutines, with any
answers of the kernel and any timeouts and cancellations. -/
structure Integrity : Prop where
  /-- The results of the successful receives are, one after the other, a prefix of the bytes the
  kernel has delivered. -/
  received : ∀ evs c outs, Runs evs c outs → okRecv (rxOuts outs) <+: delivered (rxEvs evs)
  /-- As long as no receive has failed, all other bytes are in the buffers of the call in progress
  or in the receive buffer, in order. -/
  kept : ∀ evs c outs, Runs evs c outs → c.indone = false → c.inerr = false →
    delivered (rxEvs evs) = okRecv (rxOuts outs) ++ c.rgot ++ unread c.rxbuf
  /-- After a receive that failed with anything but `EBUSY` all receives fail, and nothing is
  received from the kernel. -/
  dead : ∀ evs c outs c' e r, Runs evs c outs →
    c.step e = some (c', .rx (some (.error r))) → r ≠ .EBUSY →
    ∀ evs' c'' outs', answers TcpConn.step c' evs' = some (c'', outs') →
      delivered (rxEvs evs') = [] ∧
        ∀ o, .rx o ∈ outs' → o = some (.error (if r = .EPIPE then .EPIPE else .ECONNRESET))
  /-- As long as no send has failed, the kernel was given the messages of the successful sends and
  a prefix of the message of the call in progress. -/
  handed : ∀ evs c outs, Runs evs c outs → c.outerr = false →
    ∃ p, handed (txOuts outs) = okSent (txOuts outs) ++ p ∧ p <+: c.smsg
  /-- When the first send fails with anything but `EBUSY`, the kernel was given the messages of the
  successful sends and a prefix of the failed one; after it all sends fail, and the kernel is given
  nothing. -/
  shut : ∀ evs c outs c' e o r m, Runs evs c outs →
    c.step e = some (c', .tx o) → o.result = some (.error r, m) → r ≠ .EBUSY →
    (c.outerr = false → Cut (txOuts (outs ++ [.tx o])) m) ∧
    ∀ evs' c'' outs', answers TcpConn.step c' evs' = some (c'', outs') →
      Tcp.handed (txOuts outs') = [] ∧
        ∀ o, .tx o ∈ outs' → ∃ m, o.result = some (.error .ECONNRESET, m)
  /-- Neither direction depends on what happens in the other one. -/
  apart : ∀ evs c outs, Runs evs c outs →
    answers RxSide.step (.init (some .init)) (rxEvs evs) = some (c.toRxSide, rxOuts outs) ∧
    answers TxSide.step .init (txEvs evs) = some (c.toTxSide, txOuts outs)

theorem mem_rxOuts {o : RxOut} : o ∈ rxOuts outs ↔ .rx o ∈ outs := by
  unfold rxOuts
  rw [List.mem_filterMap]
  constructor
  · rintro ⟨o', hm, ho⟩
    cases o' with
    | rx o' =>
      cases ho
      exact hm
    | tx o' => cases ho
  · exact fun hm => ⟨.rx o, hm, rfl⟩

theorem mem_txOuts {o : TxOut} : o ∈ txOuts outs ↔ .tx o ∈ outs := by
  unfold txOuts
  rw [List.mem_filterMap]
  constructor
  · rintro ⟨o', hm, ho⟩
    cases o' with
    | tx o' =>
      cases ho
      exact hm
    | rx o' => cases ho
  · exact fun hm => ⟨.tx o, hm, rfl⟩

theorem Runs.rxInv (h : Runs evs c outs) : RxInv c.toRxSide (rxEvs evs) (rxOuts outs) :=
  rxInv_of_answers (Nat.zero_le _) rfl (answers_directions h).1

theorem Runs.txInv (h : Runs evs c outs) : TxInv c.toTxSide (txOuts outs) :=
  txInv_of_answers (answers_directions h).2

/-- **Bytestream integrity.** -/
theorem tcp_integrity : Integrity where
  received _ _ _ h := h.rxInv.received
  kept _ _ _ h := h.rxInv.bytes
  dead evs c outs c' e r h hs hr evs' c'' outs' h' := by
    cases e with
    | tx e =>
      obtain ⟨x, -, heq⟩ := Option.map_eq_some_iff.mp hs
      cases heq
    | rx e =>
      obtain ⟨⟨s, o⟩, hse, heq⟩ := Option.map_eq_some_iff.mp hs
      cases heq
      have hdead := h.rxInv.dead hse hr
      obtain ⟨hd, ho⟩ := hdead.answers (answers_directions h').1
      exact ⟨hd, fun o hm => ho o (mem_rxOuts.mpr hm)⟩
  handed _ c _ h he := by
    obtain ⟨p, hp, hmsg⟩ := h.txInv.bytes he
    exact ⟨p, hp, hmsg ▸ List.prefix_append _ _⟩
  shut evs c outs c' e o r m h hs hres hr := by
    cases e with
    | rx e =>
      obtain ⟨x, -, heq⟩ := Option.map_eq_some_iff.mp hs
      cases heq
    | tx e =>
      obtain ⟨⟨s, o'⟩, hse, heq⟩ := Option.map_eq_some_iff.mp hs
      cases heq
      obtain ⟨hshut, hcut⟩ := (h.txInv.step hse).2 r m hres hr
      have houts : txOuts (outs ++ [.tx o']) = txOuts outs ++ [o'] := by
        unfold txOuts
        rw [List.filterMap_append]
        rfl
      refine ⟨fun he => ?_, fun evs' c'' outs' h' => ?_⟩
      · rw [houts]
        exact hcut he
      · obtain ⟨hd, ho⟩ := hshut.answers (answers_directions h').2
        exact ⟨hd, fun o hm => ho o (mem_txOuts.mpr hm)⟩
  apart _ _ _ h := answers_directions h

end Libdill.Tcp
