import Libdill.Fd.ScatterExact
import Libdill.Prefix.Model

/-!
# Receiving messages into elements in memory

`dill_prefix_mrecvl` of `prefix.c` over a file descriptor, for elements in memory. The list is cut
off where the message ends, and the end that was passed is passed on all the same.

* `mrecvl_exact_iff`: exactly when every receive is right.
-/

namespace Libdill.Prefix.Memory

open Foundations Libdill.Sock Fd Fd.Scatter

variable {n : ℕ}

/-- The calls on a PREFIX socket and on the descriptor below it. -/
abbrev MRecv (n : ℕ) (α : Type) := Call (PrefixSock × Rcv n) Halt Errno α

/-- `dill_brecvl` on a connection that is open for receiving. -/
def brecvl (curr first last : IolPtr n) : Recv n Unit := do
  Call.require (decide (first = 0) == decide (last = 0)) .EINVAL
  let e ← elem last
  Call.require (decide (e.iolNext = 0)) .EINVAL
  fdRecv curr first last

/-- `dill_brecv`; `hdr` is the address of its local element. -/
def brecv (curr hdr : IolPtr n) (buf len : ℕ) : Recv n Unit := do
  setElem hdr ⟨buf, len, 0, 0⟩
  fdRecv curr hdr hdr

/-- The loop that looks for the element the message ends in; also the bytes in that one. -/
def trim : ℕ → IolPtr n → ℕ → Recv n (IolPtr n × ℕ)
  | 0, _, _ => Call.stop .endless
  | k + 1, it, rmn => do
    let e ← elem it
    if rmn ≤ e.iolLen then pure (it, rmn)
    else if e.iolNext = 0 then Call.fail .EMSGSIZE
    else trim k e.iolNext (rmn - e.iolLen)

/-- `it->iol_len = len; it->iol_next = next`. -/
def cutAt (s : Rcv n) (it : IolPtr n) (len : ℕ) (next : IolPtr n) : Rcv n :=
  { s with iol := Function.update s.iol it { s.iol it with iolLen := len, iolNext := next } }

/-- The receive of the message proper. -/
def receive (curr first last it : IolPtr n) (rmn : ℕ) : Recv n Unit := do
  let e ← elem it
  Call.change fun s => cutAt s it rmn 0
  finally' (brecvl curr first last) fun s => cutAt s it e.iolLen e.iolNext

/-- A call whose failure is one of the receiver. -/
def below {α : Type} (x : Recv n α) : MRecv n α := fun (self, s) =>
  match x s with
  | .error h => .error h
  | .ok (.error e, s) => .ok (.error e, { self with inerr := true }, s)
  | .ok (.ok a, s) => .ok (.ok a, self, s)

/-- `dill_prefix_mrecvl`; `szbuf` is the address of its local array. -/
def mrecvl (curr hdr : IolPtr n) (szbuf : ℕ) (first last : IolPtr n) : MRecv n ℤ := do
  let self ← Call.look Prod.fst
  Call.require (self.inerr == false) .ECONNRESET
  below (brecv curr hdr szbuf self.hdrlen)
  let sz ← Call.look fun s => (self.getHdr ((List.range' szbuf self.hdrlen).map s.2.mem)).toNat
  if first = 0 then do
    below (brecv curr hdr 0 sz)
    pure (toSsize sz)
  else do
    let r ← below (trim (n + 1) first sz)
    below (receive curr first last r.1 r.2)
    pure (toSsize sz)

/-- **An exact receive** of the message `m` behind the header `h`, when the bytes `y` are still to
come. However they come, the size of the message is returned, its bytes are in the elements in
their order, nothing else has been written but the local array, and the elements are as they
were. -/
def Exact (x : MRecv n ℤ) (self : PrefixSock) (curr hdr : IolPtr n) (szbuf : ℕ) (s : Rcv n)
    (els : List (IolPtr n)) (h m y : List UInt8) : Prop :=
  ∀ ps, dataOf ps = y → (s.on ps).Supplies (h.length + m.length) →
    ∃ s', x (self, s.on ps) = .ok (.ok (toSsize m.length), self, s') ∧
      s'.mem = store (store s.mem (Scatter.Buf.cells (some szbuf, h.length)) h)
        ((cells (bufs s.iol els)).take m.length) m ∧
      s'.stream = (s.on ps).stream.drop (h.length + m.length) ∧
      ∀ it, it ≠ curr → it ≠ hdr → s'.iol it = s.iol it

/-- The first `k` bytes of the buffers, up to the one the last of them is in. -/
def keep : List Scatter.Buf → ℕ → List Scatter.Buf
  | [], _ => []
  | b :: l, k => if k ≤ b.2 then [(b.1, k)] else b :: keep l (k - b.2)

/-- What is missing of the buffers when `held` bytes have been received before. -/
def missingOf (held : Option ℕ) (l : List Scatter.Buf) : List Scatter.Buf :=
  match held with
  | none => l
  | some u => cut l u

/-- The bytes in the receive buffer when the first `used` of them have been taken. -/
def heldBehind (s : Rcv n) (used : ℕ) : Option ℕ := s.rx.map fun rx => rx.unread.length - used

/-- Whether the receive of `k` bytes goes wrong for its lengths: it is direct, and it goes beyond
one buffer but not as far as the last one, or a direct receive of its buffers cannot succeed. -/
def Slips (max : ℕ) (held : Option ℕ) (l : List Scatter.Buf) (k : ℕ) : Prop :=
  (held = none ∨ bufsize < ((missingOf held (keep l k)).map Prod.snd).sum) ∧
    ((keep l k).length < l.length ∧ 1 < (missingOf held (keep l k)).length ∨
      Blocked max (missingOf held (keep l k)))

variable {s s' : Rcv n} {l : List Scatter.Buf} {b : Scatter.Buf} {k max : ℕ}
  {curr hdr first last it : IolPtr n} {els pre post : List (IolPtr n)} {e : Errno} {ps : List Piece}

/-! ## Lists that are cut off -/

theorem cells_keep (hk : k ≤ (l.map Prod.snd).sum) : cells (keep l k) = (cells l).take k := by
  induction l generalizing k with
  | nil =>
    rw [Nat.le_zero.mp hk]
    rfl
  | cons b l ih =>
    rw [List.map_cons, List.sum_cons] at hk
    unfold keep
    rw [cells_cons]
    split
    · rename_i hle
      have hone : cells [(b.1, k)] = Scatter.Buf.cells (b.1, k) := List.append_nil _
      rw [List.take_append_of_le_length (by rwa [length_bufCells]), hone, bufCells_take hle]
    · rename_i hlt
      have hall : (Scatter.Buf.cells b).take k = Scatter.Buf.cells b :=
        List.take_of_length_le (by rw [length_bufCells]; exact (not_le.mp hlt).le)
      rw [cells_cons, ih (by omega), List.take_append, length_bufCells, hall]

/-- The element the message ends in. -/
theorem trim_spec (hch : Chain s.iol.next it els 0) (h0 : 0 ∉ els) (hne : els ≠ [])
    (hk : k ≤ s.iol.bytes els) {turns : ℕ} (hturns : els.length ≤ turns) :
    ∃ pre x post r, els = pre ++ x :: post ∧ trim turns it k s = .ok (.ok (x, r), s) ∧
      r ≤ (s.iol x).iolLen ∧
      keep (bufs s.iol els) k = bufs s.iol pre ++ [((IolElem.buf (s.iol x)).1, r)] := by
  induction els generalizing it k turns with
  | nil => exact absurd rfl hne
  | cons x els ih =>
    obtain ⟨rfl, hch⟩ := hch
    obtain ⟨hit, h0⟩ := not_or.mp (fun h => h0 (List.mem_cons.mpr h))
    obtain ⟨turns, rfl⟩ : ∃ k', turns = k' + 1 :=
      ⟨turns - 1, by rw [List.length_cons] at hturns; omega⟩
    have hbytes : s.iol.bytes (it :: els) = (s.iol it).iolLen + s.iol.bytes els := List.sum_cons
    have hturn : trim (turns + 1) it k s =
        (if k ≤ (s.iol it).iolLen then pure (it, k)
        else if s.iol.next it = 0 then Call.fail .EMSGSIZE
        else trim turns (s.iol.next it) (k - (s.iol it).iolLen)) s := by
      conv_lhs => unfold trim
      rw [elem_bind (Ne.symm hit)]
      rfl
    rw [hturn, bufs_cons]
    unfold keep
    by_cases hle : k ≤ (s.iol it).iolLen
    · refine ⟨[], it, els, k, rfl, ?_, hle, ?_⟩
      · rw [if_pos hle]
        rfl
      · exact if_pos hle
    · have hmore : els ≠ [] := by
        rintro rfl
        rw [hbytes] at hk
        exact hle hk
      have hnext : s.iol.next it ≠ 0 := by
        obtain ⟨y, els', rfl⟩ := List.exists_cons_of_ne_nil hmore
        rw [hch.1]
        exact fun h => h0 (h ▸ List.mem_cons_self)
      have hk' : k - (s.iol it).iolLen ≤ s.iol.bytes els := by omega
      obtain ⟨pre, x, post, r, hels, hrun, hr, hkeep⟩ :=
        ih hch h0 hmore hk' (Nat.le_of_succ_le_succ hturns)
      refine ⟨it :: pre, x, post, r, by rw [hels]; rfl, ?_, hr, ?_⟩
      · rw [if_neg hle, if_neg hnext]
        exact hrun
      · rw [bufs_cons, List.cons_append, ← hkeep]
        exact if_neg hle

theorem cutAt_self (s : Rcv n) (it : IolPtr n) (len : ℕ) (next : IolPtr n) :
    (cutAt s it len next).iol it = { s.iol it with iolLen := len, iolNext := next } :=
  Function.update_self it _ _

theorem cutAt_of_ne {x : IolPtr n} (h : x ≠ it) (s : Rcv n) (len : ℕ) (next : IolPtr n) :
    (cutAt s it len next).iol x = s.iol x := Function.update_of_ne h _ _

/-- The list that is cut off ends where it is cut off. -/
theorem iolist_cut {x : IolPtr n} {r : ℕ} (hl : Scatter.Iolist curr first last s.iol (pre ++ x :: post))
    (hr : r ≤ (s.iol x).iolLen) : Scatter.Iolist curr first x (cutAt s x r 0).iol (pre ++ [x]) ∧
      bufs (cutAt s x r 0).iol (pre ++ [x]) =
        bufs s.iol pre ++ [((IolElem.buf (s.iol x)).1, r)] := by
  have hsub : ∀ y ∈ pre ++ [x], y ∈ pre ++ x :: post := by
    intro y hy
    rcases List.mem_append.mp hy with hy | hy
    · exact List.mem_append_left _ hy
    · rw [List.mem_singleton.mp hy]
      exact List.mem_append_right _ List.mem_cons_self
  obtain ⟨_, hpre, hx, -⟩ := chain_append.mp hl.chain
  rw [hx] at hpre
  have hself := cutAt_self s x r 0
  have hother : ∀ y ∈ pre, (cutAt s x r 0).iol y = s.iol y := fun y hy =>
    cutAt_of_ne (hl.ne_of_mem hy) s r 0
  have hmem : ∀ y ∈ pre ++ [x], (cutAt s x r 0).iol y = s.iol y ∨ y = x := by
    intro y hy
    rcases List.mem_append.mp hy with hy | hy
    · exact .inl (hother y hy)
    · exact .inr (List.mem_singleton.mp hy)
  refine ⟨⟨chain_concat.mpr ⟨hpre.congr fun y hy => congrArg IolElem.iolNext (hother y hy),
    congrArg IolElem.iolNext hself⟩, fun h => hl.null (hsub 0 h), List.getLast?_concat,
    fun y hy => ?_, fun y hy => ?_, hl.own, fun h => hl.apart (hsub _ h)⟩, ?_⟩
  · rcases hmem y hy with h | rfl
    · rw [h]
      exact hl.reserved y (hsub y hy)
    · rw [hself]
      exact hl.reserved y (hsub y hy)
  · rcases hmem y hy with h | rfl
    · rw [h]
      exact hl.sizes y (hsub y hy)
    · rw [hself]
      exact hr.trans_lt (hl.sizes y (hsub y hy))
  · rw [bufs_append]
    congr 1
    · apply List.map_congr_left
      intro y hy
      rw [hother y hy]
    · show [IolElem.buf ((cutAt s x r 0).iol x)] = _
      rw [hself]
      rfl

/-- Behind the cut the list is put together again. -/
theorem cutAt_restore {x y : IolPtr n} {r : ℕ}
    (hkeep : ∀ z, z ≠ curr → s'.iol z = (cutAt s x r 0).iol z) (hx : x ≠ curr) (hy : y ≠ curr) :
    (cutAt s' x (s.iol x).iolLen (s.iol x).iolNext).iol y = s.iol y := by
  by_cases hyx : y = x
  · rw [hyx, cutAt_self, hkeep x hx, cutAt_self]
  · rw [cutAt_of_ne hyx, hkeep y hy, cutAt_of_ne hyx]

/-- The list is not checked any further than that `last` is a last element. -/
theorem brecvl_eq (hfirst : first ≠ 0) (hlast : last ≠ 0) (hnext : s.iol.next last = 0) :
    brecvl curr first last s = fdRecv curr first last s := by
  unfold brecvl
  rw [decide_eq_false hfirst, decide_eq_false hlast, beq_self_eq_true,
    Call.bind_ret Call.require_true, elem_bind hlast,
    decide_eq_true (show (s.iol last).iolNext = 0 from hnext)]
  exact Call.bind_ret Call.require_true

theorem cutAt_next {x : IolPtr n} {r : ℕ}
    (hl : Scatter.Iolist curr first last s.iol (pre ++ x :: post)) :
    (cutAt s x r 0).iol.next last = 0 := by
  by_cases hx : last = x
  · rw [hx]
    exact congrArg IolElem.iolNext (cutAt_self s x r 0)
  · obtain ⟨l, hels⟩ := List.getLast?_eq_some_iff.mp hl.last
    have hch := hl.chain
    rw [hels] at hch
    exact (congrArg IolElem.iolNext (cutAt_of_ne hx s r 0)).trans (chain_concat.mp hch).2

/-! ## The message -/

theorem remaining_eq (s : Rcv n) (els : List (IolPtr n)) :
    remaining s els = missingOf (heldBehind s 0) (bufs s.iol els) := by
  unfold remaining heldBehind missingOf
  cases s.rx <;> rfl

theorem sum_cut_le (l : List Scatter.Buf) (u : ℕ) :
    ((cut l u).map Prod.snd).sum ≤ (l.map Prod.snd).sum := by
  rw [← length_cells, ← length_cells, cells_cut, List.length_drop]
  exact Nat.sub_le _ _

theorem sum_missing_le (held : Option ℕ) (l : List Scatter.Buf) :
    ((missingOf held l).map Prod.snd).sum ≤ (l.map Prod.snd).sum := by
  cases held with
  | none => exact le_rfl
  | some u => exact sum_cut_le l u

theorem sum_keep (hk : k ≤ (l.map Prod.snd).sum) : ((keep l k).map Prod.snd).sum = k := by
  rw [← length_cells, cells_keep hk, List.length_take, length_cells, Nat.min_eq_left hk]

/-- The list that is cut off at the message, and the receive into it. -/
structure Trimmed (curr first last : IolPtr n) (s : Rcv n) (els : List (IolPtr n)) (k : ℕ)
    (x : IolPtr n) (r : ℕ) (els' : List (IolPtr n)) : Prop where
  found : trim (n + 1) first k s = .ok (.ok (x, r), s)
  list : Scatter.Iolist curr first x (cutAt s x r 0).iol els'
  kept : bufs (cutAt s x r 0).iol els' = keep (bufs s.iol els) k
  shorter : els'.length < els.length ↔ x ≠ last
  apart : x ≠ last → last ∉ els'
  run : receive curr first last x r s =
    finally' (fdRecv curr first last) (fun s' => cutAt s' x (s.iol x).iolLen (s.iol x).iolNext)
      (cutAt s x r 0)
  restores : ∀ {s' : Rcv n} {y : IolPtr n}, (∀ z, z ≠ curr → s'.iol z = (cutAt s x r 0).iol z) →
    y ≠ curr → (cutAt s' x (s.iol x).iolLen (s.iol x).iolNext).iol y = s.iol y

theorem exists_trimmed (hl : Scatter.Iolist curr first last s.iol els) (hk : k ≤ s.iol.bytes els) :
    ∃ x r els', Trimmed curr first last s els k x r els' := by
  have hlen := length_le_of_nodup (hl.chain.nodup hl.null) hl.null
  obtain ⟨pre, x, post, r, rfl, hfound, hr, hkeep⟩ :=
    trim_spec hl.chain hl.null hl.ne_nil hk (Nat.le_succ_of_le hlen)
  obtain ⟨hlist, hbufs⟩ := iolist_cut hl hr
  have hxc : x ≠ curr := fun h =>
    hl.apart (h ▸ List.mem_append_right _ List.mem_cons_self)
  have hx0 : x ≠ 0 := fun h => hl.null (h ▸ List.mem_append_right _ List.mem_cons_self)
  have hpost : post = [] ↔ x = last := by
    have hlast := hl.last
    constructor
    · rintro rfl
      rw [List.getLast?_concat] at hlast
      exact Option.some.inj hlast
    · rintro rfl
      by_contra hne
      rw [List.append_cons, List.getLast?_append_of_ne_nil _ hne] at hlast
      have hnd := (List.nodup_append.mp (hl.chain.nodup hl.null)).2.1
      exact (List.nodup_cons.mp hnd).1 (List.mem_of_getLast? hlast)
  refine ⟨x, r, pre ++ [x], hfound, hlist, hbufs.trans hkeep.symm, ?_, fun hne hmem => ?_, ?_,
    fun hkept hy => cutAt_restore hkept hxc hy⟩
  · rw [List.length_append, List.length_append, ne_eq, ← hpost, ← ne_eq,
      ← List.length_pos_iff_ne_nil]
    show pre.length + 1 < pre.length + (post.length + 1) ↔ _
    omega
  · have hin : last ∈ post := by
      have hlast := hl.last
      rw [List.append_cons, List.getLast?_append_of_ne_nil _ (mt hpost.mp hne)] at hlast
      exact List.mem_of_getLast? hlast
    rcases List.mem_append.mp hmem with hpre | hx
    · exact (List.nodup_append.mp (hl.chain.nodup hl.null)).2.2 last hpre last
        (List.mem_cons_of_mem _ hin) rfl
    · exact hne (List.mem_singleton.mp hx).symm
  · unfold receive
    rw [elem_bind hx0, Call.change_bind]
    unfold finally'
    rw [brecvl_eq hl.first_ne hl.last_ne (cutAt_next hl)]

section Trimmed

variable {x : IolPtr n} {r : ℕ} {els' : List (IolPtr n)}

theorem Trimmed.left (h : Trimmed curr first last s els k x r els') :
    remaining (cutAt s x r 0) els' = missingOf (heldBehind s 0) (keep (bufs s.iol els) k) := by
  rw [remaining_eq, h.kept]
  rfl

/-- The sum of what is missing does not overflow. -/
theorem Trimmed.direct (h : Trimmed curr first last s els k x r els') (hk : k ≤ s.iol.bytes els)
    (h64 : k < 2 ^ 64) : Direct (cutAt s x r 0) els' ↔ heldBehind s 0 = none ∨
      bufsize < ((missingOf (heldBehind s 0) (keep (bufs s.iol els) k)).map Prod.snd).sum := by
  have hsum := sum_missing_le (heldBehind s 0) (keep (bufs s.iol els) k)
  rw [sum_keep (by rwa [← length_cells, length_cells_bufs])] at hsum
  unfold Direct
  rw [h.left, Nat.mod_eq_of_lt (hsum.trans_lt h64)]
  exact or_congr_left Option.map_eq_none_iff.symm

/-- A receive that does not slip. -/
theorem Trimmed.exact (h : Trimmed curr first last s els k x r els') (hf : Filled s.rx)
    (hk : k ≤ s.iol.bytes els) (h64 : k < 2 ^ 64)
    (hno : ¬Slips s.iovMax (heldBehind s 0) (bufs s.iol els) k) (hs : s.Supplies k) :
    ∃ s', receive curr first last x r s = .ok (.ok (), s') ∧
      s'.mem = store s.mem ((cells (bufs s.iol els)).take k) (s.stream.take k) ∧
      s'.stream = s.stream.drop k ∧ ∀ y, y ≠ curr → s'.iol y = s.iol y := by
  set s₂ := cutAt s x r 0 with hs₂
  have hl := h.list
  have hsame : fdRecv curr first last s₂ = fdRecv curr first x s₂ := by
    by_cases hx : x = last
    · rw [hx]
    · refine fdRecv_anyLast hl.own hl.ne_nil hl.chain hl.null hl.apart hf ?_ last x
      rintro ⟨hdirect, hmany⟩
      rw [h.left] at hmany
      refine hno ⟨(h.direct hk h64).mp hdirect, .inl ⟨?_, hmany⟩⟩
      rw [← h.kept]
      unfold bufs
      rw [List.length_map, List.length_map]
      exact h.shorter.mpr hx
  have hspec : Spec False (some curr) (cells (bufs s₂.iol els')) (fdRecv curr first x) s₂ := by
    have hfree : Direct s₂ els' → ¬Blocked s.iovMax (remaining s₂ els') := fun hdirect hblocked =>
      hno ⟨(h.direct hk h64).mp hdirect, .inr (h.left ▸ hblocked)⟩
    refine fdRecv_spec hl.own hl.ne_nil hl.chain hl.null hl.apart hl.last hf hl.reserved
      (fun hdirect b hb hnull => .inr ⟨id, ?_⟩) fun hdirect hcrowded => hfree hdirect (.inr hcrowded)
    by_contra hlen
    exact hfree hdirect (.inl ⟨b, hb, hnull, not_lt.mp hlen⟩)
  have hcap : k ≤ ((bufs s.iol els).map Prod.snd).sum := by rwa [← length_cells, length_cells_bufs]
  have hcells : cells (bufs s₂.iol els') = (cells (bufs s.iol els)).take k := by
    rw [h.kept, cells_keep hcap]
  have hlen : (cells (bufs s₂.iol els')).length = k := by
    rw [hcells, List.length_take, length_cells, Nat.min_eq_left hcap]
  obtain ⟨s₃, hrun, hkeep, htook, -⟩ := hspec.supplied (s := s₂) (by rw [hlen]; exact hs)
  obtain ⟨-, hmem, hstream⟩ := htook.bytes
  rw [hlen] at hmem hstream
  rw [hcells] at hmem
  refine ⟨cutAt s₃ x (s.iol x).iolLen (s.iol x).iolNext, ?_, hmem, hstream, fun y hy => ?_⟩
  · rw [h.run]
    unfold finally'
    rw [hsame, hrun]
  · exact h.restores (fun z hz => hkeep.iol z fun heq => hz (Option.some.inj heq)) hy

/-- A receive that slips does not return 0. -/
theorem Trimmed.slips (h : Trimmed curr first last s els k x r els') (hf : Filled s.rx)
    (hk : k ≤ s.iol.bytes els) (h64 : k < 2 ^ 64) (hapart : last ≠ curr)
    (hyes : Slips s.iovMax (heldBehind s 0) (bufs s.iol els) k) (hb : ∀ p ∈ s.pieces, p.Benign)
    (halloc : s.alloc = true) : receive curr first last x r s ≠ .ok (.ok (), s') := by
  obtain ⟨hdirect, hwhy⟩ := hyes
  set s₂ := cutAt s x r 0 with hs₂
  have hl := h.list
  rw [← h.direct hk h64] at hdirect
  have hloose : x ≠ last → 1 < (remaining s₂ els').length →
      ∀ s₃, fdRecv curr first last s₂ ≠ .ok (.ok (), s₃) := fun hx hmany s₃ =>
    fdRecv_loose hl.own hl.ne_nil hl.chain hl.null hl.apart hf hl.reserved hdirect hmany
      (h.apart hx) hapart
  have hrecv : ∀ s₃, fdRecv curr first last s₂ ≠ .ok (.ok (), s₃) := by
    rcases hwhy with ⟨hshort, hmany⟩ | hblocked
    · rw [← h.left] at hmany
      rw [← h.kept] at hshort
      unfold bufs at hshort
      rw [List.length_map, List.length_map] at hshort
      exact hloose (h.shorter.mp hshort) hmany
    · by_cases hmany : x ≠ last ∧ 1 < (remaining s₂ els').length
      · exact hloose hmany.1 hmany.2
      · have hsame : fdRecv curr first last s₂ = fdRecv curr first x s₂ := by
          by_cases hx : x = last
          · rw [hx]
          · exact fdRecv_anyLast hl.own hl.ne_nil hl.chain hl.null hl.apart hf
              (fun hno => hmany ⟨hx, hno.2⟩) last x
        have hon : s₂.on s₂.pieces = s₂ := by
          have ha : s₂.alloc = true := halloc
          unfold Rcv.on
          rw [← ha]
        rw [← h.left] at hblocked
        intro s₃ hrun
        rw [hsame, ← hon] at hrun
        exact hl.blocked hf hdirect hblocked (show ∀ p ∈ s₂.pieces, p.Benign from hb) hrun
  intro hrun
  rw [h.run] at hrun
  unfold finally' at hrun
  split at hrun
  · cases hrun
  · rename_i o s₃ heq
    cases o with
    | error e => cases hrun
    | ok u => exact hrecv s₃ heq

end Trimmed

/-! ## The header -/

variable {hdr : IolPtr n} {szbuf : ℕ} {self : PrefixSock} {h m y more : List UInt8}

/-- What is stored in an array is in it afterwards. -/
theorem load_store (mem : ℕ → UInt8) (base : ℕ) (bs : List UInt8) :
    (List.range' base bs.length).map (store mem (Scatter.Buf.cells (some base, bs.length)) bs) = bs := by
  induction bs generalizing mem base with
  | nil => rfl
  | cons b bs ih =>
    have hbehind : some base ∉ Scatter.Buf.cells (some (base + 1), bs.length) := by
      intro h
      obtain ⟨a, ha, heq⟩ := List.mem_map.mp h
      rw [Option.some.inj heq, List.mem_range'_1] at ha
      omega
    have hstore : store mem (Scatter.Buf.cells (some base, (b :: bs).length)) (b :: bs) =
        store (Function.update mem base b) (Scatter.Buf.cells (some (base + 1), bs.length)) bs := rfl
    rw [hstore, List.length_cons, List.range'_succ, List.map_cons, ih, store_other _ hbehind,
      Function.update_self]

/-- The state when the local element of `dill_brecv` has been set up. -/
def withHdr (s : Rcv n) (hdr : IolPtr n) (buf len : ℕ) : Rcv n :=
  { s with iol := Function.update s.iol hdr ⟨buf, len, 0, 0⟩ }

theorem withHdr_self (s : Rcv n) (hdr : IolPtr n) (buf len : ℕ) :
    (withHdr s hdr buf len).iol hdr = ⟨buf, len, 0, 0⟩ := Function.update_self _ _ _

theorem length_cut_le (l : List Scatter.Buf) (u : ℕ) : (cut l u).length ≤ l.length := by
  induction l generalizing u with
  | nil => exact le_rfl
  | cons b l ih =>
    unfold cut
    split
    · exact (ih _).trans (Nat.le_succ _)
    · exact le_rfl

theorem length_remaining_le (s : Rcv n) (els : List (IolPtr n)) :
    (remaining s els).length ≤ els.length := by
  have hbufs : (bufs s.iol els).length = els.length := List.length_map _
  unfold remaining
  split
  · exact hbufs.le
  · exact (length_cut_le _ _).trans hbufs.le

/-- The header is received. What the receive buffer held behind it, it still holds. -/
theorem brecv_spec (hcurr : curr ≠ 0) (hh : hdr ≠ 0) (hne : hdr ≠ curr) (hbuf : szbuf ≠ 0)
    (hf : Filled s.rx) {len k : ℕ} (hs : s.Supplies (len + k)) :
    ∃ s', brecv curr hdr szbuf len s = .ok (.ok (), s') ∧
      s'.mem = store s.mem (Scatter.Buf.cells (some szbuf, len)) (s.stream.take len) ∧
      s'.stream = s.stream.drop len ∧ (∀ it, it ≠ curr → it ≠ hdr → s'.iol it = s.iol it) ∧
      Filled s'.rx ∧ s'.rx.isSome = s.rx.isSome ∧ s'.iovMax = s.iovMax ∧ s'.Supplies k ∧
      (unread s.rx).length - len ≤ (unread s'.rx).length := by
  set s₀ := withHdr s hdr szbuf len with hs₀
  have hself : s₀.iol hdr = ⟨szbuf, len, 0, 0⟩ := withHdr_self s hdr szbuf len
  have hnext : s₀.iol.next hdr = 0 := congrArg IolElem.iolNext hself
  have hbufs : bufs s₀.iol [hdr] = [(some szbuf, len)] := by
    show [IolElem.buf (s₀.iol hdr)] = _
    rw [hself]
    unfold IolElem.buf
    rw [if_neg hbuf]
  have hcells : cells (bufs s₀.iol [hdr]) = Scatter.Buf.cells (some szbuf, len) := by
    rw [hbufs]
    exact List.append_nil _
  have hlen : (cells (bufs s₀.iol [hdr])).length = len := by rw [hcells, length_bufCells]
  have hspec : Spec True (some curr) (cells (bufs s₀.iol [hdr])) (fdRecv curr hdr hdr) s₀ := by
    refine fdRecv_spec hcurr (List.cons_ne_nil _ _) ⟨rfl, hnext⟩
      (fun h => hh (List.mem_singleton.mp h).symm) (fun h => hne (List.mem_singleton.mp h).symm)
      rfl hf (fun x hx => ?_) (fun _ b hb hnull => ?_) fun _ hcrowded => ?_
    · rw [List.mem_singleton.mp hx]
      exact congrArg IolElem.iolRsvd hself
    · obtain ⟨b', hb', -, hback⟩ := mem_remaining hb
      rw [hbufs] at hb'
      rw [List.mem_singleton.mp hb'] at hback
      cases hback hnull
    · have hone := length_remaining_le s₀ [hdr]
      exact absurd hcrowded.length (not_lt.mpr (hone.trans s₀.iovMax.pos))
  obtain ⟨s', hrun, hkeep, htook, hsup⟩ := hspec.supplied (hs.mono (by rw [hlen]; omega))
  obtain ⟨-, hmem, hstream⟩ := htook.bytes
  rw [hlen] at hmem hstream
  rw [hcells] at hmem
  refine ⟨s', hrun, hmem, hstream, fun it hit hit' => ?_, hkeep.filled hf, hkeep.buffer,
    hkeep.iovMax, hsup k (by rw [hlen]; exact hs), ?_⟩
  · exact (hkeep.iol it fun heq => hit (Option.some.inj heq)).trans (Function.update_of_ne hit' _ _)
  · by_cases hle : (unread s.rx).length ≤ len
    · rw [Nat.sub_eq_zero_of_le hle]
      exact Nat.zero_le _
    · have hrx : s₀.rx ≠ none := by
        intro h
        rw [show s.rx = none from h] at hle
        exact hle (Nat.zero_le len)
      have hsmall : (s₀.iol hdr).iolLen ≤ (unread s₀.rx).length := by
        rw [hself]
        exact (not_le.mp hle).le
      obtain ⟨s'', hrun', hleft, -⟩ :=
        fdRecv_kept hcurr hh hne (show Filled s₀.rx from hf) hnext hrx hsmall
      rw [hrun'] at hrun
      cases hrun
      rw [hleft, hself, List.length_drop]
      exact le_rfl

/-- The header arrives in one piece, if the receive buffer does not hold it. -/
theorem brecv_snug (hcurr : curr ≠ 0) (hh : hdr ≠ 0) (hne : hdr ≠ curr) (hbuf : szbuf ≠ 0)
    (hf : Filled s.rx) {len : ℕ} (hpos : 0 < len) (h64 : len < 2 ^ 64) (halloc : s.alloc = true)
    {bs : List UInt8} (hp : s.pieces = .data bs :: ps)
    (hlen : bs.length = len - (unread s.rx).length) :
    ∃ s', brecv curr hdr szbuf len s = .ok (.ok (), s') ∧
      (unread s'.rx).length = (unread s.rx).length - len ∧ ∀ p ∈ s'.pieces, p ∈ s.pieces := by
  set s₀ := withHdr s hdr szbuf len with hs₀
  have hself : s₀.iol hdr = ⟨szbuf, len, 0, 0⟩ := withHdr_self s hdr szbuf len
  have hnext : s₀.iol.next hdr = 0 := congrArg IolElem.iolNext hself
  have hf₀ : Filled s₀.rx := hf
  by_cases hle : len ≤ (unread s.rx).length
  · have hrx : s₀.rx ≠ none := by
      intro h
      rw [show s.rx = none from h] at hle
      exact absurd hpos (not_lt.mpr hle)
    obtain ⟨s', hrun, hleft, hpieces⟩ := fdRecv_kept hcurr hh hne hf₀ hnext hrx (by rwa [hself])
    refine ⟨s', hrun, ?_, fun p hp' => hpieces ▸ hp'⟩
    rw [hleft, hself, List.length_drop]
    rfl
  · obtain ⟨s', hrun, hleft, hpieces⟩ := fdRecv_snug hcurr hh hne hf₀ hnext (by rwa [hself])
      (by rw [hself]) (by rwa [hself]) halloc (show _ + bs.length = _ by
        rw [hself, hlen]
        show (unread s.rx).length + _ = len
        omega) (by omega) hp
    refine ⟨s', hrun, ?_, fun p hp' => ?_⟩
    · rw [hleft, List.length_nil]
      omega
    · rw [hp]
      exact List.mem_cons_of_mem _ (hpieces ▸ hp')

/-! ## The whole receive -/

/-- What the message socket and its user have to see to it that is right. -/
structure Setting (sock : PrefixSock) (curr hdr : IolPtr n) (szbuf : ℕ) (first last : IolPtr n)
    (s : Rcv n) (els : List (IolPtr n)) (h m : List UInt8) : Prop where
  list : Scatter.Iolist curr first last s.iol els
  local' : hdr ≠ 0 ∧ hdr ≠ curr ∧ hdr ∉ els ∧ szbuf ≠ 0
  filled : Filled s.rx
  inerr : sock.inerr = false
  header : h.length = sock.hdrlen ∧ sock.hdrlen < 2 ^ 64 ∧ (sock.getHdr h).toNat = m.length
  room : m.length ≤ s.iol.bytes els

theorem cut_add (l : List Scatter.Buf) (u v : ℕ) : cut l (u + v) = cut (cut l u) v := by
  induction l generalizing u v with
  | nil => rfl
  | cons b l ih =>
    have hstep : ∀ (b : Scatter.Buf) (l : List Scatter.Buf) (k : ℕ), cut (b :: l) k =
        if b.2 ≤ k then cut l (k - b.2) else (b.1.map (· + k), b.2 - k) :: l := fun _ _ _ => rfl
    rw [hstep b l (u + v), hstep b l u]
    by_cases hu : b.2 ≤ u
    · have hsub : u + v - b.2 = u - b.2 + v := by omega
      rw [if_pos hu, if_pos (hu.trans (Nat.le_add_right u v)), hsub, ih]
    · rw [if_neg hu, hstep]
      by_cases hv : b.2 ≤ u + v
      · have hsub : u + v - b.2 = v - (b.2 - u) := by omega
        rw [if_pos hv, if_pos (show b.2 - u ≤ v by omega), hsub]
      · rw [if_neg hv, if_neg (show ¬b.2 - u ≤ v by omega), Option.map_map, Nat.sub_sub]
        congr 3
        funext a
        exact (Nat.add_assoc a u v).symm

/-- Buffers that stand together have stood together before the first bytes were received. -/
theorem crowded_cut {u : ℕ} (h : Crowded max (cut l u)) : Crowded max l := by
  induction l generalizing u with
  | nil => exact h
  | cons b l ih =>
    unfold cut at h
    split at h
    · exact (ih h).mono (List.suffix_cons b l).isInfix
    · exact h.head fun hb => ⟨fun hnull => hb.1 (Option.map_eq_none_iff.mpr hnull),
        hb.2.trans_le (Nat.sub_le _ _)⟩

theorem Blocked.of_cut {u : ℕ} (h : Blocked max (cut l u)) : Blocked max l := by
  rcases h with ⟨b, hb, hnull, hlen⟩ | hcrowded
  · obtain ⟨b', hb', hle, hback⟩ := mem_cut hb
    exact .inl ⟨b', hb', hback hnull, hlen.trans hle⟩
  · exact .inr (crowded_cut hcrowded)

/-- The more the receive buffer holds, the less can go wrong. -/
theorem Slips.mono {held held' : Option ℕ} (h : Slips max held' l k)
    (hheld : held = none ∧ held' = none ∨ ∃ u v, held = some u ∧ held' = some (u + v)) :
    Slips max held l k := by
  rcases hheld with ⟨rfl, rfl⟩ | ⟨u, v, rfl, rfl⟩
  · exact h
  · obtain ⟨hdirect, hwhy⟩ := h
    have hcut : missingOf (some (u + v)) (keep l k) = cut (missingOf (some u) (keep l k)) v :=
      cut_add _ u v
    rw [hcut] at hdirect hwhy
    refine ⟨.inr ((hdirect.resolve_left (by simp)).trans_le (sum_cut_le _ v)), ?_⟩
    exact hwhy.imp (fun hshort => ⟨hshort.1, hshort.2.trans_le (length_cut_le _ v)⟩) Blocked.of_cut

/-- What the receive buffer holds after the header. -/
theorem held_after {used : ℕ} (hsome : s'.rx.isSome = s.rx.isSome)
    (hle : (unread s.rx).length - used ≤ (unread s'.rx).length) :
    heldBehind s used = none ∧ heldBehind s' 0 = none ∨
      ∃ u v, heldBehind s used = some u ∧ heldBehind s' 0 = some (u + v) := by
  unfold heldBehind
  cases hrx : s.rx with
  | none =>
    rw [hrx] at hsome
    cases hrx' : s'.rx with
    | none => exact .inl ⟨rfl, rfl⟩
    | some rx' =>
      rw [hrx'] at hsome
      cases hsome
  | some rx =>
    rw [hrx] at hsome hle
    obtain ⟨rx', hrx'⟩ := Option.isSome_iff_exists.mp hsome
    rw [hrx'] at hle ⊢
    refine .inr ⟨_, rx'.unread.length - (rx.unread.length - used), rfl, ?_⟩
    change rx.unread.length - used ≤ rx'.unread.length at hle
    show some (rx'.unread.length - 0) = _
    rw [Nat.sub_zero, Nat.add_sub_cancel' hle]

theorem held_exact {used : ℕ} (hsome : s'.rx.isSome = s.rx.isSome)
    (hunread : (unread s'.rx).length = (unread s.rx).length - used) :
    heldBehind s' 0 = heldBehind s used := by
  unfold heldBehind
  cases hrx : s.rx with
  | none =>
    rw [hrx] at hsome
    cases hrx' : s'.rx with
    | none => rfl
    | some rx' =>
      rw [hrx'] at hsome
      cases hsome
  | some rx =>
    rw [hrx] at hsome hunread
    obtain ⟨rx', hrx'⟩ := Option.isSome_iff_exists.mp hsome
    rw [hrx'] at hunread ⊢
    exact congrArg some hunread

theorem below_run {α : Type} {x : Recv n α} {a : α} (h : x s = .ok (.ok a, s')) :
    below x (self, s) = .ok (.ok a, self, s') := by
  simp only [below, h]

theorem below_inv {α : Type} {x : Recv n α} {a : α} {p : PrefixSock × Rcv n}
    (h : below x (self, s) = .ok (.ok a, p)) : x s = .ok (.ok a, p.2) := by
  cases hx : x s with
  | error r =>
    simp only [below, hx] at h
    cases h
  | ok q =>
    obtain ⟨o, s'⟩ := q
    simp only [below, hx] at h
    cases o with
    | error e => cases h
    | ok a' =>
      cases h
      rfl

theorem Setting.congr (hset : Setting self curr hdr szbuf first last s els h m)
    (hiol : ∀ it, it ≠ curr → it ≠ hdr → s'.iol it = s.iol it) :
    Scatter.Iolist curr first last s'.iol els ∧ bufs s'.iol els = bufs s.iol els ∧
      m.length ≤ s'.iol.bytes els := by
  obtain ⟨hl, ⟨-, -, hhdr, -⟩, -, -, -, hroom⟩ := hset
  have hsame : ∀ x ∈ els, s'.iol x = s.iol x := fun x hx =>
    hiol x (fun h => hl.apart (h ▸ hx)) (fun h => hhdr (h ▸ hx))
  have hbufs : bufs s'.iol els = bufs s.iol els := by
    apply List.map_congr_left
    intro x hx
    rw [hsame x hx]
  refine ⟨⟨hl.chain.congr fun x hx => congrArg IolElem.iolNext (hsame x hx), hl.null, hl.last,
    fun x hx => ?_, fun x hx => ?_, hl.own, hl.apart⟩, hbufs, ?_⟩
  · rw [hsame x hx]
    exact hl.reserved x hx
  · rw [hsame x hx]
    exact hl.sizes x hx
  · rw [← length_cells_bufs, hbufs, length_cells_bufs]
    exact hroom

/-- The receive from the point where the header has been received. -/
theorem mrecvl_open (hset : Setting self curr hdr szbuf first last s els h m)
    (hbrecv : brecv curr hdr szbuf self.hdrlen (s.on ps) = .ok (.ok (), s'))
    (hmem : s'.mem = store s.mem (Scatter.Buf.cells (some szbuf, self.hdrlen)) h) {x : IolPtr n} {r : ℕ}
    (htrim : trim (n + 1) first m.length s' = .ok (.ok (x, r), s')) :
    mrecvl curr hdr szbuf first last (self, s.on ps) =
      (below (receive curr first last x r) >>= fun _ => pure (toSsize m.length)) (self, s') := by
  obtain ⟨hlen, -, hsz⟩ := hset.header
  have hhdr : (List.range' szbuf self.hdrlen).map s'.mem = h := by
    rw [hmem, ← hlen]
    exact load_store s.mem szbuf h
  unfold mrecvl
  rw [Call.look_bind, hset.inerr, beq_self_eq_true, Call.bind_ret Call.require_true,
    Call.bind_ret (below_run hbrecv), Call.look_bind]
  dsimp only
  rw [hhdr, hsz, if_neg hset.list.first_ne, Call.bind_ret (below_run htrim)]

/-- Both receives of the message get their bytes. -/
theorem Setting.supplies (hset : Setting self curr hdr szbuf first last s els h m)
    {y : List UInt8} (hx : unread s.rx ++ y = h ++ m ++ more) (hy : dataOf ps = y)
    (hb : ∀ p ∈ ps, p.Benign) : (s.on ps).Supplies (self.hdrlen + m.length) := by
  have hlen := congrArg List.length hx
  rw [List.length_append, List.length_append, List.length_append, hset.header.1] at hlen
  refine ⟨rfl, ps, [], (List.append_nil ps).symm, hb, ?_⟩
  rw [hy]
  show _ ≤ (unread s.rx).length + y.length
  omega

/-- The state when the header has been received. -/
theorem Setting.after (hset : Setting self curr hdr szbuf first last s els h m)
    {y : List UInt8} (hx : unread s.rx ++ y = h ++ m ++ more) (hy : dataOf ps = y)
    (hs : (s.on ps).Supplies (self.hdrlen + m.length)) :
    ∃ s', brecv curr hdr szbuf self.hdrlen (s.on ps) = .ok (.ok (), s') ∧
      s'.mem = store s.mem (Scatter.Buf.cells (some szbuf, self.hdrlen)) h ∧
      s'.stream = m ++ more ∧ (∀ it, it ≠ curr → it ≠ hdr → s'.iol it = s.iol it) ∧
      Filled s'.rx ∧ s'.rx.isSome = s.rx.isSome ∧ s'.iovMax = s.iovMax ∧ s'.Supplies m.length ∧
      (unread s.rx).length - self.hdrlen ≤ (unread s'.rx).length := by
  obtain ⟨hl, ⟨hh, hne, -, hbuf⟩, hf, -, ⟨hlen, -⟩, -⟩ := hset
  obtain ⟨s', hrun, hmem, hstream, hiol, hrest⟩ :=
    brecv_spec (s := s.on ps) hl.own hh hne hbuf hf hs
  have hall : (s.on ps).stream = h ++ (m ++ more) := by
    rw [← List.append_assoc, ← hx, ← hy]
    rfl
  rw [hall, ← hlen, List.take_left] at hmem
  rw [hall, ← hlen, List.drop_left] at hstream
  exact ⟨s', hrun, hlen ▸ hmem, hstream, hiol, hrest⟩

theorem Setting.size_lt (hset : Setting self curr hdr szbuf first last s els h m) :
    m.length < 2 ^ 64 := by
  rw [← hset.header.2.2]
  exact UInt64.toNat_lt _

/-- A receive that slips fails when the header comes first and then everything else. -/
theorem Setting.not_exact (hset : Setting self curr hdr szbuf first last s els h m)
    {y : List UInt8} (hx : unread s.rx ++ y = h ++ m ++ more)
    (hslips : Slips s.iovMax (heldBehind s self.hdrlen) (bufs s.iol els) m.length) :
    ¬Exact (mrecvl curr hdr szbuf first last) self curr hdr szbuf s els h m y := by
  intro hexact
  obtain ⟨hlen, hhdr64, -⟩ := hset.header
  set j := self.hdrlen - (unread s.rx).length with hj
  set ps : List Piece := [.data (y.take j), .data (y.drop j)] with hps
  have hdata : dataOf ps = y := by
    show y.take j ++ (y.drop j ++ []) = y
    rw [List.append_nil, List.take_append_drop]
  have hbenign : ∀ p ∈ ps, p.Benign := by
    intro p hp
    rcases List.mem_pair.mp hp with rfl | rfl <;> exact trivial
  have hs := hset.supplies hx hdata hbenign
  obtain ⟨s', hrun, -⟩ := hexact ps hdata (hlen ▸ hs)
  obtain ⟨s₁, hbrecv, hmem, -, hiol, hf₁, hsome, hmax, hs₁, -⟩ := hset.after hx hdata hs
  -- nothing of the message is in the receive buffer that was not there before
  have hyj : (y.take j).length = j := by
    have hall := congrArg List.length hx
    rw [List.length_append, List.length_append, List.length_append, hlen] at hall
    rw [List.length_take]
    omega
  obtain ⟨s₁', hbrecv', hunread, hpieces⟩ := brecv_snug (s := s.on ps) hset.list.own
    hset.local'.1 hset.local'.2.1 hset.local'.2.2.2 hset.filled self.hdrlen_pos hhdr64 rfl
    (show (s.on ps).pieces = _ from rfl) hyj
  rw [hbrecv] at hbrecv'
  cases hbrecv'
  have hheld : heldBehind s₁ 0 = heldBehind s self.hdrlen := held_exact hsome hunread
  obtain ⟨hl₁, hbufs, hroom⟩ := hset.congr hiol
  obtain ⟨x, r, els', ht⟩ := exists_trimmed hl₁ hroom
  rw [mrecvl_open hset hbrecv hmem ht.found] at hrun
  obtain ⟨a, ⟨self₂, s₂⟩, hreceive, -⟩ := Call.ret_of_bind hrun
  have hapart : last ≠ curr := fun heq =>
    hset.list.apart (heq ▸ List.mem_of_getLast? hset.list.last)
  exact ht.slips hf₁ hroom hset.size_lt hapart (by rwa [hheld, hbufs, hmax])
    (fun p hp => hbenign p (hpieces p hp)) hs₁.1 (below_inv hreceive)

/-- **When every receive of a message is exact**: unless it slips. The list ends before the `last`
that `dill_fd_recv` looks for, and it goes on behind the end of the list; or its buffers cannot be
received into directly. -/
theorem mrecvl_exact_iff (hset : Setting self curr hdr szbuf first last s els h m)
    {y : List UInt8} (hx : unread s.rx ++ y = h ++ m ++ more) :
    Exact (mrecvl curr hdr szbuf first last) self curr hdr szbuf s els h m y ↔
      ¬Slips s.iovMax (heldBehind s self.hdrlen) (bufs s.iol els) m.length := by
  constructor
  · exact fun hexact hslips => hset.not_exact hx hslips hexact
  · intro hno ps hdata hs
    have hlen := hset.header.1
    rw [hlen] at hs
    obtain ⟨s₁, hbrecv, hmem, hstream, hiol, hf₁, hsome, hmax, hs₁, hheld⟩ :=
      hset.after hx hdata hs
    obtain ⟨hl₁, hbufs, hroom⟩ := hset.congr hiol
    obtain ⟨x, r, els', ht⟩ := exists_trimmed hl₁ hroom
    obtain ⟨s₂, hreceive, hmem₂, hstream₂, hiol₂⟩ := ht.exact hf₁ hroom hset.size_lt
      (fun hslips => hno ((hmax ▸ hbufs ▸ hslips).mono (held_after hsome hheld))) hs₁
    refine ⟨s₂, ?_, ?_, ?_, fun it hit hit' => (hiol₂ it hit).trans (hiol it hit hit')⟩
    · rw [mrecvl_open hset hbrecv hmem ht.found]
      exact Call.bind_ret (below_run hreceive)
    · rw [hmem₂, hmem, hstream, List.take_left, hbufs, hlen]
    · have hall : (s.on ps).stream = h ++ m ++ more := by
        rw [← hx, ← hdata]
        rfl
      rw [hstream₂, hstream, List.drop_left, hall, ← List.length_append, List.drop_left]

/-- `IOV_MAX` of Linux. -/
def linuxIovMax : ℕ+ := ⟨1024, by decide⟩

/-- A socket without a receive buffer, and a list of three elements of two bytes each. -/
def threeBuffers : Rcv 6 :=
  ⟨fun it => ⟨10 * it, 2, if it = 3 then 0 else it + 1, 0⟩, fun _ => 0, none, true, [], linuxIovMax⟩

/-- A socket with a header of one byte. -/
def oneByteHeader : PrefixSock := Params.attach ⟨1, true, Nat.one_pos⟩

theorem setting_threeBuffers (hone : h.length = 1)
    (hsize : (oneByteHeader.getHdr h).toNat = m.length) (hroom : m.length ≤ 6) :
    Setting oneByteHeader 4 5 7 1 3 threeBuffers [1, 2, 3] h m where
  list := ⟨⟨rfl, rfl, rfl, rfl⟩, by decide, rfl, fun _ _ => rfl,
    fun _ _ => (by decide : 2 < 2 ^ 64), by decide, by decide⟩
  local' := by decide
  filled := trivial
  inerr := rfl
  header := ⟨hone, by decide, hsize⟩
  room := hroom

theorem mrecvl_exact_iff_short :
    Exact (mrecvl 4 5 7 1 3) oneByteHeader 4 5 7 threeBuffers [1, 2, 3] [1] [8] [1, 8] := by
  refine (mrecvl_exact_iff (setting_threeBuffers rfl rfl (by decide)) rfl).mpr ?_
  rintro ⟨-, ⟨-, hmany⟩ | ⟨b, hb, hnull, -⟩ | hcrowded⟩
  · exact absurd hmany (by decide)
  · rw [List.mem_singleton.mp hb] at hnull
    cases hnull
  · exact absurd hcrowded.length (by decide)

/-- The message ends in the second element of the three. -/
theorem mrecvl_runs_off_list :
    ¬Exact (mrecvl 4 5 7 1 3) oneByteHeader 4 5 7 threeBuffers [1, 2, 3] [4] [6, 7, 8, 9]
      [4, 6, 7, 8, 9] :=
  (setting_threeBuffers rfl rfl (by decide)).not_exact rfl ⟨.inl rfl, .inl (by decide)⟩

end Libdill.Prefix.Memory
