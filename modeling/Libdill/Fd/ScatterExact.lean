import Libdill.Fd.ScatterRecv

/-!
# When a receive is right

A receive into an iolist stores the bytes of the stream that come next, and it returns 0 only when
it has all of them. `dill_fd_recv` does both unless it has to skip something directly: the length of
a null buffer is converted to `ssize_t`, and the result of `dill_fd_skip` is not looked at. And the
kernel refuses a direct receive into more than `IOV_MAX` buffers, which is never split there.

* `fdRecv_exact_iff`: exactly when every receive that is supplied with its bytes is right.
* `brecvl_honest_iff`: exactly when no receive returns 0 without its bytes.
-/

namespace Libdill.Fd.Scatter

open Foundations Libdill.Sock

variable {n : ℕ}

/-- An iolist from `first` to `last`, and the address of the local element of `dill_fd_recv`. -/
structure Iolist (curr first last : IolPtr n) (iol : IolMem n) (els : List (IolPtr n)) : Prop where
  chain : Chain iol.next first els 0
  null : 0 ∉ els
  last : els.getLast? = some last
  reserved : ∀ x ∈ els, (iol x).iolRsvd = 0
  sizes : ∀ x ∈ els, (iol x).iolLen < 2 ^ 64
  own : curr ≠ 0
  apart : curr ∉ els

/-- The state when the kernel has `ps` in store. -/
def Rcv.on (s : Rcv n) (ps : List Piece) : Rcv n := { s with alloc := true, pieces := ps }

/-- **An exact receive.** If its bytes arrive without errors, it returns 0, the bytes that come next
are in the elements in their order, the others are where they were, and so are the elements. -/
def Exact (x : Recv n Unit) (curr : IolPtr n) (s : Rcv n) (els : List (IolPtr n)) : Prop :=
  ∀ ps, (s.on ps).Supplies (s.iol.bytes els) → ∃ s', x (s.on ps) = .ok (.ok (), s') ∧
    s'.mem = store s.mem (cells (bufs s.iol els)) ((s.on ps).stream.take (s.iol.bytes els)) ∧
    s'.stream = (s.on ps).stream.drop (s.iol.bytes els) ∧
    ∀ it, it ≠ curr → s'.iol it = s.iol it

/-- **An honest receive.** It returns 0 only when it has taken all its bytes off the stream, it
fails with the end of the stream, an error of the wait or an error of the connection (or one of the
errors `also`), and the only reason not to return is that it waits. -/
structure Honest (also : List Errno) (x : Recv n Unit) (s : Rcv n) (els : List (IolPtr n))
    (ps : List Piece) : Prop where
  returns : ∀ s', x (s.on ps) = .ok (.ok (), s') →
    s.iol.bytes els ≤ (s.on ps).stream.length ∧
      s'.stream = (s.on ps).stream.drop (s.iol.bytes els)
  fails : ∀ e s', x (s.on ps) = .ok (.error e, s') →
    e = .EPIPE ∨ e = .ETIMEDOUT ∨ e = .ECANCELED ∨ e = .ECONNRESET ∨ .fail e ∈ ps ∨ e ∈ also
  stops : ∀ h, x (s.on ps) = .error h → h = .waits

/-- A direct receive into the buffers cannot succeed: a null one has 2⁶³ bytes or more, which is
negative as an `ssize_t`, or the kernel refuses the number of buffers. -/
def Blocked (max : ℕ) (l : List Buf) : Prop :=
  (∃ b ∈ l, b.1 = none ∧ 2 ^ 63 ≤ b.2) ∨ Crowded max l

/-- The wait for more bytes ends with a timeout or because the coroutine is canceled. -/
def Waits (ps : List Piece) : Prop := ∀ e, .stop e ∈ ps → e = .ETIMEDOUT ∨ e = .ECANCELED

/-- `dill_tcp_brecvl` and `dill_ipc_brecvl` when no other call is receiving. -/
def brecvl (indone inerr : Bool) (curr first last : IolPtr n) : Recv n Unit :=
  if indone then Call.fail .EPIPE
  else if inerr then Call.fail .ECONNRESET
  else fdRecv curr first last

variable {A : Prop} {P : ℕ → Prop} {c : Option (IolPtr n)} {s s' : Rcv n} {dst : List (Option ℕ)}
  {x : Recv n Unit} {acts : List Action} {l acc : List Buf} {b : Buf} {iov : List Buf} {k len : ℕ}
  {curr first last : IolPtr n} {els rest : List (IolPtr n)} {e : Errno} {ps : List Piece}
  {ends : Bool} {also : List Errno}

/-! ## What a receive does -/

theorem length_cells_bufs (iol : IolMem n) (els : List (IolPtr n)) :
    (cells (bufs iol els)).length = iol.bytes els := by
  rw [length_cells]
  unfold bufs IolMem.bytes
  rw [List.map_map]
  rfl

/-- A part that is supplied with its bytes returns with them. -/
theorem Spec.supplied (h : Spec A c dst x s) (hs : s.Supplies dst.length) :
    ∃ s', x s = .ok (.ok (), s') ∧ Keeps c s s' ∧ Took s s' dst ∧
      ∀ m, s.Supplies (dst.length + m) → s'.Supplies m := by
  cases hx : x s with
  | error r => exact absurd hs (h.halts r hx).2
  | ok p =>
    obtain ⟨o, s'⟩ := p
    cases o with
    | error e => exact absurd hs (h.fails e s' hx).2.1
    | ok a =>
      obtain ⟨hkeep, htook, hrest⟩ := h.returns s' hx
      exact ⟨s', rfl, hkeep, htook (.inr hs), hrest⟩

/-- The bytes that have been taken are the first ones of the stream. -/
theorem Took.bytes (h : Took s s' dst) : dst.length ≤ s.stream.length ∧
    s'.mem = store s.mem dst (s.stream.take dst.length) ∧
    s'.stream = s.stream.drop dst.length := by
  obtain ⟨bs, hlen, hstream, hmem⟩ := h
  rw [hstream, ← hlen]
  refine ⟨?_, ?_, ?_⟩
  · rw [List.length_append]
    exact Nat.le_add_right _ _
  · rw [List.take_left, hmem]
  · rw [List.drop_left]

/-- What is left of a buffer is null if the buffer is, and no longer. -/
theorem mem_cut (h : b ∈ cut l k) : ∃ b' ∈ l, b.2 ≤ b'.2 ∧ (b.1 = none → b'.1 = none) := by
  induction l generalizing k with
  | nil => exact absurd h List.not_mem_nil
  | cons a l ih =>
    unfold cut at h
    split at h
    · obtain ⟨b', hb', hle⟩ := ih h
      exact ⟨b', List.mem_cons_of_mem _ hb', hle⟩
    · rcases List.mem_cons.mp h with rfl | h
      · exact ⟨a, List.mem_cons_self, Nat.sub_le _ _, Option.map_eq_none_iff.mp⟩
      · exact ⟨b, List.mem_cons_of_mem _ h, le_rfl, id⟩

theorem mem_remaining (h : b ∈ remaining s els) :
    ∃ b' ∈ bufs s.iol els, b.2 ≤ b'.2 ∧ (b.1 = none → b'.1 = none) := by
  unfold remaining at h
  cases hrx : s.rx with
  | none =>
    rw [hrx] at h
    exact ⟨b, h, le_rfl, id⟩
  | some rx =>
    rw [hrx] at h
    exact mem_cut h

theorem Iolist.remaining_lt (hl : Iolist curr first last s.iol els) (hb : b ∈ remaining s els) :
    b.2 < 2 ^ 64 := by
  obtain ⟨b', hb', hle, -⟩ := mem_remaining hb
  obtain ⟨it, hit, rfl⟩ := List.mem_map.mp hb'
  exact hle.trans_lt (hl.sizes it hit)

theorem Iolist.ne_nil (hl : Iolist curr first last s.iol els) : els ≠ [] := by
  rintro rfl
  cases hl.last

theorem Iolist.first_ne (hl : Iolist curr first last s.iol els) : first ≠ 0 := by
  cases els with
  | nil => exact absurd rfl hl.ne_nil
  | cons y els =>
    obtain ⟨rfl, -⟩ := hl.chain
    exact fun h => hl.null (h ▸ List.mem_cons_self)

theorem Iolist.last_ne (hl : Iolist curr first last s.iol els) : last ≠ 0 := fun h =>
  hl.null (h ▸ List.mem_of_getLast? hl.last)

theorem Iolist.ne_of_mem {pre post : List (IolPtr n)} {y z : IolPtr n}
    (hl : Iolist curr first last s.iol (pre ++ z :: post)) (hy : y ∈ pre) : y ≠ z := by
  rintro rfl
  exact (List.nodup_append.mp (hl.chain.nodup hl.null)).2.2 y hy y List.mem_cons_self rfl

/-- **The receive into an iolist.** -/
theorem Iolist.spec (hl : Iolist curr first last s.iol els) (hf : Filled s.rx) (ps : List Piece)
    (hnull : Direct s els → ∀ b ∈ remaining s els, b.1 = none → b.2 = 0 ∨ ¬A ∧ b.2 < 2 ^ 63)
    (hmax : Direct s els → ¬Crowded s.iovMax (remaining s els)) :
    Spec A (some curr) (cells (bufs s.iol els)) (fdRecv curr first last) (s.on ps) :=
  fdRecv_spec (s := s.on ps) hl.own hl.ne_nil hl.chain hl.null hl.apart hl.last hf hl.reserved hnull
    hmax

/-- A direct receive performs its plan. -/
theorem Iolist.performs (hl : Iolist curr first last s.iol els) (hf : Filled s.rx)
    (hdirect : Direct s els) (hne : remaining s els ≠ []) (ps : List Piece) :
    ∃ s', s'.alloc = true ∧ s'.iovMax = s.iovMax ∧ s'.pieces = ps ∧ unread s'.rx = [] ∧
      fdRecv curr first last (s.on ps) =
        (perform (plan true [] (remaining s els)) >>= fun _ => pure ()) s' := by
  rcases fdRecv_opened (s := s.on ps) hl.own hl.ne_nil hl.chain hl.null hl.apart hf with
    ⟨s', -, hnil, -⟩ | ⟨rest, s', hopened, hrun⟩
  · exact absurd hnil hne
  · refine ⟨s', hopened.copied.alloc, hopened.copied.iovMax, hopened.copied.pieces, hopened.dry,
      (hrun last).trans ?_⟩
    rw [decide_eq_true (show Direct (s.on ps) els from hdirect)]
    exact hopened.direct hl.own hl.null hl.last hl.reserved

/-- A null buffer is skipped. -/
theorem mem_plan (hb : b ∈ l) (hnull : b.1 = none) (hpos : 0 < b.2) :
    .skip b.2 ∈ plan ends acc l := by
  induction l generalizing acc with
  | nil => exact absurd hb List.not_mem_nil
  | cons a l ih =>
    unfold plan
    rcases List.mem_cons.mp hb with rfl | hb
    · rw [if_neg hpos.ne', if_pos hnull]
      exact List.mem_append_right _ List.mem_cons_self
    · split
      · exact List.mem_append_right _ (ih hb)
      · split
        · exact List.mem_append_right _ (List.mem_cons_of_mem _ (ih hb))
        · exact ih hb

theorem Iolist.plan_fine (hl : Iolist curr first last s.iol els) :
    ∀ a ∈ plan true [] (remaining s els), a.Fine (· < 2 ^ 64) :=
  Scatter.plan_fine (fun _ hb => absurd hb List.not_mem_nil)
    fun _ hb _ => .inr (hl.remaining_lt hb)

/-! ## Buffers that cannot be received into -/

theorem toSsize_neg (h : 2 ^ 63 ≤ len) (hlt : len < 2 ^ 64) : toSsize len < 0 := by
  have h64 : ((2 ^ 64 : ℕ) : ℤ) = 2 ^ 64 := rfl
  have hhalf : ((2 : ℤ) ^ 64 + 1) / 2 = ((2 ^ 63 : ℕ) : ℤ) := rfl
  have hge : ¬(len : ℤ) < (2 ^ 64 + 1) / 2 := by
    rw [hhalf, not_lt]
    exact Int.ofNat_le.mpr h
  have hlt' : (len : ℤ) < 2 ^ 64 := h64 ▸ Int.ofNat_lt.mpr hlt
  have hmod : (len : ℤ) % 2 ^ 64 = len := Int.emod_eq_of_lt (Int.natCast_nonneg len) hlt'
  unfold toSsize
  rw [Int.bmod_def, h64, hmod, if_neg hge]
  exact Int.sub_neg_of_lt hlt'

theorem not_canFail (hb : ∀ p ∈ s.pieces, p.Benign) (ha : s.alloc = true) : ¬s.CanFail e := by
  rintro (⟨-, h⟩ | ⟨e', -, h⟩ | h | ⟨-, h⟩)
  · exact hb _ h
  · exact hb _ h
  · exact hb _ h
  · rw [ha] at h
    cases h

/-- When nothing can fail, a part returns or waits. -/
theorem Spec.benign (h : Spec A c dst x s) (hb : ∀ p ∈ s.pieces, p.Benign) (ha : s.alloc = true) :
    x s = .error .waits ∨ ∃ s', x s = .ok (.ok (), s') ∧ Keeps c s s' := by
  cases hx : x s with
  | error r => exact .inl (by rw [(h.halts r hx).1])
  | ok p =>
    obtain ⟨o, s'⟩ := p
    cases o with
    | error e => exact absurd (h.fails e s' hx).2.2 (not_canFail hb ha)
    | ok u => exact .inr ⟨s', rfl, (h.returns s' hx).1⟩

theorem ignore_waits (h : x s = .error .waits) : ignore x s = .error .waits := by
  unfold ignore
  rw [h]

theorem ignore_fails (h : x s = .ok (.error e, s')) : ignore x s = .ok (.ok (), s') := by
  unfold ignore
  rw [h]

/-- A skip over a negative number of bytes waits forever when nothing can fail. -/
theorem fdSkip_waits {m : ℤ} (hm : m < 0) (hu : unread s.rx = []) (hb : ∀ p ∈ s.pieces, p.Benign)
    (ha : s.alloc = true) : ignore (fdSkip m) s = .error .waits := by
  rcases fdSkip_neg hm hu with hw | ⟨e, s', -, -, he⟩
  · exact ignore_waits hw
  · exact absurd he (not_canFail hb ha)

/-- An action that cannot succeed. -/
def Action.Blocked (max : ℕ) : Action → Prop
  | .skip len => 2 ^ 63 ≤ len
  | .recv iov => max < iov.length

/-- A plan with such an action does not succeed: it waits forever, or the kernel refuses it. -/
theorem perform_blocked (h : ∀ a ∈ acts, a.Fine (· < 2 ^ 64)) (hu : unread s.rx = [])
    (hb : ∀ p ∈ s.pieces, p.Benign) (ha : s.alloc = true)
    (hblocked : ∃ a ∈ acts, a.Blocked s.iovMax) : perform acts s ≠ .ok (.ok (), s') := by
  induction acts generalizing s with
  | nil =>
    obtain ⟨a, hmem, -⟩ := hblocked
    exact absurd hmem List.not_mem_nil
  | cons a acts ih =>
    obtain ⟨hfine, hrest⟩ := List.forall_mem_cons.mp h
    have hstop : ∀ {x : Recv n Unit}, x s = .error .waits →
        (x >>= fun _ => perform acts) s ≠ .ok (.ok (), s') := by
      intro x hx hrun
      rw [Call.bind_stop hx] at hrun
      cases hrun
    have hnext : ∀ {x : Recv n Unit} {s₁}, ¬a.Blocked s.iovMax → x s = .ok (.ok (), s₁) →
        Keeps none s s₁ → (x >>= fun _ => perform acts) s ≠ .ok (.ok (), s') := by
      intro x s₁ hfree hx hkeep
      rw [Call.bind_ret hx]
      refine ih hrest (by rw [hkeep.rx rfl, hu]) (fun p hp => ?_) (hkeep.alloc.trans ha) ?_
      · by_contra hno
        exact hno (hb p (hkeep.pieces p hp hno))
      · obtain ⟨a', hmem, ha'⟩ := hblocked
        rcases List.mem_cons.mp hmem with rfl | hmem
        · exact absurd ha' hfree
        · exact ⟨a', hmem, hkeep.iovMax ▸ ha'⟩
    cases a with
    | skip m =>
      by_cases hm : 2 ^ 63 ≤ m
      · exact hstop (fdSkip_waits (toSsize_neg hm hfine.2) hu hb ha)
      · have hskip : Spec False none (List.replicate (m : ℤ).toNat none) (fdSkip m) s :=
          fdSkip_spec (Int.natCast_nonneg m) hu
        rw [← toSsize_eq (not_le.mp hm)] at hskip
        rcases hskip.ignored.benign hb ha with hw | ⟨s₁, hs₁, hkeep⟩
        · exact hstop hw
        · exact hnext hm hs₁ hkeep
    | recv iov =>
      by_cases hmax : s.iovMax < iov.length
      · intro hrun
        change (recvIov iov >>= fun _ => perform acts) s = _ at hrun
        rw [Call.bind_fail (recvIov_crowded hmax)] at hrun
        cases hrun
      · rcases (recvIov_spec (A := True) s hfine.1 hfine.2 (not_lt.mp hmax) hu).benign hb ha with
          hw | ⟨s₁, hs₁, hkeep⟩
        · exact hstop hw
        · exact hnext hmax hs₁ hkeep

theorem plan_blocked {max : ℕ} (h : Blocked max l) : ∃ a ∈ plan true [] l, a.Blocked max := by
  rcases h with ⟨b, hb, hnull, hlen⟩ | h
  · exact ⟨_, mem_plan hb hnull (lt_of_lt_of_le (Nat.two_pow_pos 63) hlen), hlen⟩
  · obtain ⟨iov, hmem, hlen⟩ := plan_crowded.mpr h
    exact ⟨_, hmem, hlen⟩

theorem Blocked.ne_nil {max : ℕ} (h : Blocked max l) : l ≠ [] := by
  rcases h with ⟨b, hb, -⟩ | h
  · exact List.ne_nil_of_mem hb
  · exact h.ne_nil

/-- A direct receive into such buffers does not succeed, whatever arrives. -/
theorem Iolist.blocked (hl : Iolist curr first last s.iol els) (hf : Filled s.rx)
    (hdirect : Direct s els) (hblocked : Blocked s.iovMax (remaining s els))
    (hps : ∀ p ∈ ps, p.Benign) : fdRecv curr first last (s.on ps) ≠ .ok (.ok (), s') := by
  obtain ⟨s₁, halloc, hmax, hpieces, hdry, hrun⟩ := hl.performs hf hdirect hblocked.ne_nil ps
  rw [hrun]
  intro h
  obtain ⟨_, s₂, hacts, -⟩ := Call.ret_of_bind h
  exact perform_blocked hl.plan_fine hdry (hpieces ▸ hps) halloc (hmax ▸ plan_blocked hblocked) hacts

theorem Iolist.not_exact (hl : Iolist curr first last s.iol els) (hf : Filled s.rx)
    (hdirect : Direct s els) (hblocked : Blocked s.iovMax (remaining s els)) :
    ¬Exact (fdRecv curr first last) curr s els := by
  intro h
  set ps : List Piece := [.data (List.replicate (s.iol.bytes els) 0)] with hps
  have hgood : ∀ p ∈ ps, p.Benign := fun p hp => by
    rw [List.mem_singleton.mp hp]
    trivial
  have hsup : (s.on ps).Supplies (s.iol.bytes els) := by
    refine ⟨rfl, ps, [], (List.append_nil ps).symm, hgood, ?_⟩
    rw [hps, dataOf, List.length_append, List.length_replicate]
    omega
  obtain ⟨s', hrun, -⟩ := h ps hsup
  exact hl.blocked hf hdirect hblocked hgood hrun

/-- **When every receive is exact**: unless a direct receive skips a null buffer whose length is
negative as an `ssize_t`, or is refused by the kernel because of the number of its buffers. -/
theorem fdRecv_exact_iff (hl : Iolist curr first last s.iol els) (hf : Filled s.rx) :
    Exact (fdRecv curr first last) curr s els ↔
      ¬(Direct s els ∧ Blocked s.iovMax (remaining s els)) := by
  constructor
  · rintro h ⟨hdirect, hblocked⟩
    exact hl.not_exact hf hdirect hblocked h
  · intro h ps hs
    have hspec : Spec False (some curr) (cells (bufs s.iol els)) (fdRecv curr first last)
        (s.on ps) := by
      refine hl.spec hf ps (fun hdirect b hb hnull => .inr ⟨id, ?_⟩) fun hdirect hmax =>
        h ⟨hdirect, .inr hmax⟩
      by_contra hlen
      exact h ⟨hdirect, .inl ⟨b, hb, hnull, not_lt.mp hlen⟩⟩
    rw [← length_cells_bufs] at hs
    obtain ⟨s', hrun, hkeep, htook, -⟩ := hspec.supplied hs
    obtain ⟨-, hmem, hstream⟩ := htook.bytes
    rw [length_cells_bufs] at hmem hstream
    exact ⟨s', hrun, hmem, hstream, fun it hit => hkeep.iol it fun heq => hit (Option.some.inj heq)⟩

/-- A socket without a receive buffer, and a list of one element. -/
def oneBuffer (base len : ℕ) : Rcv 4 := ⟨fun _ => ⟨base, len, 0, 0⟩, fun _ => 0, none, true, [], 1024⟩

theorem iolist_oneBuffer (base : ℕ) (h : len < 2 ^ 64) :
    Iolist 2 1 1 (oneBuffer base len).iol [1] where
  chain := ⟨rfl, rfl⟩
  null := by decide
  last := rfl
  reserved _ _ := rfl
  sizes _ _ := h
  own := by decide
  apart := by decide

theorem fdRecv_exact_iff_skips : Exact (fdRecv 2 1 1) 2 (oneBuffer 0 600) [1] := by
  refine (fdRecv_exact_iff (iolist_oneBuffer 0 (by decide)) trivial).mpr ?_
  rintro ⟨-, ⟨b, hb, -, hlen⟩ | hmax⟩
  · rw [List.mem_singleton.mp hb] at hlen
    exact absurd hlen (by decide)
  · exact absurd hmax.length (by decide)

/-- 2⁶³ bytes to be skipped. -/
theorem fdRecv_skips_forever : ¬Exact (fdRecv 2 1 1) 2 (oneBuffer 0 (2 ^ 63)) [1] :=
  (iolist_oneBuffer 0 (by decide)).not_exact trivial (.inl rfl)
    (.inl ⟨(none, 2 ^ 63), List.mem_cons_self, rfl, le_rfl⟩)

/-! ## Skips that fail -/

/-- What the kernel does when it lets the receives of a plan succeed and the skips fail. -/
def Action.event : Action → Piece
  | .skip _ => .stop .ETIMEDOUT
  | .recv iov => .data (List.replicate (iov.map Prod.snd).sum 0)

theorem recvIov_stop (hroom : 0 < (iov.map Prod.snd).sum) (hmax : iov.length ≤ s.iovMax)
    (hp : s.pieces = .stop e :: ps) :
    recvIov iov s = .ok (.error e, { s with pieces := ps }) := by
  have hrecv : sysRecv iov.length (iov.map Prod.snd).sum s = .ok (.ok [], s) := by
    unfold sysRecv
    rw [if_neg hmax.not_gt, if_neg hroom.ne', hp]
  have hkept : advance iov ([] : List UInt8).length = iov := by
    cases iov with
    | nil => rfl
    | cons b iov => exact if_pos rfl
  have hne : iov.isEmpty = false := by
    cases iov with
    | nil => exact absurd hroom (lt_irrefl 0)
    | cons b iov => rfl
  have hwait : fdin s = .ok (.error e, { s with pieces := ps }) := by
    unfold fdin
    rw [hp]
  unfold recvIov recvLoop
  rw [Call.bind_ret hrecv, Call.change_bind, hkept, hne, if_neg Bool.false_ne_true, store_nil]
  exact Call.bind_fail hwait

theorem recvIov_full (hne : iov ≠ []) (hiov : ∀ b ∈ iov, 0 < b.2) (hmax : iov.length ≤ s.iovMax)
    {bs : List UInt8} (hlen : bs.length = (iov.map Prod.snd).sum) (hp : s.pieces = .data bs :: ps) :
    recvIov iov s = .ok (.ok (), { s with mem := store s.mem (cells iov) bs, pieces := ps }) := by
  have hrecv : sysRecv iov.length (iov.map Prod.snd).sum s =
      .ok (.ok bs, { s with pieces := ps }) := by
    unfold sysRecv
    rw [if_neg hmax.not_gt, if_neg (sum_pos_of_room hne hiov).ne', hp]
    exact if_pos hlen.le
  have hall : (advance iov bs.length).isEmpty = true := by
    rw [List.isEmpty_iff, advance_eq_nil hiov hlen.le]
    exact hlen
  unfold recvIov recvLoop
  rw [Call.bind_ret hrecv, Call.change_bind, hall, if_pos rfl]
  rfl

theorem fdSkip_stop {m : ℤ} (hm : m ≠ 0) (hp : s.pieces = .stop e :: ps) :
    fdSkip m s = .ok (.error e, { s with pieces := ps }) := by
  have hroom : 0 < (([(none, toRecv m)] : List Buf).map Prod.snd).sum := toRecv_pos hm
  unfold fdSkip skipLoop
  rw [if_neg hm]
  exact Call.bind_fail (recvIov_stop hroom s.iovMax.pos hp)

theorem toSsize_ne_zero (hpos : 0 < len) (hlt : len < 2 ^ 64) : toSsize len ≠ 0 := by
  by_cases h : 2 ^ 63 ≤ len
  · exact (toSsize_neg h hlt).ne
  · rw [toSsize_eq (not_le.mp h)]
    exact_mod_cast hpos.ne'

/-- Nobody notices, unless the kernel refuses a receive. -/
theorem perform_events (h : ∀ a ∈ acts, a.Fine (· < 2 ^ 64))
    (hp : s.pieces = acts.map Action.event) : ∃ s',
      (perform acts s = .ok (.ok (), s') ∧
        ∀ iov : List Buf, .recv iov ∈ acts → iov.length ≤ s.iovMax) ∨
      perform acts s = .ok (.error .EMSGSIZE, s') := by
  induction acts generalizing s with
  | nil => exact ⟨s, .inl ⟨rfl, fun _ hmem => absurd hmem List.not_mem_nil⟩⟩
  | cons a acts ih =>
    obtain ⟨hfine, hrest⟩ := List.forall_mem_cons.mp h
    cases a with
    | skip m =>
      have hskip := ignore_fails (fdSkip_stop (toSsize_ne_zero hfine.1 hfine.2) hp)
      obtain ⟨s', hs'⟩ := ih hrest (s := { s with pieces := _ }) rfl
      refine ⟨s', hs'.imp (fun hok => ⟨(Call.bind_ret hskip).trans hok.1, fun iov hmem => ?_⟩)
        (Call.bind_ret hskip).trans⟩
      exact hok.2 iov ((List.mem_cons.mp hmem).resolve_left fun heq => by cases heq)
    | recv iov =>
      by_cases hmax : iov.length ≤ s.iovMax
      · have hrecv := recvIov_full hfine.1 hfine.2 hmax List.length_replicate hp
        obtain ⟨s', hs'⟩ := ih hrest (s := { s with mem := _, pieces := _ }) rfl
        refine ⟨s', hs'.imp (fun hok => ⟨(Call.bind_ret hrecv).trans hok.1, fun iov' hmem => ?_⟩)
          (Call.bind_ret hrecv).trans⟩
        rcases List.mem_cons.mp hmem with heq | hmem
        · cases heq
          exact hmax
        · exact hok.2 iov' hmem
      · exact ⟨s, .inr (Call.bind_fail (recvIov_crowded (not_le.mp hmax)))⟩

theorem dataOf_events_le (acts : List Action) :
    (dataOf (acts.map Action.event)).length ≤ (acts.flatMap Action.cells).length := by
  induction acts with
  | nil => exact le_rfl
  | cons a acts ih =>
    rw [List.map_cons, List.flatMap_cons, List.length_append]
    cases a with
    | skip m => exact ih.trans (Nat.le_add_left _ _)
    | recv iov =>
      have hroom : (Action.recv iov).cells.length = (iov.map Prod.snd).sum := length_cells iov
      rw [hroom, Action.event, dataOf, List.length_append, List.length_replicate]
      exact Nat.add_le_add_left ih _

/-- The kernel has stored fewer bytes than were asked for. -/
theorem dataOf_events_lt (h : ∀ a ∈ acts, a.Fine P) (hmem : .skip len ∈ acts) :
    (dataOf (acts.map Action.event)).length < (acts.flatMap Action.cells).length := by
  obtain ⟨acts₁, acts₂, rfl⟩ := List.append_of_mem hmem
  have hpos := (h _ hmem).1
  have hsplit : ∀ l l' : List Piece, dataOf (l ++ l') = dataOf l ++ dataOf l' := by
    intro l l'
    induction l with
    | nil => rfl
    | cons p l ih => cases p <;> simp [dataOf, ih]
  have hskip : (Action.skip len).cells.length = len := List.length_replicate
  have h₁ := dataOf_events_le acts₁
  have h₂ := dataOf_events_le acts₂
  have hstop : dataOf (Action.event (.skip len) :: acts₂.map Action.event) =
      dataOf (acts₂.map Action.event) := rfl
  rw [List.map_append, List.map_cons, hsplit, hstop, List.flatMap_append, List.flatMap_cons]
  simp only [List.length_append, hskip]
  omega

/-- A direct receive that skips something returns 0 though the skip has timed out, and one that is
refused by the kernel fails with an error of its own. -/
theorem Iolist.dishonest (hl : Iolist curr first last s.iol els) (hf : Filled s.rx)
    (hdirect : Direct s els) (hbad : (∃ b ∈ remaining s els, b.1 = none ∧ 0 < b.2) ∨
      Crowded s.iovMax (remaining s els)) :
    ∃ ps, Waits ps ∧ ¬Honest [] (fdRecv curr first last) s els ps := by
  have hne : remaining s els ≠ [] := by
    rcases hbad with ⟨b, hb, -⟩ | hmax
    · exact List.ne_nil_of_mem hb
    · exact hmax.ne_nil
  have hevent : ∀ p ∈ (plan true [] (remaining s els)).map Action.event,
      p = .stop .ETIMEDOUT ∨ ∃ bs, p = .data bs := by
    intro p hp
    obtain ⟨a, -, rfl⟩ := List.mem_map.mp hp
    cases a with
    | skip m => exact .inl rfl
    | recv iov => exact .inr ⟨_, rfl⟩
  obtain ⟨s', -, hmax, hpieces, -, hrun⟩ := hl.performs hf hdirect hne
    ((plan true [] (remaining s els)).map Action.event)
  refine ⟨(plan true [] (remaining s els)).map Action.event, ?_, ?_⟩
  · intro e he
    rcases hevent _ he with heq | ⟨bs, heq⟩ <;> cases heq
    exact .inl rfl
  · intro h
    obtain ⟨s'', ⟨hacts, hroom⟩ | hacts⟩ := perform_events hl.plan_fine hpieces
    · have hlen := (h.returns s'' (hrun.trans (Call.bind_ret hacts))).1
      obtain ⟨b, hb, hnull, hpos⟩ := hbad.resolve_right fun hcrowded => by
        obtain ⟨iov, hmem, hmany⟩ := plan_crowded.mpr hcrowded
        exact absurd (hroom iov hmem) (hmax ▸ hmany.not_ge)
      have hskip : .skip b.2 ∈ plan true [] (remaining s els) := mem_plan hb hnull hpos
      have hless := dataOf_events_lt hl.plan_fine hskip
      have hall := congrArg List.length (cells_remaining s els)
      have hplan : (plan true [] (remaining s els)).flatMap Action.cells =
          cells (remaining s els) := plan_cells [] _
      rw [List.length_drop, length_cells_bufs] at hall
      rw [hplan] at hless
      change _ ≤ (unread s.rx ++
        dataOf ((plan true [] (remaining s els)).map Action.event)).length at hlen
      rw [List.length_append] at hlen
      omega
    · rcases h.fails _ s'' (hrun.trans (Call.bind_fail hacts)) with he | he | he | he | he | he
      · cases he
      · cases he
      · cases he
      · cases he
      · rcases hevent _ he with heq | ⟨bs, heq⟩ <;> cases heq
      · cases he

/-- An error that comes of what is to happen is one of those that the caller expects. -/
theorem Rcv.CanFail.expected (h : s.CanFail e) (ha : s.alloc = true) (hps : Waits s.pieces) :
    e = .EPIPE ∨ e = .ETIMEDOUT ∨ e = .ECANCELED ∨ e = .ECONNRESET ∨ .fail e ∈ s.pieces ∨
      e ∈ also := by
  rcases h with ⟨rfl, -⟩ | ⟨e', rfl, he⟩ | he | ⟨-, hno⟩
  · exact .inl rfl
  · unfold recvErrno
    split
    · exact .inr (.inr (.inr (.inl rfl)))
    · exact .inr (.inr (.inr (.inr (.inl he))))
  · rcases hps e he with rfl | rfl
    · exact .inr (.inl rfl)
    · exact .inr (.inr (.inl rfl))
  · rw [ha] at hno
    cases hno

/-- Receives one of which the kernel refuses fail, or they wait forever. -/
theorem perform_refused (h : ∀ a ∈ acts, a.Fine fun _ => False) (hu : unread s.rx = [])
    (hmax : ∃ iov : List Buf, .recv iov ∈ acts ∧ s.iovMax < iov.length) :
    perform acts s = .error .waits ∨
      ∃ e s', perform acts s = .ok (.error e, s') ∧ (e = .EMSGSIZE ∨ s.CanFail e) := by
  induction acts generalizing s with
  | nil =>
    obtain ⟨iov, hmem, -⟩ := hmax
    exact absurd hmem List.not_mem_nil
  | cons a acts ih =>
    obtain ⟨hfine, hrest⟩ := List.forall_mem_cons.mp h
    cases a with
    | skip m => exact hfine.2.elim
    | recv iov =>
      by_cases hle : iov.length ≤ s.iovMax
      · have hspec : Spec True none (cells iov) (recvIov iov) s :=
          recvIov_spec s hfine.1 hfine.2 hle hu
        cases hx : recvIov iov s with
        | error r =>
          rw [(hspec.halts r hx).1] at hx
          exact .inl (Call.bind_stop hx)
        | ok p =>
          obtain ⟨o, s₁⟩ := p
          cases o with
          | error e => exact .inr ⟨e, s₁, Call.bind_fail hx, .inr (hspec.fails e s₁ hx).2.2⟩
          | ok u =>
            have hkeep := (hspec.returns s₁ hx).1
            obtain ⟨iov', hmem, hmany⟩ := hmax
            have hmem' : .recv iov' ∈ acts := (List.mem_cons.mp hmem).resolve_left fun heq => by
              cases heq
              exact absurd hle hmany.not_ge
            rcases ih hrest (by rw [hkeep.rx rfl, hu]) ⟨iov', hmem', hkeep.iovMax ▸ hmany⟩ with
              hw | ⟨e, s', hrun, he⟩
            · exact .inl ((Call.bind_ret hx).trans hw)
            · exact .inr ⟨e, s', (Call.bind_ret hx).trans hrun, he.imp_right hkeep.canFail⟩
      · exact .inr ⟨_, s, Call.bind_fail (recvIov_crowded (not_le.mp hle)), .inl rfl⟩

/-- `dill_fd_recv` says the truth unless it has to skip something directly. -/
theorem Iolist.honest (hl : Iolist curr first last s.iol els) (hf : Filled s.rx)
    (hnull : Direct s els → ∀ b ∈ remaining s els, b.1 = none → b.2 = 0)
    (hmax : Direct s els → Crowded s.iovMax (remaining s els) → .EMSGSIZE ∈ also)
    (hps : Waits ps) : Honest also (fdRecv curr first last) s els ps := by
  by_cases hbad : Direct s els ∧ Crowded s.iovMax (remaining s els)
  · obtain ⟨hdirect, hcrowded⟩ := hbad
    obtain ⟨s₁, halloc, hsame, hpieces, hdry, hrun⟩ := hl.performs hf hdirect hcrowded.ne_nil ps
    have hrefused := perform_refused (Scatter.plan_fine (P := fun _ => False)
      (fun b hb => absurd hb List.not_mem_nil) fun b hb hb' => .inl (hnull hdirect b hb hb')) hdry
      (hsame ▸ plan_crowded.mpr hcrowded)
    rcases hrefused with hw | ⟨e, s₂, hfail, he⟩
    · have hall := hrun.trans (Call.bind_stop hw)
      refine ⟨fun s' hs' => ?_, fun e s' hs' => ?_, fun h hh => ?_⟩ <;> cases hall.symm.trans ‹_›
      rfl
    · have hall := hrun.trans (Call.bind_fail hfail)
      refine ⟨fun s' hs' => ?_, fun e s' hs' => ?_, fun h hh => ?_⟩ <;> cases hall.symm.trans ‹_›
      rcases he with rfl | he
      · exact .inr (.inr (.inr (.inr (.inr (hmax hdirect hcrowded)))))
      · rw [← hpieces]
        exact he.expected halloc (hpieces ▸ hps)
  · have hspec : Spec True (some curr) (cells (bufs s.iol els)) (fdRecv curr first last) (s.on ps) :=
      hl.spec hf ps (fun hdirect b hb hb' => .inl (hnull hdirect b hb hb'))
        fun hdirect hcrowded => hbad ⟨hdirect, hcrowded⟩
    refine ⟨fun s' hs' => ?_, fun e s' hs' => ?_, fun h hh => (hspec.halts h hh).1⟩
    · obtain ⟨-, htook, -⟩ := hspec.returns s' hs'
      obtain ⟨hlen, -, hstream⟩ := (htook (.inl trivial)).bytes
      rw [length_cells_bufs] at hlen hstream
      exact ⟨hlen, hstream⟩
    · exact (hspec.fails e s' hs').2.2.expected rfl hps

/-- A socket whose stream has ended or failed says so. -/
theorem honest_fail (he : e = .EPIPE ∨ e = .ECONNRESET) :
    Honest also (Call.fail e : Recv n Unit) s els ps := by
  refine ⟨fun s' h => (by cases h), fun e' s' h => ?_, fun r h => (by cases h)⟩
  cases h
  rcases he with rfl | rfl
  · exact .inl rfl
  · exact .inr (.inr (.inr (.inl rfl)))

/-- An idle connection is as honest as `dill_fd_recv`. -/
theorem Honest.brecvl (h : Honest also (fdRecv curr first last) s els ps) (indone inerr : Bool) :
    Honest also (brecvl indone inerr curr first last) s els ps := by
  unfold Scatter.brecvl
  cases indone with
  | true => exact honest_fail (.inl rfl)
  | false =>
    cases inerr with
    | true => exact honest_fail (.inr rfl)
    | false => exact h

/-- **When every receive is honest**: unless a direct receive skips a null buffer, whether that
succeeds is not looked at, or is refused by the kernel because of the number of its buffers. The
error of the kernel is the only thing that the second can do. -/
theorem brecvl_honest_iff (hl : Iolist curr first last s.iol els) (hf : Filled s.rx) :
    ((∀ ps, Waits ps → Honest [] (fdRecv curr first last) s els ps ∧
      ∀ indone inerr, Honest [] (brecvl indone inerr curr first last) s els ps) ↔
      ¬(Direct s els ∧ ((∃ b ∈ remaining s els, b.1 = none ∧ 0 < b.2) ∨
        Crowded s.iovMax (remaining s els)))) ∧
    (¬(Direct s els ∧ ∃ b ∈ remaining s els, b.1 = none ∧ 0 < b.2) →
      ∀ ps, Waits ps → Honest [.EMSGSIZE] (fdRecv curr first last) s els ps ∧
        ∀ indone inerr, Honest [.EMSGSIZE] (brecvl indone inerr curr first last) s els ps) := by
  refine ⟨⟨?_, fun h ps hps => ?_⟩, fun h ps hps => ?_⟩
  · rintro h ⟨hdirect, hbad⟩
    obtain ⟨ps, hps, hno⟩ := hl.dishonest hf hdirect hbad
    exact hno (h ps hps).1
  · have hrecv : Honest [] (fdRecv curr first last) s els ps := by
      refine hl.honest hf (fun hdirect b hb hnull => ?_)
        (fun hdirect hcrowded => absurd ⟨hdirect, .inr hcrowded⟩ h) hps
      by_contra hne
      exact h ⟨hdirect, .inl ⟨b, hb, hnull, Nat.pos_of_ne_zero hne⟩⟩
    exact ⟨hrecv, hrecv.brecvl⟩
  · have hrecv : Honest [.EMSGSIZE] (fdRecv curr first last) s els ps := by
      refine hl.honest hf (fun hdirect b hb hnull => ?_)
        (fun _ _ => List.mem_singleton_self _) hps
      by_contra hne
      exact h ⟨hdirect, b, hb, hnull, Nat.pos_of_ne_zero hne⟩
    exact ⟨hrecv, hrecv.brecvl⟩

theorem brecvl_honest_iff_buffer : Honest [] (fdRecv 2 1 1) (oneBuffer 7 600) [1] [.eof] := by
  have hps : Waits [.eof] := fun e he => by cases List.mem_singleton.mp he
  refine ((brecvl_honest_iff (iolist_oneBuffer 7 (by decide)) trivial).1.mpr ?_ [.eof] hps).1
  rintro ⟨-, ⟨b, hb, hnull, -⟩ | hcrowded⟩
  · rw [List.mem_singleton.mp hb] at hnull
    cases hnull
  · exact absurd hcrowded.length (by decide)

/-- The skip of 5 bytes ends with a timeout, and the receive returns 0. -/
theorem brecvl_swallows_timeout : ¬∀ ps, Waits ps →
    Honest [] (fdRecv 2 1 1) (oneBuffer 0 5) [1] ps ∧
      ∀ indone inerr, Honest [] (brecvl indone inerr 2 1 1) (oneBuffer 0 5) [1] ps := by
  intro h
  obtain ⟨ps, hps, hno⟩ := (iolist_oneBuffer 0 (by decide)).dishonest trivial (.inl rfl)
    (.inl ⟨(none, 5), List.mem_cons_self, rfl, by decide⟩)
  exact hno (h ps hps).1

/-! ## Receives that take exactly what arrives -/

variable {it : IolPtr n} {base : ℕ} {rx : RxBuf} {bs : List UInt8}

/-- The receive buffer is filled once, and it is used up. -/
theorem buffered_full (hrx : s.rx = some rx) (hf : rx.Filled) (hu : unread s.rx = [])
    (hcurr : curr ≠ 0) (hnext : s.iol.next curr = 0) (halloc : s.alloc = true)
    (hlen : bs.length = (s.iol curr).iolLen) (hle : bs.length ≤ bufsize)
    (hp : s.pieces = .data bs :: ps) (k : ℕ) :
    ∃ s', buffered curr (k + 1) s = .ok (.ok (), s') ∧ unread s'.rx = [] ∧ s'.pieces = ps := by
  obtain ⟨rx', hbuf, -, -⟩ | ⟨-, hno⟩ := (allocbuf_cases hrx hf hu).symm
  · have hrecv : sysRecv 1 bufsize { s with rx := some rx' } =
        .ok (.ok bs, { s with rx := some rx', pieces := ps }) := by
      unfold sysRecv
      rw [if_neg (not_lt.mpr s.iovMax.pos), if_neg (by decide), hp]
      exact if_pos hle
    set s₁ : Rcv n := { s with rx := some ⟨bs.length, 0, some bs⟩, pieces := ps } with hs₁
    have hrefill : refill s = .ok (.ok (), s₁) :=
      (Call.bind_ret hbuf).trans (Call.bind_ret hrecv)
    have hall : unread s₁.rx = bs := by
      show (bs.take bs.length).drop 0 = bs
      rw [List.take_length, List.drop_zero]
    have hch : Chain s₁.iol.next (s₁.iol.next curr) [] 0 := hnext
    obtain ⟨r, s', hcopy, hcopied, hleft⟩ := copyOut_spec (n + 1) (s := s₁) rfl le_rfl hcurr hch
      List.not_mem_nil List.not_mem_nil (Nat.succ_pos n)
    have hnone : cut (bufs s₁.iol [curr]) (unread s₁.rx).length = [] := by
      rw [hall, hlen]
      exact if_pos le_rfl
    cases r with
    | some sz =>
      obtain ⟨_, _, -, hcut, -⟩ := hleft
      rw [hnone] at hcut
      cases hcut
    | none =>
      refine ⟨s', ?_, ?_, hcopied.pieces⟩
      · rw [buffered_succ, Call.bind_ret hrefill, Call.bind_ret hcopy]
        rfl
      · rw [hcopied.left, hall, length_cells_bufs]
        apply List.drop_eq_nil_of_le
        rw [hlen]
        exact Nat.le_refl _
  · rw [halloc] at hno
    cases hno

/-- One buffer, filled from the receive buffer. -/
theorem fdRecv_kept (hcurr : curr ≠ 0) (hit : it ≠ 0) (hne : it ≠ curr) (hf : Filled s.rx)
    (hnext : s.iol.next it = 0) (hrx : s.rx ≠ none) (hle : (s.iol it).iolLen ≤ (unread s.rx).length) :
    ∃ s', fdRecv curr it it s = .ok (.ok (), s') ∧
      unread s'.rx = (unread s.rx).drop (s.iol it).iolLen ∧ s'.pieces = s.pieces := by
  have hrem : remaining s [it] = [] := by
    obtain ⟨rx, hrx'⟩ := Option.ne_none_iff_exists'.mp hrx
    rw [hrx'] at hle
    unfold remaining
    rw [hrx']
    exact if_pos hle
  rcases fdRecv_opened hcurr (List.cons_ne_nil it []) ⟨rfl, hnext⟩
    (fun h => hit (List.mem_singleton.mp h).symm) (fun h => hne (List.mem_singleton.mp h).symm) hf
    with ⟨s', hcopied, -, hrun⟩ | ⟨rest, s', hopened, -⟩
  · refine ⟨s', hrun it, ?_, hcopied.pieces⟩
    rw [hcopied.left, length_cells_bufs]
    rfl
  · have hbufs := hopened.bufs
    rw [hrem] at hbufs
    cases hbufs

/-- One buffer, and what it lacks arrives in one piece. -/
theorem fdRecv_snug (hcurr : curr ≠ 0) (hit : it ≠ 0) (hne : it ≠ curr) (hf : Filled s.rx)
    (hnext : s.iol.next it = 0) (hbase : (s.iol it).iolBase ≠ 0) (hm : (s.iol it).iolRsvd = 0)
    (hlt : (s.iol it).iolLen < 2 ^ 64) (halloc : s.alloc = true)
    (hlen : (unread s.rx).length + bs.length = (s.iol it).iolLen) (hpos : 0 < bs.length)
    (hp : s.pieces = .data bs :: ps) :
    ∃ s', fdRecv curr it it s = .ok (.ok (), s') ∧ unread s'.rx = [] ∧ s'.pieces = ps := by
  have h0 : (0 : IolPtr n) ∉ [it] := fun h => hit (List.mem_singleton.mp h).symm
  have hsum : ((remaining s [it]).map Prod.snd).sum = bs.length := by
    have hcells := congrArg List.length (cells_remaining s [it])
    rw [length_cells, List.length_drop, length_cells_bufs] at hcells
    rw [hcells]
    show (s.iol it).iolLen + 0 - _ = _
    omega
  rcases fdRecv_opened hcurr (List.cons_ne_nil it []) ⟨rfl, hnext⟩ h0
    (fun h => hne (List.mem_singleton.mp h).symm) hf
    with ⟨s', -, hnil, -⟩ | ⟨rest, s', hopened, hrun⟩
  · rw [hnil] at hsum
    exact absurd hsum hpos.ne
  · obtain ⟨pre, x, hels⟩ := hopened.rest
    obtain rfl : rest = [] := by
      have hcount := congrArg List.length hels
      rw [List.length_append, List.length_cons, List.length_cons, List.length_nil] at hcount
      exact List.length_eq_zero_iff.mp (by omega)
    have hbufs := hopened.bufs
    rw [← hbufs] at hsum
    have hroom : bs.length = (IolElem.buf (s'.iol curr)).2 := hsum.symm
    have hroom' : 0 < (IolElem.buf (s'.iol curr)).2 := hroom ▸ hpos
    have hpieces : s'.pieces = .data bs :: ps := hopened.copied.pieces.trans hp
    rw [hrun it]
    by_cases hdirect : Direct s [it]
    · have hnull : (IolElem.buf (s'.iol curr)).1 ≠ none := by
        intro hnone
        have hmem : IolElem.buf (s'.iol curr) ∈ remaining s [it] := by
          rw [← hbufs]
          exact List.mem_cons_self
        obtain ⟨b', hb', -, hback⟩ := mem_remaining hmem
        rw [List.mem_singleton.mp hb'] at hback
        exact hbase (buf_null.mp (hback hnone))
      have hplan : plan true [] (remaining s [it]) = [.recv [IolElem.buf (s'.iol curr)]] := by
        rw [← hbufs]
        show plan true [] [IolElem.buf (s'.iol curr)] = _
        rw [plan, if_neg hroom'.ne', if_neg hnull]
        rfl
      rw [decide_eq_true hdirect,
        hopened.direct hcurr h0 (show [it].getLast? = some it from rfl)
          (fun y hy => (List.mem_singleton.mp hy) ▸ hm), hplan]
      refine ⟨_, Call.bind_ret (Call.bind_ret (recvIov_full (List.cons_ne_nil _ _) (fun b hb => ?_)
        (show ([_] : List Buf).length ≤ _ from s'.iovMax.pos) hroom hpieces)), hopened.dry, rfl⟩
      rw [List.mem_singleton.mp hb]
      exact hroom'
    · obtain ⟨rx, hrx⟩ := Option.ne_none_iff_exists'.mp fun h => hdirect (.inl h)
      obtain ⟨rx', hrx', hf'⟩ := hopened.copied.buffer hrx
      have hle : bs.length ≤ bufsize := by
        by_contra hmore
        refine hdirect (.inr ?_)
        rw [← hbufs, hsum, Nat.mod_eq_of_lt (by omega)]
        exact not_le.mp hmore
      rw [decide_eq_false hdirect, receiveRest_false]
      exact buffered_full hrx' hf' hopened.dry hcurr hopened.chain
        (hopened.copied.alloc.trans halloc) hroom hle hpieces _

end Libdill.Fd.Scatter
