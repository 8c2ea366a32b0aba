import Libdill.Fd.ScatterPlan

/-!
# The whole receive

`dill_fd_recv` from its beginning to its end: what the receive buffer holds is used up first, and
the rest is received directly or through the buffer.

* `fdRecv_spec`: the call receives what it should, unless it has to skip something on the way.
-/

namespace Libdill.Fd.Scatter

open Foundations Libdill.Sock

variable {n : ℕ}

/-- The buffers without their first `k` bytes. -/
def cut : List Buf → ℕ → List Buf
  | [], _ => []
  | b :: l, k => if b.2 ≤ k then cut l (k - b.2) else (b.1.map (· + k), b.2 - k) :: l

variable {A : Prop} {s s' : Rcv n} {l : List Buf} {b : Buf} {rx : RxBuf} {k : ℕ} {ends : Bool}
  {first it last curr : IolPtr n} {els rest pre : List (IolPtr n)}

theorem cells_cut (l : List Buf) (k : ℕ) : cells (cut l k) = (cells l).drop k := by
  induction l generalizing k with
  | nil => exact List.drop_nil.symm
  | cons b l ih =>
    unfold cut
    split
    · rename_i hle
      have hall : (Buf.cells b).drop k = [] := by
        apply List.drop_eq_nil_of_le
        rwa [length_bufCells]
      rw [ih, cells_cons, List.drop_append, length_bufCells, hall, List.nil_append]
    · rename_i hlt
      have hin : k ≤ (Buf.cells b).length := by
        rw [length_bufCells]
        exact (not_le.mp hlt).le
      rw [cells_cons, cells_cons, List.drop_append_of_le_length hin, ← bufCells_drop]

/-- The first buffer that is left has room. -/
theorem cut_pos {b : Buf} {l' : List Buf} (h : cut l k = b :: l') : 0 < b.2 := by
  induction l generalizing k with
  | nil => cases h
  | cons a l ih =>
    unfold cut at h
    split at h
    · exact ih h
    · rename_i hlt
      obtain ⟨rfl, -⟩ := List.cons.inj h
      exact Nat.sub_pos_of_lt (not_le.mp hlt)

/-! ## What the receive buffer holds -/

/-- The bytes of the receive buffer have been copied to the buffers `l`, as far as they go. -/
structure Copied (c : Option (IolPtr n)) (s s' : Rcv n) (l : List Buf) : Prop where
  mem : s'.mem = store s.mem (cells l) (unread s.rx)
  left : unread s'.rx = (unread s.rx).drop (cells l).length
  rx : Filled s'.rx ∧ s'.rx.isSome = s.rx.isSome
  iol : ∀ x, some x ≠ c → s'.iol x = s.iol x
  alloc : s'.alloc = s.alloc
  iovMax : s'.iovMax = s.iovMax
  pieces : s'.pieces = s.pieces

/-- More bytes than there are addresses for the first of them. -/
theorem store_drop (mem : ℕ → UInt8) (dst dst' : List (Option ℕ)) (bs : List UInt8) :
    store mem (dst ++ dst') bs = store (store mem dst bs) dst' (bs.drop dst.length) := by
  induction dst generalizing mem bs with
  | nil => cases bs <;> rfl
  | cons a dst ih =>
    cases bs with
    | nil => rw [store_nil, store_nil, List.drop_nil, store_nil]
    | cons b bs =>
      cases a with
      | none => exact ih mem bs
      | some a => exact ih _ bs

/-- The bytes that there are addresses for. -/
theorem store_bytes (mem : ℕ → UInt8) (dst : List (Option ℕ)) (bs : List UInt8) :
    store mem dst (bs.take dst.length) = store mem dst bs := by
  by_cases hle : bs.length ≤ dst.length
  · rw [List.take_of_length_le hle]
  · have hlen : dst.length = (bs.take dst.length).length := by
      rw [List.length_take, Nat.min_eq_left (not_le.mp hle).le]
    have hsplit := store_append hlen mem [] (bs.drop dst.length)
    rw [List.append_nil, List.take_append_drop] at hsplit
    exact hsplit.symm

theorem Copied.refl (c : Option (IolPtr n)) (hf : Filled s.rx) (hu : unread s.rx = [])
    (l : List Buf) : Copied c s s l where
  mem := by rw [hu, store_nil]
  left := by rw [hu, List.drop_nil]
  rx := ⟨hf, rfl⟩
  iol _ _ := rfl
  alloc := rfl
  iovMax := rfl
  pieces := rfl

theorem Copied.trans {c : Option (IolPtr n)} {s'' : Rcv n} {l' : List Buf} (h : Copied c s s' l)
    (h' : Copied c s' s'' l') : Copied c s s'' (l ++ l') where
  mem := by rw [h'.mem, h.mem, h.left, cells_append, store_drop]
  left := by rw [h'.left, h.left, List.drop_drop, cells_append, List.length_append]
  rx := ⟨h'.rx.1, h'.rx.2.trans h.rx.2⟩
  iol x hx := (h'.iol x hx).trans (h.iol x hx)
  alloc := h'.alloc.trans h.alloc
  iovMax := h'.iovMax.trans h.iovMax
  pieces := h'.pieces.trans h.pieces

/-- Nothing is copied to the buffers that come after the last byte. -/
theorem Copied.more {c : Option (IolPtr n)} (h : Copied c s s' l) (hdry : unread s'.rx = [])
    (l' : List Buf) : Copied c s s' (l ++ l') where
  mem := by
    have hleft := h.left.symm
    rw [hdry] at hleft
    rw [cells_append, store_drop, hleft, store_nil, h.mem]
  left := by
    rw [cells_append, List.length_append, ← List.drop_drop, ← h.left, hdry, List.drop_nil]
  rx := h.rx
  iol := h.iol
  alloc := h.alloc
  iovMax := h.iovMax
  pieces := h.pieces

theorem Copied.keeps (h : Copied (some curr) s s' l) : Keeps (some curr) s s' where
  iol := h.iol
  rx hc := by cases hc
  filled _ := h.rx.1
  buffer := h.rx.2
  alloc := h.alloc
  iovMax := h.iovMax
  pieces p hp _ := h.pieces ▸ hp

theorem Copied.buffer {c : Option (IolPtr n)} (h : Copied c s s' l) (hrx : s.rx = some rx) :
    ∃ rx', s'.rx = some rx' ∧ rx'.Filled := by
  obtain ⟨hf, hsome⟩ := h.rx
  rw [hrx] at hsome
  obtain ⟨rx', hrx'⟩ := Option.isSome_iff_exists.mp hsome
  rw [hrx'] at hf
  exact ⟨rx', hrx', hf⟩

theorem Copied.took {c : Option (IolPtr n)} (h : Copied c s s' l) :
    Took s s' ((cells l).take (unread s.rx).length) := by
  refine ⟨(unread s.rx).take (cells l).length, ?_, ?_, ?_⟩
  · rw [List.length_take, List.length_take, Nat.min_comm]
  · unfold Rcv.stream
    rw [h.left, h.pieces, ← List.append_assoc, List.take_append_drop]
  · rw [h.mem]
    by_cases hle : (unread s.rx).length ≤ (cells l).length
    · rw [List.take_of_length_le hle, store_take]
    · rw [List.take_of_length_le (not_le.mp hle).le, store_bytes]

theorem Copied.supplies {c : Option (IolPtr n)} {m : ℕ} (h : Copied c s s' l)
    (hs : s.Supplies (((cells l).take (unread s.rx).length).length + m)) : s'.Supplies m := by
  obtain ⟨ha, good, more, hp, hgood, hle⟩ := hs
  refine ⟨h.alloc.trans ha, good, more, h.pieces.trans hp, hgood, ?_⟩
  rw [List.length_take] at hle
  rw [h.left, List.length_drop]
  omega

/-- What is left has nothing to come from the receive buffer. -/
theorem Copied.dry {c : Option (IolPtr n)} (h : Copied c s s' l)
    (hcut : cut l (unread s.rx).length ≠ []) : unread s'.rx = [] := by
  obtain ⟨b, l', hb⟩ := List.exists_cons_of_ne_nil hcut
  have hcells := cells_cut l (unread s.rx).length
  have hlen := congrArg List.length hcells
  rw [hb, length_cells, List.map_cons, List.sum_cons, List.length_drop] at hlen
  have hpos := cut_pos hb
  rw [h.left]
  apply List.drop_eq_nil_of_le
  omega

/-- `dill_fd_copy` to one element. -/
theorem fdCopy_spec (c : Option (IolPtr n)) (hrx : s.rx = some rx) (hf : rx.Filled) (it : IolPtr n) :
    ∃ s', fdCopy it s = .ok (.ok (min (s.iol it).iolLen rx.unread.length), s') ∧
      Copied c s s' [IolElem.buf (s.iol it)] ∧ s'.iol = s.iol := by
  obtain ⟨hbytes, hrest, hfilled⟩ := rx.copy_spec hf (s.iol it).iolLen
  have hcells : cells [IolElem.buf (s.iol it)] = Buf.cells (IolElem.buf (s.iol it)) :=
    List.append_nil _
  have hlen : (Buf.cells (IolElem.buf (s.iol it))).length = (s.iol it).iolLen := length_bufCells _
  unfold fdCopy
  rw [hrx]
  dsimp only
  rw [hbytes, List.length_take]
  refine ⟨_, rfl, ⟨?_, ?_, ⟨hfilled, ?_⟩, fun _ _ => rfl, rfl, rfl, rfl⟩, rfl⟩
  · rw [hrx, hcells]
    show store s.mem _ (rx.unread.take _) = store s.mem _ rx.unread
    rw [← hlen, store_bytes]
  · rw [hrx, hcells, hlen]
    exact hrest
  · rw [hrx]
    rfl

/-- The rest of the buffers after an element has been copied to. -/
theorem cut_cons {c : Option (IolPtr n)} {e : IolElem n} (h : Copied c s s' [IolElem.buf e])
    (l : List Buf) : cut (IolElem.buf e :: l) (unread s.rx).length =
      if min e.iolLen (unread s.rx).length < e.iolLen
      then IolElem.buf (IolElem.skip e (min e.iolLen (unread s.rx).length)) :: l
      else cut l (unread s'.rx).length := by
  have hlen : (cells [IolElem.buf e]).length = e.iolLen := by
    rw [length_cells]
    exact Nat.add_zero _
  have hstep : ∀ k, cut (IolElem.buf e :: l) k = if e.iolLen ≤ k then cut l (k - e.iolLen)
      else ((IolElem.buf e).1.map (· + k), e.iolLen - k) :: l := fun _ => rfl
  rw [h.left, List.length_drop, hlen, hstep]
  by_cases hle : e.iolLen ≤ (unread s.rx).length
  · rw [if_pos hle, Nat.min_eq_left hle, if_neg (lt_irrefl _)]
  · rw [if_neg hle, Nat.min_eq_right (not_le.mp hle).le, if_pos (not_le.mp hle)]
    unfold IolElem.buf IolElem.skip
    dsimp only
    by_cases hnull : e.iolBase = 0
    · rw [if_pos hnull, if_pos hnull, if_pos rfl]
      rfl
    · rw [if_neg hnull, if_neg hnull, if_neg (by omega)]
      rfl

/-- An element that could not be filled has taken the last byte. -/
theorem Copied.dry_of_lt {c : Option (IolPtr n)} {e : IolElem n}
    (h : Copied c s s' [IolElem.buf e])
    (hlt : min e.iolLen (unread s.rx).length < e.iolLen) : unread s'.rx = [] := by
  have hcut := cut_cons h []
  rw [if_pos hlt] at hcut
  exact h.dry (by rw [hcut]; exact List.cons_ne_nil _ _)

/-- How the loop ends that copies to the elements: all have been filled, or an element is left and
what is linked to it. -/
def Reached (s' : Rcv n) (els : List (IolPtr n)) (left : List Buf) :
    Option (IolPtr n × ℕ) → Prop
  | none => left = []
  | some (it, sz) => ∃ pre rest, els = pre ++ it :: rest ∧
      left = IolElem.buf (IolElem.skip (s'.iol it) sz) :: bufs s'.iol rest

theorem drain_spec (k : ℕ) (hrx : s.rx = some rx) (hf : rx.Filled) (hne : els ≠ [])
    (hch : Chain s.iol.next first els 0) (h0 : 0 ∉ els) (hk : els.length ≤ k) :
    ∃ r s', drain k first s = .ok (.ok r, s') ∧ Copied none s s' (bufs s.iol els) ∧
      Reached s' els (cut (bufs s.iol els) (unread s.rx).length) r := by
  induction k generalizing s rx first els with
  | zero => exact absurd (List.length_eq_zero_iff.mp (by omega)) hne
  | succ k ih =>
    obtain ⟨x, els, rfl⟩ := List.exists_cons_of_ne_nil hne
    obtain ⟨rfl, hch⟩ := hch
    have hfirst : first ≠ 0 := fun h => h0 (h ▸ List.mem_cons_self)
    obtain ⟨s₁, hcopy, hcopied, hiol⟩ := fdCopy_spec none hrx hf first
    have hu : unread s.rx = rx.unread := by rw [hrx]; rfl
    rw [← hu] at hcopy
    have hturn : drain (k + 1) first s =
        (if min (s.iol first).iolLen (unread s.rx).length < (s.iol first).iolLen
        then pure (some (first, min (s.iol first).iolLen (unread s.rx).length))
        else if s.iol.next first = 0 then pure none
        else drain k (s.iol.next first)) s₁ := by
      conv_lhs => unfold drain
      rw [elem_bind hfirst, Call.bind_ret hcopy]
      rfl
    rw [hturn, bufs_cons, cut_cons hcopied]
    obtain ⟨rx₁, hrx₁, hf₁⟩ := hcopied.buffer hrx
    split
    · rename_i hlt
      refine ⟨_, s₁, rfl, hcopied.more (hcopied.dry_of_lt hlt) (bufs s.iol els), [], els, rfl, ?_⟩
      rw [hiol]
    · cases els with
      | nil =>
        rw [if_pos (chain_nil.mp hch)]
        exact ⟨_, s₁, rfl, hcopied, rfl⟩
      | cons y els =>
        have hnext : s.iol.next first ≠ 0 := by
          rw [hch.1]
          exact fun h => h0 (by rw [h]; simp)
        rw [if_neg hnext]
        obtain ⟨r, s', hrun, hrest, hreach⟩ := ih hrx₁ hf₁ (List.cons_ne_nil y els)
          (by rw [hiol]; exact hch) (fun h => h0 (List.mem_cons_of_mem _ h))
          (Nat.le_of_succ_le_succ hk)
        rw [hiol] at hrest hreach
        refine ⟨r, s', hrun, hcopied.trans hrest, ?_⟩
        cases r with
        | none => exact hreach
        | some p =>
          obtain ⟨it, sz⟩ := p
          obtain ⟨pre, rest, hels, hleft⟩ := hreach
          exact ⟨first :: pre, rest, by rw [hels]; rfl, hleft⟩

/-! ## The local element -/

theorem bufs_update {iol : IolMem n} (hc : curr ∉ els) (e : IolElem n) :
    bufs (Function.update iol curr e) (curr :: els) = IolElem.buf e :: bufs iol els := by
  rw [bufs_cons, Function.update_self]
  congr 1
  apply List.map_congr_left
  intro x hx
  have hne : x ≠ curr := fun h => hc (h ▸ hx)
  rw [Function.update_of_ne hne]

theorem next_update (iol : IolMem n) (e : IolElem n) :
    IolMem.next (Function.update iol curr e) curr = e.iolNext :=
  congrArg IolElem.iolNext (Function.update_self curr e iol)

theorem chain_update {iol : IolMem n} {a b : IolPtr n} (h : Chain iol.next a els b)
    (hc : curr ∉ els) (e : IolElem n) : Chain (IolMem.next (Function.update iol curr e)) a els b := by
  apply h.congr
  intro x hx
  have hne : x ≠ curr := fun h => hc (h ▸ hx)
  exact congrArg IolElem.iolNext (Function.update_of_ne hne e iol)

theorem Copied.weaken (h : Copied none s s' l) (c : Option (IolPtr n)) : Copied c s s' l :=
  ⟨h.mem, h.left, h.rx, fun x _ => h.iol x (by simp), h.alloc, h.iovMax, h.pieces⟩

theorem Copied.update (h : Copied (some curr) s s' l) (e : IolElem n) :
    Copied (some curr) s { s' with iol := Function.update s'.iol curr e } l := by
  refine ⟨h.mem, h.left, h.rx, fun x hx => ?_, h.alloc, h.iovMax, h.pieces⟩
  have hne : x ≠ curr := fun hxc => hx (congrArg some hxc)
  exact (Function.update_of_ne hne e s'.iol).trans (h.iol x hx)

/-- What the loop leaves that copies to the elements behind the one in `curr`. -/
def Left (curr : IolPtr n) (s' : Rcv n) (els : List (IolPtr n)) (left : List Buf) :
    Option ℕ → Prop
  | none => left = []
  | some sz => ∃ pre rest, els = pre ++ rest ∧
      left = IolElem.buf (IolElem.skip (s'.iol curr) sz) :: bufs s'.iol rest ∧
      Chain s'.iol.next (s'.iol.next curr) rest 0

theorem copyOut_spec (k : ℕ) (hrx : s.rx = some rx) (hf : rx.Filled) (hcurr : curr ≠ 0)
    (hch : Chain s.iol.next (s.iol.next curr) els 0) (h0 : 0 ∉ els) (hc : curr ∉ els)
    (hk : els.length < k) :
    ∃ r s', copyOut curr k s = .ok (.ok r, s') ∧
      Copied (some curr) s s' (bufs s.iol (curr :: els)) ∧
      Left curr s' els (cut (bufs s.iol (curr :: els)) (unread s.rx).length) r := by
  induction k generalizing s rx els with
  | zero => omega
  | succ k ih =>
    obtain ⟨s₁, hcopy, hcopied, hiol⟩ := fdCopy_spec (some curr) hrx hf curr
    have hu : unread s.rx = rx.unread := by rw [hrx]; rfl
    rw [← hu] at hcopy
    have hturn : copyOut curr (k + 1) s =
        (if min (s.iol curr).iolLen (unread s.rx).length < (s.iol curr).iolLen
        then pure (some (min (s.iol curr).iolLen (unread s.rx).length))
        else if s.iol.next curr = 0 then pure none
        else elem (s.iol.next curr) >>= fun e' => setElem curr e' >>= fun _ => copyOut curr k) s₁ := by
      conv_lhs => unfold copyOut
      rw [Call.bind_ret hcopy, elem_bind hcurr, hiol]
      rfl
    rw [hturn, bufs_cons, cut_cons hcopied]
    obtain ⟨rx₁, hrx₁, hf₁⟩ := hcopied.buffer hrx
    split
    · rename_i hlt
      refine ⟨_, s₁, rfl, hcopied.more (hcopied.dry_of_lt hlt) (bufs s.iol els), [], els, rfl, ?_⟩
      rw [hiol]
      exact ⟨rfl, hch⟩
    · cases els with
      | nil =>
        rw [if_pos (chain_nil.mp hch)]
        exact ⟨_, s₁, rfl, hcopied, rfl⟩
      | cons y els =>
        obtain ⟨hy, hch⟩ := hch
        have hy0 : y ≠ 0 := fun h => h0 (h ▸ List.mem_cons_self)
        rw [hy, if_neg hy0, elem_bind hy0, hiol]
        -- the element in `curr` is now a copy of the next one
        set s₂ : Rcv n := { s₁ with iol := Function.update s₁.iol curr (s.iol y) } with hs₂
        have hc' : curr ∉ els := fun h => hc (List.mem_cons_of_mem _ h)
        have hch₂ : Chain s₂.iol.next (s₂.iol.next curr) els 0 := by
          rw [next_update]
          exact chain_update (by rw [hiol]; exact hch) hc' _
        have hbufs : bufs s₂.iol (curr :: els) = bufs s.iol (y :: els) := by
          rw [bufs_update hc', hiol]
          rfl
        have hcopied₂ : Copied (some curr) s s₂ [IolElem.buf (s.iol curr)] := hcopied.update _
        obtain ⟨r, s', hrun, hrest, hreach⟩ := ih (s := s₂) hrx₁ hf₁ hch₂
          (fun h => h0 (List.mem_cons_of_mem _ h)) hc' (Nat.lt_of_succ_lt_succ hk)
        rw [hbufs] at hrest hreach
        refine ⟨r, s', hrun, hcopied₂.trans hrest, ?_⟩
        cases r with
        | none => exact hreach
        | some sz =>
          obtain ⟨pre, rest, hels, hleft⟩ := hreach
          exact ⟨y :: pre, rest, by rw [hels]; rfl, hleft⟩

/-! ## Through the receive buffer -/

/-- The receive buffer is filled again. -/
def refill : Recv n Unit := do
  allocbuf
  let bs ← sysRecv 1 bufsize
  Call.change fun s => { s with rx := some ⟨bs.length, 0, some bs⟩ }

/-- How the receive buffer is filled: nothing is taken off the stream, and something is to happen
later or something has happened. -/
inductive Refilled (s : Rcv n) : Except Errno Unit → Rcv n → Prop
  | error {e : Errno} {s' : Rcv n} : (∀ c, Keeps (some c) s s') → s.CanFail e →
      (∀ m, 0 < m → ¬s.Supplies m) → Refilled s (.error e) s'
  | filled {s' : Rcv n} : s'.iol = s.iol → (∀ c, Keeps (some c) s s') → s'.mem = s.mem →
      s.stream = s'.stream → (∃ rx, s'.rx = some rx ∧ rx.Filled) →
      (∀ m, s.Supplies m → s'.Supplies m) → s'.Quiet ∨ s'.turns < s.turns → Refilled s (.ok ()) s'

theorem allocbuf_cases (hrx : s.rx = some rx) (hf : rx.Filled) (hu : unread s.rx = []) :
    allocbuf s = .ok (.error .ENOMEM, s) ∧ s.alloc = false ∨
      ∃ rx', allocbuf s = .ok (.ok (), { s with rx := some rx' }) ∧ rx'.Filled ∧ rx'.unread = [] := by
  have hdry : rx.unread = [] := by
    rw [hrx] at hu
    exact hu
  unfold allocbuf
  rw [hrx]
  dsimp only
  cases hbuf : rx.buf with
  | some bs =>
    refine .inr ⟨rx, ?_, hf, hdry⟩
    rw [if_pos Option.isSome_some, ← hrx]
  | none =>
    rw [if_neg (by simp)]
    have hlen : rx.len = 0 := by
      unfold RxBuf.Filled at hf
      rw [hbuf] at hf
      exact Nat.le_zero.mp hf
    cases ha : s.alloc with
    | false => exact .inl ⟨rfl, rfl⟩
    | true =>
      refine .inr ⟨{ rx with buf := some [] }, rfl, hlen.le, ?_⟩
      unfold RxBuf.unread
      rw [Option.getD_some, List.take_nil, List.drop_nil]

theorem refill_cases (hrx : s.rx = some rx) (hf : rx.Filled) (hu : unread s.rx = []) :
    ∃ r s', refill s = .ok (r, s') ∧ Refilled s r s' := by
  rcases allocbuf_cases hrx hf hu with ⟨hrun, hno⟩ | ⟨rx₁, hrun, hf₁, hu₁⟩
  · refine ⟨_, s, Call.bind_fail hrun, .error (fun c => .refl _ s)
      (.inr (.inr (.inr ⟨rfl, hno⟩))) ?_⟩
    rintro m - ⟨ha, -⟩
    rw [hno] at ha
    cases ha
  · set s₁ : Rcv n := { s with rx := some rx₁ } with hs₁
    have hkeep₁ : ∀ c, Keeps (some c) s s₁ := fun c =>
      ⟨fun _ _ => rfl, fun h => (by cases h), fun _ => hf₁, by rw [hrx]; rfl, rfl, rfl,
        fun _ hp _ => hp⟩
    have hsup₁ : ∀ m, s.Supplies m → s₁.Supplies m := by
      rintro m ⟨ha, good, more, hp, hgood, hle⟩
      refine ⟨ha, good, more, hp, hgood, ?_⟩
      rw [hu] at hle
      rw [show unread s₁.rx = [] from hu₁]
      exact hle
    obtain ⟨r, s₂, hrecv, hrec⟩ := sysRecv_received (show 1 ≤ (s₁.iovMax : ℕ) from s₁.iovMax.pos)
      (show 0 < bufsize by decide) (show unread s₁.rx = [] from hu₁)
    have hturn : refill s = (sysRecv 1 bufsize >>= fun bs =>
        Call.change fun s => { s with rx := some ⟨bs.length, 0, some bs⟩ }) s₁ :=
      Call.bind_ret hrun
    rw [hturn]
    have hall : ∀ bs : List UInt8, (RxBuf.mk bs.length 0 (some bs)).unread = bs := by
      intro bs
      show (bs.take bs.length).drop 0 = bs
      rw [List.take_length, List.drop_zero]
    have hdry : s.stream = dataOf s.pieces := by
      unfold Rcv.stream
      rw [hu]
      rfl
    cases hrec with
    | @error e _ hkeep he hno =>
      exact ⟨_, s₂, Call.bind_fail hrecv, .error (fun c => (hkeep₁ c).trans (hkeep.weaken _))
        ((hkeep₁ 0).canFail he) fun m hm hs => hno m hm (hsup₁ m hs)⟩
    | quiet hq =>
      refine ⟨_, _, Call.bind_ret hrecv, .filled rfl (fun c => ?_) rfl ?_ ⟨_, rfl, le_rfl⟩ ?_
        (.inl hq)⟩
      · exact ⟨fun _ _ => rfl, fun h => (by cases h), fun _ => le_refl (0 : ℕ),
          by rw [hrx]; rfl, rfl, rfl, fun _ hp _ => hp⟩
      · rw [hdry]
        rfl
      · rintro m ⟨ha, good, more, hp, hgood, hle⟩
        rw [hu] at hle
        exact ⟨ha, good, more, hp, hgood, hle⟩
    | @bytes bs _ hkeep hmem hle hdata hturns hsup =>
      refine ⟨_, _, Call.bind_ret hrecv, .filled (hkeep.iol_eq) (fun c => ?_) hmem ?_
        ⟨_, rfl, le_rfl⟩ ?_ (.inr hturns)⟩
      · exact ⟨fun x _ => hkeep.iol x (by simp), fun h => (by cases h), fun _ => le_refl bs.length,
          by rw [hrx]; rfl, hkeep.alloc, hkeep.iovMax, hkeep.pieces⟩
      · rw [hdry]
        show _ = (RxBuf.mk bs.length 0 (some bs)).unread ++ dataOf s₂.pieces
        rw [hall]
        exact hdata
      · intro m hm
        by_cases hmany : bs.length ≤ m
        · obtain ⟨ha, good, more, hp, hgood, hle'⟩ :=
            hsup (m - bs.length) ((hsup₁ m hm).mono (by omega))
          refine ⟨ha, good, more, hp, hgood, ?_⟩
          show m ≤ (RxBuf.mk bs.length 0 (some bs)).unread.length + _
          rw [hkeep.rx rfl, show unread s₁.rx = [] from hu₁, List.length_nil] at hle'
          rw [hall]
          omega
        · refine ⟨hkeep.alloc.trans (hsup₁ m hm).1, [], s₂.pieces, rfl, by simp, ?_⟩
          show m ≤ (RxBuf.mk bs.length 0 (some bs)).unread.length + _
          rw [hall]
          omega

theorem buffered_succ (curr : IolPtr n) (k : ℕ) (s : Rcv n) :
    buffered curr (k + 1) s = (refill >>= fun _ => copyOut curr (n + 1) >>= fun r =>
      match r with
      | none => pure ()
      | some sz => elem curr >>= fun e => setElem curr (IolElem.skip e sz) >>= fun _ =>
        fdin >>= fun _ => buffered curr k) s := by
  unfold refill
  rw [Call.bind_assoc]
  conv_lhs => unfold buffered
  exact Call.bind_congr fun _ s' => Call.bind_assoc.symm

theorem buffered_spec (k : ℕ) (hrx : s.rx = some rx) (hf : rx.Filled) (hu : unread s.rx = [])
    (hcurr : curr ≠ 0) (hch : Chain s.iol.next (s.iol.next curr) els 0) (h0 : 0 ∉ els)
    (hc : curr ∉ els) (hlen : els.length ≤ n) (hpos : 0 < (s.iol curr).iolLen)
    (hk : s.turns < k) :
    Spec A (some curr) (cells (bufs s.iol (curr :: els))) (buffered curr k) s := by
  induction k generalizing s rx els with
  | zero => omega
  | succ k ih =>
    have hroom : 0 < (cells (bufs s.iol (curr :: els))).length := by
      rw [length_cells, bufs_cons, List.map_cons, List.sum_cons]
      exact Nat.add_pos_left hpos _
    refine Spec.congr ?_ (buffered_succ curr k s)
    obtain ⟨r, s₂, hrefill, hrec⟩ := refill_cases hrx hf hu
    cases hrec with
    | error hkeep he hno => exact .of_fail (Call.bind_fail hrefill) (hkeep curr) (hno _ hroom) he
    | filled hiol hkeep hmem hstream hrx₂ hsup hturns =>
      obtain ⟨rx₂, hrx₂, hf₂⟩ := hrx₂
      rw [← List.nil_append (cells _)]
      refine .of_step (Call.bind_ret hrefill) (hkeep curr) (fun _ => ⟨[], rfl, hstream, ?_⟩)
        (fun m hm => hsup m ?_) ?_
      · rw [hmem, store_nil]
      · rwa [List.length_nil, Nat.zero_add] at hm
      rw [← hiol] at hch ⊢
      set l := bufs s₂.iol (curr :: els) with hl
      obtain ⟨r, s₃, hcopy, hcopied, hleft⟩ :=
        copyOut_spec (n + 1) hrx₂ hf₂ hcurr hch h0 hc (by omega)
      rw [← hl] at hcopied hleft
      have hsplit : cells l = (cells l).take (unread s₂.rx).length ++
          cells (cut l (unread s₂.rx).length) := by
        rw [cells_cut, List.take_append_drop]
      rw [hsplit]
      cases r with
      | none =>
        have hnil : cut l (unread s₂.rx).length = [] := hleft
        rw [hnil]
        refine .of_step (y := pure ()) (Call.bind_ret hcopy) hcopied.keeps (fun _ => hcopied.took)
          (fun m hm => hcopied.supplies hm) (spec_pure A _ s₃)
      | some sz =>
        obtain ⟨pre, rest, rfl, hcut, hrest⟩ := hleft
        set s₄ : Rcv n := { s₃ with
          iol := Function.update s₃.iol curr (IolElem.skip (s₃.iol curr) sz) } with hs₄
        have hc' : curr ∉ rest := fun h => hc (List.mem_append_right _ h)
        have hbufs : bufs s₄.iol (curr :: rest) = cut l (unread s₂.rx).length := by
          rw [hcut, bufs_update hc']
        have hch₄ : Chain s₄.iol.next (s₄.iol.next curr) rest 0 := by
          rw [next_update]
          exact chain_update hrest hc' _
        have hcopied₄ : Copied (some curr) s₂ s₄ l := hcopied.update _
        have hne : cut l (unread s₂.rx).length ≠ [] := by
          rw [hcut]
          exact List.cons_ne_nil _ _
        have hdry : unread s₄.rx = [] := hcopied₄.dry hne
        have hpos₄ : 0 < (s₄.iol curr).iolLen := cut_pos (b := IolElem.buf (s₄.iol curr)) hbufs.symm
        have hroom₄ : 0 < (cells (bufs s₄.iol (curr :: rest))).length := by
          rw [length_cells, bufs_cons, List.map_cons, List.sum_cons]
          exact Nat.add_pos_left hpos₄ _
        obtain ⟨rx₄, hrx₄, hf₄⟩ := hcopied₄.buffer hrx₂
        have hrun : (copyOut curr (n + 1) >>= fun r =>
            match r with
            | none => pure ()
            | some sz => elem curr >>= fun e => setElem curr (IolElem.skip e sz) >>= fun _ =>
              fdin >>= fun _ => buffered curr k) s₂ =
            (fdin >>= fun _ => buffered curr k) s₄ := by
          rw [Call.bind_ret hcopy]
          dsimp only
          rw [elem_bind hcurr]
          rfl
        refine .of_step hrun hcopied₄.keeps (fun _ => hcopied₄.took)
          (fun m hm => hcopied₄.supplies hm) ?_
        · rw [← hbufs]
          rcases fdin_cases s₄ with ⟨hq, hw | ⟨e, s₅, hfail, hkeep₅, he⟩⟩ | ⟨hq, hin⟩
          · exact .of_waits (Call.bind_stop hw) (hq.not_supplies (by rw [hdry]; exact hroom₄))
          · exact .of_fail (Call.bind_fail hfail) (hkeep₅.weaken _)
              (hq.not_supplies (by rw [hdry]; exact hroom₄)) he
          · have hquiet : ¬s₂.Quiet := by
              intro h
              apply hq
              unfold Rcv.Quiet
              rwa [hcopied₄.pieces]
            have hless : s₄.turns < k := by
              have hlt := hturns.resolve_left hquiet
              unfold Rcv.turns at hlt hk ⊢
              rw [hcopied₄.pieces]
              omega
            have h0' : 0 ∉ rest := fun h => h0 (List.mem_append_right _ h)
            refine (ih hrx₄ hf₄ hdry hch₄ h0' hc' ?_ hpos₄ hless).congr (Call.bind_ret hin)
            rw [List.length_append] at hlen
            omega
/-! ## From the beginning -/

/-- What the receive buffer does not hold of the elements. -/
def remaining (s : Rcv n) (els : List (IolPtr n)) : List Buf :=
  match s.rx with
  | none => bufs s.iol els
  | some rx => cut (bufs s.iol els) rx.unread.length

/-- The rest is received directly. -/
def Direct (s : Rcv n) (els : List (IolPtr n)) : Prop :=
  s.rx = none ∨ bufsize < ((remaining s els).map Prod.snd).sum % 2 ^ 64

instance (s : Rcv n) (els : List (IolPtr n)) : Decidable (Direct s els) :=
  inferInstanceAs (Decidable (_ ∨ _))

theorem cells_remaining (s : Rcv n) (els : List (IolPtr n)) :
    cells (remaining s els) = (cells (bufs s.iol els)).drop (unread s.rx).length := by
  unfold remaining
  cases s.rx with
  | none => rfl
  | some rx => exact cells_cut _ _

theorem buf_skip_zero (e : IolElem n) : IolElem.buf (IolElem.skip e 0) = IolElem.buf e := by
  unfold IolElem.buf IolElem.skip
  by_cases hnull : e.iolBase = 0 <;> simp [hnull]

theorem missing_eq {iol : IolMem n} (miss : ℕ) (hch : Chain iol.next it els 0) (h0 : 0 ∉ els)
    (hk : els.length ≤ k) (hmiss : miss < 2 ^ 64) :
    missing iol k it miss = some ((miss + ((bufs iol els).map Prod.snd).sum) % 2 ^ 64) := by
  induction els generalizing it k miss with
  | nil =>
    obtain rfl : it = 0 := hch
    unfold missing
    rw [if_pos rfl]
    exact congrArg some (Nat.mod_eq_of_lt hmiss).symm
  | cons x els ih =>
    obtain ⟨rfl, hch⟩ := hch
    obtain ⟨hit, h0⟩ := not_or.mp (fun h => h0 (List.mem_cons.mpr h))
    obtain ⟨k, rfl⟩ : ∃ k', k = k' + 1 := ⟨k - 1, by rw [List.length_cons] at hk; omega⟩
    unfold missing
    rw [if_neg (Ne.symm hit)]
    dsimp only
    rw [ih _ hch h0 (Nat.le_of_succ_le_succ hk) (Nat.mod_lt _ (by decide)), bufs_cons, List.map_cons,
      List.sum_cons, Nat.mod_add_mod, Nat.add_assoc]
    rfl

/-- The state in which the rest is received: the element in `curr` is followed by `rest`. -/
structure Opened (curr : IolPtr n) (s s' : Rcv n) (els rest : List (IolPtr n)) : Prop where
  copied : Copied (some curr) s s' (bufs s.iol els)
  bufs : bufs s'.iol (curr :: rest) = remaining s els
  chain : Chain s'.iol.next (s'.iol.next curr) rest 0
  rsvd : (∀ x ∈ els, (s.iol x).iolRsvd = 0) → ∀ x ∈ curr :: rest, (s'.iol x).iolRsvd = 0
  rest : ∃ pre x, els = pre ++ x :: rest
  dry : unread s'.rx = []
  room : s.rx ≠ none → 0 < (s'.iol curr).iolLen

/-- How the rest is received. -/
def receiveRest (curr last : IolPtr n) (isDirect : Bool) (rest : List (IolPtr n)) : Recv n Unit :=
  if isDirect then direct (if rest = [] then curr else last) (n + 1) curr curr
  else fun s => buffered curr (s.turns + 1) s

theorem receiveRest_true (curr last : IolPtr n) (rest : List (IolPtr n)) (s : Rcv n) :
    receiveRest curr last true rest s =
      direct (if rest = [] then curr else last) (n + 1) curr curr s := rfl

theorem receiveRest_false (curr last : IolPtr n) (rest : List (IolPtr n)) (s : Rcv n) :
    receiveRest curr last false rest s = buffered curr (s.turns + 1) s := rfl

/-- `dill_fd_recv` from the point where an element could not be filled. -/
def resume (curr last : IolPtr n) (rx : Option RxBuf) (first : IolPtr n) (sz : ℕ) :
    Recv n Unit := do
  let e ← elem first
  setElem curr { IolElem.skip e sz with iolRsvd := 0 }
  let miss ← Call.look fun s => missing s.iol (n + 1) curr 0
  match miss with
  | none => Call.stop .endless
  | some miss =>
    if rx.isNone ∨ bufsize < miss then
      direct (if e.iolNext = 0 then curr else last) (n + 1) curr curr
    else fun s => buffered curr (s.turns + 1) s

theorem resume_opened {sz : ℕ} (hcurr : curr ≠ 0) (hch : Chain s.iol.next first els 0)
    (h0 : 0 ∉ els) (hc : curr ∉ els) (hcopied : Copied none s s' (bufs s.iol els))
    (hels : els = pre ++ it :: rest) (hrem : remaining s els =
      IolElem.buf (IolElem.skip (s'.iol it) sz) :: bufs s'.iol rest)
    (hdry : unread s'.rx = []) (hroom : s.rx ≠ none → sz < (s'.iol it).iolLen) :
    ∃ s'', Opened curr s s'' els rest ∧ ∀ last,
      resume curr last s.rx it sz s' = receiveRest curr last (Direct s els) rest s'' := by
  subst hels
  have hiol : s'.iol = s.iol := funext fun x => hcopied.iol x (by simp)
  obtain ⟨_, -, hw, hrest⟩ := chain_append.mp hch
  rw [← hiol] at hrest
  have hit : it ≠ 0 := fun h => h0 (List.mem_append_right _ (h ▸ List.mem_cons_self))
  have h0' : 0 ∉ rest := fun h => h0 (List.mem_append_right _ (List.mem_cons_of_mem _ h))
  have hc' : curr ∉ rest := fun h => hc (List.mem_append_right _ (List.mem_cons_of_mem _ h))
  set e : IolElem n := { IolElem.skip (s'.iol it) sz with iolRsvd := 0 } with he
  set s₂ : Rcv n := { s' with iol := Function.update s'.iol curr e } with hs₂
  have hbufs : bufs s₂.iol (curr :: rest) = remaining s (pre ++ it :: rest) := by
    rw [hrem, bufs_update hc']
    rfl
  have hchain : Chain s₂.iol.next (s₂.iol.next curr) rest 0 := by
    rw [next_update]
    exact chain_update hrest hc' e
  refine ⟨s₂, ⟨(hcopied.weaken _).update e, hbufs, hchain, ?_, ⟨pre, it, rfl⟩, hdry, ?_⟩, ?_⟩
  · intro hm x hx
    rcases List.mem_cons.mp hx with rfl | hx
    · exact congrArg IolElem.iolRsvd (Function.update_self x e s'.iol)
    · have hne : x ≠ curr := fun h => hc' (h ▸ hx)
      rw [hs₂]
      dsimp only
      rw [Function.update_of_ne hne, hiol]
      exact hm x (List.mem_append_right _ (List.mem_cons_of_mem _ hx))
  · intro hrx
    have hself : s₂.iol curr = e := Function.update_self curr e s'.iol
    rw [hself]
    exact Nat.sub_pos_of_lt (hroom hrx)
  · intro last
    have hch₂ : Chain s₂.iol.next curr (curr :: rest) 0 := ⟨rfl, hchain⟩
    have h0₂ : 0 ∉ curr :: rest := fun h => (List.mem_cons.mp h).elim (fun h => hcurr h.symm) h0'
    have hlen := length_le_of_nodup (hch₂.nodup h0₂) h0₂
    have hmiss := missing_eq 0 hch₂ h0₂ (Nat.le_succ_of_le hlen) (by decide)
    rw [Nat.zero_add, hbufs] at hmiss
    have hnext : (s'.iol it).iolNext = 0 ↔ rest = [] := by
      constructor
      · intro hnil
        rw [show s'.iol.next it = 0 from hnil] at hrest
        exact hrest.eq_nil h0'
      · rintro rfl
        exact hrest
    have hdirect : (s.rx.isNone ∨ bufsize < ((remaining s (pre ++ it :: rest)).map Prod.snd).sum %
        2 ^ 64) ↔ Direct s (pre ++ it :: rest) := or_congr_left Option.isNone_iff_eq_none
    unfold resume receiveRest
    rw [elem_bind hit]
    show (match missing s₂.iol (n + 1) curr 0 with
      | none => (Call.stop Halt.endless : Recv n Unit)
      | some miss =>
        if s.rx.isNone ∨ bufsize < miss then
          direct (if (s'.iol it).iolNext = 0 then curr else last) (n + 1) curr curr
        else fun s => buffered curr (s.turns + 1) s) s₂ = _
    rw [hmiss]
    simp only [hnext]
    by_cases h : Direct s (pre ++ it :: rest)
    · rw [decide_eq_true h]
      exact congrFun (if_pos (hdirect.mpr h)) s₂
    · rw [decide_eq_false h]
      exact congrFun (if_neg fun hno => h (hdirect.mp hno)) s₂

theorem fdRecv_start (curr first last : IolPtr n) (hne : ¬(first = 0 ∧ last = 0)) (s : Rcv n) :
    fdRecv curr first last s = ((if s.rx.isSome then drain (n + 1) first
      else pure (some (first, 0))) >>= fun r =>
        match r with
        | none => pure ()
        | some (it, sz) => resume curr last s.rx it sz) s := by
  unfold fdRecv resume
  rw [if_neg hne, Call.look_bind]
  split <;> rfl

/-- **How the call begins.** It has all the bytes from the receive buffer, or it has used up what
the buffer holds; `last` matters behind that point only. -/
theorem fdRecv_opened (hcurr : curr ≠ 0) (hne : els ≠ []) (hch : Chain s.iol.next first els 0)
    (h0 : 0 ∉ els) (hc : curr ∉ els) (hf : Filled s.rx) :
    (∃ s', Copied none s s' (bufs s.iol els) ∧ remaining s els = [] ∧
      ∀ last, fdRecv curr first last s = .ok (.ok (), s')) ∨
    ∃ rest s', Opened curr s s' els rest ∧
      ∀ last, fdRecv curr first last s = receiveRest curr last (Direct s els) rest s' := by
  obtain ⟨x, els', rfl⟩ := List.exists_cons_of_ne_nil hne
  have hfirst : first ≠ 0 := fun h => h0 (by rw [← h, hch.1]; exact List.mem_cons_self)
  have hstart := fun last => fdRecv_start curr first last (fun h => hfirst h.1) s
  cases hrx : s.rx with
  | none =>
    have hu : unread s.rx = [] := by rw [hrx]; rfl
    obtain ⟨rfl, hrest⟩ := hch
    have hrem : remaining s (first :: els') =
        IolElem.buf (IolElem.skip (s.iol first) 0) :: bufs s.iol els' := by
      unfold remaining
      rw [hrx, buf_skip_zero]
      rfl
    have hch' : Chain s.iol.next first (first :: els') 0 := ⟨rfl, hrest⟩
    obtain ⟨s', hopened, hrun⟩ := resume_opened hcurr hch' h0 hc
      (Copied.refl none hf hu (bufs s.iol (first :: els')))
      (show first :: els' = [] ++ first :: els' from rfl) hrem hu (fun h => absurd hrx h)
    refine .inr ⟨els', s', hopened, fun last => (hstart last).trans ?_⟩
    rw [hrx, if_neg (by simp), ← hrun last, hrx]
    rfl
  | some rx =>
    have hlen : (x :: els').length ≤ n := length_le_of_nodup (hch.nodup h0) h0
    rw [hrx] at hf
    obtain ⟨r, s', hdrain, hcopied, hreached⟩ :=
      drain_spec (n + 1) hrx hf (List.cons_ne_nil x els') hch h0 (Nat.le_succ_of_le hlen)
    have hstart' : ∀ last, fdRecv curr first last s = (match r with
        | none => (pure () : Recv n Unit)
        | some (it, sz) => resume curr last s.rx it sz) s' := by
      intro last
      rw [hstart last, hrx, if_pos Option.isSome_some]
      exact Call.bind_ret hdrain
    have hrem : cut (bufs s.iol (x :: els')) (unread s.rx).length = remaining s (x :: els') := by
      unfold remaining
      rw [hrx]
      rfl
    rw [hrem] at hreached
    cases r with
    | none => exact .inl ⟨s', hcopied, hreached, hstart'⟩
    | some p =>
      obtain ⟨it, sz⟩ := p
      obtain ⟨pre, rest, hels, hleft⟩ := hreached
      have hne : cut (bufs s.iol (x :: els')) (unread s.rx).length ≠ [] := by
        rw [hrem, hleft]
        exact List.cons_ne_nil _ _
      obtain ⟨s'', hopened, hrun⟩ := resume_opened hcurr hch h0 hc hcopied hels hleft
        (hcopied.dry hne) (fun _ => by
          have hpos := cut_pos (hrem.trans hleft)
          exact Nat.lt_of_sub_pos hpos)
      exact .inr ⟨rest, s'', hopened, fun last => (hstart' last).trans (hrun last)⟩

/-- The direct receive of a list that ends where it should. -/
theorem receiveRest_direct (hcurr : curr ≠ 0) (hch : Chain s.iol.next (s.iol.next curr) rest 0)
    (h0 : 0 ∉ rest) (hm : ∀ x ∈ curr :: rest, (s.iol x).iolRsvd = 0)
    (hlast : rest ≠ [] → rest.getLast? = some last) :
    receiveRest curr last true rest s =
      (perform (plan true [] (bufs s.iol (curr :: rest))) >>= fun _ => pure ()) s := by
  have h0' : 0 ∉ curr :: rest := fun h => (List.mem_cons.mp h).elim (fun h => hcurr h.symm) h0
  have hch' : Chain s.iol.next curr (curr :: rest) 0 := ⟨rfl, hch⟩
  have hlen := length_le_of_nodup (hch'.nodup h0') h0'
  have hlands : Lands true (if rest = [] then curr else last) (curr :: rest) := by
    cases rest with
    | nil => rfl
    | cons y rest =>
      show (curr :: y :: rest).getLast? = _
      rw [List.getLast?_cons_cons]
      exact hlast (List.cons_ne_nil _ _)
  exact direct_eq rfl (show ∀ x ∈ [] ++ curr :: rest, _ from hm)
    (show Chain s.iol.next curr [] curr from rfl) hch' h0' hlands
    (fun x hx => absurd hx List.not_mem_nil) (fun h => absurd rfl h) (Nat.lt_succ_of_le hlen)

/-- The list that is left ends where the whole list does. -/
theorem Opened.getLast? (h : Opened curr s s' els rest) (hlast : els.getLast? = some last)
    (hne : rest ≠ []) : rest.getLast? = some last := by
  obtain ⟨pre, x, hels⟩ := h.rest
  rw [hels, List.append_cons, List.getLast?_append_of_ne_nil _ hne] at hlast
  exact hlast

theorem Opened.mem (h : Opened curr s s' els rest) {y : IolPtr n} (hy : y ∈ rest) : y ∈ els := by
  obtain ⟨pre, x, hels⟩ := h.rest
  rw [hels]
  exact List.mem_append_right _ (List.mem_cons_of_mem _ hy)

/-- The direct receive of what is left performs its plan. -/
theorem Opened.direct (h : Opened curr s s' els rest) (hcurr : curr ≠ 0) (h0 : 0 ∉ els)
    (hlast : els.getLast? = some last) (hm : ∀ x ∈ els, (s.iol x).iolRsvd = 0) :
    receiveRest curr last true rest s' =
      (perform (plan true [] (remaining s els)) >>= fun _ => pure ()) s' := by
  rw [← h.bufs]
  exact receiveRest_direct hcurr h.chain (fun h0' => h0 (h.mem h0')) (h.rsvd hm) (h.getLast? hlast)

/-- **The receive.** Whatever happens on the descriptor, the bytes of the stream are stored in the
elements in their order, or the call fails. A call that is supplied with its bytes returns. -/
theorem fdRecv_spec (hcurr : curr ≠ 0) (hne : els ≠ []) (hch : Chain s.iol.next first els 0)
    (h0 : 0 ∉ els) (hc : curr ∉ els) (hlast : els.getLast? = some last) (hf : Filled s.rx)
    (hm : ∀ x ∈ els, (s.iol x).iolRsvd = 0)
    (hnull : Direct s els → ∀ b ∈ remaining s els, b.1 = none → b.2 = 0 ∨ ¬A ∧ b.2 < 2 ^ 63)
    (hmax : Direct s els → ¬Crowded s.iovMax (remaining s els)) :
    Spec A (some curr) (cells (bufs s.iol els)) (fdRecv curr first last) s := by
  have hsplit : cells (bufs s.iol els) =
      (cells (bufs s.iol els)).take (unread s.rx).length ++ cells (remaining s els) := by
    rw [cells_remaining, List.take_append_drop]
  rw [hsplit]
  rcases fdRecv_opened hcurr hne hch h0 hc hf with
    ⟨s', hcopied, hnil, hrun⟩ | ⟨rest, s', hopened, hrun⟩
  · have hcopied := hcopied.weaken (some curr)
    rw [hnil]
    exact .of_step (y := pure ()) (hrun last) hcopied.keeps (fun _ => hcopied.took)
      (fun m hm => hcopied.supplies hm) (spec_pure A _ s')
  · refine .of_step (hrun last) hopened.copied.keeps (fun _ => hopened.copied.took)
      (fun m hm => hopened.copied.supplies hm) ?_
    have h0' : 0 ∉ rest := fun h => h0 (hopened.mem h)
    have hc' : curr ∉ rest := fun h => hc (hopened.mem h)
    by_cases hdirect : Direct s els
    · rw [decide_eq_true hdirect]
      have hspec : Spec A none ((plan true [] (remaining s els)).flatMap Action.cells)
          (perform (plan true [] (remaining s els))) s' :=
        perform_spec (plan_fine (fun b hb => absurd hb List.not_mem_nil) (hnull hdirect))
          (plan_room (hopened.copied.iovMax ▸ hmax hdirect)) hopened.dry
      rw [plan_cells] at hspec
      have hbind := (hspec.weaken (some curr)).bind (f := fun _ => pure ())
        fun s'' _ _ => spec_pure A (some curr) s''
      rw [List.append_nil] at hbind
      exact hbind.congr (hopened.direct hcurr h0 hlast hm)
    · rw [decide_eq_false hdirect, ← hopened.bufs]
      obtain ⟨rx, hrx⟩ := Option.ne_none_iff_exists'.mp fun h => hdirect (.inl h)
      obtain ⟨rx', hrx', hf'⟩ := hopened.copied.buffer hrx
      have hlen : rest.length ≤ n :=
        length_le_of_nodup (hopened.chain.nodup h0') h0'
      exact (buffered_spec (s'.turns + 1) hrx' hf' hopened.dry hcurr hopened.chain h0' hc' hlen
        (hopened.room (by rw [hrx]; exact Option.some_ne_none rx)) (Nat.lt_succ_self _)).congr rfl

/-! ## Lists that do not end in `last` -/

/-- `last` does not matter unless more than one buffer is received into directly. -/
theorem fdRecv_anyLast (hcurr : curr ≠ 0) (hne : els ≠ []) (hch : Chain s.iol.next first els 0)
    (h0 : 0 ∉ els) (hc : curr ∉ els) (hf : Filled s.rx)
    (hone : ¬(Direct s els ∧ 1 < (remaining s els).length)) (last last' : IolPtr n) :
    fdRecv curr first last s = fdRecv curr first last' s := by
  rcases fdRecv_opened hcurr hne hch h0 hc hf with
    ⟨s', -, -, hrun⟩ | ⟨rest, s', hopened, hrun⟩
  · rw [hrun last, hrun last']
  · rw [hrun last, hrun last']
    by_cases hdirect : Direct s els
    · have hnil : rest = [] := by
        by_contra hrest
        apply hone
        refine ⟨hdirect, ?_⟩
        have hlen : (bufs s'.iol rest).length = rest.length := List.length_map _
        rw [← hopened.bufs, bufs_cons, List.length_cons, hlen]
        exact Nat.succ_lt_succ (List.length_pos_of_ne_nil hrest)
      rw [decide_eq_true hdirect, receiveRest_true, receiveRest_true, if_pos hnil, if_pos hnil]
    · rw [decide_eq_false hdirect, receiveRest_false, receiveRest_false]

/-- Otherwise the loop runs off the end of a list without `last`. -/
theorem fdRecv_loose (hcurr : curr ≠ 0) (hne : els ≠ []) (hch : Chain s.iol.next first els 0)
    (h0 : 0 ∉ els) (hc : curr ∉ els) (hf : Filled s.rx) (hm : ∀ x ∈ els, (s.iol x).iolRsvd = 0)
    (hdirect : Direct s els) (hmany : 1 < (remaining s els).length) (hlast : last ∉ els)
    (hapart : last ≠ curr) : fdRecv curr first last s ≠ .ok (.ok (), s') := by
  intro h
  rcases fdRecv_opened hcurr hne hch h0 hc hf with ⟨s₁, -, hnil, -⟩ | ⟨rest, s₁, hopened, hrun⟩
  · rw [hnil] at hmany
    exact absurd hmany (by decide)
  · rw [← hopened.bufs, bufs_cons, List.length_cons] at hmany
    have hrest : rest ≠ [] := by
      rintro rfl
      exact lt_irrefl 1 hmany
    have hlast' : last ∉ curr :: rest := by
      intro hmem
      rcases List.mem_cons.mp hmem with heq | hmem
      · exact hapart heq
      · exact hlast (hopened.mem hmem)
    have h0' : 0 ∉ curr :: rest := by
      intro hmem
      rcases List.mem_cons.mp hmem with heq | hmem
      · exact hcurr heq.symm
      · exact h0 (hopened.mem hmem)
    have hch' : Chain s₁.iol.next curr (curr :: rest) 0 := ⟨rfl, hopened.chain⟩
    have hlen := length_le_of_nodup (hch'.nodup h0') h0'
    have hloop : direct last (n + 1) curr curr s₁ =
        (perform (plan false [] (bufs s₁.iol (curr :: rest))) >>= fun _ => landing false) s₁ :=
      direct_eq rfl (show ∀ x ∈ [] ++ curr :: rest, _ from hopened.rsvd hm)
        (show Chain s₁.iol.next curr [] curr from rfl) hch' h0' hlast'
        (fun x hx => absurd hx List.not_mem_nil) (fun h => absurd rfl h) (Nat.lt_succ_of_le hlen)
    rw [hrun last, decide_eq_true hdirect, receiveRest_true, if_neg hrest, hloop] at h
    obtain ⟨_, s₂, -, hend⟩ := Call.ret_of_bind h
    cases hend

end Libdill.Fd.Scatter
