import Libdill.Fd.Scatter

/-!
# Receives step by step

What a part of a receive has to do: take a number of bytes off the stream and store them at given
addresses. `Spec` says this for every behaviour of the kernel, with its rules for sequencing; a part
that is supplied with its bytes returns, and one that fails or waits forever is not.

* `recvIov_spec`: `dill_fd_recv_`.
* `fdSkip_spec`: `dill_fd_skip`, and `fdSkip_neg` for what it does with a negative length.
-/

namespace Libdill.Fd.Scatter

open Foundations Libdill.Sock

variable {n : ℕ}

/-- What happens in the course of a receive without errors. -/
def Piece.Benign : Piece → Prop
  | .data _ => True
  | .again => True
  | _ => False

/-- The bytes that have been received into the buffer and those that arrive. -/
def Rcv.stream (s : Rcv n) : List UInt8 := unread s.rx ++ dataOf s.pieces

/-- The next `m` bytes arrive without an error or an interruption, and a buffer can be allocated. -/
def Rcv.Supplies (s : Rcv n) (m : ℕ) : Prop :=
  s.alloc = true ∧ ∃ good more, s.pieces = good ++ more ∧ (∀ p ∈ good, p.Benign) ∧
    m ≤ (unread s.rx).length + (dataOf good).length

/-- The next bytes of the stream have been stored at the addresses. -/
def Took (s s' : Rcv n) (dst : List (Option ℕ)) : Prop :=
  ∃ bs : List UInt8, bs.length = dst.length ∧ s.stream = bs ++ s'.stream ∧
    s'.mem = store s.mem dst bs

/-- The errors that can come of what is to happen. -/
def Rcv.CanFail (s : Rcv n) (e : Errno) : Prop :=
  (e = .EPIPE ∧ .eof ∈ s.pieces) ∨ (∃ e', e = recvErrno e' ∧ .fail e' ∈ s.pieces) ∨
    .stop e ∈ s.pieces ∨ (e = .ENOMEM ∧ s.alloc = false)

/-- What a part of a receive leaves as it was: the elements other than `c`, the receive buffer if
there is no such element, and whether there is a receive buffer. No new errors come up. -/
structure Keeps (c : Option (IolPtr n)) (s s' : Rcv n) : Prop where
  iol : ∀ x, some x ≠ c → s'.iol x = s.iol x
  rx : c = none → s'.rx = s.rx
  filled : Filled s.rx → Filled s'.rx
  buffer : s'.rx.isSome = s.rx.isSome
  alloc : s'.alloc = s.alloc
  iovMax : s'.iovMax = s.iovMax
  pieces : ∀ p ∈ s'.pieces, ¬p.Benign → p ∈ s.pieces

/-- **What a part of a receive has to do**: bytes are taken off the stream and stored at the
addresses `dst`. When `A` does not hold, a part that has not been supplied with its bytes may return
without them. -/
structure Spec (A : Prop) (c : Option (IolPtr n)) (dst : List (Option ℕ)) (x : Recv n Unit)
    (s : Rcv n) : Prop where
  halts : ∀ h, x s = .error h → h = .waits ∧ ¬s.Supplies dst.length
  fails : ∀ e s', x s = .ok (.error e, s') → Keeps c s s' ∧ ¬s.Supplies dst.length ∧ s.CanFail e
  returns : ∀ s', x s = .ok (.ok (), s') → Keeps c s s' ∧
    (A ∨ s.Supplies dst.length → Took s s' dst) ∧
    ∀ m, s.Supplies (dst.length + m) → s'.Supplies m

variable {A : Prop} {c : Option (IolPtr n)} {s s' s'' : Rcv n} {dst₁ dst₂ : List (Option ℕ)}
  {x y : Recv n Unit} {f : Unit → Recv n Unit} {e : Errno} {m : ℕ} {bs bs' : List UInt8}
  {mem : ℕ → UInt8} {iov : List Buf} {k : ℕ}

/-! ## Bytes that are stored -/

theorem store_append (h : dst₁.length = bs.length) (mem : ℕ → UInt8) (dst₂ : List (Option ℕ))
    (bs' : List UInt8) :
    store mem (dst₁ ++ dst₂) (bs ++ bs') = store (store mem dst₁ bs) dst₂ bs' := by
  induction dst₁ generalizing bs mem with
  | nil =>
    obtain rfl : bs = [] := List.length_eq_zero_iff.mp h.symm
    rfl
  | cons a dst₁ ih =>
    cases bs with
    | nil => cases h
    | cons b bs =>
      have hlen : dst₁.length = bs.length := Nat.succ.inj h
      cases a with
      | none => exact ih hlen mem
      | some a => exact ih hlen _

@[simp] theorem store_nil (mem : ℕ → UInt8) (dst : List (Option ℕ)) : store mem dst [] = mem := by
  cases dst with
  | nil => rfl
  | cons a dst => cases a <;> rfl

/-- Fewer bytes than there are addresses. -/
theorem store_take (mem : ℕ → UInt8) (dst : List (Option ℕ)) (bs : List UInt8) :
    store mem (dst.take bs.length) bs = store mem dst bs := by
  induction dst generalizing bs mem with
  | nil => rw [List.take_nil]
  | cons a dst ih =>
    cases bs with
    | nil => rw [store_nil, store_nil]
    | cons b bs =>
      cases a with
      | none => exact ih mem bs
      | some a => exact ih _ bs

/-- Bytes that nobody wants. -/
theorem store_none (mem : ℕ → UInt8) (k : ℕ) (bs : List UInt8) :
    store mem (List.replicate k none) bs = mem := by
  induction k generalizing bs with
  | zero => rfl
  | succ k ih =>
    cases bs with
    | nil => rfl
    | cons b bs => exact ih bs

/-- Nothing else is written to. -/
theorem store_other (mem : ℕ → UInt8) {dst : List (Option ℕ)} {a : ℕ} (ha : some a ∉ dst)
    (bs : List UInt8) : store mem dst bs a = mem a := by
  induction dst generalizing mem bs with
  | nil => cases bs <;> rfl
  | cons c dst ih =>
    obtain ⟨hc, hdst⟩ := not_or.mp (fun h => ha (List.mem_cons.mpr h))
    cases bs with
    | nil => rw [store_nil]
    | cons b bs =>
      cases c with
      | none => exact ih mem hdst bs
      | some c =>
        have hne : a ≠ c := fun h => hc (congrArg some h)
        exact (ih _ hdst bs).trans (Function.update_of_ne hne b mem)

theorem Took.refl (s : Rcv n) : Took s s [] := ⟨[], rfl, rfl, (store_nil _ _).symm⟩

theorem Took.trans (h : Took s s' dst₁) (h' : Took s' s'' dst₂) : Took s s'' (dst₁ ++ dst₂) := by
  obtain ⟨bs, hlen, hstream, hmem⟩ := h
  obtain ⟨bs', hlen', hstream', hmem'⟩ := h'
  refine ⟨bs ++ bs', ?_, ?_, ?_⟩
  · rw [List.length_append, List.length_append, hlen, hlen']
  · rw [hstream, hstream', List.append_assoc]
  · rw [hmem', hmem, store_append hlen.symm]

/-! ## What is left as it was -/

theorem Keeps.refl (c : Option (IolPtr n)) (s : Rcv n) : Keeps c s s :=
  ⟨fun _ _ => rfl, fun _ => rfl, id, rfl, rfl, rfl, fun _ hp _ => hp⟩

theorem Keeps.trans (h : Keeps c s s') (h' : Keeps c s' s'') : Keeps c s s'' where
  iol x hx := (h'.iol x hx).trans (h.iol x hx)
  rx hc := (h'.rx hc).trans (h.rx hc)
  filled hf := h'.filled (h.filled hf)
  buffer := h'.buffer.trans h.buffer
  alloc := h'.alloc.trans h.alloc
  iovMax := h'.iovMax.trans h.iovMax
  pieces p hp hb := h.pieces p (h'.pieces p hp hb) hb

theorem Keeps.iol_eq (h : Keeps none s s') : s'.iol = s.iol := by
  funext x
  exact h.iol x (by simp)

/-- What leaves all the elements as they were leaves the others as they were. -/
theorem Keeps.weaken (h : Keeps none s s') (c : Option (IolPtr n)) : Keeps c s s' :=
  ⟨fun x _ => h.iol x (by simp), fun _ => h.rx rfl, h.filled, h.buffer, h.alloc, h.iovMax,
    h.pieces⟩

theorem Keeps.canFail (h : Keeps c s s') (he : s'.CanFail e) : s.CanFail e := by
  rcases he with ⟨he, hp⟩ | ⟨e', he, hp⟩ | hp | ⟨he, ha⟩
  · exact .inl ⟨he, h.pieces _ hp id⟩
  · exact .inr (.inl ⟨e', he, h.pieces _ hp id⟩)
  · exact .inr (.inr (.inl (h.pieces _ hp id)))
  · exact .inr (.inr (.inr ⟨he, h.alloc ▸ ha⟩))

theorem Rcv.Supplies.mono {m' : ℕ} (h : s.Supplies m) (hm : m' ≤ m) : s.Supplies m' := by
  obtain ⟨ha, good, more, hp, hgood, hle⟩ := h
  exact ⟨ha, good, more, hp, hgood, hm.trans hle⟩

/-! ## The rules -/

theorem Spec.of_waits (h : x s = .error .waits) (hs : ¬s.Supplies dst₁.length) :
    Spec A c dst₁ x s where
  halts h' hx := by
    rw [h] at hx
    cases hx
    exact ⟨rfl, hs⟩
  fails e s' hx := by
    rw [h] at hx
    cases hx
  returns s' hx := by
    rw [h] at hx
    cases hx

theorem Spec.of_fail (h : x s = .ok (.error e, s')) (hk : Keeps c s s')
    (hs : ¬s.Supplies dst₁.length) (he : s.CanFail e) : Spec A c dst₁ x s where
  halts h' hx := by
    rw [h] at hx
    cases hx
  fails e s' hx := by
    rw [h] at hx
    cases hx
    exact ⟨hk, hs, he⟩
  returns s' hx := by
    rw [h] at hx
    cases hx

/-- Some bytes have been taken, and the rest is a part of its own. -/
theorem Spec.of_step (h : x s = y s') (hk : Keeps c s s')
    (ht : A ∨ s.Supplies dst₁.length → Took s s' dst₁)
    (hs : ∀ m, s.Supplies (dst₁.length + m) → s'.Supplies m) (hy : Spec A c dst₂ y s') :
    Spec A c (dst₁ ++ dst₂) x s := by
  have hsup : s.Supplies (dst₁ ++ dst₂).length → s'.Supplies dst₂.length := by
    rw [List.length_append]
    exact hs _
  refine ⟨fun h' hx => ?_, fun e s'' hx => ?_, fun s'' hx => ?_⟩ <;> rw [h] at hx
  · obtain ⟨hw, hno⟩ := hy.halts h' hx
    exact ⟨hw, fun hyes => hno (hsup hyes)⟩
  · obtain ⟨hk', hno, he⟩ := hy.fails e s'' hx
    exact ⟨hk.trans hk', fun hyes => hno (hsup hyes), hk.canFail he⟩
  · obtain ⟨hk', ht', hs'⟩ := hy.returns s'' hx
    refine ⟨hk.trans hk', fun hA => ?_, fun m hm => ?_⟩
    · have hfirst : A ∨ s.Supplies dst₁.length := hA.imp_right fun hyes =>
        hyes.mono (by rw [List.length_append]; omega)
      exact (ht hfirst).trans (ht' (hA.imp_right hsup))
    · rw [List.length_append, Nat.add_assoc] at hm
      exact hs' m (hs _ hm)

/-- Nothing is taken. -/
theorem Spec.of_ret (h : x s = .ok (.ok (), s')) (hk : Keeps c s s')
    (ht : A ∨ s.Supplies dst₁.length → Took s s' dst₁)
    (hs : ∀ m, s.Supplies (dst₁.length + m) → s'.Supplies m) : Spec A c dst₁ x s where
  halts h' hx := by
    rw [h] at hx
    cases hx
  fails e s' hx := by
    rw [h] at hx
    cases hx
  returns s' hx := by
    rw [h] at hx
    cases hx
    exact ⟨hk, ht, hs⟩

theorem spec_pure (A : Prop) (c : Option (IolPtr n)) (s : Rcv n) :
    Spec A c [] (pure () : Recv n Unit) s :=
  .of_ret rfl (.refl c s) (fun _ => .refl s) fun m hm => by
    rwa [List.length_nil, Nat.zero_add] at hm

/-- **Sequencing.** -/
theorem Spec.bind (hx : Spec A c dst₁ x s)
    (hf : ∀ s', x s = .ok (.ok (), s') → Keeps c s s' → Spec A c dst₂ (f ()) s') :
    Spec A c (dst₁ ++ dst₂) (x >>= f) s := by
  have hno : ¬s.Supplies dst₁.length → ¬s.Supplies (dst₁ ++ dst₂).length := fun hn hyes =>
    hn (hyes.mono (by rw [List.length_append]; omega))
  cases h : x s with
  | error h' =>
    obtain ⟨rfl, hs⟩ := hx.halts h' h
    exact .of_waits (Call.bind_stop h) (hno hs)
  | ok p =>
    obtain ⟨o, s'⟩ := p
    cases o with
    | error e =>
      obtain ⟨hk, hs, he⟩ := hx.fails e s' h
      exact .of_fail (Call.bind_fail h) hk (hno hs) he
    | ok a =>
      obtain ⟨hk, ht, hs⟩ := hx.returns s' h
      exact .of_step (Call.bind_ret h) hk ht hs (hf s' h hk)

/-- A part that leaves all the elements as they were. -/
theorem Spec.weaken (h : Spec A none dst₁ x s) (c : Option (IolPtr n)) : Spec A c dst₁ x s :=
  ⟨h.halts, fun e s' hx => ⟨(h.fails e s' hx).1.weaken c, (h.fails e s' hx).2⟩,
    fun s' hx => ⟨(h.returns s' hx).1.weaken c, (h.returns s' hx).2⟩⟩

/-- A part that returns nothing but what it has been supplied with may return without it. -/
theorem Spec.imp {A' : Prop} (h : Spec A c dst₁ x s) (hA : A' → A) : Spec A' c dst₁ x s :=
  ⟨h.halts, h.fails, fun s' hx => ⟨(h.returns s' hx).1,
    fun ha => (h.returns s' hx).2.1 (ha.imp_left hA), (h.returns s' hx).2.2⟩⟩

theorem Spec.congr (hy : Spec A c dst₁ y s) (h : x s = y s) : Spec A c dst₁ x s :=
  ⟨fun h' hx => hy.halts h' (h ▸ hx), fun e s' hx => hy.fails e s' (h ▸ hx),
    fun s' hx => hy.returns s' (h ▸ hx)⟩

/-! ## System calls -/

variable {ps : List Piece} {niov room : ℕ}

/-- Nothing is to happen now. -/
def Rcv.Quiet (s : Rcv n) : Prop := s.pieces = [] ∨ ∃ e ps, s.pieces = .stop e :: ps

theorem Rcv.Supplies.benign {p : Piece} (h : s.Supplies m) (hp : s.pieces = p :: ps)
    (hm : (unread s.rx).length < m) : p.Benign := by
  obtain ⟨-, good, more, hgood, hben, hle⟩ := h
  cases good with
  | nil =>
    rw [dataOf, List.length_nil] at hle
    omega
  | cons q good =>
    rw [hp] at hgood
    rw [(List.cons.inj hgood).1]
    exact hben q List.mem_cons_self

theorem Rcv.Quiet.not_supplies (h : s.Quiet) (hm : (unread s.rx).length < m) : ¬s.Supplies m := by
  intro hs
  rcases h with h | ⟨e, ps, h⟩
  · obtain ⟨-, good, more, hgood, -, hle⟩ := hs
    rw [h] at hgood
    obtain ⟨rfl, -⟩ := List.append_eq_nil_iff.mp hgood.symm
    rw [dataOf, List.length_nil] at hle
    omega
  · exact hs.benign h hm

theorem Rcv.Supplies.again (hp : s.pieces = .again :: ps) (hs : s.Supplies m) :
    Rcv.Supplies { s with pieces := ps } m := by
  obtain ⟨ha, good, more, hgood, hben, hle⟩ := hs
  cases good with
  | nil => exact ⟨ha, [], ps, rfl, by simp, hle⟩
  | cons q good =>
    rw [hp] at hgood
    obtain ⟨rfl, rfl⟩ := List.cons.inj hgood
    exact ⟨ha, good, more, rfl, fun r hr => hben r (List.mem_cons_of_mem _ hr), hle⟩

/-- The first `k` of the bytes that have arrived are taken. -/
theorem Rcv.Supplies.part (hp : s.pieces = .data bs :: ps) (hu : unread s.rx = [])
    (hk : k ≤ bs.length) (hs : s.Supplies (k + m)) :
    Rcv.Supplies { s with pieces := .data (bs.drop k) :: ps } m := by
  obtain ⟨ha, good, more, hgood, hben, hle⟩ := hs
  rw [hu, List.length_nil, Nat.zero_add] at hle
  cases good with
  | nil =>
    rw [dataOf, List.length_nil] at hle
    refine ⟨ha, [], .data (bs.drop k) :: ps, rfl, by simp, ?_⟩
    omega
  | cons q good =>
    rw [hp] at hgood
    obtain ⟨rfl, rfl⟩ := List.cons.inj hgood
    refine ⟨ha, .data (bs.drop k) :: good, more, rfl, ?_, ?_⟩
    · exact List.forall_mem_cons.mpr ⟨trivial, fun r hr => hben r (List.mem_cons_of_mem _ hr)⟩
    · rw [dataOf, List.length_append] at hle
      rw [dataOf, List.length_append, List.length_drop]
      omega

theorem Rcv.Supplies.data (hp : s.pieces = .data bs :: ps) (hu : unread s.rx = [])
    (hs : s.Supplies (bs.length + m)) : Rcv.Supplies { s with pieces := ps } m := by
  obtain ⟨ha, good, more, hgood, hben, hle⟩ := hs.part hp hu le_rfl
  rw [List.drop_length] at hgood
  cases good with
  | nil => exact ⟨ha, [], ps, rfl, by simp, hle⟩
  | cons q good =>
    obtain ⟨rfl, rfl⟩ := List.cons.inj hgood
    exact ⟨ha, good, more, rfl, fun r hr => hben r (List.mem_cons_of_mem _ hr), hle⟩

/-- How a system call that asks for bytes ends, when the receive buffer has been used up. -/
inductive Received (s : Rcv n) (room : ℕ) : Except Errno (List UInt8) → Rcv n → Prop
  | error {e : Errno} {s' : Rcv n} : Keeps none s s' → s.CanFail e →
      (∀ m, 0 < m → ¬s.Supplies m) → Received s room (.error e) s'
  | quiet : s.Quiet → Received s room (.ok []) s
  | bytes {bs : List UInt8} {s' : Rcv n} : Keeps none s s' → s'.mem = s.mem → bs.length ≤ room →
      dataOf s.pieces = bs ++ dataOf s'.pieces → s'.turns < s.turns →
      (∀ m, s.Supplies (bs.length + m) → s'.Supplies m) → Received s room (.ok bs) s'

theorem sysRecv_received (hiov : niov ≤ s.iovMax) (hroom : 0 < room) (hu : unread s.rx = []) :
    ∃ r s', sysRecv niov room s = .ok (r, s') ∧ Received s room r s' := by
  unfold sysRecv
  rw [if_neg hiov.not_gt, if_neg hroom.ne']
  have hbad : ∀ p ps, s.pieces = p :: ps → ¬p.Benign → ∀ m, 0 < m → ¬s.Supplies m := by
    intro p ps hp hb m hm hs
    exact hb (hs.benign hp (by rw [hu]; exact hm))
  have hkeep : ∀ p ps, s.pieces = p :: ps → Keeps none s { s with pieces := ps } := by
    intro p ps hp
    refine ⟨fun _ _ => rfl, fun _ => rfl, id, rfl, rfl, rfl, fun q hq _ => ?_⟩
    rw [hp]
    exact List.mem_cons_of_mem _ hq
  cases hp : s.pieces with
  | nil => exact ⟨_, _, rfl, .quiet (.inl hp)⟩
  | cons p ps =>
    cases p with
    | stop e => exact ⟨_, _, rfl, .quiet (.inr ⟨e, ps, hp⟩)⟩
    | again =>
      refine ⟨_, _, rfl, .bytes (hkeep _ _ hp) rfl (Nat.zero_le _) (by rw [hp]; rfl) ?_ ?_⟩
      · unfold Rcv.turns
        rw [hp]
        show ps.length + (dataOf ps).length < ps.length + 1 + (dataOf ps).length
        omega
      · intro m hm
        rw [List.length_nil, Nat.zero_add] at hm
        exact hm.again hp
    | eof =>
      exact ⟨_, _, rfl, .error (hkeep _ _ hp) (.inl ⟨rfl, by rw [hp]; exact List.mem_cons_self⟩)
        (hbad _ _ hp id)⟩
    | fail e =>
      exact ⟨_, _, rfl, .error (hkeep _ _ hp)
        (.inr (.inl ⟨e, rfl, by rw [hp]; exact List.mem_cons_self⟩)) (hbad _ _ hp id)⟩
    | data bs =>
      by_cases hle : bs.length ≤ room
      · refine ⟨_, _, if_pos hle, .bytes (hkeep _ _ hp) rfl hle (by rw [hp]; rfl) ?_ ?_⟩
        · unfold Rcv.turns
          rw [hp, dataOf, List.length_cons, List.length_append]
          show ps.length + (dataOf ps).length < _
          omega
        · intro m hm
          exact hm.data hp hu
      · have hlen : (bs.take room).length = room := List.length_take_of_le (by omega)
        refine ⟨_, _, if_neg hle, .bytes ?_ rfl hlen.le ?_ ?_ ?_⟩
        · refine ⟨fun _ _ => rfl, fun _ => rfl, id, rfl, rfl, rfl, fun q hq hb => ?_⟩
          rcases List.mem_cons.mp hq with rfl | hq
          · exact absurd trivial hb
          · rw [hp]
            exact List.mem_cons_of_mem _ hq
        · rw [hp, dataOf, dataOf, ← List.append_assoc, List.take_append_drop]
        · unfold Rcv.turns
          rw [hp]
          simp only [dataOf, List.length_cons, List.length_append, List.length_drop]
          omega
        · intro m hm
          rw [hlen] at hm
          exact hm.part hp hu (by omega)

/-- How `dill_fdin` ends. -/
theorem fdin_cases (s : Rcv n) :
    (s.Quiet ∧ (fdin s = .error .waits ∨
      ∃ e s', fdin s = .ok (.error e, s') ∧ Keeps none s s' ∧ s.CanFail e)) ∨
    (¬s.Quiet ∧ fdin s = .ok (.ok (), s)) := by
  unfold fdin
  cases hp : s.pieces with
  | nil => exact .inl ⟨.inl hp, .inl rfl⟩
  | cons p ps =>
    cases p with
    | stop e =>
      refine .inl ⟨.inr ⟨e, ps, hp⟩, .inr ⟨e, _, rfl,
        ⟨fun _ _ => rfl, fun _ => rfl, id, rfl, rfl, rfl, ?_⟩,
        .inr (.inr (.inl (by rw [hp]; exact List.mem_cons_self)))⟩⟩
      intro q hq _
      rw [hp]
      exact List.mem_cons_of_mem _ hq
    | _ =>
      refine .inr ⟨?_, rfl⟩
      rintro (h | ⟨e, ps', h⟩) <;> rw [hp] at h <;> cases h

/-! ## Without a receive buffer -/

@[simp] theorem length_bufCells (b : Buf) : (Buf.cells b).length = b.2 := by
  unfold Buf.cells
  cases b.1 with
  | none => exact List.length_replicate
  | some base => rw [List.length_map, List.length_range']

@[simp] theorem cells_cons (b : Buf) (iov : List Buf) : cells (b :: iov) = Buf.cells b ++ cells iov :=
  List.flatMap_cons

@[simp] theorem cells_append (iov iov' : List Buf) : cells (iov ++ iov') = cells iov ++ cells iov' :=
  List.flatMap_append

@[simp] theorem length_cells (iov : List Buf) : (cells iov).length = (iov.map Prod.snd).sum := by
  induction iov with
  | nil => rfl
  | cons b iov ih =>
    rw [cells_cons, List.length_append, length_bufCells, ih, List.map_cons, List.sum_cons]

theorem bufCells_drop (b : Buf) (k : ℕ) :
    Buf.cells (b.1.map (· + k), b.2 - k) = (Buf.cells b).drop k := by
  obtain ⟨base, len⟩ := b
  unfold Buf.cells
  cases base with
  | none => exact List.drop_replicate.symm
  | some base =>
    show (List.range' (base + k) (len - k)).map some = ((List.range' base len).map some).drop k
    rw [← List.map_drop, List.drop_range', Nat.mul_one]

theorem bufCells_take {b : Buf} (hk : k ≤ b.2) : Buf.cells (b.1, k) = (Buf.cells b).take k := by
  obtain ⟨base, len⟩ := b
  unfold Buf.cells
  cases base with
  | none =>
    show List.replicate k none = (List.replicate len none).take k
    rw [List.take_replicate, Nat.min_eq_left hk]
  | some base =>
    show (List.range' base k).map some = ((List.range' base len).map some).take k
    rw [← List.map_take, List.take_range'_of_length_ge hk]

/-- What is left of the array are the addresses that are left, and buffers with room. -/
theorem advance_spec (hiov : ∀ b ∈ iov, 0 < b.2) (hk : k ≤ (iov.map Prod.snd).sum) :
    cells (advance iov k) = (cells iov).drop k ∧ (∀ b ∈ advance iov k, 0 < b.2) := by
  induction iov generalizing k with
  | nil => exact ⟨(List.drop_nil).symm, hiov⟩
  | cons b iov ih =>
    obtain ⟨base, len⟩ := b
    obtain ⟨hb, hrest⟩ := List.forall_mem_cons.mp hiov
    rw [List.map_cons, List.sum_cons] at hk
    dsimp only at hb hk
    unfold advance
    split
    · rename_i hzero
      rw [hzero, List.drop_zero]
      exact ⟨rfl, hiov⟩
    · split
      · rename_i hlt
        refine ⟨?_, List.forall_mem_cons.mpr ⟨by dsimp only; omega, hrest⟩⟩
        have hin : k ≤ (Buf.cells (base, len)).length := by
          rw [length_bufCells]
          exact hlt.le
        rw [cells_cons, cells_cons, List.drop_append_of_le_length hin, ← bufCells_drop]
      · rename_i hge
        obtain ⟨hcells, hpos⟩ := ih hrest (show k - len ≤ _ by omega)
        refine ⟨?_, hpos⟩
        have hall : (Buf.cells (base, len)).drop k = [] := by
          apply List.drop_eq_nil_of_le
          rw [length_bufCells]
          exact not_lt.mp hge
        rw [hcells, cells_cons, List.drop_append, length_bufCells, hall, List.nil_append]

/-- The array does not get longer. -/
theorem length_advance (iov : List Buf) (k : ℕ) : (advance iov k).length ≤ iov.length := by
  induction iov generalizing k with
  | nil => exact le_rfl
  | cons b iov ih =>
    obtain ⟨base, len⟩ := b
    unfold advance
    split
    · exact le_rfl
    · split
      · exact le_rfl
      · exact (ih _).trans (Nat.le_succ _)

theorem sum_pos_of_room (hne : iov ≠ []) (hiov : ∀ b ∈ iov, 0 < b.2) :
    0 < (iov.map Prod.snd).sum := by
  obtain ⟨b, iov, rfl⟩ := List.exists_cons_of_ne_nil hne
  have hb := hiov b List.mem_cons_self
  rw [List.map_cons, List.sum_cons]
  omega

theorem advance_eq_nil (hiov : ∀ b ∈ iov, 0 < b.2) (hk : k ≤ (iov.map Prod.snd).sum) :
    advance iov k = [] ↔ k = (iov.map Prod.snd).sum := by
  obtain ⟨hcells, hpos⟩ := advance_spec hiov hk
  have hlen := congrArg List.length hcells
  rw [length_cells, List.length_drop, length_cells] at hlen
  constructor
  · intro hnil
    rw [hnil] at hlen
    exact le_antisymm hk (Nat.sub_eq_zero_iff_le.mp hlen.symm)
  · intro hall
    by_contra hne
    have hroom := sum_pos_of_room hne hpos
    omega

theorem recvLoop_spec (k : ℕ) (s : Rcv n) (hne : iov ≠ []) (hiov : ∀ b ∈ iov, 0 < b.2)
    (hmax : iov.length ≤ s.iovMax) (hu : unread s.rx = []) (hk : s.turns < k) :
    Spec A none (cells iov) (recvLoop k iov) s := by
  induction k generalizing iov s with
  | zero => omega
  | succ k ih =>
    have hroom := sum_pos_of_room hne hiov
    have hlen : (cells iov).length = (iov.map Prod.snd).sum := length_cells iov
    obtain ⟨r, s₁, hrun, hrec⟩ := sysRecv_received (s := s) hmax hroom hu
    have hturn : ∀ {bs : List UInt8} {s₁ : Rcv n},
        sysRecv iov.length (iov.map Prod.snd).sum s = .ok (.ok bs, s₁) →
        recvLoop (k + 1) iov s = (if (advance iov bs.length).isEmpty then pure () else do
          fdin
          recvLoop k (advance iov bs.length)) { s₁ with mem := store s₁.mem (cells iov) bs } := by
      intro bs s₁ hrun
      conv_lhs => unfold recvLoop
      rw [Call.bind_ret hrun, Call.change_bind]
    cases hrec with
    | @error e _ hkeep he hno =>
      unfold recvLoop
      exact .of_fail (Call.bind_fail hrun) hkeep (hno _ (by rw [hlen]; exact hroom)) he
    | quiet hq =>
      have hzero : (advance iov ([] : List UInt8).length).isEmpty = false := by
        rw [List.length_nil, List.isEmpty_eq_false_iff, ne_eq, advance_eq_nil hiov (Nat.zero_le _)]
        exact hroom.ne
      have hno : ¬s.Supplies (cells iov).length :=
        hq.not_supplies (by rw [hu, hlen]; exact hroom)
      have hloop := hturn hrun
      rw [hzero, if_neg Bool.false_ne_true, store_nil] at hloop
      rcases fdin_cases s with ⟨-, hw | ⟨e, s', hf, hkeep, he⟩⟩ | ⟨hn, -⟩
      · exact .of_waits (hloop.trans (Call.bind_stop hw)) hno
      · exact .of_fail (hloop.trans (Call.bind_fail hf)) hkeep hno he
      · exact absurd hq hn
    | @bytes bs s₁ hkeep hmem hle hdata hturns hsup =>
      have hloop := hturn hrun
      obtain ⟨hcells, hpos⟩ := advance_spec hiov hle
      have hu₁ : unread s₁.rx = [] := by rw [hkeep.rx rfl, hu]
      have htake : ((cells iov).take bs.length).length = bs.length := by
        rw [List.length_take, hlen, Nat.min_eq_left hle]
      set s₂ : Rcv n := { s₁ with mem := store s₁.mem (cells iov) bs } with hs₂
      have hkeep₂ : Keeps none s s₂ := ⟨hkeep.iol, hkeep.rx, hkeep.filled, hkeep.buffer, hkeep.alloc,
        hkeep.iovMax, hkeep.pieces⟩
      have htook : Took s s₂ ((cells iov).take bs.length) := by
        refine ⟨bs, htake.symm, ?_, ?_⟩
        · show unread s.rx ++ dataOf s.pieces = bs ++ (unread s₁.rx ++ dataOf s₁.pieces)
          rw [hu, hu₁, hdata]
          rfl
        · rw [store_take, ← hmem]
      have hsup₂ : ∀ m, s.Supplies (((cells iov).take bs.length).length + m) → s₂.Supplies m := by
        intro m hm
        rw [htake] at hm
        exact hsup m hm
      have hsplit : cells iov = (cells iov).take bs.length ++ cells (advance iov bs.length) := by
        rw [hcells, List.take_append_drop]
      rw [hsplit]
      cases hadv : advance iov bs.length with
      | nil =>
        rw [hadv] at hloop
        exact .of_step (hloop.trans rfl) hkeep₂ (fun _ => htook) hsup₂ (spec_pure A none s₂)
      | cons b iov' =>
        rw [← hadv]
        refine .of_step (y := fdin >>= fun _ => recvLoop k (advance iov bs.length)) ?_ hkeep₂
          (fun _ => htook) hsup₂ ?_
        · rw [hloop, hadv]
          rfl
        · have hne' : advance iov bs.length ≠ [] := by rw [hadv]; exact List.cons_ne_nil _ _
          have hlen' := length_cells (advance iov bs.length)
          have hroom' := sum_pos_of_room hne' hpos
          rcases fdin_cases s₂ with ⟨hq, hw⟩ | ⟨-, hf⟩
          · have hno : ¬s₂.Supplies (cells (advance iov bs.length)).length :=
              hq.not_supplies (by rw [show s₂.rx = s₁.rx from rfl, hu₁, hlen']; exact hroom')
            rcases hw with hw | ⟨e, s', hf, hkeep', he⟩
            · exact .of_waits (Call.bind_stop hw) hno
            · exact .of_fail (Call.bind_fail hf) hkeep' hno he
          · have hmax' : (advance iov bs.length).length ≤ s₂.iovMax := by
              rw [hkeep₂.iovMax]
              exact (length_advance iov bs.length).trans hmax
            exact (ih s₂ hne' hpos hmax' hu₁ (show s₁.turns < k by omega)).congr (Call.bind_ret hf)

theorem recvIov_spec (s : Rcv n) (hne : iov ≠ []) (hiov : ∀ b ∈ iov, 0 < b.2)
    (hmax : iov.length ≤ s.iovMax) (hu : unread s.rx = []) :
    Spec A none (cells iov) (recvIov iov) s :=
  (recvLoop_spec (s.turns + 1) s hne hiov hmax hu (Nat.lt_succ_self _)).congr rfl

/-- The kernel refuses an array with too many buffers. -/
theorem recvIov_crowded (hmax : s.iovMax < iov.length) :
    recvIov iov s = .ok (.error .EMSGSIZE, s) := by
  unfold recvIov recvLoop
  exact Call.bind_fail (if_pos hmax)

/-- A receive that has succeeded has used up some of the data. -/
theorem recvIov_data (hne : iov ≠ []) (hiov : ∀ b ∈ iov, 0 < b.2)
    (hmax : iov.length ≤ s.iovMax) (hu : unread s.rx = [])
    (h : recvIov iov s = .ok (.ok (), s')) : (dataOf s'.pieces).length < (dataOf s.pieces).length := by
  obtain ⟨hkeep, htook, -⟩ := (recvIov_spec (A := True) s hne hiov hmax hu).returns s' h
  obtain ⟨bs, hbs, hstream, -⟩ := htook (.inl trivial)
  have hroom := sum_pos_of_room hne hiov
  have hlen := congrArg List.length hstream
  rw [length_cells] at hbs
  unfold Rcv.stream at hlen
  rw [hkeep.rx rfl, hu] at hlen
  simp only [List.nil_append, List.length_append] at hlen
  omega

theorem toRecv_pos {len : ℤ} (hlen : len ≠ 0) : 0 < toRecv len := by
  unfold toRecv
  split <;> omega

theorem toRecv_le {len : ℤ} (hlen : 0 ≤ len) : (toRecv len : ℤ) ≤ len := by
  unfold toRecv
  split <;> omega

/-- One turn of `dill_fd_skip`. -/
theorem skip_turn {len : ℤ} (hlen : len ≠ 0) (hu : unread s.rx = []) :
    Spec A none (List.replicate (toRecv len) none) (recvIov [(none, toRecv len)]) s ∧
      ∀ s', recvIov [(none, toRecv len)] s = .ok (.ok (), s') →
        (dataOf s'.pieces).length < (dataOf s.pieces).length := by
  have hroom : ∀ b ∈ ([(none, toRecv len)] : List Buf), 0 < b.2 := by
    intro b hb
    rw [List.mem_singleton.mp hb]
    exact toRecv_pos hlen
  have hcells : cells [(none, toRecv len)] = List.replicate (toRecv len) none := List.append_nil _
  have hone : ([(none, toRecv len)] : List Buf).length ≤ s.iovMax := s.iovMax.pos
  rw [← hcells]
  exact ⟨recvIov_spec s (List.cons_ne_nil _ _) hroom hone hu,
    fun s' hs' => recvIov_data (List.cons_ne_nil _ _) hroom hone hu hs'⟩

theorem skipLoop_spec (k : ℕ) {len : ℤ} (hlen : 0 ≤ len) (hu : unread s.rx = [])
    (hk : (dataOf s.pieces).length < k) :
    Spec A none (List.replicate len.toNat none) (skipLoop k len) s := by
  induction k generalizing len s with
  | zero => omega
  | succ k ih =>
    unfold skipLoop
    by_cases hzero : len = 0
    · rw [if_pos hzero, hzero]
      exact spec_pure A none s
    · rw [if_neg hzero, if_pos hlen]
      obtain ⟨hturn, hless⟩ := skip_turn (A := A) (s := s) hzero hu
      have hle := toRecv_le hlen
      have hsplit : List.replicate len.toNat (none : Option ℕ) =
          List.replicate (toRecv len) none ++ List.replicate (len - toRecv len).toNat none := by
        rw [List.replicate_append_replicate]
        congr 1
        omega
      rw [hsplit]
      refine hturn.bind fun s' hs' hkeep => ?_
      have hdata := hless s' hs'
      exact ih (by omega) (by rw [hkeep.rx rfl, hu]) (by omega)

theorem fdSkip_spec {len : ℤ} (hlen : 0 ≤ len) (hu : unread s.rx = []) :
    Spec A none (List.replicate len.toNat none) (fdSkip len) s :=
  (skipLoop_spec _ hlen hu (Nat.lt_succ_self _)).congr rfl

/-- A skip over a negative number of bytes ends with an error, if it ends. -/
theorem skipLoop_neg (k : ℕ) {len : ℤ} (hlen : len < 0) (hu : unread s.rx = [])
    (hk : (dataOf s.pieces).length < k) :
    skipLoop k len s = .error .waits ∨
      ∃ e s', skipLoop k len s = .ok (.error e, s') ∧ Keeps none s s' ∧ s.CanFail e := by
  induction k generalizing s with
  | zero => omega
  | succ k ih =>
    unfold skipLoop
    rw [if_neg hlen.ne, if_neg (not_le.mpr hlen)]
    obtain ⟨hspec, hless⟩ := skip_turn (A := True) (s := s) hlen.ne hu
    cases hrun : recvIov [(none, toRecv len)] s with
    | error h =>
      rw [(hspec.halts h hrun).1] at hrun
      exact .inl (Call.bind_stop hrun)
    | ok p =>
      obtain ⟨o, s'⟩ := p
      cases o with
      | error e =>
        obtain ⟨hkeep, -, he⟩ := hspec.fails e s' hrun
        exact .inr ⟨e, s', Call.bind_fail hrun, hkeep, he⟩
      | ok a =>
        have hkeep := (hspec.returns s' hrun).1
        have hdata := hless s' hrun
        rw [Call.bind_ret hrun]
        rcases ih (s := s') (by rw [hkeep.rx rfl, hu]) (by omega) with hw | ⟨e, s'', hf, hk', he⟩
        · exact .inl hw
        · exact .inr ⟨e, s'', hf, hkeep.trans hk', hkeep.canFail he⟩

theorem fdSkip_neg {len : ℤ} (hlen : len < 0) (hu : unread s.rx = []) :
    fdSkip len s = .error .waits ∨
      ∃ e s', fdSkip len s = .ok (.error e, s') ∧ Keeps none s s' ∧ s.CanFail e :=
  skipLoop_neg _ hlen hu (Nat.lt_succ_self _)

/-- A part whose failure nobody notices. -/
theorem Spec.ignored (h : Spec A none dst₁ x s) : Spec False none dst₁ (ignore x) s where
  halts h' hx := by
    unfold ignore at hx
    cases hrun : x s with
    | error h'' =>
      rw [hrun] at hx
      cases hx
      exact h.halts _ hrun
    | ok p =>
      rw [hrun] at hx
      cases hx
  fails e s' hx := by
    unfold ignore at hx
    cases hrun : x s with
    | error h'' =>
      rw [hrun] at hx
      cases hx
    | ok p =>
      rw [hrun] at hx
      cases hx
  returns s' hx := by
    unfold ignore at hx
    cases hrun : x s with
    | error h'' =>
      rw [hrun] at hx
      cases hx
    | ok p =>
      obtain ⟨o, s₁⟩ := p
      rw [hrun] at hx
      cases hx
      cases o with
      | error e =>
        obtain ⟨hk, hno, -⟩ := h.fails e _ hrun
        refine ⟨hk, ?_, fun m hm => absurd (hm.mono (Nat.le_add_right _ _)) hno⟩
        rintro (hf | hyes)
        · exact hf.elim
        · exact absurd hyes hno
      | ok a =>
        obtain ⟨hk, ht, hs⟩ := h.returns _ hrun
        exact ⟨hk, fun hf => ht (hf.elim False.elim .inr), hs⟩

end Libdill.Fd.Scatter
