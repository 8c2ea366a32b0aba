import Libdill.Fd.ScatterRecv

/-!
# Slices of iolists

`dill_ioltrim` and `dill_iolto` of `iol.c` over elements in memory. The loops are bounded by a
number of turns, which is enough for every list that ends.

A list is seen as the sequence of the positions of its bytes: `dill_ioltrim` takes positions off
its front, and `dill_iolto` writes to the first of them.

* `slices`: what the two do, and that they fit together.
-/

namespace Libdill.Fd.Slices

open Foundations Libdill.Sock Scatter

variable {n : ℕ}

/-- The loop of `dill_ioltrim`: the element with the first byte that is left and how many bytes of
it are not, or `-1`. -/
def trimLoop (iol : IolMem n) : ℕ → IolPtr n → ℕ → Except Halt (Option (IolPtr n × ℕ))
  | 0, _, _ => .error .endless
  | turns + 1, first, m =>
    if m = 0 then .ok (some (first, 0))
    else if first = 0 then .ok none
    else if (iol first).iolLen ≥ m then .ok (some (first, m))
    else trimLoop iol turns (iol first).iolNext (m - (iol first).iolLen)

/-- What `dill_ioltrim` stores at `result`. -/
def restOf (first : IolElem n) (m : ℕ) : IolElem n :=
  ⟨if first.iolBase ≠ 0 then first.iolBase + m else 0, first.iolLen - m, first.iolNext, 0⟩

/-- `dill_ioltrim`: its result, and the elements afterwards. -/
def ioltrim (first : IolPtr n) (m : ℕ) (result : IolPtr n) (iol : IolMem n) :
    Except Halt (ℤ × IolMem n) := do
  match ← trimLoop iol (n + 1) first m with
  | none => .ok (-1, iol)
  | some (first, m) =>
    if first = 0 ∨ result = 0 then .error .fault
    else .ok (0, Function.update iol result (restOf (iol first) m))

/-- `if(base) memcpy(base, bs, …)`. -/
def copyTo (mem : ℕ → UInt8) (base : ℕ) (bs : List UInt8) : ℕ → UInt8 :=
  if base ≠ 0 then store mem ((List.range' base bs.length).map some) bs else mem

/-- The loop of `dill_iolto`: its result, and the memory afterwards. -/
def toLoop (iol : IolMem n) : ℕ → List UInt8 → IolPtr n → (ℕ → UInt8) →
    Except Halt (ℤ × (ℕ → UInt8))
  | 0, _, _, _ => .error .endless
  | turns + 1, src, first, mem =>
    if src.length = 0 then .ok (0, mem)
    else if first = 0 then .ok (-1, mem)
    else if (iol first).iolLen ≥ src.length then .ok (0, copyTo mem (iol first).iolBase src)
    else toLoop iol turns (src.drop (iol first).iolLen) (iol first).iolNext
      (copyTo mem (iol first).iolBase (src.take (iol first).iolLen))

/-- `dill_iolto`. -/
def iolto (src : List UInt8) (first : IolPtr n) (iol : IolMem n) (mem : ℕ → UInt8) :
    Except Halt (ℤ × (ℕ → UInt8)) :=
  toLoop iol (n + 1) src first mem

/-! ## Positions -/

/-- The elements `els` are a list that starts at `first`. -/
def Listed (iol : IolMem n) (first : IolPtr n) (els : List (IolPtr n)) : Prop :=
  Chain iol.next first els 0 ∧ 0 ∉ els

/-- The positions of the bytes of a list. Those of a null buffer are nowhere. -/
def positions (iol : IolMem n) (els : List (IolPtr n)) : List (Option ℕ) := cells (bufs iol els)

/-- **What `dill_ioltrim` has to do**: without the first `m` positions, the list starts at
`result`. -/
structure Trimmed (iol : IolMem n) (els : List (IolPtr n)) (m : ℕ) (result : IolPtr n) (rc : ℤ)
    (iol' : IolMem n) : Prop where
  short : rc = -1 ↔ (positions iol els).length < m
  rest : rc ≠ -1 → rc = 0 ∧ ∃ els', Listed iol' result els' ∧
    positions iol' els' = (positions iol els).drop m
  kept : ∀ it, it ≠ result ∨ rc = -1 → iol' it = iol it

/-- **What `dill_iolto` has to do**: as many bytes as there are positions for are written to the
first of them, in their order, and nothing else is. -/
structure Written (dst : List (Option ℕ)) (src : List UInt8) (mem : ℕ → UInt8) (rc : ℤ)
    (mem' : ℕ → UInt8) : Prop where
  short : rc = -1 ↔ dst.length < src.length
  fits : rc ≠ -1 → rc = 0
  bytes : mem' = store mem (dst.take (min src.length dst.length))
    (src.take (min src.length dst.length))
  kept : ∀ a, some a ∉ dst.take (min src.length dst.length) → mem' a = mem a

/-- No address is among the positions twice. -/
def Apart (dst : List (Option ℕ)) : Prop := dst.Pairwise fun c c' => c = none ∨ c ≠ c'

instance (dst : List (Option ℕ)) : Decidable (Apart dst) :=
  inferInstanceAs (Decidable (dst.Pairwise _))

variable {iol iol' : IolMem n} {first it result : IolPtr n} {els els' : List (IolPtr n)} {m : ℕ}
  {src : List UInt8} {mem : ℕ → UInt8} {dst dst' : List (Option ℕ)}

@[simp] theorem positions_nil (iol : IolMem n) : positions iol [] = [] := rfl

@[simp] theorem positions_cons (iol : IolMem n) (it : IolPtr n) (els : List (IolPtr n)) :
    positions iol (it :: els) = Buf.cells (IolElem.buf (iol it)) ++ positions iol els := by
  simp [positions, bufs_cons]

theorem Listed.tail (h : Listed iol first (it :: els)) :
    it = first ∧ first ≠ 0 ∧ Listed iol (iol first).iolNext els := by
  obtain ⟨⟨rfl, hch⟩, h0⟩ := h
  obtain ⟨hfirst, h0⟩ := not_or.mp (fun h => h0 (List.mem_cons.mpr h))
  exact ⟨rfl, Ne.symm hfirst, hch, h0⟩

theorem Listed.turns (h : Listed iol first els) : els.length < n + 1 :=
  Nat.lt_succ_of_le (length_le_of_nodup (h.1.nodup h.2) h.2)

theorem positions_update (hr : result ∉ els) (e : IolElem n) :
    positions (Function.update iol result e) els = positions iol els := by
  have hall := congrArg cells (@bufs_update n result els iol hr e)
  rw [bufs_cons, cells_cons, cells_cons, Function.update_self] at hall
  exact List.append_cancel_left hall

/-! ## Trimming -/

/-- The element the cut is in, with the elements behind it. -/
theorem trimLoop_found (hl : Listed iol first els) (hm : 0 < m)
    (hlen : m ≤ (positions iol els).length) {turns : ℕ} (hturns : els.length < turns) :
    ∃ it post r, trimLoop iol turns first m = .ok (some (it, r)) ∧ Listed iol it (it :: post) ∧
      (∀ x ∈ post, x ∈ els) ∧ r ≤ (iol it).iolLen ∧ (positions iol els).drop m =
        (Buf.cells (IolElem.buf (iol it))).drop r ++ positions iol post := by
  induction els generalizing first m turns with
  | nil => exact absurd hlen (by simp; omega)
  | cons x els ih =>
    obtain ⟨turns, rfl⟩ := Nat.exists_eq_add_one_of_ne_zero (Nat.ne_zero_of_lt hturns)
    obtain ⟨rfl, hx, hrest⟩ := hl.tail
    have hbuf : (Buf.cells (IolElem.buf (iol x))).length = (iol x).iolLen := length_bufCells _
    unfold trimLoop
    rw [if_neg (Nat.ne_of_gt hm), if_neg hx, positions_cons]
    by_cases hin : (iol x).iolLen ≥ m
    · refine ⟨x, els, m, by rw [if_pos hin], hl, fun y hy => List.mem_cons_of_mem _ hy, hin, ?_⟩
      rw [List.drop_append_of_le_length (by rwa [hbuf])]
    · rw [if_neg hin]
      have hmore : m - (iol x).iolLen ≤ (positions iol els).length := by
        rw [positions_cons, List.length_append, hbuf] at hlen
        omega
      obtain ⟨it, post, r, hrun, hpost, hmem, hr, hdrop⟩ :=
        ih hrest (by omega) hmore (Nat.lt_of_succ_lt_succ hturns)
      refine ⟨it, post, r, hrun, hpost, fun y hy => List.mem_cons_of_mem _ (hmem y hy), hr, ?_⟩
      rw [← hdrop, List.drop_append, hbuf, List.drop_eq_nil_of_le (by rw [hbuf]; omega)]
      rfl

theorem trimLoop_short (hl : Listed iol first els) (hlen : (positions iol els).length < m)
    {turns : ℕ} (hturns : els.length < turns) : trimLoop iol turns first m = .ok none := by
  induction els generalizing first m turns with
  | nil =>
    obtain ⟨turns, rfl⟩ := Nat.exists_eq_add_one_of_ne_zero (Nat.ne_zero_of_lt hturns)
    obtain rfl : first = 0 := hl.1
    have hm : m ≠ 0 := Nat.ne_zero_of_lt hlen
    simp [trimLoop, hm]
  | cons x els ih =>
    obtain ⟨turns, rfl⟩ := Nat.exists_eq_add_one_of_ne_zero (Nat.ne_zero_of_lt hturns)
    obtain ⟨rfl, hx, hrest⟩ := hl.tail
    have hbuf : (Buf.cells (IolElem.buf (iol x))).length = (iol x).iolLen := length_bufCells _
    rw [positions_cons, List.length_append, hbuf] at hlen
    unfold trimLoop
    rw [if_neg (by omega), if_neg hx, if_neg (by omega)]
    exact ih hrest (by omega) (Nat.lt_of_succ_lt_succ hturns)

/-- The new element has the positions of the old one that are left. -/
theorem bufCells_restOf (e : IolElem n) (r : ℕ) :
    Buf.cells (IolElem.buf (restOf e r)) = (Buf.cells (IolElem.buf e)).drop r := by
  rw [← bufCells_drop]
  congr 1
  by_cases hbase : e.iolBase = 0
  · simp [IolElem.buf, restOf, hbase]
  · simp [IolElem.buf, restOf, hbase]

theorem ioltrim_spec (hl : Listed iol first els) (hm : 0 < m) (h0 : result ≠ 0)
    (hr : result ∉ els) :
    ∃ rc iol', ioltrim first m result iol = .ok (rc, iol') ∧ Trimmed iol els m result rc iol' := by
  by_cases hlen : m ≤ (positions iol els).length
  · obtain ⟨it, post, r, hrun, hpost, hmem, hle, hdrop⟩ := trimLoop_found hl hm hlen hl.turns
    obtain ⟨-, hit, htail⟩ := hpost.tail
    have hrpost : result ∉ post := fun h => hr (hmem _ h)
    refine ⟨0, Function.update iol result (restOf (iol it) r), ?_,
      ⟨?_, fun _ => ⟨rfl, result :: post, ?_, ?_⟩, fun x hx => ?_⟩⟩
    · unfold ioltrim
      rw [hrun]
      exact if_neg (not_or.mpr ⟨hit, h0⟩)
    · exact iff_of_false (by decide) (not_lt.mpr hlen)
    · refine ⟨⟨rfl, ?_⟩, List.not_mem_cons_of_ne_of_not_mem (Ne.symm h0) htail.2⟩
      rw [next_update]
      exact chain_update htail.1 hrpost _
    · rw [positions_cons, positions_update hrpost, Function.update_self, bufCells_restOf, hdrop]
    · exact Function.update_of_ne (hx.resolve_right (by decide)) _ _
  · have hshort := not_le.mp hlen
    refine ⟨-1, iol, ?_, ⟨iff_of_true rfl hshort, fun h => absurd rfl h, fun _ _ => rfl⟩⟩
    unfold ioltrim
    rw [trimLoop_short hl hshort hl.turns]
    rfl

/-! ## Writing -/

theorem copyTo_eq (mem : ℕ → UInt8) (e : IolElem n) (hlen : src.length ≤ e.iolLen) :
    copyTo mem e.iolBase src = store mem (Buf.cells (IolElem.buf e)) src := by
  unfold copyTo IolElem.buf
  by_cases hbase : e.iolBase = 0
  · rw [if_neg (not_not.mpr hbase), if_pos hbase]
    exact (store_none mem e.iolLen src).symm
  · rw [if_pos hbase, if_neg hbase, ← store_take mem (Buf.cells _), ← bufCells_take hlen]
    rfl

theorem toLoop_eq (hl : Listed iol first els) (src : List UInt8) (mem : ℕ → UInt8) {turns : ℕ}
    (hturns : els.length < turns) : toLoop iol turns src first mem =
      .ok (if (positions iol els).length < src.length then -1 else 0,
        store mem (positions iol els) src) := by
  induction els generalizing first src mem turns with
  | nil =>
    obtain ⟨turns, rfl⟩ := Nat.exists_eq_add_one_of_ne_zero (Nat.ne_zero_of_lt hturns)
    obtain rfl : first = 0 := hl.1
    cases src with
    | nil => simp [toLoop]
    | cons b src => simp [toLoop, store]
  | cons x els ih =>
    obtain ⟨turns, rfl⟩ := Nat.exists_eq_add_one_of_ne_zero (Nat.ne_zero_of_lt hturns)
    obtain ⟨rfl, hx, hrest⟩ := hl.tail
    have hbuf : (Buf.cells (IolElem.buf (iol x))).length = (iol x).iolLen := length_bufCells _
    unfold toLoop
    rw [if_neg hx, positions_cons, List.length_append, hbuf]
    by_cases hempty : src.length = 0
    · obtain rfl := List.length_eq_zero_iff.mp hempty
      simp
    · rw [if_neg hempty, store_drop, hbuf]
      by_cases hin : (iol x).iolLen ≥ src.length
      · rw [if_pos hin, if_neg (by omega), List.drop_eq_nil_of_le hin, store_nil,
          copyTo_eq mem (iol x) hin]
      · have htake : (src.take (iol x).iolLen).length ≤ (iol x).iolLen :=
          List.length_take_le _ _
        rw [if_neg hin, ih hrest _ _ (Nat.lt_of_succ_lt_succ hturns), copyTo_eq mem (iol x) htake,
          List.length_drop, ← store_bytes mem _ src, hbuf]
        congr 2
        simp only [Nat.lt_sub_iff_add_lt, Nat.add_comm]

theorem iolto_eq (hl : Listed iol first els) (src : List UInt8) (mem : ℕ → UInt8) :
    iolto src first iol mem =
      .ok (if (positions iol els).length < src.length then -1 else 0,
        store mem (positions iol els) src) :=
  toLoop_eq hl src mem hl.turns

/-- Of the addresses and of the bytes only as many matter as there are of both. -/
theorem store_min (mem : ℕ → UInt8) (dst : List (Option ℕ)) (src : List UInt8) :
    store mem (dst.take (min src.length dst.length)) (src.take (min src.length dst.length)) =
      store mem dst src := by
  rcases le_total src.length dst.length with hle | hle
  · rw [Nat.min_eq_left hle, List.take_length, store_take]
  · rw [Nat.min_eq_right hle, List.take_length, store_bytes]

theorem written_store (dst : List (Option ℕ)) (src : List UInt8) (mem : ℕ → UInt8) :
    Written dst src mem (if dst.length < src.length then -1 else 0) (store mem dst src) := by
  refine ⟨?_, fun h => ?_, (store_min mem dst src).symm, fun a ha => ?_⟩
  · split <;> simp_all
  · exact if_neg fun hlt => h (if_pos hlt)
  · rw [← store_min, store_other mem ha]

/-! ## The two together -/

/-- A byte that is stored elsewhere can be stored before. -/
theorem store_update {a : ℕ} (ha : some a ∉ dst) (b : UInt8) (mem : ℕ → UInt8)
    (src : List UInt8) : store (Function.update mem a b) dst src =
      Function.update (store mem dst src) a b := by
  induction dst generalizing mem src with
  | nil => cases src <;> rfl
  | cons c dst ih =>
    obtain ⟨hc, hdst⟩ := not_or.mp (fun h => ha (List.mem_cons.mpr h))
    cases src with
    | nil => simp
    | cons b' src =>
      cases c with
      | none => exact ih hdst mem src
      | some c =>
        have hne : a ≠ c := fun h => hc (congrArg some h)
        show store (Function.update (Function.update mem a b) c b') dst src = _
        rw [Function.update_comm hne]
        exact ih hdst _ src

/-- Bytes at different addresses can be stored in any order. -/
theorem store_comm (hdis : ∀ a, some a ∈ dst → some a ∉ dst') (src src' : List UInt8)
    (mem : ℕ → UInt8) :
    store (store mem dst' src') dst src = store (store mem dst src) dst' src' := by
  induction dst generalizing src mem with
  | nil => cases src <;> rfl
  | cons c dst ih =>
    have hdis' : ∀ a, some a ∈ dst → some a ∉ dst' := fun a ha => hdis a (List.mem_cons_of_mem _ ha)
    cases src with
    | nil => simp
    | cons b src =>
      cases c with
      | none => exact ih hdis' src mem
      | some c =>
        show store (Function.update (store mem dst' src') c b) dst src = _
        rw [← store_update (hdis c List.mem_cons_self), ih hdis']
        rfl

/-- The first bytes go to the first addresses. -/
theorem store_front (hm : m ≤ dst.length) (src : List UInt8) (mem : ℕ → UInt8) :
    store mem dst (src.take m) = store mem (dst.take m) src := by
  have hcut := store_drop mem (dst.take m) (dst.drop m) (src.take m)
  have hbytes := store_bytes mem (dst.take m) src
  rw [List.length_take_of_le hm] at hcut hbytes
  rw [List.take_append_drop, List.drop_take_self, store_nil] at hcut
  exact hcut.trans hbytes

/-- The addresses before the cut and those behind it are all of them. -/
theorem store_split (hm : m ≤ dst.length) (src : List UInt8) (mem : ℕ → UInt8) :
    store (store mem dst (src.take m)) (dst.drop m) (src.drop m) = store mem dst src := by
  have hall := store_drop mem (dst.take m) (dst.drop m) src
  rw [List.take_append_drop, List.length_take_of_le hm] at hall
  rw [store_front hm, hall]

/-- The two parts can be stored in any order if no address is there twice. -/
theorem store_split_comm (hm : m ≤ dst.length) (hdst : Apart dst) (src : List UInt8)
    (mem : ℕ → UInt8) :
    store (store mem (dst.drop m) (src.drop m)) dst (src.take m) = store mem dst src := by
  have hdis : ∀ a, some a ∈ dst.take m → some a ∉ dst.drop m := by
    intro a ha ha'
    rw [← List.take_append_drop m dst] at hdst
    have happ := (List.pairwise_append.mp hdst).2.2 _ ha _ ha'
    simp at happ
  rw [store_front hm, store_comm hdis, ← store_front hm, store_split hm]

/-- A list that has been cut: it is as it was, and the rest of it starts at `result`. -/
theorem ioltrim_ok (hl : Listed iol first els) (hm : 0 < m) (h0 : result ≠ 0) (hr : result ∉ els)
    (hrun : ioltrim first m result iol = .ok (0, iol')) :
    m ≤ (positions iol els).length ∧ Listed iol' first els ∧
      positions iol' els = positions iol els ∧
      ∃ els', Listed iol' result els' ∧ positions iol' els' = (positions iol els).drop m := by
  obtain ⟨rc, iol₁, hrun₁, hshort, hrest, hkept⟩ := ioltrim_spec hl hm h0 hr
  rw [hrun] at hrun₁
  cases hrun₁
  have hsame : ∀ x ∈ els, iol' x = iol x := fun x hx => hkept x (.inl fun h => hr (h ▸ hx))
  refine ⟨not_lt.mp fun hlt => absurd (hshort.mpr hlt) (by decide), ⟨?_, hl.2⟩, ?_,
    (hrest (by decide)).2⟩
  · exact hl.1.congr fun x hx => congrArg IolElem.iolNext (hsame x hx)
  · unfold positions bufs
    rw [List.map_congr_left fun x hx => congrArg IolElem.buf (hsame x hx)]

/-- What one call writes, two calls write when the list is cut between them. -/
theorem iolto_cut (hl : Listed iol first els) (hm : 0 < m) (h0 : result ≠ 0) (hr : result ∉ els)
    (hrun : ioltrim first m result iol = .ok (0, iol')) (src : List UInt8) (mem : ℕ → UInt8) :
    ∃ mem₁, iolto (src.take m) first iol' mem = .ok (0, mem₁) ∧
      iolto (src.drop m) result iol' mem₁ = iolto src first iol mem := by
  obtain ⟨hlen, hl', hpos, els', hrest, hdrop⟩ := ioltrim_ok hl hm h0 hr hrun
  refine ⟨store mem (positions iol els) (src.take m), ?_, ?_⟩
  · have hfits : (src.take m).length ≤ (positions iol els).length :=
      (List.length_take_le _ _).trans hlen
    rw [iolto_eq hl', hpos, if_neg (not_lt.mpr hfits)]
  · have hshort : (positions iol els).length - m < src.length - m ↔
        (positions iol els).length < src.length := by omega
    rw [iolto_eq hrest, iolto_eq hl, hdrop, store_split hlen, List.length_drop, List.length_drop]
    simp only [hshort]

/-- They do so in the other order, too, when no address is there twice. -/
theorem iolto_cut_comm (hl : Listed iol first els) (hm : 0 < m) (h0 : result ≠ 0)
    (hr : result ∉ els) (hapart : Apart (positions iol els))
    (hrun : ioltrim first m result iol = .ok (0, iol')) (src : List UInt8) (mem : ℕ → UInt8) :
    ∃ rc mem₁ mem₂, iolto (src.drop m) result iol' mem = .ok (rc, mem₁) ∧
      iolto (src.take m) first iol' mem₁ = .ok (0, mem₂) ∧
      iolto src first iol mem = .ok (rc, mem₂) := by
  obtain ⟨hlen, hl', hpos, els', hrest, hdrop⟩ := ioltrim_ok hl hm h0 hr hrun
  have hfits : (src.take m).length ≤ (positions iol els).length :=
    (List.length_take_le _ _).trans hlen
  have hshort : (positions iol els).length - m < src.length - m ↔
      (positions iol els).length < src.length := by omega
  refine ⟨_, _, store mem (positions iol els) src, iolto_eq hrest _ mem, ?_, ?_⟩
  · rw [iolto_eq hl', hpos, hdrop, if_neg (not_lt.mpr hfits), store_split_comm hlen hapart]
  · rw [iolto_eq hl, hdrop, List.length_drop, List.length_drop]
    simp only [hshort]

/-- **The laws of slices**, for every list that ends. `dill_ioltrim` takes positions off its front,
and fails exactly when there are not enough of them. `dill_iolto` writes to the first positions, and
fails exactly when there are too few. A front that is written with `dill_iolto` and a rest that is
written through the list that has been cut are the whole. -/
theorem slices (hl : Listed iol first els) :
    (∀ m result, 0 < m → result ≠ 0 → result ∉ els → ∃ rc iol',
      ioltrim first m result iol = .ok (rc, iol') ∧ Trimmed iol els m result rc iol') ∧
    (∀ src mem, ∃ rc mem', iolto src first iol mem = .ok (rc, mem') ∧
      Written (positions iol els) src mem rc mem') ∧
    (∀ m result iol', 0 < m → result ≠ 0 → result ∉ els →
      ioltrim first m result iol = .ok (0, iol') → ∀ src mem,
      (∃ mem₁, iolto (src.take m) first iol' mem = .ok (0, mem₁) ∧
        iolto (src.drop m) result iol' mem₁ = iolto src first iol mem) ∧
      (Apart (positions iol els) → ∃ rc mem₁ mem₂,
        iolto (src.drop m) result iol' mem = .ok (rc, mem₁) ∧
        iolto (src.take m) first iol' mem₁ = .ok (0, mem₂) ∧
        iolto src first iol mem = .ok (rc, mem₂))) := by
  refine ⟨fun m result hm h0 hr => ioltrim_spec hl hm h0 hr, fun src mem => ?_, ?_⟩
  · exact ⟨_, _, iolto_eq hl src mem, written_store _ src mem⟩
  · intro m result iol' hm h0 hr hrun src mem
    exact ⟨iolto_cut hl hm h0 hr hrun src mem,
      fun hapart => iolto_cut_comm hl hm h0 hr hapart hrun src mem⟩

/-- Two bytes at 10, nothing, two bytes that are discarded, and two bytes at 20; the fifth element
is free. -/
def fourBuffers : IolMem 5 := fun it =>
  if it = 1 then ⟨10, 2, 2, 0⟩ else if it = 2 then ⟨15, 0, 3, 0⟩
  else if it = 3 then ⟨0, 2, 4, 0⟩ else ⟨20, 2, 0, 0⟩

/-- The list without its first three bytes starts at the fifth element. -/
def threeLess : IolMem 5 := Function.update fourBuffers 5 (restOf (fourBuffers 3) 1)

theorem slices_fourBuffers :
    Trimmed fourBuffers [1, 2, 3, 4] 3 5 0 threeLess ∧
    (∀ src mem, ∃ rc mem', iolto src 1 fourBuffers mem = .ok (rc, mem') ∧
      Written [some 10, some 11, none, none, some 20, some 21] src mem rc mem') ∧
    ∀ src mem, ∃ rc mem₁ mem₂, iolto (src.drop 3) 5 threeLess mem = .ok (rc, mem₁) ∧
      iolto (src.take 3) 1 threeLess mem₁ = .ok (0, mem₂) ∧
      iolto src 1 fourBuffers mem = .ok (rc, mem₂) := by
  obtain ⟨htrim, hto, hcut⟩ := @slices 5 fourBuffers 1 [1, 2, 3, 4]
    ⟨⟨rfl, rfl, rfl, rfl, rfl⟩, by decide⟩
  obtain ⟨rc, iol', hrun, hspec⟩ := htrim 3 5 (by decide) (by decide) (by decide)
  have hthree : ioltrim 1 3 5 fourBuffers = .ok (0, threeLess) := rfl
  rw [hthree] at hrun
  cases hrun
  refine ⟨hspec, hto, fun src mem => ?_⟩
  exact (hcut 3 5 threeLess (by decide) (by decide) (by decide) hthree src mem).2 (by decide)

end Libdill.Fd.Slices
