import Libdill.Term.Model
import Mathlib.Data.List.Forall2

/-!
# What a TERM receive does to an iolist

A terminator that is not empty is received into a buffer of its own, which the message is received
into as well, followed by the iolist without as many bytes; then the buffer is copied to the front of
the iolist, whatever the length of the message.

* `fill_paste`: the two copies together fill the iolist from the front.
* `fill_alike`: when two fillings agree, whatever was in the memory before.
* `mrecvl_plain`, `mrecvl_hidden`: a receive, from what the socket below has returned.
-/

namespace Libdill.Term

open Foundations Libdill.Sock

variable {n k : ℕ} {l l' tr : List Elem} {a b d : List UInt8} {it : Elem}

/-! ## The trimmed iolist -/

theorem len_dropElem (n : ℕ) (it : Elem) : (dropElem n it).len = it.len - n := by
  cases it with
  | null k => rfl
  | buf mem => exact List.length_drop

theorem ioltrim_eq_none (hn : 0 < n) : ioltrim n l = none ↔ capacity l < n := by
  induction l generalizing n with
  | nil => simpa [ioltrim] using hn
  | cons it l ih =>
    unfold ioltrim
    rw [capacity_cons]
    split
    · simp
      omega
    · rw [ih (by omega)]
      omega

theorem ioltrim_capacity (h : ioltrim n l = some tr) : n + capacity tr = capacity l := by
  induction l generalizing n with
  | nil => cases h
  | cons it l ih =>
    unfold ioltrim at h
    rw [capacity_cons]
    split at h
    · cases h
      rw [capacity_cons, len_dropElem]
      omega
    · have hrest := ih h
      omega

theorem ioltrim_ne_nil (h : ioltrim n l = some tr) : l ≠ [] ∧ tr ≠ [] := by
  induction l generalizing n with
  | nil => cases h
  | cons it l ih =>
    refine ⟨List.cons_ne_nil it l, ?_⟩
    unfold ioltrim at h
    split at h
    · cases h
      exact List.cons_ne_nil _ _
    · exact (ih h).2

/-- The last element is still in the trimmed iolist if nothing of it has been trimmed. -/
theorem ioltrim_tail (hn : 0 < n) (h : ioltrim n l = some tr) :
    tr.tail ≠ [] ↔ n ≤ capacity l.dropLast := by
  induction l generalizing n with
  | nil => cases h
  | cons it l ih =>
    unfold ioltrim at h
    split at h
    · rename_i hle
      cases h
      cases l with
      | nil => simp; omega
      | cons it' l =>
        rw [List.dropLast_cons_cons, capacity_cons]
        simp
        omega
    · rename_i hgt
      rw [ih (by omega) h, List.dropLast_cons_of_ne_nil (ioltrim_ne_nil h).1, capacity_cons]
      omega

/-- How much there is before the last element. -/
theorem ioltrim_dropLast (h : ioltrim n l = some tr) (htail : tr.tail ≠ []) :
    n + capacity tr.dropLast = capacity l.dropLast := by
  induction l generalizing n with
  | nil => cases h
  | cons it l ih =>
    unfold ioltrim at h
    split at h
    · rename_i hle
      cases h
      have hne : l ≠ [] := htail
      rw [List.dropLast_cons_of_ne_nil hne, List.dropLast_cons_of_ne_nil hne, capacity_cons,
        capacity_cons, len_dropElem]
      omega
    · have hrest := ih h
      rw [List.dropLast_cons_of_ne_nil (ioltrim_ne_nil h).1, capacity_cons]
      omega

theorem capacity_eq_sum (l : List Elem) : capacity l = (l.map Elem.len).sum := by
  induction l with
  | nil => rfl
  | cons it l ih => rw [capacity_cons, List.map_cons, List.sum_cons, ih]

/-! ## Copying back -/

/-- The bytes behind the first `n` of an element are stored, and then the first `n`. -/
theorem put_join (hn : n ≤ it.len) (hb : b.length = n) (d : List UInt8) :
    (joinElem n ((dropElem n it).put (d.take (it.len - n))) it).put (b.take it.len)
      = it.put ((b ++ d).take it.len) := by
  have hbt : b.take it.len = b := List.take_of_length_le (by omega)
  rw [hbt]
  cases it with
  | null k => rfl
  | buf mem =>
    have hmem : n ≤ mem.length := hn
    have htake : (b ++ d).take mem.length = b ++ d.take (mem.length - n) := by
      rw [List.take_append, List.take_of_length_le (by omega), hb]
    have hfront : (mem.take n ++ (d.take (mem.length - n)
        ++ (mem.drop n).drop (d.take (mem.length - n)).length)).drop b.length
          = d.take (mem.length - n) ++ (mem.drop n).drop (d.take (mem.length - n)).length :=
      List.drop_left' (by rw [List.length_take, hb]; omega)
    change Elem.buf (b ++ (mem.take n ++ (d.take (mem.length - n)
      ++ (mem.drop n).drop (d.take (mem.length - n)).length)).drop b.length)
        = Elem.buf ((b ++ d).take mem.length ++ mem.drop ((b ++ d).take mem.length).length)
    rw [htake, hfront, List.length_append, hb, List.drop_drop, List.append_assoc]

/-- **Two copies.** A message of which the bytes behind the first `n` are received into the trimmed
iolist and the others copied to the front. -/
theorem fill_paste (h : ioltrim n l = some tr) (hb : b.length = n) (d : List UInt8) :
    fill b (iolpaste n l (fill d tr)) = fill (b ++ d) l := by
  induction l generalizing n b with
  | nil => cases h
  | cons it l ih =>
    unfold ioltrim at h
    unfold iolpaste
    split at h
    · rename_i hle
      cases h
      have hb' : b.drop it.len = [] := List.drop_eq_nil_of_le (by omega)
      have hd : (b ++ d).drop it.len = d.drop (it.len - n) := by
        rw [List.drop_append, hb', List.nil_append, hb]
      have hlen : (joinElem n ((dropElem n it).put (d.take (it.len - n))) it).len = it.len := by
        cases it with
        | null k => rfl
        | buf mem =>
          have hmem : n ≤ mem.length := hle
          simp [joinElem, dropElem, Elem.put, Elem.bytes, Elem.len]
          omega
      rw [if_pos hle]
      simp only [fill, List.headD_cons, List.tail_cons, len_dropElem, hlen, hb', hd, put_join hle hb,
        fill_nil]
    · rename_i hgt
      have hbt : (b.take it.len).length = it.len := by
        rw [List.length_take]
        omega
      have hsplit : (b ++ d).take it.len = b.take it.len := by
        rw [List.take_append_of_le_length (by omega)]
      have hdrop : (b ++ d).drop it.len = b.drop it.len ++ d := by
        rw [List.drop_append_of_le_length (by omega)]
      have hlen : (b.drop it.len).length = n - it.len := by
        rw [List.length_drop, hb]
      rw [if_neg hgt, fill, ih h hlen, fill, hsplit, hdrop]

/-! ## Memory -/

/-- Iolists of the same elements, with any bytes in the buffers. -/
def Alike : List Elem → List Elem → Prop :=
  List.Forall₂ fun it it' => it.len = it'.len ∧ (it.IsBuf ↔ it'.IsBuf)

theorem Alike.refl (l : List Elem) : Alike l l :=
  List.forall₂_same.mpr fun _ _ => ⟨rfl, Iff.rfl⟩

theorem Alike.map_len (h : Alike l l') : l'.map Elem.len = l.map Elem.len := by
  induction h with
  | nil => rfl
  | cons hit _ ih => rw [List.map_cons, List.map_cons, hit.1, ih]

theorem Alike.capacity (h : Alike l l') : capacity l' = capacity l := by
  rw [capacity_eq_sum, capacity_eq_sum, h.map_len]

/-- The iolist with the byte `c` everywhere in its buffers. -/
def blank (c : UInt8) (l : List Elem) : List Elem :=
  l.map fun
    | .null k => .null k
    | .buf mem => .buf (mem.map fun _ => c)

theorem alike_blank (c : UInt8) (l : List Elem) : Alike l (blank c l) := by
  induction l with
  | nil => exact .nil
  | cons it l ih =>
    refine .cons ?_ ih
    cases it with
    | null k => exact ⟨rfl, Iff.rfl⟩
    | buf mem => exact ⟨(List.length_map _).symm, Iff.rfl⟩

theorem cell_blank (c : UInt8) (x : ℕ) (l : List Elem) :
    cell x (blank c l) = (cell x l).map fun _ => c := by
  induction l generalizing x with
  | nil => rfl
  | cons it l ih =>
    cases it with
    | null k =>
      change (if x < k then none else cell (x - k) (blank c l)) = _
      rw [ih, cell]
      by_cases hx : x < k
      · rw [if_pos hx, if_pos (show x < (Elem.null k).len from hx)]
        rfl
      · rw [if_neg hx, if_neg (show ¬ x < (Elem.null k).len from hx)]
        rfl
    | buf mem =>
      change (if x < (mem.map fun _ => c).length then (mem.map fun _ => c)[x]?
        else cell (x - (mem.map fun _ => c).length) (blank c l)) = _
      rw [List.length_map, ih, cell, List.getElem?_map]
      by_cases hx : x < mem.length
      · rw [if_pos hx, if_pos (show x < (Elem.buf mem).len from hx)]
        rfl
      · rw [if_neg hx, if_neg (show ¬ x < (Elem.buf mem).len from hx)]
        rfl

/-- There are no bytes of a buffer from position `i` to position `j`. -/
def Vacant (l : List Elem) (i j : ℕ) : Prop := ∀ x, i ≤ x → x < j → cell x l = none

theorem Alike.cell (h : Alike l l') (x : ℕ) : cell x l' = none ↔ cell x l = none := by
  induction h generalizing x with
  | nil => rfl
  | cons hit _ ih =>
    rename_i it it' l l' _
    obtain ⟨hlen, hbuf⟩ := hit
    rw [Sock.cell, Sock.cell, ← hlen]
    by_cases hx : x < it.len
    · rw [if_pos hx, if_pos hx]
      cases it with
      | null k =>
        cases it' with
        | null k' => rfl
        | buf mem' => exact (hbuf.mpr trivial).elim
      | buf mem =>
        cases it' with
        | null k' => exact (hbuf.mp trivial).elim
        | buf mem' =>
          have hmem : mem.length = mem'.length := hlen
          have hx' : x < mem.length := hx
          simp [Elem.bytes, hmem ▸ hx', hx']
    · rw [if_neg hx, if_neg hx]
      exact ih (x - it.len)

theorem Vacant.alike {i j : ℕ} (hv : Vacant l i j) (h : Alike l l') : Vacant l' i j :=
  fun x hi hj => (h.cell x).mpr (hv x hi hj)

/-- Fillings that agree at the bytes of the buffers. -/
theorem fill_congr (h : ∀ x, cell x l ≠ none → a[x]? = b[x]?) : fill a l = fill b l := by
  induction l generalizing a b with
  | nil => rfl
  | cons it l ih =>
    have hrest : fill (a.drop it.len) l = fill (b.drop it.len) l := by
      apply ih
      intro x hx
      rw [List.getElem?_drop, List.getElem?_drop]
      apply h
      rw [cell, if_neg (by omega), Nat.add_sub_cancel_left]
      exact hx
    rw [fill, fill, hrest]
    cases it with
    | null k => rfl
    | buf mem =>
      have htake : a.take mem.length = b.take mem.length := by
        apply List.ext_getElem?
        intro x
        by_cases hx : x < mem.length
        · rw [List.getElem?_take_of_lt hx, List.getElem?_take_of_lt hx]
          apply h
          rw [cell, if_pos (show x < (Elem.buf mem).len from hx)]
          simp [Elem.bytes, hx]
        · rw [List.getElem?_eq_none (by rw [List.length_take]; omega),
            List.getElem?_eq_none (by rw [List.length_take]; omega)]
      change Elem.put (a.take mem.length) (.buf mem) :: _ = _
      rw [htake]
      rfl

/-- **Fillings that agree whatever was in the memory** agree at all bytes of the buffers. -/
theorem fill_alike (h : ∀ c, fill a (blank c l) = fill b (blank c l)) {x : ℕ}
    (hx : cell x l ≠ none) : a[x]? = b[x]? := by
  obtain ⟨w, hw⟩ := Option.ne_none_iff_exists'.mp hx
  have hcell : ∀ c, a[x]?.getD c = b[x]?.getD c := by
    intro c
    have heq := congrArg (cell x) (h c)
    rw [cell_fill, cell_fill, cell_blank, hw] at heq
    cases ha : a[x]? <;> cases hb : b[x]? <;> rw [ha, hb] at heq <;> simpa using heq
  cases ha : a[x]? with
  | none =>
    cases hb : b[x]? with
    | none => rfl
    | some v =>
      have hv := hcell (v + 1)
      rw [ha, hb] at hv
      exact absurd hv (byte_succ_ne v)
  | some v =>
    cases hb : b[x]? with
    | none =>
      have hv := hcell (v + 1)
      rw [ha, hb] at hv
      exact absurd hv.symm (byte_succ_ne v)
    | some w =>
      have hv := hcell 0
      rw [ha, hb] at hv
      exact congrArg some hv

variable {i j : ℕ}

/-- Bytes that no buffer is there for do not matter. -/
theorem Vacant.fill_eq (hv : Vacant l i j) (hlo : ∀ x < i, a[x]? = b[x]?)
    (hhi : ∀ x, j ≤ x → a[x]? = b[x]?) : fill a l = fill b l := by
  apply fill_congr
  intro x hx
  by_cases hi : x < i
  · exact hlo x hi
  · by_cases hj : x < j
    · exact absurd (hv x (by omega) hj) hx
    · exact hhi x (by omega)

theorem Vacant.of_fill (h : ∀ c, fill a (blank c l) = fill b (blank c l))
    (hne : ∀ x, i ≤ x → x < j → a[x]? ≠ b[x]?) : Vacant l i j := by
  intro x hx hlt
  by_contra hcell
  exact hne x hx hlt (fill_alike h hcell)

/-- A message of which the first bytes are stored. -/
theorem Vacant.fill_take (hv : Vacant l i a.length) : fill (a.take i) l = fill a l := by
  refine hv.fill_eq (fun x hx => List.getElem?_take_of_lt hx) fun x hx => ?_
  rw [List.getElem?_eq_none hx, List.getElem?_eq_none (by rw [List.length_take]; omega)]

theorem Vacant.of_take (h : ∀ c, fill (a.take i) (blank c l) = fill a (blank c l)) :
    Vacant l i a.length := by
  refine .of_fill h fun x hx hlt heq => ?_
  rw [List.getElem?_eq_none (by rw [List.length_take]; omega), List.getElem?_eq_getElem hlt] at heq
  cases heq

/-! ## A receive -/

/-- What is left of an iolist behind the bytes that go into the buffer for the terminator. -/
def behind (n : ℕ) (first : List Elem) : List Elem := (ioltrim n first).getD []

/-- The iolist that is passed to the socket below. -/
def passed (junk : ℕ → UInt8) (term : List UInt8) (first : List Elem) : List Elem :=
  if term.length = 0 then first else newBuf junk term.length :: behind term.length first

/-- It ends in the `last` that is passed with it. -/
def passedEnds (term : List UInt8) (first : List Elem) : Bool :=
  term.length = 0 || (ioltrim term.length first).elim true fun tr => !tr.tail.isEmpty

/-- What is in the buffer for the terminator when the bytes `bs` have been received. -/
def hidden (junk : ℕ → UInt8) (n : ℕ) (bs : List UInt8) : List UInt8 :=
  bs.take n ++ ((List.range n).map junk).drop (bs.take n).length

variable {σ : Type} {u : Msock σ} {s s' : σ} {self : TermSock} {junk : ℕ → UInt8}
  {first : List Elem} {term bs : List UInt8} {x : ℕ}

theorem length_hidden : (hidden junk n bs).length = n := by
  unfold hidden
  simp only [List.length_append, List.length_drop, List.length_map, List.length_range,
    List.length_take]
  omega

theorem hidden_long (h : n ≤ bs.length) : hidden junk n bs = bs.take n := by
  unfold hidden
  rw [List.drop_eq_nil_of_le (by simp; omega), List.append_nil]

theorem hidden_of_lt (h : x < bs.length) (hx : x < n) : (hidden junk n bs)[x]? = bs[x]? := by
  unfold hidden
  rw [List.getElem?_append_left (by rw [List.length_take]; omega), List.getElem?_take_of_lt hx]

/-- Behind a short message there is whatever was there before. -/
theorem hidden_junk (h : bs.length ≤ x) (hx : x < n) : (hidden junk n bs)[x]? = some (junk x) := by
  unfold hidden
  rw [List.take_of_length_le (by omega), List.getElem?_append_right h, List.getElem?_drop,
    List.getElem?_map, show bs.length + (x - bs.length) = x by omega, List.getElem?_range hx]
  rfl

/-- A message that has been received as the terminator is the terminator. -/
theorem hidden_ne (h : bs ≠ term) :
    ¬ (bs.length = term.length ∧ term = hidden junk term.length bs) := by
  rintro ⟨hlen, heq⟩
  rw [hidden_long (by omega), List.take_of_length_le (by omega)] at heq
  exact h heq.symm

/-- A message that is stored by way of the buffer for the terminator. -/
theorem fill_hidden (hv : Vacant first (min n bs.length) (max n bs.length)) :
    fill (hidden junk n bs) first = fill bs first := by
  refine hv.fill_eq (fun x hx => hidden_of_lt (by omega) (by omega)) fun x hx => ?_
  rw [List.getElem?_eq_none (by rw [length_hidden]; omega), List.getElem?_eq_none (by omega)]

theorem vacant_hidden
    (h : ∀ c, fill (hidden junk n bs) (blank c first) = fill bs (blank c first)) :
    Vacant first (min n bs.length) (max n bs.length) := by
  refine .of_fill h fun x hx hlt heq => ?_
  by_cases hlong : bs.length ≤ x
  · rw [hidden_junk hlong (by omega), List.getElem?_eq_none hlong] at heq
    cases heq
  · rw [List.getElem?_eq_none (by rw [length_hidden]; omega),
      List.getElem?_eq_getElem (by omega)] at heq
    cases heq

theorem capacity_behind : capacity (behind n first) = capacity first - n := by
  unfold behind
  cases h : ioltrim n first with
  | none =>
    by_cases hn : 0 < n
    · have hlt := (ioltrim_eq_none hn).mp h
      change 0 = _
      omega
    · cases first with
      | nil => exact (Nat.zero_sub n).symm
      | cons it first =>
        unfold ioltrim at h
        rw [if_pos (by omega)] at h
        cases h
  | some tr =>
    have hcap := ioltrim_capacity h
    change capacity tr = _
    omega

/-- The iolist has been filled from the front. -/
theorem iolto_behind (hb : b.length = n) (hd : d.length ≤ capacity (behind n first)) :
    (ioltrim n first = none → iolto b first = fill (b ++ d) first) ∧
      ∀ tr, ioltrim n first = some tr →
        iolto b (iolpaste n first (fill d tr)) = fill (b ++ d) first := by
  constructor
  · intro h
    have hnil : d = [] := by
      unfold behind at hd
      rw [h] at hd
      exact List.length_eq_zero_iff.mp (Nat.le_zero.mp hd)
    rw [hnil, List.append_nil]
    rfl
  · intro tr h
    exact fill_paste h hb d

/-- What is done with what the socket below has returned. -/
def took (term : List UInt8) (first : List Elem) (r : ℕ × List Elem) :
    Call (TermSock × σ) Stop Errno (ℕ × List Elem) :=
  if term.length = 0 then if r.1 = 0 then arrived else pure r
  else if r.1 = term.length ∧ term = (r.2.headD (.null 0)).bytes then arrived
  else pure (r.1, (ioltrim term.length first).elim (iolto (r.2.headD (.null 0)).bytes first)
    fun _ => iolto (r.2.headD (.null 0)).bytes (iolpaste term.length first r.2.tail))

theorem mrecvl_eq :
    mrecvl u junk first true (self, s)
      = (below (u.mrecvl (passed junk self.term first) (passedEnds self.term first))
          >>= took self.term first) (self, s) := by
  unfold mrecvl
  rw [Call.look_bind]
  by_cases hterm : self.term.length = 0
  · have hpassed : passed junk self.term first = first := if_pos hterm
    have hends : passedEnds self.term first = true := by
      unfold passedEnds
      rw [decide_eq_true hterm, Bool.true_or]
    rw [if_pos hterm, hpassed, hends]
    apply Call.bind_congr
    intro r s'
    unfold took
    rw [if_pos hterm]
  · have hpassed : passed junk self.term first
        = newBuf junk self.term.length :: behind self.term.length first := if_neg hterm
    have hends : passedEnds self.term first
        = (ioltrim self.term.length first).elim true fun tr => !tr.tail.isEmpty := by
      unfold passedEnds
      rw [decide_eq_false hterm, Bool.false_or]
    rw [if_neg hterm, hpassed, hends]
    unfold behind
    cases htrim : ioltrim self.term.length first with
    | none =>
      apply Call.bind_congr
      intro r s'
      unfold took
      rw [if_neg hterm, htrim]
      rfl
    | some tr =>
      apply Call.bind_congr
      intro r s'
      unfold took
      rw [if_neg hterm, htrim]
      rfl

/-- An error of the socket below. -/
theorem mrecvl_fails {e : Errno}
    (h : u.mrecvl (passed junk self.term first) (passedEnds self.term first) s
      = .ok (.error e, s')) :
    mrecvl u junk first true (self, s) = .ok (.error e, self, s') := by
  rw [mrecvl_eq, Call.bind_fail (below_run h)]

/-- The socket below does not return. -/
theorem mrecvl_stops {r : Stop}
    (h : u.mrecvl (passed junk self.term first) (passedEnds self.term first) s = .error r) :
    mrecvl u junk first true (self, s) = .error r := by
  rw [mrecvl_eq, Call.bind_stop (below_stop h)]

/-- With an empty terminator the message is passed on. -/
theorem mrecvl_plain (hterm : self.term = []) {r : List Elem}
    (h : u.mrecvl (passed junk self.term first) (passedEnds self.term first) s
      = .ok (.ok (k, r), s')) :
    mrecvl u junk first true (self, s)
      = if k = 0 then .ok (.error .EPIPE, { self with indone := true }, s')
        else .ok (.ok (k, r), self, s') := by
  have hlen : self.term.length = 0 := by rw [hterm, List.length_nil]
  rw [mrecvl_eq, Call.bind_ret (below_run h), took, if_pos hlen]
  by_cases hk : k = 0
  · rw [if_pos hk, if_pos hk]
    rfl
  · rw [if_neg hk, if_neg hk]
    rfl

/-- **A receive** through the buffer for the terminator. -/
theorem mrecvl_hidden (hterm : self.term ≠ []) (hb : b.length = self.term.length)
    (hd : d.length ≤ capacity (behind self.term.length first))
    (h : u.mrecvl (passed junk self.term first) (passedEnds self.term first) s
      = .ok (.ok (k, .buf b :: fill d (behind self.term.length first)), s')) :
    mrecvl u junk first true (self, s)
      = if k = self.term.length ∧ self.term = b then
          .ok (.error .EPIPE, { self with indone := true }, s')
        else .ok (.ok (k, fill (b ++ d) first), self, s') := by
  have hlen : self.term.length ≠ 0 := fun h0 => hterm (List.length_eq_zero_iff.mp h0)
  obtain ⟨hnone, hsome⟩ := iolto_behind hb hd
  have hcopy : (ioltrim self.term.length first).elim (iolto b first) (fun _ =>
      iolto b (iolpaste self.term.length first (fill d (behind self.term.length first))))
        = fill (b ++ d) first := by
    unfold behind
    cases htrim : ioltrim self.term.length first with
    | none => exact hnone htrim
    | some tr => exact hsome tr htrim
  rw [mrecvl_eq, Call.bind_ret (below_run h), took, if_neg hlen]
  change (if k = self.term.length ∧ self.term = b then arrived
    else pure (k, (ioltrim self.term.length first).elim (iolto b first) fun _ =>
      iolto b (iolpaste self.term.length first (fill d (behind self.term.length first)))) :
        Call (TermSock × σ) Stop Errno (ℕ × List Elem)) (self, s') = _
  rw [hcopy]
  by_cases hend : k = self.term.length ∧ self.term = b
  · rw [if_pos hend, if_pos hend]
    rfl
  · rw [if_neg hend, if_neg hend]
    rfl

end Libdill.Term
