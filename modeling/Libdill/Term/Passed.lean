import Libdill.Fd.StreamRecv
import Libdill.Prefix.Memory
import Libdill.Prefix.Msock
import Libdill.Term.Receive

/-!
# The iolist that TERM passes on

The buffer for the terminator and what is left of the iolist behind as many bytes. Over PREFIX a
message is received into the first part of it, as long as the message.

* `filled`: the buffers of this part.
* `straight_iff`: when a receive into them succeeds although it is direct.
* `refused_iff`: when the kernel refuses it.
-/

namespace Libdill.Term

open Foundations Libdill.Sock
open Libdill.Fd (Link Loose Refused slots)
open Libdill.Fd.Scatter (Buf Crowded)
open Libdill.Prefix (Params)
open Libdill.Prefix.Memory (keep)

/-! ## The part of a message -/

/-- An element as a buffer of the array. -/
def slot : Elem → Buf
  | .null k => (none, k)
  | .buf mem => (some 0, mem.length)

/-- The buffers that a message of `k` bytes is received into over PREFIX, with the one for the
terminator in front. -/
def filled (n k : ℕ) (first : List Elem) : List Buf :=
  keep (if n = 0 then first.map slot else (some 0, n) :: (behind n first).map slot) k

/-- The part of the iolist in which a message of `k` bytes is received ends in `last`: the message
goes beyond the last but one element, and the terminator does not. -/
def Ending (n k : ℕ) (first : List Elem) : Prop :=
  n ≤ capacity first.dropLast ∧ capacity first.dropLast < k

instance (n k : ℕ) (first : List Elem) : Decidable (Ending n k first) :=
  inferInstanceAs (Decidable (_ ∧ _))

/-- The receive finds `last`, or does not look for it. -/
def Straight (link : Link) (n k : ℕ) (first : List Elem) : Prop :=
  (n = 0 ∧ k ≤ (link.behind (first.map Elem.len)).headD 0) ∨ Ending n k first

/-! ## The whole -/

variable {term m : List UInt8} {first l : List Elem} {junk : ℕ → UInt8} {n k u : ℕ} {link : Link}
  {iovMax : ℕ+} {lens : List ℕ} {e : Bool}

theorem len_newBuf : (newBuf junk n).len = n := by
  unfold newBuf
  rw [Elem.len, List.length_map, List.length_range]

theorem passed_ne_nil (h : first ≠ []) : passed junk term first ≠ [] := by
  unfold passed
  split
  · exact h
  · exact List.cons_ne_nil _ _

theorem passed_plain (h : term = []) : passed junk term first = first := by
  unfold passed
  rw [h, List.length_nil, if_pos rfl]

theorem passed_hidden (h : term ≠ []) :
    passed junk term first = newBuf junk term.length :: behind term.length first :=
  if_neg fun h0 => h (List.length_eq_zero_iff.mp h0)

/-- The iolist that is passed, in bytes. -/
theorem sum_passed :
    ((passed junk term first).map Elem.len).sum = max term.length (capacity first) := by
  by_cases hterm : term = []
  · rw [passed_plain hterm, ← capacity_eq_sum, hterm, List.length_nil, Nat.zero_max]
  · rw [passed_hidden hterm, ← capacity_eq_sum, capacity_cons, len_newBuf, capacity_behind]
    omega

theorem sizeSeen_le (p : Params) (m : List UInt8) : p.sizeSeen m ≤ m.length :=
  (Nat.mod_le _ _).trans (Nat.mod_le _ _)

/-! ## The buffers a message is received into -/

theorem slots_trim
    (h : Prefix.trim k (l.map Elem.len) = some (lens, e)) : slots l lens = keep (l.map slot) k := by
  induction l generalizing k lens with
  | nil => cases h
  | cons it l ih =>
    have hslot : (slot it).2 = it.len := by cases it <;> rfl
    rw [List.map_cons] at h ⊢
    unfold Prefix.trim at h
    unfold keep
    rw [hslot]
    split at h
    · rename_i hle
      cases h
      rw [if_pos hle]
      cases it <;> rfl
    · rename_i hgt
      obtain ⟨⟨r, e'⟩, hr, heq⟩ := Option.map_eq_some_iff.mp h
      cases heq
      rw [if_neg hgt, ← ih hr]
      cases it <;> rfl

/-- The buffers of the iolist that is passed. -/
theorem slots_passed
    (h : Prefix.trim k ((passed junk term first).map Elem.len) = some (lens, e)) :
    slots (passed junk term first) lens = filled term.length k first := by
  rw [slots_trim h]
  unfold filled
  by_cases hterm : term = []
  · rw [passed_plain hterm, if_pos (by rw [hterm]; rfl)]
  · have hslot : slot (newBuf junk term.length) = (some 0, term.length) :=
      congrArg (Prod.mk _) len_newBuf
    rw [passed_hidden hterm, if_neg fun h0 => hterm (List.length_eq_zero_iff.mp h0), List.map_cons,
      hslot]

theorem Alike.map_slot (h : Alike first l) : l.map slot = first.map slot := by
  induction h with
  | nil => rfl
  | cons hit _ ih =>
    rename_i it it' _ _ _
    obtain ⟨hlen, hbuf⟩ := hit
    rw [List.map_cons, List.map_cons, ih]
    congr 1
    cases it with
    | null k =>
      cases it' with
      | null k' => exact congrArg (Prod.mk none) hlen.symm
      | buf mem' => exact (hbuf.mpr trivial).elim
    | buf mem =>
      cases it' with
      | null k' => exact (hbuf.mp trivial).elim
      | buf mem' => exact congrArg (Prod.mk (some 0)) hlen.symm

theorem Alike.behind (h : Alike first l) (n : ℕ) : Alike (behind n first) (behind n l) := by
  unfold Term.behind
  induction h generalizing n with
  | nil => exact .nil
  | cons hit hrest ih =>
    rename_i it it' _ _
    obtain ⟨hlen, hbuf⟩ := hit
    unfold ioltrim
    rw [← hlen]
    split
    · refine .cons ⟨by rw [len_dropElem, len_dropElem, hlen], ?_⟩ hrest
      cases it <;> cases it' <;> exact hbuf
    · exact ih _

theorem Alike.filled (h : Alike first l) (n k : ℕ) : filled n k l = filled n k first := by
  unfold Term.filled
  rw [h.map_slot, (h.behind n).map_slot]

theorem Alike.ending (h : Alike first l) (n k : ℕ) : Ending n k l ↔ Ending n k first := by
  unfold Ending
  rw [capacity_eq_sum, capacity_eq_sum, List.map_dropLast, List.map_dropLast, h.map_len]

theorem Alike.straight (h : Alike first l) (n k : ℕ) :
    Straight link n k l ↔ Straight link n k first := by
  unfold Straight
  rw [h.map_len, h.ending]

theorem trim_some {p : Params} (hfirst : first ≠ [])
    (h : p.sizeSeen m ≤ max term.length (capacity first)) :
    ∃ lens e, Prefix.trim (p.sizeSeen m) ((passed junk term first).map Elem.len)
      = some (lens, e) := by
  have hne : ((passed junk term first).map Elem.len) ≠ [] := by
    simpa using passed_ne_nil hfirst
  cases htrim : Prefix.trim (p.sizeSeen m) ((passed junk term first).map Elem.len) with
  | none =>
    have hsum := (Prefix.trim_eq_none hne).mp htrim
    rw [sum_passed] at hsum
    omega
  | some r => exact ⟨r.1, r.2, rfl⟩

/-! ## The end of the iolist -/

/-- A message that is not longer than the terminator is received into one buffer. -/
theorem filled_short (hk : k ≤ n) : (filled n k first).length ≤ 1 := by
  unfold filled
  split
  · rename_i hn
    rw [hn] at hk
    rw [Nat.le_zero.mp hk]
    cases first.map slot with
    | nil => exact Nat.zero_le _
    | cons b l => exact le_of_eq (congrArg List.length (if_pos (Nat.zero_le b.2)))
  · exact le_of_eq (congrArg List.length (if_pos hk))

theorem filled_fine (hk : k ≤ n) : ¬Crowded iovMax (filled n k first) := fun h =>
  absurd h.length (not_lt.mpr ((filled_short hk).trans iovMax.pos))

/-- The part of the iolist in which a longer one is received ends in `last`. -/
theorem ends_iff (hk : term.length < k)
    (h : Prefix.trim k ((passed junk term first).map Elem.len) = some (lens, e)) :
    (e && passedEnds term first) = true ↔ Ending term.length k first := by
  unfold Ending
  by_cases hterm : term = []
  · have hends := Prefix.trim_ends (by omega) h
    rw [passed_plain hterm, ← List.map_dropLast, ← capacity_eq_sum] at hends
    have hpassed : passedEnds term first = true := by
      rw [hterm]
      rfl
    rw [hpassed, Bool.and_true, hends, hterm]
    exact ⟨fun hlt => ⟨Nat.zero_le _, hlt⟩, And.right⟩
  · have hpos := List.length_pos_iff.mpr hterm
    have hends := Prefix.trim_ends (by omega) h
    obtain ⟨tr, htr⟩ : ∃ tr, ioltrim term.length first = some tr := by
      cases htrim : ioltrim term.length first with
      | none =>
        have hcap := (ioltrim_eq_none hpos).mp htrim
        rw [(Prefix.trim_eq_none (Prefix.trim_ne_nil h)).mpr (by rw [sum_passed]; omega)] at h
        cases h
      | some tr => exact ⟨tr, rfl⟩
    have hbehind : behind term.length first = tr := by rw [behind, htr, Option.getD_some]
    have hpassed : passedEnds term first = !tr.tail.isEmpty := by
      unfold passedEnds
      rw [htr, decide_eq_false (by omega), Bool.false_or, Option.elim_some]
    have hne : tr.map Elem.len ≠ [] := by simpa using (ioltrim_ne_nil htr).2
    have htail := ioltrim_tail hpos htr
    rw [passed_hidden hterm, hbehind, List.map_cons, len_newBuf, List.dropLast_cons_of_ne_nil hne,
      List.sum_cons, ← List.map_dropLast, ← capacity_eq_sum] at hends
    rw [hpassed, Bool.and_eq_true, hends, ← htail]
    constructor
    · rintro ⟨hlt, hne⟩
      have htail' : tr.tail ≠ [] := by simpa using hne
      have hdrop := ioltrim_dropLast htr htail'
      exact ⟨htail', by omega⟩
    · rintro ⟨htail', hlt⟩
      have hdrop := ioltrim_dropLast htr htail'
      exact ⟨by omega, by simpa using htail'⟩

/-- It has more than one element. -/
theorem many_iff (hk : term.length < k)
    (h : Prefix.trim k ((passed junk term first).map Elem.len) = some (lens, e)) :
    1 < (link.behind lens).length ↔
      ¬(term.length = 0 ∧ k ≤ (link.behind (first.map Elem.len)).headD 0) := by
  have hmany : 1 < (link.behind lens).length ↔
      (link.behind ((passed junk term first).map Elem.len)).headD 0 < k := by
    cases link with
    | tcp => exact Prefix.trim_loose (by omega) h
    | ipc => exact Prefix.trim_many h
  rw [hmany]
  by_cases hterm : term = []
  · have hlen : term.length = 0 := by rw [hterm, List.length_nil]
    rw [passed_plain hterm, ← not_le, hlen]
    exact not_congr ⟨fun hle => ⟨rfl, hle⟩, And.right⟩
  · have hpos := List.length_pos_iff.mpr hterm
    have hhead : (link.behind ((passed junk term first).map Elem.len)).headD 0 = term.length := by
      rw [passed_hidden hterm, List.map_cons, len_newBuf]
      cases link with
      | tcp =>
        change (List.dropWhile (· == 0) (term.length :: _)).headD 0 = _
        rw [List.dropWhile_cons_of_neg (by simpa using hpos.ne'), List.headD_cons]
      | ipc => rfl
    rw [hhead]
    exact iff_of_true hk fun hno => hpos.ne' hno.1

/-- **When a receive over PREFIX does not run off the end of the iolist and is not refused.** -/
theorem straight_iff
    (h : Prefix.trim k ((passed junk term first).map Elem.len) = some (lens, e)) :
    ¬(Loose link lens (e && passedEnds term first) ∨
        link.Direct lens.sum ∧ Crowded iovMax (slots (passed junk term first) lens)) ↔
      (term.length < k → link.Direct k →
        Straight link term.length k first ∧ ¬Crowded iovMax (filled term.length k first)) := by
  rw [slots_passed h, Prefix.trim_sum h, not_or]
  by_cases hk : term.length < k
  · have hends := ends_iff hk h
    have hmany := @many_iff _ _ _ _ link _ _ hk h
    have hloose : ¬Loose link lens (e && passedEnds term first) ↔
        (link.Direct k → Straight link term.length k first) := by
      constructor
      · intro hnot hdirect
        by_cases hone : term.length = 0 ∧ k ≤ (link.behind (first.map Elem.len)).headD 0
        · exact .inl hone
        · refine .inr (hends.mp ?_)
          by_contra hne
          exact hnot ⟨Bool.eq_false_iff.mpr hne, by rwa [Prefix.trim_sum h], hmany.mpr hone⟩
      · intro hst hno
        have hdirect := hno.direct
        rw [Prefix.trim_sum h] at hdirect
        rcases hst hdirect with hone | hend
        · exact hmany.mp hno.length hone
        · have hfalse := hno.ends
          rw [hends.mpr hend] at hfalse
          cases hfalse
    rw [hloose]
    constructor
    · rintro ⟨hst, hcrowd⟩ - hdirect
      exact ⟨hst hdirect, fun hno => hcrowd ⟨hdirect, hno⟩⟩
    · intro hboth
      exact ⟨fun hdirect => (hboth hk hdirect).1, fun hno => (hboth hk hno.1).2 hno.2⟩
  · have hshort : k ≤ term.length := not_lt.mp hk
    have hone := @filled_short first _ _ hshort
    rw [← slots_passed h, Fd.length_slots] at hone
    have hbehind : (link.behind lens).length ≤ lens.length := by
      cases link with
      | tcp => exact (List.dropWhile_suffix _).length_le
      | ipc => exact le_rfl
    exact iff_of_true ⟨fun hno => absurd hno.length (not_lt.mpr (hbehind.trans hone)),
      fun hno => filled_fine hshort hno.2⟩ fun hlt => absurd hlt hk

/-- When it is refused. -/
theorem refused_iff
    (h : Prefix.trim k ((passed junk term first).map Elem.len) = some (lens, e)) :
    Refused link iovMax (e && passedEnds term first) (slots (passed junk term first) lens) u ↔
      Refused link iovMax (Ending term.length k first) (filled term.length k first) u := by
  by_cases hk : term.length < k
  · have hends : (e && passedEnds term first) = decide (Ending term.length k first) := by
      rw [Bool.eq_iff_iff, ends_iff hk h, decide_eq_true_iff]
    rw [hends, slots_passed h]
  · rw [slots_passed h]
    have hno : ∀ ends, ¬Refused link iovMax ends (filled term.length k first) u := fun ends hno =>
      filled_fine (not_lt.mp hk) hno.crowded_all
    exact iff_of_false (hno _) (hno _)

end Libdill.Term
