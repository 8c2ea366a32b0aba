import Libdill.Foundations.Chain
import Libdill.Sock.Bsock
import Mathlib.Data.Fintype.Card
import Mathlib.Data.Fintype.Basic

/-!
# Checking iolists

`dill_iolcheck` of `iol.c` over elements in memory, which may be linked in any way. A pointer is
one of `n` addresses or `NULL`, which is 0. The loops are bounded by a number of turns; `iolcheck`
gives them more than there are elements, and `iolcheck_terminates` says that this is enough.

* `iolcheck_right_iff`: exactly when the answer is right and the elements are left as they were.
-/

namespace Libdill.Sock

open Foundations

/-- A pointer to one of `n` elements, or `NULL`. -/
abbrev IolPtr (n : ℕ) := Fin (n + 1)

/-- `NULL` is the pointer `0`. -/
scoped instance (priority := 2000) instNeZeroIolPtr {n : ℕ} : NeZero (n + 1) := Nat.instNeZeroSucc

/-- `struct dill_iolist`. -/
structure IolElem (n : ℕ) where
  iolBase : ℕ
  iolLen : ℕ
  iolNext : IolPtr n
  iolRsvd : ℕ
  deriving DecidableEq

/-- The elements in memory. -/
abbrev IolMem (n : ℕ) := IolPtr n → IolElem n

variable {n : ℕ}

namespace IolMem

/-- `iol_next` of the elements. -/
def next (mem : IolMem n) (it : IolPtr n) : IolPtr n := (mem it).iolNext

/-- `it->iol_rsvd = v`. -/
def setRsvd (mem : IolMem n) (it : IolPtr n) (v : ℕ) : IolMem n :=
  Function.update mem it { mem it with iolRsvd := v }

end IolMem

/-- How the first loop of `dill_iolcheck` ends: with the number of the elements and of their bytes,
or with a jump to `error`. -/
inductive Marked (n : ℕ)
  | marked (mem : IolMem n) (nbf nbt : ℕ)
  | error (it : IolPtr n) (mem : IolMem n)

/-- The first loop: the elements are marked on the way. -/
def mark (last : IolPtr n) (k : ℕ) (it : IolPtr n) (mem : IolMem n) (nbf nbt : ℕ) :
    Option (Marked n) :=
  if it = 0 then some (.marked mem nbf nbt)
  else match k with
    | 0 => none
    | k + 1 =>
      if (mem it).iolRsvd ≠ 0 ∨ mem.next it = 0 ∧ it ≠ last then some (.error it mem)
      else mark last k (mem.next it) (mem.setRsvd it 1) (nbf + 1)
        ((nbt + (mem it).iolLen) % 2 ^ 64)

/-- The second loop: the marks are taken away. -/
def unmark (k : ℕ) (it : IolPtr n) (mem : IolMem n) : Option (IolMem n) :=
  if it = 0 then some mem
  else match k with
    | 0 => none
    | k + 1 => unmark k (mem.next it) (mem.setRsvd it 0)

/-- The loop after `error`, which takes the mark away from `it` in each turn. -/
def unmarkError (it : IolPtr n) (k : ℕ) (it2 : IolPtr n) (mem : IolMem n) : Option (IolMem n) :=
  if it2 = it then some mem
  else match k with
    | 0 => none
    | k + 1 => unmarkError it k (mem.next it2) (mem.setRsvd it 0)

/-- `dill_iolcheck`: `nbufs` and `nbytes` or an error, and the elements afterwards. -/
def iolcheck (first last : IolPtr n) (mem : IolMem n) :
    Option (Except Errno (ℕ × ℕ) × IolMem n) :=
  if first = 0 ∧ last = 0 then some (.ok (0, 0), mem)
  else if first = 0 ∨ last = 0 ∨ mem.next last ≠ 0 then some (.error .EINVAL, mem)
  else do
    match ← mark last (n + 1) first mem 0 0 with
    | .marked mem nbf nbt =>
      let mem ← unmark (n + 1) first mem
      some (.ok (nbf, nbt), mem)
    | .error it mem =>
      let mem ← unmarkError it (n + 1) first mem
      some (.error .EINVAL, mem)

/-- The list from `first` on is finite, consists of the elements `l` and ends in `last`; or both
pointers are `NULL`. -/
def Valid (first last : IolPtr n) (mem : IolMem n) (l : List (IolPtr n)) : Prop :=
  first = 0 ∧ last = 0 ∧ l = [] ∨
    Chain mem.next first l 0 ∧ 0 ∉ l ∧ l.getLast? = some last

/-- The number of bytes of the elements. -/
def IolMem.bytes (mem : IolMem n) (l : List (IolPtr n)) : ℕ :=
  (l.map fun it => (mem it).iolLen).sum

/-- **What `dill_iolcheck` has to do.** It accepts the lists that end in `last`, with the right
numbers, and no others, and it leaves the elements as they were. -/
structure Right (first last : IolPtr n) (mem : IolMem n)
    (r : Option (Except Errno (ℕ × ℕ) × IolMem n)) : Prop where
  accepts : ∀ l, Valid first last mem l → r.map Prod.fst = some (.ok (l.length, mem.bytes l))
  refuses : (¬∃ l, Valid first last mem l) → r.map Prod.fst = some (.error .EINVAL)
  restores : r.map Prod.snd = some mem

variable {first last it : IolPtr n} {mem : IolMem n} {l pre : List (IolPtr n)} {k nbf nbt : ℕ}

/-- Different pointers to elements are no more than there are elements. -/
theorem length_le_of_nodup (hnd : l.Nodup) (h0 : 0 ∉ l) : l.length ≤ n := by
  have hcard : (0 :: l).length ≤ Fintype.card (IolPtr n) :=
    List.Nodup.length_le_card (List.nodup_cons.mpr ⟨h0, hnd⟩)
  rw [Fintype.card_fin, List.length_cons] at hcard
  omega

/-! ## Marks -/

/-- The elements of the list marked with `v`. -/
def IolMem.setAll (mem : IolMem n) (l : List (IolPtr n)) (v : ℕ) : IolMem n := fun x =>
  if x ∈ l then { mem x with iolRsvd := v } else mem x

@[simp] theorem next_setRsvd (mem : IolMem n) (it : IolPtr n) (v : ℕ) :
    (mem.setRsvd it v).next = mem.next := by
  funext x
  unfold IolMem.next IolMem.setRsvd
  by_cases hx : x = it
  · rw [hx, Function.update_self]
  · rw [Function.update_of_ne hx]

@[simp] theorem next_setAll (mem : IolMem n) (l : List (IolPtr n)) (v : ℕ) :
    (mem.setAll l v).next = mem.next := by
  funext x
  unfold IolMem.next IolMem.setAll
  split <;> rfl

@[simp] theorem setAll_nil (mem : IolMem n) (v : ℕ) : mem.setAll [] v = mem := by
  funext x
  exact if_neg List.not_mem_nil

theorem setAll_len (mem : IolMem n) (l : List (IolPtr n)) (v : ℕ) (x : IolPtr n) :
    (mem.setAll l v x).iolLen = (mem x).iolLen := by
  unfold IolMem.setAll
  split <;> rfl

theorem setAll_snoc (mem : IolMem n) (l : List (IolPtr n)) (it : IolPtr n) (v : ℕ) :
    (mem.setAll l v).setRsvd it v = mem.setAll (l ++ [it]) v := by
  funext x
  unfold IolMem.setRsvd IolMem.setAll
  by_cases hx : x = it
  · subst hx
    rw [Function.update_self, if_pos (List.mem_append_right _ (List.mem_singleton_self _))]
    split <;> rfl
  · rw [Function.update_of_ne hx]
    simp only [List.mem_append, List.mem_singleton, hx, or_false]

theorem setAll_cons (mem : IolMem n) (l : List (IolPtr n)) (it : IolPtr n) (v : ℕ) :
    (mem.setRsvd it v).setAll l v = mem.setAll (it :: l) v := by
  funext x
  unfold IolMem.setRsvd IolMem.setAll
  by_cases hx : x = it
  · subst hx
    rw [Function.update_self, if_pos List.mem_cons_self]
    split <;> rfl
  · rw [Function.update_of_ne hx]
    simp only [List.mem_cons, hx, false_or]

/-- Marks that are taken away again. -/
theorem setAll_setAll (hm : ∀ x ∈ l, (mem x).iolRsvd = 0) (v : ℕ) :
    (mem.setAll l v).setAll l 0 = mem := by
  funext x
  unfold IolMem.setAll
  split
  · rename_i hmem
    have hx := hm x hmem
    cases hmx : mem x
    rw [hmx] at hx
    dsimp only at hx ⊢
    rw [hx]
  · rfl

/-! ## The loops -/

/-- What the first loop has counted after the elements `l`. -/
def counted (mem : IolMem n) (nbt : ℕ) (l : List (IolPtr n)) : ℕ :=
  l.foldl (fun nbt it => (nbt + (mem it).iolLen) % 2 ^ 64) nbt

theorem counted_eq (mem : IolMem n) (l : List (IolPtr n)) (h : nbt < 2 ^ 64) :
    counted mem nbt l = (nbt + mem.bytes l) % 2 ^ 64 := by
  induction l generalizing nbt with
  | nil => exact (Nat.mod_eq_of_lt h).symm
  | cons it l ih =>
    have hrest := @ih ((nbt + (mem it).iolLen) % 2 ^ 64) (Nat.mod_lt _ (by decide))
    have hsum : mem.bytes (it :: l) = (mem it).iolLen + mem.bytes l := List.sum_cons
    show counted mem _ l = _
    rw [hrest, hsum, Nat.mod_add_mod, Nat.add_assoc]

/-- How the first loop can end, when it has visited the elements `l`. -/
inductive Ends (last : IolPtr n) (mem : IolMem n) (nbf nbt : ℕ) (l : List (IolPtr n)) :
    IolPtr n → Marked n → Prop
  | marked : (∀ x ∈ l, mem.next x = 0 → x = last) →
      Ends last mem nbf nbt l 0 (.marked (mem.setAll l 1) nbf nbt)
  | error {it : IolPtr n} : it ≠ 0 → (it ∈ l ∨ mem.next it = 0 ∧ it ≠ last) →
      Ends last mem nbf nbt l it (.error it (mem.setAll l 1))

/-- **The first loop ends**: at the end of the list, at an element that it has visited, or at one
that should have been the last one. -/
theorem mark_ends (last : IolPtr n) (k nbf nbt : ℕ) (hm : ∀ x, (mem x).iolRsvd = 0)
    (hch : Chain mem.next first pre it)
    (hnd : pre.Nodup) (h0 : 0 ∉ pre) (hlast : ∀ x ∈ pre, mem.next x = 0 → x = last)
    (hk : n < pre.length + k) :
    ∃ l it' r, Chain mem.next first (pre ++ l) it' ∧ 0 ∉ pre ++ l ∧ (pre ++ l).length ≤ n ∧
      mark last k it (mem.setAll pre 1) nbf nbt = some r ∧
      Ends last mem (nbf + l.length) (counted mem nbt l) (pre ++ l) it' r := by
  have hlen : pre.length ≤ n := length_le_of_nodup hnd h0
  induction k generalizing pre it nbf nbt with
  | zero => omega
  | succ k ih =>
    by_cases hit : it = 0
    · subst hit
      refine ⟨[], 0, _, by rwa [List.append_nil], by rwa [List.append_nil],
        by rwa [List.append_nil], ?_, .marked ?_⟩
      · unfold mark
        rw [if_pos rfl, List.append_nil]
        rfl
      · rwa [List.append_nil]
    · have hmarked : (mem.setAll pre 1 it).iolRsvd ≠ 0 ↔ it ∈ pre := by
        unfold IolMem.setAll
        by_cases hmem : it ∈ pre
        · rw [if_pos hmem]
          exact iff_of_true Nat.one_ne_zero hmem
        · rw [if_neg hmem, hm it]
          exact iff_of_false (fun h => h rfl) hmem
      by_cases hstop : it ∈ pre ∨ mem.next it = 0 ∧ it ≠ last
      · refine ⟨[], it, .error it (mem.setAll pre 1), by rwa [List.append_nil],
          by rwa [List.append_nil], by rwa [List.append_nil], ?_, ?_⟩
        · unfold mark
          rw [if_neg hit]
          dsimp only
          rw [if_pos (by rwa [hmarked, next_setAll])]
        · rw [List.append_nil]
          exact .error hit hstop
      · obtain ⟨hnew, hgo⟩ := not_or.mp hstop
        have hch' : Chain mem.next first (pre ++ [it]) (mem.next it) := chain_concat.mpr ⟨hch, rfl⟩
        have hnd' : (pre ++ [it]).Nodup := by
          rw [List.nodup_append]
          refine ⟨hnd, List.nodup_singleton it, fun a ha b hb hab => ?_⟩
          rw [List.mem_singleton.mp hb] at hab
          exact hnew (hab ▸ ha)
        have h0' : 0 ∉ pre ++ [it] := by
          intro h
          rcases List.mem_append.mp h with h | h
          · exact h0 h
          · exact hit (List.mem_singleton.mp h).symm
        have hlast' : ∀ x ∈ pre ++ [it], mem.next x = 0 → x = last := by
          intro x hx hx0
          rcases List.mem_append.mp hx with hx | hx
          · exact hlast x hx hx0
          · rw [List.mem_singleton.mp hx] at hx0 ⊢
            by_contra hne
            exact hgo ⟨hx0, hne⟩
        have hlen' : (pre ++ [it]).length ≤ n := length_le_of_nodup hnd' h0'
        obtain ⟨l, it', r, hchain, hzero, hl, hrun, hends⟩ := ih (nbf + 1)
          ((nbt + (mem it).iolLen) % 2 ^ 64) hch' hnd' h0' hlast'
          (by rw [List.length_append, List.length_singleton]; omega) hlen'
        rw [List.append_assoc] at hchain hzero hl hends
        refine ⟨it :: l, it', r, hchain, hzero, hl, ?_, ?_⟩
        · unfold mark
          rw [if_neg hit]
          dsimp only
          rw [if_neg (by rwa [hmarked, next_setAll]), next_setAll, setAll_snoc, setAll_len]
          exact hrun
        · rw [List.length_cons, Nat.add_comm l.length 1, ← Nat.add_assoc]
          exact hends

/-- The second loop takes the marks away from the whole list. -/
theorem unmark_eq (hch : Chain mem.next it l 0) (h0 : 0 ∉ l) (hk : l.length ≤ k) :
    unmark k it mem = some (mem.setAll l 0) := by
  induction l generalizing it mem k with
  | nil =>
    obtain rfl : it = 0 := hch
    unfold unmark
    rw [if_pos rfl, setAll_nil]
  | cons i l ih =>
    obtain ⟨rfl, hch⟩ := hch
    obtain ⟨hit, h0⟩ := not_or.mp (fun h => h0 (List.mem_cons.mpr h))
    obtain ⟨k, rfl⟩ : ∃ k', k = k' + 1 := ⟨k - 1, by rw [List.length_cons] at hk; omega⟩
    unfold unmark
    rw [if_neg (Ne.symm hit)]
    dsimp only
    rw [@ih (mem.next it) (mem.setRsvd it 0) k (by rw [next_setRsvd]; exact hch) h0
      (by rw [List.length_cons] at hk; omega), setAll_cons]

/-- The loop after `error` takes the mark away from the element it stops at, and from no other. -/
theorem unmarkError_eq (hch : Chain mem.next first l it) (hk : l.length ≤ k) :
    ∃ v, unmarkError it k first mem = some v ∧ (v = mem ∨ it ≠ first ∧ v = mem.setRsvd it 0) := by
  induction l generalizing first mem k with
  | nil =>
    obtain rfl : first = it := hch
    refine ⟨mem, ?_, .inl rfl⟩
    unfold unmarkError
    rw [if_pos rfl]
  | cons i l ih =>
    obtain ⟨rfl, hch⟩ := hch
    by_cases hfirst : first = it
    · refine ⟨mem, ?_, .inl rfl⟩
      unfold unmarkError
      rw [if_pos hfirst]
    · obtain ⟨k, rfl⟩ : ∃ k', k = k' + 1 := ⟨k - 1, by rw [List.length_cons] at hk; omega⟩
      obtain ⟨v, hv, hcases⟩ := @ih (mem.next first) (mem.setRsvd it 0) k
        (by rw [next_setRsvd]; exact hch) (by rw [List.length_cons] at hk; omega)
      refine ⟨v, ?_, .inr ⟨Ne.symm hfirst, ?_⟩⟩
      · unfold unmarkError
        rw [if_neg hfirst]
        exact hv
      · rcases hcases with rfl | ⟨-, rfl⟩
        · rfl
        · unfold IolMem.setRsvd
          rw [Function.update_self, Function.update_idem]

/-! ## The whole function -/

/-- A list is valid in one way at most, and only if the loop does not find a mistake in it. -/
theorem Valid.unique {l' : List (IolPtr n)} (h : Valid first last mem l)
    (h' : Valid first last mem l') : l = l' := by
  rcases h with ⟨hfirst, -, rfl⟩ | ⟨hch, h0, hl⟩ <;>
    rcases h' with ⟨hfirst', -, rfl⟩ | ⟨hch', h0', hl'⟩
  · rfl
  · rw [hfirst] at hch'
    rw [hch'.eq_nil h0']
  · rw [hfirst'] at hch
    rw [hch.eq_nil h0]
  · exact hch.unique hch' h0 h0'

/-- The first loop from the first element on. -/
theorem mark_first (first last : IolPtr n) (hm : ∀ x, (mem x).iolRsvd = 0) :
    ∃ l it r, Chain mem.next first l it ∧ 0 ∉ l ∧ l.length ≤ n ∧
      mark last (n + 1) first mem 0 0 = some r ∧
      Ends last mem l.length (mem.bytes l % 2 ^ 64) l it r := by
  obtain ⟨l, it, r, hch, h0, hlen, hrun, hends⟩ := mark_ends last (n + 1) 0 0 hm
    (show Chain mem.next first [] first from rfl) List.nodup_nil List.not_mem_nil
    (fun x hx => absurd hx List.not_mem_nil) (by rw [List.length_nil]; omega)
  rw [setAll_nil] at hrun
  rw [counted_eq mem l (by decide), Nat.zero_add, Nat.zero_add] at hends
  exact ⟨l, it, r, hch, h0, hlen, hrun, hends⟩

theorem counted_setRsvd (mem : IolMem n) (l : List (IolPtr n)) (it : IolPtr n) (v : ℕ) :
    counted (mem.setRsvd it v) nbt l = counted mem nbt l := by
  have hlen : ∀ x, (mem.setRsvd it v x).iolLen = (mem x).iolLen := by
    intro x
    unfold IolMem.setRsvd
    by_cases hx : x = it
    · rw [hx, Function.update_self]
    · rw [Function.update_of_ne hx]
  unfold counted
  simp only [hlen]

/-- The first loop marks a valid list. -/
theorem mark_valid (k nbf nbt : ℕ) (hch : Chain mem.next it l 0) (h0 : 0 ∉ l)
    (hm : ∀ x ∈ l, (mem x).iolRsvd = 0)
    (hlast : ∀ x ∈ l, mem.next x = 0 → x = last) (hk : l.length ≤ k) :
    mark last k it mem nbf nbt =
      some (.marked (mem.setAll l 1) (nbf + l.length) (counted mem nbt l)) := by
  induction l generalizing it mem k nbf nbt with
  | nil =>
    obtain rfl : it = 0 := hch
    unfold mark
    rw [if_pos rfl, setAll_nil]
    rfl
  | cons i l ih =>
    have hnd := List.nodup_cons.mp (hch.nodup h0)
    obtain ⟨rfl, hch⟩ := hch
    obtain ⟨hit, h0⟩ := not_or.mp (fun h => h0 (List.mem_cons.mpr h))
    obtain ⟨hi, hm⟩ := List.forall_mem_cons.mp hm
    obtain ⟨hend, hlast⟩ := List.forall_mem_cons.mp hlast
    obtain ⟨k, rfl⟩ : ∃ k', k = k' + 1 := ⟨k - 1, by rw [List.length_cons] at hk; omega⟩
    have hstop : ¬((mem it).iolRsvd ≠ 0 ∨ mem.next it = 0 ∧ it ≠ last) := by
      rintro (h | ⟨h, hne⟩)
      · exact h hi
      · exact hne (hend h)
    unfold mark
    rw [if_neg (Ne.symm hit)]
    dsimp only
    rw [if_neg hstop, @ih (mem.next it) (mem.setRsvd it 1) k (nbf + 1) _
      (by rw [next_setRsvd]; exact hch) h0 (fun x hx => ?_) (by rw [next_setRsvd]; exact hlast)
      (Nat.le_of_succ_le_succ hk), setAll_cons, counted_setRsvd, Nat.add_assoc, Nat.add_comm 1]
    · rfl
    · have hne : x ≠ it := fun h => hnd.1 (h ▸ hx)
      unfold IolMem.setRsvd
      rw [Function.update_of_ne hne]
      exact hm x hx

/-- A valid list is accepted; its bytes are counted in a `size_t`. -/
theorem iolcheck_valid (hm : ∀ x ∈ l, (mem x).iolRsvd = 0) (hv : Valid first last mem l) :
    iolcheck first last mem = some (.ok (l.length, mem.bytes l % 2 ^ 64), mem) := by
  by_cases hnull : first = 0 ∧ last = 0
  · rw [hv.unique (.inl ⟨hnull.1, hnull.2, rfl⟩)]
    unfold iolcheck
    rw [if_pos hnull]
    rfl
  · obtain ⟨hfirst, hlast, -⟩ | ⟨hch, h0, hl⟩ := hv
    · exact absurd ⟨hfirst, hlast⟩ hnull
    have hlen := length_le_of_nodup (hch.nodup h0) h0
    obtain ⟨l₁, rfl⟩ := List.getLast?_eq_some_iff.mp hl
    have hnext : mem.next last = 0 := (chain_concat.mp hch).2
    have hpass : ¬(first = 0 ∨ last = 0 ∨ mem.next last ≠ 0) := by
      rintro (rfl | rfl | h)
      · exact absurd (hch.eq_nil h0) (by simp)
      · exact h0 (List.mem_append_right _ (List.mem_singleton_self _))
      · exact h hnext
    have hmark := mark_valid (n + 1) 0 0 hch h0 hm
      (fun x hx h => hch.eq_last h0 hx h) (Nat.le_succ_of_le hlen)
    have hun := unmark_eq (show Chain (mem.setAll (l₁ ++ [last]) 1).next first (l₁ ++ [last]) 0 by
      rw [next_setAll]; exact hch) h0 (Nat.le_succ_of_le hlen)
    rw [setAll_setAll hm] at hun
    rw [counted_eq mem _ (by decide), Nat.zero_add, Nat.zero_add] at hmark
    unfold iolcheck
    rw [if_neg hnull, if_neg hpass, hmark]
    show (unmark (n + 1) first _).bind _ = _
    rw [hun]
    rfl

/-- Any other list is refused. Behind the first element the marks are left in the list. -/
theorem iolcheck_invalid (hm : ∀ x, (mem x).iolRsvd = 0) (hv : ¬∃ l, Valid first last mem l) :
    ∃ mem', iolcheck first last mem = some (.error .EINVAL, mem') ∧
      (mem' = mem ↔ first = 0 ∨ last = 0 ∨ mem.next last ≠ 0 ∨ mem.next first = 0) := by
  have hnull : ¬(first = 0 ∧ last = 0) := fun h => hv ⟨[], .inl ⟨h.1, h.2, rfl⟩⟩
  unfold iolcheck
  rw [if_neg hnull]
  by_cases hearly : first = 0 ∨ last = 0 ∨ mem.next last ≠ 0
  · rw [if_pos hearly]
    exact ⟨mem, rfl, iff_of_true rfl (by tauto)⟩
  · rw [if_neg hearly]
    obtain ⟨l, it, r, hch, h0, hlen, hrun, hends⟩ := mark_first first last hm
    rw [hrun]
    obtain ⟨hfirst, -, -⟩ : first ≠ 0 ∧ last ≠ 0 ∧ mem.next last = 0 := by tauto
    cases hends with
    | marked hlast =>
      obtain ⟨l₁, x, rfl⟩ := List.eq_nil_or_concat' l |>.resolve_left (hch.ne_nil hfirst)
      have hx := hlast x (List.mem_append_right _ (List.mem_singleton_self x))
        (chain_concat.mp hch).2
      exact absurd ⟨_, .inr ⟨hch, h0, by rw [List.getLast?_concat, hx]⟩⟩ hv
    | error hit hstop =>
      obtain ⟨v, hun, hcases⟩ := unmarkError_eq (show Chain (mem.setAll l 1).next first l it by
        rw [next_setAll]; exact hch) (Nat.le_succ_of_le hlen)
      refine ⟨v, ?_, ?_⟩
      · show (unmarkError it (n + 1) first _).bind _ = _
        rw [hun]
        rfl
      · have hlate : (first = 0 ∨ last = 0 ∨ mem.next last ≠ 0 ∨ mem.next first = 0) ↔
            mem.next first = 0 := by tauto
        rw [hlate]
        cases l with
        | nil =>
          -- the first element is refused itself
          obtain rfl : first = it := hch
          have hnext := (hstop.resolve_left List.not_mem_nil).1
          rw [setAll_nil] at hcases
          exact iff_of_true (hcases.resolve_right fun h => h.1 rfl) hnext
        | cons i l =>
          obtain ⟨rfl, hch⟩ := hch
          have hmark : (v first).iolRsvd = 1 := by
            have hset : (mem.setAll (first :: l) 1 first).iolRsvd = 1 := by
              unfold IolMem.setAll
              rw [if_pos List.mem_cons_self]
            rcases hcases with rfl | ⟨hne, rfl⟩
            · exact hset
            · unfold IolMem.setRsvd
              rw [Function.update_of_ne (Ne.symm hne)]
              exact hset
          refine iff_of_false ?_ ?_
          · rintro rfl
            rw [hm first] at hmark
            exact absurd hmark (by decide)
          · intro hnext
            rw [hnext] at hch
            rcases hch.eq_or_mem with h | h
            · exact hit h.symm
            · exact h0 (List.mem_cons_of_mem _ h)

/-- **`dill_iolcheck` terminates**, on cycles, too. -/
theorem iolcheck_terminates (first last : IolPtr n) (hm : ∀ x, (mem x).iolRsvd = 0) :
    (iolcheck first last mem).isSome := by
  by_cases hv : ∃ l, Valid first last mem l
  · obtain ⟨l, hl⟩ := hv
    rw [iolcheck_valid (fun x _ => hm x) hl]
    rfl
  · obtain ⟨mem', hrun, -⟩ := iolcheck_invalid hm hv
    rw [hrun]
    rfl

/-- **When `dill_iolcheck` is right**: when the bytes of a valid list can be counted, and when a
list that is not valid is refused before its second element. Behind that one the first element
keeps its mark, because the loop after `error` unmarks `it` instead of `it2`. -/
theorem iolcheck_right_iff (first last : IolPtr n) (mem : IolMem n)
    (hm : ∀ x, (mem x).iolRsvd = 0) :
    Right first last mem (iolcheck first last mem) ↔
      (∀ l, Valid first last mem l → mem.bytes l < 2 ^ 64) ∧
        ((∃ l, Valid first last mem l) ∨
          first = 0 ∨ last = 0 ∨ mem.next last ≠ 0 ∨ mem.next first = 0) := by
  by_cases hv : ∃ l, Valid first last mem l
  · obtain ⟨l, hl⟩ := hv
    rw [iolcheck_valid (fun x _ => hm x) hl]
    have hcount : Right first last mem (some (.ok (l.length, mem.bytes l % 2 ^ 64), mem)) ↔
        mem.bytes l < 2 ^ 64 := by
      constructor
      · intro h
        have hfst := h.accepts l hl
        simp only [Option.map_some, Option.some.injEq, Except.ok.injEq, Prod.mk.injEq,
          true_and] at hfst
        rw [← hfst]
        exact Nat.mod_lt _ (by decide)
      · intro h
        refine ⟨fun l' hl' => ?_, fun hno => absurd ⟨l, hl⟩ hno, rfl⟩
        rw [hl'.unique hl, Nat.mod_eq_of_lt h]
        rfl
    rw [hcount]
    constructor
    · intro h
      exact ⟨fun l' hl' => by rwa [hl'.unique hl], .inl ⟨l, hl⟩⟩
    · rintro ⟨h, -⟩
      exact h l hl
  · obtain ⟨mem', hrun, hmem⟩ := iolcheck_invalid hm hv
    rw [hrun]
    constructor
    · intro h
      exact ⟨fun l hl => absurd ⟨l, hl⟩ hv, .inr (hmem.mp (Option.some.inj h.restores))⟩
    · rintro ⟨-, h | h⟩
      · exact absurd h hv
      · exact ⟨fun l hl => absurd ⟨l, hl⟩ hv, fun _ => rfl, congrArg some (hmem.mpr h)⟩

/-- Two elements in a ring, and a third one that is passed as the last one. -/
def ring : IolMem 3 := fun it =>
  { iolBase := it.val
    iolLen := 4
    iolNext := if it = 1 then 2 else if it = 2 then 1 else 0
    iolRsvd := 0 }

theorem iolcheck_marks_ring : ¬Right 1 3 ring (iolcheck 1 3 ring) := by
  intro h
  have hmark := congrArg (Option.map fun mem => (mem 1).iolRsvd) h.restores
  exact absurd hmark (by decide)

theorem iolcheck_right_iff_ring : (∀ x, (ring x).iolRsvd = 0) ∧
    (Right 1 3 ring (iolcheck 1 3 ring) ↔
      (∀ l, Valid 1 3 ring l → ring.bytes l < 2 ^ 64) ∧
        ((∃ l, Valid 1 3 ring l) ∨
          (1 : IolPtr 3) = 0 ∨ (3 : IolPtr 3) = 0 ∨ ring.next 3 ≠ 0 ∨ ring.next 1 = 0)) :=
  ⟨by decide, iolcheck_right_iff 1 3 ring (by decide)⟩

end Libdill.Sock
