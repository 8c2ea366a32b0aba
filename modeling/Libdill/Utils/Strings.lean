import Mathlib.Data.Nat.Notation
import Mathlib.Data.List.DropRight

/-!
# Strings

The string functions of `utils.c`, and of the C library where `http.c` uses them. A pointer into a
string is the number of characters before it.

* `drop_lstrip`, `take_rstrip`: what is left of a string.
* `strip`: a string without the characters at both of its ends.
-/

namespace Libdill.Utils

/-- A string, without the null character that ends it. -/
structure CString where
  bytes : List UInt8
  noNull : 0 ∉ bytes

/-- Whether `strpbrk` finds one of the characters. -/
def strpbrk (s : CString) (accept : List UInt8) : Bool := s.bytes.any fun c => accept.contains c

/-- `dill_lstrip`. -/
def lstrip (delim : UInt8) : List UInt8 → ℕ
  | [] => 0
  | c :: string => if c = delim then lstrip delim string + 1 else 0

/-- The loop of `dill_rstrip`, from the character `end` on. -/
def rstripLoop (string : List UInt8) (delim : UInt8) : ℕ → ℕ
  | 0 => 0
  | n + 1 => if string[n + 1]? = some delim then rstripLoop string delim n else n + 1

/-- `dill_rstrip`. The loop starts before the beginning of an empty string, and so does nothing. -/
def rstrip (delim : UInt8) (string : List UInt8) : ℕ :=
  if string.length = 0 then 0 else rstripLoop string delim (string.length - 1) + 1

variable {s : CString} {accept string : List UInt8} {delim : UInt8} {n : ℕ}

theorem strpbrk_eq_false : strpbrk s accept = false ↔ ∀ c ∈ s.bytes, c ∉ accept := by
  simp [strpbrk]

/-- **The string without the characters at its front.** -/
theorem drop_lstrip (delim : UInt8) (string : List UInt8) :
    string.drop (lstrip delim string) = string.dropWhile (· = delim) := by
  induction string with
  | nil => rfl
  | cons c string ih =>
    by_cases h : c = delim
    · simp [lstrip, h, ih]
    · simp [lstrip, h]

theorem take_rstripLoop (hhead : string.head? ≠ some delim) (hn : n < string.length) :
    string.take (rstripLoop string delim n + 1)
      = (string.take (n + 1)).rdropWhile (· = delim) := by
  induction n with
  | zero =>
    cases string with
    | nil => simp at hn
    | cons c string =>
      have hc : c ≠ delim := fun h => hhead (by rw [h]; rfl)
      simp [rstripLoop, List.rdropWhile, hc]
  | succ n ih =>
    have htake : string.take (n + 2) = string.take (n + 1) ++ [string[n + 1]] :=
      List.take_succ_eq_append_getElem hn
    rw [rstripLoop, List.getElem?_eq_getElem hn, htake]
    by_cases h : string[n + 1] = delim
    · rw [if_pos (by rw [h]), List.rdropWhile_concat_pos _ _ _ (by simpa using h)]
      exact ih (by omega)
    · rw [if_neg (by simpa using h), List.rdropWhile_concat_neg _ _ _ (by simpa using h), htake]

/-- **The string without the characters at its end**, if it does not start with one of them. -/
theorem take_rstrip (hhead : string.head? ≠ some delim) :
    string.take (rstrip delim string) = string.rdropWhile (· = delim) := by
  unfold rstrip
  by_cases h : string.length = 0
  · rw [if_pos h, List.length_eq_zero_iff.mp h]
    rfl
  · rw [if_neg h, take_rstripLoop hhead (by omega), Nat.sub_add_cancel (by omega), List.take_length]

theorem rstrip_le (delim : UInt8) (string : List UInt8) : rstrip delim string ≤ string.length := by
  have hloop : ∀ n, rstripLoop string delim n ≤ n := by
    intro n
    induction n with
    | zero => exact Nat.zero_le 0
    | succ n ih =>
      unfold rstripLoop
      split <;> omega
  unfold rstrip
  have hle := hloop (string.length - 1)
  split <;> omega

/-! ## Both ends -/

/-- The string without the characters at its ends. -/
def strip (delim : UInt8) (string : List UInt8) : List UInt8 :=
  (string.dropWhile (· = delim)).rdropWhile (· = delim)

theorem head_dropWhile_ne : (string.dropWhile (· = delim)).head? ≠ some delim := by
  intro h
  have hnot := List.head?_dropWhile_not (fun c => decide (c = delim)) string
  rw [h] at hnot
  simp at hnot

/-- What the two functions leave between their pointers. -/
theorem take_strip :
    (string.drop (lstrip delim string)).take (rstrip delim (string.drop (lstrip delim string)))
      = strip delim string := by
  rw [drop_lstrip, take_rstrip head_dropWhile_ne]
  rfl

theorem length_strip :
    rstrip delim (string.drop (lstrip delim string)) = (strip delim string).length := by
  rw [← take_strip, List.length_take, Nat.min_eq_left (rstrip_le _ _)]

theorem strip_eq_nil : strip delim string = [] ↔ ∀ c ∈ string, c = delim := by
  unfold strip
  rw [List.rdropWhile_eq_nil_iff]
  constructor
  · intro h c hc
    by_contra hne
    have hmem : ∃ x ∈ string.dropWhile (· = delim), x ≠ delim := by
      have hsplit := @List.takeWhile_append_dropWhile _ (fun c => decide (c = delim)) string
      rw [← hsplit] at hc
      rcases List.mem_append.mp hc with hc | hc
      · exact absurd (by simpa using List.mem_takeWhile_imp hc) hne
      · exact ⟨c, hc, hne⟩
    obtain ⟨x, hx, hxne⟩ := hmem
    exact hxne (by simpa using h x hx)
  · intro h c hc
    simpa using h c (List.dropWhile_subset _ hc)

/-- What has been stripped. -/
theorem eq_strip (delim : UInt8) (string : List UInt8) :
    ∃ a b, string = List.replicate a delim ++ strip delim string ++ List.replicate b delim := by
  have hfront : ∀ c ∈ string.takeWhile (· = delim), c = delim := fun c hc => by
    simpa using List.mem_takeWhile_imp hc
  have hback : ∀ c ∈ (string.dropWhile (· = delim)).rtakeWhile (· = delim), c = delim :=
    fun c hc => by simpa using List.mem_rtakeWhile_imp hc
  refine ⟨(string.takeWhile (· = delim)).length,
    ((string.dropWhile (· = delim)).rtakeWhile (· = delim)).length, ?_⟩
  rw [← List.eq_replicate_of_mem hfront, ← List.eq_replicate_of_mem hback, List.append_assoc, strip,
    List.rdropWhile_append_rtakeWhile, List.takeWhile_append_dropWhile]

theorem mem_strip {c : UInt8} (h : c ∈ strip delim string) : c ∈ string := by
  obtain ⟨a, b, heq⟩ := eq_strip delim string
  rw [heq]
  simp [h]

theorem head_strip : (strip delim string).head? ≠ some delim := by
  intro h
  obtain ⟨t, ht⟩ := List.rdropWhile_prefix (fun c => decide (c = delim))
    (string.dropWhile (· = delim))
  apply @head_dropWhile_ne string delim
  rw [← ht, List.head?_append]
  unfold strip at h
  rw [h]
  rfl

end Libdill.Utils
