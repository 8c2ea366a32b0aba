import Libdill.Http.Lines

/-!
# The words of a line

What a line looks like, in terms of the words the parsers find in it: the grammars of the lines, for
lines without null characters.

* `word_eq`, `exists_word`: a line starts with spaces and a word.
* `requestShape_iff`, `statusShape_iff`, `fieldShape_eq`: the shapes of the lines.
-/

namespace Libdill.Http

open Foundations

variable {m w rest command resource protocol reason name text : List UInt8} {a b c d k : ℕ}
  {x y z : UInt8}

/-- So many spaces. -/
def spaces (k : ℕ) : List UInt8 := List.replicate k 32

@[simp] theorem spaces_zero : spaces 0 = [] := rfl

@[simp] theorem length_spaces (k : ℕ) : (spaces k).length = k := List.length_replicate

theorem mem_spaces (h : x ∈ spaces k) : x = 32 := List.eq_of_mem_replicate h

/-- A word: it is not empty, and has no space and no null character in it. -/
structure IsToken (w : List UInt8) : Prop where
  ne_nil : w ≠ []
  noSpace : 32 ∉ w
  noNull : 0 ∉ w

/-! ## Spaces and words -/

@[simp] theorem isSpace_iff : isSpace x = true ↔ x = 32 := beq_iff_eq

theorem isSpace_eq_false : isSpace x = false ↔ x ≠ 32 := beq_eq_false_iff_ne

theorem isWord_iff : isWord x = true ↔ x ≠ 0 ∧ x ≠ 32 := by simp [isWord]

theorem isWord_eq_false : isWord x = false ↔ x = 0 ∨ x = 32 := by
  rw [← Bool.not_eq_true, isWord_iff]
  tauto

theorem takeWhile_isSpace (m : List UInt8) :
    m.takeWhile isSpace = spaces (m.takeWhile isSpace).length := by
  apply List.eq_replicate_of_mem
  intro x hx
  exact isSpace_iff.mp (List.mem_takeWhile_imp hx)

theorem eq_spaces (m : List UInt8) :
    m = spaces (m.takeWhile isSpace).length ++ m.dropWhile isSpace := by
  rw [← takeWhile_isSpace, List.takeWhile_append_dropWhile]

theorem dropWhile_spaces (k : ℕ) (h : ∀ x ∈ m.head?, x ≠ 32) :
    (spaces k ++ m).dropWhile isSpace = m := by
  apply dropWhile_append_stop
  · exact fun x hx => isSpace_iff.mpr (mem_spaces hx)
  · exact fun x hx => isSpace_eq_false.mpr (h x hx)

theorem head_dropSpaces (h : x ∈ (m.dropWhile isSpace).head?) : x ≠ 32 := by
  have hno := head_dropWhile h
  intro hx
  rw [hx] at hno
  cases hno

theorem IsToken.head (hw : IsToken w) : ∀ x ∈ (w ++ rest).head?, x ≠ 32 := by
  obtain ⟨c, w, rfl⟩ := List.exists_cons_of_ne_nil hw.ne_nil
  intro x hx
  cases hx
  intro h
  exact hw.noSpace (by rw [h]; exact List.mem_cons_self)

/-- **A word behind spaces.** -/
theorem word_eq (a : ℕ) (hw : IsToken w) (hrest : ∀ x ∈ rest.head?, x = 32) :
    word (spaces a ++ (w ++ rest)) = w ∧ behind (spaces a ++ (w ++ rest)) = rest := by
  unfold word behind
  rw [dropWhile_spaces a hw.head]
  have hall : ∀ x ∈ w, isWord x = true := by
    intro x hx
    refine isWord_iff.mpr ⟨fun h => hw.noNull (h ▸ hx), fun h => hw.noSpace (h ▸ hx)⟩
  have hstop : ∀ x ∈ rest.head?, isWord x = false := fun x hx =>
    isWord_eq_false.mpr (.inr (hrest x hx))
  exact ⟨takeWhile_append_stop hall hstop, dropWhile_append_stop hall hstop⟩

theorem mem_behind (h : x ∈ behind m) : x ∈ m :=
  List.dropWhile_subset _ (List.dropWhile_subset _ h)

theorem head_behind (hm : 0 ∉ m) : ∀ x ∈ (behind m).head?, x = 32 := by
  intro x hx
  rcases isWord_eq_false.mp (head_dropWhile hx) with rfl | rfl
  · exact absurd (mem_behind (List.mem_of_mem_head? hx)) hm
  · rfl

/-- **A line that goes on behind a word.** -/
theorem exists_word (hm : 0 ∉ m) :
    ∃ a, m = spaces a ++ (word m ++ behind m) ∧ (word m ≠ [] → IsToken (word m)) ∧
      (behind m ≠ [] → word m ≠ []) ∧ (m.head? = some 32 → 0 < a) := by
  refine ⟨(m.takeWhile isSpace).length, ?_, ?_, ?_, ?_⟩
  · unfold word behind
    rw [List.takeWhile_append_dropWhile]
    exact eq_spaces m
  · intro hne
    have hall : ∀ x ∈ word m, x ≠ 0 ∧ x ≠ 32 := fun x hx =>
      isWord_iff.mp (List.mem_takeWhile_imp hx)
    exact ⟨hne, fun h => (hall _ h).2 rfl, fun h => (hall _ h).1 rfl⟩
  · intro hne hnil
    obtain ⟨x, rest, hrest⟩ := List.exists_cons_of_ne_nil hne
    have hx := head_behind hm x (by rw [hrest]; rfl)
    have hline : m.dropWhile isSpace = behind m := by
      have hsplit := @List.takeWhile_append_dropWhile _ isWord (m.dropWhile isSpace)
      change word m ++ behind m = _ at hsplit
      rw [hnil, List.nil_append] at hsplit
      exact hsplit.symm
    apply @head_dropSpaces m x _ hx
    rw [hline, hrest]
    rfl
  · intro hhead
    obtain ⟨rest, rfl⟩ : ∃ rest, m = 32 :: rest := by
      cases m with
      | nil => cases hhead
      | cons c m =>
        cases hhead
        exact ⟨m, rfl⟩
    rw [List.takeWhile_cons_of_pos (by decide), List.length_cons]
    exact Nat.succ_pos _

@[simp] theorem word_nil : word [] = [] := rfl

@[simp] theorem behind_nil : behind [] = [] := rfl

theorem headD_ne_zero (hm : 0 ∉ m) : m.headD 0 ≠ 0 ↔ m ≠ [] := by
  cases m with
  | nil => simp
  | cons x m =>
    have hx : x ≠ 0 := fun h => hm (by rw [h]; exact List.mem_cons_self)
    simp [hx]

theorem head_of_ne_nil (h : ∀ x ∈ m.head?, x = 32) (hne : m ≠ []) : m.head? = some 32 := by
  obtain ⟨x, m, rfl⟩ := List.exists_cons_of_ne_nil hne
  rw [List.head?_cons, h x rfl]

/-! ## Requests -/

/-- Three words, with spaces around them. -/
def RequestShape (command resource protocol m : List UInt8) : Prop :=
  IsToken command ∧ IsToken resource ∧ IsToken protocol ∧ ∃ a b c d,
    m = spaces a ++ command ++ spaces (b + 1) ++ resource ++ spaces (c + 1) ++ protocol ++ spaces d

theorem requestShape_iff (hm : 0 ∉ m) :
    RequestShape command resource protocol m ↔
      word m = command ∧ word (behind m) = resource ∧ word (behind (behind m)) = protocol ∧
        protocol ≠ [] ∧ (behind (behind (behind m))).dropWhile isSpace = [] := by
  constructor
  · rintro ⟨hcommand, hresource, hprotocol, a, b, c, d, rfl⟩
    simp only [List.append_assoc]
    obtain ⟨hw₁, hb₁⟩ := @word_eq _ (spaces (b + 1) ++ (resource ++ (spaces (c + 1) ++
      (protocol ++ spaces d)))) a hcommand fun x hx => by cases hx; rfl
    obtain ⟨hw₂, hb₂⟩ := @word_eq _ (spaces (c + 1) ++ (protocol ++ spaces d)) (b + 1) hresource
      fun x hx => by cases hx; rfl
    obtain ⟨hw₃, hb₃⟩ := @word_eq _ (spaces d) (c + 1) hprotocol
      fun x hx => mem_spaces (List.mem_of_mem_head? hx)
    rw [hb₁, hb₂, hb₃]
    refine ⟨hw₁, hw₂, hw₃, hprotocol.ne_nil, ?_⟩
    rw [← List.append_nil (spaces d)]
    exact dropWhile_spaces d nofun
  · rintro ⟨rfl, rfl, rfl, hne, hend⟩
    have hm₁ : 0 ∉ behind m := fun h => hm (mem_behind h)
    have hm₂ : 0 ∉ behind (behind m) := fun h => hm₁ (mem_behind h)
    obtain ⟨a, ha, htoken₁, hword₁, -⟩ := exists_word hm
    obtain ⟨b, hb, htoken₂, hword₂, hpos₂⟩ := exists_word hm₁
    obtain ⟨c, hc, htoken₃, -, hpos₃⟩ := exists_word hm₂
    have hne₂ : behind (behind m) ≠ [] := by
      intro h
      rw [h] at hne
      exact hne rfl
    have hne₁ : behind m ≠ [] := by
      intro h
      rw [h] at hne₂
      exact hne₂ rfl
    have hb0 := hpos₂ (head_of_ne_nil (head_behind hm) hne₁)
    have hc0 := hpos₃ (head_of_ne_nil (head_behind hm₁) hne₂)
    refine ⟨htoken₁ (hword₁ hne₁), htoken₂ (hword₂ hne₂), htoken₃ hne, a, b - 1, c - 1,
      ((behind (behind (behind m))).takeWhile isSpace).length, ?_⟩
    have hd := eq_spaces (behind (behind (behind m)))
    rw [hend, List.append_nil] at hd
    rw [Nat.sub_add_cancel hb0, Nat.sub_add_cancel hc0, ← hd]
    simp only [List.append_assoc]
    rw [← hc, ← hb, ← ha]

/-! ## Statuses -/

/-- A protocol, three digits and a reason. -/
def StatusShape (protocol : List UInt8) (x y z : UInt8) (reason m : List UInt8) : Prop :=
  IsToken protocol ∧ [x, y, z].all isDigit = true ∧ (∀ r ∈ reason.head?, r ≠ 32) ∧ ∃ a b c,
    m = spaces a ++ protocol ++ spaces (b + 1) ++ [x, y, z] ++ spaces (c + 1) ++ reason

theorem isToken_digits (h : [x, y, z].all isDigit = true) : IsToken [x, y, z] := by
  have hall := List.all_eq_true.mp h
  refine ⟨List.cons_ne_nil _ _, fun hmem => ?_, fun hmem => ?_⟩
  · exact absurd (hall _ hmem) (by decide)
  · exact absurd (hall _ hmem) (by decide)

theorem statusShape_iff (hm : 0 ∉ m) :
    StatusShape protocol x y z reason m ↔
      word m = protocol ∧ protocol ≠ [] ∧ word (behind m) = [x, y, z] ∧
        [x, y, z].all isDigit = true ∧ behind (behind m) ≠ [] ∧ reasonOf m = reason := by
  constructor
  · rintro ⟨hprotocol, hdigits, hreason, a, b, c, rfl⟩
    simp only [List.append_assoc]
    obtain ⟨hw₁, hb₁⟩ := @word_eq _ (spaces (b + 1) ++ ([x, y, z] ++ (spaces (c + 1) ++ reason))) a
      hprotocol fun x hx => by cases hx; rfl
    obtain ⟨hw₂, hb₂⟩ := @word_eq _ (spaces (c + 1) ++ reason) (b + 1) (isToken_digits hdigits)
      fun x hx => by cases hx; rfl
    unfold reasonOf
    rw [hb₁, hb₂]
    exact ⟨hw₁, hprotocol.ne_nil, hw₂, hdigits, List.cons_ne_nil _ _, dropWhile_spaces _ hreason⟩
  · rintro ⟨rfl, hne, hcode, hdigits, hbehind, rfl⟩
    have hm₁ : 0 ∉ behind m := fun h => hm (mem_behind h)
    obtain ⟨a, ha, htoken₁, -, -⟩ := exists_word hm
    obtain ⟨b, hb, -, -, hpos₂⟩ := exists_word hm₁
    have hne₁ : behind m ≠ [] := by
      intro h
      rw [h] at hbehind
      exact hbehind rfl
    have hb0 := hpos₂ (head_of_ne_nil (head_behind hm) hne₁)
    have hc := eq_spaces (behind (behind m))
    have hc0 : 0 < ((behind (behind m)).takeWhile isSpace).length := by
      obtain ⟨rest, hrest⟩ : ∃ rest, behind (behind m) = 32 :: rest := by
        obtain ⟨r, rest, hrest⟩ := List.exists_cons_of_ne_nil hbehind
        have hr := head_behind hm₁ r (by rw [hrest]; rfl)
        exact ⟨rest, by rw [hrest, hr]⟩
      rw [hrest, List.takeWhile_cons_of_pos (by decide), List.length_cons]
      exact Nat.succ_pos _
    refine ⟨htoken₁ hne, hdigits, fun r hr => head_dropSpaces hr, a, b - 1,
      ((behind (behind m)).takeWhile isSpace).length - 1, ?_⟩
    rw [Nat.sub_add_cancel hb0, Nat.sub_add_cancel hc0]
    unfold reasonOf
    simp only [List.append_assoc]
    rw [← hc, ← hcode, ← hb, ← ha]

/-! ## Fields -/

/-- A name, a colon and a text. -/
def fieldShape (a b c d : ℕ) (name text : List UInt8) : List UInt8 :=
  spaces a ++ name ++ spaces b ++ [58] ++ spaces c ++ text ++ spaces d

/-- A colon behind the name. -/
theorem field_fits {s : Args} (hm : 0 ∉ m) (hcolon : (afterName m).headD 0 = 58)
    (hroom : (nameOf m).length < (s .name).length) : FieldFits m s := by
  refine ⟨⟨?_, hroom⟩, hcolon⟩
  have hrest : 0 ∉ (m.dropWhile isSpace).dropWhile isName := fun hmem =>
    hm (List.dropWhile_subset _ (List.dropWhile_subset _ hmem))
  rw [headD_ne_zero hrest]
  intro hnil
  unfold afterName at hcolon
  rw [hnil] at hcolon
  cases hcolon

theorem dropWhile_all_spaces (k : ℕ) : (spaces k).dropWhile isSpace = [] := by
  rw [← List.append_nil (spaces k)]
  exact dropWhile_spaces k nofun

theorem afterName_eq (hname : ∀ x ∈ name, isName x = true) (rest : List UInt8) :
    nameOf (spaces a ++ (name ++ (spaces b ++ 58 :: rest))) = name ∧
      afterName (spaces a ++ (name ++ (spaces b ++ 58 :: rest))) = 58 :: rest := by
  have hcolon : (58 :: rest).dropWhile isSpace = 58 :: rest := rfl
  have hbehind : (spaces b ++ 58 :: rest).dropWhile isSpace = 58 :: rest :=
    dropWhile_spaces b fun x hx => by cases hx; decide
  unfold nameOf afterName
  by_cases hnil : name = []
  · subst hnil
    have hskip : (spaces a ++ ([] ++ (spaces b ++ 58 :: rest))).dropWhile isSpace = 58 :: rest := by
      rw [List.nil_append, List.dropWhile_append_of_pos fun x hx => isSpace_iff.mpr (mem_spaces hx)]
      exact hbehind
    rw [hskip]
    exact ⟨rfl, rfl⟩
  · obtain ⟨n, name, rfl⟩ := List.exists_cons_of_ne_nil hnil
    have hn : n ≠ 32 := by
      rintro rfl
      exact absurd (hname 32 List.mem_cons_self) (by decide)
    rw [dropWhile_spaces a fun x hx => by cases hx; exact hn]
    have hstop : ∀ x ∈ (spaces b ++ 58 :: rest).head?, isName x = false := by
      intro x hx
      cases b with
      | zero =>
        cases hx
        rfl
      | succ b =>
        cases hx
        rfl
    rw [takeWhile_append_stop hname hstop, dropWhile_append_stop hname hstop]
    exact ⟨rfl, hbehind⟩

/-- What the parser finds in it. -/
theorem fieldShape_eq (hname : ∀ x ∈ name, isName x = true) (htext : ∀ x ∈ text.head?, x ≠ 32) :
    nameOf (fieldShape a b c d name text) = name ∧
      (afterName (fieldShape a b c d name text)).headD 0 = 58 ∧
      valueOf (fieldShape a b c d name text) = if text = [] then [] else text ++ spaces d := by
  obtain ⟨hn, hafter⟩ := @afterName_eq name a b hname (spaces c ++ (text ++ spaces d))
  have hshape : fieldShape a b c d name text
      = spaces a ++ (name ++ (spaces b ++ 58 :: (spaces c ++ (text ++ spaces d)))) := by
    simp [fieldShape]
  unfold valueOf
  rw [hshape, hn, hafter]
  refine ⟨rfl, rfl, ?_⟩
  rw [List.tail_cons]
  by_cases hnil : text = []
  · rw [if_pos hnil, hnil, List.nil_append,
      List.dropWhile_append_of_pos fun x hx => isSpace_iff.mpr (mem_spaces hx)]
    exact dropWhile_all_spaces d
  · rw [if_neg hnil]
    apply dropWhile_spaces
    obtain ⟨x, text, rfl⟩ := List.exists_cons_of_ne_nil hnil
    exact htext

end Libdill.Http
