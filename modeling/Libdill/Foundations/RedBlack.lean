import Mathlib.Data.List.Nodup
import Mathlib.Data.Nat.Notation
import Mathlib.Tactic.Tauto

/-!
# Red-black trees and paths in them

Binary trees with a colour at every node, and paths: what is left of a tree when a subtree has been
cut out. A node is written from the side `d` with `CTree.mk d`, so that a fact and its mirror image
are one statement.

* `toList`: the items in order; `toList_rotate`: rotations do not change them.
* `plug`: a path filled with a subtree; `toList_plug` cuts the order at the subtree.
* `RB c n t`: the root of `t` has colour `c` (`true` is red), no red node has a red child, and there
  are `n` black nodes on every way down.
* `Hole c n π`: the path `π` becomes a red-black tree when a subtree with `RB c n` is put in its
  hole; `Hole.plug` and `exists_hole` are its two halves.
* `Short c n t`: the tree is one black node short of the black height `n + 1`; colouring a red root
  black repairs it.
-/

namespace Foundations

variable {α : Type*}

/-- The two sides of a node. -/
inductive Dir
  | left
  | right
  deriving DecidableEq, Repr

/-- The opposite side. -/
def Dir.other : Dir → Dir
  | .left => .right
  | .right => .left

@[simp] theorem Dir.other_other (d : Dir) : d.other.other = d := by cases d <;> rfl

@[simp] theorem Dir.other_ne (d : Dir) : d.other ≠ d := by cases d <;> simp [Dir.other]

@[simp] theorem Dir.ne_other (d : Dir) : d ≠ d.other := d.other_ne.symm

theorem Dir.eq_or_eq_other (d e : Dir) : e = d ∨ e = d.other := by
  cases d <;> cases e <;> simp [Dir.other]

/-- Coloured binary trees. -/
inductive CTree (α : Type*)
  | leaf
  | node (red : Bool) (l : CTree α) (a : α) (r : CTree α)
  deriving DecidableEq, Repr

namespace CTree

/-- The node with the subtree `near` on side `d` and the subtree `far` on the other one. -/
def mk (d : Dir) (red : Bool) (near : CTree α) (a : α) (far : CTree α) : CTree α :=
  match d with
  | .left => node red near a far
  | .right => node red far a near

theorem mk_other (d : Dir) (red : Bool) (near : CTree α) (a : α) (far : CTree α) :
    mk d.other red far a near = mk d red near a far := by
  cases d <;> rfl

theorem node_eq_mk (d : Dir) (red : Bool) (l : CTree α) (a : α) (r : CTree α) :
    ∃ near far, node red l a r = mk d red near a far := by
  cases d with
  | left => exact ⟨l, r, rfl⟩
  | right => exact ⟨r, l, rfl⟩

/-- The items in order. -/
def toList : CTree α → List α
  | leaf => []
  | node _ l a r => l.toList ++ a :: r.toList

@[simp] theorem toList_leaf : (leaf : CTree α).toList = [] := rfl

@[simp] theorem toList_node (red : Bool) (l : CTree α) (a : α) (r : CTree α) :
    (node red l a r).toList = l.toList ++ a :: r.toList := rfl

theorem toList_mk_perm (d : Dir) (red : Bool) (near : CTree α) (a : α) (far : CTree α) :
    (mk d red near a far).toList.Perm (a :: (near.toList ++ far.toList)) := by
  cases d
  · exact List.perm_middle
  · exact List.perm_middle.trans (List.perm_append_comm.cons a)

@[simp] theorem mem_toList_mk {d : Dir} {red : Bool} {near far : CTree α} {a x : α} :
    x ∈ (mk d red near a far).toList ↔ x = a ∨ x ∈ near.toList ∨ x ∈ far.toList := by
  rw [(toList_mk_perm d red near a far).mem_iff, List.mem_cons, List.mem_append]

theorem nodup_mk {d : Dir} {red : Bool} {near far : CTree α} {a : α} :
    (mk d red near a far).toList.Nodup ↔ a ∉ near.toList ∧ a ∉ far.toList ∧ near.toList.Nodup ∧
      far.toList.Nodup ∧ ∀ x ∈ near.toList, x ∉ far.toList := by
  rw [(toList_mk_perm d red near a far).nodup_iff, List.nodup_cons, List.mem_append, not_or,
    List.nodup_append', List.disjoint_left, and_assoc]

theorem toList_mk_congr {d : Dir} {red red' : Bool} {near near' far far' : CTree α} {a : α}
    (hn : near'.toList = near.toList) (hf : far'.toList = far.toList) :
    (mk d red' near' a far').toList = (mk d red near a far).toList := by
  cases d <;> simp [mk, hn, hf]

/-- A rotation keeps the order. -/
theorem toList_rotate (d : Dir) (cx cy cx' cy' : Bool) (A B C : CTree α) (x y : α) :
    (mk d cy' (mk d cx' A x B) y C).toList = (mk d cx A x (mk d cy B y C)).toList := by
  cases d <;> simp [mk]

/-- Smaller keys to the left, larger ones to the right. -/
def Bst {κ : Type*} [LE κ] (key : α → κ) : CTree α → Prop
  | leaf => True
  | node _ l a r => (∀ b ∈ l.toList, key b ≤ key a) ∧ (∀ b ∈ r.toList, key a ≤ key b) ∧
      l.Bst key ∧ r.Bst key

/-- A tree with sorted items is a search tree. -/
theorem bst_of_sorted {κ : Type*} [LE κ] {key : α → κ} {t : CTree α}
    (h : t.toList.Pairwise fun a b => key a ≤ key b) : t.Bst key := by
  induction t with
  | leaf => trivial
  | node red l a r ihl ihr =>
    rw [toList_node, List.pairwise_append, List.pairwise_cons] at h
    obtain ⟨hl, ⟨ha, hr⟩, hlr⟩ := h
    exact ⟨fun b hb => hlr b hb a (.head _), ha, ihl hl, ihr hr⟩

end CTree

open CTree

/-! ## Paths -/

/-- A node on a path: the hole is on its side `dir`. -/
structure Crumb (α : Type*) where
  dir : Dir
  red : Bool
  item : α
  sib : CTree α

/-- Fill the hole below the node. -/
def Crumb.fill (f : Crumb α) (t : CTree α) : CTree α := CTree.mk f.dir f.red t f.item f.sib

/-- Fill the hole of a path; its first node is the one next to the hole. -/
def plug : List (Crumb α) → CTree α → CTree α
  | [], t => t
  | f :: π, t => plug π (f.fill t)

@[simp] theorem plug_nil (t : CTree α) : plug [] t = t := rfl

@[simp] theorem plug_cons (f : Crumb α) (π : List (Crumb α)) (t : CTree α) :
    plug (f :: π) t = plug π (f.fill t) := rfl

/-- The items to the left of the hole. -/
def before : List (Crumb α) → List α
  | [] => []
  | ⟨.left, _, _, _⟩ :: π => before π
  | ⟨.right, _, a, sib⟩ :: π => before π ++ (sib.toList ++ [a])

/-- The items to the right of the hole. -/
def behind : List (Crumb α) → List α
  | [] => []
  | ⟨.left, _, a, sib⟩ :: π => a :: sib.toList ++ behind π
  | ⟨.right, _, _, _⟩ :: π => behind π

theorem toList_plug (π : List (Crumb α)) (t : CTree α) :
    (plug π t).toList = before π ++ t.toList ++ behind π := by
  induction π generalizing t with
  | nil => simp [before, behind]
  | cons f π ih =>
    obtain ⟨d, red, a, sib⟩ := f
    cases d <;> simp [ih, before, behind, Crumb.fill, CTree.mk]

theorem toList_plug_node (π : List (Crumb α)) (red : Bool) (l : CTree α) (a : α) (r : CTree α) :
    (plug π (node red l a r)).toList = before π ++ l.toList ++ a :: (r.toList ++ behind π) := by
  simp [toList_plug]

theorem toList_plug_congr {π : List (Crumb α)} {t t' : CTree α} (h : t'.toList = t.toList) :
    (plug π t').toList = (plug π t).toList := by
  rw [toList_plug, toList_plug, h]

/-- Items of the path. -/
def pathItems (π : List (Crumb α)) : List α := before π ++ behind π

theorem pathItems_cons_perm (f : Crumb α) (π : List (Crumb α)) :
    (pathItems (f :: π)).Perm (f.item :: (f.sib.toList ++ pathItems π)) := by
  obtain ⟨d, red, a, sib⟩ := f
  cases d
  · simp only [pathItems, before, behind, List.cons_append]
    exact List.perm_middle.trans ((List.perm_append_comm_assoc _ _ _).cons a)
  · simp only [pathItems, before, behind, List.append_assoc, List.singleton_append]
    exact (List.perm_append_comm_assoc _ _ _).trans (by
      rw [← List.append_assoc]
      have hmid := @List.perm_middle _ a (sib.toList ++ before π) (behind π)
      exact hmid.trans (by simp))

theorem mem_pathItems_cons {f : Crumb α} {π : List (Crumb α)} {x : α} :
    x ∈ pathItems (f :: π) ↔ x = f.item ∨ x ∈ f.sib.toList ∨ x ∈ pathItems π := by
  rw [(pathItems_cons_perm f π).mem_iff, List.mem_cons, List.mem_append]

theorem nodup_pathItems_cons {f : Crumb α} {π : List (Crumb α)} :
    (pathItems (f :: π)).Nodup ↔ f.item ∉ f.sib.toList ∧ f.item ∉ pathItems π ∧
      f.sib.toList.Nodup ∧ (pathItems π).Nodup ∧ ∀ x ∈ f.sib.toList, x ∉ pathItems π := by
  rw [(pathItems_cons_perm f π).nodup_iff, List.nodup_cons, List.mem_append, not_or,
    List.nodup_append', List.disjoint_left, and_assoc]

/-- The items of a filled path are those of the subtree and those of the path. -/
theorem toList_plug_perm (π : List (Crumb α)) (t : CTree α) :
    (plug π t).toList.Perm (t.toList ++ pathItems π) := by
  rw [toList_plug, pathItems, ← List.append_assoc]
  exact List.perm_append_comm.append_right _

/-- Without repetitions, the subtree and the path have no item in common. -/
theorem nodup_plug {π : List (Crumb α)} {t : CTree α} :
    (plug π t).toList.Nodup ↔
      t.toList.Nodup ∧ (pathItems π).Nodup ∧ ∀ x ∈ t.toList, x ∉ pathItems π := by
  rw [(toList_plug_perm π t).nodup_iff, List.nodup_append', List.disjoint_left]

theorem length_le_plug (π : List (Crumb α)) (t : CTree α) :
    π.length + t.toList.length ≤ (plug π t).toList.length := by
  induction π generalizing t with
  | nil => simp
  | cons f π ih =>
    have h := ih (f.fill t)
    have hf : t.toList.length + 1 ≤ (f.fill t).toList.length := by
      obtain ⟨d, red, a, sib⟩ := f
      cases d <;> simp [Crumb.fill, CTree.mk]
    rw [plug_cons, List.length_cons]
    omega

/-- Every item of a tree is the root of a subtree. -/
theorem exists_plug_of_mem {t : CTree α} {x : α} (h : x ∈ t.toList) :
    ∃ π red l r, t = plug π (node red l x r) := by
  have hgen : ∀ (t : CTree α) (ρ : List (Crumb α)), x ∈ t.toList →
      ∃ π red l r, plug ρ t = plug π (node red l x r) := by
    intro t
    induction t with
    | leaf =>
      intro ρ hx
      cases hx
    | node red l a r ihl ihr =>
      intro ρ hx
      rw [toList_node, List.mem_append, List.mem_cons] at hx
      rcases hx with hx | rfl | hx
      · exact ihl (⟨.left, red, a, r⟩ :: ρ) hx
      · exact ⟨ρ, red, l, r, rfl⟩
      · exact ihr (⟨.right, red, a, l⟩ :: ρ) hx
  exact hgen t [] h

/-- The items in front of the root of a subtree and those behind it. -/
theorem plug_node_split {π : List (Crumb α)} {red : Bool} {A B : CTree α} {a : α} {l r : List α}
    (hnd : (plug π (node red A a B)).toList.Nodup)
    (h : (plug π (node red A a B)).toList = l ++ a :: r) :
    before π ++ A.toList = l ∧ B.toList ++ behind π = r := by
  rw [toList_plug_node] at hnd h
  rw [List.nodup_append, List.nodup_cons] at hnd
  have hinj := (List.append_cons_inj_of_notMem (fun ha => hnd.2.2 a ha a (.head _) rfl)
    hnd.2.1.1).1 h
  exact ⟨hinj.1, hinj.2.2⟩

/-! ## Balance -/

/-- The colour of the root and the black height of a red-black tree. -/
inductive RB : Bool → ℕ → CTree α → Prop
  | leaf : RB false 0 leaf
  | red {n : ℕ} {l r : CTree α} {a : α} (hl : RB false n l) (hr : RB false n r) :
      RB true n (node true l a r)
  | black {n : ℕ} {c c' : Bool} {l r : CTree α} {a : α} (hl : RB c n l) (hr : RB c' n r) :
      RB false (n + 1) (node false l a r)

theorem rb_mk_red {d : Dir} {c : Bool} {n : ℕ} {A B : CTree α} {a : α} :
    RB c n (mk d true A a B) ↔ c = true ∧ RB false n A ∧ RB false n B := by
  constructor
  · intro h
    cases d <;> cases h with
    | red hl hr => first | exact ⟨rfl, hl, hr⟩ | exact ⟨rfl, hr, hl⟩
  · rintro ⟨rfl, hA, hB⟩
    cases d
    · exact .red hA hB
    · exact .red hB hA

theorem rb_mk_black {d : Dir} {c : Bool} {n : ℕ} {A B : CTree α} {a : α} :
    RB c n (mk d false A a B) ↔
      c = false ∧ ∃ k, n = k + 1 ∧ (∃ c', RB c' k A) ∧ ∃ c', RB c' k B := by
  constructor
  · intro h
    cases d <;> cases h with
    | black hl hr => first | exact ⟨rfl, _, rfl, ⟨_, hl⟩, _, hr⟩ | exact ⟨rfl, _, rfl, ⟨_, hr⟩, _, hl⟩
  · rintro ⟨rfl, k, rfl, ⟨c', hA⟩, c'', hB⟩
    cases d
    · exact .black hA hB
    · exact .black hB hA

/-- A tree of positive black height has a root. -/
theorem RB.exists_mk {c : Bool} {n : ℕ} {t : CTree α} (h : RB c (n + 1) t) (d : Dir) :
    ∃ near a far, t = mk d c near a far := by
  cases h with
  | red hl hr =>
    obtain ⟨near, far, h⟩ := node_eq_mk d true _ _ _
    exact ⟨near, _, far, h⟩
  | black hl hr =>
    obtain ⟨near, far, h⟩ := node_eq_mk d false _ _ _
    exact ⟨near, _, far, h⟩

/-- A tree with a red root has a root. -/
theorem RB.exists_red {n : ℕ} {t : CTree α} (h : RB true n t) (d : Dir) :
    ∃ near a far, t = mk d true near a far := by
  cases h with
  | red hl hr =>
    obtain ⟨near, far, h⟩ := node_eq_mk d true _ _ _
    exact ⟨near, _, far, h⟩

/-- The path is a red-black tree with a black root once a subtree of colour `c` and black height `n`
fills its hole. -/
def Hole : Bool → ℕ → List (Crumb α) → Prop
  | c, _, [] => c = false
  | c, n, ⟨_, true, _, sib⟩ :: π => c = false ∧ RB false n sib ∧ Hole true n π
  | _, n, ⟨_, false, _, sib⟩ :: π => (∃ c', RB c' n sib) ∧ Hole false (n + 1) π

theorem Hole.plug {c : Bool} {n : ℕ} {π : List (Crumb α)} {t : CTree α} (h : Hole c n π)
    (ht : RB c n t) : ∃ k, RB false k (plug π t) := by
  induction π generalizing c n t with
  | nil =>
    have hc : c = false := h
    subst hc
    exact ⟨n, ht⟩
  | cons f π ih =>
    obtain ⟨d, red, a, sib⟩ := f
    cases red with
    | true =>
      obtain ⟨rfl, hs, hπ⟩ := h
      exact ih hπ (rb_mk_red.2 ⟨rfl, ht, hs⟩)
    | false => exact ih h.2 (rb_mk_black.2 ⟨rfl, n, rfl, ⟨c, ht⟩, h.1⟩)

theorem exists_hole {π : List (Crumb α)} {t : CTree α} {k : ℕ} (h : RB false k (plug π t)) :
    ∃ c n, RB c n t ∧ Hole c n π := by
  induction π generalizing t with
  | nil => exact ⟨false, k, h, rfl⟩
  | cons f π ih =>
    obtain ⟨c, n, hf, hπ⟩ := ih h
    obtain ⟨d, red, a, sib⟩ := f
    cases red with
    | true =>
      obtain ⟨rfl, ht, hs⟩ := rb_mk_red.1 hf
      exact ⟨false, n, ht, rfl, hs, hπ⟩
    | false =>
      obtain ⟨rfl, m, rfl, ⟨c', ht⟩, hs⟩ := rb_mk_black.1 hf
      exact ⟨c', m, ht, hs, hπ⟩

/-- The balance does not depend on the items. -/
theorem RB.replace {π : List (Crumb α)} {red : Bool} {A B : CTree α} {a b : α} {k : ℕ}
    (h : RB false k (Foundations.plug π (node red A a B))) :
    ∃ k', RB false k' (Foundations.plug π (node red A b B)) := by
  obtain ⟨c, n, ht, hπ⟩ := exists_hole h
  apply hπ.plug
  cases ht with
  | red hl hr => exact .red hl hr
  | black hl hr => exact .black hl hr

/-- A hole below a black node takes both colours. -/
theorem Hole.of_black {c c' : Bool} {n : ℕ} {f : Crumb α} {π : List (Crumb α)}
    (h : Hole c n (f :: π)) (hf : f.red = false) : Hole c' n (f :: π) := by
  obtain ⟨d, red, a, sib⟩ := f
  cases hf
  exact h

/-- A black subtree fits wherever a red one does. -/
theorem Hole.weaken {c : Bool} {n : ℕ} {π : List (Crumb α)} (h : Hole c n π) : Hole false n π := by
  cases π with
  | nil => rfl
  | cons f π =>
    obtain ⟨d, red, a, sib⟩ := f
    cases red with
    | true => exact ⟨rfl, h.2⟩
    | false => exact h

/-- A tree that a removal has left one black node short of the black height `n + 1`. A red root may
have red children. -/
inductive Short : Bool → ℕ → CTree α → Prop
  | black {n : ℕ} {t : CTree α} (h : RB false n t) : Short false n t
  | red {n : ℕ} {c c' : Bool} {l r : CTree α} {a : α} (hl : RB c n l) (hr : RB c' n r) :
      Short true n (node true l a r)

theorem RB.short {c : Bool} {n : ℕ} {t : CTree α} (h : RB c n t) : Short c n t := by
  cases h with
  | leaf => exact .black .leaf
  | red hl hr => exact .red hl hr
  | black hl hr => exact .black (.black hl hr)

theorem short_mk_red {d : Dir} {c c' : Bool} {n : ℕ} {A B : CTree α} {a : α} (hA : RB c n A)
    (hB : RB c' n B) : Short true n (mk d true A a B) := by
  cases d
  · exact .red hA hB
  · exact .red hB hA

end Foundations
