import Libdill.Rbtree.Model

/-!
# The tree in memory

`Sub m u p t` says that the pointer `p` leads to the tree `t` in the memory `m`, with the right
colours and parent pointers, and that the parent of its root is `u`. `Above m u p π` is the same for
the path `π` from a hole up to the false root. A loop that walks in the tree is at a subtree and the
path above it; `Zip` puts the two together.

There is one lemma for each thing the code does to the memory: `Zip.setRed`, `Zip.rotate`,
`Zip.down` and `Zip.up` for a step of a pointer.
-/

namespace Libdill.Rbtree

open Foundations CTree Mem

variable {ι : Type} {m m' : Mem ι} {u p q : Ref ι} {t A B C : CTree ι}
  {π : List (Crumb ι)} {d : Dir} {c c' : Bool} {a x y : ι} {f : Crumb ι}

/-- The subtree at `p`, whose parent is `u`. -/
def Sub (m : Mem ι) (u p : Ref ι) : CTree ι → Prop
  | .leaf => p = .nil
  | .node red l a r => p = .item a ∧ (m p).up = u ∧ (m p).red = red ∧
      Sub m p ((m p).child .left) l ∧ Sub m p ((m p).child .right) r

/-- The path from the child `p` of `u` up to the false root. -/
def Above (m : Mem ι) (u p : Ref ι) : List (Crumb ι) → Prop
  | [] => u = .root ∧ (m .root).child .left = p
  | ⟨d, red, a, sib⟩ :: π => u = .item a ∧ (m u).child d = p ∧ (m u).red = red ∧
      Sub m u ((m u).child d.other) sib ∧ Above m (m u).up u π

/-- The two items in `struct dill_rbtree`. -/
structure Sane (m : Mem ι) : Prop where
  nil_red : (m .nil).red = false
  root_red : (m .root).red = false
  root_right : (m .root).child .right = .nil

/-- The subtree `t` at `p` below the path `π`. -/
structure Zip (m : Mem ι) (u p : Ref ι) (t : CTree ι) (π : List (Crumb ι)) : Prop
    extends Sane m where
  sub : Sub m u p t
  above : Above m u p π
  nodup : (plug π t).toList.Nodup

/-! ## Subtrees -/

theorem sub_mk : Sub m u p (mk d c A a B) ↔ p = .item a ∧ (m p).up = u ∧ (m p).red = c ∧
    Sub m p ((m p).child d) A ∧ Sub m p ((m p).child d.other) B := by
  cases d
  · rfl
  · simp only [mk, Sub, Dir.other]
    tauto

theorem Sub.eq_nil (h : Sub m u p t) (hp : p = .nil) : t = .leaf := by
  cases t with
  | leaf => rfl
  | node red l a r =>
    rw [h.1] at hp
    cases hp

theorem Sub.mem (h : Sub m u (.item a) t) : a ∈ t.toList := by
  cases t with
  | leaf => cases h
  | node red l b r =>
    cases h.1
    simp

theorem Sub.nil_or (h : Sub m u p t) : p = .nil ∨ ∃ a ∈ t.toList, p = .item a := by
  cases t with
  | leaf => exact .inl h
  | node red l a r => exact .inr ⟨a, by simp, h.1⟩

theorem Sub.eq_item (h : Sub m u p t) (ht : t ≠ .leaf) : ∃ a ∈ t.toList, p = .item a := by
  cases t with
  | leaf => exact absurd rfl ht
  | node red l a r => exact ⟨a, by simp, h.1⟩

/-- A subtree determines the pointer to it. -/
theorem Sub.ptr_eq {v : Ref ι} (h : Sub m u p t) (h' : Sub m' v q t) : p = q := by
  cases t with
  | leaf => exact h.trans h'.symm
  | node red l a r => exact h.1.trans h'.1.symm

/-- A subtree is not the false root. -/
theorem Sub.ne_root (h : Sub m u p t) : p ≠ .root := by
  rintro rfl
  cases t with
  | leaf => cases h
  | node red l a r => cases h.1

theorem Sub.congr (h : Sub m u p t) (hm : ∀ a ∈ t.toList, m' (.item a) = m (.item a)) :
    Sub m' u p t := by
  induction t generalizing u p with
  | leaf => exact h
  | node red l a r ihl ihr =>
    obtain ⟨rfl, hu, hc, hl, hr⟩ := h
    have ha : m' (.item a) = m (.item a) := hm a (by simp)
    refine ⟨rfl, by rw [ha, hu], by rw [ha, hc], ?_, ?_⟩
    · rw [ha]
      exact ihl hl fun b hb => hm b (by simp [hb])
    · rw [ha]
      exact ihr hr fun b hb => hm b (by simp [hb])

/-- The root of a subtree gets another parent. -/
theorem Sub.reparent {v : Ref ι} (h : Sub m u p t) (hnd : t.toList.Nodup)
    (hp : p ≠ .nil → m' p = { m p with up := v })
    (hm : ∀ a ∈ t.toList, p ≠ .item a → m' (.item a) = m (.item a)) : Sub m' v p t := by
  cases t with
  | leaf => exact h
  | node red l a r =>
    obtain ⟨rfl, hu, hc, hl, hr⟩ := h
    have ha : m' (.item a) = { m (.item a) with up := v } := hp (by simp)
    rw [toList_node, List.nodup_append, List.nodup_cons] at hnd
    obtain ⟨-, ⟨har, -⟩, hlr⟩ := hnd
    refine ⟨rfl, by rw [ha], by rw [ha]; exact hc, ?_, ?_⟩
    · rw [ha]
      refine hl.congr fun b hb => hm b (by simp [hb]) ?_
      intro hab
      cases hab
      exact hlr a hb a (.head _) rfl
    · rw [ha]
      refine hr.congr fun b hb => hm b (by simp [hb]) ?_
      intro hab
      cases hab
      exact har hb

/-! ## Paths -/

/-- The side of `u` the hole is on. -/
def holeDir : List (Crumb ι) → Dir
  | [] => .left
  | f :: _ => f.dir

theorem Above.child (h : Above m u p π) : (m u).child (holeDir π) = p := by
  cases π with
  | nil =>
    obtain ⟨rfl, hp⟩ := h
    exact hp
  | cons f π => exact h.2.1

theorem Above.eq_item (h : Above m u p π) : u = .root ∨ ∃ a ∈ pathItems π, u = .item a := by
  cases π with
  | nil => exact .inl h.1
  | cons f π => exact .inr ⟨f.item, mem_pathItems_cons.2 (.inl rfl), h.1⟩

theorem Above.eq_nil_of_root (h : Above m u p π) (hu : u = .root) : π = [] := by
  cases π with
  | nil => rfl
  | cons f π =>
    have hf := h.1
    rw [hu] at hf
    cases hf

theorem Above.congr (h : Above m u p π) (hr : m' .root = m .root)
    (hm : ∀ a ∈ pathItems π, m' (.item a) = m (.item a)) : Above m' u p π := by
  induction π generalizing u p with
  | nil => exact ⟨h.1, by rw [hr]; exact h.2⟩
  | cons f π ih =>
    obtain ⟨d, red, a, sib⟩ := f
    obtain ⟨rfl, hp, hc, hs, hπ⟩ := h
    have ha : m' (.item a) = m (.item a) := hm a (mem_pathItems_cons.2 (.inl rfl))
    refine ⟨rfl, by rw [ha, hp], by rw [ha, hc], ?_, ?_⟩
    · rw [ha]
      exact hs.congr fun b hb => hm b (mem_pathItems_cons.2 (.inr (.inl hb)))
    · rw [ha]
      exact ih hπ fun b hb => hm b (mem_pathItems_cons.2 (.inr (.inr hb)))

/-- Put another child into the hole. -/
theorem Above.swap (h : Above m u p π) (hnd : (pathItems π).Nodup)
    (hu : m' u = { m u with child := Function.update (m u).child (holeDir π) q })
    (hr : .root ≠ u → m' .root = m .root)
    (hm : ∀ a ∈ pathItems π, .item a ≠ u → m' (.item a) = m (.item a)) : Above m' u q π := by
  cases π with
  | nil =>
    obtain ⟨rfl, -⟩ := h
    refine ⟨rfl, ?_⟩
    rw [hu, holeDir]
    simp
  | cons f π =>
    obtain ⟨d, red, a, sib⟩ := f
    obtain ⟨rfl, -, hc, hs, hπ⟩ := h
    obtain ⟨has, haπ, -, -, -⟩ := nodup_pathItems_cons.1 hnd
    have hne : ∀ b, b ≠ a → (Ref.item b : Ref ι) ≠ .item a := by
      rintro b hb h
      cases h
      exact hb rfl
    refine ⟨rfl, by rw [hu]; simp [holeDir], by rw [hu]; exact hc, ?_, ?_⟩
    · rw [hu]
      simp only [holeDir, ne_eq, Dir.other_ne, not_false_eq_true, Function.update_of_ne]
      refine hs.congr fun b hb => hm b (mem_pathItems_cons.2 (.inr (.inl hb))) (hne b ?_)
      rintro rfl
      exact has hb
    · rw [hu]
      refine hπ.congr (hr (by simp)) fun b hb =>
        hm b (mem_pathItems_cons.2 (.inr (.inr hb))) (hne b ?_)
      rintro rfl
      exact haπ hb

/-! ## Steps of a pointer -/

/-- Down to the child on side `d`. -/
theorem Zip.down (h : Zip m u p (CTree.mk d c A a B) π) :
    Zip m p ((m p).child d) A (⟨d, c, a, B⟩ :: π) where
  toSane := h.toSane
  sub := (sub_mk.1 h.sub).2.2.2.1
  above := by
    obtain ⟨hp, hu, hc, -, hB⟩ := sub_mk.1 h.sub
    refine ⟨hp, rfl, hc, hB, ?_⟩
    rw [hu]
    exact h.above
  nodup := h.nodup

/-- Down to the other child. -/
theorem Zip.down_other (h : Zip m u p (CTree.mk d c A a B) π) :
    Zip m p ((m p).child d.other) B (⟨d.other, c, a, A⟩ :: π) := by
  rw [← mk_other] at h
  exact h.down

/-- Up to the parent. -/
theorem Zip.up (h : Zip m u p t (f :: π)) : Zip m (m u).up u (f.fill t) π where
  toSane := h.toSane
  sub := by
    obtain ⟨d, red, a, sib⟩ := f
    obtain ⟨hu, hp, hc, hs, -⟩ := h.above
    rw [Crumb.fill, sub_mk, hp]
    exact ⟨hu, rfl, hc, h.sub, hs⟩
  above := h.above.2.2.2.2
  nodup := h.nodup

/-- The parent of a subtree is not `nil`, and not in it. -/
theorem Zip.parent (h : Zip m u p t π) : u ≠ .nil ∧ ∀ a ∈ t.toList, u ≠ .item a := by
  obtain ⟨-, -, hd⟩ := nodup_plug.1 h.nodup
  rcases h.above.eq_item with rfl | ⟨b, hb, rfl⟩
  · exact ⟨by simp, by simp⟩
  · refine ⟨by simp, fun a ha hab => ?_⟩
    cases hab
    exact hd b ha hb

/-- A subtree hangs on one side of its parent only. -/
theorem Zip.child_iff (h : Zip m u p t (f :: π)) (hne : t ≠ .leaf ∨ f.sib ≠ .leaf) (e : Dir) :
    p = (m u).child e ↔ e = f.dir := by
  obtain ⟨d, red, a, sib⟩ := f
  obtain ⟨-, hp, -, hs, -⟩ := h.above
  obtain ⟨-, -, hd⟩ := nodup_plug.1 h.nodup
  rcases d.eq_or_eq_other e with rfl | rfl
  · exact ⟨fun _ => rfl, fun _ => hp.symm⟩
  · refine ⟨fun hp' => ?_, fun hd' => absurd hd' (Dir.other_ne d)⟩
    rw [← hp'] at hs
    exfalso
    rcases hne with ht | hsib
    · obtain ⟨b, hb, rfl⟩ := h.sub.eq_item ht
      exact hd b hb (mem_pathItems_cons.2 (.inr (.inl hs.mem)))
    · obtain ⟨b, hb, rfl⟩ := hs.eq_item hsib
      exact hd b h.sub.mem (mem_pathItems_cons.2 (.inr (.inl hb)))

/-- The test of the source for the side of a child. -/
theorem Zip.left_iff (h : Zip m u p t π) (hne : t ≠ .leaf ∨ ∀ f ∈ π.head?, f.sib ≠ .leaf) :
    p = (m u).child .left ↔ holeDir π = .left := by
  cases π with
  | nil => exact ⟨fun _ => rfl, fun _ => h.above.child.symm⟩
  | cons f π => exact (h.child_iff (hne.imp id fun hs => hs f rfl) .left).trans eq_comm

/-- A change inside a subtree, or of the pointer `nil`. -/
theorem Zip.modify {t' : CTree ι} (h : Zip m u p t π) (hs : Sub m' u p t')
    (hl : t'.toList.Perm t.toList) (hn : (m' .nil).red = false)
    (hm : ∀ q, q ≠ .nil → (∀ a ∈ t.toList, q ≠ .item a) → m' q = m q) : Zip m' u p t' π where
  nil_red := hn
  root_red := by rw [hm .root (by simp) (by simp)]; exact h.root_red
  root_right := by rw [hm .root (by simp) (by simp)]; exact h.root_right
  sub := hs
  above := by
    obtain ⟨-, -, hd⟩ := nodup_plug.1 h.nodup
    refine h.above.congr (hm .root (by simp) (by simp)) fun a ha => hm _ (by simp) ?_
    intro b hb hab
    cases hab
    exact hd a hb ha
  nodup := by
    have hnd := h.nodup
    rw [(toList_plug_perm π _).nodup_iff] at hnd ⊢
    exact (hl.append_right _).nodup_iff.2 hnd

/-- A change outside the tree. -/
theorem Zip.congr (h : Zip m u p t π) (hn : (m' .nil).red = false) (hr : m' .root = m .root)
    (hm : ∀ a ∈ (plug π t).toList, m' (.item a) = m (.item a)) : Zip m' u p t π where
  nil_red := hn
  root_red := by rw [hr]; exact h.root_red
  root_right := by rw [hr]; exact h.root_right
  sub := h.sub.congr fun a ha => hm a ((toList_plug_perm π t).mem_iff.2 (List.mem_append_left _ ha))
  above := h.above.congr hr fun a ha =>
    hm a ((toList_plug_perm π t).mem_iff.2 (List.mem_append_right _ ha))
  nodup := h.nodup

/-- Another subtree in the hole of a path. -/
theorem Above.zip (h : Above m u p π) (hm : Sane m) (hs : Sub m' u q t)
    (hnd : (plug π t).toList.Nodup) (hn : (m' .nil).red = false)
    (hu : m' u = { m u with child := Function.update (m u).child (holeDir π) q })
    (hother : ∀ r, r ≠ .nil → r ≠ u → (∀ a ∈ t.toList, r ≠ .item a) → m' r = m r) :
    Zip m' u q t π := by
  obtain ⟨-, hπ, hd⟩ := nodup_plug.1 hnd
  have hroot : .root ≠ u → m' .root = m .root := fun hr => hother .root (by simp) hr (by simp)
  refine ⟨⟨hn, ?_, ?_⟩, hs, ?_, hnd⟩
  · by_cases hr : .root = u
    · rw [hr, hu, ← hr]
      exact hm.root_red
    · rw [hroot hr]
      exact hm.root_red
  · by_cases hr : .root = u
    · rw [hr, hu, ← hr, h.eq_nil_of_root hr.symm]
      simp [holeDir, hm.root_right]
    · rw [hroot hr]
      exact hm.root_right
  · refine h.swap hπ hu hroot fun b hb hbu => hother _ (by simp) hbu ?_
    rintro a ha ⟨⟩
    exact hd _ ha hb

/-- The way up to the root of the whole tree. -/
theorem Zip.root (h : Zip m u p t π) :
    Zip m .root ((m .root).child .left) (plug π t) [] := by
  induction π generalizing u p t with
  | nil =>
    obtain ⟨hu, hp⟩ := h.above
    rw [hp]
    exact hu ▸ h
  | cons f π ih => exact ih h.up

/-- The way down to a subtree. -/
theorem Zip.zoom (h : Zip m u p (plug π t) []) : ∃ v q, Zip m v q t π := by
  induction π generalizing t with
  | nil => exact ⟨u, p, h⟩
  | cons f π ih =>
    obtain ⟨v, q, hf⟩ := ih h
    exact ⟨_, _, hf.down⟩

/-- The parent pointer of a subtree. -/
theorem Zip.up_eq (h : Zip m u p t π) (ht : t ≠ .leaf) : (m p).up = u := by
  cases t with
  | leaf => exact absurd rfl ht
  | node red l a r => exact h.sub.2.1

/-- The colour the code reads at a subtree. -/
theorem Sub.red {n : ℕ} (h : Sub m u p t) (ht : RB c n t) (hn : (m .nil).red = false) :
    (m p).red = c := by
  cases ht with
  | leaf =>
    have hp : p = .nil := h
    rw [hp]
    exact hn
  | red hl hr => exact h.2.2.1
  | black hl hr => exact h.2.2.1

variable [DecidableEq ι]

/-! ## Assignments -/

theorem setRed_apply (m : Mem ι) (p : Ref ι) (c : Bool) (q : Ref ι) :
    m.setRed p c q = if q = p then { m p with red := c } else m q :=
  Function.update_apply ..

theorem setUp_apply (m : Mem ι) (p v q : Ref ι) :
    m.setUp p v q = if q = p then { m p with up := v } else m q :=
  Function.update_apply ..

theorem setChild_apply (m : Mem ι) (p : Ref ι) (d : Dir) (v q : Ref ι) :
    m.setChild p d v q =
      if q = p then { m p with child := Function.update (m p).child d v } else m q :=
  Function.update_apply ..

@[simp] theorem setRed_up (m : Mem ι) (p : Ref ι) (c : Bool) (q : Ref ι) :
    (m.setRed p c q).up = (m q).up := by
  rw [setRed_apply]
  split <;> simp_all

@[simp] theorem setRed_child (m : Mem ι) (p : Ref ι) (c : Bool) (q : Ref ι) :
    (m.setRed p c q).child = (m q).child := by
  rw [setRed_apply]
  split <;> simp_all

theorem setRed_self (h : (m p).red = c) : m.setRed p c = m := by
  funext q
  rw [setRed_apply]
  split
  · rename_i hq
    rw [hq, ← h]
  · rfl

@[simp] theorem setRed_val (m : Mem ι) (p : Ref ι) (c : Bool) (q : Ref ι) :
    (m.setRed p c q).val = (m q).val := by
  rw [setRed_apply]
  split <;> simp_all

@[simp] theorem setUp_child (m : Mem ι) (p v q : Ref ι) : (m.setUp p v q).child = (m q).child := by
  rw [setUp_apply]
  split <;> simp_all

@[simp] theorem setUp_red (m : Mem ι) (p v q : Ref ι) : (m.setUp p v q).red = (m q).red := by
  rw [setUp_apply]
  split <;> simp_all

@[simp] theorem setUp_val (m : Mem ι) (p v q : Ref ι) : (m.setUp p v q).val = (m q).val := by
  rw [setUp_apply]
  split <;> simp_all

@[simp] theorem setChild_val (m : Mem ι) (p : Ref ι) (d : Dir) (v q : Ref ι) :
    (m.setChild p d v q).val = (m q).val := by
  rw [setChild_apply]
  split <;> simp_all

@[simp] theorem replaceChild_val (m : Mem ι) (p v q : Ref ι) :
    (m.replaceChild p v q).val = (m q).val := by
  rw [replaceChild]
  split <;> simp

/-- No key changes in a rotation. -/
@[simp] theorem rotate_val (m : Mem ι) (d : Dir) (p q : Ref ι) :
    (m.rotate d p q).val = (m q).val := by
  rw [rotate]
  simp only [setUp_val, setChild_val, replaceChild_val]
  split <;> simp

theorem replaceChild_eq {e : Dir} (hu : (m p).up = u) (he : p = (m u).child .left ↔ e = .left) :
    m.replaceChild p q = m.setChild u e q := by
  rw [replaceChild, hu]
  cases e with
  | left => rw [if_pos (he.2 rfl)]
  | right => rw [if_neg fun h => by cases he.1 h]

theorem rotate_apply {X Y z u : Ref ι} {e : Dir} (hY : (m X).child d.other = Y)
    (hz : (m Y).child d = z) (hu : (m X).up = u) (he : X = (m u).child .left ↔ e = .left)
    (hYX : Y ≠ X) (huX : u ≠ X) (huY : u ≠ Y) (hzX : z ≠ X) (hzY : z ≠ Y) (hzu : z ≠ u)
    (q : Ref ι) : m.rotate d X q =
      if q = X then { m X with child := Function.update (m X).child d.other z, up := Y }
      else if q = Y then { m Y with child := Function.update (m Y).child d X, up := u }
      else if q = u then { m u with child := Function.update (m u).child e Y }
      else if q = z ∧ z ≠ .nil then { m z with up := X }
      else m q := by
  -- the memory after each of the assignments
  obtain ⟨m₁, hm₁⟩ : ∃ m₁, m₁ = m.setChild X d.other z := ⟨_, rfl⟩
  obtain ⟨m₂, hm₂⟩ : ∃ m₂, m₂ = if z ≠ .nil then m₁.setUp z X else m₁ := ⟨_, rfl⟩
  obtain ⟨m₃, hm₃⟩ : ∃ m₃, m₃ = m₂.setUp Y u := ⟨_, rfl⟩
  have h₁ : ∀ q, m₁ q =
      if q = X then { m X with child := Function.update (m X).child d.other z } else m q :=
    fun q => by rw [hm₁, setChild_apply]
  have h₂ : ∀ q, m₂ q = if q = z ∧ z ≠ .nil then { m₁ z with up := X } else m₁ q := fun q => by
    rw [hm₂]
    split
    · rename_i hn
      rw [setUp_apply]
      simp [hn]
    · rename_i hn
      simp [hn]
  have h₃ : ∀ q, m₃ q = if q = Y then { m₂ Y with up := u } else m₂ q := fun q => by
    rw [hm₃, setUp_apply]
  have hX₂ : m₂ X = { m X with child := Function.update (m X).child d.other z } := by
    rw [h₂, if_neg fun h => hzX h.1.symm, h₁, if_pos rfl]
  have hu₃ : m₃ u = m u := by
    rw [h₃, if_neg huY, h₂, if_neg fun h => hzu h.1.symm, h₁, if_neg huX]
  have hrep : m₃.replaceChild X Y = m₃.setChild u e Y := by
    refine replaceChild_eq ?_ ?_
    · rw [h₃, if_neg hYX.symm, hX₂]
      exact hu
    · rw [hu₃]
      exact he
  have hrot : m.rotate d X = ((m₃.setChild u e Y).setChild Y d X).setUp X Y := by
    rw [← hrep, hm₃, hm₂, rotate]
    simp only [hY, hz]
    have hz₁ : (m₁ Y).child d = z := by rw [h₁, if_neg hYX, hz]
    have hu₂ : (m₂ X).up = u := by rw [hX₂]; exact hu
    rw [← hm₁, hz₁, ← hm₂, hu₂]
  have hX₅ : ((m₃.setChild u e Y).setChild Y d X) X =
      { m X with child := Function.update (m X).child d.other z } := by
    rw [setChild_apply, if_neg hYX.symm, setChild_apply, if_neg huX.symm, h₃, if_neg hYX.symm, hX₂]
  have hY₄ : (m₃.setChild u e Y) Y = { m Y with up := u } := by
    rw [setChild_apply, if_neg huY.symm, h₃, if_pos rfl, h₂, if_neg fun h => hzY h.1.symm, h₁,
      if_neg hYX]
  rw [hrot, setUp_apply]
  by_cases hqX : q = X
  · rw [if_pos hqX, if_pos hqX, hX₅]
  rw [if_neg hqX, if_neg hqX, setChild_apply]
  by_cases hqY : q = Y
  · rw [if_pos hqY, if_pos hqY, hY₄]
  rw [if_neg hqY, if_neg hqY, setChild_apply]
  by_cases hqu : q = u
  · rw [if_pos hqu, if_pos hqu, hu₃]
  rw [if_neg hqu, if_neg hqu, h₃, if_neg hqY, h₂, h₁, if_neg hzX, h₁, if_neg hqX]

/-! ## Changes of the tree -/

/-- Colour the root of a subtree. -/
theorem Zip.setRed (h : Zip m u (.item a) (CTree.mk d c A a B) π) (c' : Bool) :
    Zip (m.setRed (.item a) c') u (.item a) (CTree.mk d c' A a B) π := by
  obtain ⟨-, hu, hc, hA, hB⟩ := sub_mk.1 h.sub
  obtain ⟨haA, haB, -⟩ := nodup_mk.1 (nodup_plug.1 h.nodup).1
  have hne : ∀ b, b ≠ a → m.setRed (.item a) c' (.item b) = m (.item b) := fun b hb => by
    rw [setRed_apply, if_neg (by simpa using hb)]
  refine h.modify (sub_mk.2 ⟨rfl, ?_, ?_, ?_, ?_⟩) ?_ ?_ ?_
  · rw [setRed_apply, if_pos rfl]
    exact hu
  · rw [setRed_apply, if_pos rfl]
  · rw [setRed_apply, if_pos rfl]
    exact hA.congr fun b hb => hne b (by rintro rfl; exact haA hb)
  · rw [setRed_apply, if_pos rfl]
    exact hB.congr fun b hb => hne b (by rintro rfl; exact haB hb)
  · exact (toList_mk_perm ..).trans (toList_mk_perm ..).symm
  · rw [setRed_apply, if_neg (by simp)]
    exact h.nil_red
  · intro q _ hq
    rw [setRed_apply, if_neg (hq a (by simp))]

/-- Colour the parent of a subtree. -/
theorem Zip.setRed_parent (h : Zip m u p t (⟨d, c, a, B⟩ :: π)) (c' : Bool) :
    Zip (m.setRed u c') u p t (⟨d, c', a, B⟩ :: π) := by
  obtain ⟨rfl, hp, -, -, -⟩ := h.above
  have h' := (h.up.setRed c').down
  rwa [setRed_apply, if_pos rfl, hp] at h'

/-- Colour the sibling of a subtree. -/
theorem Zip.setRed_sib {e : Dir} {cr cs : Bool} {s : ι}
    (h : Zip m u p t (⟨d, cr, a, CTree.mk e cs A s B⟩ :: π)) (c' : Bool) :
    Zip (m.setRed (.item s) c') u p t (⟨d, cr, a, CTree.mk e c' A s B⟩ :: π) := by
  obtain ⟨rfl, hp, -, hsub, -⟩ := h.above
  obtain ⟨hS, -⟩ := sub_mk.1 hsub
  have hne : a ≠ s := by
    rintro rfl
    exact (nodup_pathItems_cons.1 (nodup_plug.1 h.nodup).2.1).1 (by simp)
  have h₁ := h.up.down_other
  rw [hS] at h₁
  have h₂ := (h₁.setRed c').up.down_other
  rw [Dir.other_other, setRed_apply, if_neg (by simpa using hne), hp] at h₂
  exact h₂

/-- The memory after a rotation of a subtree. -/
theorem Zip.rotate_apply {cx cy : Bool}
    (h : Zip m u (.item x) (CTree.mk d cx A x (CTree.mk d cy B y C)) π) (q : Ref ι) :
    m.rotate d (.item x) q =
      if q = .item x then { m (.item x) with
        child := Function.update (m (.item x)).child d.other ((m (.item y)).child d)
        up := .item y }
      else if q = .item y then { m (.item y) with
        child := Function.update (m (.item y)).child d (.item x), up := u }
      else if q = u then
        { m u with child := Function.update (m u).child (holeDir π) (.item y) }
      else if q = (m (.item y)).child d ∧ (m (.item y)).child d ≠ .nil then
        { m ((m (.item y)).child d) with up := .item x }
      else m q := by
  obtain ⟨-, hu, -, -, hyt⟩ := sub_mk.1 h.sub
  obtain ⟨hY, -, -, hB, -⟩ := sub_mk.1 hyt
  obtain ⟨ht, -, hd⟩ := nodup_plug.1 h.nodup
  obtain ⟨-, hxt, -, htnd, -⟩ := nodup_mk.1 ht
  obtain ⟨hyB, -⟩ := nodup_mk.1 htnd
  obtain ⟨-, hun⟩ := h.parent
  rw [mem_toList_mk, not_or, not_or] at hxt
  obtain ⟨hxy, hxB, -⟩ := hxt
  rw [hY] at hB
  have hz := fun b (hb : (m (.item y)).child d = .item b) => (hb ▸ hB : Sub m _ (.item b) B).mem
  apply Rbtree.rotate_apply hY rfl hu (h.left_iff (.inl (by cases d <;> simp [CTree.mk])))
  · simpa using Ne.symm hxy
  · exact hun x (by simp)
  · exact hun y (by simp)
  · exact fun h => hxB (hz x h)
  · exact fun h => hyB (hz y h)
  · intro hzu
    rcases h.above.eq_item with hr | ⟨b, hb, hr⟩
    · exact hB.ne_root (hzu.trans hr)
    · exact hd b (by simp [hz b (hzu.trans hr)]) hb

/-- A rotation does not touch `nil`. -/
theorem Zip.rotate_nil {cx cy : Bool}
    (h : Zip m u (.item x) (CTree.mk d cx A x (CTree.mk d cy B y C)) π) :
    m.rotate d (.item x) .nil = m .nil := by
  rw [h.rotate_apply, if_neg (by simp), if_neg (by simp), if_neg h.parent.1.symm,
    if_neg fun h => h.2 h.1.symm]

/-- Rotate: the root `x` moves down to side `d`. -/
theorem Zip.rotate {cx cy : Bool}
    (h : Zip m u (.item x) (CTree.mk d cx A x (CTree.mk d cy B y C)) π) :
    Zip (m.rotate d (.item x)) u (.item y) (CTree.mk d cy (CTree.mk d cx A x B) y C) π := by
  obtain ⟨-, hu, hcx, hA, hyt⟩ := sub_mk.1 h.sub
  obtain ⟨hY, hyx, hcy, hB, hC⟩ := sub_mk.1 hyt
  obtain ⟨ht, hπ, hd⟩ := nodup_plug.1 h.nodup
  obtain ⟨hxA, hxt, hAnd, htnd, hAt⟩ := nodup_mk.1 ht
  obtain ⟨hyB, hyC, hBnd, hCnd, hBC⟩ := nodup_mk.1 htnd
  obtain ⟨hunil, hun⟩ := h.parent
  rw [mem_toList_mk, not_or, not_or] at hxt
  obtain ⟨hxy, hxB, hxC⟩ := hxt
  rw [hY] at hyx hcy hB hC
  have hz := fun b (hb : (m (.item y)).child d = .item b) => (hb ▸ hB : Sub m _ (.item b) B).mem
  have happ := h.rotate_apply
  have hother : ∀ b, b ≠ x → b ≠ y → .item b ≠ u → .item b ≠ (m (.item y)).child d →
      m.rotate d (.item x) (.item b) = m (.item b) := by
    intro b hbx hby hbu hbz
    rw [happ, if_neg (by simpa using hbx), if_neg (by simpa using hby), if_neg hbu,
      if_neg fun h => hbz h.1]
  have hnil := h.rotate_nil
  have hX : m.rotate d (.item x) (.item x) =
      { m (.item x) with
        child := Function.update (m (.item x)).child d.other ((m (.item y)).child d)
        up := .item y } := by
    rw [happ, if_pos rfl]
  have hY' : m.rotate d (.item x) (.item y) =
      { m (.item y) with
        child := Function.update (m (.item y)).child d (.item x), up := u } := by
    rw [happ, if_neg (by simpa using Ne.symm hxy), if_pos rfl]
  have hu' : m.rotate d (.item x) u =
      { m u with child := Function.update (m u).child (holeDir π) (.item y) } := by
    rw [happ, if_neg (hun x (by simp)), if_neg (hun y (by simp)), if_pos rfl]
  have hlist : (CTree.mk d cy (CTree.mk d cx A x B) y C).toList =
      (CTree.mk d cx A x (CTree.mk d cy B y C)).toList := toList_rotate ..
  refine h.above.zip h.toSane ?_ ?_ (by rw [hnil]; exact h.nil_red) hu' fun r hrn hru hr => ?_
  · rw [sub_mk, sub_mk, hY']
    simp only [Function.update_self, ne_eq, Dir.other_ne, not_false_eq_true,
      Function.update_of_ne, true_and]
    rw [hX]
    simp only [Function.update_self, ne_eq, Dir.ne_other, not_false_eq_true,
      Function.update_of_ne, true_and]
    have hAc : Sub (m.rotate d (.item x)) (.item x) ((m (.item x)).child d) A := by
      refine hA.congr fun b hb => hother b ?_ ?_ (hun b (by simp [hb])).symm ?_
      · rintro rfl
        exact hxA hb
      · rintro rfl
        exact hAt b hb (by simp)
      · intro hbz
        exact hAt b hb (by simp [hz b hbz.symm])
    have hBc : Sub (m.rotate d (.item x)) (.item x) ((m (.item y)).child d) B := by
      refine hB.reparent hBnd (fun hn => ?_) fun b hb hbz => hother b ?_ ?_ ?_ ?_
      · obtain ⟨b, hb, hbz⟩ := hB.eq_item (fun hl => by rw [hl] at hB; exact hn hB)
        rw [happ, hbz, if_neg (by rintro ⟨rfl⟩; exact hxB hb),
          if_neg (by rintro ⟨rfl⟩; exact hyB hb), if_neg (hun b (by simp [hb])).symm,
          if_pos ⟨rfl, by simp⟩]
      · rintro rfl
        exact hxB hb
      · rintro rfl
        exact hyB hb
      · exact (hun b (by simp [hb])).symm
      · exact Ne.symm hbz
    have hCc : Sub (m.rotate d (.item x)) (.item y) ((m (.item y)).child d.other) C := by
      refine hC.congr fun b hb => hother b ?_ ?_ (hun b (by simp [hb])).symm ?_
      · rintro rfl
        exact hxC hb
      · rintro rfl
        exact hyC hb
      · intro hbz
        exact hBC b (hz b hbz.symm) hb
    exact ⟨hcy, ⟨hcx, hAc, hBc⟩, hCc⟩
  · rw [toList_plug, hlist, ← toList_plug]
    exact h.nodup
  · rw [happ, if_neg (hr x (by simp)), if_neg (hr y (by simp)), if_neg hru]
    rw [if_neg]
    rintro ⟨rfl, hn⟩
    obtain ⟨b, hb, hbz⟩ := hB.eq_item (fun hl => by rw [hl] at hB; exact hn hB)
    exact hr b (by simp [hb]) hbz

end Libdill.Rbtree
