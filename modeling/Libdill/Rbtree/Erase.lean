import Libdill.Rbtree.Insert
import Libdill.Rbtree.Order

/-!
# Removal

`dill_rbtree_erase` unlinks an item `y` with at most one child: the erased item, or the one behind it
when the erased item has two children. If `y` is black, the subtree that takes its place is one black
node short, and `dill_rbtree_fixup` walks up from it until it has made up for the node (`Fix`). Then
`y` takes the place of the erased item (`Zip.takePlace`).

The subtree may be empty. Then the walk starts at `nil`, whose field `up` has been set for it; so the
field is part of the invariant, and no rotation touches it.
-/

namespace Libdill.Rbtree

open Foundations CTree Mem

variable {ι : Type} {m m' : Mem ι} {u p q root : Ref ι} {t s S A B : CTree ι}
  {π : List (Crumb ι)} {d : Dir} {c c' : Bool} {a w x y z g : ι} {n k : ℕ} {l : List ι}

/-! ## The top of the tree -/

/-- The root of the tree, for a path that starts at the child `p`. -/
def top (p : Ref ι) : List (Crumb ι) → Ref ι
  | [] => p
  | f :: π => top (.item f.item) π

theorem Above.top (h : Above m u p π) : (m .root).child .left = Rbtree.top p π := by
  induction π generalizing u p with
  | nil => exact h.2
  | cons f π ih =>
    obtain ⟨d, red, a, sib⟩ := f
    obtain ⟨rfl, -, -, -, hπ⟩ := h
    exact ih hπ

theorem exists_top (p : Ref ι) (f : Crumb ι) (π : List (Crumb ι)) :
    ∃ a ∈ pathItems (f :: π), top p (f :: π) = .item a := by
  induction π generalizing p f with
  | nil => exact ⟨f.item, mem_pathItems_cons.2 (.inl rfl), rfl⟩
  | cons g π ih =>
    obtain ⟨a, ha, htop⟩ := ih (.item f.item) g
    exact ⟨a, mem_pathItems_cons.2 (.inr (.inr ha)), htop⟩

/-- The path from the top is empty. -/
theorem Zip.eq_nil_of_top (h : Zip m u p t π) (hp : Rbtree.top p π = p) : π = [] := by
  cases π with
  | nil => rfl
  | cons f π =>
    obtain ⟨a, ha, htop⟩ := exists_top p f π
    rw [hp] at htop
    subst htop
    exact absurd ha ((nodup_plug.1 h.nodup).2.2 a h.sub.mem)

/-! ## The cases of the walk -/

/-- To the sibling of a subtree. -/
theorem Zip.over (h : Zip m u p t (⟨d, c, a, S⟩ :: π)) :
    Zip m u ((m u).child d.other) S (⟨d.other, c, a, t⟩ :: π) :=
  h.up.down_other

/-- Back from the sibling, after a change of the memory. -/
theorem Zip.back {v : Ref ι} (h : Zip m u q S (⟨d.other, c, a, t⟩ :: π)) (ht : Sub m' v p t) :
    Zip m u p t (⟨d, c, a, S⟩ :: π) := by
  have h₁ := h.over
  rw [Dir.other_other, Sub.ptr_eq h₁.sub ht] at h₁
  exact h₁

/-- The field `up` of a subtree that has a parent, or of `nil`. -/
theorem Zip.up_keep (h : Zip m' u p t π) (hup : (m p).up = u) (hn : (m' .nil).up = (m .nil).up) :
    (m' p).up = u := by
  cases t with
  | leaf =>
    have hp : p = .nil := h.sub
    rw [hp] at hup ⊢
    rw [hn, hup]
  | node red l a r => exact h.up_eq (by simp)

variable [DecidableEq ι]

/-- The sibling is red: it becomes the grandparent, and the new sibling is black. -/
theorem Zip.redSibling {A B : CTree ι}
    (h : Zip m u p t (⟨d, false, g, CTree.mk d true A w B⟩ :: π)) (hup : (m p).up = u) :
    Zip (((m.setRed (.item w) false).setRed u true).rotate d u) u p t
        (⟨d, true, g, A⟩ :: ⟨d, false, w, B⟩ :: π) ∧
      (((m.setRed (.item w) false).setRed u true).rotate d u p).up = u := by
  obtain ⟨rfl, -⟩ := h.above
  have h₁ := ((h.setRed_sib false).setRed_parent true).up
  dsimp only [Crumb.fill] at h₁
  have h₂ := h₁.rotate.down
  have hg := (sub_mk.1 h₁.rotate.sub).2.2.2.1
  rw [(sub_mk.1 hg).1] at h₂
  have h₃ := h₂.down
  rw [Sub.ptr_eq h₃.sub h.sub] at h₃
  refine ⟨h₃, h₃.up_keep hup ?_⟩
  rw [h₁.rotate_nil, setRed_up, setRed_up]

/-- Colour the child on side `d`. -/
theorem Zip.setRed_near {e : Dir} {cA : Bool} {A₁ A₂ : CTree ι}
    (h : Zip m u p (CTree.mk d c (CTree.mk e cA A₁ a A₂) w B) π) (c' : Bool) :
    Zip (m.setRed (.item a) c') u p (CTree.mk d c (CTree.mk e c' A₁ a A₂) w B) π := by
  obtain ⟨-, hu, -, hA, -⟩ := sub_mk.1 h.sub
  have h₁ := h.down
  rw [(sub_mk.1 hA).1] at h₁
  have h₂ := (h₁.setRed c').up
  rw [setRed_up, hu] at h₂
  exact h₂

/-- The inner nephew is red: it becomes the sibling, with a red child on the outer side. -/
theorem Zip.innerRed {A₁ A₂ B : CTree ι}
    (h : Zip m u p t (⟨d, c, g, CTree.mk d false (CTree.mk d true A₁ a A₂) w B⟩ :: π))
    (hup : (m p).up = u) :
    Zip (((m.setRed (.item a) false).setRed (.item w) true).rotate d.other (.item w)) u p t
        (⟨d, c, g, CTree.mk d false A₁ a (CTree.mk d true A₂ w B)⟩ :: π) ∧
      (((m.setRed (.item a) false).setRed (.item w) true).rotate d.other (.item w) p).up = u := by
  have h₁ := h.over
  rw [(sub_mk.1 h₁.sub).1] at h₁
  have h₂ := (h₁.setRed_near false).setRed true
  rw [← mk_other d true, ← mk_other d false] at h₂
  have h₃ := h₂.rotate
  rw [mk_other, mk_other] at h₃
  have h₄ := h₃.back h.sub
  refine ⟨h₄, h₄.up_keep hup ?_⟩
  rw [h₂.rotate_nil, setRed_up, setRed_up]

/-- The outer nephew is red: a rotation makes up for the missing node. -/
theorem Zip.outerRed {A B₁ B₂ : CTree ι} {b : ι}
    (h : Zip m u p t (⟨d, c, g, CTree.mk d false A w (CTree.mk d true B₁ b B₂)⟩ :: π)) :
    ∃ v, Zip ((((m.setRed (.item w) c).setRed u false).setRed (.item b) false).rotate d u) v (.item w)
      (CTree.mk d c (CTree.mk d false t g A) w (CTree.mk d false B₁ b B₂)) π := by
  obtain ⟨rfl, -⟩ := h.above
  have h₁ := h.over
  rw [(sub_mk.1 h₁.sub).1] at h₁
  have h₂ := (h₁.setRed c).setRed_parent false
  rw [← mk_other d c] at h₂
  have h₃ := (h₂.setRed_near false).up
  rw [mk_other] at h₃
  dsimp only [Crumb.fill] at h₃
  rw [mk_other] at h₃
  exact ⟨_, h₃.rotate⟩

/-! ## The walk up -/

/-- The arm of the loop of `dill_rbtree_fixup` with a red outer nephew. -/
def fixupOuter (d : Dir) (root : Ref ι) (m : Mem ι) (x w : Ref ι) : Mem ι × Ref ι :=
  let m := m.setRed w (m (m x).up).red
  let m := m.setRed (m x).up false
  let m := m.setRed ((m w).child d.other) false
  (m.rotate d (m x).up, root)

/-- The arm of the loop of `dill_rbtree_fixup` with a black sibling. -/
def fixupBlack (d : Dir) (root : Ref ι) (m : Mem ι) (x w : Ref ι) : Mem ι × Ref ι :=
  if !(m ((m w).child .right)).red ∧ !(m ((m w).child .left)).red then
    (m.setRed w true, (m x).up)
  else if !(m ((m w).child d.other)).red then
    let m := m.setRed ((m w).child d) false
    let m := m.setRed w true
    let m := m.rotate d.other w
    fixupOuter d root m x ((m (m x).up).child d.other)
  else fixupOuter d root m x w

theorem fixupArm_eq (d : Dir) (root : Ref ι) (m : Mem ι) (p : Ref ι) :
    fixupArm d root m p =
      let w := (m (m p).up).child d.other
      if (m w).red then
        let m := m.setRed w false
        let m := m.setRed (m p).up true
        let m := m.rotate d (m p).up
        fixupBlack d root m p ((m (m p).up).child d.other)
      else fixupBlack d root m p w := by
  unfold fixupArm fixupBlack fixupOuter
  dsimp only
  split
  · split
    · rfl
    · split <;> rfl
  · split
    · rfl
    · split <;> rfl

/-- The walk is at a subtree that is one black node short, with `k` more turns to come at most. When
its root is red, the walk ends. After the last rotation it is over. -/
inductive Fix (root : Ref ι) (l : List ι) : ℕ → Mem ι → Ref ι → Prop
  | walk {m : Mem ι} {u p : Ref ι} {t : CTree ι} {π : List (Crumb ι)} {c : Bool} {n : ℕ}
      (hz : Zip m u p t π) (hup : (m p).up = u) (ht : Short c n t) (hπ : Hole false (n + 1) π)
      (hl : (plug π t).toList = l) (hroot : c = false → root = top p π) :
      Fix root l (if c then 0 else π.length + 1) m p
  | done {m : Mem ι} {t : CTree ι} {n : ℕ} (hz : Zip m .root ((m .root).child .left) t [])
      (ht : RB false n t) (hl : t.toList = l) (hr : (m root).red = false) : Fix root l 0 m root

/-- The walk ends with a rotation. -/
theorem Zip.fixupOuter {A B : CTree ι}
    (h : Zip m u p t (⟨d, c, g, CTree.mk d false A w B⟩ :: π)) (hup : (m p).up = u)
    (ht : RB false n t) (hA : RB c' n A) (hB : RB true n B) (hπ : Hole c (if c then n + 1 else n + 2) π)
    (hl : (plug (⟨d, c, g, CTree.mk d false A w B⟩ :: π) t).toList = l)
    (hroot : root = .item g ∨ root = Rbtree.top (.item g) π) :
    Fix root l 0 (fixupOuter d root m p (.item w)).1 (fixupOuter d root m p (.item w)).2 := by
  obtain ⟨B₁, b, B₂, rfl⟩ := hB.exists_red d
  obtain ⟨-, hB₁, hB₂⟩ := rb_mk_red.1 hB
  have hw := (sub_mk.1 h.over.sub).1
  have hb := (sub_mk.1 (sub_mk.1 h.over.sub).2.2.2.2).1
  rw [hw] at hb
  obtain ⟨hg, -, hc, -⟩ := h.above
  obtain ⟨v, h₁⟩ := h.outerRed
  have harm : Rbtree.fixupOuter d root m p (.item w) = ((((m.setRed (.item w) c).setRed u
      false).setRed (.item b) false).rotate d u, root) := by
    simp only [Rbtree.fixupOuter, hup, hc, hb, setRed_up, setRed_child]
  have hrb : RB c (if c then n + 1 else n + 2)
      (CTree.mk d c (CTree.mk d false t g A) w (CTree.mk d false B₁ b B₂)) := by
    have hnear : RB false (n + 1) (CTree.mk d false t g A) :=
      rb_mk_black.2 ⟨rfl, n, rfl, ⟨_, ht⟩, _, hA⟩
    have hfar : RB false (n + 1) (CTree.mk d false B₁ b B₂) :=
      rb_mk_black.2 ⟨rfl, n, rfl, ⟨_, hB₁⟩, _, hB₂⟩
    cases c with
    | true => exact rb_mk_red.2 ⟨rfl, hnear, hfar⟩
    | false => exact rb_mk_black.2 ⟨rfl, n + 1, rfl, ⟨_, hnear⟩, _, hfar⟩
  obtain ⟨k, hk⟩ := hπ.plug hrb
  rw [harm]
  refine .done h₁.root hk ?_ ?_
  · rw [← hl]
    refine toList_plug_congr ((toList_rotate d c false ..).trans ?_)
    exact toList_mk_congr rfl (toList_mk_congr rfl (toList_mk_congr rfl rfl))
  · have hgr := sub_mk.1 (sub_mk.1 h₁.sub).2.2.2.1
    rcases hroot with rfl | hroot
    · rw [← hgr.1]
      exact hgr.2.2.1
    · cases π with
      | nil =>
        rw [hroot, Rbtree.top, ← hgr.1]
        exact hgr.2.2.1
      | cons f π =>
        have htop := h₁.above.top
        rw [hroot, Rbtree.top, ← Rbtree.top.eq_2 (.item w) f π, ← htop]
        exact h₁.root.sub.red hk h₁.nil_red

/-- A turn with a black sibling. -/
theorem Zip.fixupBlack {A B : CTree ι} {cA cB : Bool}
    (h : Zip m u p t (⟨d, c, g, CTree.mk d false A w B⟩ :: π)) (hup : (m p).up = u)
    (ht : RB false n t) (hA : RB cA n A) (hB : RB cB n B) (hπ : Hole c (if c then n + 1 else n + 2) π)
    (hl : (plug (⟨d, c, g, CTree.mk d false A w B⟩ :: π) t).toList = l)
    (hroot : root = .item g ∧ c = true ∨ root = Rbtree.top (.item g) π) :
    ∃ k ≤ if c then 0 else π.length + 1,
      Fix root l k (fixupBlack d root m p (.item w)).1 (fixupBlack d root m p (.item w)).2 := by
  obtain ⟨hw, -, -, hAs, hBs⟩ := sub_mk.1 h.over.sub
  rw [hw] at hAs hBs
  have hcA := hAs.red hA h.nil_red
  have hcB := hBs.red hB h.nil_red
  have hboth : (!(m ((m (.item w)).child .right)).red ∧ !(m ((m (.item w)).child .left)).red) ↔
      cA = false ∧ cB = false := by
    cases d with
    | left =>
      rw [hcA, show (m ((m (.item w)).child .right)).red = cB from hcB]
      simp [and_comm]
    | right =>
      rw [hcA, show (m ((m (.item w)).child .left)).red = cB from hcB]
      simp
  by_cases hblack : cA = false ∧ cB = false
  · -- go on at the parent, the sibling is red now
    obtain ⟨rfl, rfl⟩ := hblack
    have harm : Rbtree.fixupBlack d root m p (.item w) = (m.setRed (.item w) true, u) := by
      rw [Rbtree.fixupBlack, if_pos (hboth.2 ⟨rfl, rfl⟩), hup]
    obtain ⟨rfl, -⟩ := h.above
    have h₁ := (h.setRed_sib true).up
    have hw' : RB true n (CTree.mk d true A w B) := rb_mk_red.2 ⟨rfl, hA, hB⟩
    have hlist : (plug π (CTree.mk d c t g (CTree.mk d true A w B))).toList = l := by
      rw [← hl]
      exact toList_plug_congr (toList_mk_congr rfl (toList_mk_congr rfl rfl))
    rw [harm]
    cases c with
    | true =>
      refine ⟨0, Nat.le_refl 0, ?_⟩
      exact .walk h₁ rfl (short_mk_red ht hw') hπ.weaken hlist nofun
    | false =>
      refine ⟨π.length + 1, Nat.le_refl _, ?_⟩
      have hshort : Short false (n + 1) (CTree.mk d false t g (CTree.mk d true A w B)) :=
        .black (rb_mk_black.2 ⟨rfl, n, rfl, ⟨_, ht⟩, _, hw'⟩)
      refine .walk h₁ rfl hshort hπ hlist fun _ => ?_
      rcases hroot with ⟨-, hc⟩ | hroot
      · cases hc
      · exact hroot
  · have hroot' := hroot.imp_left And.left
    refine ⟨0, Nat.zero_le _, ?_⟩
    rw [Rbtree.fixupBlack, if_neg fun hb => hblack (hboth.1 hb), hcB]
    cases cB with
    | true => exact h.fixupOuter hup ht hA hB hπ hl hroot'
    | false =>
      have hcA : cA = true := by
        cases cA
        · exact absurd ⟨rfl, rfl⟩ hblack
        · rfl
      subst hcA
      obtain ⟨A₁, a, A₂, rfl⟩ := hA.exists_red d
      obtain ⟨-, hA₁, hA₂⟩ := rb_mk_red.1 hA
      obtain ⟨h₁, hup₁⟩ := h.innerRed hup
      have hfar : RB true n (CTree.mk d true A₂ w B) := rb_mk_red.2 ⟨rfl, hA₂, hB⟩
      have hw' := (sub_mk.1 h₁.over.sub).1
      have ha := (sub_mk.1 hAs).1
      simp only [Bool.not_false, if_true, ha, hup₁, hw']
      refine h₁.fixupOuter hup₁ ht hA₁ hfar hπ ?_ hroot'
      rw [← hl]
      exact toList_plug_congr (toList_mk_congr rfl (toList_rotate d ..).symm)

/-- One turn of the walk. -/
theorem Fix.turn (h : Fix root l k m p) (hc : (m p).red = false) (hr : root ≠ p) :
    ∃ k' < k, Fix root l k' (fixupTurn root (m, p)).1 (fixupTurn root (m, p)).2 := by
  cases h with
  | done => exact absurd rfl hr
  | @walk _ u _ t π c n hz hup ht hπ hl hroot =>
    cases ht with
    | red => exact absurd (hz.sub.2.2.1.symm.trans hc) (by simp)
    | black ht =>
      cases π with
      | nil => exact absurd (hroot rfl) hr
      | cons f π =>
        obtain ⟨d, cg, g, S⟩ := f
        have hS : ∃ cS, RB cS (n + 1) S := by
          cases cg
          · exact hπ.1
          · exact ⟨_, hπ.2.1⟩
        obtain ⟨cS, hS⟩ := hS
        obtain ⟨A, w, B, rfl⟩ := hS.exists_mk d
        have hturn : fixupTurn root (m, p) = fixupArm d root m p := by
          have hside := hz.left_iff (.inr (by
            rintro f ⟨⟩
            cases d <;> simp [CTree.mk]))
          dsimp only [fixupTurn]
          rw [hup]
          cases d with
          | left => rw [if_pos (hside.2 rfl)]
          | right => rw [if_neg fun h => by cases hside.1 h]
        obtain ⟨hw, -, hcw, -⟩ := sub_mk.1 hz.over.sub
        rw [hw] at hcw
        rw [hturn, fixupArm_eq]
        simp only [hup, hw, hcw, setRed_up]
        cases cS with
        | true =>
          have hcg : cg = false := by
            cases cg
            · rfl
            · cases (rb_mk_red.1 hπ.2.1).1
          subst hcg
          obtain ⟨-, hA, hB⟩ := rb_mk_red.1 hS
          obtain ⟨h₁, hup₁⟩ := hz.redSibling hup
          obtain ⟨A₁, a, A₂, rfl⟩ := hA.exists_mk d
          obtain ⟨-, j, ⟨⟩, ⟨cA, hA₁⟩, cB, hA₂⟩ := rb_mk_black.1 hA
          have hw₁ := (sub_mk.1 h₁.over.sub).1
          have hhole : Hole true (n + 1) (⟨d, false, w, B⟩ :: π) := ⟨⟨_, hB⟩, hπ.2⟩
          have hlist : (plug (⟨d, true, g, CTree.mk d false A₁ a A₂⟩ :: ⟨d, false, w, B⟩ :: π) t).toList
              = l := by
            rw [← hl]
            exact toList_plug_congr (toList_rotate d ..)
          have htop : root = .item g ∧ true = true ∨
              root = Rbtree.top (.item g) (⟨d, false, w, B⟩ :: π) := by
            rw [hroot rfl]
            cases π with
            | nil => exact .inl ⟨rfl, rfl⟩
            | cons f π => exact .inr rfl
          obtain ⟨k', hk', hfix⟩ := h₁.fixupBlack hup₁ ht hA₁ hA₂ hhole hlist htop
          simp only [if_true, hup₁, hw₁]
          exact ⟨k', by simp at hk' ⊢; omega, hfix⟩
        | false =>
          obtain ⟨-, j, ⟨⟩, ⟨cA, hA⟩, cB, hB⟩ := rb_mk_black.1 hS
          have hhole : Hole cg (if cg then n + 1 else n + 2) π := by
            cases cg
            · exact hπ.2
            · exact hπ.2.2
          obtain ⟨k', hk', hfix⟩ := hz.fixupBlack hup ht hA hB hhole hl (.inr (hroot rfl))
          simp only [Bool.false_eq_true, if_false]
          refine ⟨k', ?_, hfix⟩
          rw [List.length_cons]
          split at hk' <;> omega

@[simp] theorem fixupTurn_val (s : Mem ι × Ref ι) (q : Ref ι) :
    ((fixupTurn root s).1 q).val = (s.1 q).val := by
  have houter : ∀ d (m : Mem ι) x w, ((fixupOuter d root m x w).1 q).val = (m q).val := by
    intro d m x w
    simp only [fixupOuter, rotate_val, setRed_val]
  have hblack : ∀ d (m : Mem ι) x w, ((fixupBlack d root m x w).1 q).val = (m q).val := by
    intro d m x w
    unfold fixupBlack
    split
    · simp only [setRed_val]
    · split <;> simp only [houter, rotate_val, setRed_val]
  have harm : ∀ d, ((fixupArm d root s.1 s.2).1 q).val = (s.1 q).val := by
    intro d
    rw [fixupArm_eq]
    dsimp only
    split <;> simp only [hblack, rotate_val, setRed_val]
  rw [fixupTurn]
  split
  · exact harm .left
  · exact harm .right

/-- The tree with a black root of the subtree, at the end of the walk. -/
theorem Fix.finish (h : Fix root l k m p) (hend : (m p).red = true ∨ root = p) :
    ∃ t k', Zip (m.setRed p false) .root ((m .root).child .left) t [] ∧ RB false k' t ∧
      t.toList = l := by
  cases h with
  | done hz ht hl hr =>
    rw [setRed_self hr]
    exact ⟨_, _, hz, ht, hl⟩
  | @walk _ u _ t π c n hz hup ht hπ hl hroot =>
    cases ht with
    | @red _ c c' A B a hA hB =>
      obtain rfl := hz.sub.1
      have h₁ := Zip.setRed (d := .left) hz false
      have hrb : RB false (n + 1) (node false A a B) := .black hA hB
      obtain ⟨k', hk'⟩ := hπ.plug hrb
      have h₂ := h₁.root
      rw [setRed_child] at h₂
      refine ⟨_, k', h₂, hk', ?_⟩
      rw [← hl]
      exact toList_plug_congr (toList_mk_congr (d := .left) rfl rfl)
    | black ht =>
      have hred := hz.sub.red ht hz.nil_red
      have hp : root = p := by
        rcases hend with hr | hp
        · rw [hred] at hr
          cases hr
        · exact hp
      obtain rfl := hz.eq_nil_of_top ((hroot rfl).symm.trans hp)
      rw [setRed_self hred]
      exact ⟨t, n, hz.root, ht, hl⟩

/-- **`dill_rbtree_fixup`** balances a tree with a subtree that is one black node short. -/
theorem fixup_spec (h : Zip m u p t π) (hup : (m p).up = u) (ht : Short c k t)
    (hπ : Hole false (k + 1) π) (hn : π.length < n) :
    ∃ m' t' k', m.fixup n p = some m' ∧ Zip m' .root ((m' .root).child .left) t' [] ∧
      RB false k' t' ∧ t'.toList = (plug π t).toList ∧ ∀ q, (m' q).val = (m q).val := by
  obtain ⟨root, hroot⟩ : ∃ root, root = (m .root).child .left := ⟨_, rfl⟩
  have hfix : Fix root (plug π t).toList (if c then 0 else π.length + 1) m p :=
    .walk h hup ht hπ rfl fun _ => hroot.trans h.above.top
  let I : ℕ → Mem ι × Ref ι → Prop := fun k s =>
    Fix root (plug π t).toList k s.1 s.2 ∧ ∀ q, (s.1 q).val = (m q).val
  have hbody : ∀ k s, I k s → decide ((!(s.1 s.2).red) = true ∧ root ≠ s.2) = true →
      ∃ k' < k, I k' (fixupTurn root s) := by
    rintro k s ⟨hI, hval⟩ hc
    have hc' : (s.1 s.2).red = false ∧ root ≠ s.2 := by simpa using hc
    obtain ⟨k', hk', h'⟩ := hI.turn hc'.1 hc'.2
    exact ⟨k', hk', h', fun q => by rw [fixupTurn_val, hval]⟩
  obtain ⟨s, hloop, hend, k', hI, hval⟩ := whileLoop_spec (s := (m, p)) hbody ⟨hfix, fun _ => rfl⟩
    (show (if c then 0 else π.length + 1) ≤ n by split <;> omega)
  have hend' : (s.1 s.2).red = true ∨ root = s.2 := by
    by_cases hr : (s.1 s.2).red = true
    · exact .inl hr
    · right
      simpa [hr] using hend
  obtain ⟨t', k'', hz', hrb, hl⟩ := hI.finish hend'
  have hrun : m.fixup n p = some (s.1.setRed s.2 false) := by
    rw [fixup, ← hroot]
    simp only [Option.bind_eq_bind, hloop, Option.bind_some]
  refine ⟨_, t', k'', hrun, by rw [setRed_child]; exact hz', hrb, hl, fun q => ?_⟩
  rw [setRed_val, hval]

/-! ## Unlinking -/

/-- The first half of `dill_rbtree_erase`: an item with one child at most is taken out, and its child
`p` knows its new parent. -/
theorem Zip.unlink (h : Zip m u (.item y) (CTree.mk d c .leaf y s) π)
    (hp : (m (.item y)).child d.other = p) :
    Zip (m.unlink (.item y) p) u p s π ∧ (m.unlink (.item y) p p).up = u ∧
      m.unlink (.item y) p (.item y) = m (.item y) := by
  obtain ⟨-, hup, -, -, hs⟩ := sub_mk.1 h.sub
  rw [hp] at hs
  obtain ⟨ht, hπ, hd⟩ := nodup_plug.1 h.nodup
  obtain ⟨-, hys, -, hsnd, -⟩ := nodup_mk.1 ht
  obtain ⟨hunil, hun⟩ := h.parent
  have hpu : p ≠ u := by
    intro hpu
    rcases hs.nil_or with hn | ⟨b, hb, hn⟩
    · exact hunil (hpu.symm.trans hn)
    · exact hun b (by simp [hb]) (hpu.symm.trans hn)
  have hpy : .item y ≠ p := by
    rintro rfl
    exact hys hs.mem
  have hyu : .item y ≠ u := (hun y (by simp)).symm
  have hrun : m.unlink (.item y) p = (m.setUp p u).setChild u (holeDir π) p := by
    have hpup : (m.setUp p u p).up = u := by rw [setUp_apply, if_pos rfl]
    simp only [Mem.unlink, hup, hpup]
    split
    · rename_i hr
      rw [← hr, h.above.eq_nil_of_root hr.symm, holeDir]
    · refine replaceChild_eq ?_ ?_
      · rw [setUp_apply, if_neg hpy]
        exact hup
      · rw [setUp_child]
        exact h.left_iff (.inl (by cases d <;> simp [CTree.mk]))
  have happ : ∀ q, m.unlink (.item y) p q =
      if q = u then { m u with child := Function.update (m u).child (holeDir π) p }
      else if q = p then { m p with up := u } else m q := by
    intro q
    rw [hrun, setChild_apply]
    split
    · rw [setUp_apply, if_neg hpu.symm]
    · rw [setUp_apply]
  refine ⟨h.above.zip h.toSane ?_ ?_ ?_ ?_ fun r hr hru hrs => ?_, ?_, ?_⟩
  · refine hs.reparent hsnd (fun _ => ?_) fun b hb hbp => ?_
    · rw [happ, if_neg hpu, if_pos rfl]
    · rw [happ, if_neg (hun b (by simp [hb])).symm, if_neg (Ne.symm hbp)]
  · exact nodup_plug.2 ⟨hsnd, hπ, fun b hb => hd b (by simp [hb])⟩
  · rw [happ, if_neg hunil.symm]
    split
    · rename_i hn
      rw [← hn]
      exact h.nil_red
    · exact h.nil_red
  · rw [happ, if_pos rfl]
  · rw [happ, if_neg hru, if_neg]
    rintro rfl
    obtain ⟨b, hb, hn⟩ := hs.nil_or.resolve_left hr
    exact hrs b hb hn
  · rw [happ, if_neg hpu, if_pos rfl]
  · rw [happ, if_neg hyu, if_neg hpy]

@[simp] theorem unlink_val (m : Mem ι) (p v q : Ref ι) : (m.unlink p v q).val = (m q).val := by
  unfold Mem.unlink
  split <;> simp

/-- `dill_rbtree_erase` up to the call of `dill_rbtree_fixup`, for the item `y`. -/
def removeLink (n : ℕ) (m : Mem ι) (y : Ref ι) : Option (Mem ι) :=
  let x := if (m y).child .left = .nil then (m y).child .right else (m y).child .left
  let m := m.unlink y x
  if !(m y).red then m.fixup n x else some m

theorem erase_self (h : (m (.item z)).child .left = .nil ∨ (m (.item z)).child .right = .nil) :
    m.erase n z = removeLink n m (.item z) := by
  simp only [erase, removeLink, if_pos h, Option.bind_eq_bind, Option.bind_some]
  generalize (if (m (.item z)).child .left = .nil then (m (.item z)).child .right
    else (m (.item z)).child .left) = x
  split <;> simp

theorem erase_next (h : ¬((m (.item z)).child .left = .nil ∨ (m (.item z)).child .right = .nil))
    (hy : m.nextHelp n (.item z) = some p) (hne : p ≠ .item z) :
    m.erase n z = (removeLink n m p).map fun m => m.takePlace p (.item z) := by
  simp only [erase, removeLink, if_neg h, hy, Option.bind_eq_bind, Option.bind_some, if_pos hne]
  generalize (if (m p).child .left = .nil then (m p).child .right else (m p).child .left) = x
  split
  · rw [Option.map_eq_bind]
    rfl
  · rfl

/-- The child of an item with one child at most. -/
theorem Zip.only_child {A B : CTree ι} (h : Zip m u (.item y) (node c A y B) π)
    (hAB : A = .leaf ∨ B = .leaf) : ∃ d s, node c A y B = CTree.mk d c .leaf y s ∧
      (if (m (.item y)).child .left = .nil then (m (.item y)).child .right
        else (m (.item y)).child .left) = (m (.item y)).child d.other ∧
      s.toList = A.toList ++ B.toList := by
  obtain ⟨-, -, -, hA, hB⟩ := h.sub
  by_cases hl : A = .leaf
  · subst hl
    have hnil : (m (.item y)).child .left = .nil := hA
    exact ⟨.left, B, rfl, if_pos hnil, rfl⟩
  · obtain rfl := hAB.resolve_left hl
    have hnil : (m (.item y)).child .left ≠ .nil := fun hn => hl (hA.eq_nil hn)
    exact ⟨.right, A, rfl, if_neg hnil, by simp⟩

/-- An item with one child at most is removed. -/
theorem removeLink_spec {A B : CTree ι} (h : Zip m u (.item y) (node c A y B) π)
    (hAB : A = .leaf ∨ B = .leaf) (hk : RB false k (plug π (node c A y B)))
    (hn : (plug π (node c A y B)).toList.length ≤ n) :
    ∃ m' t' k', removeLink n m (.item y) = some m' ∧
      Zip m' .root ((m' .root).child .left) t' [] ∧ RB false k' t' ∧
      t'.toList = before π ++ (A.toList ++ B.toList) ++ behind π ∧ ∀ q, (m' q).val = (m q).val := by
  obtain ⟨d, s, hmk, hx, hs⟩ := h.only_child hAB
  have hlen := length_le_plug π (node c A y B)
  obtain ⟨c₁, j, hrb, hπ⟩ := exists_hole hk
  rw [hmk] at h hrb
  rw [toList_node, List.length_append, List.length_cons] at hlen
  obtain ⟨p, hp⟩ : ∃ p, (m (.item y)).child d.other = p := ⟨_, rfl⟩
  obtain ⟨h₁, hup, hy⟩ := h.unlink hp
  have hred : (m (.item y)).red = c := (sub_mk.1 h.sub).2.2.1
  have hrun : removeLink n m (.item y) =
      if !c then (m.unlink (.item y) p).fixup n p else some (m.unlink (.item y) p) := by
    simp only [removeLink, hx, hp, hy, hred]
  have hlist : (plug π s).toList = before π ++ (A.toList ++ B.toList) ++ behind π := by
    rw [toList_plug, hs]
  rw [hrun]
  cases c with
  | true =>
    -- no black node is missing
    obtain ⟨rfl, -, hs'⟩ := rb_mk_red.1 hrb
    obtain ⟨k', hk'⟩ := hπ.weaken.plug hs'
    exact ⟨_, _, k', rfl, h₁.root, hk', hlist, fun q => unlink_val ..⟩
  | false =>
    obtain ⟨rfl, i, rfl, -, c', hs'⟩ := rb_mk_black.1 hrb
    obtain ⟨m', t', k', hm', hz', hrb', hl', hval⟩ := fixup_spec (n := n) h₁ hup hs'.short hπ (by omega)
    refine ⟨m', t', k', hm', hz', hrb', hl'.trans hlist, fun q => ?_⟩
    rw [hval, unlink_val]

/-! ## Taking the place of the erased item -/

/-- The memory after the last assignments of `dill_rbtree_erase`. -/
theorem takePlace_apply {e : Dir} {Y Z : Ref ι} (hu : (m Z).up = u)
    (he : Z = (m u).child .left ↔ e = .left) (hYZ : Y ≠ Z) (hYu : Y ≠ u)
    (hc : ∀ d, (m Z).child d ≠ Y ∧ (m Z).child d ≠ Z ∧ (m Z).child d ≠ u) (q : Ref ι) :
    m.takePlace Y Z q =
      if q = u then { m u with child := Function.update (m u).child e Y }
      else if q = Y then ⟨(m Z).red, (m Z).child, u, (m Y).val⟩
      else if q = (m Z).child .left ∨ q = (m Z).child .right then { m q with up := Y }
      else m q := by
  -- first all fields of `Y`, then those of its children
  obtain ⟨m₁, hm₁⟩ : ∃ m₁, m₁ = (((m.setChild Y .left ((m Z).child .left)).setChild Y .right
      ((m Z).child .right)).setUp Y u).setRed Y (m Z).red := ⟨_, rfl⟩
  obtain ⟨m₂, hm₂⟩ : ∃ m₂, m₂ = (m₁.setUp ((m Z).child .right) Y).setUp ((m Z).child .left) Y :=
    ⟨_, rfl⟩
  have h₁ : ∀ q, m₁ q = if q = Y then ⟨(m Z).red, (m Z).child, u, (m Y).val⟩ else m q := by
    intro q
    rw [hm₁, setRed_apply, setUp_apply, setUp_apply]
    split
    · simp only [if_true, setChild_apply, Item.mk.injEq, true_and, and_true]
      funext d
      cases d <;> simp
    · rename_i hq
      rw [setChild_apply, if_neg hq, setChild_apply, if_neg hq]
  have h₂ : ∀ q, m₂ q = if q = (m Z).child .left ∨ q = (m Z).child .right then { m₁ q with up := Y }
      else m₁ q := by
    intro q
    rw [hm₂, setUp_apply]
    by_cases hl : q = (m Z).child .left
    · have hor : q = (m Z).child .left ∨ q = (m Z).child .right := .inl hl
      rw [if_pos hl, if_pos hor, ← hl, setUp_apply]
      split
      · rename_i hr
        rw [← hr]
      · rfl
    · rw [if_neg hl, setUp_apply]
      by_cases hr : q = (m Z).child .right
      · rw [if_pos hr, if_pos (.inr hr), ← hr]
      · rw [if_neg hr, if_neg (not_or.2 ⟨hl, hr⟩)]
  have hZ₁ : m₁ Z = m Z := by rw [h₁, if_neg hYZ.symm]
  have hZ₂ : m₂ Z = m Z := by
    rw [h₂, if_neg (not_or.2 ⟨(hc .left).2.1.symm, (hc .right).2.1.symm⟩), hZ₁]
  have hu₂ : m₂ u = m u := by
    rw [h₂, if_neg (not_or.2 ⟨(hc .left).2.2.symm, (hc .right).2.2.symm⟩), h₁, if_neg hYu.symm]
  have hrun : m.takePlace Y Z = m₂.setChild u e Y := by
    have hrep : m₂.replaceChild Z Y = m₂.setChild u e Y := by
      refine replaceChild_eq (by rw [hZ₂, hu]) ?_
      rw [hu₂]
      exact he
    have hne : ∀ (m : Mem ι) (d : Dir) (v : Ref ι), m.setChild Y d v Z = m Z := fun m d v => by
      rw [setChild_apply, if_neg hYZ.symm]
    rw [← hrep, hm₂, hm₁]
    simp only [Mem.takePlace, hne, setUp_child, setRed_child, setUp_red, hu]
  rw [hrun, setChild_apply]
  by_cases hq : q = u
  · rw [if_pos hq, if_pos hq, hu₂]
  rw [if_neg hq, if_neg hq, h₂, h₁]
  by_cases hqY : q = Y
  · rw [if_pos hqY, if_pos hqY, if_neg]
    rintro (hq' | hq')
    · exact (hc .left).1 (hq'.symm.trans hqY)
    · exact (hc .right).1 (hq'.symm.trans hqY)
  · rw [if_neg hqY, if_neg hqY]

/-- The item `y` from outside the tree takes the place of `z`. -/
theorem Zip.takePlace {A B : CTree ι} (h : Zip m u (.item z) (node c A z B) π)
    (hy : y ∉ (plug π (node c A z B)).toList) :
    Zip (m.takePlace (.item y) (.item z)) u (.item y) (node c A y B) π := by
  obtain ⟨-, hup, hc, hA, hB⟩ := h.sub
  obtain ⟨ht, hπ, hd⟩ := nodup_plug.1 h.nodup
  obtain ⟨hzA, hzB, hAnd, hBnd, hAB⟩ := nodup_mk (d := .left).1 ht
  obtain ⟨hunil, hun⟩ := h.parent
  rw [(toList_plug_perm π _).mem_iff, List.mem_append, not_or, toList_node, List.mem_append,
    List.mem_cons, not_or, not_or] at hy
  obtain ⟨⟨hyA, hyz, hyB⟩, hyπ⟩ := hy
  have hyu : .item y ≠ u := by
    rintro rfl
    rcases h.above.eq_item with hr | ⟨b, hb, hr⟩
    · cases hr
    · cases hr
      exact hyπ hb
  have hzu : .item z ≠ u := (hun z (by simp)).symm
  have hl : ∀ b, .item b = (m (.item z)).child .left → b ∈ A.toList := fun b hb => (hb ▸ hA).mem
  have hr : ∀ b, .item b = (m (.item z)).child .right → b ∈ B.toList := fun b hb => (hb ▸ hB).mem
  have hchild : ∀ d, (m (.item z)).child d ≠ .item y ∧ (m (.item z)).child d ≠ .item z ∧
      (m (.item z)).child d ≠ u := by
    intro d
    cases d with
    | left =>
      refine ⟨fun h => hyA (hl y h.symm), fun h => hzA (hl z h.symm), fun h => ?_⟩
      rcases hA.nil_or with hn | ⟨b, hb, hn⟩
      · exact hunil (h.symm.trans hn)
      · exact hun b (by simp [hb]) (h.symm.trans hn)
    | right =>
      refine ⟨fun h => hyB (hr y h.symm), fun h => hzB (hr z h.symm), fun h => ?_⟩
      rcases hB.nil_or with hn | ⟨b, hb, hn⟩
      · exact hunil (h.symm.trans hn)
      · exact hun b (by simp [hb]) (h.symm.trans hn)
  have happ := takePlace_apply (Y := .item y) hup (h.left_iff (.inl (by simp)))
    (by simpa using hyz) hyu hchild
  have hY : m.takePlace (.item y) (.item z) (.item y) =
      ⟨(m (.item z)).red, (m (.item z)).child, u, (m (.item y)).val⟩ := by
    rw [happ, if_neg hyu, if_pos rfl]
  have hsubtree : ∀ {p : Ref ι} {C : CTree ι}, Sub m (.item z) p C → C.toList.Nodup →
      (p = (m (.item z)).child .left ∨ p = (m (.item z)).child .right) →
      (∀ b ∈ C.toList, b ∈ (node c A z B).toList ∧ b ≠ y ∧
        (.item b = (m (.item z)).child .left ∨ .item b = (m (.item z)).child .right → p = .item b)) →
      Sub (m.takePlace (.item y) (.item z)) (.item y) p C := by
    intro p C hC hnd hp hb
    refine hC.reparent hnd (fun hn => ?_) fun b hbC hpb => ?_
    · obtain ⟨b, hbC, rfl⟩ := hC.nil_or.resolve_left hn
      obtain ⟨hbt, hby, -⟩ := hb b hbC
      rw [happ, if_neg (hun b hbt).symm, if_neg (by simpa using hby), if_pos hp]
    · obtain ⟨hbt, hby, hbp⟩ := hb b hbC
      rw [happ, if_neg (hun b hbt).symm, if_neg (by simpa using hby), if_neg fun h => hpb (hbp h)]
  refine h.above.zip h.toSane ⟨rfl, by rw [hY], by rw [hY]; exact hc, ?_, ?_⟩ ?_ ?_ ?_ ?_
  · rw [hY]
    refine hsubtree hA hAnd (.inl rfl) fun b hb => ⟨by simp [hb], by rintro rfl; exact hyA hb, ?_⟩
    rintro (hb' | hb')
    · exact hb'.symm
    · exact absurd (hr b hb') (hAB b hb)
  · rw [hY]
    refine hsubtree hB hBnd (.inr rfl) fun b hb => ⟨by simp [hb], by rintro rfl; exact hyB hb, ?_⟩
    rintro (hb' | hb')
    · exact absurd hb (hAB b (hl b hb'))
    · exact hb'.symm
  · refine nodup_plug.2 ⟨nodup_mk (d := .left).2 ⟨hyA, hyB, hAnd, hBnd, hAB⟩, hπ, fun b hb => ?_⟩
    rw [toList_node, List.mem_append, List.mem_cons] at hb
    rcases hb with hb | rfl | hb
    · exact hd b (by simp [hb])
    · exact hyπ
    · exact hd b (by simp [hb])
  · rw [happ, if_neg hunil.symm, if_neg (by simp)]
    split <;> exact h.nil_red
  · rw [happ, if_pos rfl]
  · intro q hqn hqu hq
    rw [happ, if_neg hqu, if_neg (hq y (by simp)), if_neg]
    rintro (rfl | rfl)
    · obtain ⟨b, hb, hqb⟩ := hA.nil_or.resolve_left hqn
      exact hq b (by simp [hb]) hqb
    · obtain ⟨b, hb, hqb⟩ := hB.nil_or.resolve_left hqn
      exact hq b (by simp [hb]) hqb

@[simp] theorem takePlace_val (m : Mem ι) (p v q : Ref ι) : (m.takePlace p v q).val = (m q).val := by
  simp [Mem.takePlace]

/-- The item behind one with two children is the first of its right subtree. -/
theorem Zip.successor {A B : CTree ι} (h : Zip m u (.item z) (node c A z B) π) (hB : B ≠ .leaf)
    (hn : (plug π (node c A z B)).toList.length ≤ n) :
    ∃ v σ c' y r, m.nextHelp n (.item z) = some (.item y) ∧
      Zip m v (.item y) (node c' .leaf y r) σ ∧
      plug σ (node c' .leaf y r) = plug π (node c A z B) ∧
      before σ = before π ++ (A.toList ++ [z]) := by
  have hlen := length_le_plug π (node c A z B)
  rw [toList_node, List.length_append, List.length_cons] at hlen
  have hd := Zip.down_other (d := .left) h
  have hne : (m (.item z)).child .right ≠ .nil := fun hn => hB (hd.sub.eq_nil hn)
  obtain ⟨v, σ, c', y, r, hy, hz, hp, hb⟩ := leftmost_spec (n := n) hd hB (by omega)
  refine ⟨v, σ, c', y, r, ?_, hz, hp, hb⟩
  rw [nextHelp, if_pos hne]
  exact hy

/-- **`dill_rbtree_erase`** takes the item out of the list. -/
theorem erase_spec {r : List ι} (h : Zip m .root ((m .root).child .left) t []) (hk : RB false k t)
    (ht : t.toList = l ++ z :: r) (hn : t.toList.length ≤ n) :
    ∃ m' t' k', m.erase n z = some m' ∧ Zip m' .root ((m' .root).child .left) t' [] ∧
      RB false k' t' ∧ t'.toList = l ++ r ∧ ∀ q, (m' q).val = (m q).val := by
  obtain ⟨π, c, A, B, rfl⟩ := exists_plug_of_mem (t := t) (x := z) (by rw [ht]; simp)
  obtain ⟨v, q, hz⟩ := h.zoom
  obtain rfl : q = .item z := hz.sub.1
  obtain ⟨rfl, rfl⟩ := plug_node_split hz.nodup ht
  obtain ⟨-, -, -, hA, hB⟩ := hz.sub
  by_cases hAB : A = .leaf ∨ B = .leaf
  · have hnil : (m (.item z)).child .left = .nil ∨ (m (.item z)).child .right = .nil := by
      rcases hAB with rfl | rfl
      · exact .inl hA
      · exact .inr hB
    obtain ⟨m', t', k', hm', hz', hrb, hl, hval⟩ := removeLink_spec hz hAB hk hn
    exact ⟨m', t', k', (erase_self hnil).trans hm', hz', hrb, hl.trans (by simp), hval⟩
  · rw [not_or] at hAB
    have hnil : ¬((m (.item z)).child .left = .nil ∨ (m (.item z)).child .right = .nil) := by
      rintro (hn | hn)
      · exact hAB.1 (hA.eq_nil hn)
      · exact hAB.2 (hB.eq_nil hn)
    obtain ⟨w, σ, c', y, s, hy, hzy, hp, hb⟩ := hz.successor hAB.2 hn
    -- the list, cut at `y`
    have hnd := hzy.nodup
    rw [toList_plug_node, hb, List.nodup_middle, List.nodup_cons] at hnd
    have hcut : y :: (s.toList ++ behind σ) = B.toList ++ behind π := by
      have hlist := congrArg CTree.toList hp
      rw [toList_plug_node, toList_plug_node, hb] at hlist
      simpa using hlist
    have hyz : y ≠ z := by
      rintro rfl
      exact hnd.1 (by simp)
    rw [← hp] at hk hn
    obtain ⟨m₁, t₁, k₁, hm₁, hz₁, hrb₁, hl₁, hval₁⟩ := removeLink_spec hzy (.inl rfl) hk hn
    rw [hb] at hl₁
    have hl₁' : t₁.toList = (before π ++ A.toList) ++ z :: (s.toList ++ behind σ) := by
      rw [hl₁]
      simp
    have hy₁ : y ∉ t₁.toList := by
      rw [hl₁']
      simpa using hnd.1
    obtain ⟨ρ, c₂, C, D, rfl⟩ := exists_plug_of_mem (t := t₁) (x := z) (by rw [hl₁']; simp)
    obtain ⟨v', q, hz₂⟩ := hz₁.zoom
    obtain rfl : q = .item z := hz₂.sub.1
    obtain ⟨hC, hD⟩ := plug_node_split hz₂.nodup hl₁'
    obtain ⟨k', hk'⟩ := hrb₁.replace (b := y)
    refine ⟨_, _, k', ?_, (hz₂.takePlace hy₁).root, hk', ?_, fun q => ?_⟩
    · rw [erase_next hnil hy (by simpa using hyz), hm₁]
      rfl
    · rw [toList_plug_node, hC, hD, hcut]
    · rw [takePlace_val, hval₁]

end Libdill.Rbtree
