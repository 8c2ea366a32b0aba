import Libdill.Rbtree.Shape

/-!
# Insertion

`dill_rbtree_insert` finds the place of the new item (`place_spec`), links it there as a red leaf
(`insertHelp_spec`) and walks up: as long as the item `x` it is at and the parent of `x` are both red,
it either recolours and goes on two levels higher, or rotates and is done. The invariant of the walk
is `Climb`: `x` is the red root of a red-black tree, and the rest of the tree would take a black one
of the same black height in its place.
-/

namespace Libdill.Rbtree

open Foundations CTree Mem

variable {ι : Type} {m m' : Mem ι} {u p q : Ref ι} {t A B C : CTree ι}
  {π : List (Crumb ι)} {d : Dir} {c c' : Bool} {a x y z : ι} {f g : Crumb ι} {n : ℕ} {val : ℤ}

/-- The key of an item. -/
def key (m : Mem ι) (i : ι) : ℤ := (m (.item i)).val

/-- The items are in the order of their keys. -/
def Sorted (m : Mem ι) (l : List ι) : Prop := l.Pairwise fun a b => key m a ≤ key m b

/-! ## The place of the new item -/

/-- The hole a key belongs to. -/
structure Fits (m : Mem ι) (val : ℤ) (π : List (Crumb ι)) : Prop where
  before : ∀ b ∈ before π, key m b ≤ val
  behind : ∀ b ∈ behind π, val < key m b

theorem Fits.down_left {l r : CTree ι} (h : Fits m val π)
    (hs : Sorted m (plug π (node c l a r)).toList) (ha : val < key m a) :
    Fits m val (⟨.left, c, a, r⟩ :: π) := by
  refine ⟨h.before, fun b hb => ?_⟩
  rw [Foundations.behind, List.cons_append, List.mem_cons, List.mem_append] at hb
  rcases hb with rfl | hb | hb
  · exact ha
  · rw [Sorted, toList_plug, List.append_assoc, List.pairwise_append] at hs
    have hs' := (List.pairwise_append.1 hs.2.1).1
    rw [toList_node, List.pairwise_append, List.pairwise_cons] at hs'
    have hab := hs'.2.1.1 b hb
    omega
  · exact h.behind b hb

theorem Fits.down_right {l r : CTree ι} (h : Fits m val π)
    (hs : Sorted m (plug π (node c l a r)).toList) (ha : key m a ≤ val) :
    Fits m val (⟨.right, c, a, l⟩ :: π) := by
  refine ⟨fun b hb => ?_, h.behind⟩
  rw [Foundations.before, List.mem_append, List.mem_append, List.mem_singleton] at hb
  rcases hb with hb | hb | rfl
  · exact h.before b hb
  · rw [Sorted, toList_plug, List.append_assoc, List.pairwise_append] at hs
    have hs' := (List.pairwise_append.1 hs.2.1).1
    rw [toList_node, List.pairwise_append] at hs'
    have hab := hs'.2.2 b hb a (.head _)
    omega
  · exact ha

/-- The direction the code computes from the last comparison. -/
theorem Fits.holeDir (h : Fits m val π) (hz : Zip m u p t π) :
    (u = .root ∨ (m u).val > val) ↔ Rbtree.holeDir π = .left := by
  cases π with
  | nil => exact ⟨fun _ => rfl, fun _ => .inl hz.above.1⟩
  | cons f π =>
    obtain ⟨d, red, a, sib⟩ := f
    obtain ⟨rfl, -⟩ := hz.above
    cases d with
    | left => exact ⟨fun _ => rfl, fun _ => .inr (h.behind a (by simp [Foundations.behind]))⟩
    | right =>
      have hle : key m a ≤ val := h.before a (by simp [Foundations.before])
      constructor
      · rintro (h' | h')
        · cases h'
        · exact absurd h' (Int.not_lt.2 hle)
      · intro h'
        cases h'

variable [DecidableEq ι]

/-- The loop of `dill_rbtree_insert_help` ends at the hole its key belongs to. -/
theorem place_spec (val : ℤ) (h : Zip m .root ((m .root).child .left) t []) (hs : Sorted m t.toList)
    (hn : t.toList.length ≤ n) :
    ∃ u π, m.place n val = some (u, .nil) ∧ Zip m u .nil .leaf π ∧ plug π .leaf = t ∧
      Fits m val π := by
  -- the walk is at a subtree, and the items of it bound the turns to come
  let I : ℕ → Ref ι × Ref ι → Prop := fun k s =>
    ∃ t' π, Zip m s.1 s.2 t' π ∧ plug π t' = t ∧ Fits m val π ∧ k = t'.toList.length
  have hI : I t.toList.length (.root, (m .root).child .left) :=
    ⟨t, [], h, rfl, ⟨by simp [before], by simp [behind]⟩, rfl⟩
  have hbody : ∀ k s, I k s → decide (s.2 ≠ .nil) = true → ∃ k' < k, I k'
      (s.2, if (m s.2).val > val then (m s.2).child .left else (m s.2).child .right) := by
    rintro k ⟨y, x⟩ ⟨t', π, hz, hp, hf, rfl⟩ hc
    rw [decide_eq_true_eq] at hc
    cases t' with
    | leaf => exact absurd hz.sub hc
    | node c l a r =>
      obtain rfl : x = .item a := hz.sub.1
      have hs' : Sorted m (plug π (node c l a r)).toList := by rwa [hp]
      dsimp only at hz ⊢
      by_cases hv : (m (.item a)).val > val
      · refine ⟨l.toList.length, ?_, l, ⟨.left, c, a, r⟩ :: π, ?_, hp, hf.down_left hs' hv, rfl⟩
        · simp only [toList_node, List.length_append, List.length_cons]
          omega
        · rw [if_pos hv]
          exact Zip.down (d := .left) hz
      · refine ⟨r.toList.length, ?_, r, ⟨.right, c, a, l⟩ :: π, ?_, hp,
          hf.down_right hs' (Int.not_lt.1 hv), rfl⟩
        · simp only [toList_node, List.length_append, List.length_cons]
          omega
        · rw [if_neg hv]
          exact Zip.down (d := .right) hz
  obtain ⟨⟨y, x⟩, hs', hend, k', t', π, hz, hp, hf, -⟩ := whileLoop_spec hbody hI hn
  have hx : x = .nil := by simpa using hend
  obtain rfl : t' = .leaf := hz.sub.eq_nil hx
  rw [hx] at hs' hz
  exact ⟨y, π, hs', hz, hp, hf⟩

/-- A new leaf in the hole of a path. -/
theorem Zip.insertLeaf (h : Zip m u .nil .leaf π) (hz : z ∉ pathItems π)
    (hzl : (m (.item z)).child = fun _ => .nil) :
    Zip ((m.setUp (.item z) u).setChild u (holeDir π) (.item z)) u (.item z)
      (node (m (.item z)).red .leaf z .leaf) π := by
  have hzu : Ref.item z ≠ u := by
    rintro rfl
    rcases h.above.eq_item with hr | ⟨b, hb, hr⟩
    · cases hr
    · cases hr
      exact hz hb
  have hself : (m.setUp (.item z) u).setChild u (holeDir π) (.item z) (.item z) =
      { m (.item z) with up := u } := by
    rw [setChild_apply, if_neg hzu, setUp_apply, if_pos rfl]
  have hu : (m.setUp (.item z) u).setChild u (holeDir π) (.item z) u =
      { m u with child := Function.update (m u).child (holeDir π) (.item z) } := by
    rw [setChild_apply, if_pos rfl, setUp_apply, if_neg hzu.symm]
  have hother : ∀ q, q ≠ .item z → q ≠ u →
      (m.setUp (.item z) u).setChild u (holeDir π) (.item z) q = m q := by
    intro q hqz hqu
    rw [setChild_apply, if_neg hqu, setUp_apply, if_neg hqz]
  refine h.above.zip h.toSane ⟨rfl, by rw [hself], by rw [hself], ?_, ?_⟩ ?_ ?_ hu
    fun r _ hru hr => hother r (hr z (by simp)) hru
  · rw [hself, hzl]
    rfl
  · rw [hself, hzl]
    rfl
  · exact nodup_plug.2 ⟨by simp, (nodup_plug.1 h.nodup).2.1, by simpa using hz⟩
  · rw [hother .nil (by simp) h.parent.1.symm]
    exact h.nil_red

/-- `dill_rbtree_insert_help` links the new item where its key belongs. -/
theorem insertHelp_spec (h : Zip m .root ((m .root).child .left) t [])
    (hs : Sorted m t.toList) (hz : z ∉ t.toList) (hn : t.toList.length ≤ n) :
    ∃ m' u π c, m.insertHelp n (.item z) = some m' ∧
      Zip m' u (.item z) (node c .leaf z .leaf) π ∧ plug π .leaf = t ∧ Fits m (key m z) π ∧
      ∀ q, (m' q).val = (m q).val := by
  obtain ⟨m₁, hm₁⟩ : ∃ m₁, m₁ = (m.setChild (.item z) .right .nil).setChild (.item z) .left .nil :=
    ⟨_, rfl⟩
  have hother : ∀ q, q ≠ .item z → m₁ q = m q := fun q hq => by
    rw [hm₁, setChild_apply, if_neg hq, setChild_apply, if_neg hq]
  have hval : ∀ q, (m₁ q).val = (m q).val := fun q => by rw [hm₁]; simp
  have hnil : (m₁ (.item z)).child = fun _ => .nil := by
    funext e
    rw [hm₁, setChild_apply, if_pos rfl, setChild_apply, if_pos rfl]
    cases e <;> simp
  have hne : ∀ b ∈ t.toList, (Ref.item b : Ref ι) ≠ .item z := by
    rintro b hb ⟨⟩
    exact hz hb
  have h₁ : Zip m₁ .root ((m₁ .root).child .left) t [] := by
    rw [hother .root (by simp)]
    exact h.congr (by rw [hother .nil (by simp)]; exact h.nil_red) (hother .root (by simp))
      fun b hb => hother _ (hne b hb)
  have hs₁ : Sorted m₁ t.toList := by
    refine hs.imp fun {a b} hab => ?_
    unfold key
    rw [hval, hval]
    exact hab
  obtain ⟨v, hv⟩ : ∃ v, v = (m₁ (.item z)).val := ⟨_, rfl⟩
  obtain ⟨u, π, hp, hzip, rfl, hf⟩ := place_spec v h₁ hs₁ hn
  have hzπ : z ∉ pathItems π := fun hzπ => hz ((toList_plug_perm π _).mem_iff.2 (by simpa using hzπ))
  have hrun : m.insertHelp n (.item z) =
      some ((m₁.setUp (.item z) u).setChild u (holeDir π) (.item z)) := by
    have hdir := hf.holeDir hzip
    rw [hv] at hdir
    rw [insertHelp, ← hm₁, ← hv, hp]
    simp only [Option.bind_eq_bind, Option.bind_some, setUp_val]
    by_cases hd : u = .root ∨ (m₁ u).val > (m₁ (.item z)).val
    · rw [if_pos hd, hdir.1 hd]
    · have hright : holeDir π = .right := by
        cases hπ : holeDir π with
        | left => exact absurd (hdir.2 hπ) hd
        | right => rfl
      rw [if_neg hd, hright]
  refine ⟨_, u, π, _, hrun, hzip.insertLeaf hzπ hnil, rfl, ?_, fun q => by simp [hval]⟩
  have hkey : ∀ b, key m b = key m₁ b := fun b => (hval _).symm
  rw [hv] at hf
  exact ⟨fun b hb => by rw [hkey, hkey]; exact hf.before b hb,
    fun b hb => by rw [hkey, hkey]; exact hf.behind b hb⟩

/-! ## The walk up -/

/-- The walk is at the red root `p` of a red-black tree; the rest would take a black one. `k` is the
depth of `p`. -/
def Climb (l : List ι) (k : ℕ) (m : Mem ι) (p : Ref ι) : Prop :=
  ∃ u t π n, Zip m u p t π ∧ RB true n t ∧ Hole false n π ∧ (plug π t).toList = l ∧ k = π.length

omit [DecidableEq ι] in
/-- A red parent is not the root of the tree, and the grandparent is black. -/
theorem Zip.grandparent (h : Zip m u p t π) (hπ : Hole false n π) (hr : (m u).red = true) :
    ∃ d s S d' g G ρ, π = ⟨d, true, s, S⟩ :: ⟨d', false, g, G⟩ :: ρ ∧ RB false n S ∧
      (∃ c, RB c n G) ∧ Hole false (n + 1) ρ := by
  cases π with
  | nil =>
    rw [h.above.1, h.root_red] at hr
    cases hr
  | cons f π =>
    obtain ⟨d, red, s, S⟩ := f
    obtain rfl : red = true := h.above.2.2.1.symm.trans hr
    obtain ⟨-, hS, hπ⟩ := hπ
    cases π with
    | nil => cases hπ
    | cons g ρ =>
      obtain ⟨d', red, g, G⟩ := g
      cases red with
      | true => cases hπ.1
      | false => exact ⟨d, s, S, d', g, G, ρ, rfl, hS, hπ⟩

/-- The uncle is red: recolour and go on at the grandparent. -/
theorem Zip.recolour {s g : ι} {S G : CTree ι} {d' : Dir} {l : List ι}
    (h : Zip m u p t (⟨d, true, s, S⟩ :: ⟨d', false, g, G⟩ :: π)) (ht : RB true n t)
    (hS : RB false n S) (hG : RB true n G) (hπ : Hole false (n + 1) π)
    (hl : (plug (⟨d, true, s, S⟩ :: ⟨d', false, g, G⟩ :: π) t).toList = l) :
    Climb l π.length (((m.setRed u false).setRed ((m (m u).up).child d'.other) false).setRed
      (m u).up true) (m u).up := by
  obtain ⟨S₁, w, S₂, rfl⟩ := hG.exists_red .left
  obtain ⟨hu, -, -, -, hup, -, -, hGs, -⟩ := h.above
  obtain ⟨hw, -⟩ := sub_mk.1 hGs
  obtain ⟨-, hS₁, hS₂⟩ := rb_mk_red.1 hG
  rw [hw, hu]
  have h₁ := hu ▸ h.up
  have h₂ := (h₁.setRed false).setRed_sib false
  have h₃ := (h₂.setRed_parent true).up
  dsimp only [Crumb.fill] at h₃
  refine ⟨_, _, π, n + 1, h₃, ?_, hπ, ?_, rfl⟩
  · exact rb_mk_red.2 ⟨rfl, rb_mk_black.2 ⟨rfl, n, rfl, ⟨_, ht⟩, _, hS⟩,
      rb_mk_black.2 ⟨rfl, n, rfl, ⟨_, hS₁⟩, _, hS₂⟩⟩
  · rw [← hl]
    exact toList_plug_congr (toList_mk_congr (toList_mk_congr rfl rfl) (toList_mk_congr rfl rfl))

/-- The uncle is black and `p` is on the outer side: recolour, rotate, and the walk is over. -/
theorem Zip.rotateOut {s g : ι} {S G : CTree ι} {l : List ι}
    (h : Zip m u p t (⟨d, true, s, S⟩ :: ⟨d, false, g, G⟩ :: π)) (ht : RB true n t)
    (hS : RB false n S) (hG : RB false n G) (hπ : Hole false (n + 1) π)
    (hl : (plug (⟨d, true, s, S⟩ :: ⟨d, false, g, G⟩ :: π) t).toList = l) :
    Climb l (π.length + 1) (((m.setRed u false).setRed (m u).up true).rotate d.other (m u).up) p := by
  obtain ⟨rfl, hp, -, -, hg, -⟩ := h.above
  have h₁ := ((h.setRed_parent false).up.setRed_parent true).up
  dsimp only [Crumb.fill] at h₁
  rw [setRed_up, hg, ← mk_other d true, ← mk_other d false] at h₁
  -- the old parent is on top now, `p` on its outer side, the old grandparent on the other one
  have h₂ := h₁.rotate.down_other
  rw [Dir.other_other] at h₂
  rw [Sub.ptr_eq h₂.sub h.sub] at h₂
  rw [hg]
  refine ⟨_, _, _, n, h₂, ht, ?_, ?_, rfl⟩
  · exact ⟨⟨true, rb_mk_red.2 ⟨rfl, hG, hS⟩⟩, hπ⟩
  · rw [← hl, mk_other]
    exact toList_plug_congr (toList_rotate d ..).symm

/-- The uncle is black and `p` is on the inner side: rotate the parent down first. -/
theorem Zip.rotateIn {s g : ι} {S G : CTree ι} {l : List ι}
    (h : Zip m u p t (⟨d.other, true, s, S⟩ :: ⟨d, false, g, G⟩ :: π)) (ht : RB true n t)
    (hS : RB false n S) (hl : (plug (⟨d.other, true, s, S⟩ :: ⟨d, false, g, G⟩ :: π) t).toList = l) :
    ∃ v x B t', Zip (m.rotate d u) v u t' (⟨d, true, x, B⟩ :: ⟨d, false, g, G⟩ :: π) ∧
      RB true n t' ∧ RB false n B ∧
      (plug (⟨d, true, x, B⟩ :: ⟨d, false, g, G⟩ :: π) t').toList = l := by
  obtain ⟨A, x, B, rfl⟩ := ht.exists_red d
  obtain ⟨-, hA, hB⟩ := rb_mk_red.1 ht
  obtain ⟨rfl, -⟩ := h.above
  have h₁ := h.up
  dsimp only [Crumb.fill] at h₁
  rw [mk_other] at h₁
  have h₂ := h₁.rotate.down
  have hs := (sub_mk.1 h₁.rotate.sub).2.2.2.1
  rw [(sub_mk.1 hs).1] at h₂
  refine ⟨_, x, B, _, h₂, rb_mk_red.2 ⟨rfl, hS, hA⟩, hB, ?_⟩
  rw [← hl]
  simp only [plug_cons, Crumb.fill]
  rw [mk_other d true]
  exact toList_plug_congr (toList_mk_congr (toList_rotate d ..) rfl)

/-- One turn of the walk: it gets higher. -/
theorem Climb.turn {l : List ι} {k : ℕ} (h : Climb l k m p) (hr : (m (m p).up).red = true) :
    ∃ k' < k, Climb l k' (insertTurn (m, p)).1 (insertTurn (m, p)).2 := by
  obtain ⟨u, t, π, n, hz, ht, hπ, hl, rfl⟩ := h
  have hleaf : t ≠ .leaf := by
    rintro rfl
    cases ht
  have hup := hz.up_eq hleaf
  rw [hup] at hr
  obtain ⟨d, s, S, d', g, G, ρ, rfl, hS, ⟨c, hG⟩, hρ⟩ := hz.grandparent hπ hr
  obtain ⟨hu, hp, -, -, hg, -, -, hGs, -⟩ := hz.above
  have hturn : insertTurn (m, p) = insertArm d' m p := by
    have hside := hz.up.left_iff (.inl (by cases d <;> simp [Crumb.fill, CTree.mk]))
    dsimp only [insertTurn]
    rw [hup]
    cases d' with
    | left => rw [if_pos (hside.2 rfl)]
    | right => rw [if_neg fun h => by cases hside.1 h]
  have hcol := hGs.red hG hz.nil_red
  have hin : p = (m u).child d'.other ↔ d'.other = d := hz.child_iff (.inl hleaf) d'.other
  rw [hturn]
  cases c with
  | true =>
    refine ⟨ρ.length, by simp only [List.length_cons]; omega, ?_⟩
    have h := hz.recolour ht hS hG hρ hl
    have harm : insertArm d' m p = (((m.setRed u false).setRed ((m (m u).up).child d'.other)
        false).setRed (m u).up true, (m u).up) := by
      simp only [insertArm, hup, hcol, if_true, setRed_up]
    rw [harm]
    exact h
  | false =>
    refine ⟨ρ.length + 1, by simp, ?_⟩
    by_cases hd : d'.other = d
    · subst hd
      obtain ⟨v, x, B, t', h, ht', hB, hl'⟩ := hz.rotateIn ht hS hl
      have hup' : (m.rotate d' u u).up = v := h.up_eq (by rintro rfl; cases ht')
      have harm : insertArm d' m p = ((((m.rotate d' u).setRed v false).setRed
          (m.rotate d' u v).up true).rotate d'.other (m.rotate d' u v).up, u) := by
        simp only [insertArm, hup, hcol, Bool.false_eq_true, if_false, if_pos (hin.2 rfl), setRed_up,
          hup']
      rw [harm]
      exact h.rotateOut ht' hB hG hρ hl'
    · have hd' : d = d' := by
        rcases d'.eq_or_eq_other d with h | h
        · exact h
        · exact absurd h.symm hd
      subst hd'
      have harm : insertArm d m p = (((m.setRed u false).setRed (m u).up true).rotate d.other
          (m u).up, p) := by
        simp only [insertArm, hup, hcol, Bool.false_eq_true, if_false, if_neg fun h => hd (hin.1 h),
          setRed_up]
      rw [harm]
      exact hz.rotateOut ht hS hG hρ hl

@[simp] theorem insertTurn_val (s : Mem ι × Ref ι) (q : Ref ι) :
    ((insertTurn s).1 q).val = (s.1 q).val := by
  have harm : ∀ d, ((insertArm d s.1 s.2).1 q).val = (s.1 q).val := by
    intro d
    simp only [insertArm]
    split
    · simp only [setRed_val]
    · split <;> simp only [rotate_val, setRed_val]
  rw [insertTurn]
  split
  · exact harm .left
  · exact harm .right

/-- The tree with a black root, at the end of the walk. -/
theorem Climb.finish {l : List ι} {k : ℕ} (h : Climb l k m p) (hr : (m (m p).up).red = false) :
    ∃ t k', Zip (m.setRed ((m .root).child .left) false) .root ((m .root).child .left) t [] ∧
      RB false k' t ∧ t.toList = l := by
  obtain ⟨u, t, π, n, hz, ht, hπ, hl, rfl⟩ := h
  have hleaf : t ≠ .leaf := by
    rintro rfl
    cases ht
  rw [hz.up_eq hleaf] at hr
  cases π with
  | nil =>
    obtain ⟨A, x, B, rfl⟩ := ht.exists_red .left
    obtain ⟨-, hA, hB⟩ := rb_mk_red.1 ht
    obtain ⟨rfl, hp⟩ := hz.above
    obtain rfl := (sub_mk.1 hz.sub).1
    rw [hp]
    exact ⟨_, n + 1, hz.setRed false, rb_mk_black.2 ⟨rfl, n, rfl, ⟨_, hA⟩, _, hB⟩, hl⟩
  | cons f π =>
    have hf : f.red = false := hz.above.2.2.1.symm.trans hr
    obtain ⟨k', hk'⟩ := (hπ.of_black hf).plug ht
    have hroot := hz.root
    rw [setRed_self (hroot.sub.red hk' hroot.nil_red)]
    exact ⟨_, k', hroot, hk', hl⟩

/-- **Insertion.** The new item is put behind all items with a key at most its own. -/
theorem insert_spec {k : ℕ} (h : Zip m .root ((m .root).child .left) t []) (hk : RB false k t)
    (hs : Sorted m t.toList) (hz : z ∉ t.toList) (hn : t.toList.length ≤ n) (val : ℤ) :
    ∃ m' t' k' l r, m.insert n val z = some m' ∧
      Zip m' .root ((m' .root).child .left) t' [] ∧ RB false k' t' ∧ t.toList = l ++ r ∧
      t'.toList = l ++ z :: r ∧ (∀ b ∈ l, key m b ≤ val) ∧ (∀ b ∈ r, val < key m b) ∧
      key m' z = val ∧ ∀ b, b ≠ z → key m' b = key m b := by
  obtain ⟨m₀, hm₀⟩ : ∃ m₀, m₀ = m.setVal (.item z) val := ⟨_, rfl⟩
  have hother : ∀ q, q ≠ .item z → m₀ q = m q := fun q hq => by
    rw [hm₀, setVal, Function.update_of_ne hq]
  have hkey : ∀ b, b ≠ z → key m₀ b = key m b := fun b hb => by
    rw [key, hother _ (by simpa using hb), key]
  have hkeyz : key m₀ z = val := by
    rw [key, hm₀, setVal, Function.update_self]
  have hne : ∀ b ∈ t.toList, b ≠ z := by
    rintro b hb rfl
    exact hz hb
  have h₀ : Zip m₀ .root ((m₀ .root).child .left) t [] := by
    rw [hother .root (by simp)]
    exact h.congr (by rw [hother .nil (by simp)]; exact h.nil_red) (hother .root (by simp))
      fun b hb => hother _ (by simpa using hne b hb)
  have hs₀ : Sorted m₀ t.toList := by
    refine List.Pairwise.imp_of_mem (fun {a b} ha hb hab => ?_) hs
    rw [hkey a (hne a ha), hkey b (hne b hb)]
    exact hab
  obtain ⟨m₁, u, π, c, hm₁, hz₁, rfl, hf, hval₁⟩ := insertHelp_spec h₀ hs₀ hz hn
  have hz₂ : Zip (m₁.setRed (.item z) true) u (.item z) (node true .leaf z .leaf) π :=
    Zip.setRed (d := .left) hz₁ true
  have hole : Hole false 0 π := by
    obtain ⟨c, k, hl, hπ⟩ := exists_hole hk
    cases hl
    exact hπ
  have hlen : π.length ≤ n := by
    have h := length_le_plug π (.leaf : CTree ι)
    rw [toList_leaf, List.length_nil, Nat.add_zero] at h
    exact Nat.le_trans h hn
  -- the walk up
  obtain ⟨s, hloop, hend, k', hI, hval⟩ := whileLoop_spec (n := n)
    (I := fun k s => Climb (before π ++ z :: behind π) k s.1 s.2 ∧ ∀ q, (s.1 q).val = (m₁ q).val)
    (fun k s hI hc => by
      obtain ⟨k', hk', h'⟩ := hI.1.turn hc
      exact ⟨k', hk', h', fun q => by rw [insertTurn_val, hI.2]⟩)
    (s := (m₁.setRed (.item z) true, .item z))
    ⟨⟨u, _, π, 0, hz₂, .red .leaf .leaf, hole, by rw [toList_plug]; simp, rfl⟩,
      fun q => setRed_val ..⟩ hlen
  obtain ⟨t', k'', hz', hrb, hl⟩ := hI.finish hend
  have hrun : m.insert n val z = some (s.1.setRed ((s.1 .root).child .left) false) := by
    rw [Mem.insert, ← hm₀, hm₁]
    simp only [Option.bind_eq_bind, Option.bind_some, hloop]
  have hfin : ∀ b, key (s.1.setRed ((s.1 .root).child .left) false) b = key m₀ b := fun b => by
    rw [key, setRed_val, hval, hval₁, key]
  refine ⟨_, t', k'', before π, behind π, hrun, by rw [setRed_child]; exact hz', hrb, ?_, hl, ?_, ?_,
    (hfin z).trans hkeyz, fun b hb => (hfin b).trans (hkey b hb)⟩
  · rw [toList_plug]
    simp
  · intro b hb
    have hbt : b ≠ z := hne b (by rw [toList_plug]; simp [hb])
    rw [← hkey b hbt, ← hkeyz]
    exact hf.before b hb
  · intro b hb
    have hbt : b ≠ z := hne b (by rw [toList_plug]; simp [hb])
    rw [← hkey b hbt, ← hkeyz]
    exact hf.behind b hb

end Libdill.Rbtree
