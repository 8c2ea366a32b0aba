import Libdill.Rbtree.Shape

/-!
# Iteration

`dill_rbtree_first` goes down to the left, `dill_rbtree_next` goes one step to the right and then down
to the left, or up until it comes from a left child. Both walks keep the items before (behind) the
subtree they are at, so they end at the head of the items in question.
-/

namespace Libdill.Rbtree

open Foundations CTree Mem

variable {ι : Type} [DecidableEq ι] {m : Mem ι} {u p : Ref ι} {t l r : CTree ι}
  {π : List (Crumb ι)} {c : Bool} {a : ι} {n : ℕ}

/-- The pointer to an item, or `nil`. -/
def Ref.of : Option ι → Ref ι
  | some i => .item i
  | none => .nil

/-- Down to the first item of a subtree. -/
theorem leftmost_spec (h : Zip m u p t π) (ht : t ≠ .leaf) (hn : t.toList.length ≤ n) :
    ∃ v σ c y r, m.leftmost n p = some (.item y) ∧ Zip m v (.item y) (node c .leaf y r) σ ∧
      plug σ (node c .leaf y r) = plug π t ∧ before σ = before π := by
  let I : ℕ → Ref ι → Prop := fun k x => ∃ v s σ, Zip m v x s σ ∧ s ≠ .leaf ∧
    plug σ s = plug π t ∧ before σ = before π ∧ k = s.toList.length
  have hbody : ∀ k x, I k x → decide ((m x).child .left ≠ .nil) = true →
      ∃ k' < k, I k' ((m x).child .left) := by
    rintro k x ⟨v, s, σ, hz, hs, hp, hb, rfl⟩ hc
    rw [decide_eq_true_eq] at hc
    cases s with
    | leaf => exact absurd rfl hs
    | node c l a r =>
      obtain rfl : x = .item a := hz.sub.1
      have hd := Zip.down (d := .left) hz
      refine ⟨l.toList.length, ?_, _, l, _, hd, ?_, hp, hb, rfl⟩
      · simp only [toList_node, List.length_append, List.length_cons]
        omega
      · rintro rfl
        exact hc hd.sub
  have hI : I t.toList.length p := ⟨u, t, π, h, ht, rfl, rfl, rfl⟩
  obtain ⟨x, hx, hend, k, v, s, σ, hz, hs, hp, hb, -⟩ := whileLoop_spec hbody hI hn
  cases s with
  | leaf => exact absurd rfl hs
  | node c l a r =>
    obtain rfl : x = .item a := hz.sub.1
    have hd := Zip.down (d := .left) hz
    obtain rfl : l = .leaf := hd.sub.eq_nil (by simpa using hend)
    exact ⟨v, σ, c, a, r, hx, hz, hp, hb⟩

/-- **`dill_rbtree_first`** returns the first item. -/
theorem first_spec (h : Zip m .root ((m .root).child .left) t []) (hn : t.toList.length ≤ n) :
    m.first n = some t.toList.head? := by
  rw [first]
  by_cases ht : t = .leaf
  · subst ht
    have hnil : (m .root).child .left = .nil := h.sub
    rw [if_pos hnil]
    rfl
  · have hne : (m .root).child .left ≠ .nil := fun hn => ht (h.sub.eq_nil hn)
    obtain ⟨v, σ, c, y, r, hl, -, hp, hb⟩ := leftmost_spec h ht hn
    have hhead : t.toList.head? = some y := by
      rw [plug_nil] at hp
      rw [← hp, toList_plug, hb]
      rfl
    rw [if_neg hne, hl, hhead]
    rfl

/-- Up to the first ancestor that the subtree is to the left of. -/
theorem climb_spec (h : Zip m u p t π) (ht : t ≠ .leaf) (hn : π.length ≤ n) :
    ∃ x y, whileLoop (fun s => decide (s.1 = (m s.2).child .right)) (fun s => (s.2, (m s.2).up)) n
      (p, u) = some (x, y) ∧ (if y = .root then .nil else y) = Ref.of (behind π).head? := by
  let I : ℕ → Ref ι × Ref ι → Prop := fun k s => ∃ t' σ, Zip m s.2 s.1 t' σ ∧ t' ≠ .leaf ∧
    behind σ = behind π ∧ k = σ.length
  have hbody : ∀ k s, I k s → decide (s.1 = (m s.2).child .right) = true →
      ∃ k' < k, I k' (s.2, (m s.2).up) := by
    rintro k ⟨x, y⟩ ⟨t', σ, hz, ht', hb, rfl⟩ hc
    rw [decide_eq_true_eq] at hc
    cases σ with
    | nil =>
      obtain ⟨b, -, hx⟩ := hz.sub.eq_item ht'
      obtain ⟨rfl, -⟩ := hz.above
      rw [hz.root_right, hx] at hc
      cases hc
    | cons f σ =>
      have hd : Dir.right = f.dir := (hz.child_iff (.inl ht') .right).1 hc
      obtain ⟨d, red, b, sib⟩ := f
      obtain rfl : Dir.right = d := hd
      refine ⟨σ.length, by simp, _, σ, hz.up, ?_, hb, rfl⟩
      simp [Crumb.fill, CTree.mk]
  have hI : I π.length (p, u) := ⟨t, π, h, ht, rfl, rfl⟩
  obtain ⟨⟨x, y⟩, hx, hend, k, t', σ, hz, ht', hb, -⟩ := whileLoop_spec hbody hI hn
  refine ⟨x, y, hx, ?_⟩
  rw [← hb]
  cases σ with
  | nil =>
    rw [if_pos hz.above.1]
    rfl
  | cons f σ =>
    have hy : y = .item f.item := hz.above.1
    have hd : ¬Dir.right = f.dir := fun hd =>
      of_decide_eq_false hend ((hz.child_iff (.inl ht') .right).2 hd)
    obtain ⟨d, red, b, sib⟩ := f
    cases d with
    | left =>
      rw [if_neg (by rw [hy]; simp), hy]
      rfl
    | right => exact absurd rfl hd

/-- The item that follows the root of a subtree. -/
theorem nextHelp_spec (h : Zip m u (.item a) (node c l a r) π)
    (hn : (plug π (node c l a r)).toList.length ≤ n) :
    m.nextHelp n (.item a) = some (Ref.of (r.toList ++ behind π).head?) := by
  have hlen := length_le_plug π (node c l a r)
  rw [toList_node, List.length_append, List.length_cons] at hlen
  have hd := Zip.down_other (d := .left) h
  rw [nextHelp]
  by_cases hr : r = .leaf
  · subst hr
    have hnil : (m (.item a)).child .right = .nil := hd.sub
    have hup : (m (.item a)).up = u := h.sub.2.1
    obtain ⟨x, y, hw, hy⟩ := climb_spec (n := n) h (by simp) (by omega)
    rw [if_neg (not_not_intro hnil), hup, hw]
    simp only [Option.bind_eq_bind, Option.bind_some, hy]
    rfl
  · have hne : (m (.item a)).child .right ≠ .nil := fun hn => hr (hd.sub.eq_nil hn)
    obtain ⟨v, σ, c', y, r', hl, -, hp, hb⟩ := leftmost_spec (n := n) hd hr (by omega)
    have hlist := congrArg CTree.toList hp
    rw [toList_plug, toList_plug, hb] at hlist
    have hhead : (r.toList ++ behind π).head? = some y := by
      rw [List.append_assoc, List.append_assoc] at hlist
      have htail := List.append_cancel_left hlist
      change _ = r.toList ++ behind π at htail
      rw [← htail]
      rfl
    rw [if_pos hne, hhead]
    exact hl

/-- **`dill_rbtree_next`** returns the item behind the given one. -/
theorem next_spec {l r : List ι} (h : Zip m .root ((m .root).child .left) t [])
    (ht : t.toList = l ++ a :: r) (hn : t.toList.length ≤ n) : m.next n a = some r.head? := by
  obtain ⟨π, red, A, B, rfl⟩ := exists_plug_of_mem (t := t) (x := a) (by rw [ht]; simp)
  obtain ⟨v, q, hz⟩ := h.zoom
  obtain rfl : q = .item a := hz.sub.1
  -- the items behind `a` are those of its right subtree and those behind the path
  have hr : B.toList ++ behind π = r := (plug_node_split hz.nodup ht).2
  rw [next, nextHelp_spec hz hn, hr]
  simp only [Option.bind_eq_bind, Option.bind_some]
  cases r.head? <;> rfl

end Libdill.Rbtree
