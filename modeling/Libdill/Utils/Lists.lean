import Libdill.Foundations.Ring
import Libdill.Foundations.Run
import Mathlib.Data.Fintype.Basic

/-!
# The doubly linked lists of `list.h`

A `dill_list` is embedded both in the items and in the head of a list, and the functions store to
the nodes directly. The memory of all nodes is `Links`; the functions are below, store by store.
The lists of channels, clauses and bundles are all kept in one memory, and an item moves from one
to another; so the statement is about all of them together: `Lists.step` does any operation on any
of the lists and keeps beside the memory what the lists are supposed to be, and
`list_refines` says that the memory agrees with it after every sequence of operations.
-/

namespace Libdill.Utils

open Foundations

/-- The nodes (`struct dill_list`) in the memory. -/
structure Links (κ : Type*) where
  next : κ → κ
  prev : κ → κ

namespace Links

variable {κ : Type*} [DecidableEq κ]

/-- `p->next = v`. -/
def setNext (m : Links κ) (p v : κ) : Links κ := { m with next := Function.update m.next p v }

/-- `p->prev = v`. -/
def setPrev (m : Links κ) (p v : κ) : Links κ := { m with prev := Function.update m.prev p v }

/-- `dill_list_init`. -/
def listInit (m : Links κ) (self : κ) : Links κ := (m.setNext self self).setPrev self self

/-- `dill_list_empty`. -/
def listEmpty (m : Links κ) (self : κ) : Bool := m.next self = self

/-- `dill_list_oneitem`. -/
def listOneitem (m : Links κ) (self : κ) : Bool :=
  m.next self ≠ self ∧ m.next self = m.prev self

/-- `dill_list_insert`. -/
def listInsert (m : Links κ) (item before : κ) : Links κ :=
  let m := m.setNext item before
  let m := m.setPrev item (m.prev before)
  let m := m.setNext (m.prev before) item
  m.setPrev before item

/-- `dill_list_erase`. -/
def listErase (m : Links κ) (item : κ) : Links κ :=
  let m := m.setNext (m.prev item) (m.next item)
  m.setPrev (m.next item) (m.prev item)

end Links

/-! ## What the lists are supposed to be -/

/-- The items of each list, for the nodes that are heads. -/
abbrev Items (κ : Type*) := κ → Option (List κ)

namespace Items

variable {κ : Type*} {items : Items κ} {h h' self p : κ} {l l' k : List κ}

/-- The node belongs to no list. -/
def Free (items : Items κ) (p : κ) : Prop := ∀ h l, items h = some l → p ∉ h :: l

/-- No node belongs to two lists. -/
def Apart (items : Items κ) : Prop :=
  ∀ ⦃h h' l l' p⦄, items h = some l → items h' = some l' → p ∈ h :: l → p ∈ h' :: l' → h = h'

theorem Apart.away (hs : items.Apart) (hl : items h = some l) (hl' : items h' = some l')
    (hne : h ≠ h') (hp : p ∈ h :: l) : p ∉ h' :: l' :=
  fun hp' => hne (hs hl hl' hp hp')

variable [DecidableEq κ]

theorem updated_some (hl : Function.update items self (some k) h = some l) :
    (h = self ∧ l = k) ∨ (h ≠ self ∧ items h = some l) := by
  by_cases hh : h = self
  · rw [hh, Function.update_self] at hl
    exact .inl ⟨hh, (Option.some.inj hl).symm⟩
  · rw [Function.update_of_ne hh] at hl
    exact .inr ⟨hh, hl⟩

/-- A list changes, and what is new in it was in no list. -/
theorem Apart.set (hs : items.Apart)
    (hk : ∀ x ∈ self :: k, Free items x ∨ ∃ m, items self = some m ∧ x ∈ self :: m) :
    Apart (Function.update items self (some k)) := by
  intro h h' l l' p hl hl' hp hp'
  rcases updated_some hl with ⟨rfl, rfl⟩ | ⟨-, hold⟩
  · rcases updated_some hl' with ⟨rfl, -⟩ | ⟨-, hold'⟩
    · rfl
    · rcases hk p hp with hf | ⟨m, hm, hpm⟩
      · exact absurd hp' (hf _ _ hold')
      · exact hs hm hold' hpm hp'
  · rcases updated_some hl' with ⟨rfl, rfl⟩ | ⟨-, hold'⟩
    · rcases hk p hp' with hf | ⟨m, hm, hpm⟩
      · exact absurd hp (hf _ _ hold)
      · exact hs hold hm hp hpm
    · exact hs hold hold' hp hp'

theorem kept_of_drop (hl : Function.update items self none h = some l) : items h = some l := by
  by_cases hh : h = self
  · rw [hh, Function.update_self] at hl
    cases hl
  · rwa [Function.update_of_ne hh] at hl

theorem Apart.drop (hs : items.Apart) : Apart (Function.update items self none) :=
  fun _ _ _ _ _ hl hl' => hs (kept_of_drop hl) (kept_of_drop hl')

end Items

open Items

/-- An operation of a user of the lists. -/
inductive ListOp (κ : Type*)
  | init (self : κ)
  | insert (item before : κ)
  | erase (item : κ)
  /-- The memory of a node that is in no list is used for something else. -/
  | store (p next prev : κ)
  /-- The memory of a head goes out of use, whatever is still linked to it. -/
  | drop (self : κ)

/-- The memory, and beside it the lists it stands for. -/
structure Lists (κ : Type*) where
  mem : Links κ
  items : Items κ

/-- Put an item into a list before another one. -/
def insertBefore {κ : Type*} [DecidableEq κ] (item before : κ) : List κ → List κ
  | [] => []
  | x :: l => if x = before then item :: x :: l else x :: insertBefore item before l

namespace Lists

variable {κ : Type*}

/-- What the functions ask of their caller: a node that is initialised or inserted is in no list,
it is inserted into a list, and an item that is erased is in one. -/
def Allowed (s : Lists κ) : ListOp κ → Prop
  | .init self => s.items.Free self
  | .insert item before => s.items.Free item ∧ ∃ h l, s.items h = some l ∧ before ∈ h :: l
  | .erase item => ∃ h l, s.items h = some l ∧ item ∈ l
  | .store p _ _ => s.items.Free p
  | .drop _ => True

variable [DecidableEq κ]

/-- The list with the head `h` and the items `l` after an insertion: at its end when `before` is
the head. -/
def inserted (item before h : κ) (l : List κ) : List κ :=
  if before = h then l ++ [item] else insertBefore item before l

/-- One operation, on the memory and on the lists it stands for. -/
def step (s : Lists κ) : ListOp κ → Except Unit (Lists κ)
  | .init self => .ok ⟨s.mem.listInit self, Function.update s.items self (some [])⟩
  | .insert item before =>
    .ok ⟨s.mem.listInsert item before, fun h => (s.items h).map (inserted item before h)⟩
  | .erase item => .ok ⟨s.mem.listErase item, fun h => (s.items h).map (·.erase item)⟩
  | .store p next prev => .ok ⟨(s.mem.setNext p next).setPrev p prev, s.items⟩
  | .drop self => .ok ⟨s.mem, Function.update s.items self none⟩

/-- At first there are no lists. -/
def IsInit (s : Lists κ) : Prop := s.items = fun _ => none

/-- The memory holds the lists: each of them is a ring of nodes, and no node is in two. -/
structure Held (s : Lists κ) : Prop where
  ring : ∀ {h l}, s.items h = some l → DoubleRing s.mem.next s.mem.prev (h :: l)
  apart : s.items.Apart

variable {s : Lists κ} {h h' self item before p a b : κ} {l l' l₁ l₂ : List κ}

/-! ## The functions on one list -/

theorem insertBefore_of_notMem (hb : before ∉ l) : insertBefore item before l = l := by
  induction l with
  | nil => rfl
  | cons x l ih =>
    rw [List.mem_cons, not_or] at hb
    rw [insertBefore, if_neg (Ne.symm hb.1), ih hb.2]

theorem insertBefore_append (hb : before ∉ l₁) :
    insertBefore item before (l₁ ++ before :: l₂) = l₁ ++ item :: before :: l₂ := by
  induction l₁ with
  | nil => rw [List.nil_append, insertBefore, if_pos rfl, List.nil_append]
  | cons x l ih =>
    rw [List.mem_cons, not_or] at hb
    rw [List.cons_append, insertBefore, if_neg (Ne.symm hb.1), ih hb.2, List.cons_append]

theorem inserted_of_notMem (hb : before ∉ h :: l) : inserted item before h l = l := by
  rw [List.mem_cons, not_or] at hb
  rw [inserted, if_neg hb.1, insertBefore_of_notMem hb.2]

theorem listInit_ring (m : Links κ) (self : κ) :
    DoubleRing (m.listInit self).next (m.listInit self).prev [self] where
  fwd := Function.update_self _ _ _
  bwd := Function.update_self _ _ _
  nodup := List.nodup_singleton _

/-- The stores of `dill_list_insert`, put together. -/
theorem listInsert_eq (m : Links κ) (hi : item ≠ before) :
    m.listInsert item before =
      ⟨Function.update (Function.update m.next item before) (m.prev before) item,
        Function.update (Function.update m.prev item (m.prev before)) before item⟩ := by
  simp only [Links.listInsert, Links.setNext, Links.setPrev, Function.update_of_ne hi.symm]

/-- **`dill_list_insert`** puts the item before an item of the list, or at its end. -/
theorem listInsert_ring {m : Links κ} (hr : DoubleRing m.next m.prev (h :: l))
    (hi : item ∉ h :: l) (hb : before ∈ h :: l) :
    DoubleRing (m.listInsert item before).next (m.listInsert item before).prev
      (h :: inserted item before h l) := by
  have hib : item ≠ before := fun e => hi (e ▸ hb)
  rw [listInsert_eq m hib, inserted]
  split
  · rename_i hbh
    subst hbh
    exact hr.insert_head hi
  · rename_i hbh
    obtain ⟨l₁, l₂, rfl⟩ := List.append_of_mem ((List.mem_cons.mp hb).resolve_left hbh)
    have hb₁ : before ∉ l₁ := fun hm =>
      (List.nodup_append.mp (List.nodup_cons.mp hr.nodup).2).2.2 _ hm _ List.mem_cons_self rfl
    rw [insertBefore_append hb₁]
    have hsplit : DoubleRing m.next m.prev ((h :: l₁) ++ before :: l₂) := hr
    exact hsplit.insert hi

/-- The stores of `dill_list_erase`, put together. -/
theorem listErase_eq {m : Links κ} (hp : m.prev item ≠ item) :
    m.listErase item =
      ⟨Function.update m.next (m.prev item) (m.next item),
        Function.update m.prev (m.next item) (m.prev item)⟩ := by
  simp only [Links.listErase, Links.setNext, Links.setPrev, Function.update_of_ne hp.symm]

omit [DecidableEq κ] in
/-- The node before an item is another one. -/
theorem prev_ne {m : Links κ} (hr : DoubleRing m.next m.prev (h :: l)) (hi : item ∈ l) :
    m.prev item ≠ item := by
  obtain ⟨k, hk, hperm⟩ := hr.enter (List.mem_cons_of_mem h hi)
  rw [Ne, hk.prev_eq_self]
  rintro rfl
  have hlen := hperm.length_eq
  rw [List.length_singleton, List.length_cons, Nat.right_eq_add, List.length_eq_zero_iff] at hlen
  rw [hlen] at hi
  cases hi

/-- **`dill_list_erase`** takes the item out of the list. -/
theorem listErase_ring {m : Links κ} (hr : DoubleRing m.next m.prev (h :: l)) (hi : item ∈ l) :
    DoubleRing (m.listErase item).next (m.listErase item).prev (h :: l.erase item) := by
  rw [listErase_eq (prev_ne hr hi)]
  obtain ⟨l₁, l₂, rfl⟩ := List.append_of_mem hi
  have hi₁ : item ∉ l₁ := fun hm =>
    (List.nodup_append.mp (List.nodup_cons.mp hr.nodup).2).2.2 _ hm _ List.mem_cons_self rfl
  rw [List.erase_append_right _ hi₁, List.erase_cons_head]
  have hsplit : DoubleRing m.next m.prev ((h :: l₁) ++ item :: l₂) := hr
  exact hsplit.erase (by simp)

omit [DecidableEq κ] in
/-- **`dill_list_oneitem`** may be asked of the head and of an item alike. -/
theorem oneitem_iff {m : Links κ} (hr : DoubleRing m.next m.prev (h :: l)) (hp : p ∈ h :: l) :
    (m.next p ≠ p ∧ m.next p = m.prev p) ↔ l.length = 1 := by
  obtain ⟨k, hk, hperm⟩ := hr.enter hp
  have hlen := hperm.length_eq
  rw [List.length_cons, List.length_cons, Nat.add_right_cancel_iff] at hlen
  rw [Ne, hk.next_eq_self, hk.next_eq_prev, ← List.length_eq_zero_iff]
  omega

/-! ## The lists beside each other -/

omit [DecidableEq κ] in
/-- Stores that do not concern a list leave it alone. -/
theorem ring_congr {m m' : Links κ} (hr : DoubleRing m.next m.prev l)
    (hm : ∀ x ∈ l, m'.next x = m.next x ∧ m'.prev x = m.prev x) :
    DoubleRing m'.next m'.prev l :=
  hr.congr (fun x hx => (hm x hx).1) fun x hx => (hm x hx).2

theorem setNext_ne {m : Links κ} (hx : b ≠ p) : (m.setNext p a).next b = m.next b :=
  Function.update_of_ne hx _ _

theorem setPrev_ne {m : Links κ} (hx : b ≠ p) : (m.setPrev p a).prev b = m.prev b :=
  Function.update_of_ne hx _ _

theorem Held.init (hs : s.Held) (hf : s.items.Free self) :
    Held ⟨s.mem.listInit self, Function.update s.items self (some [])⟩ where
  ring {h l} hl := by
    rcases updated_some hl with ⟨rfl, rfl⟩ | ⟨-, hold⟩
    · exact listInit_ring s.mem h
    · refine ring_congr (hs.ring hold) fun x hx => ?_
      have hne : x ≠ self := fun e => hf h l hold (e ▸ hx)
      exact ⟨setNext_ne hne, setPrev_ne hne⟩
  apart := hs.apart.set fun x hx => .inl (List.mem_singleton.mp hx ▸ hf)

theorem mem_insertBefore {x : κ} (hx : x ∈ insertBefore item before l) : x = item ∨ x ∈ l := by
  induction l with
  | nil => cases hx
  | cons y l ih =>
    rw [insertBefore] at hx
    split at hx
    · exact List.mem_cons.mp hx
    · rcases List.mem_cons.mp hx with rfl | hx
      · exact .inr List.mem_cons_self
      · exact (ih hx).imp id (List.mem_cons_of_mem _)

theorem mem_inserted {x : κ} (hx : x ∈ h :: inserted item before h l) :
    (x = item ∧ before ∈ h :: l) ∨ x ∈ h :: l := by
  by_cases hb : before ∈ h :: l
  · rw [inserted] at hx
    split at hx
    · rw [← List.cons_append, List.mem_append, List.mem_singleton] at hx
      exact hx.symm.imp (fun e => ⟨e, hb⟩) id
    · rcases List.mem_cons.mp hx with rfl | hx
      · exact .inr List.mem_cons_self
      · exact (mem_insertBefore hx).imp (fun e => ⟨e, hb⟩) (List.mem_cons_of_mem h)
  · rw [inserted_of_notMem hb] at hx
    exact .inr hx

theorem Held.insert (hs : s.Held) (hf : s.items.Free item) (hl : s.items h = some l)
    (hb : before ∈ h :: l) :
    Held ⟨s.mem.listInsert item before, fun x => (s.items x).map (inserted item before x)⟩ where
  ring {h' k} hk := by
    obtain ⟨l', hl', rfl⟩ := Option.map_eq_some_iff.mp hk
    by_cases hh : h' = h
    · subst hh
      rw [hl] at hl'
      cases hl'
      exact listInsert_ring (hs.ring hl) (hf _ _ hl) hb
    · have hne : item ≠ before := fun e => hf _ _ hl (e ▸ hb)
      -- another list, in which neither the item nor its neighbours are
      rw [inserted_of_notMem (hs.apart.away hl hl' (Ne.symm hh) hb),
        listInsert_eq _ hne]
      refine ring_congr (hs.ring hl') fun x hx => ?_
      have hi : x ≠ item := fun e => hf _ _ hl' (e ▸ hx)
      have hxb : x ≠ before := fun e => hs.apart.away hl' hl hh hx (e ▸ hb)
      have hxp : x ≠ s.mem.prev before := fun e =>
        hs.apart.away hl' hl hh hx (e ▸ (hs.ring hl).prev_mem hb)
      exact ⟨(Function.update_of_ne hxp _ _).trans (Function.update_of_ne hi _ _),
        (Function.update_of_ne hxb _ _).trans (Function.update_of_ne hi _ _)⟩
  apart h₁ h₂ k₁ k₂ p hk₁ hk₂ hp₁ hp₂ := by
    obtain ⟨l₁, hl₁, rfl⟩ := Option.map_eq_some_iff.mp hk₁
    obtain ⟨l₂, hl₂, rfl⟩ := Option.map_eq_some_iff.mp hk₂
    rcases mem_inserted hp₁ with ⟨hi₁, hb₁⟩ | hm₁
    · rcases mem_inserted hp₂ with ⟨-, hb₂⟩ | hm₂
      · exact hs.apart hl₁ hl₂ hb₁ hb₂
      · exact absurd (hi₁ ▸ hm₂) (hf _ _ hl₂)
    · rcases mem_inserted hp₂ with ⟨hi₂, -⟩ | hm₂
      · exact absurd (hi₂ ▸ hm₁) (hf _ _ hl₁)
      · exact hs.apart hl₁ hl₂ hm₁ hm₂

theorem Held.erase (hs : s.Held) (hl : s.items h = some l) (hi : item ∈ l) :
    Held ⟨s.mem.listErase item, fun x => (s.items x).map (·.erase item)⟩ where
  ring {h' k} hk := by
    obtain ⟨l', hl', rfl⟩ := Option.map_eq_some_iff.mp hk
    by_cases hh : h' = h
    · subst hh
      rw [hl] at hl'
      cases hl'
      exact listErase_ring (hs.ring hl) hi
    · have hi' : item ∈ h :: l := List.mem_cons_of_mem h hi
      have hout := hs.apart.away hl hl' (Ne.symm hh) hi'
      simp only [List.erase_of_not_mem fun hm => hout (List.mem_cons_of_mem _ hm)]
      rw [listErase_eq (prev_ne (hs.ring hl) hi)]
      refine ring_congr (hs.ring hl') fun x hx => ?_
      have hxn : x ≠ s.mem.next item := fun e =>
        hs.apart.away hl' hl hh hx (e ▸ (hs.ring hl).fwd.next_mem hi')
      have hxp : x ≠ s.mem.prev item := fun e =>
        hs.apart.away hl' hl hh hx (e ▸ (hs.ring hl).prev_mem hi')
      exact ⟨Function.update_of_ne hxp _ _, Function.update_of_ne hxn _ _⟩
  apart h₁ h₂ k₁ k₂ p hk₁ hk₂ hp₁ hp₂ := by
    obtain ⟨l₁, hl₁, rfl⟩ := Option.map_eq_some_iff.mp hk₁
    obtain ⟨l₂, hl₂, rfl⟩ := Option.map_eq_some_iff.mp hk₂
    exact hs.apart hl₁ hl₂ (List.cons_subset_cons _ List.erase_subset hp₁)
      (List.cons_subset_cons _ List.erase_subset hp₂)

omit [DecidableEq κ] in
theorem Held.start (hs : s.IsInit) : s.Held where
  ring {h l} hl := by
    rw [hs] at hl
    cases hl
  apart h h' l l' p hl := by
    rw [hs] at hl
    cases hl

/-- **One operation** on one of the lists keeps them all. -/
theorem Held.step {op : ListOp κ} {s' : Lists κ} (hs : s.Held) (ha : s.Allowed op)
    (he : s.step op = .ok s') : s'.Held := by
  cases op with
  | init self =>
    cases he
    exact hs.init ha
  | insert item before =>
    cases he
    obtain ⟨hf, h, l, hl, hb⟩ := ha
    exact hs.insert hf hl hb
  | erase item =>
    cases he
    obtain ⟨h, l, hl, hi⟩ := ha
    exact hs.erase hl hi
  | store p next prev =>
    cases he
    refine ⟨fun {h l} hl => ring_congr (hs.ring hl) fun x hx => ?_, hs.apart⟩
    have hne : x ≠ p := fun e => ha h l hl (e ▸ hx)
    exact ⟨setNext_ne hne, setPrev_ne hne⟩
  | drop self =>
    cases he
    exact ⟨fun hl => hs.ring (kept_of_drop hl), hs.apart.drop⟩

end Lists

open Libdill.Utils.Lists

/-- **The lists of `list.h` are lists.** After every sequence of operations on any number of lists
in one memory, in which nodes are inserted, erased and used otherwise as the functions ask for:
the loop over each of the lists visits its items in their order, forwards and backwards, no node is
there twice or in another list, `dill_list_empty` tells whether there are items, and
`dill_list_oneitem`, asked of the head or of any item, whether there is one. -/
theorem list_refines {κ : Type*} [DecidableEq κ] {s : Lists κ} {h : κ} {l : List κ}
    (hs : Reach Lists.step IsInit Allowed s) (hl : s.items h = some l) :
    (∀ n, l.length ≤ n → rounds s.mem.next h n (s.mem.next h) = some l ∧
      rounds s.mem.prev h n (s.mem.prev h) = some l.reverse) ∧
    ((h :: l).Nodup ∧ ∀ h' l', s.items h' = some l' → h' ≠ h → (h :: l).Disjoint (h' :: l')) ∧
    (s.mem.listEmpty h = true ↔ l = []) ∧
    ∀ p ∈ h :: l, (s.mem.listOneitem p = true ↔ l.length = 1) := by
  have hheld : s.Held := Reach.invariant (I := Held) (fun _ => Held.start)
    (fun _ _ _ hs ha he => hs.step ha he) hs
  have hr := hheld.ring hl
  have hh : h ∉ l := (List.nodup_cons.mp hr.nodup).1
  refine ⟨fun n hn => ⟨hr.fwd.rounds_eq hh hn, ?_⟩, ⟨hr.nodup, ?_⟩, ?_, fun p hp => ?_⟩
  · have hb : Ring s.mem.prev (h :: l.reverse) := by
      have hb := hr.bwd
      rw [List.reverse_cons] at hb
      exact hb.rotate
    exact hb.rounds_eq (by simpa using hh) (by simpa using hn)
  · intro h' l' hl' hne p hp hp'
    exact hne (hheld.apart hl' hl hp' hp)
  · rw [Links.listEmpty, decide_eq_true_eq]
    exact hr.next_eq_self
  · rw [Links.listOneitem, decide_eq_true_eq]
    exact oneitem_iff hr hp

instance {κ : Type*} [DecidableEq κ] [Fintype κ] (items : Items κ) (p : κ) :
    Decidable (items.Free p) :=
  inferInstanceAs (Decidable (∀ h, ∀ l ∈ items h, p ∉ h :: l))

instance {κ : Type*} [DecidableEq κ] [Fintype κ] (s : Lists κ) : ∀ op, Decidable (s.Allowed op)
  | .init self => inferInstanceAs (Decidable (s.items.Free self))
  | .insert item before => inferInstanceAs (Decidable (s.items.Free item ∧
      ∃ h, ∃ l ∈ s.items h, before ∈ h :: l))
  | .erase item => inferInstanceAs (Decidable (∃ h, ∃ l ∈ s.items h, item ∈ l))
  | .store p _ _ => inferInstanceAs (Decidable (s.items.Free p))
  | .drop _ => .isTrue trivial

/-- Two lists with the heads 0 and 1, in a memory of five nodes; the node 2 is erased from one of them
and inserted into the other. -/
def twoLists : List (ListOp (Fin 5)) :=
  [.init 0, .init 1, .insert 2 0, .insert 3 2, .insert 4 1, .erase 2, .insert 2 1]

theorem list_refines_twoLists : ∃ s : Lists (Fin 5),
    runIf Lists.step Allowed ⟨⟨id, id⟩, fun _ => none⟩ twoLists = some s ∧
      s.items 0 = some [3] ∧ s.items 1 = some [4, 2] ∧
      rounds s.mem.next 1 2 (s.mem.next 1) = some [4, 2] ∧
      rounds s.mem.prev 1 2 (s.mem.prev 1) = some [2, 4] ∧
      ([0, 3] : List (Fin 5)).Disjoint [1, 4, 2] ∧
      s.mem.listOneitem 3 = true ∧ ¬s.mem.listOneitem 4 = true := by
  obtain ⟨s, hr, hp⟩ := exists_of_runIf Lists.step Allowed ⟨⟨id, id⟩, fun _ => none⟩ twoLists
    (fun s => s.items 0 = some [3] && s.items 1 = some [4, 2]) (by decide)
  simp only [Bool.and_eq_true, decide_eq_true_eq] at hp
  obtain ⟨h₀, h₁⟩ := hp
  have hinit : IsInit (⟨⟨id, id⟩, fun _ => none⟩ : Lists (Fin 5)) := rfl
  have hreach : Reach Lists.step IsInit Allowed s := reach_of_runIf (.init hinit) hr
  obtain ⟨-, ⟨-, hapart⟩, -, hone⟩ := list_refines hreach h₀
  obtain ⟨hloop, -, -, htwo⟩ := list_refines hreach h₁
  obtain ⟨hnext, hprev⟩ := hloop 2 (Nat.le_refl 2)
  refine ⟨s, hr, h₀, h₁, hnext, hprev, hapart 1 _ h₁ (by decide), ?_, ?_⟩
  · exact (hone 3 (by decide)).mpr rfl
  · rw [htwo 4 (by decide)]
    decide

end Libdill.Utils
