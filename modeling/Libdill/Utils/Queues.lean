import Libdill.Utils.Lists

/-!
# The stacks of `slist.h` and the queues of `qlist.h`

A `dill_slist` is a circular list with links in one direction, used as a stack; a `dill_qlist` is
such a list with a pointer to its last node, used as a queue. As with `list.h`, all of them share
one memory. The link of a node in a list is never `NULL`, not even that of the last one, which
leads back to the head: this is what lets the scheduler tell by `ready.next` whether a coroutine
is in the ready queue. `queues_refine` is the statement for all sequences of operations.
-/

namespace Libdill.Utils

open Foundations Items

/-- The nodes (`struct dill_slist`) in the memory; for the heads of queues `last` is the field of
`struct dill_qlist`. -/
structure Nodes (κ : Type*) where
  next : κ → κ
  last : κ → κ

namespace Nodes

variable {κ : Type*} [DecidableEq κ]

/-- `p->next = v`. -/
def setNext (m : Nodes κ) (p v : κ) : Nodes κ := { m with next := Function.update m.next p v }

/-- `self->last = v`. -/
def setLast (m : Nodes κ) (self v : κ) : Nodes κ := { m with last := Function.update m.last self v }

/-- `dill_slist_init`. -/
def slistInit (m : Nodes κ) (self : κ) : Nodes κ := m.setNext self self

/-- `dill_slist_empty`. -/
def slistEmpty (m : Nodes κ) (self : κ) : Bool := m.next self = self

/-- `dill_slist_push`. -/
def slistPush (m : Nodes κ) (self item : κ) : Nodes κ :=
  let m := m.setNext item (m.next self)
  m.setNext self item

/-- `dill_slist_pop`; it returns the list itself when there are no items. -/
def slistPop (m : Nodes κ) (self : κ) : κ × Nodes κ :=
  let item := m.next self
  (item, m.setNext self (m.next item))

/-- `dill_qlist_init`. -/
def qlistInit (m : Nodes κ) (self : κ) : Nodes κ := (m.slistInit self).setLast self self

/-- `dill_qlist_empty`. -/
def qlistEmpty (m : Nodes κ) (self : κ) : Bool := m.next self = self

/-- `dill_qlist_push`. -/
def qlistPush (m : Nodes κ) (self item : κ) : Nodes κ :=
  let m := m.setNext item self
  let m := m.setNext (m.last self) item
  m.setLast self item

/-- `dill_qlist_pop`. -/
def qlistPop (m : Nodes κ) (self : κ) : κ × Nodes κ :=
  let item := m.next self
  let m := m.setNext self (m.next item)
  (item, if item = m.last self then m.setLast self self else m)

end Nodes

/-- Which of the two a head belongs to. -/
inductive Shape
  | stack
  | queue
  deriving DecidableEq, Repr

/-- An operation of a user of the stacks and queues. -/
inductive QueueOp (κ : Type*)
  | init (sh : Shape) (self : κ)
  | push (self item : κ)
  | pop (self : κ)
  /-- The memory of a node that is in no list is used for something else. -/
  | store (p next : κ)
  /-- The memory of a head goes out of use, or its list is about to be initialised again. -/
  | drop (self : κ)

/-- The memory, and beside it the lists it stands for: whether a head is one of a stack or of a
queue, and its items from the first to the last. -/
structure Queues (κ : Type*) where
  mem : Nodes κ
  shape : κ → Shape
  items : Items κ

namespace Queues

variable {κ : Type*}

/-- What the functions ask of their caller: a node that is initialised or pushed is in no list, and
lists are used after their initialisation. `NULL` is no node. -/
def Allowed (null : κ) (s : Queues κ) : QueueOp κ → Prop
  | .init _ self => s.items.Free self ∧ self ≠ null
  | .push self item => s.items.Free item ∧ item ≠ null ∧ s.items self ≠ none
  | .pop self => s.items self ≠ none
  | .store p _ => s.items.Free p
  | .drop _ => True

/-- At first there are no lists. -/
def IsInit (s : Queues κ) : Prop := s.items = fun _ => none

variable [DecidableEq κ]

/-- The function that initialises a list of this shape, or pushes to it, or pops from it. -/
def initAs (m : Nodes κ) : Shape → κ → Nodes κ
  | .stack, self => m.slistInit self
  | .queue, self => m.qlistInit self

def pushAs (m : Nodes κ) : Shape → κ → κ → Nodes κ
  | .stack, self, item => m.slistPush self item
  | .queue, self, item => m.qlistPush self item

def popAs (m : Nodes κ) : Shape → κ → κ × Nodes κ
  | .stack, self => m.slistPop self
  | .queue, self => m.qlistPop self

/-- The items after a push. -/
def pushed (item : κ) : Shape → List κ → List κ
  | .stack, l => item :: l
  | .queue, l => l ++ [item]

/-- One operation, on the memory and on the lists it stands for. -/
def step (s : Queues κ) : QueueOp κ → Except Unit (Queues κ)
  | .init sh self => .ok ⟨initAs s.mem sh self, Function.update s.shape self sh,
      Function.update s.items self (some [])⟩
  | .push self item => .ok ⟨pushAs s.mem (s.shape self) self item, s.shape,
      Function.update s.items self ((s.items self).map (pushed item (s.shape self)))⟩
  | .pop self => .ok ⟨(popAs s.mem (s.shape self) self).2, s.shape,
      Function.update s.items self ((s.items self).map List.tail)⟩
  | .store p next => .ok { s with mem := s.mem.setNext p next }
  | .drop self => .ok { s with items := Function.update s.items self none }

/-- The memory holds the lists. -/
structure Held (null : κ) (s : Queues κ) : Prop where
  ring : ∀ {h l}, s.items h = some l → Ring s.mem.next (h :: l)
  nodup : ∀ {h l}, s.items h = some l → (h :: l).Nodup
  last : ∀ {h l}, s.items h = some l → s.shape h = .queue → (h :: l).getLast? = some (s.mem.last h)
  apart : s.items.Apart
  null : s.items.Free null

variable {s : Queues κ} {m : Nodes κ} {null h h' self item p a b : κ} {l l' : List κ} {sh : Shape}

/-! ## The functions on one list -/

theorem initAs_ring (m : Nodes κ) (sh : Shape) (self : κ) :
    Ring (initAs m sh self).next [self] := by
  cases sh <;> exact Function.update_self _ _ _

theorem slistPush_ring (hr : Ring m.next (h :: l)) (hnd : (h :: l).Nodup) (hi : item ∉ h :: l) :
    Ring (m.slistPush h item).next (h :: item :: l) := hr.push hnd hi

/-- **`dill_qlist_push`** puts the item behind the last one. -/
theorem qlistPush_ring (hr : Ring m.next (h :: l)) (hnd : (h :: l).Nodup) (hi : item ∉ h :: l)
    (hl : (h :: l).getLast? = some (m.last h)) :
    Ring (m.qlistPush h item).next (h :: l ++ [item]) := by
  obtain ⟨k, hk⟩ := List.getLast?_eq_some_iff.mp hl
  rw [hk] at hr hnd hi ⊢
  have hh : m.next (m.last h) = h := by
    have hhead := hr.head?
    rw [← hk] at hhead
    exact (Option.some.inj hhead).symm
  have hs := hr.snoc hnd hi
  rw [hh] at hs
  rw [List.append_assoc]
  exact hs

theorem slistPop_ring (hr : Ring m.next (h :: l)) (hnd : (h :: l).Nodup) :
    (m.slistPop h).1 = l.headD h ∧ Ring (m.slistPop h).2.next (h :: l.tail) := by
  cases l with
  | nil =>
    have hh : m.next h = h := hr
    refine ⟨hh, ?_⟩
    change Function.update m.next h (m.next (m.next h)) h = h
    rw [Function.update_self, hh, hh]
  | cons i l =>
    have hi : m.next h = i := hr.second
    refine ⟨hi, ?_⟩
    change Ring (Function.update m.next h (m.next (m.next h))) (h :: l)
    rw [hi]
    exact hr.pop hnd

theorem qlistPop_eq (m : Nodes κ) (h : κ) :
    (m.qlistPop h).1 = (m.slistPop h).1 ∧ (m.qlistPop h).2.next = (m.slistPop h).2.next := by
  refine ⟨rfl, ?_⟩
  simp only [Nodes.qlistPop, Nodes.slistPop]
  split <;> rfl

theorem qlistPop_last_eq (m : Nodes κ) (h : κ) :
    (m.qlistPop h).2.last h = if m.next h = m.last h then h else m.last h := by
  rw [Nodes.qlistPop]
  change (if m.next h = m.last h then _ else _ : Nodes κ).last h = _
  split
  · exact Function.update_self _ _ _
  · rfl

/-- **`dill_qlist_pop`** moves the pointer to the last node when that one is taken out. -/
theorem qlistPop_last (hr : Ring m.next (h :: l)) (hnd : (h :: l).Nodup)
    (hl : (h :: l).getLast? = some (m.last h)) :
    (h :: l.tail).getLast? = some ((m.qlistPop h).2.last h) := by
  rw [qlistPop_last_eq]
  cases l with
  | nil =>
    have hh : m.next h = h := hr
    have hlast : h = m.last h := Option.some.inj hl
    rw [hh, if_pos hlast]
    rfl
  | cons i l =>
    rw [hr.second]
    rw [List.getLast?_cons_cons] at hl
    cases l with
    | nil =>
      have hlast : i = m.last h := Option.some.inj hl
      rw [if_pos hlast]
      rfl
    | cons j l =>
      rw [List.getLast?_cons_cons] at hl
      have hne : i ≠ m.last h := by
        rintro rfl
        exact (List.nodup_cons.mp (List.nodup_cons.mp hnd).2).1 (List.mem_of_getLast? hl)
      rw [if_neg hne, List.tail_cons, List.getLast?_cons_cons]
      exact hl

theorem popAs_ring (hr : Ring m.next (h :: l)) (hnd : (h :: l).Nodup) (sh : Shape) :
    (popAs m sh h).1 = l.headD h ∧ Ring (popAs m sh h).2.next (h :: l.tail) := by
  cases sh with
  | stack => exact slistPop_ring hr hnd
  | queue =>
    obtain ⟨h₁, h₂⟩ := qlistPop_eq m h
    rw [popAs, h₁, h₂]
    exact slistPop_ring hr hnd

theorem pushAs_ring (hr : Ring m.next (h :: l)) (hnd : (h :: l).Nodup) (hi : item ∉ h :: l)
    (hl : sh = .queue → (h :: l).getLast? = some (m.last h)) :
    Ring (pushAs m sh h item).next (h :: pushed item sh l) := by
  cases sh with
  | stack => exact slistPush_ring hr hnd hi
  | queue => exact qlistPush_ring hr hnd hi (hl rfl)

/-! ## What is left alone -/

theorem initAs_ne (m : Nodes κ) (sh : Shape) (hp : p ≠ self) :
    (initAs m sh self).next p = m.next p ∧ (initAs m sh self).last p = m.last p := by
  cases sh with
  | stack => exact ⟨Function.update_of_ne hp _ _, rfl⟩
  | queue => exact ⟨Function.update_of_ne hp _ _, Function.update_of_ne hp _ _⟩

theorem pushAs_next_ne (m : Nodes κ) (hi : p ≠ item) (hs : p ≠ self)
    (hl : sh = .queue → p ≠ m.last self) : (pushAs m sh self item).next p = m.next p := by
  cases sh with
  | stack => exact (Function.update_of_ne hs _ _).trans (Function.update_of_ne hi _ _)
  | queue => exact (Function.update_of_ne (hl rfl) _ _).trans (Function.update_of_ne hi _ _)

theorem pushAs_last_ne (m : Nodes κ) (hs : h ≠ self) :
    (pushAs m sh self item).last h = m.last h := by
  cases sh with
  | stack => rfl
  | queue => exact Function.update_of_ne hs _ _

theorem popAs_ne (m : Nodes κ) (sh : Shape) (hs : p ≠ self) :
    (popAs m sh self).2.next p = m.next p ∧ (popAs m sh self).2.last p = m.last p := by
  have hnext : (m.slistPop self).2.next p = m.next p := Function.update_of_ne hs _ _
  cases sh with
  | stack => exact ⟨hnext, rfl⟩
  | queue =>
    refine ⟨by rw [popAs, (qlistPop_eq m self).2, hnext], ?_⟩
    rw [popAs, Nodes.qlistPop]
    change (if m.next self = m.last self then _ else _ : Nodes κ).last p = _
    split
    · exact Function.update_of_ne hs _ _
    · rfl

/-! ## The lists beside each other -/

omit [DecidableEq κ] in
theorem Held.start (hs : s.IsInit) : Held null s where
  ring {h l} hl := by
    rw [hs] at hl
    cases hl
  nodup {h l} hl := by
    rw [hs] at hl
    cases hl
  last {h l} hl := by
    rw [hs] at hl
    cases hl
  apart h h' l l' p hl := by
    rw [hs] at hl
    cases hl
  null h l hl := by
    rw [hs] at hl
    cases hl

/-- The rule for an operation on one list: what has to be shown of it, and that the nodes of the
others are left alone. -/
theorem Held.set {m' : Nodes κ} {shape' : κ → Shape} {k : List κ} (hs : s.Held null)
    (hring : Ring m'.next (self :: k)) (hnd : (self :: k).Nodup)
    (hlast : shape' self = .queue → (self :: k).getLast? = some (m'.last self))
    (hk : ∀ x ∈ self :: k, s.items.Free x ∨ ∃ l, s.items self = some l ∧ x ∈ self :: l)
    (hnull : null ∉ self :: k)
    (hshape : ∀ h, h ≠ self → shape' h = s.shape h)
    (hnext : ∀ h l, h ≠ self → s.items h = some l → ∀ x ∈ h :: l, m'.next x = s.mem.next x)
    (hl : ∀ h, h ≠ self → m'.last h = s.mem.last h) :
    Held null ⟨m', shape', Function.update s.items self (some k)⟩ where
  ring {h l} he := by
    rcases updated_some he with ⟨rfl, rfl⟩ | ⟨hne, hold⟩
    · exact hring
    · exact (hs.ring hold).congr (hnext h l hne hold)
  nodup {h l} he := by
    rcases updated_some he with ⟨rfl, rfl⟩ | ⟨-, hold⟩
    · exact hnd
    · exact hs.nodup hold
  last {h l} he hq := by
    rcases updated_some he with ⟨rfl, rfl⟩ | ⟨hne, hold⟩
    · exact hlast hq
    · rw [hl h hne]
      exact hs.last hold (by rw [← hshape h hne]; exact hq)
  apart := hs.apart.set hk
  null h l he := by
    rcases updated_some he with ⟨rfl, rfl⟩ | ⟨-, hold⟩
    · exact hnull
    · exact hs.null h l hold

theorem Held.init (hs : s.Held null) (hf : s.items.Free self) (hn : self ≠ null) (sh : Shape) :
    Held null ⟨initAs s.mem sh self, Function.update s.shape self sh,
      Function.update s.items self (some [])⟩ := by
  refine hs.set (initAs_ring s.mem sh self) (List.nodup_singleton _) (fun hq => ?_)
    (fun x hx => .inl (List.mem_singleton.mp hx ▸ hf)) (by simpa using hn.symm)
    (fun h hh => Function.update_of_ne hh _ _) (fun h l hh hl x hx => ?_)
    fun h hh => (initAs_ne s.mem sh hh).2
  · rw [Function.update_self] at hq
    rw [hq]
    have hlast : (initAs s.mem .queue self).last self = self := Function.update_self _ _ _
    rw [hlast]
    rfl
  · have hne : x ≠ self := fun e => hf h l hl (e ▸ hx)
    exact (initAs_ne s.mem sh hne).1

theorem Held.push (hs : s.Held null) (hf : s.items.Free item) (hn : item ≠ null)
    (hl : s.items self = some l) :
    Held null ⟨pushAs s.mem (s.shape self) self item, s.shape,
      Function.update s.items self (some (pushed item (s.shape self) l))⟩ := by
  have hi := hf self l hl
  have hmem : ∀ x, x ∈ self :: pushed item (s.shape self) l ↔ x = item ∨ x ∈ self :: l := by
    intro x
    cases s.shape self <;> simp [pushed, or_comm, or_left_comm]
  refine hs.set (pushAs_ring (hs.ring hl) (hs.nodup hl) hi (hs.last hl)) ?_ (fun hq => ?_)
    (fun x hx => ?_) (fun hx => ?_) (fun _ _ => rfl) (fun h k hh hk x hx => ?_)
    fun h hh => pushAs_last_ne s.mem hh
  · have hnd := hs.nodup hl
    cases s.shape self with
    | stack =>
      rw [List.mem_cons, not_or] at hi
      rw [List.nodup_cons] at hnd
      simp [pushed, hi.2, hnd.1, hnd.2, Ne.symm hi.1]
    | queue =>
      rw [pushed, ← List.cons_append]
      exact List.nodup_append.mpr ⟨hnd, List.nodup_singleton _, fun x hx y hy hxy =>
        hi (by rw [List.mem_singleton.mp hy] at hxy; exact hxy ▸ hx)⟩
  · have hlast : (pushAs s.mem .queue self item).last self = item := Function.update_self _ _ _
    rw [hq, pushed, ← List.cons_append, List.getLast?_concat, hlast]
  · rcases (hmem x).mp hx with rfl | hx
    · exact .inl hf
    · exact .inr ⟨l, hl, hx⟩
  · rcases (hmem null).mp hx with hx | hx
    · exact hn hx.symm
    · exact hs.null self l hl hx
  · have hxi : x ≠ item := fun e => hf h k hk (e ▸ hx)
    have haway := hs.apart.away hk hl hh hx
    refine pushAs_next_ne s.mem hxi (fun e => haway (e ▸ List.mem_cons_self)) fun hq e => ?_
    exact haway (e ▸ List.mem_of_getLast? (hs.last hl hq))

theorem Held.pop (hs : s.Held null) (hl : s.items self = some l) :
    Held null ⟨(popAs s.mem (s.shape self) self).2, s.shape,
      Function.update s.items self (some l.tail)⟩ := by
  have hsub : ∀ x ∈ self :: l.tail, x ∈ self :: l :=
    fun x hx => List.cons_subset_cons self (List.tail_sublist l).subset hx
  refine hs.set (popAs_ring (hs.ring hl) (hs.nodup hl) _).2
    ((List.Sublist.cons_cons self (List.tail_sublist l)).nodup (hs.nodup hl)) (fun hq => ?_)
    (fun x hx => .inr ⟨l, hl, hsub x hx⟩) (fun hx => hs.null self l hl (hsub null hx))
    (fun _ _ => rfl) (fun h k hh hk x hx => ?_) fun h hh => (popAs_ne s.mem _ hh).2
  · rw [hq]
    exact qlistPop_last (hs.ring hl) (hs.nodup hl) (hs.last hl hq)
  · have haway := hs.apart.away hk hl hh hx
    have hne : x ≠ self := fun e => haway (e ▸ List.mem_cons_self)
    exact (popAs_ne s.mem _ hne).1

/-- **One operation** on one of the lists keeps them all. -/
theorem Held.step {op : QueueOp κ} {s' : Queues κ} (hs : s.Held null) (ha : s.Allowed null op)
    (he : s.step op = .ok s') : s'.Held null := by
  cases op with
  | init sh self =>
    cases he
    exact hs.init ha.1 ha.2 sh
  | push self item =>
    cases he
    obtain ⟨hf, hn, hl⟩ := ha
    obtain ⟨l, hl⟩ := Option.ne_none_iff_exists'.mp hl
    rw [hl]
    exact hs.push hf hn hl
  | pop self =>
    cases he
    obtain ⟨l, hl⟩ := Option.ne_none_iff_exists'.mp ha
    rw [hl]
    exact hs.pop hl
  | store p next =>
    cases he
    refine ⟨fun {h l} hl => (hs.ring hl).congr fun x hx => ?_, hs.nodup, hs.last, hs.apart, hs.null⟩
    have hne : x ≠ p := fun e => ha h l hl (e ▸ hx)
    exact Function.update_of_ne hne _ _
  | drop self =>
    cases he
    exact ⟨fun hl => hs.ring (kept_of_drop hl), fun hl => hs.nodup (kept_of_drop hl),
      fun hl => hs.last (kept_of_drop hl), hs.apart.drop, fun h l hl => hs.null h l (kept_of_drop hl)⟩

end Queues

open Queues

/-- **The lists of `slist.h` are stacks and those of `qlist.h` are queues.** After every sequence
of operations on any number of them in one memory, in which nodes are pushed, popped and used
otherwise as the functions ask for: the loop over a list visits its items in their order, the
emptiness test tells whether there are any, a pop returns the first of them or the list itself,
and the link of no node in a list is `NULL`, so that a node with the link `NULL` may be pushed. -/
theorem queues_refine {κ : Type*} [DecidableEq κ] {null : κ} {s : Queues κ}
    (hs : Reach Queues.step IsInit (Allowed null) s) :
    (∀ h l, s.items h = some l →
      (∀ n, l.length ≤ n → rounds s.mem.next h n (s.mem.next h) = some l) ∧
      (s.mem.slistEmpty h = true ↔ l = []) ∧ (popAs s.mem (s.shape h) h).1 = l.headD h) ∧
    ∀ p, s.mem.next p = null → s.items.Free p := by
  have hheld : s.Held null := Reach.invariant (I := Held null) (fun _ => Held.start)
    (fun _ _ _ hs ha he => hs.step ha he) hs
  refine ⟨fun h l hl => ?_, fun p hp h l hl hpl => ?_⟩
  · have hr := hheld.ring hl
    have hnd := hheld.nodup hl
    have hh : h ∉ l := (List.nodup_cons.mp hnd).1
    refine ⟨fun n hn => hr.rounds_eq hh hn, ?_, (popAs_ring hr hnd _).1⟩
    rw [Nodes.slistEmpty, decide_eq_true_eq]
    exact hr.next_eq_self hh
  · apply hheld.null h l hl
    rw [← hp]
    exact (hheld.ring hl).next_mem hpl

/-- One empty queue, in a memory of numbered nodes in which all links are 0. -/
def oneQueue : Queues ℕ where
  mem := (⟨fun _ => 0, fun _ => 0⟩ : Nodes ℕ).qlistInit 1
  shape := Function.update (fun _ => .stack) 1 .queue
  items := Function.update (fun _ => none) 1 (some [])

/-- Two nodes are pushed. -/
theorem queues_refine_twoitems : ∃ s : Queues ℕ, Reach Queues.step IsInit (Allowed 0) s ∧
    s.items 1 = some [3, 2] ∧ rounds s.mem.next 1 2 (s.mem.next 1) = some [3, 2] ∧
    (popAs s.mem (s.shape 1) 1).1 = 3 := by
  have h₀ : Reach Queues.step IsInit (Allowed 0)
      (⟨⟨fun _ => 0, fun _ => 0⟩, fun _ => .stack, fun _ => none⟩ : Queues ℕ) := .init rfl
  have h₁ : Reach Queues.step IsInit (Allowed 0) oneQueue :=
    .step (.init .queue 1) h₀ ⟨nofun, by decide⟩ rfl
  have hok : oneQueue.Allowed 0 (.push 1 3) :=
    ⟨(queues_refine h₁).2 3 rfl, by decide, nofun⟩
  have h₂ := Reach.step _ h₁ hok rfl
  have hok' : Allowed 0 _ (.push 1 2) := ⟨(queues_refine h₂).2 2 rfl, by decide, nofun⟩
  have h₃ := Reach.step _ h₂ hok' rfl
  obtain ⟨hloop, -, hpop⟩ := (queues_refine h₃).1 1 [3, 2] rfl
  exact ⟨_, h₃, rfl, hloop 2 (Nat.le_refl 2), hpop⟩

end Libdill.Utils
