import Libdill.Foundations.Loop
import Libdill.Foundations.RedBlack
import Mathlib.Data.Int.Notation
import Mathlib.Logic.Function.Basic

/-!
# The red-black tree of the timers

The functions of `rbtree.c` on a memory of tree items. A pointer is the false root `root`, the
sentinel `nil`, both of them parts of `struct dill_rbtree`, or an item of the user; `child .left` and
`child .right` are the fields `left` and `right`. Loops get a bound on their turns and fail with
`none` when they exceed it.

The source writes every case of the rebalancing twice, once for each side, with `left` and `right`
exchanged. Here the two arms are one function of the side.
-/

namespace Libdill.Rbtree

open Foundations

variable {ι : Type} [DecidableEq ι]

/-- A pointer to a `struct dill_rbtree_item`. -/
inductive Ref (ι : Type)
  | root
  | nil
  | item (i : ι)
  deriving DecidableEq, Repr

/-- `struct dill_rbtree_item`. -/
structure Item (ι : Type) where
  red : Bool
  child : Dir → Ref ι
  up : Ref ι
  val : ℤ

/-- The items in memory, with those of `struct dill_rbtree`. -/
abbrev Mem (ι : Type) := Ref ι → Item ι

namespace Mem

def setRed (m : Mem ι) (p : Ref ι) (red : Bool) : Mem ι :=
  Function.update m p { m p with red := red }

def setChild (m : Mem ι) (p : Ref ι) (d : Dir) (q : Ref ι) : Mem ι :=
  Function.update m p { m p with child := Function.update (m p).child d q }

def setUp (m : Mem ι) (p q : Ref ι) : Mem ι := Function.update m p { m p with up := q }

def setVal (m : Mem ι) (p : Ref ι) (val : ℤ) : Mem ι := Function.update m p { m p with val := val }

/-- `dill_rbtree_init`. -/
def init (m : Mem ι) : Mem ι :=
  let m := Function.update m .nil { red := false, child := fun _ => .nil, up := .nil, val := 0 }
  Function.update m .root { red := false, child := fun _ => .nil, up := .nil, val := 0 }

/-- The parent of `p` gets `q` in its place. -/
def replaceChild (m : Mem ι) (p q : Ref ι) : Mem ι :=
  if p = (m (m p).up).child .left then m.setChild (m p).up .left q
  else m.setChild (m p).up .right q

/-- The rotation that moves `x` down to side `d`. -/
def rotate (m : Mem ι) (d : Dir) (x : Ref ι) : Mem ι :=
  let y := (m x).child d.other
  let m := m.setChild x d.other ((m y).child d)
  let m := if (m y).child d ≠ .nil then m.setUp ((m y).child d) x else m
  let m := m.setUp y (m x).up
  let m := m.replaceChild x y
  let m := m.setChild y d x
  m.setUp x y

/-- `dill_rbtree_lrotate`. -/
def lrotate (m : Mem ι) (x : Ref ι) : Mem ι := m.rotate .left x

/-- `dill_rbtree_rrotate`. -/
def rrotate (m : Mem ι) (y : Ref ι) : Mem ι := m.rotate .right y

/-! ## Insertion -/

/-- The loop of `dill_rbtree_insert_help`: the place for a new item, as the pair of its parent and
of the child of it that is `nil`. -/
def place (n : ℕ) (m : Mem ι) (val : ℤ) : Option (Ref ι × Ref ι) :=
  whileLoop (fun s => s.2 ≠ .nil)
    (fun s => (s.2, if (m s.2).val > val then (m s.2).child .left else (m s.2).child .right))
    n (.root, (m .root).child .left)

/-- `dill_rbtree_insert_help`. -/
def insertHelp (n : ℕ) (m : Mem ι) (z : Ref ι) : Option (Mem ι) := do
  let m := (m.setChild z .right .nil).setChild z .left .nil
  let (y, _) ← m.place n (m z).val
  let m := m.setUp z y
  if y = .root ∨ (m y).val > (m z).val then some (m.setChild y .left z)
  else some (m.setChild y .right z)

/-- The arm of the loop of `dill_rbtree_insert` for a parent that is the child `d`. -/
def insertArm (d : Dir) (m : Mem ι) (x : Ref ι) : Mem ι × Ref ι :=
  let y := (m (m (m x).up).up).child d.other
  if (m y).red then
    let m := m.setRed (m x).up false
    let m := m.setRed y false
    let m := m.setRed (m (m x).up).up true
    (m, (m (m x).up).up)
  else
    let (m, x) :=
      if x = (m (m x).up).child d.other then (m.rotate d (m x).up, (m x).up) else (m, x)
    let m := m.setRed (m x).up false
    let m := m.setRed (m (m x).up).up true
    (m.rotate d.other (m (m x).up).up, x)

/-- One turn of the loop of `dill_rbtree_insert`. -/
def insertTurn (s : Mem ι × Ref ι) : Mem ι × Ref ι :=
  let (m, x) := s
  if (m x).up = (m (m (m x).up).up).child .left then insertArm .left m x
  else insertArm .right m x

/-- `dill_rbtree_insert`. -/
def insert (n : ℕ) (m : Mem ι) (val : ℤ) (item : ι) : Option (Mem ι) := do
  let m := m.setVal (.item item) val
  let m ← m.insertHelp n (.item item)
  let m := m.setRed (.item item) true
  let (m, _) ← whileLoop (fun s : Mem ι × Ref ι => (s.1 (s.1 s.2).up).red) insertTurn n
    (m, .item item)
  some (m.setRed ((m .root).child .left) false)

/-! ## Iteration -/

/-- `dill_rbtree_empty`. -/
def empty (m : Mem ι) : Bool := (m .root).child .left = .nil

/-- The pointer that the caller sees. -/
def Ref.get : Ref ι → Option ι
  | .item i => some i
  | _ => none

/-- Go down to the left as far as possible. -/
def leftmost (n : ℕ) (m : Mem ι) (x : Ref ι) : Option (Ref ι) :=
  whileLoop (fun x => (m x).child .left ≠ .nil) (fun x => (m x).child .left) n x

/-- `dill_rbtree_first`; `some none` is `NULL`. -/
def first (n : ℕ) (m : Mem ι) : Option (Option ι) :=
  if (m .root).child .left = .nil then some none
  else do
    let x ← m.leftmost n ((m .root).child .left)
    some (Ref.get x)

/-- `dill_rbtree_next_help`. -/
def nextHelp (n : ℕ) (m : Mem ι) (x : Ref ι) : Option (Ref ι) :=
  if (m x).child .right ≠ .nil then m.leftmost n ((m x).child .right)
  else do
    let (_, y) ← whileLoop (fun s => s.1 = (m s.2).child .right) (fun s => (s.2, (m s.2).up)) n
      (x, (m x).up)
    some (if y = .root then .nil else y)

/-- `dill_rbtree_next`. -/
def next (n : ℕ) (m : Mem ι) (x : ι) : Option (Option ι) := do
  let it ← m.nextHelp n (.item x)
  some (if it = .nil then none else Ref.get it)

/-! ## Removal -/

/-- The arm of the loop of `dill_rbtree_fixup` for an item that is the child `d`. -/
def fixupArm (d : Dir) (root : Ref ι) (m : Mem ι) (x : Ref ι) : Mem ι × Ref ι :=
  let w := (m (m x).up).child d.other
  let (m, w) :=
    if (m w).red then
      let m := m.setRed w false
      let m := m.setRed (m x).up true
      let m := m.rotate d (m x).up
      (m, (m (m x).up).child d.other)
    else (m, w)
  if !(m ((m w).child .right)).red ∧ !(m ((m w).child .left)).red then
    (m.setRed w true, (m x).up)
  else
    let (m, w) :=
      if !(m ((m w).child d.other)).red then
        let m := m.setRed ((m w).child d) false
        let m := m.setRed w true
        let m := m.rotate d.other w
        (m, (m (m x).up).child d.other)
      else (m, w)
    let m := m.setRed w (m (m x).up).red
    let m := m.setRed (m x).up false
    let m := m.setRed ((m w).child d.other) false
    (m.rotate d (m x).up, root)

/-- One turn of the loop of `dill_rbtree_fixup`. -/
def fixupTurn (root : Ref ι) (s : Mem ι × Ref ι) : Mem ι × Ref ι :=
  let (m, x) := s
  if x = (m (m x).up).child .left then fixupArm .left root m x else fixupArm .right root m x

/-- `dill_rbtree_fixup`. -/
def fixup (n : ℕ) (m : Mem ι) (x : Ref ι) : Option (Mem ι) := do
  let root := (m .root).child .left
  let (m, x) ← whileLoop (fun s : Mem ι × Ref ι => !(s.1 s.2).red ∧ root ≠ s.2) (fixupTurn root) n
    (m, x)
  some (m.setRed x false)

/-- The first half of `dill_rbtree_erase`: `y` is unlinked, `x` takes its place. -/
def unlink (m : Mem ι) (y x : Ref ι) : Mem ι :=
  let m := m.setUp x (m y).up
  if .root = (m x).up then m.setChild .root .left x else m.replaceChild y x

/-- The item `y` takes the place of `z`. -/
def takePlace (m : Mem ι) (y z : Ref ι) : Mem ι :=
  let m := m.setChild y .left ((m z).child .left)
  let m := m.setChild y .right ((m z).child .right)
  let m := m.setUp y (m z).up
  let m := m.setRed y (m z).red
  let m := m.setUp ((m z).child .right) y
  let m := m.setUp ((m z).child .left) y
  m.replaceChild z y

/-- `dill_rbtree_erase`. -/
def erase (n : ℕ) (m : Mem ι) (item : ι) : Option (Mem ι) := do
  let z : Ref ι := .item item
  let y ← if (m z).child .left = .nil ∨ (m z).child .right = .nil then some z else m.nextHelp n z
  let x := if (m y).child .left = .nil then (m y).child .right else (m y).child .left
  let m := m.unlink y x
  let m ← if !(m y).red then m.fixup n x else some m
  some (if y ≠ z then m.takePlace y z else m)

end Mem

end Libdill.Rbtree
