import Libdill.Foundations.Call
import Libdill.Sock.Bsock
import Mathlib.Data.List.Basic

/-!
# Iolists in memory

An iolist that is received into, with the memory its elements point to, and the calls of `bsock.c`
as calls that may fail or not return.

* `fill`: what a message looks like in an iolist, the bytes in list order from the front.
* `fill_bytes`: read back from the buffers, it is the message followed by what was there before.
-/

namespace Libdill.Sock

open Foundations

/-- Why a call does not return: it waits for something that does not come, or it does what C leaves
undefined. -/
inductive Stop
  | waits
  | fault
  deriving DecidableEq, Repr

/-- An element of an iolist: a buffer with the bytes in it or, when `iol_base` is null, a number of
bytes to be skipped. -/
inductive Elem
  | null (len : ℕ)
  | buf (mem : List UInt8)
  deriving DecidableEq, Repr

theorem byte_succ_ne (v : UInt8) : v + 1 ≠ v := by
  intro h
  have hnat := congrArg UInt8.toNat h
  have hlt := UInt8.toNat_lt v
  rw [UInt8.toNat_add] at hnat
  change (v.toNat + 1) % 2 ^ 8 = v.toNat at hnat
  omega

namespace Elem

/-- `iol_len`. -/
def len : Elem → ℕ
  | .null n => n
  | .buf mem => mem.length

/-- The bytes a buffer holds. -/
def bytes : Elem → List UInt8
  | .null _ => []
  | .buf mem => mem

/-- `iol_base` is not null. -/
def IsBuf : Elem → Prop
  | .null _ => False
  | .buf _ => True

instance (it : Elem) : Decidable it.IsBuf := by
  cases it <;> unfold IsBuf <;> infer_instance

/-- The bytes `bs` are stored from `iol_base` on. -/
def put (bs : List UInt8) : Elem → Elem
  | .null n => .null n
  | .buf mem => .buf (bs ++ mem.drop bs.length)

variable {bs : List UInt8} {it : Elem}

@[simp] theorem put_nil (it : Elem) : it.put [] = it := by
  cases it <;> rfl

@[simp] theorem len_put (h : bs.length ≤ it.len) : (it.put bs).len = it.len := by
  cases it with
  | null n => rfl
  | buf mem =>
    have hlen : bs.length ≤ mem.length := h
    simp only [put, len, List.length_append, List.length_drop]
    omega

theorem bytes_put (h : it.IsBuf) : (it.put bs).bytes = bs ++ it.bytes.drop bs.length := by
  cases it with
  | null n => exact h.elim
  | buf mem => rfl

theorem length_bytes (h : it.IsBuf) : it.bytes.length = it.len := by
  cases it with
  | null n => exact h.elim
  | buf mem => rfl

@[simp] theorem isBuf_put : (it.put bs).IsBuf ↔ it.IsBuf := by
  cases it <;> rfl

end Elem

/-! ## Messages in iolists -/

/-- The number of bytes an iolist has room for. -/
def capacity : List Elem → ℕ
  | [] => 0
  | it :: next => it.len + capacity next

/-- The iolist with the bytes `bs` in it, from the front. -/
def fill : List UInt8 → List Elem → List Elem
  | _, [] => []
  | bs, it :: next => it.put (bs.take it.len) :: fill (bs.drop it.len) next

/-- The bytes in the buffers of an iolist. -/
def bytesOf (l : List Elem) : List UInt8 := l.flatMap Elem.bytes

variable {bs : List UInt8} {l l' : List Elem} {it : Elem}

@[simp] theorem capacity_nil : capacity [] = 0 := rfl

@[simp] theorem capacity_cons : capacity (it :: l) = it.len + capacity l := rfl

@[simp] theorem capacity_append : capacity (l ++ l') = capacity l + capacity l' := by
  induction l with
  | nil => simp
  | cons it l ih =>
    rw [List.cons_append, capacity_cons, capacity_cons, ih]
    omega

@[simp] theorem fill_nil (l : List Elem) : fill [] l = l := by
  induction l with
  | nil => rfl
  | cons it l ih => simp [fill, ih]

@[simp] theorem length_fill (bs : List UInt8) (l : List Elem) : (fill bs l).length = l.length := by
  induction l generalizing bs with
  | nil => rfl
  | cons it l ih => simp [fill, ih]

/-- **A message in an iolist of buffers.** It stands at the front, and what comes behind it is left
as it was. -/
theorem fill_bytes (hl : ∀ it ∈ l, it.IsBuf) (hbs : bs.length ≤ capacity l) :
    bytesOf (fill bs l) = bs ++ (bytesOf l).drop bs.length := by
  induction l generalizing bs with
  | nil =>
    have hnil : bs = [] := List.length_eq_zero_iff.mp (by simpa using hbs)
    rw [hnil]
    rfl
  | cons it l ih =>
    obtain ⟨hit, hl⟩ := List.forall_mem_cons.mp hl
    have hlen := Elem.length_bytes hit
    rw [capacity_cons] at hbs
    have hrest := @ih (bs.drop it.len) hl (by rw [List.length_drop]; omega)
    have hcons : bytesOf (fill bs (it :: l))
        = (it.put (bs.take it.len)).bytes ++ bytesOf (fill (bs.drop it.len) l) := rfl
    have hall : bytesOf (it :: l) = it.bytes ++ bytesOf l := rfl
    rw [hcons, Elem.bytes_put hit, hrest, hall, List.length_take, List.length_drop]
    by_cases hle : bs.length ≤ it.len
    · rw [Nat.min_eq_right hle, List.take_of_length_le hle, List.drop_eq_nil_of_le hle,
        List.drop_append_of_le_length (by omega), show bs.length - it.len = 0 by omega,
        List.nil_append, List.drop_zero, List.append_assoc]
    · rw [Nat.min_eq_left (by omega), List.drop_eq_nil_of_le (by omega), List.append_nil,
        List.drop_append, List.drop_eq_nil_of_le (by omega : it.bytes.length ≤ bs.length), hlen,
        List.nil_append, ← List.append_assoc, List.take_append_drop]

/-! ## The calls of `bsock.c` -/

variable {σ : Type} (u : Bsock σ)

/-- `dill_bsend`. -/
def bsend (buf : List UInt8) : Call σ Stop Errno Unit := fun s => .ok (u.bsendl s [buf])

/-- `dill_bsendl`; the empty list is a pair of null pointers. -/
def bsendl (first : List (List UInt8)) : Call σ Stop Errno Unit := fun s =>
  if first.isEmpty then .ok (.error .EINVAL, s) else .ok (u.bsendl s first)

/-- `dill_brecv` of `len` bytes. -/
def brecv (len : ℕ) : Call σ Stop Errno (List UInt8) := fun s =>
  match u.brecvl s [len] true with
  | none => .error .waits
  | some r => .ok r

theorem bsend_lossless (buf s : List UInt8) :
    bsend lossless buf s = .ok (.ok (), s ++ buf) := by
  simp [bsend, lossless]

theorem bsendl_lossless {first : List (List UInt8)} (h : first ≠ []) (s : List UInt8) :
    bsendl lossless first s = .ok (.ok (), s ++ first.flatten) := by
  have hne : first.isEmpty = false := by simpa using h
  rw [bsendl, hne]
  rfl

/-- The bytestream hands out what is on it, as long as there is enough. -/
def Reads (u : Bsock (List UInt8)) : Prop :=
  ∀ bs rest, brecv u bs.length (bs ++ rest) = .ok (.ok bs, rest)

theorem reads_lossless : Reads lossless := by
  intro bs rest
  have hrecv : lossless.brecvl (bs ++ rest) [bs.length] true = some (.ok bs, rest) := by
    apply lossless_brecvl
    rw [List.sum_singleton]
  rw [brecv, hrecv]

/-- The same for a bytestream with any state, of which `R s x` says that the bytes `x` are on it. -/
def Yields {σ : Type} (u : Bsock σ) (R : σ → List UInt8 → Prop) : Prop :=
  ∀ s bs rest, R s (bs ++ rest) → ∃ s', brecv u bs.length s = .ok (.ok bs, s') ∧ R s' rest

/-- Reading takes bytes off the front of the stream, and what is read are these bytes. -/
def Consumes (u : Bsock (List UInt8)) : Prop :=
  ∀ n s o s', brecv u n s = .ok (o, s') →
    s' <:+ s ∧ ∀ bs, o = .ok bs → s = bs ++ s' ∧ bs.length = n

/-- The bytestream that ends: a receive for which there are not enough bytes fails with the given
error, or waits forever. -/
def ending (fate : Option Errno) : Bsock (List UInt8) where
  bsendl := lossless.bsendl
  brecvl s lens ends :=
    match lossless.brecvl s lens ends with
    | some r => some r
    | none => fate.map fun e => (.error e, [])

theorem brecv_ending {fate : Option Errno} {n : ℕ} {s : List UInt8} :
    brecv (ending fate) n s =
      if n ≤ s.length then .ok (.ok (s.take n), s.drop n)
      else fate.elim (.error .waits) fun e => .ok (.error e, []) := by
  unfold brecv ending lossless
  simp only [Bool.true_eq_false, if_false, List.sum_singleton]
  by_cases h : n ≤ s.length
  · simp only [if_pos h]
  · simp only [if_neg h]
    cases fate <;> rfl

theorem reads_ending (fate : Option Errno) : Reads (ending fate) := by
  intro bs rest
  rw [brecv_ending, if_pos (by rw [List.length_append]; omega), List.take_left, List.drop_left]

theorem consumes_ending (fate : Option Errno) : Consumes (ending fate) := by
  intro n s o s' h
  rw [brecv_ending] at h
  split at h
  · rename_i hle
    cases h
    refine ⟨List.drop_suffix n s, fun bs hbs => ?_⟩
    cases hbs
    exact ⟨(List.take_append_drop n s).symm, List.length_take_of_le hle⟩
  · cases fate with
    | none => cases h
    | some e =>
      cases h
      exact ⟨List.nil_suffix, fun bs hbs => by cases hbs⟩

theorem consumes_lossless : Consumes lossless := by
  intro n s o s' h
  unfold brecv lossless at h
  simp only [Bool.true_eq_false, if_false, List.sum_singleton] at h
  by_cases hle : n ≤ s.length
  · rw [if_pos hle] at h
    cases h
    refine ⟨List.drop_suffix n s, fun bs hbs => ?_⟩
    cases hbs
    exact ⟨(List.take_append_drop n s).symm, List.length_take_of_le hle⟩
  · rw [if_neg hle] at h
    cases h

theorem yields_lossless : Yields lossless fun s x => s = x := by
  rintro s bs rest rfl
  exact ⟨rest, reads_lossless bs rest, rfl⟩

theorem yields_duplex (out : List UInt8) : Yields duplex fun s x => s = (x, out) := by
  rintro s bs rest rfl
  have hread := reads_lossless bs rest
  refine ⟨(rest, out), ?_, rfl⟩
  unfold brecv at hread ⊢
  unfold duplex
  simp only
  cases h : lossless.brecvl (bs ++ rest) [bs.length] true with
  | none =>
    rw [h] at hread
    cases hread
  | some r =>
    rw [h] at hread
    cases hread
    rfl

theorem bsendl_duplex {first : List (List UInt8)} (h : first ≠ []) (s out : List UInt8) :
    bsendl duplex first (s, out) = .ok (.ok (), s, out ++ first.flatten) := by
  have hne : first.isEmpty = false := by simpa using h
  rw [bsendl, hne]
  rfl

/-! ## Bytes spread over elements -/

/-- The first `n` bytes of an iolist go into buffers. -/
def Stored : ℕ → List Elem → Prop
  | _, [] => True
  | n, it :: next => (0 < min n it.len → it.IsBuf) ∧ Stored (n - it.len) next

theorem stored_zero (l : List Elem) : Stored 0 l := by
  induction l with
  | nil => trivial
  | cons it l ih =>
    constructor
    · intro h
      omega
    · rw [Nat.zero_sub]
      exact ih

/-- What reading the bytes `bs` into an iolist makes of it when each piece is changed by `g` where
it is stored: the elements that have been passed, and those from the last one on. -/
def spread (g : List UInt8 → List UInt8) : List UInt8 → List Elem → List Elem × List Elem
  | _, [] => ([], [])
  | bs, it :: next =>
    if bs.length ≤ it.len then ([], it.put (g bs) :: next)
    else
      let r := spread g (bs.drop it.len) next
      (it.put (g (bs.take it.len)) :: r.1, r.2)

theorem spread_short {g : List UInt8 → List UInt8} (h : bs.length ≤ it.len) (l : List Elem) :
    spread g bs (it :: l) = ([], it.put (g bs) :: l) := by
  rw [spread, if_pos h]

theorem spread_long {g : List UInt8 → List UInt8} (h : it.len < bs.length) (l : List Elem) :
    spread g bs (it :: l) = (it.put (g (bs.take it.len)) :: (spread g (bs.drop it.len) l).1,
      (spread g (bs.drop it.len) l).2) := by
  rw [spread, if_neg (by omega)]

@[simp] theorem spread_nil {g : List UInt8 → List UInt8} (hg : g [] = []) (l : List Elem) :
    spread g [] l = ([], l) := by
  cases l with
  | nil => rfl
  | cons it l => rw [spread_short (Nat.zero_le _), hg, Elem.put_nil]

/-- Bytes that are stored as they are fill the iolist from the front. -/
theorem spread_id (bs : List UInt8) (l : List Elem) :
    (spread id bs l).1 ++ (spread id bs l).2 = fill bs l := by
  induction l generalizing bs with
  | nil => rfl
  | cons it l ih =>
    by_cases h : bs.length ≤ it.len
    · rw [spread_short h, fill, List.take_of_length_le h, List.drop_eq_nil_of_le h, fill_nil]
      rfl
    · rw [spread_long (by omega), fill, ← ih]
      rfl

/-- The elements that are passed are full, and the last byte goes into the one behind them. -/
theorem spread_capacity {g : List UInt8 → List UInt8} (hg : ∀ bs, (g bs).length = bs.length)
    (hcap : bs.length ≤ capacity l) :
    capacity (spread g bs l).1 + capacity (spread g bs l).2 = capacity l ∧
      capacity (spread g bs l).1 ≤ bs.length ∧
      (0 < bs.length → capacity (spread g bs l).1 < bs.length) := by
  induction l generalizing bs with
  | nil =>
    have hnil : bs = [] := List.length_eq_zero_iff.mp (by simpa using hcap)
    rw [hnil]
    exact ⟨rfl, le_refl _, id⟩
  | cons it l ih =>
    by_cases h : bs.length ≤ it.len
    · rw [spread_short h]
      have hput : (it.put (g bs)).len = it.len := Elem.len_put (by rw [hg]; exact h)
      simp only [capacity_nil, capacity_cons, hput]
      omega
    · have hlen : (g (bs.take it.len)).length = it.len := by
        rw [hg, List.length_take]
        omega
      have hput := Elem.len_put (le_of_eq hlen)
      have hcap' : (bs.drop it.len).length ≤ capacity l := by
        rw [capacity_cons] at hcap
        rw [List.length_drop]
        omega
      obtain ⟨hsum, hle, hlt⟩ := ih hcap'
      rw [List.length_drop] at hle hlt
      rw [spread_long (by omega)]
      simp only [capacity_cons, hput]
      omega

/-- The element where bytes that are stored end. -/
theorem spread_end {g : List UInt8 → List UInt8} (hg : ∀ bs, (g bs).length = bs.length)
    (hpos : 0 < bs.length) (hcap : bs.length ≤ capacity l) (hst : Stored bs.length l) :
    ∃ it next, (spread g bs l).2 = it :: next ∧ it.IsBuf ∧ 0 < it.len := by
  induction l generalizing bs with
  | nil =>
    rw [capacity_nil] at hcap
    omega
  | cons it l ih =>
    by_cases hle : bs.length ≤ it.len
    · have hput : (it.put (g bs)).len = it.len := Elem.len_put (by rw [hg]; exact hle)
      rw [spread_short hle]
      exact ⟨_, _, rfl, Elem.isBuf_put.mpr (hst.1 (by omega)), by omega⟩
    · have hdrop : (bs.drop it.len).length = bs.length - it.len := List.length_drop
      rw [capacity_cons] at hcap
      rw [spread_long (by omega)]
      exact ih (by omega) (by omega) (by rw [hdrop]; exact hst.2)

/-- How far the bytes reach depends on their number only. -/
theorem spread_congr {g : List UInt8 → List UInt8} {bs' : List UInt8}
    (hg : ∀ bs, (g bs).length = bs.length) (h : bs.length = bs'.length) (l : List Elem) :
    capacity (spread g bs l).1 = capacity (spread g bs' l).1 := by
  induction l generalizing bs bs' with
  | nil => rfl
  | cons it l ih =>
    by_cases hle : bs.length ≤ it.len
    · rw [spread_short hle, spread_short (by omega)]
    · have hput : ∀ bs : List UInt8, (it.put (g (bs.take it.len))).len = it.len := by
        intro bs
        apply Elem.len_put
        rw [hg, List.length_take]
        omega
      have hrest := @ih (bs.drop it.len) (bs'.drop it.len)
        (by rw [List.length_drop, List.length_drop, h])
      rw [spread_long (by omega), spread_long (by omega), capacity_cons, capacity_cons, hput, hput,
        hrest]

/-! ## The bytes at a position -/

/-- The byte at position `x` of an iolist, if there is a buffer there. -/
def cell : ℕ → List Elem → Option UInt8
  | _, [] => none
  | x, it :: next => if x < it.len then it.bytes[x]? else cell (x - it.len) next

theorem cell_append (x : ℕ) (l l' : List Elem) :
    cell x (l ++ l') = if x < capacity l then cell x l else cell (x - capacity l) l' := by
  induction l generalizing x with
  | nil => simp
  | cons it l ih =>
    rw [List.cons_append, cell, cell, ih, capacity_cons, Nat.sub_sub]
    by_cases hx : x < it.len
    · rw [if_pos hx, if_pos hx, if_pos (by omega)]
    · rw [if_neg hx, if_neg hx]
      by_cases hx' : x - it.len < capacity l
      · rw [if_pos hx', if_pos (by omega)]
      · rw [if_neg hx', if_neg (by omega)]

/-- A byte of a message in an iolist. -/
theorem cell_fill (x : ℕ) :
    cell x (fill bs l) = bs[x]?.elim (cell x l) fun b => (cell x l).map fun _ => b := by
  induction l generalizing bs x with
  | nil => cases bs[x]? <;> rfl
  | cons it l ih =>
    have htake : (bs.take it.len).length ≤ it.len := by
      rw [List.length_take]
      omega
    rw [fill, cell, cell, Elem.len_put htake, ih (x - it.len), List.getElem?_drop]
    by_cases hx : x < it.len
    · rw [if_pos hx, if_pos hx]
      cases it with
      | null n => cases bs[x]? <;> simp [Elem.put, Elem.bytes]
      | buf mem =>
        have hmem : x < mem.length := hx
        simp only [Elem.put, Elem.bytes, Elem.len, List.getElem?_append, List.length_take,
          List.getElem?_eq_getElem hmem, Option.map_some]
        by_cases hbs : x < bs.length
        · rw [if_pos (by omega), List.getElem?_take_of_lt hmem, List.getElem?_eq_getElem hbs]
          rfl
        · rw [if_neg (by omega), List.getElem?_eq_none (by omega : bs.length ≤ x),
            List.getElem?_drop,
            show min mem.length bs.length + (x - min mem.length bs.length) = x by omega,
            List.getElem?_eq_getElem hmem]
          rfl
    · rw [if_neg hx, if_neg hx, show it.len + (x - it.len) = x by omega]

end Libdill.Sock
