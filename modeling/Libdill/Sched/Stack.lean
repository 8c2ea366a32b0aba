import Libdill.Sched.State
import Mathlib.Data.BitVec

/-!
# Stacks supplied by the user

What `dill_prologue` makes of the block of memory passed to `go_mem` and `bundle_go_mem`. Addresses
and lengths are of 64 bits, and their arithmetic wraps around. Positions in the block are counted
from its beginning, so that it does not matter where in the address space it lies.

* `prologue_inside_iff`: exactly when nothing is written outside of the block.
-/

namespace Libdill.Sched

/-- The sizes of `struct dill_bundle` and `struct dill_cr`, which depend on the compiler, with what
the source asserts of them: a bundle fits into its storage, and a coroutine is aligned to 16
bytes. -/
structure Layout where
  bundle : ℕ
  cr : ℕ
  bundle_pos : 0 < bundle
  bundle_le : bundle ≤ 64
  cr_pos : 0 < cr
  cr_aligned : 16 ∣ cr
  cr_lt : cr < 2 ^ 63

/-- `sizeof(struct dill_bundle_storage)`. -/
def bundleStorage : BitVec 64 := 64

/-- What `dill_prologue` does with the block: the objects it has written into it, with their
addresses and sizes, and how it ends. -/
inductive Prologue
  /-- It returns -1. -/
  | failed (e : Errno) (written : List (BitVec 64 × ℕ))
  /-- No stack was supplied, and one is allocated. -/
  | allocstack
  /-- The stack of `stacksz` bytes, with the coroutine at its end. -/
  | launched (cr stacksz : BitVec 64) (written : List (BitVec 64 × ℕ))
  deriving DecidableEq

/-- `top &= ~(uintptr_t)15`. -/
def alignTop (top : BitVec 64) : BitVec 64 := top &&& ~~~15

/-- The second half of the placement in `dill_prologue`, from the allocation of the stack on. -/
def placeStack (L : Layout) (ptr len : BitVec 64) (written : List (BitVec 64 × ℕ)) : Prologue :=
  if ptr = 0 then .allocstack
  else
    let top := alignTop (ptr + len)
    let stacksz := top - ptr
    if stacksz.toNat < L.cr then .failed .ENOMEM written
    else .launched (top - BitVec.ofNat 64 L.cr) stacksz
      (written ++ [(top - BitVec.ofNat 64 L.cr, L.cr)])

/-- The placement of `dill_prologue`. `canblock` is the result of `dill_canblock`, and `bndl` that of
making the handle of a new bundle (`dill_hmake` in `dill_bundle_mem`), or else of `dill_hquery`
for the one that was passed. -/
def dillPrologue (L : Layout) (canblock newBundle : Bool) (bndl : Except Errno Unit)
    (ptr len : BitVec 64) : Prologue :=
  if !canblock then .failed .ECANCELED []
  else if newBundle then
    -- the bundle is written before its handle is made, and whatever the length of the block is
    let written := if ptr = 0 then [] else [(ptr, L.bundle)]
    match bndl with
    | .error e => .failed e written
    | .ok () =>
      if ptr = 0 then .allocstack
      else placeStack L (ptr + bundleStorage) (len - bundleStorage) written
  else match bndl with
    | .error e => .failed e []
    | .ok () => placeStack L ptr len []

/-- An object of this address and size lies in the block, behind its first `skip` bytes. -/
def Within (ptr len : BitVec 64) (skip : ℕ) (o : BitVec 64 × ℕ) : Prop :=
  skip ≤ (o.1 - ptr).toNat ∧ (o.1 - ptr).toNat + o.2 ≤ len.toNat

/-- The bytes of the block that the bundle takes. -/
def bundleBytes (newBundle : Bool) : ℕ := if newBundle then 64 else 0

/-- The bytes that are cut off at the end of the block to align the top of the stack. -/
def cut (ptr len : BitVec 64) : ℕ := (ptr + len).toNat % 16

/-- A block in which there is no room for the coroutine. -/
def TooSmall (L : Layout) (newBundle : Bool) (ptr len : BitVec 64) : Prop :=
  len.toNat < bundleBytes newBundle + L.cr + cut ptr len

/-- **What a placement has to keep to.** A failure has written nothing outside of the block, and it
is `ENOMEM` only if there is no room. Otherwise the coroutine is in the block, aligned and behind
the storage of the bundle, which is in the block, too; between them is the stack. -/
def Inside (L : Layout) (newBundle : Bool) (ptr len : BitVec 64) (early : Option Errno) :
    Prologue → Prop
  | .failed e written =>
    (∀ o ∈ written, Within ptr len 0 o) ∧
      (early = some e ∨ e = .ENOMEM ∧ TooSmall L newBundle ptr len)
  | .allocstack => False
  | .launched cr stacksz written =>
    (∀ o ∈ written, Within ptr len 0 o) ∧ bundleBytes newBundle ≤ len.toNat ∧
      16 ∣ cr.toNat ∧ Within ptr len (bundleBytes newBundle) (cr, L.cr) ∧
      (cr - ptr).toNat + L.cr = bundleBytes newBundle + stacksz.toNat

/-- The error with which the call is refused before a stack is looked for. -/
def early (canblock : Bool) (bndl : Except Errno Unit) : Option Errno :=
  if !canblock then some .ECANCELED
  else match bndl with
    | .error e => some e
    | .ok () => none

/-! ## Arithmetic modulo 2 to the 64 -/

theorem alignTop_toNat (top : BitVec 64) : (alignTop top).toNat = top.toNat - top.toNat % 16 := by
  have hlow : (top &&& 15).toNat = top.toNat % 16 := by
    rw [BitVec.toNat_and]
    exact Nat.and_two_pow_sub_one_eq_mod top.toNat 4
  have hdisjoint : (top &&& ~~~15) &&& (top &&& 15) = 0 := by
    rw [BitVec.and_comm top 15, ← BitVec.and_assoc, BitVec.and_assoc top, BitVec.and_comm (~~~15)]
    simp
  have hsum : alignTop top + (top &&& 15) = top := by
    unfold alignTop
    rw [BitVec.add_eq_or_of_and_eq_zero _ _ hdisjoint]
    ext i hi
    simp only [BitVec.getElem_or, BitVec.getElem_and, BitVec.getElem_not]
    cases top[i] <;> simp
  have h := congrArg BitVec.toNat hsum
  rw [BitVec.toNat_add, hlow] at h
  have hlt := (alignTop top).isLt
  have hlt' := top.isLt
  have hmod : (alignTop top).toNat ≤ top.toNat := by
    unfold alignTop
    rw [BitVec.toNat_and]
    exact Nat.and_le_left
  omega

variable {ptr len : BitVec 64}

theorem toNat_bundleBytes (newBundle : Bool) :
    (BitVec.ofNat 64 (bundleBytes newBundle)).toNat = bundleBytes newBundle := by
  cases newBundle <;> rfl

theorem bundleBytes_le (newBundle : Bool) : bundleBytes newBundle ≤ 64 := by
  cases newBundle
  · exact Nat.zero_le 64
  · exact le_refl 64

/-- The size of the stack, modulo 2 to the 64. -/
theorem stacksz_toNat (newBundle : Bool) (ptr len : BitVec 64) :
    (alignTop (ptr + len) - (ptr + BitVec.ofNat 64 (bundleBytes newBundle))).toNat =
      (2 ^ 64 + len.toNat - cut ptr len - bundleBytes newBundle) % 2 ^ 64 := by
  have hB := bundleBytes_le newBundle
  have hp := ptr.isLt
  have hn := len.isLt
  rw [BitVec.toNat_sub, alignTop_toNat, BitVec.toNat_add, BitVec.toNat_add, toNat_bundleBytes]
  unfold cut
  rw [BitVec.toNat_add]
  omega

/-- Where the coroutine is placed in the block, modulo 2 to the 64. -/
theorem cr_toNat (L : Layout) (ptr len : BitVec 64) :
    (alignTop (ptr + len) - BitVec.ofNat 64 L.cr - ptr).toNat =
      (2 ^ 64 + len.toNat - cut ptr len - L.cr) % 2 ^ 64 := by
  have hS := L.cr_lt
  have hp := ptr.isLt
  have hn := len.isLt
  rw [BitVec.toNat_sub, BitVec.toNat_sub, alignTop_toNat, BitVec.toNat_ofNat]
  unfold cut
  rw [BitVec.toNat_add]
  omega

theorem within_cr (L : Layout) (skip : ℕ) :
    Within ptr len skip (alignTop (ptr + len) - BitVec.ofNat 64 L.cr, L.cr) ↔
      skip ≤ (2 ^ 64 + len.toNat - cut ptr len - L.cr) % 2 ^ 64 ∧
        (2 ^ 64 + len.toNat - cut ptr len - L.cr) % 2 ^ 64 + L.cr ≤ len.toNat := by
  unfold Within
  dsimp only
  rw [cr_toNat]

theorem cr_aligned (L : Layout) (top : BitVec 64) :
    16 ∣ (alignTop top - BitVec.ofNat 64 L.cr).toNat := by
  have hS := L.cr_aligned
  have hlt := L.cr_lt
  have htop := top.isLt
  rw [BitVec.toNat_sub, alignTop_toNat, BitVec.toNat_ofNat]
  omega

/-! ## The placement -/

/-- **Where the stack is placed.** The subtraction does not wrap around if and only if there is room
for the storage of the bundle and for the bytes that are cut off. -/
theorem placeStack_inside_iff (L : Layout) (newBundle : Bool) (ptr len : BitVec 64)
    (written : List (BitVec 64 × ℕ))
    (hw : bundleBytes newBundle ≤ len.toNat → ∀ o ∈ written, Within ptr len 0 o) :
    Inside L newBundle ptr len none (placeStack L (ptr + BitVec.ofNat 64 (bundleBytes newBundle))
        (len - BitVec.ofNat 64 (bundleBytes newBundle)) written) ↔
      ptr + BitVec.ofNat 64 (bundleBytes newBundle) ≠ 0 ∧
        bundleBytes newBundle + cut ptr len ≤ len.toNat := by
  have hB := bundleBytes_le newBundle
  have hS := L.cr_lt
  have hSpos := L.cr_pos
  have hn := len.isLt
  have hcut : cut ptr len < 16 := Nat.mod_lt _ (by decide)
  have hsz := stacksz_toNat newBundle ptr len
  have hcr := cr_toNat L ptr len
  have hend : ptr + BitVec.ofNat 64 (bundleBytes newBundle) +
      (len - BitVec.ofNat 64 (bundleBytes newBundle)) = ptr + len := by
    rw [BitVec.add_assoc, BitVec.add_comm (BitVec.ofNat 64 _), BitVec.sub_add_cancel]
  unfold placeStack
  by_cases hnull : ptr + BitVec.ofNat 64 (bundleBytes newBundle) = 0
  · rw [if_pos hnull]
    exact ⟨False.elim, fun h => h.1 hnull⟩
  · rw [if_neg hnull, hend]
    dsimp only
    by_cases hfit : bundleBytes newBundle + cut ptr len ≤ len.toNat
    · have hsz' : (2 ^ 64 + len.toNat - cut ptr len - bundleBytes newBundle) % 2 ^ 64 =
          len.toNat - cut ptr len - bundleBytes newBundle := by omega
      rw [hsz'] at hsz
      split
      · rename_i hlt
        rw [hsz] at hlt
        refine ⟨fun _ => ⟨hnull, hfit⟩, fun _ => ⟨hw (by omega), .inr ⟨rfl, ?_⟩⟩⟩
        unfold TooSmall
        omega
      · rename_i hge
        rw [hsz] at hge
        have hcr' : (2 ^ 64 + len.toNat - cut ptr len - L.cr) % 2 ^ 64 =
            len.toNat - cut ptr len - L.cr := by omega
        rw [hcr'] at hcr
        refine ⟨fun _ => ⟨hnull, hfit⟩, fun _ => ⟨?_, by omega, cr_aligned L _, ?_, ?_⟩⟩
        · intro o ho
          rcases List.mem_append.mp ho with ho | ho
          · exact hw (by omega) o ho
          · rw [List.mem_singleton.mp ho, within_cr]
            omega
        · rw [within_cr]
          omega
        · omega
    · -- the difference wraps around, and passes the check
      have hge : ¬ (alignTop (ptr + len) -
          (ptr + BitVec.ofNat 64 (bundleBytes newBundle))).toNat < L.cr := by
        rw [hsz]
        omega
      rw [if_neg hge]
      constructor
      · rintro ⟨-, -, -, hin, -⟩
        rw [within_cr] at hin
        omega
      · exact fun h => absurd h.2 hfit

/-- The condition under which `dill_prologue` keeps to the block. -/
structure Fits (L : Layout) (canblock newBundle : Bool) (bndl : Except Errno Unit)
    (ptr len : BitVec 64) : Prop where
  /-- The handle of the bundle is refused when the bundle has already been written. -/
  refused : canblock = true → newBundle = true → ptr ≠ 0 → early canblock bndl ≠ none →
    L.bundle ≤ len.toNat
  /-- Otherwise a block is there, and there is room in it for the storage of the bundle and for
  the bytes that are cut off to align the top of the stack. -/
  room : early canblock bndl = none → ptr ≠ 0 ∧
    ptr + BitVec.ofNat 64 (bundleBytes newBundle) ≠ 0 ∧
      bundleBytes newBundle + cut ptr len ≤ len.toNat

/-- **Stacks of the user.** `dill_prologue` keeps to the block exactly if the block has room for
the storage of the bundle and for the bytes that alignment takes. -/
theorem prologue_inside_iff (L : Layout) (canblock newBundle : Bool) (bndl : Except Errno Unit)
    (ptr len : BitVec 64) :
    Inside L newBundle ptr len (early canblock bndl)
        (dillPrologue L canblock newBundle bndl ptr len) ↔
      Fits L canblock newBundle bndl ptr len := by
  have hbundle (hlen : L.bundle ≤ len.toNat) : ∀ o ∈ [(ptr, L.bundle)], Within ptr len 0 o := by
    intro o ho
    rw [List.mem_singleton.mp ho]
    refine ⟨Nat.zero_le _, ?_⟩
    rw [BitVec.sub_self]
    exact (Nat.zero_add _).le.trans hlen
  unfold dillPrologue
  cases canblock with
  | false =>
    exact ⟨fun _ => ⟨nofun, nofun⟩, fun _ => ⟨fun _ ho => (List.not_mem_nil ho).elim, .inl rfl⟩⟩
  | true =>
    cases newBundle with
    | false =>
      cases bndl with
      | error e =>
        exact ⟨fun _ => ⟨nofun, nofun⟩,
          fun _ => ⟨fun _ ho => (List.not_mem_nil ho).elim, .inl rfl⟩⟩
      | ok _ =>
        have hplace := placeStack_inside_iff L false ptr len [] fun _ _ ho => (List.not_mem_nil ho).elim
        have hzero : BitVec.ofNat 64 (bundleBytes false) = 0#64 := rfl
        rw [hzero, BitVec.add_zero, BitVec.sub_zero] at hplace
        refine hplace.trans ⟨fun h => ⟨nofun, fun _ => ⟨h.1, ?_, h.2⟩⟩, fun h => ?_⟩
        · rw [hzero, BitVec.add_zero]
          exact h.1
        · exact ⟨(h.room rfl).1, (h.room rfl).2.2⟩
    | true =>
      by_cases hptr : ptr = 0
      · cases bndl with
        | error e =>
          simp only [if_pos hptr]
          exact ⟨fun _ => ⟨fun _ _ h => absurd hptr h, nofun⟩,
            fun _ => ⟨fun _ ho => (List.not_mem_nil ho).elim, .inl rfl⟩⟩
        | ok _ =>
          simp only [if_pos hptr]
          exact ⟨False.elim, fun h => (h.room rfl).1 hptr⟩
      · cases bndl with
        | error e =>
          simp only [if_neg hptr]
          constructor
          · rintro ⟨hin, -⟩
            refine ⟨fun _ _ _ _ => ?_, nofun⟩
            have h := (hin _ (List.mem_singleton_self _)).2
            rw [BitVec.sub_self] at h
            exact (Nat.zero_add _).ge.trans h
          · exact fun h => ⟨hbundle (h.refused rfl rfl hptr nofun), .inl rfl⟩
        | ok _ =>
          have hlen : bundleBytes true ≤ len.toNat → L.bundle ≤ len.toNat := L.bundle_le.trans
          have hplace := placeStack_inside_iff L true ptr len [(ptr, L.bundle)] fun h => hbundle (hlen h)
          simp only [if_neg hptr]
          exact hplace.trans ⟨fun h => ⟨fun _ _ _ he => absurd rfl he, fun _ => ⟨hptr, h⟩⟩,
            fun h => (h.room rfl).2⟩

/-- The sizes on x86-64 with glibc. -/
def Layout.x86_64 : Layout where
  bundle := 48
  cr := 272
  bundle_pos := by decide
  bundle_le := by decide
  cr_pos := by decide
  cr_aligned := by decide
  cr_lt := by decide

/-- A block with room for the bundle only, at an odd address: the coroutine is placed in front of
it. -/
theorem prologue_wraps_around :
    dillPrologue .x86_64 true true (.ok ()) 0x10001 65 =
        .launched 0xff30 (BitVec.ofNat 64 (2 ^ 64 - 1)) [(0x10001, 48), (0xff30, 272)] ∧
      ¬ Inside .x86_64 true 0x10001 65 none
        (dillPrologue .x86_64 true true (.ok ()) 0x10001 65) := by
  refine ⟨by decide, ?_⟩
  rintro ⟨-, -, -, ⟨-, h⟩, -⟩
  revert h
  decide

end Libdill.Sched
