import Libdill.Foundations.Run
import Libdill.Handle.FreeList

/-!
# The handle table as a registry

The abstract view of the handle table is a registry: a map from handles to objects, and the calls
that are inside close callbacks. `Registry.Step` says what each call does to it. The table refines
it (`Handle/Calls.lean`).

* `Rotation`: how long a handle that was returned to the pool stays there.
-/

namespace Libdill.Handle

open Foundations

variable {ω τ π : Type} {query : ω → τ → Option π}

/-! ## The registry -/

/-- A call of `dill_hclose` that is inside the close callback. -/
structure Pending where
  cr : ℕ
  h : ℤ
  own : Option Errno

/-- The objects of the handles in use and the closes in progress. -/
structure Registry (ω : Type) where
  objs : ℤ → Option ω
  closing : List Pending

/-- What a close returns when its callback has ended. -/
def Pending.answer (p : Pending) : Ans π :=
  match p.own with
  | none => .closed (.ok ())
  | some e => .handle (.error e)

/-- `dill_canblock`: no coroutine blocks while it is canceled or inside a close callback. -/
def Registry.canblock (r : Registry ω) (a : Act ω τ) : Bool :=
  !a.canceled && !decide (∃ p ∈ r.closing, p.cr = a.cr)

/-- What a call does to the registry, and what it returns. -/
inductive Registry.Step (query : ω → τ → Option π) (r : Registry ω) (a : Act ω τ) :
    Registry ω → Option (Ans π) → Prop
  /-- A new handle is one that is not in use. -/
  | hmake {v : ω} {h : ℤ} : a.call = .hmake (some v) → r.objs h = none →
      Step query r a { r with objs := Function.update r.objs h (some v) }
        (some (.handle (.ok h)))
  | hmakeRefused {vfs : Option ω} {e : Errno} : a.call = .hmake vfs →
      Refused vfs (r.canblock a) a.alloc e → Step query r a r (some (.handle (.error e)))
  /-- The object gets a new handle that is not in use, and the old one is given up. -/
  | hown {h res : ℤ} {v : ω} : a.call = .hown h → r.objs h = some v → r.objs res = none →
      Step query r a
        { r with objs := Function.update (Function.update r.objs res (some v)) h none }
        (some (.handle (.ok res)))
  /-- An object that cannot be given a new handle is closed. -/
  | hownRefused {h : ℤ} {v : ω} {e : Errno} : a.call = .hown h → r.objs h = some v →
      Refused (some v) (r.canblock a) a.alloc e →
      Step query r a { r with closing := ⟨a.cr, h, some e⟩ :: r.closing } none
  | hownBad {h : ℤ} : a.call = .hown h → r.objs h = none →
      Step query r a r (some (.handle (.error .EBADF)))
  | hquery {h : ℤ} {type : τ} : a.call = .hquery h type →
      Step query r a r (some (.ptr (queried query r.objs h type)))
  /-- The handle stays in use until the callback has ended. -/
  | hclose {h : ℤ} {v : ω} : a.call = .hclose h → r.objs h = some v →
      Step query r a { r with closing := ⟨a.cr, h, none⟩ :: r.closing } none
  | hcloseBad {h : ℤ} : a.call = .hclose h → r.objs h = none →
      Step query r a r (some (.closed (.error .EBADF)))
  | ret {p : Pending} : a.call = .ret → r.closing.find? (fun p => p.cr = a.cr) = some p →
      Step query r a ⟨Function.update r.objs p.h none, r.closing.eraseP fun p => p.cr = a.cr⟩
        (some p.answer)
  | idle : a.call = .ret → r.closing.find? (fun p => p.cr = a.cr) = none → Step query r a r none

/-- The registry the table stands for. -/
def Closing.pending (p : Closing) : Pending := ⟨p.cr, p.h, p.own⟩

/-- The registry the table stands for. -/
def Sys.registry (s : Sys ω τ π) : Registry ω := ⟨s.ctx.objs, s.closing.map Closing.pending⟩

/-! ## Rotation of the handle numbers -/

/-- A record of a handle given out. -/
def Record.isIssued : Record → Bool
  | .issued _ => true
  | .released _ => false

/-- In the history (the latest record first), at least 8 handles were given out between the return
of a handle to the pool and its next use. -/
def Delayed (log : List Record) : Prop :=
  ∀ h post mid pre, log = post ++ .issued h :: (mid ++ .released h :: pre) →
    .released h ∉ mid → 8 ≤ mid.countP Record.isIssued

/-- The handles on the list have waited for 8 others, or will have when it is their turn. -/
structure Rotation (log : List Record) (free : List ℤ) : Prop where
  delayed : Delayed log
  waits : ∀ l h r, free = l ++ h :: r → ∀ mid pre, log = mid ++ .released h :: pre →
    .released h ∉ mid → 8 ≤ l.length + mid.countP Record.isIssued

variable {log : List Record} {free lost : List ℤ} {h : ℤ}

theorem rotation_fresh (free : List ℤ) (h : ℤ) : Rotation [.issued h] free where
  delayed h' post mid pre heq _ := by
    have hlen := congrArg List.length heq
    simp only [List.length_append, List.length_cons, List.length_nil] at hlen
    omega
  waits l h' r _ mid pre heq _ := by
    have hm : Record.released h' ∈ [Record.issued h] := heq ▸ List.mem_append_right _ List.mem_cons_self
    cases List.mem_singleton.mp hm

theorem Rotation.issue (hr : Rotation log (h :: free)) : Rotation (.issued h :: log) free where
  delayed h' post mid pre heq hmid := by
    cases post with
    | nil =>
      rw [List.nil_append, List.cons.injEq] at heq
      obtain ⟨hh, hlog⟩ := heq
      cases hh
      have hw := hr.waits [] h free rfl mid pre hlog hmid
      rw [List.length_nil] at hw
      omega
    | cons x post =>
      rw [List.cons_append, List.cons.injEq] at heq
      exact hr.delayed h' post mid pre heq.2 hmid
  waits l h' r heq mid pre hlog hmid := by
    cases mid with
    | nil =>
      rw [List.nil_append, List.cons.injEq] at hlog
      cases hlog.1
    | cons x mid =>
      rw [List.cons_append, List.cons.injEq] at hlog
      obtain ⟨rfl, hlog⟩ := hlog
      have hmid' : Record.released h' ∉ mid := fun hm => hmid (List.mem_cons_of_mem _ hm)
      have hw := hr.waits (h :: l) h' r (by rw [heq, List.cons_append]) mid pre hlog hmid'
      rw [List.length_cons] at hw
      rw [List.countP_cons_of_pos rfl]
      omega

theorem Rotation.release (hr : Rotation log free) (hlen : 8 ≤ free.length) (hh : h ∉ free) :
    Rotation (.released h :: log) (free ++ [h]) where
  delayed h' post mid pre heq hmid := by
    cases post with
    | nil =>
      rw [List.nil_append, List.cons.injEq] at heq
      cases heq.1
    | cons x post =>
      rw [List.cons_append, List.cons.injEq] at heq
      exact hr.delayed h' post mid pre heq.2 hmid
  waits l h' r heq mid pre hlog hmid := by
    rcases List.eq_nil_or_concat r with rfl | ⟨r, x, rfl⟩
    · -- The handle that was just returned: the whole list is before it.
      obtain ⟨rfl, hx⟩ := List.append_inj' heq rfl
      omega
    · rw [List.concat_eq_append, ← List.cons_append, ← List.append_assoc] at heq
      obtain ⟨hfree, -⟩ := List.append_inj' heq rfl
      have hne : h' ≠ h := by
        rintro rfl
        exact hh (hfree ▸ List.mem_append_right _ List.mem_cons_self)
      cases mid with
      | nil =>
        rw [List.nil_append, List.cons.injEq] at hlog
        cases hlog.1
        exact absurd rfl hne
      | cons x mid =>
        rw [List.cons_append, List.cons.injEq] at hlog
        obtain ⟨rfl, hlog⟩ := hlog
        have hmid' : Record.released h' ∉ mid := fun hm => hmid (List.mem_cons_of_mem _ hm)
        have hw := hr.waits l h' r hfree mid pre hlog hmid'
        rw [List.countP_cons_of_neg (by unfold Record.isIssued; simp)]
        exact hw

end Libdill.Handle
