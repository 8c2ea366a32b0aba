import Libdill.Foundations.Frame
import Libdill.Sock.Iolcheck

/-!
# What the check of an iolist changes

`dill_iolcheck` marks the elements of the list that it is given. It does not touch any other, valid
or not as the list may be; it may leave the marks on those that it has visited.

* `iolcheck_intact`: the elements that are not in the list are as they were.
-/

namespace Libdill.Sock

open Foundations

variable {n : ℕ} {mem mem' : IolMem n} {first last it : IolPtr n} {l : List (IolPtr n)}
  {k nbf nbt : ℕ}

theorem intact_setRsvd {b : ℕ} (hit : it ∈ l)
    (h : Intact l (mem.setRsvd it b) mem') : Intact l mem mem' :=
  Intact.trans (intact_update hit mem _) h

/-- How the loop that marks can have ended: it has visited the elements of the list alone. -/
inductive Visited (l : List (IolPtr n)) (mem : IolMem n) : Marked n → Prop
  | marked {mem' : IolMem n} (nbf nbt : ℕ) : Intact l mem mem' → mem'.next = mem.next →
      Visited l mem (.marked mem' nbf nbt)
  | error {it : IolPtr n} {mem' : IolMem n} : it ∈ l → Intact l mem mem' →
      Visited l mem (.error it mem')

theorem mark_visited {r : Marked n} (hch : Chain mem.next it l 0)
    (hrun : mark last k it mem nbf nbt = some r) : Visited l mem r := by
  induction k generalizing it mem l nbf nbt with
  | zero =>
    unfold mark at hrun
    split at hrun
    · cases hrun
      exact .marked _ _ (.refl l _) rfl
    · cases hrun
  | succ k ih =>
    unfold mark at hrun
    split at hrun
    · cases hrun
      exact .marked _ _ (.refl l _) rfl
    · rename_i hit
      obtain ⟨l, rfl⟩ : ∃ l', l = it :: l' := by
        cases l with
        | nil => exact absurd hch hit
        | cons x l => exact ⟨l, by rw [hch.1]⟩
      dsimp only at hrun
      split at hrun
      · cases hrun
        exact .error List.mem_cons_self (.refl _ _)
      · have hsub : l ⊆ it :: l := List.subset_cons_self it l
        have hchain : Chain (mem.setRsvd it 1).next (mem.next it) l 0 := by
          rw [next_setRsvd]
          exact hch.2
        cases ih hchain hrun with
        | marked nbf nbt hi hnext =>
          rw [next_setRsvd] at hnext
          exact .marked _ _ (intact_setRsvd List.mem_cons_self (hi.mono hsub)) hnext
        | error hit' hi =>
          exact .error (hsub hit') (intact_setRsvd List.mem_cons_self (hi.mono hsub))

theorem unmark_intact (hch : Chain mem.next it l 0)
    (hrun : unmark k it mem = some mem') : Intact l mem mem' := by
  induction l generalizing it mem k with
  | nil =>
    obtain rfl : it = 0 := hch
    unfold unmark at hrun
    rw [if_pos rfl] at hrun
    cases hrun
    exact .refl _ _
  | cons x l ih =>
    obtain ⟨rfl, hch⟩ := hch
    unfold unmark at hrun
    split at hrun
    · cases hrun
      exact .refl _ _
    · cases k with
      | zero => cases hrun
      | succ k =>
        have hi := ih (by rw [next_setRsvd]; exact hch) hrun
        exact intact_setRsvd List.mem_cons_self (hi.mono (List.subset_cons_self it l))

theorem unmarkError_intact {it2 : IolPtr n}
    (hrun : unmarkError it k it2 mem = some mem') : Intact [it] mem mem' := by
  induction k generalizing it2 mem with
  | zero =>
    unfold unmarkError at hrun
    split at hrun
    · cases hrun
      exact .refl _ _
    · cases hrun
  | succ k ih =>
    unfold unmarkError at hrun
    split at hrun
    · cases hrun
      exact .refl _ _
    · exact intact_setRsvd (List.mem_singleton_self it) (ih hrun)

/-- `dill_iolcheck` leaves the marks in the list, if anywhere. -/
theorem iolcheck_intact {r : Except Errno (ℕ × ℕ)}
    (hch : Chain mem.next first l 0) (hrun : iolcheck first last mem = some (r, mem')) :
    Intact l mem mem' := by
  unfold iolcheck at hrun
  split at hrun
  · cases hrun
    exact .refl _ _
  · split at hrun
    · cases hrun
      exact .refl _ _
    · cases hmark : mark last (n + 1) first mem 0 0 with
      | none =>
        rw [hmark] at hrun
        cases hrun
      | some m =>
        rw [hmark] at hrun
        cases mark_visited hch hmark with
        | @marked mem₁ nbf nbt hi hnext =>
          change (unmark (n + 1) first mem₁).bind (fun mem => some (Except.ok (nbf, nbt), mem)) =
            some (r, mem') at hrun
          obtain ⟨mem₂, hun, heq⟩ := Option.bind_eq_some_iff.mp hrun
          cases heq
          exact hi.trans (unmark_intact (by rwa [hnext]) hun)
        | @error it mem₁ hit hi =>
          change (unmarkError it (n + 1) first mem₁).bind
            (fun mem => some (Except.error Errno.EINVAL, mem)) = some (r, mem') at hrun
          obtain ⟨mem₂, hun, heq⟩ := Option.bind_eq_some_iff.mp hrun
          cases heq
          have hsub : [it] ⊆ l := List.cons_subset.mpr ⟨hit, List.nil_subset l⟩
          exact hi.trans ((unmarkError_intact hun).mono hsub)
end Libdill.Sock
