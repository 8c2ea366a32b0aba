import Libdill.Fd.ScatterPlan
import Libdill.Fd.Send

/-!
# Sending iolists from memory

`dill_fd_send` from its beginning to its end, for elements in memory and any behaviour of the
kernel. The bytes that the kernel has accepted are collected.

* `sendLoop_spec`: the loop when the last buffer is not an empty one.
* `fdSend_exact_iff`: exactly when every send is right.
-/

namespace Libdill.Fd.Gather

open Foundations Libdill.Sock Scatter

variable {n : ℕ}

/-- What happens on the descriptor: some bytes are accepted, none can be accepted now, `sendmsg`
fails, or the wait in `dill_fdout` ends with an error. -/
inductive Event
  | accepts (more : ℕ)
  | again
  | fail (e : Errno)
  | stop (e : Errno)
  deriving DecidableEq

/-- `sendmsg`: one byte is accepted and some `more`, as far as there are so many. -/
def sendmsg (iov : List (List UInt8)) : List Event → SendAns × List Event
  | .accepts more :: evs => (.accepted (min (more + 1) iov.flatten.length), evs)
  | .again :: evs => (.again, evs)
  | .fail e :: evs => (.fail e, evs)
  | evs => (.again, evs)

/-- How the call ends. -/
inductive Ending
  | returns
  | fails (e : Errno)
  | waits
  | endless
  deriving DecidableEq

/-- `dill_fdout` when the bytes `bs` have just been accepted; `r` is the rest of the loop. -/
def fdout (bs : List UInt8) (evs : List Event) (r : List UInt8 × Ending) : List UInt8 × Ending :=
  match evs with
  | [] => (bs, .waits)
  | .stop e :: _ => (bs, .fails e)
  | _ => (bs ++ r.1, r.2)

/-- The loop of `dill_fd_send`: the bytes that are accepted in the course of it, and how it ends. -/
def sendLoop : ℕ → List (List UInt8) → List Event → List UInt8 × Ending
  | 0, _, _ => ([], .endless)
  | k + 1, iov, evs =>
    match sendTurn iov with
    | .syscall iov =>
      let (a, evs) := sendmsg iov evs
      let (bs, next) := sent iov a
      match next with
      | .wait iov => fdout bs evs (sendLoop k iov evs)
      | .failed e => (bs, .fails e)
      | _ => (bs, .returns)
    | _ => ([], .returns)

/-- The bytes in a buffer. -/
def contents (mem : ℕ → UInt8) (b : Buf) : List UInt8 := (List.range' (b.1.getD 0) b.2).map mem

/-- `dill_fd_send`. -/
def fdSend (mem : ℕ → UInt8) (iol : IolMem n) (first last : IolPtr n) (evs : List Event) :
    List UInt8 × Ending :=
  match iolcheck first last iol with
  | none => ([], .endless)
  | some (.error e, _) => ([], .fails e)
  | some (.ok _, iol) =>
    match ioltoiov iol (n + 1) first with
    | none => ([], .endless)
    | some iov => sendLoop (evs.length + 1) (iov.map (contents mem)) evs

/-- The concatenation of the elements. -/
def concat (mem : ℕ → UInt8) (iol : IolMem n) (els : List (IolPtr n)) : List UInt8 :=
  els.flatMap fun x => contents mem (some (iol x).iolBase, (iol x).iolLen)

/-- **An exact send.** What has been accepted are the first bytes of the data, and the call returns
0 when all of them have been accepted, and not before. -/
structure Exact (data : List UInt8) (r : List UInt8 × Ending) : Prop where
  inOrder : ∃ left, data = r.1 ++ left
  returns : r.2 = .returns ↔ r.1 = data
  ends : r.2 ≠ .endless

variable {mem : ℕ → UInt8} {iol : IolMem n} {first last : IolPtr n} {els : List (IolPtr n)}
  {iov : List (List UInt8)} {evs : List Event} {k sz : ℕ} {a : SendAns}

/-! ## The array -/

/-- Behind the last byte of the data there is no empty buffer. -/
def Tight (iov : List (List UInt8)) : Prop := iov.flatten = [] ∨ iov.getLast? ≠ some []

theorem accept_last (hlast : iov.getLast? ≠ some []) : (accept iov sz).getLast? ≠ some [] := by
  induction iov generalizing sz with
  | nil => exact hlast
  | cons head iov ih =>
    unfold accept
    split
    · exact hlast
    · split
      · rename_i hlt
        cases iov with
        | nil =>
          rw [List.getLast?_singleton, ne_eq, Option.some.injEq, List.drop_eq_nil_iff]
          exact not_le.mpr hlt
        | cons b iov =>
          rw [List.getLast?_cons_cons]
          rwa [List.getLast?_cons_cons] at hlast
      · cases iov with
        | nil => exact fun h => by cases h
        | cons b iov =>
          rw [List.getLast?_cons_cons] at hlast
          exact ih hlast

theorem flatten_ne_nil (hne : iov ≠ []) (hlast : iov.getLast? ≠ some []) : iov.flatten ≠ [] := by
  intro h
  obtain ⟨l, b, rfl⟩ := List.eq_nil_or_concat' iov |>.resolve_left hne
  rw [List.getLast?_concat] at hlast
  exact hlast (congrArg some (List.flatten_eq_nil_iff.mp h b (by simp)))

/-- The empty buffer at the end is not passed over. -/
theorem accept_ne_nil (hlast : iov.getLast? = some []) (hsz : sz ≤ iov.flatten.length) :
    accept iov sz ≠ [] := by
  induction iov generalizing sz with
  | nil => cases hlast
  | cons head iov ih =>
    unfold accept
    rw [List.flatten_cons, List.length_append] at hsz
    split
    · exact List.cons_ne_nil _ _
    · split
      · exact List.cons_ne_nil _ _
      · rename_i hpos hle
        cases iov with
        | nil =>
          obtain rfl : head = [] := Option.some.inj hlast
          exact absurd (Nat.le_zero.mp hsz) hpos
        | cons b iov =>
          rw [List.getLast?_cons_cons] at hlast
          exact ih hlast (by omega)

theorem dropWhile_last (hne : iov.dropWhile List.isEmpty ≠ []) :
    (iov.dropWhile List.isEmpty).getLast? = iov.getLast? := by
  have hsplit := List.takeWhile_append_dropWhile (p := List.isEmpty) (l := iov)
  conv_rhs => rw [← hsplit, List.getLast?_append_of_ne_nil _ hne]

/-- How a turn begins: everything has been sent, or there is something left at the front. -/
theorem sendTurn_cases (iov : List (List UInt8)) :
    sendTurn iov = .done ∧ iov.flatten = [] ∨
      ∃ iov', sendTurn iov = .syscall iov' ∧ iov'.flatten = iov.flatten ∧ iov'.flatten ≠ [] ∧
        iov'.getLast? = iov.getLast? := by
  have hflat := dropWhile_isEmpty_flatten iov
  unfold sendTurn
  dsimp only
  cases hdrop : iov.dropWhile List.isEmpty with
  | nil =>
    rw [hdrop] at hflat
    exact .inl ⟨rfl, hflat.symm⟩
  | cons b iov' =>
    have hne : iov.dropWhile List.isEmpty ≠ [] := by rw [hdrop]; exact List.cons_ne_nil _ _
    have hb : b.isEmpty = false := by
      have hhead := List.head_dropWhile_not List.isEmpty hne
      simpa only [hdrop, List.head_cons] using hhead
    refine .inr ⟨b :: iov', rfl, hdrop ▸ hflat, ?_, hdrop ▸ dropWhile_last hne⟩
    rw [List.flatten_cons]
    intro h
    rw [(List.append_eq_nil_iff.mp h).1] at hb
    cases hb

/-! ## The loop -/

variable {data bs : List UInt8} {r : List UInt8 × Ending}

/-- Something is left and nothing more is accepted. -/
theorem exact_short {e : Ending} (hdata : data = bs ++ iov.flatten) (hleft : iov.flatten ≠ [])
    (he : e = .waits ∨ ∃ err, e = .fails err) : Exact data (bs, e) := by
  refine ⟨⟨_, hdata⟩, iff_of_false ?_ ?_, ?_⟩
  · rcases he with rfl | ⟨err, rfl⟩ <;> exact fun h => by cases h
  · intro h
    have hnil : bs ++ [] = bs ++ iov.flatten := (List.append_nil bs).trans (h.trans hdata)
    exact hleft (List.append_cancel_left hnil).symm
  · rcases he with rfl | ⟨err, rfl⟩ <;> exact fun h => by cases h

theorem exact_fdout (hdata : data = bs ++ iov.flatten) (hleft : iov.flatten ≠ [])
    (hr : Exact iov.flatten r) : Exact data (fdout bs evs r) := by
  obtain ⟨⟨left, hin⟩, hret, hend⟩ := hr
  have hgo : Exact data (bs ++ r.1, r.2) := by
    refine ⟨⟨left, ?_⟩, ?_, hend⟩
    · rw [hdata, hin, List.append_assoc]
    · show r.2 = .returns ↔ bs ++ r.1 = data
      rw [hret, hdata, List.append_cancel_left_eq]
  unfold fdout
  cases evs with
  | nil => exact exact_short hdata hleft (.inl rfl)
  | cons ev evs =>
    cases ev with
    | stop e => exact exact_short hdata hleft (.inr ⟨e, rfl⟩)
    | _ => exact hgo

theorem sendLoop_spec (ht : Tight iov) (hk : evs.length < k) :
    Exact iov.flatten (sendLoop k iov evs) := by
  induction k generalizing iov evs with
  | zero => omega
  | succ k ih =>
    unfold sendLoop
    rcases sendTurn_cases iov with ⟨hturn, hnil⟩ | ⟨iov', hturn, hflat, hne, hlast⟩
    · rw [hturn, hnil]
      exact ⟨⟨[], rfl⟩, iff_of_true rfl rfl, fun h => by cases h⟩
    · rw [hturn, ← hflat]
      have hlast' : iov'.getLast? ≠ some [] := by
        rw [hlast]
        exact ht.resolve_left (hflat ▸ hne)
      cases evs with
      | nil => exact exact_short rfl hne (.inl rfl)
      | cons ev evs =>
        have hk' : evs.length < k := Nat.lt_of_succ_lt_succ hk
        cases ev with
        | stop e => exact exact_short rfl hne (.inr ⟨e, rfl⟩)
        | fail e => exact exact_short rfl hne (.inr ⟨recvErrno e, rfl⟩)
        | again => exact exact_fdout rfl hne (ih (.inr hlast') hk')
        | accepts more =>
          set sz := min (more + 1) iov'.flatten.length with hsz
          have hrest := accept_flatten iov' sz
          have hsplit : iov'.flatten = iov'.flatten.take sz ++ (accept iov' sz).flatten := by
            rw [hrest, List.take_append_drop]
          have hsent : sent iov' (.accepted sz) = (iov'.flatten.take sz,
              if (accept iov' sz).isEmpty then .done else .wait (accept iov' sz)) := rfl
          unfold sendmsg
          dsimp only
          rw [← hsz, hsent]
          cases hacc : accept iov' sz with
          | nil =>
            rw [hacc, List.flatten_nil, List.append_nil] at hsplit
            exact ⟨⟨[], by rw [List.append_nil]; exact hsplit⟩, iff_of_true rfl hsplit.symm,
              fun h => by cases h⟩
          | cons b iov'' =>
            rw [hacc] at hsplit
            have htail : (b :: iov'').getLast? ≠ some [] := hacc ▸ accept_last hlast'
            exact exact_fdout hsplit (flatten_ne_nil (List.cons_ne_nil _ _) htail)
              (ih (.inr htail) hk')

/-- Everything is accepted at once, and the loop waits behind it. -/
theorem sendLoop_waits (hne : iov.flatten ≠ []) (hlast : iov.getLast? = some []) :
    sendLoop 2 iov [.accepts iov.flatten.length] = (iov.flatten, .waits) := by
  obtain ⟨-, hnil⟩ | ⟨iov', hturn, hflat, -, hlast'⟩ := sendTurn_cases iov
  · exact absurd hnil hne
  · have hsz : min (iov.flatten.length + 1) iov'.flatten.length = iov'.flatten.length := by
      rw [hflat]
      exact Nat.min_eq_right (Nat.le_succ _)
    have hacc : accept iov' iov'.flatten.length ≠ [] :=
      accept_ne_nil (hlast'.trans hlast) le_rfl
    obtain ⟨b, iov'', hb⟩ := List.exists_cons_of_ne_nil hacc
    have hsent : sent iov' (.accepted iov'.flatten.length) = (iov'.flatten, .wait (b :: iov'')) := by
      unfold sent
      dsimp only
      rw [hb, List.take_length]
      rfl
    unfold sendLoop
    rw [hturn]
    unfold sendmsg
    dsimp only
    rw [hsz, hsent, hflat]
    rfl

/-! ## The call -/

theorem flatten_contents (mem : ℕ → UInt8) (iol : IolMem n) (els : List (IolPtr n)) :
    ((els.map fun x => (some (iol x).iolBase, (iol x).iolLen)).map (contents mem)).flatten =
      concat mem iol els := by
  rw [List.map_map]
  exact List.flatMap_def.symm

theorem contents_nil {b : Buf} : contents mem b = [] ↔ b.2 = 0 := by
  unfold contents
  rw [List.map_eq_nil_iff, List.range'_eq_nil_iff]

/-- A valid list passes the check. -/
theorem fdSend_valid (hv : Valid first last iol els) (hm : ∀ x ∈ els, (iol x).iolRsvd = 0) :
    fdSend mem iol first last evs = sendLoop (evs.length + 1)
      ((els.map fun x => (some (iol x).iolBase, (iol x).iolLen)).map (contents mem)) evs := by
  unfold fdSend
  rw [iolcheck_valid hm hv]
  dsimp only
  have hiov : ioltoiov iol (n + 1) first =
      some (els.map fun x => (some (iol x).iolBase, (iol x).iolLen)) := by
    rcases hv with ⟨rfl, -, rfl⟩ | ⟨hch, h0, -⟩
    · exact ioltoiov_chain (show Chain iol.next 0 [] 0 from rfl) List.not_mem_nil (Nat.zero_le _)
    · exact ioltoiov_chain hch h0 (Nat.le_succ_of_le (length_le_of_nodup (hch.nodup h0) h0))
  rw [hiov]

theorem concat_nil : concat mem iol els = [] ↔ ∀ x ∈ els, (iol x).iolLen = 0 := by
  unfold concat
  rw [List.flatMap_eq_nil_iff]
  exact forall_congr' fun x => imp_congr_right fun _ => contents_nil

/-- The array of a valid list ends with the buffer of its last element. -/
theorem getLast?_contents (mem : ℕ → UInt8) (hv : Valid first last iol els) (hne : els ≠ []) :
    ((els.map fun x => (some (iol x).iolBase, (iol x).iolLen)).map (contents mem)).getLast? =
      some (contents mem (some (iol last).iolBase, (iol last).iolLen)) := by
  rcases hv with ⟨-, -, hnil⟩ | ⟨-, -, hlast⟩
  · exact absurd hnil hne
  · rw [List.getLast?_map, List.getLast?_map, hlast]
    rfl

/-- An empty element at the end of the data is waited for. -/
theorem not_exact (hv : Valid first last iol els) (hm : ∀ x ∈ els, (iol x).iolRsvd = 0)
    (hdata : ¬∀ x ∈ els, (iol x).iolLen = 0) (hlast : (iol last).iolLen = 0) :
    ¬∀ evs, Exact (concat mem iol els) (fdSend mem iol first last evs) := by
  intro h
  have hne : els ≠ [] := by
    rintro rfl
    exact hdata fun x hx => absurd hx List.not_mem_nil
  have hflat := flatten_contents mem iol els
  have hlast' := getLast?_contents mem hv hne
  rw [contents_nil.mpr hlast] at hlast'
  set iov := (els.map fun x => (some (iol x).iolBase, (iol x).iolLen)).map (contents mem) with hiov
  have hrun := sendLoop_waits (fun hnil => hdata (concat_nil.mp (hflat ▸ hnil))) hlast'
  have hexact := h [.accepts iov.flatten.length]
  rw [fdSend_valid hv hm, ← hiov, ← hflat] at hexact
  change Exact iov.flatten (sendLoop 2 iov _) at hexact
  rw [hrun] at hexact
  have hret := hexact.returns.mpr rfl
  cases hret

/-- **When every send is exact**: when there is nothing to send, or the last element is not empty.
Otherwise the loop waits for an empty element after the last byte. -/
theorem fdSend_exact_iff (hv : Valid first last iol els) (hm : ∀ x ∈ els, (iol x).iolRsvd = 0) :
    (∀ evs, Exact (concat mem iol els) (fdSend mem iol first last evs)) ↔
      (∀ x ∈ els, (iol x).iolLen = 0) ∨ (iol last).iolLen ≠ 0 := by
  constructor
  · intro h
    by_contra hno
    obtain ⟨hdata, hlast⟩ := not_or.mp hno
    exact not_exact hv hm hdata (not_not.mp hlast) h
  · intro h evs
    have hflat := flatten_contents mem iol els
    rw [fdSend_valid hv hm, ← hflat]
    apply sendLoop_spec _ (Nat.lt_succ_self _)
    by_cases hne : els = []
    · rw [hne]
      exact .inl rfl
    · rcases h with h | h
      · exact .inl (hflat.trans (concat_nil.mpr h))
      · right
        rw [getLast?_contents mem hv hne, ne_eq, Option.some.injEq, contents_nil]
        exact h

/-- Five bytes and then none. -/
def emptyTail : IolMem 2 := fun x => if x = 1 then ⟨8, 5, 2, 0⟩ else ⟨16, 0, 0, 0⟩

theorem valid_emptyTail : Valid 1 2 emptyTail [1, 2] :=
  .inr ⟨⟨rfl, rfl, rfl⟩, by decide, rfl⟩

theorem fdSend_waits_emptyTail : ¬∀ evs, Exact (concat (fun _ => 7) emptyTail [1, 2])
    (fdSend (fun _ => 7) emptyTail 1 2 evs) :=
  not_exact valid_emptyTail (by decide) (by decide) rfl

/-- The empty element first. -/
def emptyHead : IolMem 2 := fun x => if x = 1 then ⟨8, 0, 2, 0⟩ else ⟨16, 5, 0, 0⟩

theorem valid_emptyHead : Valid 1 2 emptyHead [1, 2] :=
  .inr ⟨⟨rfl, rfl, rfl⟩, by decide, rfl⟩

theorem fdSend_exact_iff_emptyHead : Exact (concat (fun _ => 7) emptyHead [1, 2])
    (fdSend (fun _ => 7) emptyHead 1 2 [.accepts 2, .again, .stop .ETIMEDOUT]) :=
  (fdSend_exact_iff valid_emptyHead (by decide)).mpr (.inr (by decide)) _

end Libdill.Fd.Gather
