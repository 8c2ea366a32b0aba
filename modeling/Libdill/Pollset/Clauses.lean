import Libdill.Sock.Bsock
import Mathlib.Data.Int.Notation
import Mathlib.Logic.Function.Basic

/-!
# Clauses on file descriptors

What the pollsets of `poll.c.inc`, `epoll.c.inc` and `kqueue.c.inc` share: the clauses with which
coroutines wait for file descriptors, as `cr.c` keeps them. A descriptor has at most one clause for
each direction, and a coroutine may wait with any number of clauses; when one of them is triggered all
of them are cancelled and the coroutine becomes ready.

* `Linked`: the clauses of the descriptors and those of the coroutines that are not ready are the
  same.
* `Linked.waitfor`, `Linked.resume`, `Linked.pop`: what the operations of `cr.c` do to it.
* `clause_update`, `cancelAll_spec`: a change of one clause, and cancelling those of a coroutine.
-/

namespace Libdill.Pollset

/-- Waiting for an fd to become readable or writable. -/
inductive Dir
  | inp
  | out
  deriving DecidableEq

/-- `struct dill_fdclause`, as far as it is read when the clause is triggered. -/
structure FdClause where
  cr : ℕ
  id : ℤ

/-- A coroutine in the ready queue, with the results of its `dill_wait`. -/
structure Resumption where
  cr : ℕ
  id : ℤ
  err : ℤ
  deriving DecidableEq

/-- The coroutines: their active clauses, the latest first, and the ready queue. -/
structure Crs where
  clauses : ℕ → List (Dir × ℕ)
  ready : List Resumption

/-- Failures of assertions, accesses out of bounds, and waiting that does not end. -/
inductive Stop
  | assertion
  | fault
  | blocked
  deriving DecidableEq

def Crs.isReady (c : Crs) (cr : ℕ) : Bool := c.ready.any fun r => r.cr == cr

/-- `dill_waitfor`. -/
def Crs.waitfor (c : Crs) (cr : ℕ) (d : Dir) (fd : ℕ) : Crs :=
  { c with clauses := Function.update c.clauses cr ((d, fd) :: c.clauses cr) }

/-- `dill_resume`. -/
def Crs.resume (c : Crs) (cr : ℕ) (id err : ℤ) : Crs :=
  { c with ready := c.ready ++ [⟨cr, id, err⟩] }

/-- The end of `dill_wait`: the next coroutine runs. -/
def Crs.pop (c : Crs) : Except Stop Crs :=
  match c.ready with
  | [] => .error .fault
  | r :: ready => .ok { clauses := Function.update c.clauses r.cr [], ready := ready }

section Cancel

variable {σ : Type} (cancel : Dir → ℕ → σ → Except Stop σ)

/-- The cancel callbacks of clauses. -/
def cancelAll : List (Dir × ℕ) → σ → Except Stop σ
  | [], s => .ok s
  | (d, fd) :: l, s => cancel d fd s >>= cancelAll l

/-- `dill_docancel`. -/
def docancel (cr : ℕ) (id err : ℤ) (w : σ × Crs) : Except Stop (σ × Crs) :=
  if w.2.isReady cr then .error .assertion
  else do
    let s ← cancelAll cancel (w.2.clauses cr) w.1
    return (s, w.2.resume cr id err)

/-- `dill_trigger`. -/
def trigger (cl : FdClause) (err : ℤ) (w : σ × Crs) : Except Stop (σ × Crs) :=
  docancel cancel cl.cr cl.id err w

end Cancel

/-- Before the first call. -/
def Crs.init : Crs := ⟨fun _ => [], []⟩

variable {side : Dir → ℕ → Option FdClause} {c : Crs} {cr : ℕ} {d : Dir} {fd : ℕ}

/-- The clauses of the descriptors belong to coroutines that are not ready, and are all the clauses
of these. -/
structure Linked (side : Dir → ℕ → Option FdClause) (c : Crs) : Prop where
  owner : ∀ {d fd cl}, side d fd = some cl →
    c.isReady cl.cr = false ∧ (d, fd) ∈ c.clauses cl.cr
  listed : ∀ {cr d fd}, c.isReady cr = false → (d, fd) ∈ c.clauses cr →
    ∃ cl, side d fd = some cl ∧ cl.cr = cr

instance (p : Dir × ℕ) (l : List (Dir × ℕ)) : Decidable (p ∈ l) :=
  List.instDecidableMemOfLawfulBEq p l

/-- The clauses without those of a list. -/
def without (l : List (Dir × ℕ)) (side : Dir → ℕ → Option FdClause) (d : Dir) (fd : ℕ) :
    Option FdClause :=
  if (d, fd) ∈ l then none else side d fd

theorem without_cons {l : List (Dir × ℕ)} :
    without l (without [(d, fd)] side) = without ((d, fd) :: l) side := by
  funext d' fd'
  unfold without
  simp only [List.mem_cons, List.not_mem_nil, or_false]
  by_cases h₁ : (d', fd') = (d, fd)
  · rw [if_pos (Or.inl h₁), if_pos h₁, ite_self]
  · rw [if_neg h₁]
    by_cases h₂ : (d', fd') ∈ l
    · rw [if_pos h₂, if_pos (Or.inr h₂)]
    · rw [if_neg h₂, if_neg (fun h => h.elim h₁ h₂)]

theorem without_singleton :
    without [(d, fd)] side = fun d' fd' => if (d', fd') = (d, fd) then none else side d' fd' := by
  funext d' fd'
  unfold without
  simp only [List.mem_singleton]

/-- The clauses in a table of descriptors of which one gets or loses a clause. -/
theorem clause_update {α : Type} {clause : α → Dir → Option FdClause} {t : ℕ → α} {x : α}
    {cl : Option FdClause} (hx : clause x = Function.update (clause (t fd)) d cl) (d' : Dir) (k : ℕ) :
    clause (Function.update t fd x k) d' = if (d', k) = (d, fd) then cl else clause (t k) d' := by
  by_cases hk : k = fd
  · subst hk
    rw [Function.update_self, hx]
    by_cases hd : d' = d
    · rw [hd, Function.update_self, if_pos rfl]
    · rw [Function.update_of_ne hd, if_neg]
      rintro heq
      cases heq
      exact hd rfl
  · rw [Function.update_of_ne hk, if_neg]
    rintro heq
    cases heq
    exact hk rfl

/-- **All clauses of a coroutine are cancelled**: `R` holds of the list of them if it holds of each. -/
theorem cancelAll_spec {σ : Type} {cancel : Dir → ℕ → σ → Except Stop σ} {P : σ → Prop}
    {C : ℕ → σ → Prop} {R : List (Dir × ℕ) → σ → σ → Prop}
    (hnil : ∀ s, P s → R [] s s)
    (hcancel : ∀ d fd s, P s → C fd s → ∃ s', cancel d fd s = .ok s' ∧ R [(d, fd)] s s')
    (hkeep : ∀ l s s', P s → R l s s' → P s' ∧ ∀ fd, C fd s → C fd s')
    (hcons : ∀ d fd l s s' s'', R [(d, fd)] s s' → R l s' s'' → R ((d, fd) :: l) s s'')
    {l : List (Dir × ℕ)} {s : σ} (hs : P s) (hl : ∀ x ∈ l, C x.2 s) :
    ∃ s', cancelAll cancel l s = .ok s' ∧ R l s s' := by
  induction l generalizing s with
  | nil => exact ⟨s, rfl, hnil s hs⟩
  | cons x l ih =>
    obtain ⟨d, fd⟩ := x
    obtain ⟨hc, hl⟩ := List.forall_mem_cons.mp hl
    obtain ⟨s₁, hs₁, hR₁⟩ := hcancel d fd s hs hc
    obtain ⟨hP, hC⟩ := hkeep _ s s₁ hs hR₁
    obtain ⟨s₂, hs₂, hR₂⟩ := ih hP fun x hx => hC _ (hl x hx)
    refine ⟨s₂, ?_, hcons d fd l s s₁ s₂ hR₁ hR₂⟩
    rw [cancelAll, hs₁]
    exact hs₂

theorem linked_init : Linked (fun _ _ => none) .init := ⟨nofun, fun _ h => nomatch h⟩

theorem isReady_resume {id err : ℤ} {cr' : ℕ} :
    (c.resume cr id err).isReady cr' = (c.isReady cr' || cr == cr') := by
  unfold Crs.isReady Crs.resume
  rw [List.any_append, List.any_cons, List.any_nil, Bool.or_false]

/-- A coroutine that is not ready starts to wait. -/
theorem Linked.waitfor (h : Linked side c) {cl : FdClause} (hr : c.isReady cl.cr = false)
    (hs : side d fd = none) {side' : Dir → ℕ → Option FdClause}
    (hside : ∀ d' fd', side' d' fd' = if (d', fd') = (d, fd) then some cl else side d' fd') :
    Linked side' (c.waitfor cl.cr d fd) := by
  unfold Crs.waitfor
  constructor
  · intro d' fd' cl' he
    rw [hside] at he
    split at he
    · rename_i heq
      cases heq
      cases he
      refine ⟨hr, ?_⟩
      simp only [Function.update_self]
      exact List.mem_cons_self
    · obtain ⟨hr', hm⟩ := h.owner he
      refine ⟨hr', ?_⟩
      by_cases hcr : cl'.cr = cl.cr
      · rw [hcr] at hm ⊢
        simp only [Function.update_self]
        exact List.mem_cons_of_mem _ hm
      · simp only [Function.update_of_ne hcr]
        exact hm
  · intro cr d' fd' hr' hm
    have hold : (d', fd') ∈ c.clauses cr → ∃ cl', side' d' fd' = some cl' ∧ cl'.cr = cr := by
      intro hm'
      obtain ⟨cl', he, hcr⟩ := h.listed hr' hm'
      refine ⟨cl', ?_, hcr⟩
      rw [hside, if_neg, he]
      intro heq
      cases heq
      rw [hs] at he
      cases he
    by_cases hcr : cr = cl.cr
    · subst hcr
      simp only [Function.update_self, List.mem_cons] at hm
      rcases hm with heq | hm
      · cases heq
        exact ⟨cl, by rw [hside, if_pos rfl], rfl⟩
      · exact hold hm
    · simp only [Function.update_of_ne hcr] at hm
      exact hold hm

/-- The clauses of a coroutine are cancelled, and it becomes ready. -/
theorem Linked.resume (h : Linked side c) (hc : c.isReady cr = false) {id err : ℤ} :
    Linked (without (c.clauses cr) side) (c.resume cr id err) := by
  constructor
  · intro d fd cl he
    unfold without at he
    split at he
    · cases he
    · rename_i hno
      obtain ⟨hr, hm⟩ := h.owner he
      have hne : cr ≠ cl.cr := by
        rintro rfl
        exact hno hm
      rw [isReady_resume, hr, beq_eq_false_iff_ne.mpr hne]
      exact ⟨rfl, hm⟩
  · intro cr' d fd hr hm
    rw [isReady_resume, Bool.or_eq_false_iff, beq_eq_false_iff_ne] at hr
    obtain ⟨hr', hne⟩ := hr
    obtain ⟨cl, he, hcl⟩ := h.listed hr' hm
    refine ⟨cl, ?_, hcl⟩
    unfold without
    rw [if_neg, he]
    intro hm'
    obtain ⟨cl', he', hcl'⟩ := h.listed hc hm'
    rw [he] at he'
    cases he'
    exact hne (hcl'.symm.trans hcl)

/-- The next coroutine runs, and waits for nothing. -/
theorem Linked.pop (h : Linked side c) {c' : Crs} (hp : c.pop = .ok c') : Linked side c' := by
  unfold Crs.pop at hp
  split at hp
  · cases hp
  · rename_i r ready hready
    cases hp
    have hsplit : ∀ cr, c.isReady cr = (r.cr == cr || ready.any fun r => r.cr == cr) := by
      intro cr
      unfold Crs.isReady
      rw [hready, List.any_cons]
    constructor
    · intro d fd cl he
      obtain ⟨hr, hm⟩ := h.owner he
      rw [hsplit, Bool.or_eq_false_iff, beq_eq_false_iff_ne] at hr
      refine ⟨hr.2, ?_⟩
      simp only [Function.update_of_ne (Ne.symm hr.1)]
      exact hm
    · intro cr d fd hr hm
      by_cases hcr : cr = r.cr
      · rw [hcr] at hm
        simp only [Function.update_self] at hm
        cases hm
      · simp only [Function.update_of_ne hcr] at hm
        refine h.listed ?_ hm
        rw [hsplit, Bool.or_eq_false_iff, beq_eq_false_iff_ne]
        exact ⟨Ne.symm hcr, hr⟩

end Libdill.Pollset
