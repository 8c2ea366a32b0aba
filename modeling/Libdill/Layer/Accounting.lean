import Libdill.Layer.Runs

/-!
# Handle accounting

The detach functions free the object of a socket and return the handle under it, and
`dill_tcp_close` and `dill_ipc_close` invoke the close callback of a connection themselves. None of
them calls `dill_hclose` for the handle of what is taken away, so the handle stays in use.

* `detach_kept`, `connClose_kept`: no handle goes out of use and `nused` stays the same.
* `removed_handles_leak`: the handles of what is taken away are never retired.
-/

namespace Libdill.Layer

open Foundations Libdill.Sock

/-- The handles of the uppermost `n` objects from `s` down. -/
def Table.layers (t : Table) : ℕ → ℤ → List ℤ
  | 0, _ => []
  | n + 1, s =>
    match t.live s with
    | none => []
    | some o =>
      match o.under with
      | none => [s]
      | some u => s :: t.layers n u

/-- The handles of the uppermost `n` objects are not in use any more, and nothing else has changed
in number. -/
structure Retired (n : ℕ) (s : ℤ) (t t' : Table) : Prop where
  unused : ∀ h ∈ t.layers n s, t'.objs h = none
  nused : t'.nused = t.nused - n

/-- The same handles are in use. -/
structure Kept (t t' : Table) : Prop where
  nused : t'.nused = t.nused
  inUse : ∀ h, (t'.objs h).isSome = (t.objs h).isSome

variable {t t₁ t₂ : Table} {w w' : World} {s : ℤ} {o : Obj} {env : List Ans} {n : ℕ}

theorem kept_refl (t : Table) : Kept t t := ⟨rfl, fun _ => rfl⟩

theorem Kept.retire (hk : Kept t t₁) (hs : (t.objs s).isSome = true) : Kept t (t₁.retire s o) := by
  refine ⟨hk.nused, fun h => ?_⟩
  unfold Table.retire Table.set
  by_cases hh : h = s
  · rw [hh, hs]
    simp only [Function.update_self]
    rfl
  · simp only [Function.update_of_ne hh]
    exact hk.inUse h

theorem Kept.not_retired (hk : Kept t t₁) (hn : 0 < n) : ¬ Retired n s t t₁ := by
  intro hr
  have h₁ := hr.nused
  have h₂ := hk.nused
  omega

theorem layers_inUse {h : ℤ} (hh : h ∈ t.layers n s) : (t.objs h).isSome = true := by
  induction n generalizing s with
  | zero => cases hh
  | succ n ih =>
    unfold Table.layers at hh
    cases hl : t.live s with
    | none =>
      rw [hl] at hh
      cases hh
    | some o =>
      have hs : (t.objs s).isSome = true := by
        rw [objs_of_live hl]
        rfl
      rw [hl] at hh
      cases hu : o.under with
      | none =>
        simp only [hu, List.mem_singleton] at hh
        rw [hh]
        exact hs
      | some u =>
        simp only [hu, List.mem_cons] at hh
        rcases hh with rfl | hh
        · exact hs
        · exact ih hh

/-! ## What leaves the handles in use -/

/-- The assertion that the handles of `t` are in use. -/
def InUse (t : Table) (w : World) : Prop := Kept t w.toTable

theorem entry_inUse {h : ℤ} : Triple (InUse t) (entry h) fun r w =>
    InUse t w ∧ ∀ o, r = some o → (t.objs h).isSome = true := by
  intro w r w' hw hr
  unfold entry at hr
  cases ho : w.objs h with
  | none =>
    rw [ho] at hr
    cases hr
    exact ⟨hw, nofun⟩
  | some e =>
    rw [ho] at hr
    simp only at hr
    split at hr
    · cases hr
    · cases hr
      refine ⟨hw, fun _ _ => ?_⟩
      have hh := hw.inUse h
      rw [ho] at hh
      exact hh.symm

theorem self_inUse : Triple (InUse t) (self s) fun _ w =>
    InUse t w ∧ (t.objs s).isSome = true := by
  refine entry_inUse.bind fun r => ?_
  cases r with
  | none => exact stop_spec
  | some o => exact .pure fun w hw => ⟨hw.1, hw.2 o rfl⟩

theorem hquery_inUse {ty : Ty} : Triple (InUse t) (hquery s ty) fun _ => InUse t := by
  refine entry_inUse.bind fun r => ?_
  cases r with
  | none => exact .pure fun w hw => hw.1
  | some o => exact .pure fun w hw => hw.1

theorem reply_inUse {α : Type} {f : Reply → Option α} :
    Triple (InUse t) (reply f) fun _ => InUse t := by
  intro w x w' hw hr
  obtain ⟨a, rest, -, -, rfl⟩ := reply_ok hr
  exact hw

theorem getFlags_inUse : Triple (InUse t) (getFlags o) fun _ => InUse t := by
  intro w r w' hw hr
  cases hr
  exact hw

theorem setFlags_inUse {f : Flags → Flags} : Triple (InUse t) (setFlags o f) fun _ => InUse t := by
  intro w r w' hw hr
  cases hr
  exact hw

theorem drain_inUse : Triple (InUse t) drain fun _ => InUse t := by
  have hn : ∀ n, Triple (InUse t) (drainN n) fun _ => InUse t := by
    intro n
    induction n with
    | zero => exact stop_spec
    | succ n ih =>
      refine reply_inUse.bind fun r => ?_
      split
      · exact ih
      · exact .pure fun _ => id
      · exact .pure fun _ => id
  exact fun w r w' hw hr => hn _ w r w' hw hr

/-- The end of the part of `dill_term_done` and `dill_ws_done` that the flags allow. -/
theorem done_inUse {kind : Kind} : Triple (InUse t)
    (do
      match ← hquery s (.sock kind) with
      | .error err => return .error err
      | .ok () =>
        let o ← self s
        let fl ← getFlags o
        if fl.outdone then return .error .EPIPE
        else
          match ← reply Reply.call? with
          | .error err => return .error err
          | .ok () =>
            setFlags o fun fl => { fl with outdone := true }
            return .ok ())
    fun (_ : Except Errno Unit) => InUse t := by
  refine hquery_inUse.bind fun r => ?_
  split
  · exact .pure fun _ => id
  · refine self_inUse.bind fun o => ?_
    refine (getFlags_inUse.mono (fun w hw => hw.1) fun _ _ => id).bind fun fl => ?_
    split
    · exact .pure fun _ => id
    · refine reply_inUse.bind fun r => ?_
      split
      · exact .pure fun _ => id
      · exact setFlags_inUse.bind fun _ => .pure fun _ => id

/-! ## Detaching -/

/-- When a handle is returned, the handles of `t` are in use. -/
def Returns (t : Table) (r : Except Errno ℤ) (w : World) : Prop := ∀ u, r = .ok u → InUse t w

theorem Returns.error {α : Type} {P : World → Prop} {err : Errno} {x : M α} :
    Triple P (do
      let _ ← x
      return .error err) (Returns t) := by
  intro w r w' _ hr
  obtain ⟨a, w₁, -, hr'⟩ := bind_ok hr
  cases hr'
  exact nofun

theorem fail_returns {P : World → Prop} {err : Errno} : Triple P (fail s err) (Returns t) := by
  unfold fail
  split
  · exact Returns.error
  · exact .pure fun _ _ => nofun

theorem closeFail_returns {P : World → Prop} {err : Errno} :
    Triple P (closeFail s err) (Returns t) := by
  intro w r w' _ hr
  obtain ⟨a, w₁, -, hr'⟩ := bind_ok hr
  cases a with
  | error e => cases hr'
  | ok u =>
    cases hr'
    exact nofun

theorem u_ok {u : ℤ} (hu : Obj.u o w = .ok (u, w')) : w' = w := by
  unfold Obj.u at hu
  cases ho : o.under with
  | none =>
    rw [ho] at hu
    cases hu
  | some v =>
    rw [ho] at hu
    cases hu
    rfl

/-- The end of the detach functions. -/
theorem handOver_returns (hs : (t.objs s).isSome = true) : Triple (InUse t)
    (do
      let u ← Obj.u o
      free s o
      return .ok u)
    (Returns t) := by
  intro w r w' hw hr
  obtain ⟨u, w₁, hu, hr₁⟩ := bind_ok hr
  rw [u_ok hu] at hr₁
  obtain ⟨_, w₂, hfree, hr₂⟩ := bind_ok hr₁
  cases hfree
  cases hr₂
  exact fun _ _ => Kept.retire hw hs

theorem framedDetach_returns {kind : Kind} :
    Triple (InUse t) (framedDetach kind s) (Returns t) := by
  refine hquery_inUse.bind fun r => ?_
  split
  · exact fail_returns
  · refine self_inUse.bind fun o => Triple.given (fun _ hw => hw.2) fun hs => ?_
    refine (getFlags_inUse.mono (fun w hw => hw.1) fun _ _ => id).bind fun fl => ?_
    split
    · exact fail_returns
    · exact handOver_returns hs

theorem termDetach_returns : Triple (InUse t) (termDetach s) (Returns t) := by
  refine hquery_inUse.bind fun r => ?_
  split
  · exact .pure fun _ _ => nofun
  · refine self_inUse.bind fun o => Triple.given (fun _ hw => hw.2) fun hs => ?_
    refine (getFlags_inUse.mono (fun w hw => hw.1) fun _ _ => id).bind fun fl => ?_
    refine (unlessDone_spec done_inUse).bind fun r => ?_
    split
    · exact closeFail_returns
    · refine getFlags_inUse.bind fun fl => (unlessDone_spec drain_inUse).bind fun r => ?_
      split
      · exact closeFail_returns
      · exact handOver_returns hs

theorem httpDetach_returns : Triple (InUse t) (httpDetach s) (Returns t) := by
  refine hquery_inUse.bind fun r => ?_
  split
  · exact .pure fun _ _ => nofun
  · refine self_inUse.bind fun o => Triple.given (fun _ hw => hw.2) fun hs => ?_
    intro w r w' hw hr
    obtain ⟨u, w₁, hu, hr₁⟩ := bind_ok hr
    rw [u_ok hu] at hr₁
    obtain ⟨_, w₂, hfree, hr₂⟩ := bind_ok hr₁
    cases hfree
    obtain ⟨a, w₃, hterm, hr₃⟩ := bind_ok hr₂
    have hfreed : InUse t { w with toTable := w.retire s o } := Kept.retire hw.1 hs
    have hret := termDetach_returns _ a w₃ hfreed hterm
    cases a with
    | error e =>
      cases hr₃
      exact nofun
    | ok u' => exact framedDetach_returns _ r w' (hret u' rfl) hr₃

theorem wsDetach_returns {valid : Bool} : Triple (InUse t) (wsDetach s valid) (Returns t) := by
  have hdone : Triple (InUse t) (wsDone s valid) fun _ => InUse t := by
    unfold wsDone
    split
    · exact .pure fun _ => id
    · exact done_inUse
  refine hquery_inUse.bind fun r => ?_
  split
  · exact .pure fun _ _ => nofun
  · refine self_inUse.bind fun o => Triple.given (fun _ hw => hw.2) fun hs => ?_
    refine (getFlags_inUse.mono (fun w hw => hw.1) fun _ _ => id).bind fun fl => ?_
    refine (unlessDone_spec hdone).bind fun r => ?_
    split
    · exact .pure fun _ _ => nofun
    · refine drain_inUse.bind fun r => ?_
      split
      · exact .pure fun _ _ => nofun
      · exact handOver_returns hs

/-- Detaching retires no handle. -/
theorem detach_kept {d : Detach} {u : ℤ} (hr : d.call s w = .ok (.ok u, w')) :
    Kept w.toTable w'.toTable := by
  have hkept : Triple (InUse w.toTable) (d.call s) (Returns w.toTable) := by
    cases d with
    | prefixSock => exact framedDetach_returns
    | suffixSock => exact framedDetach_returns
    | termSock => exact termDetach_returns
    | httpSock => exact httpDetach_returns
    | wsSock valid => exact wsDetach_returns
  exact hkept w _ w' (kept_refl _) hr u rfl

/-- Closing a connection retires no handle. -/
theorem connClose_kept (hl : w.live s = some o) (hk : o.kind = .conn) {r : Except Errno Unit}
    (hr : connClose s w = .ok (r, w')) : Kept w.toTable w'.toTable := by
  have hs : (w.objs s).isSome = true := by
    rw [objs_of_live hl]
    rfl
  rw [connClose_conn hl hk hr]
  have hkept := (kept_refl w.toTable).retire (o := o) hs
  exact ⟨hkept.nused, hkept.inUse⟩

/-- The number of objects that a detach function takes away. -/
def Detach.removed (d : Detach) : ℕ := d.inner.length + 1

/-- **Handles of protocol stacks leak**: whenever a detach function returns the handle under a
socket, or `dill_tcp_close` or `dill_ipc_close` returns on a connection, the handles of what is
taken away are all still in use. -/
theorem removed_handles_leak (w : World) (s : ℤ) :
    (∀ (d : Detach) (u : ℤ) (w' : World), d.call s w = .ok (.ok u, w') →
        ¬ Retired d.removed s w.toTable w'.toTable ∧
          ∀ h ∈ w.toTable.layers d.removed s, w'.objs h ≠ none) ∧
      ∀ (o : Obj) (r : Except Errno Unit) (w' : World),
        w.live s = some o → o.kind = .conn → connClose s w = .ok (r, w') →
        ¬ Retired 1 s w.toTable w'.toTable ∧ w'.objs s ≠ none := by
  constructor
  · intro d u w' hr
    have hkept := detach_kept hr
    refine ⟨hkept.not_retired (Nat.succ_pos _), fun h hh => ?_⟩
    have hin := hkept.inUse h
    rw [layers_inUse hh] at hin
    exact Option.isSome_iff_ne_none.mp hin
  · intro o r w' hl hk hr
    have hkept := connClose_kept hl hk hr
    refine ⟨hkept.not_retired Nat.one_pos, ?_⟩
    have hin := hkept.inUse s
    rw [objs_of_live hl] at hin
    exact Option.isSome_iff_ne_none.mp hin

/-- A prefix socket is attached to a bytestream socket and detached: one handle was in use, and now
there are two. -/
theorem removed_handles_leak_prefix : ∃ w',
    Detach.prefixSock.call 2 (layered .prefixSock) = .ok (.ok 1, w') ∧
    opened.nused = 1 ∧ w'.nused = 2 ∧ w'.objs 2 ≠ none ∧
    ¬ Retired 1 2 (layered .prefixSock).toTable w'.toTable := by
  obtain ⟨w', hcall, -, -⟩ := exists_of_endedWith
    (x := Detach.prefixSock.call 2 (layered .prefixSock)) (.ok 1) 0 (by decide +kernel)
  obtain ⟨hno, hin⟩ := (removed_handles_leak _ _).1 _ _ _ hcall
  have hnused : w'.nused = 2 := (detach_kept hcall).nused
  exact ⟨w', hcall, rfl, hnused, hin 2 (List.mem_singleton.mpr rfl), hno⟩

/-- A connection with the handle 3. -/
def connected : World where
  objs := Function.update (fun _ => none) 3 (some ⟨⟨0, .conn, none⟩, false⟩)
  nused := 1
  nextId := 1
  closed := []
  flags := noFlags
  env := [⟨.call (.ok ()), noFlags⟩, ⟨.recv (.error .EPIPE), noFlags⟩]

/-- `dill_tcp_close` succeeds, and the handle of the connection is still in use. -/
theorem closed_connection_in_use : ∃ w', connClose 3 connected = .ok (.ok (), w') ∧
    w'.nused = 1 ∧ w'.objs 3 ≠ none ∧ ¬ Retired 1 3 connected.toTable w'.toTable := by
  refine ⟨_, rfl, rfl, nofun, fun h => ?_⟩
  have hnused : (1 : ℤ) = 1 - 1 := h.nused
  omega

end Libdill.Layer
