import Libdill.Layer.Ends

/-!
# Attach is all or nothing

What the attach functions do to the socket they are given: either it is under the new socket, or it
is closed, except when a server refuses the upgrade to WebSockets.
-/

namespace Libdill.Layer

open Foundations Libdill.Sock

variable {env : List Ans} {ks : List Kind} {ob : Obj} {c : ℕ} {s : ℤ} {kind : Kind}

/-- The handle of a stack is in use. -/
theorem Holds.live {t : Table} (hh : Holds ks s ob c t) : ∃ o, t.live s = some o := by
  obtain ⟨o, htop⟩ := hh.top
  exact ⟨o, htop.eq⟩

/-- A label `error`: the stack is closed, if there still is one. -/
structure Closer (error : ℤ → Errno → M (Except Errno ℤ)) : Prop where
  closes : ∀ {env ks ob c s err}, Triple (Met env (Holds ks s ob c)) (error s err)
    fun r w => r = .error err ∧ Met env (Gone ob (c + 1)) w
  none : ∀ {err} {P : World → Prop}, Triple P (error (-1) err) fun r w => r = .error err ∧ P w

theorem closer_fail : Closer fail := ⟨fail_spec, fail_none⟩

theorem closer_serverFail : Closer serverFail := ⟨serverFail_spec, serverFail_none⟩

variable {error : ℤ → Errno → M (Except Errno ℤ)}

theorem Closer.ended (h : Closer error) {err : Errno} {ks' : List Kind} :
    Triple (Met env (Holds ks s ob c)) (error s err) fun r => Met env (Ended ks' ob c r) := by
  refine h.closes.mono (fun _ => id) ?_
  rintro r w ⟨rfl, hw⟩
  exact hw

theorem Closer.gone (h : Closer error) {err : Errno} {ks' : List Kind} :
    Triple (Met env (Gone ob (c + 1))) (error (-1) err) fun r => Met env (Ended ks' ob c r) := by
  refine h.none.mono (fun _ => id) ?_
  rintro r w ⟨rfl, hw⟩
  exact hw

/-- A new layer on a stack that is owned, with the code at the label `error`. -/
theorem Closer.make (h : Closer error)
    (hkind : kind = .httpSock → ∃ ks', ks = .termSock :: .suffixSock :: ks') :
    Triple (Met env (Holds ks s ob c))
      (do
        match ← make kind (some s) with
        | .error err => error s err
        | .ok h => return .ok h)
      fun r => Met env (Ended (kind :: ks) ob c r) := by
  refine (make_spec hkind).bind fun r => ?_
  cases r with
  | error err => exact h.ended
  | ok k => exact .pure fun _ hw => hw

theorem attachOver_spec {bad fault : Bool} {type : Ty} (hkind : kind ≠ .httpSock) :
    Triple (Met env (Holds ks s ob c)) (attachOver bad type fault kind s)
      fun r => Met env (Ended (kind :: ks) ob c r) := by
  unfold attachOver
  split
  · exact closer_fail.ended
  · refine hown_spec.bind fun r => ?_
    cases r with
    | error err => exact closer_fail.gone
    | ok s =>
      refine (hquery_keeps fun t ht => Holds.live ht).bind fun r => ?_
      show Triple (Met env (Holds ks s ob c)) _ _
      split
      · exact closer_fail.ended
      · split
        · exact stop_spec
        · exact closer_fail.make fun hk => absurd hk hkind

theorem httpAttachMem_spec {mem : Bool} :
    Triple (Met env (Holds ks s ob c)) (httpAttachMem mem s)
      fun r => Met env (Ended (.httpSock :: .termSock :: .suffixSock :: ks) ob c r) := by
  unfold httpAttachMem
  split
  · exact closer_fail.ended
  · refine (hquery_keeps fun t ht => ht.live).bind fun r => ?_
    split
    · exact closer_fail.ended
    · refine hown_spec.bind fun r => ?_
      cases r with
      | error err => exact closer_fail.gone
      | ok s =>
        refine (attachOver_spec (by decide)).bind fun r => ?_
        cases r with
        | error err => exact closer_fail.gone
        | ok s =>
          refine (attachOver_spec (by decide)).bind fun r => ?_
          cases r with
          | error err => exact closer_fail.gone
          | ok s => exact closer_fail.make fun _ => ⟨ks, rfl⟩

/-! ## Handshakes -/

theorem wsMake_spec (h : Closer error) :
    Triple (Met env (Holds ks s ob c)) (wsMake error s)
      fun r => Met env (Ended (.wsSock :: ks) ob c r) :=
  h.make nofun

theorem wsFinish_spec (h : Closer error) :
    Triple (Met env (Holds (.httpSock :: .termSock :: .suffixSock :: ks) s ob c))
      (wsFinish error s) fun r => Met env (Ended (.wsSock :: ks) ob c r) := by
  refine httpDetach_spec.bind fun r => ?_
  cases r with
  | error err => exact h.gone
  | ok s => exact wsMake_spec h

theorem httpCall_spec {α : Type} {f : Reply → Option (Except Errno α)}
    (hf : ∀ {Q : Table → Prop}, Triple (Met env Q) (reply f) fun _ => Met env Q) :
    Triple (Met env (Holds ks s ob c)) (httpCall s f) fun _ => Met env (Holds ks s ob c) := by
  refine (hquery_keeps fun t ht => ht.live).bind fun r => ?_
  split
  · exact .pure fun _ => id
  · exact hf

theorem inOrder_spec {P : World → Prop} {xs : List (M (Except Errno Unit))}
    (hx : ∀ x ∈ xs, Triple P x fun _ => P) : Triple P (inOrder xs) fun _ => P := by
  induction xs with
  | nil => exact .pure fun _ => id
  | cons x xs ih =>
    obtain ⟨h, hs⟩ := List.forall_mem_cons.mp hx
    refine h.bind fun r => ?_
    split
    · exact .pure fun _ => id
    · exact ih hs

/-- A field takes no more than the answer of `dill_ws_response_key`. -/
theorem clientField_spec {Q : Table → Prop} {seen : Seen} {name value : String} :
    Triple (Met env Q) (clientField seen name value) fun _ => Met env Q := by
  unfold clientField
  split
  · exact .pure fun _ => id
  · split
    · exact .pure fun _ => id
    · split
      · split
        · exact .pure fun _ => id
        · refine key_spec.bind fun r => ?_
          split
          · exact .pure fun _ => id
          · exact .pure fun _ => id
      · exact .pure fun _ => id

theorem serverField_spec {Q : Table → Prop} {hostlen : ℕ} {seen : Seen} {name value : String} :
    Triple (Met env Q) (serverField hostlen seen name value) fun _ => Met env Q := by
  unfold serverField
  split
  · exact .pure fun _ => id
  · split
    · exact .pure fun _ => id
    · split
      · exact .pure fun _ => id
      · split
        · split
          · exact .pure fun _ => id
          · refine key_spec.bind fun r => ?_
            split
            · exact .pure fun _ => id
            · exact .pure fun _ => id
        · split
          · exact .pure fun _ => id
          · exact .pure fun _ => id

theorem recvFields_spec {field : Seen → String → String → M (Except Errno Seen)}
    (hf : ∀ seen name value, Triple (Met env (Holds ks s ob c)) (field seen name value)
      fun _ => Met env (Holds ks s ob c)) :
    Triple (Met env (Holds ks s ob c)) (recvFields field s)
      fun _ => Met env (Holds ks s ob c) := by
  have hn : ∀ n seen, Triple (Met env (Holds ks s ob c)) (recvFieldsN field s n seen)
      fun _ => Met env (Holds ks s ob c) := by
    intro n
    induction n with
    | zero => exact fun _ => stop_spec
    | succ n ih =>
      intro seen
      refine (httpCall_spec field_spec).bind fun r => ?_
      split
      · exact .pure fun _ => id
      · exact .pure fun _ => id
      · refine (hf _ _ _).bind fun r => ?_
        split
        · exact .pure fun _ => id
        · exact ih _
  exact fun w r w' hm hr => hn _ _ w r w' hm hr

theorem clientRequest_spec : Triple (Met env (Holds ks s ob c)) (clientRequest s)
    fun _ => Met env (Holds ks s ob c) := by
  apply inOrder_spec
  intro x hx
  simp only [List.mem_cons, List.not_mem_nil, or_false] at hx
  rcases hx with rfl | rfl | rfl | rfl | rfl | rfl | rfl | rfl
  case inr.inr.inr.inr.inl => exact call_spec
  all_goals exact httpCall_spec call_spec

theorem serverResponse_spec : Triple (Met env (Holds ks s ob c)) (serverResponse s)
    fun _ => Met env (Holds ks s ob c) := by
  apply inOrder_spec
  intro x hx
  simp only [List.mem_cons, List.not_mem_nil, or_false] at hx
  rcases hx with rfl | rfl | rfl | rfl
  all_goals exact httpCall_spec call_spec

theorem serverHandshake_spec {hostlen : ℕ} :
    Triple (Met env (Holds ks s ob c)) (serverHandshake hostlen s)
      fun r => Met env (Ended (.wsSock :: ks) ob c r) := by
  refine httpAttachMem_spec.bind fun r => ?_
  cases r with
  | error err => exact closer_serverFail.gone
  | ok s =>
    refine (httpCall_spec command_spec).bind fun r => ?_
    split
    · exact closer_serverFail.ended
    · split
      · exact closer_serverFail.ended
      · refine (recvFields_spec fun _ _ _ => serverField_spec).bind fun r => ?_
        split
        · exact closer_serverFail.ended
        · split
          · exact closer_serverFail.ended
          · refine serverResponse_spec.bind fun r => ?_
            split
            · exact closer_serverFail.ended
            · exact wsFinish_spec closer_serverFail

/-! ## The refusal of the upgrade -/

/-- One of the answers taken is a refusal. -/
def Refused (env : List Ans) (w : World) : Prop :=
  ∃ pre, env = pre ++ w.env ∧ ∃ a ∈ pre, a.reply.Rejects

/-- The socket is neither under a new socket nor closed. -/
structure Leaked (env : List Ans) (ob : Obj) (c : ℕ) (r : Except Errno ℤ) (w : World) : Prop where
  refused : Refused env w
  error : ∃ err, r = .error err
  wf : w.Wf
  count : w.closed.count ob.id = c

/-- The status is taken: a refusal, or something else. -/
theorem recvstatus_spec : Triple (Met env (Holds ks s ob c)) (httpRecvstatus s) fun r w =>
    Holds ks s ob c w.toTable ∧ ((∀ rc, r = .ok rc → rc = 101) → Accepted env w) ∧
      ∀ rc, r = .ok rc → rc ≠ 101 → Refused env w := by
  refine (hquery_keeps fun t ht => Holds.live ht).bind fun r => ?_
  split
  · exact .pure fun w hw => ⟨hw.holds, fun _ => hw.accepted, nofun⟩
  · intro w r w' hm hr
    obtain ⟨a, rest, henv, hx, rfl⟩ := reply_ok hr
    have hreply : a.reply = .status r := by
      cases ha : a.reply with
      | status r' =>
        rw [ha] at hx
        cases hx
        rfl
      | _ =>
        rw [ha] at hx
        cases hx
    refine ⟨hm.holds, fun hok => ?_, fun rc hrc hne => ?_⟩
    · apply hm.accepted.next henv
      rw [hreply]
      cases r with
      | error e => exact id
      | ok rc => exact fun hne => hne (hok rc rfl)
    · obtain ⟨pre, hpre, -⟩ := hm.accepted
      refine ⟨pre ++ [a], ?_, a, List.mem_append_right _ (List.mem_singleton.mpr rfl), ?_⟩
      · rw [hpre, henv]
        simp
      · rw [hreply, hrc]
        exact hne

/-- `dill_ws_attach_client_mem` after the handle has been owned. -/
theorem clientHandshake_spec {named : Bool} :
    Triple (Met env (Holds ks s ob c)) (clientHandshake named s)
      fun r w => Met env (Ended (.wsSock :: ks) ob c r) w ∨ Leaked env ob c r w := by
  unfold clientHandshake
  split
  · exact closer_fail.ended.mono (fun _ => id) fun _ _ => .inl
  · refine httpAttachMem_spec.bind fun r => ?_
    cases r with
    | error err => exact closer_fail.gone.mono (fun _ => id) fun _ _ => .inl
    | ok s =>
      refine clientRequest_spec.bind fun r => ?_
      split
      · exact closer_fail.ended.mono (fun _ => id) fun _ _ => .inl
      · refine recvstatus_spec.bind fun r => ?_
        split
        · rename_i err
          exact closer_fail.ended.mono (fun w hw => ⟨hw.2.1 nofun, hw.1⟩) fun _ _ => .inl
        · rename_i rc
          split
          · rename_i hne
            intro w r w' hw hr
            obtain ⟨o, htop⟩ := hw.1.top
            obtain ⟨o', w₁, hself, hr⟩ := bind_ok hr
            have hobj : self s w = .ok (o, w) := by
              unfold self
              show (entry s w >>= _) = _
              rw [entry_live htop.eq]
              rfl
            rw [hobj] at hself
            cases hself
            cases hr
            exact .inr ⟨hw.2.2 rc rfl hne, ⟨_, rfl⟩, hw.1.wf.erase htop live_retire rfl ⟨_, rfl⟩,
              hw.1.count⟩
          · rename_i hrc
            have hrc' : rc = 101 := not_not.mp hrc
            refine Triple.mono
              (P := Met env (Holds (.httpSock :: .termSock :: .suffixSock :: ks) s ob c))
              (Q := fun r => Met env (Ended (.wsSock :: ks) ob c r)) ?_ (fun w hw => ?_)
              fun _ _ => .inl
            · refine (recvFields_spec fun _ _ _ => clientField_spec).bind fun r => ?_
              split
              · exact closer_fail.ended
              · split
                · exact closer_fail.ended
                · exact wsFinish_spec closer_fail
            · refine ⟨hw.2.1 fun rc' h => ?_, hw.1⟩
              cases h
              exact hrc'

theorem wsAttach_spec (h : Closer error) {mem nohttp : Bool}
    {handshake : ℤ → M (Except Errno ℤ)} {R : Except Errno ℤ → World → Prop}
    (hR : ∀ r w, Met env (Ended (.wsSock :: ks) ob c r) w → R r w)
    (hs : ∀ s, Triple (Met env (Holds ks s ob c)) (handshake s) R) :
    Triple (Met env (Holds ks s ob c)) (wsAttach error mem nohttp handshake s) R := by
  unfold wsAttach
  split
  · exact h.ended.mono (fun _ => id) hR
  · refine (hquery_keeps fun t ht => ht.live).bind fun r => ?_
    split
    · exact h.ended.mono (fun _ => id) hR
    · refine hown_spec.bind fun r => ?_
      cases r with
      | error err => exact h.gone.mono (fun _ => id) hR
      | ok s =>
        cases nohttp with
        | true => exact (wsMake_spec h).mono (fun _ => id) hR
        | false => exact hs s

theorem allocated_spec {attachMem : ℤ → M (Except Errno ℤ)} {R : Except Errno ℤ → World → Prop}
    {ks' : List Kind} (hR : ∀ r w, Met env (Ended ks' ob c r) w → R r w)
    (hs : Triple (Met env (Holds ks s ob c)) (attachMem s) R) :
    Triple (Met env (Holds ks s ob c)) (allocated attachMem s) R := by
  refine malloc_spec.bind fun r => ?_
  split
  · exact hs
  · exact closer_fail.ended.mono (fun _ => id) hR

/-- The layers that an attach function puts on a stack, from the top. -/
def Attach.layers : Attach → List Kind
  | .prefixMem .. | .prefixAlloc .. => [.prefixSock]
  | .suffixMem .. | .suffixAlloc .. => [.suffixSock]
  | .termMem .. | .termAlloc .. => [.termSock]
  | .httpMem .. | .httpAlloc => [.httpSock, .termSock, .suffixSock]
  | .wsClientMem .. | .wsClientAlloc .. | .wsServerMem .. | .wsServerAlloc .. => [.wsSock]

/-- A client of a WebSocket, the only one that may meet a refusal. -/
def Attach.isClient : Attach → Bool
  | .wsClientMem .. | .wsClientAlloc .. => true
  | _ => false

/-- Attaching puts the layers on the stack or closes it, but for a refusal. -/
theorem attach_spec (a : Attach) : Triple (Met env (Holds ks s ob c)) (a.call s) fun r w =>
    Met env (Ended (a.layers ++ ks) ob c r) w ∨ a.isClient = true ∧ Leaked env ob c r w := by
  have hl : ∀ {P : World → Prop} {x : M (Except Errno ℤ)} {ks' : List Kind} {p : Prop},
      (Triple P x fun r => Met env (Ended ks' ob c r)) →
        Triple P x fun r w => Met env (Ended ks' ob c r) w ∨ p ∧ Leaked env ob c r w :=
    fun h => h.mono (fun _ => id) fun _ _ => .inl
  have hclient : ∀ mem nohttp named, Triple (Met env (Holds ks s ob c))
      (wsAttachClientMem mem nohttp named s) fun r w =>
        Met env (Ended (.wsSock :: ks) ob c r) w ∨ true = true ∧ Leaked env ob c r w :=
    fun mem nohttp named => wsAttach_spec closer_fail (fun _ _ => .inl) fun s =>
      clientHandshake_spec.mono (fun _ => id) fun _ _ => Or.imp_right fun h => ⟨rfl, h⟩
  have hserver : ∀ mem nohttp hostlen, Triple (Met env (Holds ks s ob c))
      (wsAttachServerMem mem nohttp hostlen s) fun r => Met env (Ended (.wsSock :: ks) ob c r) :=
    fun mem nohttp hostlen => wsAttach_spec closer_serverFail (fun _ _ => id) fun s =>
      serverHandshake_spec
  cases a with
  | prefixMem mem hdrlen => exact hl (attachOver_spec (by decide))
  | prefixAlloc hdrlen =>
    exact allocated_spec (fun _ _ => .inl) (hl (attachOver_spec (by decide)))
  | suffixMem mem suffix suffixlen => exact hl (attachOver_spec (by decide))
  | suffixAlloc suffix suffixlen =>
    exact allocated_spec (fun _ _ => .inl) (hl (attachOver_spec (by decide)))
  | termMem mem buf len => exact hl (attachOver_spec (by decide))
  | termAlloc buf len => exact allocated_spec (fun _ _ => .inl) (hl (attachOver_spec (by decide)))
  | httpMem mem => exact hl httpAttachMem_spec
  | httpAlloc => exact allocated_spec (fun _ _ => .inl) (hl httpAttachMem_spec)
  | wsClientMem mem nohttp named => exact hclient mem nohttp named
  | wsClientAlloc nohttp named => exact allocated_spec (fun _ _ => .inl) (hclient true nohttp named)
  | wsServerMem mem nohttp hostlen => exact hl (hserver mem nohttp hostlen)
  | wsServerAlloc nohttp hostlen =>
    exact allocated_spec (fun _ _ => .inl) (hl (hserver true nohttp hostlen))

end Libdill.Layer
