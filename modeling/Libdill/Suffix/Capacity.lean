import Libdill.Suffix.Scan

/-!
# Messages that are longer than the iolist

`dill_suffix_mrecvl` on streams that break off somewhere or never end. The loop that should move `it`
on to the next element looks at `first`: `it` stays where it is when the first element has room, and
the receive fails when it has none.

* `mrecvl_respects_iff`: exactly when a receive respects the buffer.
-/

namespace Libdill.Suffix

open Foundations Libdill.Sock

/-- What there is to be read at each position of a stream: a byte, an error, or nothing, where a
read waits forever. -/
structure Source where
  get : ℕ → Option (Except Errno UInt8)
  /-- `EMSGSIZE` is an error of message sockets. -/
  own : ∀ i, get i ≠ some (.error .EMSGSIZE)

namespace Source

variable (f : Source)

/-- The next `k` bytes from position `i` on. -/
def read : ℕ → ℕ → Option (Except Errno (List UInt8) × ℕ)
  | 0, i => some (.ok [], i)
  | k + 1, i =>
    match f.get i with
    | none => none
    | some (.error e) => some (.error e, i)
    | some (.ok b) => (read k (i + 1)).map fun r => (r.1.map (b :: ·), r.2)

/-- The bytestream; its state is the position. -/
def bsock : Bsock ℕ where
  bsendl i _ := (.ok (), i)
  brecvl i lens ends := if ends = false then some (.error .EINVAL, i) else f.read lens.sum i

/-- The bytes at position `i` are `x`. -/
def Holds : ℕ → List UInt8 → Prop
  | _, [] => True
  | i, b :: x => f.get i = some (.ok b) ∧ Holds (i + 1) x

/-- There is an end to the bytes from position `i` on. -/
def Stops (i : ℕ) : Prop := ∃ j, i ≤ j ∧ ∀ b, f.get j ≠ some (.ok b)

/-- The message from position `i` on is `p`. -/
def Message (t : Delim) (i : ℕ) (p : List UInt8) : Prop :=
  f.Holds i (p ++ t.bytes) ∧ Free t.bytes p

end Source

/-- **The buffer is respected.** A size is returned only for a message that fits, which is then in
the elements in their order; when more than fits has arrived, the receive fails and so does every
later one; and it does not go on forever. -/
structure Respects (f : Source) (sock : SuffixSock) (i : ℕ) (l : List Elem) : Prop where
  returns : ∀ n k l' q, mrecvl f.bsock n l (sock, i) = .ok (.ok (k, l'), q) →
    k ≤ capacity l ∧ ∃ p, f.Message sock.suffix i p ∧ k = p.length ∧ l' = fill p l
  refuses : ∀ x, f.Holds i x → x.length = capacity l + sock.suffix.bytes.length →
    (∀ k ≤ capacity l, ¬OccursAt sock.suffix.bytes x k) →
    ∃ n self' j, mrecvl f.bsock n l (sock, i) = .ok (.error .EMSGSIZE, self', j) ∧
      ∀ n' l', mrecvl f.bsock n' l' (self', j) = .ok (.error .ECONNRESET, self', j)
  ends : (∃ n o q, mrecvl f.bsock n l (sock, i) = .ok (o, q)) ∨ f.Stops i

/-- The message that comes next is not longer than the iolist, and what does not fit in the first
element does not change the elements behind it. -/
structure Confined (f : Source) (t : Delim) (i : ℕ) (first : Elem) (next : List Elem) : Prop where
  short : ∀ x, f.Holds i x → x.length = capacity (first :: next) + t.bytes.length →
    ∃ k ≤ capacity (first :: next), OccursAt t.bytes x k
  rest : ∀ p, f.Message t i p → fill (p.drop first.len) next = next

variable {f : Source} {self : SuffixSock} {first : Elem} {next : List Elem} {c c' : Cursor}
  {i k n sz : ℕ} {w x y p bs : List UInt8} {t : Delim} {q : SuffixSock × ℕ}

/-! ## Streams -/

theorem holds_append : f.Holds i (x ++ y) ↔ f.Holds i x ∧ f.Holds (i + x.length) y := by
  induction x generalizing i with
  | nil => exact (and_iff_right trivial).symm
  | cons b x ih =>
    have hi : i + (b :: x).length = i + 1 + x.length := by
      rw [List.length_cons]
      omega
    rw [hi]
    exact (and_congr_right fun _ => ih).trans and_assoc.symm

theorem read_holds (h : f.Holds i x) : f.read x.length i = some (.ok x, i + x.length) := by
  induction x generalizing i with
  | nil => rfl
  | cons b x ih =>
    obtain ⟨hb, hx⟩ := h
    rw [List.length_cons, Source.read, hb]
    dsimp only
    rw [ih hx, Nat.add_right_comm]
    rfl

theorem read_ok (h : f.read k i = some (.ok bs, n)) :
    bs.length = k ∧ f.Holds i bs ∧ n = i + k := by
  induction k generalizing i bs n with
  | zero =>
    cases h
    exact ⟨rfl, trivial, rfl⟩
  | succ k ih =>
    unfold Source.read at h
    split at h
    · cases h
    · cases h
    · rename_i b hb
      obtain ⟨⟨o, j⟩, hread, heq⟩ := Option.map_eq_some_iff.mp h
      cases o with
      | error e => cases heq
      | ok bs' =>
        cases heq
        obtain ⟨hlen, hholds, rfl⟩ := ih hread
        exact ⟨congrArg (· + 1) hlen, ⟨hb, hholds⟩, Nat.add_right_comm i 1 k⟩

theorem read_error {e : Errno} (h : f.read k i = some (.error e, n)) : e ≠ .EMSGSIZE := by
  induction k generalizing i with
  | zero => cases h
  | succ k ih =>
    unfold Source.read at h
    split at h
    · cases h
    · rename_i e' he
      cases h
      rintro rfl
      exact f.own _ he
    · obtain ⟨⟨o, j⟩, hread, heq⟩ := Option.map_eq_some_iff.mp h
      cases o with
      | ok bs' => cases heq
      | error e' =>
        cases heq
        exact ih hread

/-- A stream that does not break off has as many bytes as one likes. -/
theorem exists_holds (h : ¬f.Stops i) (k : ℕ) : ∃ x, x.length = k ∧ f.Holds i x := by
  induction k generalizing i with
  | zero => exact ⟨[], rfl, trivial⟩
  | succ k ih =>
    have hi : ∃ b, f.get i = some (.ok b) := by
      by_contra hno
      exact h ⟨i, le_rfl, not_exists.mp hno⟩
    obtain ⟨b, hb⟩ := hi
    obtain ⟨x, hlen, hx⟩ := ih (i := i + 1) fun ⟨j, hj, hstop⟩ =>
      h ⟨j, (Nat.le_succ i).trans hj, hstop⟩
    exact ⟨b :: x, congrArg (· + 1) hlen, hb, hx⟩

theorem yields_source : Yields f.bsock f.Holds := by
  intro i bs rest h
  obtain ⟨hbs, hrest⟩ := holds_append.mp h
  refine ⟨i + bs.length, ?_, hrest⟩
  have hread := read_holds hbs
  unfold brecv Source.bsock
  simp only [Bool.true_eq_false, if_false, List.sum_singleton, hread]

theorem recv_inv {o : Except Errno (List UInt8)} (h : recv f.bsock k (self, i) = .ok (o, q)) :
    (∃ bs, o = .ok bs ∧ bs.length = k ∧ f.Holds i bs ∧ q = (self, i + k)) ∨
      ∃ e, o = .error e ∧ e ≠ .EMSGSIZE := by
  unfold recv brecv Source.bsock at h
  simp only [Bool.true_eq_false, if_false, List.sum_singleton] at h
  cases hread : f.read k i with
  | none =>
    rw [hread] at h
    cases h
  | some r =>
    obtain ⟨o', j⟩ := r
    rw [hread] at h
    cases o' with
    | error e =>
      cases h
      exact .inr ⟨e, rfl, read_error hread⟩
    | ok bs =>
      cases h
      obtain ⟨hlen, hholds, rfl⟩ := read_ok hread
      exact .inl ⟨bs, rfl, hlen, hholds, rfl⟩

/-! ## The loop -/

theorem cutAt_of_free (h : Free t.bytes p) : CutAt t.bytes (p ++ t.bytes) p [] := by
  have hcut := cutAt_append h []
  rwa [List.append_nil] at hcut

/-- The loop returns only behind a message. -/
theorem scan_inv (hw : w.length = self.suffix.bytes.length)
    (h : scan f.bsock first next n w c sz (self, i) = .ok (.ok (k, c'), q)) :
    ∃ p x, w ++ x = p ++ self.suffix.bytes ∧ f.Holds i x ∧ Free self.suffix.bytes p ∧
      (p ≠ [] → first.len ≠ 0) ∧ k = sz + p.length ∧ c' = c.puts p := by
  induction n generalizing w c sz i with
  | zero => cases h
  | succ n ih =>
    unfold scan at h
    rw [Call.look_bind] at h
    split at h
    · rename_i hfound
      cases h
      refine ⟨[], [], ?_, trivial, fun k hk => absurd hk (Nat.not_lt_zero k), absurd rfl, rfl, rfl⟩
      rw [List.append_nil, hfound, List.nil_append]
    · rename_i hne
      split at h
      · rename_i hroom
        obtain ⟨bs, ⟨self', j⟩, hrecv, hrest⟩ := Call.ret_of_bind h
        rcases recv_inv hrecv with ⟨_, ho, hlen, hholds, hq⟩ | ⟨e, ho, -⟩
        · cases ho
          cases hq
          obtain ⟨b, rfl⟩ := List.length_eq_one_iff.mp hlen
          obtain ⟨a, w, rfl⟩ : ∃ a w', w = a :: w' := List.exists_cons_of_length_pos
            (hw ▸ self.suffix.length_pos)
          have hw' : (w ++ [b]).length = self.suffix.bytes.length := by
            rw [List.length_append, ← hw]
            rfl
          obtain ⟨p, x, hx, hholds', hfree, -, rfl, rfl⟩ := ih hw' hrest
          have hall : a :: w ++ (b :: x) = a :: p ++ self.suffix.bytes := by
            rw [List.cons_append, List.cons_append, ← hx, List.append_assoc]
            rfl
          refine ⟨a :: p, b :: x, hall, ⟨hholds.1, hholds'⟩, fun k hk hocc => ?_,
            fun _ => ignoreEmpty_iff.mp hroom, ?_, rfl⟩
          · cases k with
            | zero =>
              rw [occursAt_zero, ← hall] at hocc
              have hpre := List.prefix_of_prefix_length_le hocc (List.prefix_append (a :: w) _)
                hw.ge
              exact hne (hpre.eq_of_length hw.symm).symm
            | succ k => exact hfree k (Nat.lt_of_succ_lt_succ hk) hocc
          · rw [List.length_cons]
            omega
        · cases ho
      · cases h

/-- An element that has room never makes the loop fail for the size of the message. -/
theorem scan_size (hfirst : first.len ≠ 0) :
    scan f.bsock first next n w c sz (self, i) ≠ .ok (.error .EMSGSIZE, q) := by
  intro h
  induction n generalizing w c sz i with
  | zero => cases h
  | succ n ih =>
    unfold scan at h
    rw [Call.look_bind] at h
    split at h
    · cases h
    · rw [if_pos (ignoreEmpty_iff.mpr hfirst)] at h
      cases hrecv : recv f.bsock 1 (self, i) with
      | error r =>
        rw [Call.bind_stop hrecv] at h
        cases h
      | ok r =>
        obtain ⟨o, q'⟩ := r
        rcases recv_inv hrecv with ⟨bs, rfl, -, -, rfl⟩ | ⟨e, rfl, he⟩
        · rw [Call.bind_ret hrecv] at h
          exact ih h
        · rw [Call.bind_fail hrecv] at h
          cases h
          exact he rfl

/-! ## A receive -/

theorem mrecvl_start (hin : self.inerr = false) :
    mrecvl f.bsock n (first :: next) (self, i) =
      (recv f.bsock self.suffix.bytes.length >>= fun buf =>
        scan f.bsock first next n buf ⟨[], first⟩ 0 >>= fun r =>
          pure (r.1, r.2.elem :: next)) (self, i) := by
  unfold mrecvl
  rw [Call.look_bind]
  change (Call.require (self.inerr == false) Errno.ECONNRESET >>= _) (self, i) = _
  rw [hin, beq_self_eq_true, Call.bind_ret Call.require_true, Call.look_bind]

/-- A socket that has failed. -/
theorem mrecvl_failed (hin : self.inerr = true) (l : List Elem) :
    mrecvl f.bsock n l (self, i) = .ok (.error .ECONNRESET, self, i) := by
  unfold mrecvl
  rw [Call.look_bind]
  change (Call.require (self.inerr == false) Errno.ECONNRESET >>= _) (self, i) = _
  rw [hin]
  rfl

theorem mrecvl_inv {l' : List Elem} (hin : self.inerr = false)
    (h : mrecvl f.bsock n (first :: next) (self, i) = .ok (.ok (k, l'), q)) :
    ∃ p, f.Message self.suffix i p ∧ (p ≠ [] → first.len ≠ 0) ∧ k = p.length ∧
      l' = first.put (p.take first.len) :: next := by
  rw [mrecvl_start hin] at h
  obtain ⟨w, ⟨self', j⟩, hrecv, hrest⟩ := Call.ret_of_bind h
  rcases recv_inv hrecv with ⟨_, ho, hlen, hholds, hq⟩ | ⟨e, ho, -⟩
  · cases ho
    cases hq
    obtain ⟨⟨sz, c⟩, q', hscan, hret⟩ := Call.ret_of_bind hrest
    cases hret
    obtain ⟨p, x, hx, hholds', hfree, hroom, rfl, rfl⟩ := scan_inv hlen hscan
    refine ⟨p, ⟨?_, hfree⟩, hroom, Nat.zero_add _, by rw [puts_elem]⟩
    rw [← hx]
    exact holds_append.mpr ⟨hholds, hlen.symm ▸ hholds'⟩
  · cases ho

theorem mrecvl_size (hfirst : first.len ≠ 0) :
    mrecvl f.bsock n (first :: next) (self, i) ≠ .ok (.error .EMSGSIZE, q) := by
  intro h
  cases hin : self.inerr with
  | true =>
    rw [mrecvl_failed hin] at h
    cases h
  | false =>
    rw [mrecvl_start hin] at h
    cases hrecv : recv f.bsock self.suffix.bytes.length (self, i) with
    | error r =>
      rw [Call.bind_stop hrecv] at h
      cases h
    | ok r =>
      obtain ⟨o, q'⟩ := r
      rcases recv_inv hrecv with ⟨bs, rfl, -, -, rfl⟩ | ⟨e, rfl, he⟩
      · rw [Call.bind_ret hrecv] at h
        cases hscan : scan f.bsock first next n bs ⟨[], first⟩ 0
            (self, i + self.suffix.bytes.length) with
        | error r =>
          rw [Call.bind_stop hscan] at h
          cases h
        | ok r =>
          obtain ⟨o, q''⟩ := r
          cases o with
          | ok a =>
            rw [Call.bind_ret hscan] at h
            cases h
          | error e =>
            rw [Call.bind_fail hscan] at h
            cases h
            exact scan_size hfirst hscan
      · rw [Call.bind_fail hrecv] at h
        cases h
        exact he rfl

/-- A message is received. -/
theorem mrecvl_message (hin : self.inerr = false) (h : f.Message self.suffix i p)
    (hfirst : p ≠ [] → first.len ≠ 0) :
    ∃ j, mrecvl f.bsock (p.length + 1) (first :: next) (self, i) =
      .ok (.ok (p.length, first.put (p.take first.len) :: next), self, j) := by
  obtain ⟨j, hrun, -⟩ := @mrecvl_cut _ _ _ _ self _ _ _ first next (p.length + 1) yields_source
    (cutAt_of_free h.2) h.1 hin hfirst (Nat.lt_succ_self _)
  exact ⟨j, hrun⟩

theorem holds_unique (hx : f.Holds i x) (hy : f.Holds i y) (hlen : x.length = y.length) :
    x = y := by
  induction x generalizing i y with
  | nil => exact (List.length_eq_zero_iff.mp hlen.symm).symm
  | cons a x ih =>
    cases y with
    | nil => cases hlen
    | cons b y =>
      obtain ⟨ha, hx⟩ := hx
      obtain ⟨hb, hy⟩ := hy
      rw [ha] at hb
      cases hb
      rw [ih hx hy (Nat.succ.inj hlen)]

/-- A message in the first bytes of a stream. -/
theorem exists_message (hx : f.Holds i x) (hocc : OccursAt t.bytes x k) :
    ∃ p, f.Message t i p ∧ p.length ≤ k := by
  obtain ⟨p, r, hcut, hle⟩ := exists_cutAt hocc
  rw [hcut.eq] at hx
  refine ⟨p, ⟨(holds_append.mp hx).1, fun k hk hocc' => ?_⟩, hle⟩
  apply hcut.leftmost k hk
  rw [hcut.eq]
  exact occursAt_append hocc' r

theorem Confined.length_le (h : Confined f t i first next) (hp : f.Message t i p) :
    p.length ≤ capacity (first :: next) := by
  by_contra hlt
  set m := capacity (first :: next) + t.bytes.length with hm
  have hsplit := List.take_append_drop m (p ++ t.bytes)
  have hholds := hp.1
  rw [← hsplit] at hholds
  have hlen : ((p ++ t.bytes).take m).length = m := by
    rw [List.length_take, List.length_append]
    omega
  obtain ⟨k, hk, hocc⟩ := h.short _ (holds_append.mp hholds).1 hlen
  apply hp.2 k (by omega)
  rw [← hsplit]
  exact occursAt_append hocc _

/-- With an empty first element a receive ends at once. -/
theorem respects_empty (hin : self.inerr = false) (hfirst : first.len = 0) :
    Respects f self i (first :: next) where
  returns n k l' q h := by
    obtain ⟨p, hp, hroom, rfl, rfl⟩ := mrecvl_inv hin h
    obtain rfl : p = [] := by
      by_contra hne
      exact hroom hne hfirst
    refine ⟨Nat.zero_le _, [], hp, rfl, ?_⟩
    rw [List.take_nil, Elem.put_nil, fill_nil]
  refuses x hx hlen hno := by
    obtain ⟨j, hrun⟩ := @mrecvl_empty _ _ _ _ self _ first next 0 yields_source
      (hno 0 (Nat.zero_le _)) (by omega) hx hin hfirst
    exact ⟨1, _, j, hrun, fun n' l' => mrecvl_failed rfl l'⟩
  ends := by
    by_cases hstops : f.Stops i
    · exact .inr hstops
    · obtain ⟨x, hlen, hx⟩ := exists_holds hstops self.suffix.bytes.length
      by_cases hocc : OccursAt self.suffix.bytes x 0
      · obtain ⟨p, hp, hle⟩ := exists_message hx hocc
        obtain rfl : p = [] := List.length_eq_zero_iff.mp (Nat.le_zero.mp hle)
        obtain ⟨j, hrun⟩ := @mrecvl_message f self first next i [] hin hp (absurd rfl)
        exact .inl ⟨_, _, _, hrun⟩
      · obtain ⟨j, hrun⟩ := @mrecvl_empty _ _ _ _ self _ first next 0 yields_source hocc hlen.ge hx
          hin hfirst
        exact .inl ⟨_, _, _, hrun⟩

/-- **When the buffer is respected**: the first element is empty, or what comes is no longer than
the iolist, and none of it has to be stored behind the first element. -/
theorem mrecvl_respects_iff (hin : self.inerr = false) :
    Respects f self i (first :: next) ↔
      first.len = 0 ∨ Confined f self.suffix i first next := by
  constructor
  · intro h
    by_cases hfirst : first.len = 0
    · exact .inl hfirst
    · refine .inr ⟨fun x hx hlen => ?_, fun p hp => ?_⟩
      · by_contra hno
        obtain ⟨n, self', j, hrun, -⟩ := h.refuses x hx hlen fun k hk hocc => hno ⟨k, hk, hocc⟩
        exact mrecvl_size hfirst hrun
      · obtain ⟨j, hrun⟩ := @mrecvl_message f self first next i p hin hp fun _ => hfirst
        obtain ⟨-, p', hp', hlen, hfill⟩ := h.returns _ _ _ _ hrun
        have hsame := holds_unique hp.1 hp'.1 (by rw [List.length_append, hlen, List.length_append])
        obtain rfl := List.append_cancel_right hsame
        exact (List.cons.inj hfill).2.symm
  · intro h
    by_cases hfirst : first.len = 0
    · exact respects_empty hin hfirst
    · have hconf := h.resolve_left hfirst
      refine ⟨fun n k l' q hrun => ?_, fun x hx hlen hno => ?_, ?_⟩
      · obtain ⟨p, hp, -, rfl, rfl⟩ := mrecvl_inv hin hrun
        refine ⟨hconf.length_le hp, p, hp, rfl, ?_⟩
        exact congrArg (_ :: ·) (hconf.rest p hp).symm
      · obtain ⟨k, hk, hocc⟩ := hconf.short x hx hlen
        exact absurd hocc (hno k hk)
      · by_cases hstops : f.Stops i
        · exact .inr hstops
        · obtain ⟨x, hlen, hx⟩ := exists_holds hstops _
          obtain ⟨k, -, hocc⟩ := hconf.short x hx hlen
          obtain ⟨p, hp, -⟩ := exists_message hx hocc
          obtain ⟨j, hrun⟩ := @mrecvl_message f self first next i p hin hp fun _ => hfirst
          exact .inl ⟨_, _, _, hrun⟩

/-- Some bytes, and then nothing more. -/
def line (bs : List UInt8) : Source where
  get i := bs[i]?.map .ok
  own i h := by
    obtain ⟨b, -, heq⟩ := Option.map_eq_some_iff.mp h
    cases heq

theorem mrecvl_respects_iff_letter : Respects (line [97, 13, 10]) crlf.attach 0 [.buf [0]] := by
  refine (mrecvl_respects_iff rfl).mpr (.inr ⟨fun x hx hlen => ⟨1, le_rfl, ?_⟩, fun _ _ => rfl⟩)
  have hline : (line [97, 13, 10]).Holds 0 [97, 13, 10] := ⟨rfl, rfl, rfl, trivial⟩
  rw [holds_unique hx hline hlen]
  exact List.prefix_rfl

/-- A message of two letters does not fit in a buffer of one byte. -/
theorem mrecvl_overruns : ¬Respects (line [97, 98, 13, 10]) crlf.attach 0 [.buf [0]] := by
  intro h
  have hmessage : (line [97, 98, 13, 10]).Message crlf 0 [97, 98] :=
    ⟨⟨rfl, rfl, rfl, rfl, trivial⟩, by decide⟩
  obtain ⟨j, hrun⟩ := @mrecvl_message _ crlf.attach (.buf [0]) [] 0 _ rfl hmessage fun _ => by decide
  exact absurd (h.returns _ _ _ _ hrun).1 (by decide)

end Libdill.Suffix
