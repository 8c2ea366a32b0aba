import Libdill.Http.Lines
import Libdill.Http.Receive

/-!
# The arrays of an HTTP receive

A receive over a stream with any bytes in it, that breaks off in any way or never ends. SUFFIX returns
the size of the line even if this is larger than the buffer, so that the null character behind a line
of more than 1023 characters is written outside of `rxbuf`; and `memcmp` is given eight characters at
a place where there may be fewer.

* `receive_safe_iff`: for any parser.
* `recv_safe_iff`: exactly when a call of each of the three functions stays within the arrays.
-/

namespace Libdill.Http

open Foundations Libdill.Sock
open Libdill.Suffix (SuffixSock Source crlf)
open Libdill.Term (TermSock)

/-- The call returns, and so no array has been read or written outside of its bounds; and the buffers
keep their sizes. -/
def Within {α τ : Type} (s : Args) (args : τ → Args) (r : Except Stop (Except Errno α × τ)) : Prop :=
  ∃ o z, r = .ok (o, z) ∧ ∀ a, (args z a).length = (s a).length

/-- From position `i` on, a line or an error comes. -/
def Answers (f : Source) (i : ℕ) : Prop :=
  (∃ m, f.Message crlf i m) ∨ ∃ x e, f.Holds i x ∧ f.get (i + x.length) = some (.error e)

/-- A call that stays within the arrays; and with enough turns of its loop it returns, if it does not
have to wait forever. -/
structure Safe {α : Type} (f : Source) (i : ℕ) (s : Args)
    (run : ℕ → Except Stop (Except Errno α × Args × Stack ℕ)) : Prop where
  within : ∀ n, run n = .error .waits ∨ Within s Prod.fst (run n)
  returns : Answers f i → ∃ n r, run n = .ok r

variable {s : Args} {m : List UInt8} {full : Bool} {f : Source} {i n : ℕ} {rx : Rxbuf} {t : TermSock}
  {self : SuffixSock}

/-! ## The parsers -/

theorem within_fault {α : Type} :
    ¬Within s id (.error .fault : Except Stop (Except Errno α × Args)) := nofun

theorem within_ok {α : Type} {o : Except Errno α} {s' : Args}
    (h : ∀ a, (s' a).length = (s a).length) : Within s id (.ok (o, s')) := ⟨o, s', rfl, h⟩

/-- The parser stays within the arrays if and only if `c`; otherwise it leaves them. -/
structure WithinIff {α : Type} (s : Args) (r : Except Stop (Except Errno α × Args)) (c : Prop) :
    Prop where
  within : c → Within s id r
  fault : ¬c → r = .error .fault

theorem WithinIff.iff {α : Type} {r : Except Stop (Except Errno α × Args)} {c : Prop}
    (h : WithinIff s r c) : Within s id r ↔ c := by
  refine ⟨fun hr => ?_, h.within⟩
  by_contra hc
  rw [h.fault hc] at hr
  exact within_fault hr

/-- `memcmp` does not read behind the end of `rxbuf`, if it is called. -/
def RequestReads (full : Bool) (m : List UInt8) (s : Args) : Prop :=
  full = true → RequestFits m s → ¬Overreads m (protocolOf m)

def StatusReads (full : Bool) (m : List UInt8) : Prop :=
  full = true → (behind m).headD 0 ≠ 0 → ¬Overreads m (m.dropWhile isSpace)

theorem requestLine_within (hs : Sized s) :
    WithinIff s (requestLine full m s) (RequestReads full m s) := by
  by_cases hfits : RequestFits m s
  · have hlen := hfits.length_args
    rw [requestLine_fits hs hfits]
    constructor
    · intro hread
      obtain ⟨haccept, hrefuse⟩ :=
        @version_run (requestArgs m s) m (protocolOf m) full fun hf => hread hf hfits
      by_cases hloose : Loose (protocolOf m)
      · rw [Call.bind_ret (haccept hloose)]
        unfold Call.require
        split <;> exact within_ok hlen
      · rw [Call.bind_fail (hrefuse hloose)]
        exact within_ok hlen
    · intro hread
      obtain ⟨hf, hrest⟩ := Classical.not_imp.mp hread
      obtain ⟨-, hover⟩ := Classical.not_imp.mp hrest
      exact Call.bind_stop (version_overreads hf (not_not.mp hover))
  · obtain ⟨e, s', hrun, hlen, -⟩ := @requestLine_unfit s m full hs hfits
    rw [hrun]
    exact ⟨fun _ => within_ok hlen, fun hread => absurd (fun _ h => absurd h hfits) hread⟩

theorem statusLine_within (hs : Sized s) :
    WithinIff s (statusLine full m s) (StatusReads full m) := by
  constructor
  · intro hread
    by_cases hloose : StatusLoose m
    · rw [statusLine_found hread hloose]
      by_cases hroom : (reasonOf m).length < (s .reason).length
      · rw [Call.bind_ret (give_fits hs hroom)]
        exact within_ok fun a => length_put hroom
      · rw [Call.bind_fail (give_full hs (by omega))]
        exact within_ok fun _ => rfl
    · rw [statusLine_refused hread hloose]
      exact within_ok fun _ => rfl
  · intro hread
    obtain ⟨hf, hrest⟩ := Classical.not_imp.mp hread
    obtain ⟨hbehind, hover⟩ := Classical.not_imp.mp hrest
    rw [statusLine_long hbehind]
    exact Call.bind_stop (version_overreads hf (not_not.mp hover))

theorem fieldLine_within (hs : Sized s) : WithinIff s (fieldLine m s) True := by
  refine ⟨fun _ => ?_, fun h => absurd trivial h⟩
  by_cases hfits : FieldFits m s
  · have hs₁ : Sized (s.put .name (nameOf m)) := hs.put hfits.name.2
    have hlen : ∀ a, (s.put .name (nameOf m) a).length = (s a).length :=
      fun a => length_put hfits.name.2
    rw [fieldLine_fits hs hfits]
    by_cases hroom : (valueOf m).length < (s.put .name (nameOf m) .value).length
    · rw [give_fits hs₁ hroom]
      exact within_ok fun a => (length_put hroom).trans (hlen a)
    · rw [give_full hs₁ (by omega)]
      exact within_ok hlen
  · obtain ⟨e, s', hrun, hlen, -⟩ := fieldLine_unfit hs hfits
    rw [hrun]
    exact within_ok hlen

/-! ## SUFFIX -/

variable {first : Elem} {next : List Elem} {w : List UInt8} {c : Suffix.Cursor} {sz k : ℕ}

theorem recv_stop {r : Stop} (h : Suffix.recv f.bsock k (self, i) = .error r) : r = .waits := by
  unfold Suffix.recv brecv at h
  simp only at h
  cases hread : f.bsock.brecvl i [k] true with
  | none =>
    rw [hread] at h
    cases h
    rfl
  | some r' =>
    obtain ⟨o, j⟩ := r'
    rw [hread] at h
    cases o <;> cases h

theorem scan_stop {r : Stop} (h : Suffix.scan f.bsock first next n w c sz (self, i) = .error r) :
    r = .waits := by
  induction n generalizing w c sz i self with
  | zero =>
    cases h
    rfl
  | succ n ih =>
    unfold Suffix.scan at h
    rw [Call.look_bind] at h
    split at h
    · cases h
    · split at h
      · cases hrecv : Suffix.recv f.bsock 1 (self, i) with
        | error r' =>
          rw [Call.bind_stop hrecv] at h
          cases h
          exact recv_stop hrecv
        | ok p =>
          obtain ⟨o, self', j⟩ := p
          cases o with
          | error e =>
            rw [Call.bind_fail hrecv] at h
            cases h
          | ok bs =>
            rw [Call.bind_ret hrecv] at h
            exact ih h
      · cases h

/-- SUFFIX stays within the iolist. -/
theorem mrecvl_stop {r : Stop} (h : Suffix.mrecvl f.bsock n (first :: next) (self, i) = .error r) :
    r = .waits := by
  cases hin : self.inerr with
  | true =>
    rw [Suffix.mrecvl_failed hin] at h
    cases h
  | false =>
    rw [Suffix.mrecvl_start hin] at h
    cases hrecv : Suffix.recv f.bsock self.suffix.bytes.length (self, i) with
    | error r' =>
      rw [Call.bind_stop hrecv] at h
      cases h
      exact recv_stop hrecv
    | ok p =>
      obtain ⟨o, self', j⟩ := p
      cases o with
      | error e =>
        rw [Call.bind_fail hrecv] at h
        cases h
      | ok bs =>
        rw [Call.bind_ret hrecv] at h
        cases hscan : Suffix.scan f.bsock first next n bs ⟨[], first⟩ 0 (self', j) with
        | error r' =>
          rw [Call.bind_stop hscan] at h
          cases h
          exact scan_stop hscan
        | ok q =>
          obtain ⟨o, q⟩ := q
          cases o with
          | error e =>
            rw [Call.bind_fail hscan] at h
            cases h
          | ok a =>
            rw [Call.bind_ret hscan] at h
            cases h

variable {x : List UInt8} {e : Errno}

theorem read_break (hx : f.Holds i x) (he : f.get (i + x.length) = some (.error e))
    (hk : x.length < k) : f.read k i = some (.error e, i + x.length) := by
  induction x generalizing i k with
  | nil =>
    obtain ⟨k, rfl⟩ : ∃ k', k = k' + 1 := ⟨k - 1, by simp at hk; omega⟩
    rw [List.length_nil, Nat.add_zero] at he
    simp [Source.read, he]
  | cons b x ih =>
    obtain ⟨k, rfl⟩ : ∃ k', k = k' + 1 := ⟨k - 1, by rw [List.length_cons] at hk; omega⟩
    rw [List.length_cons, Nat.add_comm x.length, ← Nat.add_assoc] at he
    have hread := ih hx.2 he (by simpa using hk)
    simp only [Source.read, hx.1, hread, Option.map_some, List.length_cons]
    rw [Nat.add_comm x.length, Nat.add_assoc]
    rfl

theorem recv_break (hx : f.Holds i x) (he : f.get (i + x.length) = some (.error e))
    (hk : x.length < k) : ∃ q, Suffix.recv f.bsock k (self, i) = .ok (.error e, q) := by
  have hread := read_break hx he hk
  unfold Suffix.recv brecv Source.bsock
  simp only [Bool.true_eq_false, if_false, List.sum_singleton, hread]
  exact ⟨_, rfl⟩

theorem recv_holds (hx : f.Holds i x) :
    Suffix.recv f.bsock x.length (self, i) = .ok (.ok x, self, i + x.length) := by
  have hread := Suffix.read_holds hx
  unfold Suffix.recv brecv Source.bsock
  simp only [Bool.true_eq_false, if_false, List.sum_singleton, hread]

/-- The loop ends at an error, if not before. -/
theorem scan_break (hx : f.Holds i x) (he : f.get (i + x.length) = some (.error e))
    (hn : x.length < n) : ∃ r, Suffix.scan f.bsock first next n w c sz (self, i) = .ok r := by
  induction x generalizing i n w c sz with
  | nil =>
    obtain ⟨n, rfl⟩ : ∃ k, n = k + 1 := ⟨n - 1, by simp at hn; omega⟩
    obtain ⟨q, hrecv⟩ := @recv_break f i self 1 [] e hx he Nat.one_pos
    unfold Suffix.scan
    rw [Call.look_bind]
    split
    · exact ⟨_, rfl⟩
    · split
      · rw [Call.bind_fail hrecv]
        exact ⟨_, rfl⟩
      · exact ⟨_, rfl⟩
  | cons b x ih =>
    obtain ⟨n, rfl⟩ : ∃ k, n = k + 1 := ⟨n - 1, by simp at hn; omega⟩
    have hrecv := @recv_holds f i self [b] ⟨hx.1, trivial⟩
    unfold Suffix.scan
    rw [Call.look_bind]
    split
    · exact ⟨_, rfl⟩
    · split
      · rw [List.length_singleton] at hrecv
        rw [Call.bind_ret hrecv]
        apply ih hx.2 _ (by simpa using hn)
        rw [Nat.add_assoc, Nat.add_comm 1]
        exact he
      · exact ⟨_, rfl⟩

theorem mrecvl_break (hx : f.Holds i x) (he : f.get (i + x.length) = some (.error e)) :
    ∃ r, Suffix.mrecvl f.bsock (x.length + 1) (first :: next) (self, i) = .ok r := by
  cases hin : self.inerr with
  | true =>
    rw [Suffix.mrecvl_failed hin]
    exact ⟨_, rfl⟩
  | false =>
    rw [Suffix.mrecvl_start hin]
    by_cases hlt : x.length < self.suffix.bytes.length
    · obtain ⟨q, hrecv⟩ := @recv_break f i self _ x e hx he hlt
      rw [Call.bind_fail hrecv]
      exact ⟨_, rfl⟩
    · have hlen : (x.take self.suffix.bytes.length).length = self.suffix.bytes.length := by
        rw [List.length_take]
        omega
      rw [← List.take_append_drop self.suffix.bytes.length x] at hx
      obtain ⟨hfront, hback⟩ := Suffix.holds_append.mp hx
      have hrecv := @recv_holds f i self _ hfront
      rw [hlen] at hrecv hback
      have hend : i + self.suffix.bytes.length + (x.drop self.suffix.bytes.length).length
          = i + x.length := by
        rw [List.length_drop]
        omega
      rw [← hend] at he
      obtain ⟨⟨o, q⟩, hscan⟩ := @scan_break f (i + self.suffix.bytes.length) (x.length + 1) self first
        next (x.take self.suffix.bytes.length) ⟨[], first⟩ 0 _ e hback he
        (by rw [List.length_drop]; omega)
      rw [Call.bind_ret hrecv]
      cases o with
      | error e => exact ⟨_, Call.bind_fail hscan⟩
      | ok a => exact ⟨_, Call.bind_ret hscan⟩

/-! ## A receive -/

section Receive

variable {α : Type} {parse : ℕ → Rxbuf → Call Args Stop Errno α}
  {line : List UInt8 → Call Args Stop Errno α}

/-- A socket of HTTP. -/
structure IsHttp (t : TermSock) (sock : SuffixSock) : Prop where
  term : t.term = []
  suffix : sock.suffix = crlf

/-- A line that is received is a line of the stream. -/
theorem receive_line (hp : Parses parse line) (h : IsHttp t self) (hin : self.inerr = false)
    (hm : f.Message crlf i m) :
    ∃ j, receive f.bsock (m.length + 1) rx parse (s, t, self, i) =
      if m = [] then .ok (.error .EPIPE, s, { t with indone := true }, self, j)
      else if rxbufSize ≤ m.length then .error .fault
      else onArgs (line m) (s, t, self, j) := by
  have hroom : Elem.len (.buf (rx.bytes.take (rxbufSize - 1))) ≠ 0 := by
    rw [room_rxbuf]
    decide
  rw [← h.suffix] at hm
  obtain ⟨j, hrun⟩ := @Suffix.mrecvl_message f self (.buf (rx.bytes.take (rxbufSize - 1))) [] i m hin
    hm fun _ => hroom
  rw [room_rxbuf] at hrun
  exact ⟨j, receive_run hp h.term hrun⟩

/-- What a receive can do. -/
theorem receive_cases (hp : Parses parse line) (h : IsHttp t self) :
    (receive f.bsock n rx parse (s, t, self, i) = .error .waits ∧
        ∀ r, Suffix.mrecvl f.bsock n [.buf (rx.bytes.take (rxbufSize - 1))] (self, i) ≠ .ok r) ∨
      (∃ e z, receive f.bsock n rx parse (s, t, self, i) = .ok (.error e, s, z)) ∨
      ∃ m z, self.inerr = false ∧ f.Message crlf i m ∧ m ≠ [] ∧
        receive f.bsock n rx parse (s, t, self, i)
          = if rxbufSize ≤ m.length then .error .fault else onArgs (line m) (s, z) := by
  cases hrun : Suffix.mrecvl f.bsock n [.buf (rx.bytes.take (rxbufSize - 1))] (self, i) with
  | error r =>
    obtain rfl := mrecvl_stop hrun
    exact .inl ⟨receive_stop h.term hrun, nofun⟩
  | ok q =>
    obtain ⟨o, z'⟩ := q
    cases o with
    | error e => exact .inr (.inl ⟨e, _, receive_fail h.term hrun⟩)
    | ok r =>
      obtain ⟨sz, l⟩ := r
      cases hin : self.inerr with
      | true =>
        rw [Suffix.mrecvl_failed hin] at hrun
        cases hrun
      | false =>
        obtain ⟨m, hm, -, rfl, rfl⟩ := Suffix.mrecvl_inv hin hrun
        rw [room_rxbuf] at hrun
        have hreceive := @receive_run _ _ _ rx t _ _ m s _ _ _ hp h.term hrun
        by_cases hnil : m = []
        · rw [if_pos hnil] at hreceive
          exact .inr (.inl ⟨_, _, hreceive⟩)
        · rw [if_neg hnil] at hreceive
          rw [h.suffix] at hm
          exact .inr (.inr ⟨m, _, rfl, hm, hnil, hreceive⟩)

theorem within_onArgs {z : Stack ℕ} {x : Call Args Stop Errno α} :
    Within s Prod.fst (onArgs x (s, z)) ↔ Within s id (x s) := by
  constructor
  · rintro ⟨o, z', hrun, hlen⟩
    unfold onArgs at hrun
    simp only at hrun
    split at hrun
    · cases hrun
    · rename_i hx
      cases hrun
      exact ⟨_, _, hx, hlen⟩
  · rintro ⟨o, s', hrun, hlen⟩
    exact ⟨_, _, onArgs_run hrun, hlen⟩

/-- A receive when lines are short and parsed without a fault. -/
theorem receive_within (hp : Parses parse line) (h : IsHttp t self)
    (hcond : self.inerr = false → ∀ m, f.Message crlf i m → m ≠ [] →
      m.length < rxbufSize ∧ Within s id (line m s)) :
    Within s Prod.fst (receive f.bsock n rx parse (s, t, self, i)) ∨
      (receive f.bsock n rx parse (s, t, self, i) = .error .waits ∧
        ∀ r, Suffix.mrecvl f.bsock n [.buf (rx.bytes.take (rxbufSize - 1))] (self, i) ≠ .ok r) := by
  rcases @receive_cases s f i n rx t self _ _ _ hp h with
    hwait | ⟨e, z, hrun⟩ | ⟨m, z, hin, hm, hne, hrun⟩
  · exact .inr hwait
  · exact .inl ⟨_, _, hrun, fun _ => rfl⟩
  · obtain ⟨hlen, hline⟩ := hcond hin m hm hne
    rw [if_neg (by omega)] at hrun
    rw [hrun]
    exact .inl (within_onArgs.mpr hline)

/-- **For any parser.** -/
theorem receive_safe_iff {c : List UInt8 → Prop} (hp : Parses parse line) (h : IsHttp t self)
    (hline : ∀ m, WithinIff s (line m s) (c m)) :
    Safe f i s (fun n => receive f.bsock n rx parse (s, t, self, i))
      ↔ (self.inerr = false → ∀ m, f.Message crlf i m → m ≠ [] → m.length < rxbufSize ∧ c m) := by
  constructor
  · intro hsafe hin m hm hne
    obtain ⟨j, hrun⟩ := @receive_line s _ f i rx t self _ _ _ hp h hin hm
    have hwithin := hsafe.within (m.length + 1)
    rw [if_neg hne] at hrun
    simp only [hrun] at hwithin
    by_cases hlong : rxbufSize ≤ m.length
    · rw [if_pos hlong] at hwithin
      rcases hwithin with hwait | ⟨_, _, hok, -⟩
      · cases hwait
      · cases hok
    · rw [if_neg hlong] at hwithin
      refine ⟨by omega, ?_⟩
      by_contra hc
      rw [onArgs_stop ((hline m).fault hc)] at hwithin
      rcases hwithin with hwait | ⟨_, _, hok, -⟩
      · cases hwait
      · cases hok
  · intro hcond
    have hall : self.inerr = false → ∀ m, f.Message crlf i m → m ≠ [] →
        m.length < rxbufSize ∧ Within s id (line m s) := fun hin m hm hne =>
      (hcond hin m hm hne).imp id (hline m).within
    refine ⟨fun n => (receive_within hp h hall).symm.imp And.left id, fun hans => ?_⟩
    have hdone : ∃ n r, Suffix.mrecvl f.bsock n [.buf (rx.bytes.take (rxbufSize - 1))] (self, i)
        = .ok r := by
      rcases hans with ⟨m, hm⟩ | ⟨x, e, hx, he⟩
      · cases hin : self.inerr with
        | true => exact ⟨0, _, Suffix.mrecvl_failed hin _⟩
        | false =>
          rw [← h.suffix] at hm
          have hroom : Elem.len (.buf (rx.bytes.take (rxbufSize - 1))) ≠ 0 := by
            rw [room_rxbuf]
            decide
          obtain ⟨j, hrun⟩ := Suffix.mrecvl_message hin hm fun _ => hroom
          exact ⟨_, _, hrun⟩
      · obtain ⟨r, hrun⟩ := @mrecvl_break f i self (.buf (rx.bytes.take (rxbufSize - 1))) [] x e hx he
        exact ⟨_, r, hrun⟩
    obtain ⟨n, r, hdone⟩ := hdone
    rcases receive_within hp h hall with ⟨o, z, hrun, -⟩ | ⟨-, hno⟩
    · exact ⟨n, _, hrun⟩
    · exact absurd hdone (hno r)

end Receive

/-! ## The three functions -/

/-- **When the receive functions stay within the arrays.** The line is short enough, and `memcmp` is
not called too close to the end of the array. -/
theorem recv_safe_iff (f : Source) (i : ℕ) (rx : Rxbuf) (s : Args) (hs : Sized s)
    (full indone outdone inerr outerr : Bool) :
    (Safe f i s (fun n => recvrequest f.bsock n full rx
        (s, ⟨[], indone, outdone⟩, ⟨crlf, inerr, outerr⟩, i)) ↔
      (inerr = false → ∀ m, f.Message crlf i m → m ≠ [] →
        m.length < rxbufSize ∧ RequestReads full m s)) ∧
    (Safe f i s (fun n => recvstatus f.bsock n full rx
        (s, ⟨[], indone, outdone⟩, ⟨crlf, inerr, outerr⟩, i)) ↔
      (inerr = false → ∀ m, f.Message crlf i m → m ≠ [] →
        m.length < rxbufSize ∧ StatusReads full m)) ∧
    (Safe f i s (fun n => recvfield f.bsock n rx
        (s, ⟨[], indone, outdone⟩, ⟨crlf, inerr, outerr⟩, i)) ↔
      (inerr = false → ∀ m, f.Message crlf i m → m ≠ [] → m.length < rxbufSize)) := by
  have h : IsHttp ⟨[], indone, outdone⟩ ⟨crlf, inerr, outerr⟩ := ⟨rfl, rfl⟩
  refine ⟨receive_safe_iff (parses_request full) h fun m => requestLine_within hs,
    receive_safe_iff (parses_status full) h fun m => statusLine_within hs, ?_⟩
  have hfield := @receive_safe_iff s f i rx _ _ _ _ _ _ parses_field h fun m =>
    @fieldLine_within s m hs
  simp only [and_true] at hfield
  exact hfield

/-! ## Lines in a list -/

theorem holds_line (bs x : List UInt8) : (Suffix.line (bs ++ x)).Holds bs.length x := by
  induction x generalizing bs with
  | nil => trivial
  | cons b x ih =>
    refine ⟨by simp [Suffix.line], ?_⟩
    have hrest := ih (bs ++ [b])
    rw [List.append_assoc, List.length_append] at hrest
    exact hrest

theorem length_holds {bs x : List UInt8} (h : (Suffix.line bs).Holds i x) (hx : x ≠ []) :
    i + x.length ≤ bs.length := by
  induction x generalizing i with
  | nil => exact absurd rfl hx
  | cons b x ih =>
    obtain ⟨hb, hrest⟩ := h
    have hi : i < bs.length := by
      obtain ⟨c, hc, -⟩ := Option.map_eq_some_iff.mp hb
      exact (List.getElem?_eq_some_iff.mp hc).1
    rw [List.length_cons]
    cases x with
    | nil => exact hi
    | cons c x =>
      have hle := ih hrest (List.cons_ne_nil c x)
      omega

/-- Lines without a carriage return. -/
theorem free_of_notMem (h : 13 ∉ m) : Free crlf.bytes m := by
  intro k hk hocc
  apply h
  have hmem : (m ++ crlf.bytes).drop k = m.drop k ++ crlf.bytes :=
    List.drop_append_of_le_length (le_of_lt hk)
  unfold OccursAt at hocc
  rw [hmem, List.drop_eq_getElem_cons hk] at hocc
  have hhead : (13 : UInt8) = m[k] := (List.cons_prefix_cons.mp hocc).1
  rw [hhead]
  exact List.getElem_mem hk

/-- Buffers of one byte. -/
theorem sized_byte : Sized fun _ => [0] := ⟨fun _ => by decide, fun _ => by decide⟩

/-- An array of zeros. -/
def zeroed : Rxbuf := ⟨List.replicate rxbufSize 0, List.length_replicate⟩

theorem recv_safe_letter :
    Safe (Suffix.line [97, 13, 10]) 0 (fun _ => [0]) (fun n => recvrequest
      (Suffix.line [97, 13, 10]).bsock n false zeroed
      ((fun _ => [0]), ⟨[], false, false⟩, ⟨crlf, false, false⟩, 0)) := by
  refine (recv_safe_iff _ 0 _ _ sized_byte false false false false false).1.mpr ?_
  intro _ m hm _
  have hle := length_holds hm.1 (by simp [crlf])
  rw [List.length_append] at hle
  exact ⟨by change 0 + (m.length + 2) ≤ 3 at hle; unfold rxbufSize; omega, nofun⟩

/-- A line that is too long by one character. -/
def longLine : List UInt8 := List.replicate rxbufSize 97

theorem length_longLine : longLine.length = rxbufSize := List.length_replicate

/-- Behind it `rxbuf[1024]` is written. -/
theorem recv_overruns :
    ¬Safe (Suffix.line (longLine ++ [13, 10])) 0 (fun _ => [0]) (fun n => recvfield
      (Suffix.line (longLine ++ [13, 10])).bsock n zeroed
      ((fun _ => [0]), ⟨[], false, false⟩, ⟨crlf, false, false⟩, 0)) := by
  intro h
  have hfree : Free crlf.bytes longLine := by
    apply free_of_notMem
    intro hmem
    exact absurd (List.eq_of_mem_replicate hmem) (by decide)
  have hne : longLine ≠ [] := by
    intro hnil
    have hlen := length_longLine
    rw [hnil] at hlen
    cases hlen
  have hlen := (receive_safe_iff parses_field ⟨rfl, rfl⟩ fun m => @fieldLine_within _ m sized_byte).mp
    h rfl _ ⟨holds_line [] _, hfree⟩ hne
  rw [length_longLine] at hlen
  exact absurd hlen.1 (Nat.lt_irrefl _)

end Libdill.Http
