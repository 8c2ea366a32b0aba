import Libdill.Foundations.Answers
import Libdill.Foundations.Delimiter
import Libdill.Prefix.Peers
import Libdill.Suffix.Model

/-!
# The window of the SUFFIX receiver

* `mrecvl_cut`: a receive returns what comes before the leftmost occurrence of the delimiter in the
  stream, and leaves what comes behind it.
* `suffix_splits`: two SUFFIX peers over a lossless bytestream.
-/

namespace Libdill.Suffix

open Foundations Libdill.Sock

variable {σ : Type} {u : Bsock σ} {R : σ → List UInt8 → Prop} {v v' : σ} {self : SuffixSock}
  {t : Delim} {s p r w : List UInt8} {first : Elem} {next : List Elem} {n : ℕ} {c : Cursor}

/-! ## The element that is written -/

/-- Several characters are moved to the element. -/
def Cursor.puts (c : Cursor) (bs : List UInt8) : Cursor := bs.foldl (fun c b => c.put b) c

theorem puts_buf (w mem bs : List UInt8) :
    (Cursor.puts ⟨w, .buf mem⟩ bs).elem = .buf (w ++ bs.take mem.length ++ mem.drop bs.length) := by
  induction bs generalizing w mem with
  | nil => simp [Cursor.puts, Cursor.elem]
  | cons b bs ih =>
    cases mem with
    | nil =>
      have hput : Cursor.put b ⟨w, .buf []⟩ = ⟨w, .buf []⟩ := rfl
      have hrest := ih w []
      unfold Cursor.puts at hrest ⊢
      rw [List.foldl_cons, hput, hrest]
      simp
    | cons a mem =>
      have hput : Cursor.put b ⟨w, .buf (a :: mem)⟩ = ⟨w ++ [b], .buf mem⟩ := rfl
      have hrest := ih (w ++ [b]) mem
      unfold Cursor.puts at hrest ⊢
      rw [List.foldl_cons, hput, hrest]
      simp

theorem puts_null (w bs : List UInt8) (k : ℕ) :
    Cursor.puts ⟨w, .null k⟩ bs = ⟨w, .null k⟩ := by
  induction bs with
  | nil => rfl
  | cons b bs ih =>
    unfold Cursor.puts at ih ⊢
    rw [List.foldl_cons]
    exact ih

/-- What does not fit in the element is dropped. -/
theorem puts_elem (it : Elem) (bs : List UInt8) :
    (Cursor.puts ⟨[], it⟩ bs).elem = it.put (bs.take it.len) := by
  cases it with
  | null k =>
    rw [puts_null]
    rfl
  | buf mem =>
    rw [puts_buf]
    simp only [List.nil_append, Elem.put, Elem.len, List.length_take, Elem.buf.injEq]
    by_cases hle : bs.length ≤ mem.length
    · rw [Nat.min_eq_right hle]
    · rw [Nat.min_eq_left (by omega), List.drop_eq_nil_of_le (by omega), List.drop_length]

/-! ## The loop -/

theorem recv_run (hu : Yields u R) {bs rest : List UInt8} (hv : R v (bs ++ rest)) :
    ∃ v', recv u bs.length (self, v) = .ok (.ok bs, self, v') ∧ R v' rest := by
  obtain ⟨v', hread, hv'⟩ := hu v bs rest hv
  refine ⟨v', ?_, hv'⟩
  unfold recv
  simp only [hread]

theorem ignoreEmpty_iff : ignoreEmpty first next = true ↔ first.len ≠ 0 := by
  induction next with
  | nil => simp [ignoreEmpty]
  | cons it next ih =>
    rw [ignoreEmpty, Bool.or_eq_true, ih]
    simp

theorem scan_found (sz : ℕ) :
    scan u first next (n + 1) self.suffix.bytes c sz (self, v) = .ok (.ok (sz, c), self, v) := by
  unfold scan
  rw [Call.look_bind, if_pos rfl]
  rfl

/-- A turn in which the window moves on. -/
theorem scan_turn (hu : Yields u R) (hw : w ≠ self.suffix.bytes) (hfirst : first.len ≠ 0) {b : UInt8}
    (hv : R v (b :: s)) (sz : ℕ) :
    ∃ v', scan u first next (n + 1) w c sz (self, v)
        = scan u first next n (w.tail ++ [b]) (c.put (w.headD 0)) (sz + 1) (self, v') ∧ R v' s := by
  obtain ⟨v', hrecv, hv'⟩ := @recv_run _ _ _ _ self hu [b] s hv
  refine ⟨v', ?_, hv'⟩
  rw [scan, Call.look_bind, if_neg hw, if_pos (ignoreEmpty_iff.mpr hfirst)]
  exact Call.bind_ret hrecv

/-- The window and what comes behind it, after the stream has been moved on by one. -/
theorem window_next (ht : 0 < t.bytes.length) {b : UInt8} (hs : t.bytes.length ≤ s.length) :
    ∃ d, (b :: s).drop t.bytes.length = d :: s.drop t.bytes.length ∧
      ((b :: s).take t.bytes.length).tail ++ [d] = s.take t.bytes.length ∧
      ((b :: s).take t.bytes.length).headD 0 = b := by
  obtain ⟨k, hk⟩ : ∃ k, t.bytes.length = k + 1 := ⟨t.bytes.length - 1, by omega⟩
  rw [hk] at hs ⊢
  have hlt : k < s.length := by omega
  refine ⟨s[k], ?_, ?_, ?_⟩
  · rw [List.drop_succ_cons, List.drop_eq_getElem_cons hlt]
  · rw [List.take_succ_cons, List.tail_cons, List.take_append_getElem hlt]
  · rw [List.take_succ_cons]
    rfl

/-- **The loop.** It ends at the leftmost occurrence of the delimiter. -/
theorem scan_cut (hu : Yields u R) (h : CutAt self.suffix.bytes s p r)
    (hv : R v (s.drop self.suffix.bytes.length)) (hfirst : p ≠ [] → first.len ≠ 0)
    (hn : p.length < n) (sz : ℕ) :
    ∃ v', scan u first next n (s.take self.suffix.bytes.length) c sz (self, v)
      = .ok (.ok (sz + p.length, c.puts p), self, v') ∧ R v' r := by
  induction p generalizing s c sz n v with
  | nil =>
    obtain ⟨n, rfl⟩ : ∃ k, n = k + 1 := ⟨n - 1, by simp at hn; omega⟩
    have heq := h.eq
    rw [List.nil_append] at heq
    rw [heq, List.drop_left] at hv
    rw [heq, List.take_left]
    exact ⟨v, scan_found sz, hv⟩
  | cons b p ih =>
    rw [List.length_cons] at hn
    obtain ⟨n, rfl⟩ : ∃ k, n = k + 1 := ⟨n - 1, by omega⟩
    obtain ⟨s', rfl, hnot, htail⟩ := h.tail
    have hle : self.suffix.bytes.length ≤ s'.length := by
      rw [htail.eq]
      simp only [List.length_append]
      omega
    obtain ⟨d, hdrop, htake, hhead⟩ := window_next self.suffix.length_pos hle (b := b)
    have hw : (b :: s').take self.suffix.bytes.length ≠ self.suffix.bytes := by
      intro heq
      apply hnot
      rw [← heq]
      exact List.take_prefix _ _
    have hroom := hfirst (List.cons_ne_nil b p)
    rw [hdrop] at hv
    obtain ⟨v₁, hturn, hv₁⟩ := @scan_turn _ _ _ _ self _ _ first next n c hu hw hroom _ hv sz
    rw [htake, hhead] at hturn
    have hlt : p.length < n := by omega
    obtain ⟨v', hrun, hv'⟩ := ih htail hv₁ (fun _ => hroom) hlt (sz + 1)
    refine ⟨v', ?_, hv'⟩
    rw [hturn, hrun, List.length_cons, show sz + 1 + p.length = sz + (p.length + 1) by omega]
    rfl

/-! ## A receive -/

theorem mrecvl_open (hu : Yields u R) (hin : self.inerr = false) (hv : R v s)
    (h : self.suffix.bytes.length ≤ s.length) :
    ∃ v', mrecvl u n (first :: next) (self, v)
      = (scan u first next n (s.take self.suffix.bytes.length) ⟨[], first⟩ 0 >>= fun r =>
          pure (r.1, r.2.elem :: next)) (self, v') ∧ R v' (s.drop self.suffix.bytes.length) := by
  rw [← List.take_append_drop self.suffix.bytes.length s] at hv
  obtain ⟨v', hrecv, hv'⟩ := @recv_run _ _ _ _ self hu _ _ hv
  rw [List.length_take_of_le h] at hrecv
  refine ⟨v', ?_, hv'⟩
  unfold mrecvl
  rw [Call.look_bind]
  change (Call.require (self.inerr == false) Errno.ECONNRESET >>= _) (self, v) = _
  rw [hin, beq_self_eq_true, Call.bind_ret Call.require_true, Call.look_bind, Call.bind_ret hrecv]

theorem cutAt_length (h : CutAt self.suffix.bytes s p r) :
    self.suffix.bytes.length ≤ s.length := by
  rw [h.eq]
  simp only [List.length_append]
  omega

/-- **A receive.** The first element gets as much of the message as there is room for. -/
theorem mrecvl_cut (hu : Yields u R) (h : CutAt self.suffix.bytes s p r) (hv : R v s)
    (hin : self.inerr = false) (hfirst : p ≠ [] → first.len ≠ 0) (hn : p.length < n) :
    ∃ v', mrecvl u n (first :: next) (self, v)
      = .ok (.ok (p.length, first.put (p.take first.len) :: next), self, v') ∧ R v' r := by
  obtain ⟨v₁, hopen, hv₁⟩ := @mrecvl_open _ _ _ _ _ _ first next n hu hin hv (cutAt_length h)
  obtain ⟨v', hscan, hv'⟩ := @scan_cut _ _ _ _ self s p r first next n ⟨[], first⟩ hu h hv₁ hfirst
    hn 0
  refine ⟨v', ?_, hv'⟩
  rw [hopen, Call.bind_ret hscan, puts_elem, Nat.zero_add]
  rfl

/-- An empty first element is refused as soon as there is a byte to be stored. -/
theorem mrecvl_empty (hu : Yields u R) (hocc : ¬ OccursAt self.suffix.bytes s 0)
    (hle : self.suffix.bytes.length ≤ s.length) (hv : R v s) (hin : self.inerr = false)
    (hfirst : first.len = 0) :
    ∃ v', mrecvl u (n + 1) (first :: next) (self, v)
      = .ok (.error .EMSGSIZE, { self with inerr := true }, v') := by
  have hw : s.take self.suffix.bytes.length ≠ self.suffix.bytes := by
    intro heq
    apply hocc
    rw [occursAt_zero, ← heq]
    exact List.take_prefix _ _
  have hempty : ignoreEmpty first next = false := by
    rw [Bool.eq_false_iff]
    exact fun hne => ignoreEmpty_iff.mp hne hfirst
  obtain ⟨v', hopen, -⟩ := @mrecvl_open _ _ _ _ _ _ first next (n + 1) hu hin hv hle
  have hscan : scan u first next (n + 1) (s.take self.suffix.bytes.length) ⟨[], first⟩ 0 (self, v')
      = .ok (.error .EMSGSIZE, { self with inerr := true }, v') := by
    rw [scan, Call.look_bind, if_neg hw, hempty, if_neg Bool.false_ne_true]
    rfl
  exact ⟨v', by rw [hopen, Call.bind_fail hscan]⟩

/-- A message is refused when the first element is empty. -/
theorem mrecvl_refused (hu : Yields u R) (h : CutAt self.suffix.bytes s p r) (hv : R v s)
    (hin : self.inerr = false) (hfirst : first.len = 0) (hp : p ≠ []) :
    ∃ v', mrecvl u (n + 1) (first :: next) (self, v)
      = .ok (.error .EMSGSIZE, { self with inerr := true }, v') :=
  mrecvl_empty hu (h.leftmost 0 (List.length_pos_iff.mpr hp)) (cutAt_length h) hv hin hfirst

theorem recv_waits {k : ℕ} (h : s.length < k) :
    recv lossless k (self, s) = .error .waits := by
  have hread : brecv lossless k s = .error .waits := by
    unfold brecv lossless
    simp only [Bool.true_eq_false, if_false, List.sum_singleton]
    rw [if_neg (by omega)]
  unfold recv
  simp only [hread]

theorem scan_waits (h : ∀ k, ¬ OccursAt self.suffix.bytes s k) (hfirst : first.len ≠ 0)
    (hle : self.suffix.bytes.length ≤ s.length) (sz : ℕ) :
    scan lossless first next n (s.take self.suffix.bytes.length) c sz
      (self, s.drop self.suffix.bytes.length) = .error .waits := by
  have hpos := self.suffix.length_pos
  induction n generalizing s c sz with
  | zero => rfl
  | succ n ih =>
    have hw : s.take self.suffix.bytes.length ≠ self.suffix.bytes := by
      intro heq
      apply h 0
      rw [occursAt_zero, ← heq]
      exact List.take_prefix _ _
    cases s with
    | nil =>
      rw [List.length_nil] at hle
      omega
    | cons b s =>
      by_cases hlen : self.suffix.bytes.length ≤ s.length
      · obtain ⟨d, hdrop, htake, -⟩ := window_next hpos hlen (b := b)
        obtain ⟨v', hturn, rfl⟩ := @scan_turn _ _ _ _ self _ _ first next n c yields_lossless hw hfirst
          _ hdrop sz
        rw [hturn, htake]
        exact ih (fun k => h (k + 1)) hlen _
      · have hend : (b :: s).drop self.suffix.bytes.length = [] :=
          List.drop_eq_nil_of_le (by rw [List.length_cons]; omega)
        rw [scan, Call.look_bind, if_neg hw, if_pos (ignoreEmpty_iff.mpr hfirst), hend,
          Call.bind_stop (recv_waits (by simp))]

/-- A receive waits as long as the delimiter does not occur. -/
theorem mrecvl_waits (h : ∀ k, ¬ OccursAt self.suffix.bytes s k) (hin : self.inerr = false)
    (hfirst : first.len ≠ 0) :
    mrecvl lossless n (first :: next) (self, s) = .error .waits := by
  by_cases hle : self.suffix.bytes.length ≤ s.length
  · obtain ⟨v', hopen, rfl⟩ := @mrecvl_open _ _ _ _ _ _ first next n yields_lossless hin rfl hle
    rw [hopen, Call.bind_stop (scan_waits h hfirst hle 0)]
  · unfold mrecvl
    rw [Call.look_bind]
    change (Call.require (self.inerr == false) Errno.ECONNRESET >>= _) (self, s) = _
    have hwait : recv lossless self.suffix.bytes.length (self, s) = .error .waits :=
      recv_waits (by omega)
    rw [hin, beq_self_eq_true, Call.bind_ret Call.require_true, Call.look_bind,
      Call.bind_stop hwait]

/-- A send passes the message and the delimiter to the bytestream. -/
theorem msendl_run {σ : Type} {u : Bsock σ} {s s' : σ} {m : List (List UInt8)} (hm : m ≠ [])
    (hout : self.outerr = false) (h : bsendl u (m ++ [self.suffix.bytes]) s = .ok (.ok (), s')) :
    msendl u m (self, s) = .ok (.ok (), self, s') := by
  have hne : m.isEmpty = false := by simpa using hm
  unfold msendl
  simp only [hout, hne, h, Bool.false_eq_true, if_false]

theorem msendl_lossless {m : List (List UInt8)} (hm : m ≠ []) (hout : self.outerr = false) :
    msendl lossless m (self, s) = .ok (.ok (), self, s ++ (m.flatten ++ self.suffix.bytes)) := by
  have hsend := @bsendl_lossless (m ++ [self.suffix.bytes]) (by simp) s
  rw [List.flatten_append, List.flatten_singleton] at hsend
  exact msendl_run hm hout hsend

/-! ## Two peers -/

/-- The calls of the two sides. A receive is into a single buffer, and looks at up to `n`
characters. -/
inductive Op
  | msendl (m : Prefix.Iolist)
  | mrecv (n : ℕ) (mem : List UInt8)

/-- What a call returns, a receive with the buffer. -/
inductive Out
  | sent (r : Except Errno Unit)
  | received (r : Except Errno (ℕ × List Elem))
  | fault

/-- The two sockets and the bytes between them. -/
structure Net where
  sender : SuffixSock
  receiver : SuffixSock
  wire : List UInt8

/-- One call. A call that waits has no result yet. -/
def Net.step (n : Net) : Op → Option (Net × Out)
  | .msendl m =>
    match msendl lossless m.bufs (n.sender, n.wire) with
    | .error .waits => none
    | .error .fault => some (n, .fault)
    | .ok (r, sender, wire) => some ({ n with sender := sender, wire := wire }, .sent r)
  | .mrecv k mem =>
    match mrecvl lossless k [.buf mem] (n.receiver, n.wire) with
    | .error .waits => none
    | .error .fault => some (n, .fault)
    | .ok (r, receiver, wire) => some ({ n with receiver := receiver, wire := wire }, .received r)

/-- The pair with the bytes `wire` between the sockets. -/
def Delim.net (t : Delim) (wire : List UInt8) : Net := ⟨t.attach, t.attach, wire⟩

/-- A call has room for the message: its buffer is not empty and at least as large. -/
structure Room (m : List UInt8) (n : ℕ) (mem : List UInt8) : Prop where
  nonempty : mem ≠ []
  size : m.length ≤ mem.length
  turns : m.length < n

instance (m : List UInt8) (n : ℕ) (mem : List UInt8) : Decidable (Room m n mem) :=
  decidable_of_iff (mem ≠ [] ∧ m.length ≤ mem.length ∧ m.length < n)
    ⟨fun h => ⟨h.1, h.2.1, h.2.2⟩, fun h => ⟨h.1, h.2, h.3⟩⟩

/-- A message of which the receiver has a copy at the front of its buffer. -/
def Out.message (m mem : List UInt8) : Out :=
  .received (.ok (m.length, [.buf (m ++ mem.drop m.length)]))

theorem step_mrecv (h : CutAt t.bytes s p r) {mem : List UInt8} (hroom : Room p n mem) :
    (t.net s).step (.mrecv n mem) = some (t.net r, .message p mem) := by
  have hmem : (Elem.buf mem).len ≠ 0 := fun h0 =>
    hroom.nonempty (List.length_eq_zero_iff.mp h0)
  have htake : p.take (Elem.buf mem).len = p := List.take_of_length_le hroom.size
  obtain ⟨v', hcut, rfl⟩ := @mrecvl_cut _ _ _ _ t.attach _ _ _ (.buf mem) [] n yields_lossless h
    rfl rfl (fun _ => hmem) hroom.turns
  rw [htake] at hcut
  unfold Net.step Delim.net
  simp only [hcut]
  rfl

theorem step_msendl (t : Delim) (m : Prefix.Iolist) (s : List UInt8) :
    (t.net s).step (.msendl m) = some (t.net (s ++ (m.bytes ++ t.bytes)), .sent (.ok ())) := by
  have hsend : msendl lossless m.bufs (t.attach, s) = _ := msendl_lossless m.bufs_ne rfl
  unfold Net.step Delim.net
  simp only [hsend]
  rfl

/-! ## The queue -/

/-- One call on a queue of messages in which, followed by the delimiter, the delimiter does not occur
before their end. -/
def queueStep (t : Delim) (q : List (List UInt8)) : Op → Option (List (List UInt8) × Out)
  | .msendl m =>
    if Free t.bytes m.bytes then some (q ++ [m.bytes], .sent (.ok ())) else none
  | .mrecv n mem =>
    match q with
    | [] => none
    | m :: q => if Room m n mem then some (q, .message m mem) else none

/-- The messages of a queue, each with its delimiter. -/
def wireOf (t : Delim) (q : List (List UInt8)) : List UInt8 := q.flatMap (· ++ t.bytes)

/-- The wire holds the messages that wait. -/
structure Stands (t : Delim) (n : Net) (q : List (List UInt8)) : Prop where
  net : n = t.net (wireOf t q)
  free : ∀ m ∈ q, Free t.bytes m

theorem Stands.step {n : Net} {q q' : List (List UInt8)} {op : Op} {o : Out} (h : Stands t n q)
    (hq : queueStep t q op = some (q', o)) : ∃ n', n.step op = some (n', o) ∧ Stands t n' q' := by
  obtain ⟨rfl, hfree⟩ := h
  cases op with
  | msendl m =>
    simp only [queueStep] at hq
    split at hq
    · rename_i hm
      cases hq
      refine ⟨_, step_msendl t m _, ?_, ?_⟩
      · unfold wireOf
        rw [List.flatMap_append, List.flatMap_singleton]
      · intro m' hm'
        rcases List.mem_append.mp hm' with hm' | hm'
        · exact hfree m' hm'
        · rw [List.mem_singleton.mp hm']
          exact hm
    · cases hq
  | mrecv k mem =>
    cases q with
    | nil => cases hq
    | cons m q =>
      obtain ⟨hm, hfree⟩ := List.forall_mem_cons.mp hfree
      simp only [queueStep] at hq
      split at hq
      · rename_i hroom
        cases hq
        refine ⟨_, step_mrecv (r := wireOf t q') ?_ hroom, rfl, hfree⟩
        unfold wireOf
        rw [List.flatMap_cons]
        exact cutAt_append hm _
      · cases hq

/-! ## Decoding -/

/-- What two peers guarantee. -/
structure Splits (t : Delim) : Prop where
  /-- On any stream, receives into buffers with enough room return the pieces that come from cutting
  it repeatedly at the leftmost occurrence of the delimiter, and consume these and their
  delimiters. -/
  pieces : ∀ (s : List UInt8) (ps : List (List UInt8)) (r : List UInt8)
    (calls : List (ℕ × List UInt8)), Cuts t.bytes s ps r →
    List.Forall₂ (fun p c => Room p c.1 c.2) ps calls →
    answers Net.step (t.net s) (calls.map fun c => .mrecv c.1 c.2)
      = some (t.net r, List.zipWith (fun p c => .message p c.2) ps calls)
  /-- When the delimiter does not occur any more, a receive waits. -/
  waits : ∀ (s : List UInt8) (n : ℕ) (mem : List UInt8), mem ≠ [] →
    (∀ k, ¬ OccursAt t.bytes s k) → (t.net s).step (.mrecv n mem) = none
  /-- For messages that are free of the delimiter every run of the queue is a run of the pair with
  the same results, and the wire holds exactly the messages not yet received. -/
  identity : ∀ (ops : List Op) (q : List (List UInt8)) (outs : List Out),
    answers (queueStep t) [] ops = some (q, outs) →
    answers Net.step (t.net []) ops = some (t.net (wireOf t q), outs)

theorem answers_cuts {ps : List (List UInt8)} {calls : List (ℕ × List UInt8)}
    (h : Cuts t.bytes s ps r) (hroom : List.Forall₂ (fun p c => Room p c.1 c.2) ps calls) :
    answers Net.step (t.net s) (calls.map fun c => .mrecv c.1 c.2)
      = some (t.net r, List.zipWith (fun p c => .message p c.2) ps calls) := by
  induction h generalizing calls with
  | nil s =>
    cases hroom
    rfl
  | cons hcut _ ih =>
    cases hroom with
    | cons hp hps => exact answers_cons (step_mrecv hcut hp) (ih hps)

/-- **Splitting at the delimiter.** -/
theorem suffix_splits (t : Delim) : Splits t where
  pieces := fun _ _ _ _ h hroom => answers_cuts h hroom
  waits := by
    intro s n mem hmem h
    have hlen : (Elem.buf mem).len ≠ 0 := fun h0 => hmem (List.length_eq_zero_iff.mp h0)
    have hwait : mrecvl lossless n [.buf mem] (t.attach, s) = .error .waits :=
      mrecvl_waits h rfl hlen
    unfold Net.step Delim.net
    simp only [hwait]
  identity := by
    intro ops q outs hq
    have hstart : Stands t (t.net []) [] := ⟨rfl, fun _ h => absurd h List.not_mem_nil⟩
    obtain ⟨n, hn, hs⟩ := answers_sim (fun _ _ _ _ _ h hq => h.step hq) hstart hq
    rw [hn, hs.net]

/-- A delimiter that overlaps itself: the stream "aaab" is cut at "aab" behind the first letter. -/
example : CutAt [97, 97, 98] [97, 97, 97, 98] [97] ([] : List UInt8) :=
  cutAt_append (t := [97, 97, 98]) (m := [97]) (by decide) []

end Libdill.Suffix
