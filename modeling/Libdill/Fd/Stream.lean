import Libdill.Fd.Recv
import Libdill.Fd.ScatterRecv
import Libdill.Sock.Iolist
import Mathlib.Data.List.TakeWhile

/-!
# A connection as a bytestream

`dill_fd_recv` from its beginning to its end, while what the peer has sent arrives in pieces of any
size, on tcp connections, which have a receive buffer, and on ipc connections, which have none.

* `conn`: the receiving side of a connection, with the loop over the elements that runs off the end
  of an iolist which does not end in `last`, and the kernel that takes a number of buffers at once.
* `Loose`, `Refused`: the receives that run off the end, and those that the kernel refuses.
* `work_run`: the loop of system calls, however the bytes arrive.
-/

namespace Libdill.Fd

open Libdill.Sock

/-! ## The receiving side -/

/-- The kind of a connection. -/
inductive Link
  | tcp
  | ipc
  deriving DecidableEq

/-- Whether it has a receive buffer. -/
def Link.hasBuffer : Link → Bool
  | .tcp => true
  | .ipc => false

/-- A connection with its receive buffer, and what the kernel will hand out. An empty piece is an
attempt to read at which there is nothing to be read. -/
structure Conn where
  rx : Option RxBuf
  pieces : List (List UInt8)

/-- The number of bytes a system call asks for. -/
def Job.room : Job → ℕ
  | .direct iov _ => iov.sum
  | .buffered _ => bufsize

/-- The kernel hands out the next piece, or as much of it as there is room for. -/
def handOut (room : ℕ) : List (List UInt8) → Option (RecvAns × List (List UInt8))
  | [] => none
  | c :: cs =>
    if c = [] then some (.again, cs)
    else if c.length ≤ room then some (.data c, cs)
    else some (.data (c.take room), c.drop room :: cs)

/-- System calls, at most `n` of them, until the receive returns; `got` is what it has stored. There
is no result if it waits forever. -/
def work : ℕ → List UInt8 → List UInt8 × Option RxBuf × Outcome → List (List UInt8) →
    Option (Except Errno (List UInt8) × Conn)
  | 0, _, _, _ => none
  | n + 1, got, (bs, rx, o), cs =>
    match o with
    | .done => some (.ok (got ++ bs), ⟨rx, cs⟩)
    | .failed e => some (.error e, ⟨rx, cs⟩)
    | .syscall j | .wait j =>
      match handOut j.room cs with
      | none => none
      | some (a, cs) => work n (got ++ bs) (turn rx j a) cs

/-- More system calls than are made before everything has been handed out. -/
def Conn.turns (s : Conn) : ℕ := (s.pieces.map fun c => c.length + 1).sum + 1

/-- What is in the receive buffer is used up: the bytes that are stored, the buffer, and what is left
of the elements. -/
def drained (rx : Option RxBuf) (first : List ℕ) : List UInt8 × Option RxBuf × List ℕ :=
  match rx with
  | none => ([], none, first)
  | some rx =>
    let r := rx.fill first
    (r.1, some r.2.1, r.2.2)

/-- The buffers of the elements of an iolist, when they have the lengths `lens`. Where the bytes go
does not matter here; elements of no iolist are not null. -/
def slots : List Elem → List ℕ → List Scatter.Buf
  | _, [] => []
  | .null _ :: first, len :: lens => (none, len) :: slots first lens
  | first, len :: lens => (some 0, len) :: slots first.tail lens

/-- The buffers that are missing when there have been `k` bytes in the receive buffer, if there is
one. -/
def missing (buffered : Bool) (l : List Scatter.Buf) (k : ℕ) : List Scatter.Buf :=
  if buffered then Scatter.cut l k else l

/-- The lengths of the buffers that an action receives into; what is skipped goes into a buffer of
`dill_fd_skip`. -/
def Scatter.Action.lens : Scatter.Action → List ℕ
  | .skip len => [len]
  | .recv iov => iov.map Prod.snd

/-- The actions of the direct receive, one after the other; `got` is what has been stored. The kernel
refuses more than `max` buffers, and a list that does not end in `last` is left behind its end. -/
def directly (max : ℕ) (ends : Bool) : List Scatter.Action → List UInt8 → Conn →
    Option (Except Errno (List UInt8) × Conn)
  | [], got, s => if ends then some (.ok got, s) else none
  | a :: acts, got, s =>
    if max < a.lens.length then some (.error .EMSGSIZE, s)
    else
      match work s.turns [] ([], s.rx, .syscall (.direct a.lens [])) s.pieces with
      | some (.ok bs, s) => directly max ends acts (got ++ bs) s
      | r => r

/-- The bytestream. What is sent goes somewhere else. A receive into the first elements of `first`
that runs off the end of the list does not return. -/
def conn (max : ℕ+) (first : List Elem) : Bsock Conn where
  bsendl s _ := (.ok (), s)
  brecvl s lens ends :=
    let r := drained s.rx lens
    let rem := r.2.2
    if rem.isEmpty then some (.ok r.1, ⟨r.2.1, s.pieces⟩)
    else if s.rx.isNone ∨ bufsize < rem.sum then
      -- The last one of the elements is the local copy if it is the only one.
      let ends := ends || decide (rem.length ≤ 1)
      let l := missing s.rx.isSome (slots first lens) r.1.length
      directly max ends (Scatter.plan ends [] l) r.1 ⟨r.2.1, s.pieces⟩
    else work s.turns r.1 ([], r.2.1, .syscall (.buffered rem)) s.pieces

/-- A connection on which the bytes `x` can be received. -/
structure Conn.Holds (link : Link) (s : Conn) (x : List UInt8) : Prop where
  buffer : s.rx.isSome = link.hasBuffer
  filled : Filled s.rx
  small : (unread s.rx).length ≤ bufsize
  bytes : unread s.rx ++ s.pieces.flatten = x

/-- The most bytes that are in the receive buffer when a receive has taken one from it. -/
def Link.ahead : Link → ℕ
  | .tcp => bufsize - 1
  | .ipc => 0

/-! ## Failures -/

/-- A receive of `k` bytes does not use the receive buffer when nothing is in it. -/
def Link.Direct (link : Link) (k : ℕ) : Prop := link = .ipc ∨ bufsize < k

/-- The elements that a direct receive begins with when nothing is in the receive buffer: the empty
ones at the front have been filled from it. -/
def Link.behind (link : Link) (lens : List ℕ) : List ℕ :=
  match link with
  | .tcp => lens.dropWhile (· == 0)
  | .ipc => lens

/-- The elements with which an iolist runs off its end when nothing is in the receive buffer: the
loop over the elements looks for `last` if there is more than one, and does not find it. -/
structure Loose (link : Link) (lens : List ℕ) (ends : Bool) : Prop where
  ends : ends = false
  direct : link.Direct lens.sum
  length : 1 < (link.behind lens).length

/-- The kernel refuses a receive into the buffers `l` when `u` bytes are in the receive buffer: it is
direct, and too many buffers stand together in the part of the list that the loop comes to. -/
structure Refused (link : Link) (max : ℕ) (ends : Bool) (l : List Scatter.Buf) (u : ℕ) : Prop where
  direct : link.Direct ((l.map Prod.snd).sum - u)
  crowded : Scatter.Crowded max (Scatter.reached ends (missing link.hasBuffer l u))

/-! ## What is left to be received -/

/-- The bytes that are still missing. -/
def Outcome.left : Outcome → ℕ
  | .done => 0
  | .failed _ => 0
  | .syscall (.direct iov rest) | .wait (.direct iov rest) => iov.sum + rest.sum
  | .syscall (.buffered rem) | .wait (.buffered rem) => rem.sum

/-- A job that can be done: there is room in the array, or in the first element. -/
def Job.Open : Job → Prop
  | .direct iov _ => iov ≠ [] ∧ ∀ n ∈ iov, 0 < n
  | .buffered rem => 0 < rem.headD 0

/-- Neither a failure nor a job that cannot be done. -/
def Outcome.Open : Outcome → Prop
  | .done => True
  | .failed _ => False
  | .syscall j | .wait j => j.Open

/-- A job that does not use the receive buffer. -/
def Job.Unbuffered : Job → Prop
  | .direct _ _ => True
  | .buffered _ => False

/-- The same of what is still to be done. -/
def Outcome.Unbuffered : Outcome → Prop
  | .syscall j | .wait j => j.Unbuffered
  | _ => True

variable {rx : RxBuf} {n k : ℕ} {l iov rest rem : List ℕ} {j : Job} {a : RecvAns}
  {cs : List (List UInt8)}

theorem le_sum_of_headD : rem.headD 0 ≤ rem.sum := by
  cases rem with
  | nil => exact Nat.zero_le _
  | cons n rem =>
    rw [List.headD_cons, List.sum_cons]
    omega

theorem sum_pos_of_open (hne : iov ≠ []) (h : ∀ n ∈ iov, 0 < n) : 0 < iov.sum := by
  obtain ⟨n, iov, rfl⟩ := List.exists_cons_of_ne_nil hne
  have hn := h n List.mem_cons_self
  rw [List.sum_cons]
  omega

theorem copy_length_le (h : rx.Filled) (n : ℕ) : (rx.copy n).1.length ≤ n := by
  rw [(rx.copy_spec h n).1, List.length_take]
  omega

/-- The loop over the receive buffer stops at an element with room. -/
theorem fill_left (h : rx.Filled) (l : List ℕ) :
    (rx.fill l).1.length + (rx.fill l).2.2.sum = l.sum ∧
      ((rx.fill l).2.2 ≠ [] → 0 < (rx.fill l).2.2.headD 0) := by
  induction l generalizing rx with
  | nil => exact ⟨rfl, fun hne => absurd rfl hne⟩
  | cons n l ih =>
    obtain ⟨-, -, hfilled⟩ := rx.copy_spec h n
    have hle := copy_length_le h n
    unfold RxBuf.fill
    simp only
    split
    · rename_i hlt
      refine ⟨?_, fun _ => ?_⟩
      · simp only [List.sum_cons]
        omega
      · rw [List.headD_cons]
        omega
    · obtain ⟨hsum, hopen⟩ := ih hfilled
      refine ⟨?_, hopen⟩
      change ((rx.copy n).1 ++ _).length + ((rx.copy n).2.fill l).2.2.sum = _
      rw [List.length_append, List.sum_cons]
      omega

theorem dropWhile_zero_sum (l : List ℕ) : (l.dropWhile (· == 0)).sum = l.sum := by
  induction l with
  | nil => rfl
  | cons n l ih =>
    by_cases hn : n = 0
    · rw [hn, List.dropWhile_cons_of_pos (by rfl), ih, List.sum_cons, Nat.zero_add]
    · rw [List.dropWhile_cons_of_neg (by simpa using hn)]

theorem segment_left (rest : List ℕ) : (segment rest).left = rest.sum := by
  have hsum := dropWhile_zero_sum rest
  unfold segment
  simp only
  split
  · rename_i hnil
    rw [List.isEmpty_iff.mp hnil] at hsum
    exact hsum
  · change (List.takeWhile _ _).sum + (List.dropWhile _ _).sum = _
    rw [← List.sum_append, List.takeWhile_append_dropWhile, hsum]

theorem segment_open (rest : List ℕ) : (segment rest).Open := by
  unfold segment
  simp only
  split
  · trivial
  · rename_i hne
    obtain ⟨n, l, hl⟩ := List.exists_cons_of_ne_nil
      (show rest.dropWhile (· == 0) ≠ [] by simpa using hne)
    have hn : n ≠ 0 := by
      have hhead := List.head_dropWhile_not (· == 0)
        (show rest.dropWhile (· == 0) ≠ [] by simpa using hne)
      simp only [hl, List.head_cons, beq_eq_false_iff_ne] at hhead
      exact hhead
    refine ⟨?_, fun k hk => ?_⟩
    · rw [hl, List.takeWhile_cons_of_pos (by simpa using hn)]
      exact List.cons_ne_nil _ _
    · have hk := List.mem_takeWhile_imp hk
      simp only [bne_iff_ne, ne_eq] at hk
      omega

/-- Elements with room that have been filled in part. -/
theorem consume_left (h : ∀ n ∈ iov, 0 < n) (hk : k ≤ iov.sum) :
    (consume iov k).sum + k = iov.sum ∧ ∀ n ∈ consume iov k, 0 < n := by
  induction iov generalizing k with
  | nil =>
    rw [List.sum_nil] at hk
    exact ⟨by rw [consume, List.sum_nil]; omega, h⟩
  | cons n iov ih =>
    obtain ⟨hn, hiov⟩ := List.forall_mem_cons.mp h
    rw [List.sum_cons] at hk ⊢
    unfold consume
    split
    · rename_i hzero
      exact ⟨by rw [List.sum_cons]; omega, h⟩
    · split
      · rename_i hlt
        refine ⟨by rw [List.sum_cons]; omega, ?_⟩
        exact List.forall_mem_cons.mpr ⟨by omega, hiov⟩
      · rename_i hge
        obtain ⟨hsum, hopen⟩ := ih hiov (show k - n ≤ iov.sum by omega)
        exact ⟨by omega, hopen⟩

/-- The bytes a system call has brought are stored, or the job has been done. -/
theorem turn_left (hj : j.Open) (ha : a = .again ∨ ∃ bs, a = .data bs ∧ bs.length ≤ j.room)
    (rx : Option RxBuf) :
    (turn rx j a).1.length + (turn rx j a).2.2.left = (Outcome.syscall j).left ∧
      (turn rx j a).2.2.Open := by
  cases j with
  | direct iov rest =>
    obtain ⟨hne, hpos⟩ := hj
    rcases ha with rfl | ⟨bs, rfl, hle⟩
    · exact ⟨Nat.zero_add _, hne, hpos⟩
    · obtain ⟨hsum, hopen⟩ := consume_left hpos hle
      unfold turn
      simp only
      split
      · rename_i hnil
        rw [List.isEmpty_iff.mp hnil, List.sum_nil] at hsum
        rw [segment_left]
        refine ⟨?_, segment_open rest⟩
        change _ = iov.sum + rest.sum
        omega
      · rename_i hcons
        refine ⟨?_, by simpa using hcons, hopen⟩
        change bs.length + ((consume iov bs.length).sum + rest.sum) = iov.sum + rest.sum
        omega
  | buffered rem =>
    have hgot : ∀ bs : List UInt8,
        ((RxBuf.mk bs.length 0 (some bs)).fill rem).1.length
          + (if ((RxBuf.mk bs.length 0 (some bs)).fill rem).2.2.isEmpty then Outcome.done
            else .wait (.buffered ((RxBuf.mk bs.length 0 (some bs)).fill rem).2.2)).left = rem.sum ∧
        (if ((RxBuf.mk bs.length 0 (some bs)).fill rem).2.2.isEmpty then Outcome.done
          else .wait (.buffered ((RxBuf.mk bs.length 0 (some bs)).fill rem).2.2)).Open := by
      intro bs
      have hfull : (RxBuf.mk bs.length 0 (some bs)).Filled := le_refl _
      obtain ⟨hsum, hopen⟩ := fill_left hfull rem
      split
      · rename_i hnil
        rw [List.isEmpty_iff.mp hnil] at hsum
        exact ⟨hsum, trivial⟩
      · rename_i hne
        exact ⟨hsum, hopen (by simpa using hne)⟩
    rcases ha with rfl | ⟨bs, rfl, -⟩
    · exact hgot []
    · exact hgot bs

theorem left_pos (hj : j.Open) : 0 < (Outcome.syscall j).left := by
  cases j with
  | direct iov rest =>
    have hpos := sum_pos_of_open hj.1 hj.2
    change 0 < iov.sum + rest.sum
    omega
  | buffered rem => exact lt_of_lt_of_le hj le_sum_of_headD

theorem room_pos (hj : j.Open) : 0 < j.room := by
  cases j with
  | direct iov rest => exact sum_pos_of_open hj.1 hj.2
  | buffered rem => exact (by decide : 0 < bufsize)

/-! ## Running to the end -/

/-- What the kernel hands out comes off the front. -/
theorem handOut_spec {room : ℕ} (hroom : 0 < room) (hcs : cs ≠ []) :
    ∃ a cs', handOut room cs = some (a, cs') ∧ a.bytes ++ cs'.flatten = cs.flatten ∧
      (a = .again ∨ ∃ bs, a = .data bs ∧ bs.length ≤ room) ∧
      (cs'.map fun c => c.length + 1).sum < (cs.map fun c => c.length + 1).sum := by
  obtain ⟨c, cs, rfl⟩ := List.exists_cons_of_ne_nil hcs
  simp only [handOut]
  by_cases hnil : c = []
  · refine ⟨.again, cs, by rw [if_pos hnil], ?_, .inl rfl, ?_⟩
    · rw [hnil]
      rfl
    · rw [List.map_cons, List.sum_cons]
      omega
  · by_cases hle : c.length ≤ room
    · refine ⟨.data c, cs, by rw [if_neg hnil, if_pos hle], rfl, .inr ⟨c, rfl, hle⟩, ?_⟩
      rw [List.map_cons, List.sum_cons]
      omega
    · refine ⟨.data (c.take room), c.drop room :: cs, by rw [if_neg hnil, if_neg hle], ?_,
        .inr ⟨_, rfl, ?_⟩, ?_⟩
      · change c.take room ++ (c.drop room ++ cs.flatten) = c ++ cs.flatten
        rw [← List.append_assoc, List.take_append_drop]
      · rw [List.length_take]
        omega
      · rw [List.map_cons, List.map_cons, List.sum_cons, List.sum_cons, List.length_drop]
        omega

theorem segment_unbuffered (rest : List ℕ) : (segment rest).Unbuffered := by
  unfold segment
  simp only
  split <;> trivial

/-- Without the receive buffer it stays as it is. -/
theorem turn_unbuffered (hj : j.Unbuffered) (rx : Option RxBuf) (a : RecvAns) :
    (turn rx j a).2.1 = rx ∧ (turn rx j a).2.2.Unbuffered := by
  cases j with
  | buffered rem => exact hj.elim
  | direct iov rest =>
    cases a with
    | data bs =>
      refine ⟨rfl, ?_⟩
      unfold turn
      simp only
      split
      · exact segment_unbuffered rest
      · exact hj
    | _ => exact ⟨rfl, trivial⟩

theorem turn_isSome (rx : RxBuf) (j : Job) (a : RecvAns) :
    (turn (some rx) j a).2.1.isSome = true := by
  cases j <;> cases a <;> rfl

/-- Of the bytes that the kernel has handed out some have been stored, so the others leave room in
the receive buffer. -/
theorem turn_small {rx : Option RxBuf} (hu : unread rx = [])
    (hbytes : a.bytes = (turn rx j a).1 ++ unread (turn rx j a).2.1)
    (ha : a = .again ∨ ∃ bs, a = .data bs ∧ bs.length ≤ j.room)
    (hpos : 0 < (turn rx j a).1.length) :
    (unread (turn rx j a).2.1).length < bufsize := by
  cases j with
  | direct iov rest =>
    rw [(turn_unbuffered (j := .direct iov rest) trivial rx a).1, hu]
    exact (by decide : 0 < bufsize)
  | buffered rem =>
    have hle : a.bytes.length ≤ bufsize := by
      rcases ha with rfl | ⟨bs, rfl, hle⟩
      · exact Nat.zero_le _
      · exact hle
    have hsum := congrArg List.length hbytes
    rw [List.length_append] at hsum
    omega

/-- How a run of system calls ends: the bytes that were asked for are stored. -/
structure Ran (rx : Option RxBuf) (o : Outcome) (x : List UInt8) (s : Conn) : Prop where
  filled : Filled s.rx
  bytes : unread s.rx ++ s.pieces.flatten = x.drop o.left
  buffer : s.rx.isSome = rx.isSome
  same : o.Unbuffered → s.rx = rx
  still : o.left = 0 → s.rx = rx
  small : 0 < o.left → (unread s.rx).length < bufsize

/-- **The loop of system calls** ends when there are enough bytes. -/
theorem work_run {rx : Option RxBuf} {got bs : List UInt8} {o : Outcome} (hf : Filled rx)
    (hopen : o.Open) (hdry : o.Drained rx) (hrx : rx = none → o.Unbuffered)
    (hle : o.left ≤ (unread rx ++ cs.flatten).length)
    (hn : (cs.map fun c => c.length + 1).sum < n) :
    ∃ s, work n got (bs, rx, o) cs
        = some (.ok (got ++ bs ++ (unread rx ++ cs.flatten).take o.left), s) ∧
      Ran rx o (unread rx ++ cs.flatten) s := by
  induction n generalizing got bs rx o cs with
  | zero => omega
  | succ n ih =>
    have hjob : ∀ j : Job, j.Open → (rx = none → j.Unbuffered) → unread rx = [] →
        (Outcome.syscall j).left ≤ (unread rx ++ cs.flatten).length → ∃ s,
          ((handOut j.room cs).bind fun r => work n (got ++ bs) (turn rx j r.1) r.2)
            = some (.ok (got ++ bs ++ (unread rx ++ cs.flatten).take (Outcome.syscall j).left), s) ∧
          Ran rx (.syscall j) (unread rx ++ cs.flatten) s := by
      intro j hj hkind hunread hle
      rw [hunread, List.nil_append] at hle ⊢
      have hpos := left_pos hj
      have hcs : cs ≠ [] := by
        rintro rfl
        rw [List.flatten_nil, List.length_nil] at hle
        omega
      obtain ⟨a, cs', hhand, hbytes, ha, hlt⟩ := handOut_spec (room_pos hj) hcs
      obtain ⟨hleft, hopen'⟩ := turn_left hj ha rx
      have hmoves : Moves rx a.bytes (turn rx j a) := turn_spec hf hunread
      have hmv := hmoves.bytes
      rw [hunread, List.nil_append] at hmv
      have hbuffer : (turn rx j a).2.1.isSome = rx.isSome := by
        cases rx with
        | none => rw [(turn_unbuffered (hkind rfl) none a).1]
        | some rx => exact turn_isSome rx j a
      have hkind' : (turn rx j a).2.1 = none → (turn rx j a).2.2.Unbuffered := by
        intro hnone
        rw [hnone] at hbuffer
        have hrx : rx = none := Option.not_isSome_iff_eq_none.mp (by rw [← hbuffer]; decide)
        exact (turn_unbuffered (hkind hrx) rx a).2
      have hsplit : cs.flatten
          = (turn rx j a).1 ++ (unread (turn rx j a).2.1 ++ cs'.flatten) := by
        rw [← hbytes, hmv, List.append_assoc]
      have hlen : cs.flatten.length
          = (turn rx j a).1.length + (unread (turn rx j a).2.1 ++ cs'.flatten).length := by
        conv_lhs => rw [hsplit, List.length_append]
      obtain ⟨s, hwork, hran⟩ := @ih cs' (turn rx j a).2.1 (got ++ bs) (turn rx j a).1
        (turn rx j a).2.2 hmoves.filled hopen' hmoves.drained hkind' (by omega) (by omega)
      refine ⟨s, ?_, hran.filled, ?_, hran.buffer.trans hbuffer, fun hu => ?_,
        fun hzero => absurd hzero hpos.ne', fun _ => ?_⟩
      · rw [hhand, Option.bind_some, hwork, ← hleft, hsplit, List.take_length_add_append]
        simp only [List.append_assoc]
      · rw [hran.bytes, ← hleft, hsplit, List.drop_length_add_append]
      · obtain ⟨hsame, hu'⟩ := turn_unbuffered (show j.Unbuffered from hu) rx a
        exact (hran.same hu').trans hsame
      · rcases (turn rx j a).2.2.left.eq_zero_or_pos with hzero | hmore
        · rw [hran.still hzero]
          exact turn_small hunread hmv ha (by omega)
        · exact hran.small hmore
    cases o with
    | done =>
      refine ⟨⟨rx, cs⟩, ?_, hf, rfl, rfl, fun _ => rfl, fun _ => rfl,
        fun hno => absurd hno (lt_irrefl 0)⟩
      rw [Outcome.left, List.take_zero, List.append_nil]
      rfl
    | failed e => exact hopen.elim
    | syscall j =>
      obtain ⟨s, hwork, hran⟩ := hjob j hopen hrx hdry hle
      refine ⟨s, ?_, hran⟩
      rw [← hwork, work]
      cases handOut j.room cs <;> rfl
    | wait j =>
      have hsame : (Outcome.wait j).left = (Outcome.syscall j).left := by cases j <;> rfl
      obtain ⟨s, hwork, hran⟩ := hjob j hopen hrx hdry (by rw [← hsame]; exact hle)
      rw [hsame]
      refine ⟨s, ?_, hran.filled, by rw [hsame]; exact hran.bytes, hran.buffer, hran.same,
        by rw [hsame]; exact hran.still, by rw [hsame]; exact hran.small⟩
      rw [← hwork, work]
      cases handOut j.room cs <;> rfl

end Libdill.Fd
