import Libdill.Http.Safety
import Libdill.Http.Send

/-!
# A connection with any partner

What comes in is any stream, that breaks off in any way or never ends, and a send may fail at any
time; the state is the position in the stream and what has been sent. What a call tells about the
stream when it has succeeded.

* `receive_ok`, `receive_epipe`: a line has been received, or the empty line has, or the stream has
  broken off.
* `send_ok`, `done_ok`, `detach_ok`: what has been sent.
-/

namespace Libdill.Http

open Foundations Libdill.Sock Libdill.Utils
open Libdill.Suffix (SuffixSock Source crlf)
open Libdill.Term (TermSock)

/-- What the partner sends, and how a send to it ends when so much has been sent. -/
structure Partner where
  incoming : Source
  fate : List UInt8 → Option Errno

/-- The bytestream. -/
def Partner.bsock (p : Partner) : Bsock (ℕ × List UInt8) where
  bsendl s iol :=
    match p.fate s.2 with
    | none => (.ok (), s.1, s.2 ++ iol.flatten)
    | some e => (.error e, s)
  brecvl s lens ends := (p.incoming.bsock.brecvl s.1 lens ends).map fun r => (r.1, r.2, s.2)

variable {p : Partner} {f : Source} {i j k n sz : ℕ} {o w bs : List UInt8} {self self' : SuffixSock}
  {first : Elem} {next l' : List Elem} {c c' : Suffix.Cursor} {e : Errno}

/-! ## SUFFIX -/

/-- A call that only receives, next to what has been sent. -/
def beside {α : Type} (o : List UInt8) (r : Except Stop (Except Errno α × SuffixSock × ℕ)) :
    Except Stop (Except Errno α × SuffixSock × ℕ × List UInt8) :=
  r.map fun r => (r.1, r.2.1, r.2.2, o)

theorem bind_beside {α β : Type} {x : Call (SuffixSock × ℕ × List UInt8) Stop Errno α}
    {y : Call (SuffixSock × ℕ) Stop Errno α} {g : α → Call (SuffixSock × ℕ × List UInt8) Stop Errno β}
    {h : α → Call (SuffixSock × ℕ) Stop Errno β} (hx : x (self, i, o) = beside o (y (self, i)))
    (hg : ∀ a self' j, g a (self', j, o) = beside o (h a (self', j))) :
    (x >>= g) (self, i, o) = beside o ((y >>= h) (self, i)) := by
  cases hy : y (self, i) with
  | error r =>
    rw [hy] at hx
    rw [Call.bind_stop hx, Call.bind_stop hy]
    rfl
  | ok q =>
    obtain ⟨r, self', j⟩ := q
    rw [hy] at hx
    cases r with
    | error e =>
      rw [Call.bind_fail hx, Call.bind_fail hy]
      rfl
    | ok a =>
      rw [Call.bind_ret hx, Call.bind_ret hy]
      exact hg a self' j

theorem recv_beside :
    Suffix.recv p.bsock k (self, i, o) = beside o (Suffix.recv p.incoming.bsock k (self, i)) := by
  unfold Suffix.recv brecv Partner.bsock
  dsimp only
  cases p.incoming.bsock.brecvl i [k] true with
  | none => rfl
  | some r =>
    obtain ⟨r, j⟩ := r
    cases r <;> rfl

theorem scan_beside :
    Suffix.scan p.bsock first next n w c sz (self, i, o)
      = beside o (Suffix.scan p.incoming.bsock first next n w c sz (self, i)) := by
  induction n generalizing w c sz i self with
  | zero => rfl
  | succ n ih =>
    unfold Suffix.scan
    apply bind_beside rfl
    intro suffix self' j
    split
    · rfl
    · split
      · apply bind_beside recv_beside
        intro bs self'' j'
        exact ih
      · rfl

theorem mrecvl_beside (l : List Elem) :
    Suffix.mrecvl p.bsock n l (self, i, o)
      = beside o (Suffix.mrecvl p.incoming.bsock n l (self, i)) := by
  unfold Suffix.mrecvl
  apply bind_beside rfl
  intro inerr self₁ i₁
  apply bind_beside
  · cases inerr <;> rfl
  intro _ self₂ i₂
  apply bind_beside rfl
  intro suffixlen self₃ i₃
  apply bind_beside recv_beside
  intro buf self₄ i₄
  cases l with
  | nil => rfl
  | cons it next =>
    apply bind_beside scan_beside
    intro r self₅ i₅
    rfl

/-- Each turn of the loop takes a byte. -/
theorem scan_moves
    (h : Suffix.scan f.bsock first next n w c sz (self, i) = .ok (.ok (k, c'), self', j)) :
    self' = self ∧ j + sz = i + k := by
  induction n generalizing w c sz i with
  | zero => cases h
  | succ n ih =>
    unfold Suffix.scan at h
    rw [Call.look_bind] at h
    split at h
    · cases h
      exact ⟨rfl, rfl⟩
    · split at h
      · obtain ⟨bs, q, hrecv, hrest⟩ := Call.ret_of_bind h
        rcases Suffix.recv_inv hrecv with ⟨_, -, -, -, rfl⟩ | ⟨_, ho, -⟩
        · obtain ⟨rfl, hj⟩ := ih hrest
          exact ⟨rfl, by omega⟩
        · cases ho
      · cases h

theorem recv_fails (h : Suffix.recv f.bsock k (self, i) = .ok (.error e, self', j)) :
    self'.inerr = true := by
  unfold Suffix.recv at h
  dsimp only at h
  split at h <;> cases h
  rfl

theorem scan_fails
    (h : Suffix.scan f.bsock first next n w c sz (self, i) = .ok (.error e, self', j)) :
    self'.inerr = true := by
  induction n generalizing w c sz i self with
  | zero => cases h
  | succ n ih =>
    unfold Suffix.scan at h
    rw [Call.look_bind] at h
    split at h
    · cases h
    · split at h
      · rcases Call.error_of_bind h with hrecv | ⟨bs, ⟨self'', j'⟩, -, hrest⟩
        · exact recv_fails hrecv
        · exact ih hrest
      · cases h
        rfl

/-- A socket that has failed. -/
theorem mrecvl_refuses (hin : self.inerr = true) (l : List Elem) :
    Suffix.mrecvl p.bsock n l (self, i, o) = .ok (.error .ECONNRESET, self, i, o) := by
  rw [mrecvl_beside, Suffix.mrecvl_failed hin]
  rfl

theorem mrecvl_moves (hin : self.inerr = false)
    (h : Suffix.mrecvl f.bsock n (first :: next) (self, i) = .ok (.ok (k, l'), self', j)) :
    self' = self ∧ j = i + (k + self.suffix.bytes.length) := by
  rw [Suffix.mrecvl_start hin] at h
  obtain ⟨w, q, hrecv, hrest⟩ := Call.ret_of_bind h
  rcases Suffix.recv_inv hrecv with ⟨_, -, -, -, rfl⟩ | ⟨_, ho, -⟩
  · obtain ⟨⟨sz, c⟩, q', hscan, hret⟩ := Call.ret_of_bind hrest
    cases hret
    obtain ⟨rfl, hj⟩ := scan_moves hscan
    exact ⟨rfl, by omega⟩
  · cases ho

/-- **A message has been received.** -/
theorem mrecvl_ok {q : SuffixSock × ℕ × List UInt8}
    (h : Suffix.mrecvl p.bsock n (first :: next) (self, i, o) = .ok (.ok (k, l'), q)) :
    ∃ m, p.incoming.Message self.suffix i m ∧ k = m.length ∧
      l' = first.put (m.take first.len) :: next ∧
      q = (self, i + (m ++ self.suffix.bytes).length, o) := by
  rw [mrecvl_beside] at h
  cases hrun : Suffix.mrecvl p.incoming.bsock n (first :: next) (self, i) with
  | error r =>
    rw [hrun] at h
    cases h
  | ok r =>
    obtain ⟨r, self', j⟩ := r
    rw [hrun] at h
    cases h
    cases hin : self.inerr with
    | true =>
      rw [Suffix.mrecvl_failed hin] at hrun
      cases hrun
    | false =>
      obtain ⟨rfl, rfl⟩ := mrecvl_moves hin hrun
      obtain ⟨m, hm, -, rfl, rfl⟩ := Suffix.mrecvl_inv hin hrun
      exact ⟨m, hm, rfl, rfl, by rw [List.length_append]⟩

/-- A receive that has failed. -/
theorem mrecvl_fails {q : SuffixSock × ℕ × List UInt8}
    (h : Suffix.mrecvl p.bsock n (first :: next) (self, i, o) = .ok (.error e, q)) :
    q.1.inerr = true := by
  rw [mrecvl_beside] at h
  cases hrun : Suffix.mrecvl p.incoming.bsock n (first :: next) (self, i) with
  | error r =>
    rw [hrun] at h
    cases h
  | ok r =>
    obtain ⟨r, self', j⟩ := r
    rw [hrun] at h
    cases h
    cases hin : self.inerr with
    | true =>
      rw [Suffix.mrecvl_failed hin] at hrun
      cases hrun
      exact hin
    | false =>
      rw [Suffix.mrecvl_start hin] at hrun
      rcases Call.error_of_bind hrun with hrecv | ⟨bs, q, -, hrest⟩
      · exact recv_fails hrecv
      · rcases Call.error_of_bind hrest with hscan | ⟨r, q', -, hret⟩
        · exact scan_fails hscan
        · cases hret

/-! ## Lines that have been parsed -/

variable {s s' : Args} {a : Arg} {m rest r : List UInt8} {full : Bool} {pr : UInt8 → Bool}

theorem give_ok (h : give a w s = .ok (.ok (), s')) : s' = s.put a w := by
  obtain ⟨len, s₁, hlook, hrest⟩ := Call.ret_of_bind h
  cases hlook
  obtain ⟨_, s₂, hreq, hput⟩ := Call.ret_of_bind hrest
  obtain ⟨-, rfl⟩ := Call.require_ok hreq
  split at hput
  · cases hput
  · cases hput
    rfl

theorem give_error (h : give a w s = .ok (.error e, s')) : e = .EMSGSIZE := by
  rcases Call.error_of_bind h with hlook | ⟨len, s₁, hlook, hrest⟩
  · cases hlook
  · rcases Call.error_of_bind hrest with hreq | ⟨_, s₂, -, hput⟩
    · exact (Call.require_error hreq).2.1
    · split at hput <;> cases hput

theorem token_ok (h : token pr a rest s = .ok (.ok r, s')) :
    r = rest.dropWhile pr ∧ s' = s.put a (rest.takeWhile pr) := by
  obtain ⟨_, s₁, hreq, hrest⟩ := Call.ret_of_bind h
  obtain ⟨-, rfl⟩ := Call.require_ok hreq
  obtain ⟨_, s₂, hgive, hret⟩ := Call.ret_of_bind hrest
  obtain rfl := give_ok hgive
  cases hret
  exact ⟨rfl, rfl⟩

theorem token_error (h : token pr a rest s = .ok (.error e, s')) : e = .EPROTO ∨ e = .EMSGSIZE := by
  rcases Call.error_of_bind h with hreq | ⟨_, s₁, -, hrest⟩
  · exact .inl (Call.require_error hreq).2.1
  · rcases Call.error_of_bind hrest with hgive | ⟨_, s₂, -, hret⟩
    · exact .inr (give_error hgive)
    · cases hret

/-- A field, with its name and its value in the buffers. -/
theorem fieldLine_ok (h : fieldLine m s = .ok (.ok (), s')) :
    s' = (s.put .name (nameOf m)).put .value (valueOf m) := by
  obtain ⟨_, s₁, htoken, hrest⟩ := Call.ret_of_bind h
  obtain ⟨rfl, rfl⟩ := token_ok htoken
  obtain ⟨_, s₂, hreq, hgive⟩ := Call.ret_of_bind hrest
  obtain ⟨-, rfl⟩ := Call.require_ok hreq
  exact give_ok hgive

theorem fieldLine_error (h : fieldLine m s = .ok (.error e, s')) : e = .EPROTO ∨ e = .EMSGSIZE := by
  rcases Call.error_of_bind h with htoken | ⟨_, s₁, -, hrest⟩
  · exact token_error htoken
  · rcases Call.error_of_bind hrest with hreq | ⟨_, s₂, -, hgive⟩
    · exact .inl (Call.require_error hreq).2.1
    · exact .inr (give_error hgive)

/-- A request, with its command in the buffer. -/
theorem requestLine_found (h : requestLine full m s = .ok (.ok (), s')) :
    s' = (s.put .command (word m)).put .resource (word (behind m)) := by
  obtain ⟨_, s₁, htoken, hrest⟩ := Call.ret_of_bind h
  obtain ⟨rfl, rfl⟩ := token_ok htoken
  obtain ⟨_, s₂, htoken, hrest⟩ := Call.ret_of_bind hrest
  obtain ⟨rfl, rfl⟩ := token_ok htoken
  obtain ⟨_, s₃, hversion, hreq⟩ := Call.ret_of_bind hrest
  obtain ⟨-, rfl⟩ := Call.require_ok hreq
  unfold version at hversion
  split at hversion
  · cases hversion
    rfl
  · split at hversion
    · cases hversion
    · obtain ⟨-, rfl⟩ := Call.require_ok hversion
      rfl

/-- A status, with its three digits. -/
theorem statusLine_digits {k : ℕ} (h : statusLine full m s = .ok (.ok k, s')) :
    ∃ x y z : UInt8, word (behind m) = [x, y, z] ∧ [x, y, z].all isDigit = true ∧ k = number x y z := by
  obtain ⟨_, s₁, -, hrest⟩ := Call.ret_of_bind h
  obtain ⟨_, s₂, -, hrest⟩ := Call.ret_of_bind hrest
  obtain ⟨k', s₃, hstatus, hrest⟩ := Call.ret_of_bind hrest
  obtain ⟨_, s₄, -, hret⟩ := Call.ret_of_bind hrest
  cases hret
  obtain ⟨_, s₅, -, hrest⟩ := Call.ret_of_bind hstatus
  obtain ⟨_, s₆, hlen, hrest⟩ := Call.ret_of_bind hrest
  obtain ⟨_, s₇, hdigits, hret⟩ := Call.ret_of_bind hrest
  cases hret
  obtain ⟨x, y, z, hw⟩ := List.length_eq_three.mp (of_decide_eq_true (Call.require_ok hlen).1)
  have hall := (Call.require_ok hdigits).1
  rw [hw] at hall
  refine ⟨x, y, z, hw, hall, ?_⟩
  have hsplit : (behind m).dropWhile isSpace
      = x :: y :: z :: ((behind m).dropWhile isSpace).dropWhile isWord :=
    (splits_iff.mp ⟨hw, rfl⟩).1
  rw [show ((m.dropWhile isSpace).dropWhile isWord).dropWhile isSpace
    = (behind m).dropWhile isSpace from rfl, hsplit]
  rfl

/-! ## Receiving -/

section Receive

variable {α : Type} {parse : ℕ → Rxbuf → Call Args Stop Errno α}
  {line : List UInt8 → Call Args Stop Errno α} {rx : Rxbuf} {t t' : TermSock} {b : α}
  {z : SuffixSock × ℕ × List UInt8}

theorem onArgs_inv {σ : Type} {x : Call Args Stop Errno α} {y : Except Errno α} {q q' : Stack σ}
    (h : onArgs x (s, q) = .ok (y, s', q')) : x s = .ok (y, s') ∧ q' = q := by
  unfold onArgs at h
  dsimp only at h
  split at h
  · cases h
  · rename_i hx
    cases h
    exact ⟨hx, rfl⟩

/-- **A line has been received.** -/
theorem receive_ok (hp : Parses parse line) (h : IsHttp t self)
    (hrun : receive p.bsock n rx parse (s, t, self, i, o) = .ok (.ok b, s', t', z)) :
    ∃ m, m ≠ [] ∧ m.length < rxbufSize ∧ p.incoming.Message crlf i m ∧
      line m s = .ok (.ok b, s') ∧ t' = t ∧ z = (self, i + (m ++ crlf.bytes).length, o) := by
  cases hrecv : Suffix.mrecvl p.bsock n [.buf (rx.bytes.take (rxbufSize - 1))] (self, i, o) with
  | error r =>
    rw [receive_stop h.term hrecv] at hrun
    cases hrun
  | ok q =>
    obtain ⟨r, z'⟩ := q
    cases r with
    | error e =>
      rw [receive_fail h.term hrecv] at hrun
      cases hrun
    | ok r =>
      obtain ⟨k, l⟩ := r
      obtain ⟨m, hm, rfl, rfl, rfl⟩ := mrecvl_ok hrecv
      rw [room_rxbuf] at hrecv
      rw [receive_run hp h.term hrecv] at hrun
      rw [h.suffix] at hm hrun
      split_ifs at hrun with hnil hlong
      · cases hrun
      · obtain ⟨hline, hz⟩ := onArgs_inv hrun
        cases hz
        exact ⟨m, hnil, by omega, hm, hline, rfl, rfl⟩

/-- `EPIPE` stands for the empty line, and for a stream that is of no use any more. -/
theorem receive_epipe (hp : Parses parse line) (h : IsHttp t self)
    (hline : ∀ m s s', line m s ≠ .ok (.error .EPIPE, s'))
    (hrun : receive p.bsock n rx parse (s, t, self, i, o) = .ok (.error .EPIPE, s', t', z)) :
    (p.incoming.Message crlf i [] ∧ t' = { t with indone := true } ∧
        z = (self, i + crlf.bytes.length, o)) ∨
      (t' = t ∧ z.1.inerr = true) := by
  cases hrecv : Suffix.mrecvl p.bsock n [.buf (rx.bytes.take (rxbufSize - 1))] (self, i, o) with
  | error r =>
    rw [receive_stop h.term hrecv] at hrun
    cases hrun
  | ok q =>
    obtain ⟨r, z'⟩ := q
    cases r with
    | error e =>
      rw [receive_fail h.term hrecv] at hrun
      cases hrun
      exact .inr ⟨rfl, mrecvl_fails hrecv⟩
    | ok r =>
      obtain ⟨k, l⟩ := r
      obtain ⟨m, hm, rfl, rfl, rfl⟩ := mrecvl_ok hrecv
      rw [room_rxbuf] at hrecv
      rw [receive_run hp h.term hrecv] at hrun
      rw [h.suffix] at hm
      split_ifs at hrun with hnil hlong
      · cases hrun
        subst hnil
        rw [h.suffix]
        exact .inl ⟨hm, rfl, rfl⟩
      · obtain ⟨hfail, -⟩ := onArgs_inv hrun
        exact absurd hfail (hline m s s')

/-! ## Sending -/

theorem suffix_send_ok {bufs : List (List UInt8)}
    (h : Suffix.msendl p.bsock bufs (self, i, o) = .ok (.ok (), z)) :
    z = (self, i, o ++ (bufs.flatten ++ self.suffix.bytes)) := by
  cases hout : self.outerr with
  | true => simp [Suffix.msendl, hout] at h
  | false =>
    cases hempty : bufs.isEmpty with
    | true => simp [Suffix.msendl, hout, hempty] at h
    | false =>
      have hfull : (bufs ++ [self.suffix.bytes]).isEmpty = false := by simp
      cases hfate : p.fate o with
      | some e => simp [Suffix.msendl, hout, hempty, bsendl, hfull, Partner.bsock, hfate] at h
      | none =>
        simp only [Suffix.msendl, hout, hempty, bsendl, hfull, Partner.bsock, hfate,
          Bool.false_eq_true, if_false] at h
        cases h
        rw [List.flatten_append, List.flatten_singleton]

/-- **A line has been sent.** -/
theorem send_ok {bufs : List (List UInt8)} {q : Stack (ℕ × List UInt8)}
    (h : Term.msendl (Suffix.msock p.bsock n) bufs (t, self, i, o) = .ok (.ok (), q)) :
    q = (t, self, i, o ++ (bufs.flatten ++ self.suffix.bytes)) := by
  unfold Term.msendl Sock.msendl at h
  obtain ⟨z, hsend, rfl⟩ := below_eq_ok h
  split at hsend
  · cases hsend
  · rw [suffix_send_ok hsend]

variable {command resource reason name value : CString} {q : Stack (ℕ × List UInt8)}

theorem sendrequest_ok
    (h : sendrequest p.bsock n command resource (t, self, i, o) = .ok (.ok (), q)) :
    q = (t, self, i,
      o ++ (command.bytes ++ [32] ++ resource.bytes ++ (32 :: http11) ++ self.suffix.bytes)) := by
  unfold sendrequest at h
  split at h
  · cases h
  · split at h
    · cases h
    · rw [send_ok h]
      simp

theorem sendstatus_ok {status : ℤ}
    (h : sendstatus p.bsock n status reason (t, self, i, o) = .ok (.ok (), q)) :
    q = (t, self, i,
      o ++ (http11 ++ [32] ++ statusBuf status ++ reason.bytes ++ self.suffix.bytes)) := by
  unfold sendstatus at h
  split at h
  · cases h
  · rw [send_ok h]
    simp

theorem sendfield_ok (h : sendfield p.bsock n name value (t, self, i, o) = .ok (.ok (), q)) :
    q = (t, self, i,
      o ++ (name.bytes ++ [58, 32] ++ strip 32 value.bytes ++ self.suffix.bytes)) := by
  unfold sendfield at h
  split at h
  · cases h
  · split at h
    · cases h
    · dsimp only at h
      split at h
      · cases h
      · rw [send_ok h, take_strip]
        simp

theorem done_ok {q : Stack (ℕ × List UInt8)} (ht : t.term = [])
    (h : done p.bsock n (t, self, i, o) = .ok (.ok (), q)) :
    q = ({ t with outdone := true }, self, i, o ++ self.suffix.bytes) := by
  obtain ⟨term, indone, outdone⟩ := t
  obtain rfl : term = [] := ht
  unfold done Term.done at h
  obtain ⟨_, s₁, hlook, h⟩ := Call.ret_of_bind h
  cases hlook
  obtain ⟨_, s₂, hreq, h⟩ := Call.ret_of_bind h
  obtain ⟨-, rfl⟩ := Call.require_ok hreq
  obtain ⟨_, s₃, hlook, h⟩ := Call.ret_of_bind h
  cases hlook
  obtain ⟨_, s₄, hbelow, h⟩ := Call.ret_of_bind h
  obtain ⟨z, hsend, rfl⟩ := below_eq_ok hbelow
  rw [suffix_send_ok hsend] at h
  cases h
  rfl

theorem detachDone_ok {q : Stack (ℕ × List UInt8)} {wait : Bool} (ht : t.term = [])
    (h : Term.detachDone (Suffix.msock p.bsock n) (t, self, i, o) = .ok (.ok wait, q)) :
    wait = !t.indone ∧ q = ({ t with outdone := true }, self, i,
      if t.outdone then o else o ++ self.suffix.bytes) := by
  obtain ⟨_, q', hfinish, h⟩ := Call.ret_of_bind h
  have hq : q' = ({ t with outdone := true }, self, i,
      if t.outdone then o else o ++ self.suffix.bytes) := by
    obtain ⟨_, s₁, hlook, h⟩ := Call.ret_of_bind hfinish
    cases hlook
    obtain ⟨term, indone, outdone⟩ := t
    cases outdone with
    | true =>
      cases h
      rfl
    | false => exact done_ok ht h
  subst hq
  cases h
  exact ⟨rfl, rfl⟩

/-- A socket that has failed is not drained. -/
theorem drain_refuses {q : Stack (ℕ × List UInt8)} (ht : t.term = []) (hin : self.inerr = true) :
    Term.drain (Suffix.msock p.bsock n) noJunk k (t, self, i, o) ≠ .ok (.ok (), q) := by
  intro h
  cases k with
  | zero => cases h
  | succ k =>
    have hsuffix : (Suffix.msock p.bsock n).mrecvl [.null Term.sizeMax] true (self, i, o)
        = .ok (.error .ECONNRESET, self, i, o) :=
      @mrecvl_refuses p i n o self hin [.null Term.sizeMax]
    have hrecv : Term.mrecvl (Suffix.msock p.bsock n) noJunk [.null Term.sizeMax] true (t, self, i, o)
        = .ok (.error .ECONNRESET, t, self, i, o) := by
      unfold Term.mrecvl
      rw [Call.look_bind, show (t, self, i, o).1.term = [] from ht]
      exact Call.bind_fail (below_run hsuffix)
    have hturn : Term.drainTurn (Suffix.msock p.bsock n) noJunk (t, self, i, o)
        = .ok (.error .ECONNRESET, t, self, i, o) := by
      unfold Term.drainTurn
      rw [hrecv]
      rfl
    unfold Term.drain at h
    rw [Call.bind_fail hturn] at h
    cases h

/-- **The bytestream has been handed back**, behind the empty line of the partner. -/
theorem detach_ok {q : Stack (ℕ × List UInt8)} (ht : t.term = [])
    (hin : t.indone = true ∨ self.inerr = true)
    (h : detach p.bsock n k (t, self, i, o) = .ok (.ok (), q)) :
    t.indone = true ∧ q.2.2 = (i, if t.outdone then o else o ++ self.suffix.bytes) := by
  obtain ⟨_, q₁, hdetach, hleave⟩ := Call.ret_of_bind h
  obtain ⟨wait, q₂, hdone, hdrain⟩ := Call.ret_of_bind hdetach
  obtain ⟨rfl, rfl⟩ := detachDone_ok ht hdone
  have hq : q = q₁ := by
    unfold leave at hleave
    simp only [Except.ok.injEq, Prod.mk.injEq] at hleave
    exact hleave.2.symm
  cases hindone : t.indone with
  | true =>
    rw [hindone] at hdrain
    cases hdrain
    rw [hq]
    exact ⟨rfl, rfl⟩
  | false =>
    rw [hindone] at hdrain hin
    exact absurd hdrain (drain_refuses ht (hin.resolve_left Bool.false_ne_true))

end Receive

end Libdill.Http
