import Libdill.Foundations.Call
import Libdill.Foundations.Sentinel
import Libdill.Sock.Bsock
import Libdill.Sock.Iolist
import Libdill.Utils.Strings

/-!
# The parsers of HTTP

What `http.c` makes of a line that has arrived in `rxbuf`: positions that move over the array, and
tokens that are copied to buffers of the caller. A read or a write outside of an array is a fault.
`memcmp` may read all the characters it is given, or only those up to the first difference; `full`
says which.

The parsers look at the part of the array before the first null character or before the end of the
line. `requestLine`, `statusLine` and `fieldLine` are the same parsers over what is left of the line
instead of positions.

* `parseRequest_eq`, `parseStatus_eq`, `parseField_eq`: they do the same.
-/

namespace Libdill.Http

open Foundations Libdill.Sock

/-! ## The arrays -/

/-- The size of `rxbuf`. -/
def rxbufSize : ℕ := 1024

/-- `rxbuf` of `dill_http_sock`. -/
structure Rxbuf where
  bytes : List UInt8
  length_bytes : bytes.length = rxbufSize

/-- The array with bytes at its front. -/
def Rxbuf.store (rx : Rxbuf) (bs : List UInt8) : Rxbuf where
  bytes := (bs ++ rx.bytes.drop bs.length).take rxbufSize
  length_bytes := by
    rw [List.length_take, List.length_append, List.length_drop, rx.length_bytes]
    omega

/-- The array with a character in it. -/
def Rxbuf.set (rx : Rxbuf) (i : ℕ) (c : UInt8) : Rxbuf where
  bytes := rx.bytes.set i c
  length_bytes := by rw [List.length_set, rx.length_bytes]

@[simp] theorem bytes_store (rx : Rxbuf) (bs : List UInt8) :
    (rx.store bs).bytes = (bs ++ rx.bytes.drop bs.length).take rxbufSize := rfl

@[simp] theorem bytes_set (rx : Rxbuf) (i : ℕ) (c : UInt8) :
    (rx.set i c).bytes = rx.bytes.set i c := rfl

/-- The buffers that the caller passes. -/
inductive Arg
  | command
  | resource
  | reason
  | name
  | value
  deriving DecidableEq

/-- What is in them. -/
abbrev Args : Type := Arg → List UInt8

/-- The number of values of a `size_t`. -/
def sizeRange : ℕ := 2 ^ 64

/-- The difference of two of them. -/
@[irreducible] def minus (m n : ℕ) : ℕ := (m + sizeRange - n) % sizeRange

/-- The buffer with a string at its front. -/
def Args.put (s : Args) (a : Arg) (bs : List UInt8) : Args :=
  Function.update s a (bs ++ 0 :: (s a).drop (bs.length + 1))

/-! ## Reading -/

def isSpace (c : UInt8) : Bool := c == 32

def isWord (c : UInt8) : Bool := c != 0 && c != 32

def isName (c : UInt8) : Bool := c != 0 && c != 32 && c != 58

/-- What an array is read for, if it is inside of the array. -/
def inside {τ α : Type} : Option α → Call τ Stop Errno α
  | none => Call.stop .fault
  | some a => pure a

/-- `rxbuf[pos]`. -/
def char (rx : Rxbuf) (pos : ℕ) : Call Args Stop Errno UInt8 := inside rx.bytes[pos]?

/-- A loop that moves `pos` on. -/
def skipTo (p : UInt8 → Bool) (rx : Rxbuf) (pos : ℕ) : Call Args Stop Errno ℕ :=
  inside (skip p rx.bytes pos)

/-- The check of the length, the `memcpy` of `n` characters from `start` on and the null character
behind them. -/
def copy (rx : Rxbuf) (a : Arg) (start n : ℕ) : Call Args Stop Errno Unit := do
  let len ← Call.look fun s => (s a).length
  Call.require (decide (n ≤ minus len 1)) .EMSGSIZE
  if len < n + 1 ∨ rxbufSize < start + n then Call.stop .fault
  else Call.change fun s => s.put a ((rx.bytes.drop start).take n)

/-- The protocol. -/
def http11 : List UInt8 := [72, 84, 84, 80, 47, 49, 46, 49]

/-- `memcmp(rxbuf + start, "HTTP/1.1", 8)`, and whether it is not zero. -/
def memcmp (full : Bool) (rx : Rxbuf) (start : ℕ) : Call Args Stop Errno Bool :=
  if full ∧ rxbufSize < start + http11.length then Call.stop .fault
  else inside (differs (rx.bytes.drop start) http11)

/-- The check of the protocol, from `start` to `pos`. -/
def protocol (full : Bool) (rx : Rxbuf) (start pos : ℕ) : Call Args Stop Errno Unit :=
  if minus pos start = 8 then pure ()
  else do
    let differ ← memcmp full rx start
    Call.require (!differ) .EPROTO

/-! ## The parsers -/

/-- `dill_http_recvrequest`, when the line has arrived. -/
def parseRequest (full : Bool) (rx : Rxbuf) : Call Args Stop Errno Unit := do
  let pos ← skipTo isSpace rx 0
  -- Command.
  let start := pos
  let pos ← skipTo isWord rx start
  let c ← char rx pos
  Call.require (c != 0) .EPROTO
  copy rx .command start (minus pos start)
  let pos ← skipTo isSpace rx pos
  -- Resource.
  let start := pos
  let pos ← skipTo isWord rx start
  let c ← char rx pos
  Call.require (c != 0) .EPROTO
  copy rx .resource start (minus pos start)
  let pos ← skipTo isSpace rx pos
  -- Protocol.
  let start := pos
  let pos ← skipTo isWord rx start
  protocol full rx start pos
  let pos ← skipTo isSpace rx pos
  let c ← char rx pos
  Call.require (c == 0) .EPROTO

/-- A digit. -/
def isDigit (c : UInt8) : Bool := !(decide (c < 48) || decide (57 < c))

/-- The value of three digits. -/
def number (a b c : UInt8) : ℕ := (a.toNat - 48) * 100 + (b.toNat - 48) * 10 + (c.toNat - 48)

/-- `dill_http_recvstatus`, when a line of `sz` characters has arrived. -/
def parseStatus (full : Bool) (rx : Rxbuf) (sz : ℕ) : Call Args Stop Errno ℕ := do
  let pos ← skipTo isSpace rx 0
  -- Protocol.
  let start := pos
  let pos ← skipTo isWord rx start
  let c ← char rx pos
  Call.require (c != 0) .EPROTO
  protocol full rx start pos
  let pos ← skipTo isSpace rx pos
  -- Status code.
  let start := pos
  let pos ← skipTo isWord rx start
  let c ← char rx pos
  Call.require (c != 0) .EPROTO
  Call.require (decide (minus pos start = 3)) .EPROTO
  let a ← char rx start
  let b ← char rx (start + 1)
  let c ← char rx (start + 2)
  Call.require (isDigit a && isDigit b && isDigit c) .EPROTO
  let pos ← skipTo isSpace rx pos
  -- Reason.
  copy rx .reason pos (minus sz pos)
  pure (number a b c)

/-- `dill_http_recvfield`, when a line of `sz` characters has arrived. The end of the value is what
`dill_rstrip` makes of the string at `sz`. -/
def parseField (rx : Rxbuf) (sz : ℕ) : Call Args Stop Errno Unit := do
  let pos ← skipTo isSpace rx 0
  -- Name.
  let start := pos
  let pos ← skipTo isName rx start
  let c ← char rx pos
  Call.require (c != 0) .EPROTO
  copy rx .name start (minus pos start)
  let pos ← skipTo isSpace rx pos
  let c ← char rx pos
  Call.require (c == 58) .EPROTO
  let pos ← skipTo isSpace rx (pos + 1)
  -- Value.
  let start := pos
  let strlen ← inside (countWhile (· != 0) (rx.bytes.drop sz))
  let pos := sz + Utils.rstrip 32 ((rx.bytes.drop sz).take strlen)
  copy rx .value start (minus pos start)
  let pos ← skipTo isSpace rx pos
  let c ← char rx pos
  Call.require (c == 0) .EPROTO

/-! ## What is left of a line -/

/-- A string is copied to a buffer. -/
def give (a : Arg) (w : List UInt8) : Call Args Stop Errno Unit := do
  let len ← Call.look fun s => (s a).length
  Call.require (decide (w.length ≤ minus len 1)) .EMSGSIZE
  if len < w.length + 1 then Call.stop .fault else Call.change fun s => s.put a w

/-- A token that is copied to a buffer: what is left behind it. -/
def token (p : UInt8 → Bool) (a : Arg) (rest : List UInt8) :
    Call Args Stop Errno (List UInt8) := do
  Call.require ((rest.dropWhile p).headD 0 != 0) .EPROTO
  give a (rest.takeWhile p)
  pure (rest.dropWhile p)

/-- The check of the protocol, with so many characters of the line before it. -/
def version (full : Bool) (before : ℕ) (rest : List UInt8) : Call Args Stop Errno Unit :=
  if (rest.takeWhile isWord).length = 8 then pure ()
  else if full ∧ rxbufSize < before + http11.length then Call.stop .fault
  else Call.require (decide (http11 <+: rest)) .EPROTO

def requestLine (full : Bool) (m : List UInt8) : Call Args Stop Errno Unit := do
  let rest ← token isWord .command (m.dropWhile isSpace)
  let rest ← token isWord .resource (rest.dropWhile isSpace)
  let rest := rest.dropWhile isSpace
  version full (m.length - rest.length) rest
  Call.require (((rest.dropWhile isWord).dropWhile isSpace).headD 0 == 0) .EPROTO

/-- The three digits at the front. -/
def status (rest : List UInt8) : Call Args Stop Errno ℕ := do
  Call.require ((rest.dropWhile isWord).headD 0 != 0) .EPROTO
  Call.require (decide ((rest.takeWhile isWord).length = 3)) .EPROTO
  Call.require ((rest.takeWhile isWord).all isDigit) .EPROTO
  pure (number (rest.getD 0 0) (rest.getD 1 0) (rest.getD 2 0))

def statusLine (full : Bool) (m : List UInt8) : Call Args Stop Errno ℕ := do
  let rest := m.dropWhile isSpace
  Call.require ((rest.dropWhile isWord).headD 0 != 0) .EPROTO
  version full (m.length - rest.length) rest
  let rest := (rest.dropWhile isWord).dropWhile isSpace
  let n ← status rest
  give .reason ((rest.dropWhile isWord).dropWhile isSpace)
  pure n

def fieldLine (m : List UInt8) : Call Args Stop Errno Unit := do
  let rest ← token isName .name (m.dropWhile isSpace)
  let rest := rest.dropWhile isSpace
  Call.require (rest.headD 0 == 58) .EPROTO
  give .value (rest.tail.dropWhile isSpace)

/-! ## The parsers do the same -/

variable {rx : Rxbuf} {m rest w : List UInt8} {size pos : ℕ} {p : UInt8 → Bool} {a : Arg}

/-- The array holds at most 1023 characters before the null character. -/
theorem here_lt (h : Here 0 rx.bytes size pos rest) : size < rxbufSize := by
  rw [← rx.length_bytes]
  exact h.pos_lt

theorem minus_eq {m n : ℕ} (h : n ≤ m) (hm : m < sizeRange) : minus m n = m - n := by
  unfold minus
  rw [show m + sizeRange - n = m - n + sizeRange by omega, Nat.add_mod_right,
    Nat.mod_eq_of_lt (by omega)]

theorem skipTo_run (h : Here 0 rx.bytes size pos rest) (hp : p 0 = false) :
    ∃ pos', skipTo p rx pos = pure pos' ∧ Here 0 rx.bytes size pos' (rest.dropWhile p) ∧
      minus pos' pos = (rest.takeWhile p).length := by
  obtain ⟨hskip, hhere⟩ := h.skip hp
  have hlt := here_lt hhere
  have hsize := hhere.size
  refine ⟨_, ?_, hhere, ?_⟩
  · rw [skipTo, hskip]
    rfl
  · rw [minus_eq (by omega) (by unfold sizeRange; unfold rxbufSize at hlt; omega)]
    omega

theorem char_run (h : Here 0 rx.bytes size pos rest) : char rx pos = pure (rest.headD 0) := by
  rw [char, h.char]
  rfl

theorem copy_run (h : Here 0 rx.bytes size pos (w ++ rest)) : copy rx a pos w.length = give a w := by
  have hlt := here_lt h
  have hsize := h.size
  rw [List.length_append] at hsize
  have hroom : ∀ len : ℕ, (len < w.length + 1 ∨ rxbufSize < pos + w.length) = (len < w.length + 1) := by
    intro len
    apply propext
    omega
  unfold copy give
  rw [h.slice]
  simp only [hroom]

theorem protocol_run (full : Bool) (h : Here 0 rx.bytes size pos rest) {pos' : ℕ}
    (hpos : minus pos' pos = (rest.takeWhile isWord).length) :
    protocol full rx pos pos' = version full (size - rest.length) rest := by
  have hsize := h.size
  unfold protocol version memcmp
  rw [hpos, show size - rest.length = pos by omega, h.differs (show 0 ∉ http11 by decide)]
  split_ifs
  · rfl
  · rfl
  · simp only [inside]
    rw [Call.ret_bind, decide_not, Bool.not_not]

/-- A token. -/
theorem token_run {β : Type} {f : ℕ → Call Args Stop Errno β} {g : List UInt8 → Call Args Stop Errno β}
    (h : Here 0 rx.bytes size pos rest) (hp : p 0 = false)
    (hf : ∀ pos', Here 0 rx.bytes size pos' (rest.dropWhile p) → f pos' = g (rest.dropWhile p)) :
    (do
      let pos' ← skipTo p rx pos
      let c ← char rx pos'
      Call.require (c != 0) .EPROTO
      copy rx a pos (minus pos' pos)
      f pos')
    = token p a rest >>= g := by
  obtain ⟨pos', hrun, hhere, hlen⟩ := skipTo_run h hp
  have hcopy : copy rx a pos (minus pos' pos) = give a (rest.takeWhile p) := by
    rw [hlen]
    apply @copy_run _ (rest.dropWhile p)
    rw [List.takeWhile_append_dropWhile]
    exact h
  unfold token
  simp only [hrun, char_run hhere, hcopy, hf pos' hhere, Call.ret_bind, Call.bind_bind]

/-- **`dill_http_recvrequest`.** -/
theorem parseRequest_eq (full : Bool) (h : Here 0 rx.bytes m.length 0 m) :
    parseRequest full rx = requestLine full m := by
  obtain ⟨pos₁, hrun₁, h₁, -⟩ := skipTo_run h (p := isSpace) rfl
  unfold parseRequest requestLine
  rw [hrun₁, Call.ret_bind]
  apply token_run h₁ rfl
  intro pos₂ h₂
  obtain ⟨pos₃, hrun₃, h₃, -⟩ := skipTo_run h₂ (p := isSpace) rfl
  rw [hrun₃, Call.ret_bind]
  apply token_run h₃ rfl
  intro pos₄ h₄
  obtain ⟨pos₅, hrun₅, h₅, -⟩ := skipTo_run h₄ (p := isSpace) rfl
  obtain ⟨pos₆, hrun₆, h₆, hlen⟩ := skipTo_run h₅ (p := isWord) rfl
  obtain ⟨pos₇, hrun₇, h₇, -⟩ := skipTo_run h₆ (p := isSpace) rfl
  simp only [hrun₅, hrun₆, hrun₇, protocol_run full h₅ hlen, char_run h₇, Call.ret_bind]

/-- The whole of what is left. -/
theorem behind_run (h : Here 0 rx.bytes size pos rest) :
    copy rx a pos (minus size pos) = give a rest := by
  have hsize := h.size
  have hlt := here_lt h
  have hlen : minus size pos = rest.length := by
    rw [minus_eq (by omega) (by unfold sizeRange; unfold rxbufSize at hlt; omega)]
    omega
  rw [hlen]
  apply @copy_run _ []
  rw [List.append_nil]
  exact h

/-- The status code. -/
theorem status_run {β : Type} {f : ℕ → UInt8 → UInt8 → UInt8 → Call Args Stop Errno β}
    {g : ℕ → Call Args Stop Errno β} (h : Here 0 rx.bytes size pos rest)
    (hf : ∀ pos', Here 0 rx.bytes size pos' (rest.dropWhile isWord) →
      ∀ a b c, f pos' a b c = g (number a b c)) :
    (do
      let pos' ← skipTo isWord rx pos
      let c ← char rx pos'
      Call.require (c != 0) .EPROTO
      Call.require (decide (minus pos' pos = 3)) .EPROTO
      let a ← char rx pos
      let b ← char rx (pos + 1)
      let c ← char rx (pos + 2)
      Call.require (isDigit a && isDigit b && isDigit c) .EPROTO
      f pos' a b c)
    = status rest >>= g := by
  obtain ⟨pos', hrun, hhere, hlen⟩ := skipTo_run h (p := isWord) rfl
  unfold status
  simp only [hrun, char_run hhere, hf pos' hhere, hlen, Call.ret_bind, Call.bind_bind]
  apply Call.bind_ext
  intro _
  apply Call.require_ext
  intro hthree
  obtain ⟨x, y, z, hw⟩ := List.length_eq_three.mp (of_decide_eq_true hthree)
  have hrest : rest = x :: y :: z :: rest.dropWhile isWord := (splits_iff.mp ⟨hw, rfl⟩).1
  rw [hrest] at h
  have h₁ := h.tail
  have h₂ := h₁.tail
  have hchars : rest.getD 0 0 = x ∧ rest.getD 1 0 = y ∧ rest.getD 2 0 = z := by
    rw [hrest]
    exact ⟨rfl, rfl, rfl⟩
  rw [hchars.1, hchars.2.1, hchars.2.2, hw]
  simp only [char_run h, char_run h₁, char_run h₂, Call.ret_bind, List.headD_cons, List.all_cons,
    List.all_nil, Bool.and_true, Bool.and_assoc]

/-- **`dill_http_recvstatus`.** -/
theorem parseStatus_eq (full : Bool) (h : Here 0 rx.bytes m.length 0 m) :
    parseStatus full rx m.length = statusLine full m := by
  obtain ⟨pos₁, hrun₁, h₁, -⟩ := skipTo_run h (p := isSpace) rfl
  obtain ⟨pos₂, hrun₂, h₂, hlen₂⟩ := skipTo_run h₁ (p := isWord) rfl
  obtain ⟨pos₃, hrun₃, h₃, -⟩ := skipTo_run h₂ (p := isSpace) rfl
  unfold parseStatus statusLine
  simp only [hrun₁, hrun₂, hrun₃, char_run h₂, protocol_run full h₁ hlen₂, Call.ret_bind]
  apply Call.bind_ext
  intro _
  apply Call.bind_ext
  intro _
  apply status_run h₃
  intro pos₄ h₄ a b c
  obtain ⟨pos₅, hrun₅, h₅, -⟩ := skipTo_run h₄ (p := isSpace) rfl
  have hbehind := behind_run (a := .reason) h₅
  simp only [hrun₅, hbehind, Call.ret_bind]

/-- What `dill_rstrip` makes of the end of the line: nothing. -/
theorem atEnd_run (h : Here 0 rx.bytes size pos rest) :
    countWhile (· != 0) (rx.bytes.drop size) = some 0 := by
  obtain ⟨t, ht⟩ := h.last.eq
  rw [ht]
  rfl

/-- **`dill_http_recvfield`.** -/
theorem parseField_eq (h : Here 0 rx.bytes m.length 0 m) :
    parseField rx m.length = fieldLine m := by
  obtain ⟨pos₁, hrun₁, h₁, -⟩ := skipTo_run h (p := isSpace) rfl
  unfold parseField fieldLine
  rw [hrun₁, Call.ret_bind]
  apply token_run h₁ rfl
  intro pos₂ h₂
  obtain ⟨pos₃, hrun₃, h₃, -⟩ := skipTo_run h₂ (p := isSpace) rfl
  simp only [hrun₃, char_run h₃, Call.ret_bind]
  apply Call.require_ext
  intro hcolon
  obtain ⟨rest, hrest⟩ : ∃ rest,
      ((m.dropWhile isSpace).dropWhile isName).dropWhile isSpace = 58 :: rest := by
    cases hrest : ((m.dropWhile isSpace).dropWhile isName).dropWhile isSpace with
    | nil =>
      rw [hrest] at hcolon
      exact absurd hcolon (by decide)
    | cons c rest =>
      rw [hrest] at hcolon
      rw [show c = 58 from eq_of_beq hcolon]
      exact ⟨rest, rfl⟩
  rw [hrest] at h₃ ⊢
  obtain ⟨pos₄, hrun₄, h₄, -⟩ := skipTo_run h₃.tail (p := isSpace) rfl
  obtain ⟨pos₅, hrun₅, h₅, -⟩ := skipTo_run h.last (p := isSpace) rfl
  have hstrip : Utils.rstrip 32 ((rx.bytes.drop m.length).take 0) = 0 := by
    rw [List.take_zero]
    rfl
  have hnull : char rx pos₅ = pure 0 := char_run h₅
  have hend : Call.require ((0 : UInt8) == 0) Errno.EPROTO = (pure () : Call Args Stop Errno Unit) := rfl
  simp only [hrun₄, atEnd_run h, inside, Call.ret_bind, hstrip, Nat.add_zero, behind_run h₄, hrun₅,
    hnull, hend, List.tail_cons]
  exact Call.bind_unit

end Libdill.Http
