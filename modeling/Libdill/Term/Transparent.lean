import Libdill.Prefix.Peers
import Libdill.Suffix.Scan
import Libdill.Term.Passed

/-!
# Messages through TERM

A message that is not the terminator, over SUFFIX or PREFIX and a tcp or ipc connection on which the
bytes arrive in pieces of any size.

* `Transparent`: the message is received as it was sent, into an iolist with any contents, or refused
  when it does not fit.
* `SuitsSuffix`, `SuitsPrefix`: the lengths with which this is so.
* `term_transparent_iff`: and no others.
-/

namespace Libdill.Term

open Foundations Libdill.Sock
open Libdill.Fd (Conn Link Refused conn)
open Libdill.Fd.Scatter (Crowded)
open Libdill.Prefix (Iolist Params PrefixSock)
open Libdill.Suffix (Delim SuffixSock)

/-! ## The property -/

/-- The message socket below. -/
inductive Under
  | overSuffix (t : Delim)
  | overPrefix (p : Params)

/-- The state of its socket. -/
def Under.Sock : Under → Type
  | .overSuffix _ => SuffixSock
  | .overPrefix _ => PrefixSock

/-- A new socket. -/
def Under.attach : (v : Under) → v.Sock
  | .overSuffix t => t.attach
  | .overPrefix p => p.attach

/-- The functions of the socket; a receive over SUFFIX looks at up to `n` characters. What the
bytestream does may depend on the iolist. -/
def Under.msock {σ : Type} (u : List Elem → Bsock σ) (n : ℕ) : (v : Under) → Msock (v.Sock × σ)
  | .overSuffix _ => Suffix.msock (u []) n
  | .overPrefix _ => Prefix.msockInto u

/-- What the peer puts on the wire for a message. -/
def Under.frame : Under → List UInt8 → List UInt8
  | .overSuffix t, m => m ++ t.bytes
  | .overPrefix p, m => p.frame m

/-- What a receive has returned is the message `m`, which leaves `rest`, or it does not fit in the
iolist. -/
structure Delivered (v : Under) (link : Link) (sock : TermSock) (m rest : List UInt8)
    (l : List Elem)
    (o : Except Stop (Except Errno (ℕ × List Elem) × TermSock × v.Sock × Conn)) : Prop where
  fits : m.length ≤ capacity l →
    ∃ s, o = .ok (.ok (m.length, fill m l), sock, v.attach, s) ∧ s.Holds link rest
  large : capacity l < m.length → ∃ q, o = .ok (.error .EMSGSIZE, q)

/-- The message `m` gets through sockets with the terminator `buf` into an iolist like `first`,
whatever is in the memory, however the bytes arrive and whatever follows. The kernel receives into
`iovMax` buffers at once. -/
def Transparent (v : Under) (link : Link) (iovMax : ℕ+) (buf : Elem) (m : Iolist)
    (first : List Elem) : Prop :=
  ∃ self w, attach true buf = .ok (.ok self) ∧
    msendl (v.msock (fun _ => lossless) 0) m.bufs (self, v.attach, [])
      = .ok (.ok (), self, v.attach, w) ∧
    ∀ junk l n rest s, Alike first l → m.bytes.length < n → s.Holds link (w ++ rest) →
      Delivered v link self m.bytes rest l
        (mrecvl (v.msock (conn iovMax) n) junk l true (self, v.attach, s))

/-! ## The condition -/

/-- The length of the first element. -/
def firstLen (first : List Elem) : ℕ := (first.headD (.null 0)).len

/-- Over SUFFIX only the first element is stored into. So a message must fit in it, or it must be as
long as the terminator, except for bytes that no buffer is there for; a message that does not fit is
only refused if the terminator and the first element are empty. -/
def SuitsSuffix (t : Delim) (n : ℕ) (m : List UInt8) (first : List Elem) : Prop :=
  if m.length ≤ capacity first then
    Free t.bytes m ∧
      if n = 0 then firstLen first ≠ 0 ∧ Vacant first (firstLen first) m.length
      else Vacant first (min n m.length) (max n m.length)
  else n = 0 ∧ firstLen first = 0 ∧ ¬ t.bytes <+: m ++ t.bytes

/-- Over PREFIX the header has room for the size, a message that is shorter than the terminator fills
the iolist up to the length of the terminator, and for a longer one that is received directly the
receive finds `last` and the kernel takes the buffers. A message that does not fit is refused if it
is longer than the terminator. If the header has no room for its size, what is left of the message
may have so many buffers that the kernel refuses it. -/
def SuitsPrefix (p : Params) (link : Link) (iovMax : ℕ+) (n : ℕ) (m : List UInt8)
    (first : List Elem) : Prop :=
  if m.length ≤ capacity first then
    m.length < 256 ^ p.hdrlen ∧ (m.length ≤ n → Vacant first m.length n) ∧
      (n < m.length → link.Direct m.length →
        Straight link n m.length first ∧ ¬Crowded iovMax (filled n m.length first))
  else
    max n (capacity first) < p.sizeSeen m ∨ ∀ u ≤ link.ahead,
      Refused link iovMax (Ending n (p.sizeSeen m) first) (filled n (p.sizeSeen m) first) u

/-- The terminator has `n` bytes. -/
def Suits (v : Under) (link : Link) (iovMax : ℕ+) (n : ℕ) (m : List UInt8) (first : List Elem) :
    Prop :=
  n ≤ maxTerminator ∧
    match v with
    | .overSuffix t => SuitsSuffix t n m first
    | .overPrefix p => SuitsPrefix p link iovMax n m first

/-! ## The socket below -/

variable {v : Under} {self : TermSock} {term m rest x p r data : List UInt8} {it : Elem}
  {next first l : List Elem} {junk : ℕ → UInt8} {n k : ℕ} {s s₁ s' : Conn} {link : Link}
  {iovMax : ℕ+}

/-- Over SUFFIX with an empty terminator. -/
theorem suffix_plain {t : Delim} (hterm : self.term = []) (h : CutAt t.bytes x p r)
    (hs : s.Holds link x) (hn : p.length < n) :
    (it.len = 0 ∧ p ≠ [] ∧ ∃ q, mrecvl (Suffix.msock (conn iovMax []) n) junk (it :: next) true
        (self, t.attach, s) = .ok (.error .EMSGSIZE, q)) ∨
    (p = [] ∧ ∃ q, mrecvl (Suffix.msock (conn iovMax []) n) junk (it :: next) true
        (self, t.attach, s) = .ok (.error .EPIPE, q)) ∨
    (it.len ≠ 0 ∧ p ≠ [] ∧ ∃ s', mrecvl (Suffix.msock (conn iovMax []) n) junk (it :: next) true
        (self, t.attach, s) = .ok (.ok (p.length, fill (p.take it.len) (it :: next)), self,
          t.attach, s') ∧ s'.Holds link r) := by
  have hpassed : passed junk self.term (it :: next) = it :: next := passed_plain hterm
  by_cases hp : p = []
  · right; left
    obtain ⟨s', hcut, -⟩ := @Suffix.mrecvl_cut _ _ _ _ t.attach x p r it next n Fd.yields_conn h hs
      rfl (fun hne => absurd hp hne) hn
    have hbelow : (Suffix.msock (conn iovMax []) n).mrecvl (passed junk self.term (it :: next))
        (passedEnds self.term (it :: next)) (t.attach, s)
          = .ok (.ok (p.length, it.put (p.take it.len) :: next), t.attach, s') := by
      rw [hpassed]
      exact hcut
    have hrecv := mrecvl_plain hterm hbelow
    rw [hp, List.length_nil, if_pos rfl] at hrecv
    exact ⟨hp, _, hrecv⟩
  · by_cases hit : it.len = 0
    · left
      obtain ⟨n, rfl⟩ : ∃ k, n = k + 1 := ⟨n - 1, by omega⟩
      obtain ⟨s', href⟩ := @Suffix.mrecvl_refused _ _ _ _ t.attach x p r it next n Fd.yields_conn h
        hs rfl hit hp
      exact ⟨hit, hp, _, mrecvl_fails (by rw [hpassed]; exact href)⟩
    · right; right
      obtain ⟨s', hcut, hs'⟩ := @Suffix.mrecvl_cut _ _ _ _ t.attach x p r it next n Fd.yields_conn h
        hs rfl (fun _ => hit) hn
      have hpos : p.length ≠ 0 := fun h0 => hp (List.length_eq_zero_iff.mp h0)
      have hlen : (p.take it.len).length ≤ it.len := List.length_take_le _ p
      have hfill : fill (p.take it.len) (it :: next) = it.put (p.take it.len) :: next := by
        rw [fill, List.take_of_length_le hlen, List.drop_eq_nil_of_le hlen, fill_nil]
      have hbelow : (Suffix.msock (conn iovMax []) n).mrecvl (passed junk self.term (it :: next))
          (passedEnds self.term (it :: next)) (t.attach, s)
            = .ok (.ok (p.length, it.put (p.take it.len) :: next), t.attach, s') := by
        rw [hpassed]
        exact hcut
      have hrecv := mrecvl_plain hterm hbelow
      rw [if_neg hpos, ← hfill] at hrecv
      exact ⟨hit, hp, s', hrecv, hs'⟩

/-- Over SUFFIX with a terminator: the buffer for the terminator is all that is stored into. -/
theorem suffix_hidden {t : Delim} (hterm : self.term ≠ []) (h : CutAt t.bytes x p r)
    (hs : s.Holds link x) (hn : p.length < n) :
    ∃ s', mrecvl (Suffix.msock (conn iovMax []) n) junk first true (self, t.attach, s)
      = (if p.length = self.term.length ∧ self.term = hidden junk self.term.length p then
          .ok (.error .EPIPE, { self with indone := true }, t.attach, s')
        else .ok (.ok (p.length, fill (hidden junk self.term.length p) first), self, t.attach, s')) ∧
      s'.Holds link r := by
  have hroom : (newBuf junk self.term.length).len ≠ 0 := by
    rw [len_newBuf]
    exact fun h0 => hterm (List.length_eq_zero_iff.mp h0)
  obtain ⟨s', hcut, hs'⟩ := @Suffix.mrecvl_cut _ _ _ _ t.attach x p r
    (newBuf junk self.term.length) (behind self.term.length first) n Fd.yields_conn h hs rfl
    (fun _ => hroom) hn
  have hput : (newBuf junk self.term.length).put (p.take (newBuf junk self.term.length).len)
      = .buf (hidden junk self.term.length p) := by
    rw [len_newBuf]
    rfl
  have hbelow : (Suffix.msock (conn iovMax []) n).mrecvl (passed junk self.term first)
      (passedEnds self.term first) (t.attach, s) = .ok (.ok (p.length,
        .buf (hidden junk self.term.length p) :: fill [] (behind self.term.length first)),
          t.attach, s') := by
    rw [passed_hidden hterm, fill_nil, ← hput]
    exact hcut
  have hrecv := mrecvl_hidden hterm length_hidden (Nat.zero_le _) hbelow
  rw [List.append_nil] at hrecv
  exact ⟨s', hrecv, hs'⟩

/-! ## A receive over PREFIX -/

variable {p : Params} {lens : List ℕ} {e : Bool}

/-- A message that does not fit is refused. -/
theorem prefix_refused (hfirst : first ≠ []) (hhdr : (conn iovMax []).brecvl s [p.hdrlen] true
      = some (.ok (p.putHdr (UInt64.ofNat m.length)), s₁))
    (h : Prefix.trim (p.sizeSeen m) ((passed junk self.term first).map Elem.len) = none) :
    ∃ q, mrecvl (Prefix.msockInto (conn iovMax)) junk first true (self, p.attach, s)
      = .ok (.error .EMSGSIZE, q) := by
  have href := @Prefix.mrecvlInto_refused _ (conn iovMax) _ p.attach m _
    (passedEnds self.term first) _ rfl (passed_ne_nil hfirst) hhdr h
  exact ⟨_, mrecvl_fails href⟩

/-- The receive of the message fails. -/
theorem prefix_fails {err : Errno} (hfirst : first ≠ [])
    (hhdr : (conn iovMax []).brecvl s [p.hdrlen] true
      = some (.ok (p.putHdr (UInt64.ofNat m.length)), s₁))
    (h : Prefix.trim (p.sizeSeen m) ((passed junk self.term first).map Elem.len) = some (lens, e))
    (hbody : (conn iovMax (passed junk self.term first)).brecvl s₁ lens
      (e && passedEnds self.term first) = some (.error err, s')) :
    ∃ q, mrecvl (Prefix.msockInto (conn iovMax)) junk first true (self, p.attach, s)
      = .ok (.error err, q) := by
  have hrun := @Prefix.mrecvlInto_body _ (conn iovMax) _ p.attach m _
    (passedEnds self.term first) _ _ _ rfl (passed_ne_nil hfirst) hhdr h
  rw [Call.bind_fail (Prefix.recvl_fails hbody)] at hrun
  exact ⟨_, mrecvl_fails hrun⟩

/-- It does not return. -/
theorem prefix_waits (hfirst : first ≠ [])
    (hhdr : (conn iovMax []).brecvl s [p.hdrlen] true
      = some (.ok (p.putHdr (UInt64.ofNat m.length)), s₁))
    (h : Prefix.trim (p.sizeSeen m) ((passed junk self.term first).map Elem.len) = some (lens, e))
    (hbody : (conn iovMax (passed junk self.term first)).brecvl s₁ lens
      (e && passedEnds self.term first) = none) :
    mrecvl (Prefix.msockInto (conn iovMax)) junk first true (self, p.attach, s)
      = .error .waits := by
  have hrun := @Prefix.mrecvlInto_body _ (conn iovMax) _ p.attach m _
    (passedEnds self.term first) _ _ _ rfl (passed_ne_nil hfirst) hhdr h
  rw [Call.bind_stop (Prefix.recvl_waits hbody)] at hrun
  exact mrecvl_stops hrun

/-- It returns the bytes of the message. -/
theorem prefix_below (hfirst : first ≠ []) (hhdr : (conn iovMax []).brecvl s [p.hdrlen] true
      = some (.ok (p.putHdr (UInt64.ofNat m.length)), s₁))
    (h : Prefix.trim (p.sizeSeen m) ((passed junk self.term first).map Elem.len) = some (lens, e))
    (hbody : (conn iovMax (passed junk self.term first)).brecvl s₁ lens
      (e && passedEnds self.term first) = some (.ok (m.take (p.sizeSeen m)), s')) :
    Prefix.mrecvlInto (conn iovMax) (passed junk self.term first) (passedEnds self.term first)
        (p.attach, s)
      = .ok (.ok (p.sizeSeen m, fill (m.take (p.sizeSeen m)) (passed junk self.term first)),
          p.attach, s') := by
  have hrun := @Prefix.mrecvlInto_body _ (conn iovMax) _ p.attach m _
    (passedEnds self.term first) _ _ _ rfl (passed_ne_nil hfirst) hhdr h
  rw [Call.bind_ret (Prefix.recvl_run hbody)] at hrun
  exact hrun

/-- With an empty terminator. -/
theorem prefix_plain (hterm : self.term = []) (hfirst : first ≠ [])
    (hhdr : (conn iovMax []).brecvl s [p.hdrlen] true
      = some (.ok (p.putHdr (UInt64.ofNat m.length)), s₁))
    (h : Prefix.trim (p.sizeSeen m) ((passed junk self.term first).map Elem.len) = some (lens, e))
    (hbody : (conn iovMax (passed junk self.term first)).brecvl s₁ lens
      (e && passedEnds self.term first) = some (.ok (m.take (p.sizeSeen m)), s')) :
    mrecvl (Prefix.msockInto (conn iovMax)) junk first true (self, p.attach, s)
      = if p.sizeSeen m = 0 then .ok (.error .EPIPE, { self with indone := true }, p.attach, s')
        else .ok (.ok (p.sizeSeen m, fill (m.take (p.sizeSeen m)) first), self, p.attach, s') := by
  have hbelow := prefix_below hfirst hhdr h hbody
  have hrecv := @mrecvl_plain _ _ (Prefix.msockInto (conn iovMax)) _ _ _ _ _ hterm _ hbelow
  rwa [passed_plain hterm] at hrecv

/-- With a terminator. -/
theorem prefix_hidden (hterm : self.term ≠ []) (hfirst : first ≠ [])
    (hhdr : (conn iovMax []).brecvl s [p.hdrlen] true
      = some (.ok (p.putHdr (UInt64.ofNat m.length)), s₁))
    (h : Prefix.trim (p.sizeSeen m) ((passed junk self.term first).map Elem.len) = some (lens, e))
    (hbody : (conn iovMax (passed junk self.term first)).brecvl s₁ lens
      (e && passedEnds self.term first) = some (.ok (m.take (p.sizeSeen m)), s')) :
    mrecvl (Prefix.msockInto (conn iovMax)) junk first true (self, p.attach, s)
      = if p.sizeSeen m = self.term.length ∧
            self.term = hidden junk self.term.length (m.take (p.sizeSeen m)) then
          .ok (.error .EPIPE, { self with indone := true }, p.attach, s')
        else .ok (.ok (p.sizeSeen m, fill (hidden junk self.term.length (m.take (p.sizeSeen m))
          ++ (m.take (p.sizeSeen m)).drop self.term.length) first), self, p.attach, s') := by
  have hbelow := prefix_below hfirst hhdr h hbody
  have hne : ((passed junk self.term first).map Elem.len) ≠ [] := by
    simpa using passed_ne_nil hfirst
  have hfit : ¬ ((passed junk self.term first).map Elem.len).sum < p.sizeSeen m := by
    intro hlt
    rw [(Prefix.trim_eq_none hne).mpr hlt] at h
    cases h
  rw [sum_passed] at hfit
  have hpos := List.length_pos_iff.mpr hterm
  have hd : ((m.take (p.sizeSeen m)).drop self.term.length).length
      ≤ capacity (behind self.term.length first) := by
    rw [List.length_drop, List.length_take, capacity_behind]
    omega
  have hfill : fill (m.take (p.sizeSeen m)) (passed junk self.term first)
      = .buf (hidden junk self.term.length (m.take (p.sizeSeen m)))
        :: fill ((m.take (p.sizeSeen m)).drop self.term.length)
          (behind self.term.length first) := by
    rw [passed_hidden hterm, fill, len_newBuf]
    rfl
  rw [hfill] at hbelow
  exact mrecvl_hidden hterm length_hidden hd hbelow

/-! ## Over SUFFIX -/

/-- The message is received in every case. -/
def Delivers (v : Under) (link : Link) (iovMax : ℕ+) (self : TermSock) (m : List UInt8)
    (first : List Elem) : Prop :=
  ∀ junk l n rest s, Alike first l → m.length < n → s.Holds link (v.frame m ++ rest) →
    Delivered v link self m rest l
      (mrecvl (v.msock (conn iovMax) n) junk l true (self, v.attach, s))

theorem received_inj {τ : Type} {k k' : ℕ} {l l' : List Elem} {z z' : τ}
    (h : (Except.ok (Except.ok (k, l), z) : Except Stop (Except Errno (ℕ × List Elem) × τ))
      = .ok (.ok (k', l'), z')) : k = k' ∧ l = l' := by
  cases h
  exact ⟨rfl, rfl⟩

theorem blank_cons (c : UInt8) (it : Elem) (next : List Elem) :
    ∃ it', blank c (it :: next) = it' :: blank c next ∧ it'.len = it.len := by
  cases it with
  | null k => exact ⟨.null k, rfl, rfl⟩
  | buf mem => exact ⟨.buf (mem.map fun _ => c), rfl, List.length_map _⟩

/-- What is left to be seen of a message that has been cut at the delimiter. -/
theorem suffix_piece (t : Delim) (m : List UInt8) :
    ∃ p r, CutAt t.bytes (m ++ t.bytes) p r ∧ p.length ≤ m.length ∧
      (p.length = m.length → p = m ∧ Free t.bytes m) := by
  have hocc : OccursAt t.bytes (m ++ t.bytes) m.length := by
    unfold OccursAt
    rw [List.drop_left]
  obtain ⟨p, r, hcut, hle⟩ := exists_cutAt hocc
  have hcut' : CutAt t.bytes (m ++ t.bytes ++ []) p r := by rwa [List.append_nil]
  obtain ⟨htake, hfree⟩ := cutAt_message hcut' hle
  refine ⟨p, r, hcut, hle, fun hlen => ?_⟩
  rw [hlen, List.take_length] at htake
  exact ⟨htake, hfree htake⟩

/-- What a receive makes of a message, into memory with any contents. -/
theorem Delivers.run (h : Delivers v link iovMax self m first) (hs : s.Holds link (v.frame m))
    (c : UInt8) : Delivered v link self m [] (blank c first)
      (mrecvl (v.msock (conn iovMax) (m.length + 1)) (fun _ => 0) (blank c first) true
        (self, v.attach, s)) :=
  h _ _ _ _ _ (alike_blank c first) (Nat.lt_succ_self _) (by rwa [List.append_nil])

theorem Delivers.ok (h : Delivers v link iovMax self m first) (hs : s.Holds link (v.frame m))
    (hfit : m.length ≤ capacity first) (c : UInt8) :
    ∃ s', mrecvl (v.msock (conn iovMax) (m.length + 1)) (fun _ => 0) (blank c first) true
      (self, v.attach, s) = .ok (.ok (m.length, fill m (blank c first)), self, v.attach, s') := by
  obtain ⟨s', hok, -⟩ := (h.run hs c).fits (by rwa [(alike_blank c _).capacity])
  exact ⟨s', hok⟩

theorem Delivers.refused (h : Delivers v link iovMax self m first) (hs : s.Holds link (v.frame m))
    (hlarge : capacity first < m.length) :
    ∃ q, mrecvl (v.msock (conn iovMax) (m.length + 1)) (fun _ => 0) (blank 0 first) true
      (self, v.attach, s) = .ok (.error .EMSGSIZE, q) :=
  (h.run hs 0).large (by rwa [(alike_blank 0 _).capacity])

theorem suits_plain {t : Delim} (hterm : self.term = [])
    (h : Delivers (.overSuffix t) link iovMax self m (it :: next))
    (hfit : m.length ≤ capacity (it :: next)) :
    Free t.bytes m ∧ it.len ≠ 0 ∧ Vacant (it :: next) it.len m.length := by
  obtain ⟨p, r, hcut, hle, hwhole⟩ := suffix_piece t m
  have hs := Fd.holds_piece link (m ++ t.bytes)
  have hc : ∀ c, it.len ≠ 0 ∧ p.length = m.length ∧
      fill (p.take it.len) (blank c (it :: next)) = fill m (blank c (it :: next)) := by
    intro c
    obtain ⟨s', hok⟩ := h.ok hs hfit c
    obtain ⟨it', hblank, hlen⟩ := blank_cons c it next
    rw [hblank] at hok ⊢
    rw [← hlen]
    rcases @suffix_plain _ _ _ _ it' (blank c next) (fun _ => 0) _ _ link iovMax _ hterm hcut hs
        (Nat.lt_succ_of_le hle) with
      ⟨-, -, q, hq⟩ | ⟨-, q, hq⟩ | ⟨hit, -, s'', hq, -⟩
    · cases hq.symm.trans hok
    · cases hq.symm.trans hok
    · obtain ⟨hsz, hfill⟩ := received_inj (hq.symm.trans hok)
      exact ⟨hit, hsz, hfill⟩
  obtain ⟨rfl, hfree⟩ := hwhole (hc 0).2.1
  exact ⟨hfree, (hc 0).1, .of_take fun c => (hc c).2.2⟩

theorem suits_hidden {t : Delim} (hterm : self.term ≠ [])
    (h : Delivers (.overSuffix t) link iovMax self m first) (hfit : m.length ≤ capacity first) :
    Free t.bytes m ∧
      Vacant first (min self.term.length m.length) (max self.term.length m.length) := by
  obtain ⟨p, r, hcut, hle, hwhole⟩ := suffix_piece t m
  have hs := Fd.holds_piece link (m ++ t.bytes)
  have hc : ∀ c, p.length = m.length ∧
      fill (hidden (fun _ => 0) self.term.length p) (blank c first) = fill m (blank c first) := by
    intro c
    obtain ⟨s', hok⟩ := h.ok hs hfit c
    obtain ⟨s'', hq, -⟩ := @suffix_hidden _ _ _ _ (blank c first) (fun _ => 0) _ _ link iovMax _
      hterm hcut hs (Nat.lt_succ_of_le hle)
    have heq := hq.symm.trans hok
    split at heq
    · cases heq
    · exact received_inj heq
  obtain ⟨rfl, hfree⟩ := hwhole (hc 0).1
  exact ⟨hfree, vacant_hidden fun c => (hc c).2⟩

theorem suits_large {t : Delim} (h : Delivers (.overSuffix t) link iovMax self m (it :: next))
    (hlarge : capacity (it :: next) < m.length) :
    self.term = [] ∧ it.len = 0 ∧ ¬ t.bytes <+: m ++ t.bytes := by
  obtain ⟨p, r, hcut, hle, -⟩ := suffix_piece t m
  have hs := Fd.holds_piece link (m ++ t.bytes)
  obtain ⟨q, hbad⟩ := h.refused hs hlarge
  by_cases hterm : self.term = []
  · obtain ⟨it', hblank, hlen⟩ := blank_cons 0 it next
    rw [hblank] at hbad
    rcases @suffix_plain _ _ _ _ it' (blank 0 next) (fun _ => 0) _ _ link iovMax _ hterm hcut hs
        (Nat.lt_succ_of_le hle) with
      ⟨hit, hp, -⟩ | ⟨-, q', hq⟩ | ⟨-, -, s'', hq, -⟩
    · exact ⟨hterm, hlen.symm.trans hit, hcut.leftmost 0 (List.length_pos_iff.mpr hp)⟩
    · cases hq.symm.trans hbad
    · cases hq.symm.trans hbad
  · obtain ⟨s'', hq, -⟩ := @suffix_hidden _ _ _ _ (blank 0 (it :: next)) (fun _ => 0) _ _ link
      iovMax _ hterm hcut hs (Nat.lt_succ_of_le hle)
    have heq := hq.symm.trans hbad
    split at heq <;> cases heq

theorem suffix_suits {t : Delim}
    (h : Delivers (.overSuffix t) link iovMax self m (it :: next)) :
    SuitsSuffix t self.term.length m (it :: next) := by
  unfold SuitsSuffix
  split
  · rename_i hfit
    by_cases hterm : self.term = []
    · obtain ⟨hfree, hroom⟩ := suits_plain hterm h hfit
      rw [if_pos (by rw [hterm]; rfl)]
      exact ⟨hfree, hroom⟩
    · rw [if_neg fun h0 => hterm (List.length_eq_zero_iff.mp h0)]
      exact suits_hidden hterm h hfit
  · rename_i hfit
    obtain ⟨hterm, hrest⟩ := suits_large h (by omega)
    exact ⟨by rw [hterm]; rfl, hrest⟩

/-- The message is cut off at its end. -/
theorem delivers_plain {t : Delim} (hterm : self.term = []) (hm : m ≠ [])
    (hcut : CutAt t.bytes x m r) (hit : it.len ≠ 0) (hv : Vacant (it :: next) it.len m.length)
    (hs : s.Holds link x) (hn : m.length < n) :
    ∃ s', mrecvl (Suffix.msock (conn iovMax []) n) junk (it :: next) true (self, t.attach, s)
      = .ok (.ok (m.length, fill m (it :: next)), self, t.attach, s') ∧ s'.Holds link r := by
  rcases @suffix_plain _ _ _ _ it next junk _ _ link iovMax _ hterm hcut hs hn with
    ⟨hzero, -⟩ | ⟨hnil, -⟩ | ⟨-, -, s', hq, hs'⟩
  · exact absurd hzero hit
  · exact absurd hnil hm
  · rw [hv.fill_take] at hq
    exact ⟨s', hq, hs'⟩

theorem delivers_hidden {t : Delim} (hterm : self.term ≠ []) (hm : m ≠ self.term)
    (hcut : CutAt t.bytes x m r)
    (hv : Vacant first (min self.term.length m.length) (max self.term.length m.length))
    (hs : s.Holds link x) (hn : m.length < n) :
    ∃ s', mrecvl (Suffix.msock (conn iovMax []) n) junk first true (self, t.attach, s)
      = .ok (.ok (m.length, fill m first), self, t.attach, s') ∧ s'.Holds link r := by
  obtain ⟨s', hq, hs'⟩ := @suffix_hidden _ _ _ _ first junk _ _ link iovMax _ hterm hcut hs hn
  rw [if_neg (hidden_ne hm), fill_hidden hv] at hq
  exact ⟨s', hq, hs'⟩

/-- A message that does not begin with the delimiter is not cut off at once. -/
theorem delivers_refused {t : Delim} (hterm : self.term = []) (hit : it.len = 0)
    (hnot : ¬ t.bytes <+: m ++ t.bytes) (hs : s.Holds link (m ++ t.bytes ++ rest))
    (hn : m.length < n) :
    ∃ q, mrecvl (Suffix.msock (conn iovMax []) n) junk (it :: next) true (self, t.attach, s)
      = .ok (.error .EMSGSIZE, q) := by
  have hocc : OccursAt t.bytes (m ++ t.bytes ++ rest) m.length := by
    unfold OccursAt
    rw [List.append_assoc, List.drop_left]
    exact List.prefix_append _ rest
  obtain ⟨p, r, hcut, hle⟩ := exists_cutAt hocc
  have hp : p ≠ [] := by
    rintro rfl
    have hpre : t.bytes <+: m ++ t.bytes ++ rest := hcut.occurs
    apply hnot
    exact List.prefix_of_prefix_length_le hpre (List.prefix_append _ rest)
      (by rw [List.length_append]; omega)
  have hn' : p.length < n := by omega
  rcases @suffix_plain _ _ _ _ it next junk _ _ link iovMax _ hterm hcut hs hn' with
    ⟨-, -, q, hq⟩ | ⟨hnil, -⟩ | ⟨hne, -⟩
  · exact ⟨q, hq⟩
  · exact absurd hnil hp
  · exact absurd hit hne

theorem suffix_delivers {t : Delim} (hm : m ≠ self.term)
    (h : SuitsSuffix t self.term.length m (it :: next)) :
    Delivers (.overSuffix t) link iovMax self m (it :: next) := by
  intro junk l n rest s halike hn hs
  have hcap := halike.capacity
  unfold SuitsSuffix at h
  constructor
  · intro hfit
    rw [hcap] at hfit
    rw [if_pos hfit] at h
    obtain ⟨hfree, hroom⟩ := h
    have hcut : CutAt t.bytes (m ++ t.bytes ++ rest) m rest := cutAt_append hfree rest
    by_cases hterm : self.term = []
    · rw [if_pos (by rw [hterm]; rfl)] at hroom
      obtain ⟨hlen, hvacant⟩ := hroom
      have hvacant := hvacant.alike halike
      cases halike with
      | cons hit hnext =>
        have hlen' : firstLen (it :: next) = _ := hit.1
        rw [hlen'] at hlen hvacant
        exact delivers_plain hterm (hterm ▸ hm) hcut hlen hvacant hs hn
    · rw [if_neg fun h0 => hterm (List.length_eq_zero_iff.mp h0)] at hroom
      exact delivers_hidden hterm hm hcut (hroom.alike halike) hs hn
  · intro hlarge
    rw [hcap] at hlarge
    rw [if_neg (by omega)] at h
    obtain ⟨hzero, hlen, hnot⟩ := h
    cases halike with
    | cons hit hnext =>
      exact delivers_refused (List.length_eq_zero_iff.mp hzero) (hit.1.symm.trans hlen) hnot hs hn

/-! ## Over PREFIX -/

theorem putHdr_ne_nil (p : Params) (sz : UInt64) : p.putHdr sz ≠ [] := by
  apply List.ne_nil_of_length_pos
  rw [Prefix.putHdr_length]
  exact p.hdrlen_pos

/-- The header is received first. -/
theorem header_arrives (hs : s.Holds link (p.frame m ++ rest)) :
    ∃ s₁, (conn iovMax []).brecvl s [p.hdrlen] true
        = some (.ok (p.putHdr (UInt64.ofNat m.length)), s₁) ∧
      s₁.Holds link (m ++ rest) ∧ (Fd.unread s₁.rx).length ≤ link.ahead := by
  have hframe : p.frame m ++ rest = p.putHdr (UInt64.ofNat m.length) ++ (m ++ rest) :=
    List.append_assoc _ _ _
  rw [hframe] at hs
  obtain ⟨s₁, hhdr, hs₁, hahead⟩ := @Fd.conn_brecv _ [] link iovMax _ _ hs
  rw [Prefix.putHdr_length] at hhdr
  exact ⟨s₁, hhdr, hs₁, hahead (putHdr_ne_nil p _)⟩

/-- What follows from a receive of the message, when nothing is in the receive buffer behind the
header. -/
theorem prefix_received {l' : List Elem} {z : TermSock × PrefixSock × Conn} (hl : l ≠ [])
    (hhdr : (conn iovMax []).brecvl s [p.hdrlen] true
      = some (.ok (p.putHdr (UInt64.ofNat m.length)), s₁))
    (hs : s₁.Holds link m) (hu : Fd.unread s₁.rx = [])
    (hok : mrecvl (Prefix.msockInto (conn iovMax)) junk l true (self, p.attach, s)
      = .ok (.ok (k, l'), z)) :
    p.sizeSeen m = k ∧
      (self.term.length < p.sizeSeen m → link.Direct (p.sizeSeen m) →
        Straight link self.term.length (p.sizeSeen m) l ∧
          ¬Crowded iovMax (filled self.term.length (p.sizeSeen m) l)) ∧
      (self.term ≠ [] → fill (hidden junk self.term.length (m.take (p.sizeSeen m))
        ++ (m.take (p.sizeSeen m)).drop self.term.length) l = l') := by
  cases htrim : Prefix.trim (p.sizeSeen m) ((passed junk self.term l).map Elem.len) with
  | none =>
    obtain ⟨q, hq⟩ := prefix_refused hl hhdr htrim
    cases hq.symm.trans hok
  | some r =>
    obtain ⟨lens, e⟩ := r
    have hsum := Prefix.trim_sum htrim
    have hle : lens.sum ≤ m.length := by
      rw [hsum]
      exact sizeSeen_le p m
    cases hbody : (conn iovMax (passed junk self.term l)).brecvl s₁ lens
        (e && passedEnds self.term l) with
    | none => cases (prefix_waits hl hhdr htrim hbody).symm.trans hok
    | some r =>
      obtain ⟨data | data, s'⟩ := r
      · obtain ⟨q, hq⟩ := prefix_fails hl hhdr htrim hbody
        cases hq.symm.trans hok
      · have hfine := fun hno => Fd.conn_fails hs hu hno data s' hbody
        have hstraight := (straight_iff htrim).mp hfine
        obtain ⟨hloose, hmax⟩ := not_or.mp hfine
        obtain ⟨s'', hrun, -⟩ := Fd.conn_brecvl hs hloose (fun hd hc => hmax ⟨hd, hc⟩) hle
        rw [hsum] at hrun
        by_cases hterm : self.term = []
        · have heq := (prefix_plain hterm hl hhdr htrim hrun).symm.trans hok
          split at heq
          · cases heq
          · exact ⟨(received_inj heq).1, hstraight, fun hne => absurd hterm hne⟩
        · have heq := (prefix_hidden hterm hl hhdr htrim hrun).symm.trans hok
          split at heq
          · cases heq
          · exact ⟨(received_inj heq).1, hstraight, fun _ => (received_inj heq).2⟩

/-- What follows when it is refused. -/
theorem prefix_exceeds {z : TermSock × PrefixSock × Conn} (hl : l ≠ [])
    (hhdr : (conn iovMax []).brecvl s [p.hdrlen] true
      = some (.ok (p.putHdr (UInt64.ofNat m.length)), s₁))
    (hs : s₁.Holds link (m ++ rest))
    (hbad : mrecvl (Prefix.msockInto (conn iovMax)) junk l true (self, p.attach, s)
      = .ok (.error .EMSGSIZE, z)) :
    max self.term.length (capacity l) < p.sizeSeen m ∨
      Refused link iovMax (Ending self.term.length (p.sizeSeen m) l)
        (filled self.term.length (p.sizeSeen m) l) (Fd.unread s₁.rx).length := by
  cases htrim : Prefix.trim (p.sizeSeen m) ((passed junk self.term l).map Elem.len) with
  | none =>
    left
    rw [← @sum_passed self.term l junk]
    exact (Prefix.trim_eq_none (by simpa using passed_ne_nil hl)).mp htrim
  | some r =>
    right
    obtain ⟨lens, e⟩ := r
    have hsum := Prefix.trim_sum htrim
    have hseen := sizeSeen_le p m
    have hle : lens.sum ≤ (m ++ rest).length := by
      rw [hsum, List.length_append]
      omega
    by_contra hno
    rw [← refused_iff htrim] at hno
    rcases Fd.conn_accepted hs hle hno with hwaits | ⟨s', hrun⟩
    · cases (prefix_waits hl hhdr htrim hwaits).symm.trans hbad
    · rw [hsum, List.take_append_of_le_length hseen] at hrun
      by_cases hterm : self.term = []
      · have heq := (prefix_plain hterm hl hhdr htrim hrun).symm.trans hbad
        split at heq <;> cases heq
      · have heq := (prefix_hidden hterm hl hhdr htrim hrun).symm.trans hbad
        split at heq <;> cases heq

/-- The header of a message of which less than its size is seen is short. -/
theorem hdrlen_le_bufsize (hlt : m.length < 2 ^ 63) (h : p.sizeSeen m ≠ m.length) :
    p.hdrlen ≤ Fd.bufsize := by
  by_contra hlong
  apply h
  refine Prefix.sizeSeen_of_lt (hlt.trans_le ?_) hlt
  have hbuf : 8 ≤ Fd.bufsize := by decide
  calc (2 : ℕ) ^ 63 ≤ 256 ^ 8 := by decide
    _ ≤ 256 ^ p.hdrlen := Nat.pow_le_pow_right (by decide) (by omega)

/-- With the header any number of bytes may get into the receive buffer. -/
theorem prefix_held (hfirst : first ≠ []) (hlt : m.length < 2 ^ 63)
    (hlarge : capacity first < m.length) (hlong : self.term.length < p.sizeSeen m)
    (hmax : ¬ max self.term.length (capacity first) < p.sizeSeen m)
    (h : Delivers (.overPrefix p) link iovMax self m first) {u : ℕ} (hu : u ≤ link.ahead) :
    Refused link iovMax (Ending self.term.length (p.sizeSeen m) first)
      (filled self.term.length (p.sizeSeen m) first) u := by
  have halike := alike_blank 0 first
  have hne : blank 0 first ≠ [] := by simpa [blank] using hfirst
  have hhdrlen := hdrlen_le_bufsize hlt (show p.sizeSeen m ≠ m.length by omega)
  obtain ⟨s, s₁, hs, hhdr, hs₁, hunread⟩ :=
    Fd.conn_ahead iovMax [] (putHdr_ne_nil p (UInt64.ofNat m.length))
      (by rwa [Prefix.putHdr_length]) (m ++ List.replicate u 0) hu
  rw [Prefix.putHdr_length] at hhdr
  rw [← List.append_assoc] at hs
  obtain ⟨q, hbad⟩ := (h (fun _ => 0) (blank 0 first) _ _ s halike (Nat.lt_succ_self _) hs).large
    (by rwa [halike.capacity])
  have hheld : (Fd.unread s₁.rx).length = u := by
    rw [hunread, List.length_take, List.length_append, List.length_replicate]
    omega
  have hends : decide (Ending self.term.length (p.sizeSeen m) (blank 0 first))
      = decide (Ending self.term.length (p.sizeSeen m) first) :=
    decide_eq_decide.mpr (halike.ending _ _)
  have hexceeds := prefix_exceeds hne hhdr hs₁ hbad
  rw [halike.capacity, halike.filled, hends, hheld] at hexceeds
  exact hexceeds.resolve_left hmax

theorem prefix_suits (hfirst : first ≠ []) (hlt : m.length < 2 ^ 63)
    (h : Delivers (.overPrefix p) link iovMax self m first) :
    SuitsPrefix p link iovMax self.term.length m first := by
  have hne : ∀ c, blank c first ≠ [] := fun c => by simpa [blank] using hfirst
  obtain ⟨s, s₁, hs, hhdr, hs₁, hu⟩ :=
    Fd.conn_piece iovMax [] link (putHdr_ne_nil p (UInt64.ofNat m.length)) m
  rw [Prefix.putHdr_length] at hhdr
  unfold SuitsPrefix
  split
  · rename_i hfit
    have hc := fun c => (h.ok hs hfit c).elim fun _ hok =>
      prefix_received (hne c) hhdr hs₁ hu hok
    obtain ⟨hsz, hstraight, -⟩ := hc 0
    rw [hsz, (alike_blank 0 first).straight, (alike_blank 0 first).filled] at hstraight
    have hpow : m.length < 256 ^ p.hdrlen := by
      rw [← hsz]
      exact Nat.mod_lt _ (Nat.pow_pos (by decide))
    refine ⟨hpow, fun hle => ?_, hstraight⟩
    by_cases hterm : self.term = []
    · intro x _ hx
      rw [hterm] at hx
      cases hx
    · have hfill := fun c => (hc c).2.2 hterm
      simp only [hsz, List.take_length, List.drop_eq_nil_of_le hle, List.append_nil] at hfill
      have hvacant := vacant_hidden hfill
      rwa [Nat.min_eq_right hle, Nat.max_eq_left hle] at hvacant
  · rename_i hfit
    have hlarge : capacity first < m.length := not_le.mp hfit
    have hcap := (alike_blank 0 first).capacity
    obtain ⟨q, hbad⟩ := h.refused hs hlarge
    rw [← List.append_nil m] at hs₁
    have hexceeds := prefix_exceeds (hne 0) hhdr hs₁ hbad
    rw [hcap] at hexceeds
    by_cases hmax : max self.term.length (capacity first) < p.sizeSeen m
    · exact .inl hmax
    · have hlong : self.term.length < p.sizeSeen m := by
        by_contra hle
        exact filled_fine (not_lt.mp hle) (hexceeds.resolve_left hmax).crowded_all
      exact .inr fun u hu => prefix_held hfirst hlt hlarge hlong hmax h hu

/-- A message that fits is received. -/
theorem prefix_fits (hm : m ≠ self.term) (hsz : p.sizeSeen m = m.length) (hl : l ≠ [])
    (hfit : m.length ≤ capacity l) (hs : s.Holds link (p.frame m ++ rest))
    (hvacant : m.length ≤ self.term.length → Vacant l m.length self.term.length)
    (hstraight : self.term.length < m.length → link.Direct m.length →
      Straight link self.term.length m.length l ∧
        ¬Crowded iovMax (filled self.term.length m.length l)) :
    ∃ s', mrecvl (Prefix.msockInto (conn iovMax)) junk l true (self, p.attach, s)
      = .ok (.ok (m.length, fill m l), self, p.attach, s') ∧ s'.Holds link rest := by
  obtain ⟨s₁, hhdr, hs₁, -⟩ := header_arrives hs
  obtain ⟨lens, e, htrim⟩ := @trim_some self.term m l junk p hl (by omega)
  have hsum := Prefix.trim_sum htrim
  have hfine := (straight_iff htrim).mpr (by rwa [hsz])
  obtain ⟨hloose, hmax⟩ := not_or.mp hfine
  obtain ⟨s', hrun, hs', -⟩ := Fd.conn_brecvl hs₁ hloose (fun hd hc => hmax ⟨hd, hc⟩)
    (by rw [hsum, hsz, List.length_append]; omega)
  have hseen := sizeSeen_le p m
  rw [hsum, List.take_append_of_le_length hseen] at hrun
  rw [hsum, hsz, List.drop_left] at hs'
  refine ⟨s', ?_, hs'⟩
  by_cases hterm : self.term = []
  · have hpos : m.length ≠ 0 := by
      intro h0
      exact hm ((List.length_eq_zero_iff.mp h0).trans hterm.symm)
    have hq := prefix_plain hterm hl hhdr htrim hrun
    rwa [hsz, if_neg hpos, List.take_length] at hq
  · have hfill : fill (hidden junk self.term.length m ++ m.drop self.term.length) l
        = fill m l := by
      by_cases hle : self.term.length ≤ m.length
      · rw [hidden_long hle, List.take_append_drop]
      · have hshort := hvacant (by omega)
        rw [List.drop_eq_nil_of_le (by omega), List.append_nil]
        apply fill_hidden
        rwa [Nat.min_eq_right (by omega), Nat.max_eq_left (by omega)]
    have hq := prefix_hidden hterm hl hhdr htrim hrun
    rwa [hsz, List.take_length, if_neg (hidden_ne hm), hfill] at hq

/-- What is left of a message that does not fit is refused by the kernel. -/
theorem prefix_crowded (hl : l ≠ []) (hs : s.Holds link (p.frame m ++ rest))
    (hmax : p.sizeSeen m ≤ max self.term.length (capacity l))
    (h : ∀ u ≤ link.ahead, Refused link iovMax (Ending self.term.length (p.sizeSeen m) l)
      (filled self.term.length (p.sizeSeen m) l) u) :
    ∃ q, mrecvl (Prefix.msockInto (conn iovMax)) junk l true (self, p.attach, s)
      = .ok (.error .EMSGSIZE, q) := by
  obtain ⟨s₁, hhdr, hs₁, hahead⟩ := header_arrives hs
  obtain ⟨lens, e, htrim⟩ := @trim_some self.term m l junk p hl hmax
  have hsum := Prefix.trim_sum htrim
  have hseen := sizeSeen_le p m
  have href := h _ hahead
  obtain ⟨s', hrun⟩ := Fd.conn_refused hs₁ (by rw [hsum, List.length_append]; omega)
    ((refused_iff htrim).mpr href)
  exact prefix_fails hl hhdr htrim hrun

theorem prefix_delivers (hm : m ≠ self.term) (hlt : m.length < 2 ^ 63)
    (hfirst : first ≠ []) (h : SuitsPrefix p link iovMax self.term.length m first) :
    Delivers (.overPrefix p) link iovMax self m first := by
  intro junk l n rest s halike hn hs
  have hcap := halike.capacity
  have hl : l ≠ [] := by
    rintro rfl
    cases halike
    exact hfirst rfl
  unfold SuitsPrefix at h
  constructor
  · intro hfit
    rw [← hcap, if_pos hfit] at h
    obtain ⟨hpow, hvacant, hstraight⟩ := h
    rw [← halike.straight, ← halike.filled] at hstraight
    exact prefix_fits hm (Prefix.sizeSeen_of_lt hpow hlt) hl hfit hs
      (fun hle => (hvacant hle).alike halike) hstraight
  · intro hlarge
    rw [← hcap, if_neg (not_le.mpr hlarge)] at h
    by_cases hmax : max self.term.length (capacity l) < p.sizeSeen m
    · have hne : ((passed junk self.term l).map Elem.len) ≠ [] := by
        simpa using passed_ne_nil hl
      obtain ⟨s₁, hhdr, -⟩ := header_arrives hs
      refine prefix_refused hl hhdr ?_
      rw [Prefix.trim_eq_none hne, sum_passed]
      exact hmax
    · have hends : decide (Ending self.term.length (p.sizeSeen m) l)
          = decide (Ending self.term.length (p.sizeSeen m) first) :=
        decide_eq_decide.mpr (halike.ending _ _)
      have hrefused := h.resolve_left hmax
      rw [← halike.filled, ← hends] at hrefused
      exact prefix_crowded hl hs (not_lt.mp hmax) hrefused

/-! ## The exact condition -/

theorem sends (v : Under) (self : TermSock) (m : Iolist) :
    msendl (v.msock (fun _ => lossless) 0) m.bufs (self, v.attach, [])
      = .ok (.ok (), self, v.attach, v.frame m.bytes) := by
  have hne : m.bufs.isEmpty = false := by simpa using m.bufs_ne
  unfold msendl Sock.msendl
  rw [hne, if_neg Bool.false_ne_true]
  cases v with
  | overSuffix t =>
    apply below_run
    have hsend := @Suffix.msendl_lossless t.attach [] m.bufs m.bufs_ne rfl
    rw [List.nil_append] at hsend
    exact hsend
  | overPrefix p =>
    apply below_run
    have hsend := @Prefix.msendl_lossless p.attach rfl [] m.bufs
    rw [List.nil_append] at hsend
    change Except.ok (p.attach.msendl lossless [] m.bufs) = _
    rw [hsend]
    rfl

/-- A terminator that `dill_term_attach` does not refuse. -/
theorem attach_accepted {buf : Elem} (h : ∀ e, attach true buf ≠ .ok (.error e)) :
    buf.bytes.length = buf.len ∧
      (buf.len ≤ maxTerminator → attach true buf = .ok (.ok ⟨buf.bytes, false, false⟩)) ∧
      (maxTerminator < buf.len → attach true buf = .error .fault) := by
  have hbuf : ¬ (0 < buf.len ∧ ¬ buf.IsBuf) := by
    intro hnull
    apply h .EINVAL
    unfold attach
    rw [Bool.not_true, Bool.false_and, if_neg Bool.false_ne_true, if_pos hnull]
  refine ⟨?_, fun hle => ?_, fun hlt => ?_⟩
  · cases buf with
    | null k =>
      have hk : ¬ 0 < k := fun hpos => hbuf ⟨hpos, id⟩
      change 0 = k
      omega
    | buf mem => rfl
  · unfold attach
    rw [Bool.not_true, Bool.false_and, if_neg Bool.false_ne_true, if_neg hbuf, Bool.false_or,
      if_neg (by simpa using hle)]
  · unfold attach
    rw [Bool.not_true, Bool.false_and, if_neg Bool.false_ne_true, if_neg hbuf, Bool.false_or,
      if_pos (by simpa using hlt)]

theorem transparent_iff_delivers {buf : Elem} {m : Iolist}
    (h : ∀ e, attach true buf ≠ .ok (.error e)) :
    Transparent v link iovMax buf m first ↔ buf.len ≤ maxTerminator ∧
      Delivers v link iovMax ⟨buf.bytes, false, false⟩ m.bytes first := by
  obtain ⟨-, hshort, hlong⟩ := attach_accepted h
  constructor
  · rintro ⟨self, w, hattach, hsend, hall⟩
    by_cases hle : buf.len ≤ maxTerminator
    · rw [hshort hle] at hattach
      cases hattach
      rw [sends] at hsend
      cases hsend
      exact ⟨hle, hall⟩
    · rw [hlong (by omega)] at hattach
      cases hattach
  · rintro ⟨hle, hall⟩
    exact ⟨_, _, hshort hle, sends v _ m, hall⟩

/-- **Which messages get through TERM.** For every terminator `dill_term_attach` does not refuse,
every message that is not the terminator and every iolist, over SUFFIX with any delimiter or PREFIX
with any header, on tcp and ipc connections. -/
theorem term_transparent_iff (v : Under) (link : Link) (iovMax : ℕ+) (buf : Elem) (m : Iolist)
    (it : Elem) (next : List Elem) (h : ∀ e, attach true buf ≠ .ok (.error e))
    (hm : m.bytes ≠ buf.bytes) :
    Transparent v link iovMax buf m (it :: next) ↔
      Suits v link iovMax buf.len m.bytes (it :: next) := by
  obtain ⟨hlen, -, -⟩ := attach_accepted h
  have hlt : m.bytes.length < 2 ^ 63 := m.size_lt
  rw [transparent_iff_delivers h]
  apply and_congr_right
  intro _
  cases v with
  | overSuffix t =>
    rw [← hlen]
    exact ⟨suffix_suits, fun hsuits => @suffix_delivers ⟨buf.bytes, false, false⟩ m.bytes it next
      link iovMax t hm hsuits⟩
  | overPrefix p =>
    rw [← hlen]
    have hne := List.cons_ne_nil it next
    exact ⟨prefix_suits hne hlt, fun hsuits => @prefix_delivers ⟨buf.bytes, false, false⟩ m.bytes
      (it :: next) link iovMax p hm hlt hne hsuits⟩

/-- The terminator "STOP". -/
def stop : Elem := .buf [83, 84, 79, 80]

theorem attach_stop (e : Errno) : attach true stop ≠ .ok (.error e) := by
  intro h
  cases (show attach true stop = .ok (.ok ⟨stop.bytes, false, false⟩) from rfl).symm.trans h

/-- The message "ABC" gets into three bytes. -/
theorem term_transparent_abc :
    Transparent (.overSuffix Suffix.crlf) .tcp 1024 stop ⟨[[65, 66, 67]], by decide, by decide⟩
      [.buf [0, 0, 0]] := by
  refine (term_transparent_iff _ .tcp 1024 stop _ _ [] attach_stop (by decide)).mpr ⟨by decide, ?_⟩
  change SuitsSuffix Suffix.crlf 4 [65, 66, 67] [.buf [0, 0, 0]]
  unfold SuitsSuffix
  rw [if_pos (by decide), if_neg (by decide)]
  refine ⟨by decide, fun x hx hlt => ?_⟩
  obtain rfl : x = 3 := by
    change 3 ≤ x at hx
    change x < 4 at hlt
    omega
  rfl

/-- A header of one byte, the most significant one first. -/
def oneByte : Params := ⟨1, false, by decide⟩

/-- Behind the message "a" the junk of the buffer for the terminator is copied to the iolist; two
bytes are said to hold a message of six; and on an ipc connection a message that is longer than the
terminator is not received into one buffer. -/
theorem term_not_transparent :
    ¬ Transparent (.overSuffix Suffix.crlf) .tcp 1024 stop ⟨[[97]], by decide, by decide⟩
        [.buf [0, 0, 0, 0, 0]] ∧
      ¬ Transparent (.overSuffix Suffix.crlf) .tcp 1024 stop
        ⟨[[65, 66, 67, 68, 69, 70]], by decide, by decide⟩ [.buf [0, 0]] ∧
      ¬ Transparent (.overPrefix oneByte) .ipc 1024 stop
        ⟨[[65, 66, 67, 68, 69]], by decide, by decide⟩ [.buf [0, 0, 0, 0, 0]] := by
  refine ⟨fun h => ?_, fun h => ?_, fun h => ?_⟩
  · have hsuits := suffix_suits ((transparent_iff_delivers attach_stop).mp h).2
    unfold SuitsSuffix at hsuits
    rw [if_pos (by decide), if_neg (by decide)] at hsuits
    have hcell := hsuits.2 1 (by decide) (by decide)
    cases hcell
  · have hsuits := suffix_suits ((transparent_iff_delivers attach_stop).mp h).2
    unfold SuitsSuffix at hsuits
    rw [if_neg (by decide)] at hsuits
    cases hsuits.1
  · have hsuits := prefix_suits (List.cons_ne_nil _ _) (by decide)
      ((transparent_iff_delivers attach_stop).mp h).2
    unfold SuitsPrefix at hsuits
    rw [if_pos (by decide)] at hsuits
    rcases (hsuits.2.2 (by decide) (.inl rfl)).1 with hone | hend
    · cases hone.1
    · exact absurd hend.1 (by decide)

end Libdill.Term
