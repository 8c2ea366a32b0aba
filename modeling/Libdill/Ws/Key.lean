import Libdill.Utils.Base64
import Libdill.Utils.Digest

/-!
# The keys of the handshake

`dill_ws_request_key` and `dill_ws_response_key` of `ws.c`. The strings are those of C without the
null character; `signed` says whether `char` is.

* `response_ok`, `response_over`, `response_short`, `response_long`, `response_stop`: what
  `dill_ws_response_key` makes of any string.
* `responseKey_checks_iff`: for which strings it accepts the nonces and nothing else.
-/

namespace Libdill.Ws

open Foundations Libdill.Sock Libdill.Utils

/-- `WS_KEY_SIZE`. -/
def keySize : ℕ := 32

/-- The identifier that is appended to a key. -/
def uuid : List UInt8 :=
  "258EAFA5-E914-47DA-95CA-C5AB0DC85B11".toList.map fun c => UInt8.ofNat c.toNat

/-- `EFAULT`. -/
def efault : Errno := .other 14

/-- `dill_ws_request_key`, with the bytes of `dill_random`: what it leaves in `request_key`. -/
def requestKey (nonce : List UInt8) (out : Option (ℕ → UInt8)) :
    Except Stop (Except Errno (ℕ → UInt8)) :=
  match out with
  | none => .ok (.error .EINVAL)
  | some out => do
    let (rc, mem) ← returned (base64Encode keySize nonce) out
    if rc < 0 then pure (.error efault) else pure (.ok mem)

/-- What is in the arrays `nonce` and `sha1.buffer` before they are written, and the two kinds of
machines: `char` is signed or not, and the lowest byte of a word comes first or last. -/
structure Machine where
  signed : Bool
  little : Bool
  nonce : ℕ → UInt8
  buffer : List UInt8
  buffer_length : buffer.length = 64

/-- The part of `dill_ws_response_key` behind the check of the key. The index of its loop is an
`int`. -/
def hashedKey (m : Machine) (key : List UInt8) (out : ℕ → UInt8) :
    Except Stop (Except Errno (ℕ → UInt8)) :=
  if 2 ^ 31 ≤ key.length then .error .fault
  else
    match ((key ++ uuid).foldl (Sha1.hashbyte m.little) (Sha1.init m.little m.buffer)).result
      m.little with
    | none => .error .waits
    | some hash => do
      let (rc, mem) ← returned (base64Encode keySize hash) out
      if rc < 0 then pure (.error efault) else pure (.ok mem)

/-- `dill_ws_response_key`: what it leaves in `response_key`. The loop of the decoder may go over the
string `k` times more than once. -/
def responseKey (m : Machine) (k : ℕ) (key : Option (List UInt8)) (out : Option (ℕ → UInt8)) :
    Except Stop (Except Errno (ℕ → UInt8)) :=
  match key, out with
  | some key, some out => do
    let (rc, _) ← returned (base64Decode 16 k m.signed key) m.nonce
    if rc ≠ 16 then pure (.error .EPROTO) else hashedKey m key out
  | _, _ => .ok (.error .EINVAL)

/-! ## Nonces -/

/-- The encoding of some nonce. -/
def IsNonce (key : List UInt8) : Prop := ∃ nonce : List UInt8, nonce.length = 16 ∧ rfc4648 nonce = key

/-- The key, its 24 characters: the last one that is not padding has only two bits. -/
def WellFormed (key : List UInt8) : Prop :=
  ∃ (l : List ℕ) (n : ℕ), l.length = 21 ∧ (∀ x ∈ l, x < 64) ∧ n < 64 ∧ n % 16 = 0 ∧
    key = (l ++ [n]).map charOf ++ [padChar, padChar]

theorem canonical_append {l : List ℕ} (h : ∀ n ∈ l, n < 64) {k : ℕ} (hk : l.length = 4 * k)
    {t : List UInt8} (ht : Canonical t) : Canonical (l.map charOf ++ t) := by
  induction k generalizing l with
  | zero =>
    rw [List.length_eq_zero_iff.mp hk]
    exact ht
  | succ k ih =>
    obtain ⟨a, b, c, d, l, rfl⟩ : ∃ a b c d l', l = a :: b :: c :: d :: l' := by
      match l, hk with
      | a :: b :: c :: d :: l', _ => exact ⟨a, b, c, d, l', rfl⟩
    simp only [List.forall_mem_cons] at h
    obtain ⟨ha, hb, hc, hd, hl⟩ := h
    simp only [List.length_cons] at hk
    exact .quad ha hb hc hd (ih hl (by omega))

/-- **The nonces** are the well-formed keys. -/
theorem isNonce_iff (key : List UInt8) : IsNonce key ↔ WellFormed key := by
  constructor
  · rintro ⟨nonce, hlen, rfl⟩
    obtain ⟨o, ho, htext⟩ := rfc4648_eq nonce
    obtain ⟨z, hz, hstream⟩ := ho.stream
    have hsize := congrArg List.length hstream
    simp only [length_bitStream, List.length_append, List.length_map, List.length_replicate, hlen]
      at hsize
    obtain rfl : z = 4 := by omega
    obtain ⟨l, n, rfl⟩ : ∃ l n, o = l ++ [n] := by
      rcases List.eq_nil_or_concat' o with rfl | h
      · simp at hsize
      · exact h
    have hl : l.length = 21 := by
      rw [List.length_append, List.length_singleton] at hsize
      omega
    have hlt := ho.lt
    have hn : n < 64 := hlt n (by simp)
    have hlow : bits 4 n = List.replicate 4 false := by
      rw [bitStream_append, bitStream_cons, bitStream_nil, List.append_nil,
        show (6 : ℕ) = 2 + 4 from rfl, bits_append, ← List.append_assoc] at hstream
      exact (List.append_inj_right' hstream (by simp))
    have hzero : n % 16 = 0 := by
      apply bits_inj (w := 4) _ (Nat.mod_lt _ (by decide)) (by decide)
      rw [bits_zero_right, ← hlow]
      exact bits_mod (le_refl 4)
    refine ⟨l, n, hl, fun x hx => hlt x (by simp [hx]), hn, hzero, ?_⟩
    rw [htext, textOf, padding, List.length_append, hl, List.length_singleton]
    rfl
  · rintro ⟨l, n, hl, hlt, hn, hzero, rfl⟩
    obtain ⟨l₁, a, rfl⟩ : ∃ l₁ a, l = l₁ ++ [a] := by
      rcases List.eq_nil_or_concat' l with rfl | h
      · simp at hl
      · exact h
    have ha : a < 64 := hlt a (by simp)
    have hcan : Canonical (((l₁ ++ [a]) ++ [n]).map charOf ++ [padChar, padChar]) := by
      have h := canonical_append (fun x hx => hlt x (by simp [hx]))
        (show l₁.length = 4 * 5 by simp at hl; omega) (.pad2 ha hn hzero)
      simpa using h
    obtain ⟨nonce, hnonce⟩ := hcan.exists
    refine ⟨nonce, ?_, hnonce⟩
    obtain ⟨o, ho, htext⟩ := rfc4648_eq nonce
    obtain ⟨z, hz, hstream⟩ := ho.stream
    have hsize := congrArg List.length hstream
    have hsext : sextets (rfc4648 nonce) = o := by rw [htext, sextets_textOf ho.lt]
    have hall : ∀ x ∈ (l₁ ++ [a]) ++ [n], x < 64 := by
      intro x hx
      rcases List.mem_append.mp hx with hx | hx
      · exact hlt x hx
      · rw [List.mem_singleton.mp hx]
        exact hn
    rw [hnonce, sextets_append hall] at hsext
    have htail : sextets [padChar, padChar] = [] := sextets_stop (by decide +kernel)
    rw [htail, List.append_nil] at hsext
    rw [← hsext] at hsize
    simp only [length_bitStream, List.length_append, List.length_map, List.length_replicate,
      List.length_singleton] at hsize hl
    omega

/-! ## The decoder on a key -/

variable {m : Machine} {k : ℕ} {key : List UInt8} {out : ℕ → UInt8}

/-- The part of the string that the decoder looks at. -/
def seen (key : List UInt8) : List UInt8 := key.take uintRange

/-- The number of its characters that stand for six bits. -/
def sextetCount (key : List UInt8) : ℕ := (sextets (seen key)).length

/-- The decoder gets to the end of the string, or to a character that ends the text. -/
def Finishes (key : List UInt8) : Prop := stops (seen key) = true ∨ key.length < uintRange

/-- More than 16 bytes. -/
theorem decode_over (h : 22 < sextetCount key) :
    ∃ mem, returned (base64Decode 16 k m.signed key) m.nonce = .ok (-1, mem) := by
  obtain ⟨o, y, hdec, hemits⟩ := @decode_emits_first 16 k m.signed key
  have hlen := hdec.length
  unfold sextetCount seen at h
  have hrun := hemits.full (o := ⟨m.nonce, 0⟩) rfl (Nat.zero_le _) (by omega) (by decide)
  rw [returned, hrun]
  exact ⟨_, rfl⟩

theorem decode_overrun (h : sextetCount key ≤ 22) (hend : Finishes key)
    (hover : overrun m.signed (seen key) = true) :
    returned (base64Decode 16 k m.signed key) m.nonce = .error .fault := by
  obtain ⟨o, hdec, hemits⟩ := @decode_emits 16 k m.signed key hend
  have hlen := hdec.length
  unfold sextetCount seen at h
  have hrun := hemits.run (o := ⟨m.nonce, 0⟩) rfl (by omega) (by unfold uintRange; omega)
  unfold seen at hover
  rw [unlessOverrun, if_pos hover] at hrun
  rw [returned, hrun]
  rfl

/-- At most 16 bytes. -/
theorem decode_end (h : sextetCount key ≤ 22) (hend : Finishes key)
    (hover : overrun m.signed (seen key) = false) :
    ∃ mem, returned (base64Decode 16 k m.signed key) m.nonce
      = .ok (↑(sextetCount key * 6 / 8), mem) := by
  obtain ⟨o, hdec, hemits⟩ := @decode_emits 16 k m.signed key hend
  have hlen := hdec.length
  unfold sextetCount seen at h ⊢
  have hrun := hemits.run (o := ⟨m.nonce, 0⟩) rfl (by omega) (by unfold uintRange; omega)
  unfold seen at hover
  rw [unlessOverrun, hover] at hrun
  rw [returned, hrun]
  refine ⟨patch m.nonce 0 o, ?_⟩
  have hint := asInt_eq (show 0 + o.length < 2 ^ 31 by omega)
  rw [Nat.zero_add, hlen] at hint
  simp only [Call.look, Bool.false_eq_true, if_false, Nat.zero_add, hlen, hint]

/-- A string without an end, again and again. -/
theorem decode_again (hend : ¬Finishes key) (hcount : sextetCount key ≠ 0) (hk : 22 ≤ k) :
    ∃ mem, returned (base64Decode 16 k m.signed key) m.nonce = .ok (-1, mem) := by
  unfold Finishes at hend
  obtain ⟨hstop, hlong⟩ := not_or.mp hend
  obtain ⟨o, hlen, hemits⟩ := @decode_emits_endless 16 k m.signed key
    (Bool.not_eq_true _ ▸ hstop) (by omega)
  unfold sextetCount seen at hcount
  have hle : 23 * 1 ≤ (k + 1) * (sextets (key.take uintRange)).length :=
    Nat.mul_le_mul (by omega) (by omega)
  have hrun := hemits.full (o := ⟨m.nonce, 0⟩) rfl (Nat.zero_le _) (by omega) (by decide)
  rw [returned, hrun]
  exact ⟨_, rfl⟩

theorem decode_endless (hend : ¬Finishes key) (hcount : sextetCount key = 0) :
    returned (base64Decode 16 k m.signed key) m.nonce = .error .waits := by
  unfold Finishes at hend
  obtain ⟨hstop, hlong⟩ := not_or.mp hend
  obtain ⟨o, hlen, hemits⟩ := @decode_emits_endless 16 k m.signed key
    (Bool.not_eq_true _ ▸ hstop) (by omega)
  unfold sextetCount seen at hcount
  rw [hcount, Nat.mul_zero, Nat.zero_mul, Nat.zero_div] at hlen
  have hrun := hemits.run (o := ⟨m.nonce, 0⟩) rfl (by omega) (by unfold uintRange; omega)
  rw [returned, hrun]
  rfl

/-! ## What the function returns -/

/-- The value that goes into `Sec-WebSocket-Accept`. -/
def acceptValue (key : List UInt8) : List UInt8 := rfc4648 (sha1 (key ++ uuid))

theorem response_refused {rc : ℤ} {mem : ℕ → UInt8}
    (h : returned (base64Decode 16 k m.signed key) m.nonce = .ok (rc, mem)) (hrc : rc ≠ 16) :
    responseKey m k (some key) (some out) = .ok (.error .EPROTO) := by
  unfold responseKey
  simp only [h]
  change (if rc ≠ 16 then _ else _) = _
  rw [if_pos hrc]
  rfl

theorem response_stop {r : Stop}
    (h : returned (base64Decode 16 k m.signed key) m.nonce = .error r) :
    responseKey m k (some key) (some out) = .error r := by
  unfold responseKey
  simp only [h]
  rfl

theorem response_over (h : 22 < sextetCount key) :
    responseKey m k (some key) (some out) = .ok (.error .EPROTO) := by
  obtain ⟨mem, hmem⟩ := decode_over h
  exact response_refused hmem (by decide)

theorem response_short (h : sextetCount key < 22) (hend : Finishes key)
    (hover : overrun m.signed (seen key) = false) :
    responseKey m k (some key) (some out) = .ok (.error .EPROTO) := by
  obtain ⟨mem, hmem⟩ := decode_end (by omega) hend hover
  exact response_refused hmem (by omega)

theorem response_hashed {mem : ℕ → UInt8}
    (h : returned (base64Decode 16 k m.signed key) m.nonce = .ok (16, mem)) :
    responseKey m k (some key) (some out) = hashedKey m key out := by
  unfold responseKey
  simp only [h]
  change (if (16 : ℤ) ≠ 16 then pure (.error .EPROTO) else hashedKey m key out) = _
  rw [if_neg (by decide)]

theorem decode_sixteen (h : sextetCount key = 22) (hend : Finishes key)
    (hover : overrun m.signed (seen key) = false) :
    ∃ mem, returned (base64Decode 16 k m.signed key) m.nonce = .ok (16, mem) := by
  obtain ⟨mem, hmem⟩ := @decode_end m k key (by omega) hend hover
  rw [h] at hmem
  exact ⟨mem, hmem⟩

/-- **The strings that are accepted.** -/
theorem response_ok (h : sextetCount key = 22) (hend : Finishes key)
    (hover : overrun m.signed (seen key) = false) (hlen : key.length < 2 ^ 31) :
    responseKey m k (some key) (some out) = .ok (.ok (patch out 0 (acceptValue key ++ [0]))) := by
  obtain ⟨mem, hmem⟩ := @decode_sixteen m k key h hend hover
  have hsize : (key ++ uuid).length < 2 ^ 32 := by
    rw [List.length_append, show uuid.length = 36 by decide +kernel]
    omega
  have hsha := length_sha1 (key ++ uuid)
  have henc : returned (base64Encode keySize (sha1 (key ++ uuid))) out
      = .ok (28, patch out 0 (acceptValue key ++ [0])) := by
    have hlarge := @encode_large keySize (sha1 (key ++ uuid)) out (by rw [hsha]; decide)
      (by rw [hsha]; decide)
    rw [hsha] at hlarge
    exact hlarge
  rw [response_hashed hmem, hashedKey, if_neg (by omega),
    result_eq m.little m.buffer_length (key ++ uuid) hsize]
  simp only [henc]
  rfl

/-- A string that is too long for the index. -/
theorem response_long (h : sextetCount key = 22) (hend : Finishes key)
    (hover : overrun m.signed (seen key) = false) (hlen : 2 ^ 31 ≤ key.length) :
    responseKey m k (some key) (some out) = .error .fault := by
  obtain ⟨mem, hmem⟩ := @decode_sixteen m k key h hend hover
  rw [response_hashed hmem, hashedKey, if_pos hlen]

/-! ## The check -/

/-- The decoder does not look outside of its table, and the strings that are accepted are the
nonces. -/
structure Checks (key : List UInt8) (r : Except Stop (Except Errno (ℕ → UInt8))) : Prop where
  inRange : r ≠ .error .fault
  accepts : (∃ mem, r = .ok (.ok mem)) ↔ IsNonce key
  refuses : ¬IsNonce key → r = .ok (.error .EPROTO)

/-- There are too many characters, or the string has an end, is not taken for one of negative
characters and, if the number of its characters is right, is well formed. A string that has no end
that the decoder can see must not be empty for it. -/
def WellChecked (signed : Bool) (key : List UInt8) : Prop :=
  22 < sextetCount key ∨
    (Finishes key ∧ overrun signed (seen key) = false ∧ (sextetCount key = 22 → WellFormed key)) ∨
    (¬Finishes key ∧ sextetCount key ≠ 0)

theorem WellFormed.facts (h : WellFormed key) (signed : Bool) :
    sextetCount key = 22 ∧ Finishes key ∧ overrun signed (seen key) = false ∧ key.length = 24 := by
  obtain ⟨l, n, hl, hlt, hn, -, rfl⟩ := h
  have hall : ∀ x ∈ l ++ [n], x < 64 := by
    intro x hx
    rcases List.mem_append.mp hx with hx | hx
    · exact hlt x hx
    · rw [List.mem_singleton.mp hx]
      exact hn
  have hlen : ((l ++ [n]).map charOf ++ [padChar, padChar]).length = 24 := by simp [hl]
  have hseen : seen ((l ++ [n]).map charOf ++ [padChar, padChar])
      = (l ++ [n]).map charOf ++ [padChar, padChar] := by
    apply List.take_of_length_le
    rw [hlen]
    decide
  have hstop : inText padChar = false := by decide +kernel
  refine ⟨?_, .inr (by rw [hlen]; decide), ?_, hlen⟩
  · rw [sextetCount, hseen, sextets_append hall, sextets_stop hstop]
    simp [hl]
  · rw [hseen, overrun_append signed hall, overrun_stop hstop]
    simp [padChar]

theorem checks_refused {r : Except Stop (Except Errno (ℕ → UInt8))} (hr : r = .ok (.error .EPROTO))
    (hkey : ¬WellFormed key) : Checks key r := by
  subst hr
  refine ⟨nofun, iff_of_false nofun (fun h => hkey ((isNonce_iff key).mp h)), fun _ => rfl⟩

theorem not_checks_stop {r : Stop} : ¬Checks key (.error r) := by
  intro h
  by_cases hkey : IsNonce key
  · obtain ⟨mem, hmem⟩ := h.accepts.mpr hkey
    cases hmem
  · cases h.refuses hkey

/-- **When `dill_ws_response_key` is right** for all numbers of turns from some number on: when the
string has too many characters, or a right number of them in a well-formed key, or a wrong number of
them with nothing behind them that a signed `char` makes negative. -/
theorem responseKey_checks_iff (m : Machine) (key : List UInt8) (out : ℕ → UInt8) :
    (∃ n, ∀ k, n ≤ k → Checks key (responseKey m k (some key) (some out))) ↔
      WellChecked m.signed key := by
  constructor
  · rintro ⟨n, hn⟩
    have hchecks := hn n (le_refl n)
    by_cases hover : 22 < sextetCount key
    · exact .inl hover
    · by_cases hend : Finishes key
      · refine .inr (.inl ⟨hend, ?_, fun hcount => ?_⟩)
        · by_contra h
          rw [response_stop (decode_overrun (by omega) hend (by simpa using h))] at hchecks
          exact not_checks_stop hchecks
        · by_contra hkey
          have hno : overrun m.signed (seen key) = false := by
            by_contra h
            rw [response_stop (decode_overrun (by omega) hend (by simpa using h))] at hchecks
            exact not_checks_stop hchecks
          by_cases hlen : key.length < 2 ^ 31
          · rw [response_ok hcount hend hno hlen] at hchecks
            exact hkey ((isNonce_iff key).mp (hchecks.accepts.mp ⟨_, rfl⟩))
          · rw [response_long hcount hend hno (by omega)] at hchecks
            exact not_checks_stop hchecks
      · refine .inr (.inr ⟨hend, fun hcount => ?_⟩)
        rw [response_stop (decode_endless hend hcount)] at hchecks
        exact not_checks_stop hchecks
  · rintro (hover | ⟨hend, hno, hkey⟩ | ⟨hend, hcount⟩)
    · refine ⟨0, fun k _ => checks_refused (response_over hover) fun h => ?_⟩
      rw [(h.facts m.signed).1] at hover
      omega
    · refine ⟨0, fun k _ => ?_⟩
      rcases Nat.lt_trichotomy (sextetCount key) 22 with hlt | heq | hgt
      · refine checks_refused (response_short hlt hend hno) fun h => ?_
        rw [(h.facts m.signed).1] at hlt
        omega
      · have hwell := hkey heq
        have hlen : key.length < 2 ^ 31 := by
          rw [(hwell.facts m.signed).2.2.2]
          decide
        have hnonce := (isNonce_iff key).mpr hwell
        rw [response_ok heq hend hno hlen]
        exact ⟨nofun, iff_of_true ⟨_, rfl⟩ hnonce, fun h => absurd hnonce h⟩
      · refine checks_refused (response_over hgt) fun h => ?_
        rw [(h.facts m.signed).1] at hgt
        omega
    · refine ⟨22, fun k hk => ?_⟩
      obtain ⟨mem, hmem⟩ := @decode_again m k key hend hcount hk
      exact checks_refused (response_refused hmem (by decide)) fun h =>
        hend (h.facts m.signed).2.1

/-- The string `AAAAAAAAAAAAAAAAAAAAAA`, a nonce without its padding. -/
def unpadded : List UInt8 := List.replicate 22 65

/-- The machine is one with a signed `char` and the lowest byte first. -/
def commonMachine : Machine := ⟨true, true, fun _ => 0, List.replicate 64 0, rfl⟩

/-- It is accepted. -/
theorem responseKey_accepts_unpadded :
    ¬∀ (m : Machine) (key : List UInt8) (out : ℕ → UInt8), (∀ c ∈ key, c ≠ 0) →
      ∃ n, ∀ k, n ≤ k → Checks key (responseKey m k (some key) (some out)) := by
  intro h
  have hzero : 0 ∉ unpadded := by decide
  obtain ⟨n, hn⟩ := h commonMachine unpadded (fun _ => 0) fun c hc hz => hzero (hz ▸ hc)
  have hlen : unpadded.length = 22 := rfl
  have hseen : seen unpadded = unpadded := List.take_of_length_le (by rw [hlen]; decide)
  have hcount : sextetCount unpadded = 22 := by
    rw [sextetCount, hseen]
    decide +kernel
  have hover : overrun commonMachine.signed (seen unpadded) = false := by
    rw [hseen]
    decide +kernel
  have hchecks := hn n (le_refl n)
  rw [response_ok hcount (.inr (by rw [hlen]; decide)) hover (by rw [hlen]; decide)] at hchecks
  have hwell := (isNonce_iff _).mp (hchecks.accepts.mp ⟨_, rfl⟩)
  have hsize := (hwell.facts true).2.2.2
  rw [hlen] at hsize
  exact absurd hsize (by decide)

end Libdill.Ws
