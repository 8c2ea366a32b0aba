import Libdill.Prefix.RoundTrip
import Libdill.Ws.Frame
import Libdill.Ws.Model

/-!
# The encoder

What `dill_ws_sendl_base` puts on the wire.

* `putHdr_minimal`, `putHdr_overflow`: the header, and when it does not fit in its buffer.
* `client_encodes_iff`: a client sends one masked frame of the message, and does not write outside
  its buffer, exactly when the message has at most 65535 bytes.
-/

namespace Libdill.Ws

open Foundations Libdill.Sock

/-! ## Integers in network byte order -/

theorem byte_of_shift (n k : ℕ) : n >>> (8 * k) % 256 = n / 256 ^ k % 256 := by
  rw [Nat.shiftRight_eq_div_pow, pow_mul]
  rfl

theorem and_ff (n : ℕ) : n &&& 255 = n % 256 := Nat.and_two_pow_sub_one_eq_mod n 8

theorem puts_eq (val : UInt16) : puts val = bigEndian 2 val.toNat := by
  have h0 : ((val >>> 8) &&& 0xff).toUInt8 = UInt8.ofNat (val.toNat / 256 ^ 1) := by
    apply UInt8.toNat_inj.mp
    simp [and_ff, Nat.shiftRight_eq_div_pow]
  have h1 : (val &&& 0xff).toUInt8 = UInt8.ofNat (val.toNat / 256 ^ 0) := by
    apply UInt8.toNat_inj.mp
    simp [and_ff]
  rw [puts, h0, h1]
  rfl

/-- One byte of `dill_putll`. -/
theorem putll_byte (val : UInt64) {k : ℕ} {s : UInt64} (hs : s.toNat = 8 * k) (hk : k < 8) :
    ((val >>> s) &&& 0xff).toUInt8 = UInt8.ofNat (val.toNat / 256 ^ k) := by
  apply UInt8.toNat_inj.mp
  have hmod : s.toNat % 64 = 8 * k := by omega
  simp [and_ff, hmod, byte_of_shift]

theorem putll_eq (val : UInt64) : putll val = bigEndian 8 val.toNat := by
  have h0 : (val &&& 0xff).toUInt8 = UInt8.ofNat (val.toNat / 256 ^ 0) := by
    apply UInt8.toNat_inj.mp
    simp [and_ff]
  rw [putll, h0, putll_byte val (k := 7) rfl (by omega), putll_byte val (k := 6) rfl (by omega),
    putll_byte val (k := 5) rfl (by omega), putll_byte val (k := 4) rfl (by omega),
    putll_byte val (k := 3) rfl (by omega), putll_byte val (k := 2) rfl (by omega),
    putll_byte val (k := 1) rfl (by omega)]
  rfl

/-- A byte joined to those below it. -/
theorem or_shift {b n k : ℕ} (hn : n < 2 ^ k) : b <<< k ||| n = b * 2 ^ k + n := by
  rw [Nat.shiftLeft_eq, Nat.mul_comm]
  exact (Nat.two_pow_add_eq_or_of_lt hn b).symm

theorem gets_toNat (a b : UInt8) : (gets [a, b]).toNat = ofBigEndian [a, b] := by
  have ha : a.toNat < 2 ^ 8 := UInt8.toNat_lt a
  have hb : b.toNat < 2 ^ 8 := UInt8.toNat_lt b
  have hshift : (a.toUInt16 <<< 8).toNat = a.toNat <<< 8 := by
    rw [UInt16.toNat_shiftLeft, UInt8.toNat_toUInt16]
    change a.toNat <<< 8 % 2 ^ 16 = _
    rw [Nat.shiftLeft_eq]
    omega
  change (a.toUInt16 <<< 8 ||| b.toUInt16).toNat = (0 * 256 + a.toNat) * 256 + b.toNat
  rw [UInt16.toNat_or, hshift, UInt8.toNat_toUInt16, or_shift hb]
  omega

theorem getll_shift (a : UInt8) (s : UInt64) {k : ℕ} (hs : s.toNat = k) (hk : k ≤ 56) :
    (a.toUInt64 <<< s).toNat = a.toNat <<< k := by
  have ha : a.toNat < 2 ^ 8 := UInt8.toNat_lt a
  have hpow : (2 : ℕ) ^ k ≤ 2 ^ 56 := Nat.pow_le_pow_right (by omega) hk
  have hlt : a.toNat * 2 ^ k < 2 ^ 64 := by
    calc a.toNat * 2 ^ k ≤ a.toNat * 2 ^ 56 := Nat.mul_le_mul_left _ hpow
      _ < 2 ^ 64 := by omega
  have hmod : s.toNat % 64 = k := by omega
  rw [UInt64.toNat_shiftLeft, UInt8.toNat_toUInt64, hmod, Nat.shiftLeft_eq, Nat.mod_eq_of_lt hlt]

theorem getll_toNat (a b c d e f g h : UInt8) :
    (getll [a, b, c, d, e, f, g, h]).toNat = ofBigEndian [a, b, c, d, e, f, g, h] := by
  have ha : a.toNat < 2 ^ 8 := UInt8.toNat_lt a
  have hb : b.toNat < 2 ^ 8 := UInt8.toNat_lt b
  have hc : c.toNat < 2 ^ 8 := UInt8.toNat_lt c
  have hd : d.toNat < 2 ^ 8 := UInt8.toNat_lt d
  have he : e.toNat < 2 ^ 8 := UInt8.toNat_lt e
  have hf : f.toNat < 2 ^ 8 := UInt8.toNat_lt f
  have hg : g.toNat < 2 ^ 8 := UInt8.toNat_lt g
  have hh : h.toNat < 2 ^ 8 := UInt8.toNat_lt h
  change (a.toUInt64 <<< 56 ||| b.toUInt64 <<< 48 ||| c.toUInt64 <<< 40 ||| d.toUInt64 <<< 32 |||
    e.toUInt64 <<< 24 ||| f.toUInt64 <<< 16 ||| g.toUInt64 <<< 8 ||| h.toUInt64 <<< 0).toNat = _
  simp only [UInt64.toNat_or, getll_shift a 56 (k := 56) rfl (by omega),
    getll_shift b 48 (k := 48) rfl (by omega), getll_shift c 40 (k := 40) rfl (by omega),
    getll_shift d 32 (k := 32) rfl (by omega), getll_shift e 24 (k := 24) rfl (by omega),
    getll_shift f 16 (k := 16) rfl (by omega), getll_shift g 8 (k := 8) rfl (by omega),
    getll_shift h 0 (k := 0) rfl (by omega), Nat.or_assoc, Nat.shiftLeft_zero]
  rw [or_shift (by omega : h.toNat < 2 ^ 8), or_shift (by omega : _ < 2 ^ 16),
    or_shift (by omega : _ < 2 ^ 24), or_shift (by omega : _ < 2 ^ 32),
    or_shift (by omega : _ < 2 ^ 40), or_shift (by omega : _ < 2 ^ 48),
    or_shift (by omega : _ < 2 ^ 56)]
  simp only [ofBigEndian, List.foldl_cons, List.foldl_nil]
  omega

/-! ## The header -/

variable {self : WsSock} {flags : UInt32} {first : List (List UInt8)} {key : Key}
  {wire : List UInt8}

/-- A message in one frame, with the shortest form of its length. -/
def Frame.whole (opcode : UInt8) (key : Option Key) (m : List UInt8) (h : m.length < 2 ^ 63) :
    Frame where
  fin := true
  opcode := opcode
  key := key
  form := .minimal m.length
  payload := m
  fits := LenForm.minimal_fits h

section Header

variable {n : ℕ} (type : UInt8) (key : Option Key)

theorem gt_ofNat {n k : ℕ} (hn : n < 2 ^ 64) (hk : k < 2 ^ 64) :
    UInt64.ofNat n > UInt64.ofNat k ↔ k < n := by
  rw [gt_iff_lt, UInt64.lt_iff_toNat_lt, UInt64.toNat_ofNat', UInt64.toNat_ofNat',
    Nat.mod_eq_of_lt hn, Nat.mod_eq_of_lt hk]

theorem putHdr_short (hn : n ≤ 125) :
    ∃ buf sz, putHdr key.isNone type (UInt64.ofNat n) (keyBytes key) = some (buf, sz) ∧
      buf.take sz = hdrBytes true type key.isSome n ++ keyBytes key := by
  have hlong : ¬ UInt64.ofNat n > 0xffff := by
    rw [show (0xffff : UInt64) = UInt64.ofNat 65535 by rfl, gt_ofNat (by omega) (by omega)]
    omega
  have hmedium : ¬ UInt64.ofNat n > 125 := by
    rw [show (125 : UInt64) = UInt64.ofNat 125 by rfl, gt_ofNat (by omega) (by omega)]
    omega
  have hbyte : (UInt64.ofNat n).toUInt8 = UInt8.ofNat n := by
    apply UInt8.toNat_inj.mp
    simp
  unfold putHdr putSize
  simp only [if_neg hlong, if_neg hmedium, hbyte]
  cases key with
  | none =>
    refine ⟨_, _, rfl, ?_⟩
    change [0x80 ||| type, UInt8.ofNat n] = [0x80 ||| type, 0 ||| UInt8.ofNat n]
    rw [UInt8.zero_or]
  | some key =>
    obtain ⟨bytes, hkey⟩ := key
    obtain ⟨a, b, c, d, rfl⟩ := List.length_eq_four.mp hkey
    refine ⟨_, _, rfl, ?_⟩
    change [0x80 ||| type, UInt8.ofNat n ||| 0x80, a, b, c, d]
      = [0x80 ||| type, 0x80 ||| UInt8.ofNat n, a, b, c, d]
    rw [UInt8.or_comm (UInt8.ofNat n)]

theorem putHdr_medium (h125 : 125 < n) (hn : n < 2 ^ 16) :
    ∃ buf sz, putHdr key.isNone type (UInt64.ofNat n) (keyBytes key) = some (buf, sz) ∧
      buf.take sz = hdrBytes true type key.isSome 126 ++ bigEndian 2 n ++ keyBytes key := by
  have hlong : ¬ UInt64.ofNat n > 0xffff := by
    rw [show (0xffff : UInt64) = UInt64.ofNat 65535 by rfl, gt_ofNat (by omega) (by omega)]
    omega
  have hmedium : UInt64.ofNat n > 125 := by
    rw [show (125 : UInt64) = UInt64.ofNat 125 by rfl, gt_ofNat (by omega) (by omega)]
    exact h125
  have hputs : puts (UInt64.ofNat n).toUInt16 = bigEndian 2 n := by
    have hval : (UInt64.ofNat n).toUInt16.toNat = n := by
      rw [UInt64.toNat_toUInt16, UInt64.toNat_ofNat']
      omega
    rw [puts_eq, hval]
  unfold putHdr putSize
  simp only [if_neg hlong, if_pos hmedium, hputs]
  cases key with
  | none =>
    refine ⟨_, _, rfl, ?_⟩
    change _ = hdrBytes true type false 126 ++ bigEndian 2 n ++ []
    rw [show hdrBytes true type false 126 = [0x80 ||| type, 126] by rfl]
    rfl
  | some key =>
    obtain ⟨bytes, hkey⟩ := key
    obtain ⟨a, b, c, d, rfl⟩ := List.length_eq_four.mp hkey
    refine ⟨_, _, rfl, ?_⟩
    change _ = hdrBytes true type true 126 ++ bigEndian 2 n ++ [a, b, c, d]
    rw [show hdrBytes true type true 126 = [0x80 ||| type, 126 ||| 0x80] by rfl]
    rfl

theorem putHdr_long (hn : 2 ^ 16 ≤ n) (hlt : n < 2 ^ 64) :
    ∃ buf sz, putHdr true type (UInt64.ofNat n) [] = some (buf, sz) ∧
      buf.take sz = hdrBytes true type false 127 ++ bigEndian 8 n := by
  have hlong : UInt64.ofNat n > 0xffff := by
    rw [show (0xffff : UInt64) = UInt64.ofNat 65535 by rfl, gt_ofNat (by omega) (by omega)]
    omega
  have hputll : putll (UInt64.ofNat n) = bigEndian 8 n := by
    rw [putll_eq, UInt64.toNat_ofNat', Nat.mod_eq_of_lt hlt]
  unfold putHdr putSize
  simp only [if_pos hlong, hputll]
  refine ⟨_, _, rfl, ?_⟩
  rw [show hdrBytes true type false 127 = [0x80 ||| type, 127] by rfl]
  rfl

/-- The header of a frame is written inside the buffer, which has room for the eight bytes of a
long size or for the key but not for both. -/
theorem putHdr_minimal (hlt : n < 2 ^ 64) (hroom : key = none ∨ n < 2 ^ 16) :
    ∃ buf sz, putHdr key.isNone type (UInt64.ofNat n) (keyBytes key) = some (buf, sz) ∧
      buf.take sz = hdrBytes true type key.isSome ((LenForm.minimal n).code n) ++
        (LenForm.minimal n).ext n ++ keyBytes key := by
  unfold LenForm.minimal
  by_cases hshort : n ≤ 125
  · rw [if_pos hshort]
    exact putHdr_short type key hshort
  · rw [if_neg hshort]
    by_cases hmedium : n < 2 ^ 16
    · rw [if_pos hmedium]
      exact putHdr_medium type key (by omega) hmedium
    · rw [if_neg hmedium]
      rcases hroom with rfl | h
      · obtain ⟨buf, sz, hput, htake⟩ := putHdr_long type (by omega) hlt
        refine ⟨buf, sz, hput, ?_⟩
        rw [htake]
        rfl
      · exact absurd h hmedium

end Header

/-- The key does not fit behind a long size. -/
theorem putHdr_overflow {len : UInt64} (hlen : len > 0xffff) (type : UInt8) (key : Key) :
    putHdr false type len key.bytes = none := by
  obtain ⟨bytes, hkey⟩ := key
  obtain ⟨a, b, c, d, rfl⟩ := List.length_eq_four.mp hkey
  unfold putHdr putSize
  simp only [if_pos hlen]
  rfl

/-! ## A message on the wire -/

theorem sendBytes_lossless (key : Key) (pos : ℕ) (bs : List UInt8) (wire : List UInt8) :
    sendBytes lossless key.bytes pos bs wire
      = .ok (.ok (pos + bs.length), wire ++ key.mask pos bs) := by
  induction bs generalizing pos wire with
  | nil => simp [sendBytes]
  | cons b bs ih =>
    rw [sendBytes, Call.bind_ret (bsend_lossless _ _), ih]
    simp only [Key.mask, Key.at, List.append_assoc, List.singleton_append, List.length_cons]
    rw [show pos + 1 + bs.length = pos + (bs.length + 1) by omega]

/-- The position in the payload runs across the elements. -/
theorem sendElems_lossless (key : Key) (pos : ℕ) (first : List (List UInt8)) (wire : List UInt8) :
    sendElems lossless key.bytes pos first wire
      = .ok (.ok (), wire ++ key.mask pos first.flatten) := by
  induction first generalizing pos wire with
  | nil => simp [sendElems]
  | cons it next ih =>
    rw [sendElems, Call.bind_ret (sendBytes_lossless key pos it wire), ih, List.flatten_cons,
      mask_append, List.append_assoc]

theorem require_open {σ : Type} {s : σ} (ho : self.outdone = false) :
    (Call.require (self.outdone == false) .EPIPE : Call σ Stop Errno Unit) s
      = .ok (.ok (), s) := by
  rw [ho]
  rfl

/-- A client sends a message of at most 65535 bytes as one masked frame. -/
theorem sendlBase_client (hs : self.server = false) (ho : self.outdone = false) (type : UInt8)
    (h : first.flatten.length < 2 ^ 16) (wire : List UInt8) :
    sendlBase lossless self type first (.ok key.bytes) wire = .ok (.ok (),
      wire ++ (Frame.whole type (some key) first.flatten (by omega)).encode) := by
  obtain ⟨buf, sz, hput, htake⟩ := putHdr_minimal type (some key) (by omega) (.inr h)
  have hput' : putHdr false type (UInt64.ofNat first.flatten.length) key.bytes = some (buf, sz) :=
    hput
  have hmask : makeMask false (.ok key.bytes) wire = .ok (.ok key.bytes, wire) := rfl
  unfold sendlBase
  rw [Call.bind_ret (require_open ho), hs, Call.bind_ret hmask, Prefix.iolSize_eq, hput']
  simp only [Bool.false_eq_true, if_false]
  rw [Call.bind_ret (bsend_lossless _ _), htake, sendElems_lossless, List.append_assoc]
  rfl

/-- A server sends a message as one frame, from any iolist that is not a pair of null pointers. -/
theorem sendlBase_server (hs : self.server = true) (ho : self.outdone = false) (type : UInt8)
    (hne : first ≠ []) (h : first.flatten.length < 2 ^ 63) (random : Except Errno (List UInt8))
    (wire : List UInt8) :
    sendlBase lossless self type first random wire = .ok (.ok (),
      wire ++ (Frame.whole type none first.flatten h).encode) := by
  obtain ⟨buf, sz, hput, htake⟩ := putHdr_minimal type none
    (show first.flatten.length < 2 ^ 64 by omega) (.inl rfl)
  have hput' : putHdr true type (UInt64.ofNat first.flatten.length) [] = some (buf, sz) := hput
  have hmask : makeMask true random wire = .ok (.ok [], wire) := rfl
  unfold sendlBase
  rw [Call.bind_ret (require_open ho), hs, Call.bind_ret hmask, Prefix.iolSize_eq, hput']
  simp only [if_true]
  rw [Call.bind_ret (bsend_lossless _ _), htake, bsendl_lossless hne, List.append_assoc]
  rfl

/-- A client that sends more than 65535 bytes writes past the end of its buffer. -/
theorem sendlBase_overflow (hs : self.server = false) (ho : self.outdone = false) (type : UInt8)
    (h : Prefix.iolSize first > 0xffff) (wire : List UInt8) :
    sendlBase lossless self type first (.ok key.bytes) wire = .error .fault := by
  have hmask : makeMask false (.ok key.bytes) wire = .ok (.ok key.bytes, wire) := rfl
  unfold sendlBase
  rw [Call.bind_ret (require_open ho), hs, Call.bind_ret hmask, putHdr_overflow h]
  rfl

/-! ## The encoder of the client -/

/-- A send of `first` with the mask `key` stays inside its buffer and puts exactly one frame on the
wire: the last one of its message, of the right type, with the shortest form of the size, masked
with the key by the position in the payload, and with the bytes of the iolist as its payload. -/
def WsSock.Encodes (self : WsSock) (flags : UInt32) (first : List (List UInt8)) (key : Key) :
    Prop :=
  ∃ f : Frame, f.fin = true ∧ f.opcode = opcodeOf flags ∧ f.key = some key ∧
    f.form = .minimal f.payload.length ∧ f.payload = first.flatten ∧
    ∀ wire, sendl lossless self flags first (.ok key.bytes) wire
      = .ok (.ok (), wire ++ f.encode)

/-- **The encoder of the client.** It is right exactly for the messages of at most 65535 bytes. -/
theorem client_encodes_iff (self : WsSock) (hs : self.server = false) (ho : self.outdone = false)
    (flags : UInt32) (first : List (List UInt8)) (key : Key) :
    self.Encodes flags first key ↔ first.flatten.length ≤ 65535 := by
  constructor
  · rintro ⟨f, -, -, -, -, hpayload, hsend⟩
    have hlt : first.flatten.length < 2 ^ 63 := by
      rw [← hpayload]
      exact f.fits.lt
    by_contra hlong
    have hsize : Prefix.iolSize first > 0xffff := by
      rw [Prefix.iolSize_eq, gt_iff_lt, UInt64.lt_iff_toNat_lt, UInt64.toNat_ofNat']
      change 65535 < _
      omega
    have h := hsend []
    rw [sendl, sendlBase_overflow hs ho _ hsize] at h
    cases h
  · intro h
    exact ⟨Frame.whole (opcodeOf flags) (some key) first.flatten (by omega), rfl, rfl, rfl, rfl, rfl,
      fun wire => sendlBase_client hs ho _ (by omega) wire⟩

/-- A client sends the five bytes of a message that is split in two. -/
theorem client_encodes_hello :
    (WsSock.attach false true 1 (List.replicate 128 0)).Encodes 1 [[72, 101], [108, 108, 111]]
      ⟨[1, 2, 3, 4], rfl⟩ :=
  (client_encodes_iff _ rfl rfl 1 _ _).mpr (by decide)

/-- The header of a message of 65536 bytes does not fit in the buffer. -/
theorem client_header_overflows :
    let first := [List.replicate 65536 0]
    let key : Key := ⟨[1, 2, 3, 4], rfl⟩
    let self := WsSock.attach false true 1 (List.replicate 128 0)
    sendl lossless self 1 first (.ok key.bytes) [] = .error .fault ∧
      ¬ self.Encodes 1 first key := by
  intro first key self
  have hlen : first.flatten.length = 65536 := by
    rw [List.flatten_singleton, List.length_replicate]
  constructor
  · apply sendlBase_overflow rfl rfl
    rw [Prefix.iolSize_eq, hlen]
    decide
  · rintro ⟨f, -, -, -, -, hpayload, hsend⟩
    have h := hsend []
    rw [sendl, sendlBase_overflow rfl rfl _ (by rw [Prefix.iolSize_eq, hlen]; decide)] at h
    cases h

end Libdill.Ws
