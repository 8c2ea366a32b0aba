import Libdill.Utils.Sha1
import Mathlib.Data.List.GetD
import Mathlib.Tactic.IntervalCases

/-!
# The digest that the code computes

The 16 words of `buffer` are the last 16 words of the message schedule, whatever the byte order of the
machine is.

* `turns_spec`: the 80 turns over a full buffer are the 80 rounds over its words.
* `Holds.add`: what a byte makes of the buffer and of the state.
* `result_eq`: the result is the digest.
* `sha1_digest`: so it is whatever has been in the buffer, on machines of both byte orders.
-/

namespace Libdill.Utils

open Foundations

/-! ## Words -/

variable {little : Bool} {buf : List UInt8} {i j k : ℕ} {x : UInt32}

theorem place_lt (little : Bool) (h : k < 4) : place little k < 4 := by
  unfold place
  split <;> omega

theorem place_not (little : Bool) (k : ℕ) : place (!little) (place little k) = 3 - k := by
  cases little <;> simp [place]

/-- The byte `k` of the buffer, when the highest byte of a word comes first. -/
def cell (little : Bool) (buf : List UInt8) (k : ℕ) : UInt8 :=
  buf.getD (4 * (k / 4) + place little (k % 4)) 0

theorem cell_eq (h : k < 4) : cell little buf (4 * i + k) = buf.getD (4 * i + place little k) 0 := by
  unfold cell
  rw [show (4 * i + k) / 4 = i by omega, show (4 * i + k) % 4 = k by omega]

/-- Four bytes make a word. -/
theorem wordOf_four (a b c d : UInt8) :
    (a.toUInt32 <<< 24) ||| (b.toUInt32 <<< 16) ||| (c.toUInt32 <<< 8) ||| d.toUInt32
      = wordOf [a, b, c, d] := by
  have ha := a.toNat_lt
  have hb := b.toNat_lt
  have hc := c.toNat_lt
  have hd := d.toNat_lt
  have hshift : ∀ (y : UInt8) (n : ℕ) (w : UInt32), w.toNat % 32 = n → n ≤ 24 →
      (y.toUInt32 <<< w).toNat = y.toNat <<< n := by
    intro y n w hw hn
    have hy := y.toNat_lt
    have hpow : 2 ^ n ≤ 2 ^ 24 := Nat.pow_le_pow_right (by decide) hn
    rw [UInt32.toNat_shiftLeft, hw, UInt8.toNat_toUInt32, Nat.mod_eq_of_lt]
    calc y.toNat <<< n = y.toNat * 2 ^ n := Nat.shiftLeft_eq _ _
      _ ≤ y.toNat * 2 ^ 24 := Nat.mul_le_mul_left _ hpow
      _ < 2 ^ 32 := by omega
  apply UInt32.toNat_inj.mp
  rw [UInt32.toNat_or, UInt32.toNat_or, UInt32.toNat_or, hshift a 24 _ rfl (by decide),
    hshift b 16 _ rfl (by decide), hshift c 8 _ rfl (by decide), UInt8.toNat_toUInt32]
  have h₁ : a.toNat <<< 24 ||| b.toNat <<< 16 = (a.toNat * 256 + b.toNat) <<< 16 := by
    rw [← Nat.shiftLeft_add_eq_or_of_lt (by rw [Nat.shiftLeft_eq]; omega)]
    simp only [Nat.shiftLeft_eq]
    omega
  have h₂ : (a.toNat * 256 + b.toNat) <<< 16 ||| c.toNat <<< 8
      = ((a.toNat * 256 + b.toNat) * 256 + c.toNat) <<< 8 := by
    rw [← Nat.shiftLeft_add_eq_or_of_lt (by rw [Nat.shiftLeft_eq]; omega)]
    simp only [Nat.shiftLeft_eq]
    omega
  rw [h₁, h₂, ← Nat.shiftLeft_add_eq_or_of_lt hd, wordOf, UInt32.toNat_ofNat']
  simp only [ofBigEndian, List.foldl_cons, List.foldl_nil, Nat.shiftLeft_eq]
  omega

theorem word_eq (little : Bool) (buf : List UInt8) (i : ℕ) :
    word little buf i = wordOf ((List.range 4).map fun k => cell little buf (4 * i + k)) := by
  have hcell : ∀ k < 4, buf.getD (4 * i + place little k) 0 = cell little buf (4 * i + k) :=
    fun k hk => (cell_eq hk).symm
  simp only [word, hcell 0 (by decide), hcell 1 (by decide), hcell 2 (by decide),
    hcell 3 (by decide), wordOf_four]
  rfl

@[simp] theorem length_setWord : (setWord little buf i x).length = buf.length := by
  simp [setWord, List.range_succ]

/-- The bytes of a word that has been stored. -/
theorem setWord_get (hk : k < 4) (h : 4 * i + 4 ≤ buf.length) :
    (setWord little buf i x).getD (4 * i + k) 0 = byteAt x (place (!little) k) := by
  have hset := fold_set (fun k => 4 * i + k) (fun k => byteAt x (place (!little) k)) buf 4 k
    (fun a _ b _ hab => by omega) hk (by omega)
  rw [List.getD_eq_getElem?_getD, setWord, hset]
  rfl

theorem setWord_get_other (h : k / 4 ≠ i) : (setWord little buf i x).getD k 0 = buf.getD k 0 := by
  have hne : ∀ m < 4, 4 * i + m ≠ k := fun m hm => by omega
  simp only [setWord, List.range_succ, List.range_zero, List.nil_append, List.foldl_append,
    List.foldl_cons, List.foldl_nil, List.getD_eq_getElem?_getD]
  rw [List.getElem?_set_ne (hne 3 (by decide)), List.getElem?_set_ne (hne 2 (by decide)),
    List.getElem?_set_ne (hne 1 (by decide)), List.getElem?_set_ne (hne 0 (by decide))]

theorem toNat_byteAt (x : UInt32) (h : k < 4) :
    (byteAt x k).toNat = x.toNat / 2 ^ (8 * k) % 256 := by
  have hshift : (UInt32.ofNat (8 * k)).toNat % 32 = 8 * k := by
    rw [UInt32.toNat_ofNat']
    omega
  rw [byteAt, UInt32.toNat_toUInt8, UInt32.toNat_shiftRight, hshift, Nat.shiftRight_eq_div_pow]

theorem wordOf_bytes (x : UInt32) :
    wordOf [byteAt x 3, byteAt x 2, byteAt x 1, byteAt x 0] = x := by
  have hx := x.toNat_lt
  apply UInt32.toNat_inj.mp
  rw [wordOf, UInt32.toNat_ofNat']
  simp only [ofBigEndian, List.foldl_cons, List.foldl_nil, toNat_byteAt x (show 3 < 4 by decide),
    toNat_byteAt x (show 2 < 4 by decide), toNat_byteAt x (show 1 < 4 by decide),
    toNat_byteAt x (show 0 < 4 by decide)]
  omega

theorem word_setWord_self (h : 4 * i + 4 ≤ buf.length) :
    word little (setWord little buf i x) i = x := by
  have hcell : ∀ k < 4, cell little (setWord little buf i x) (4 * i + k) = byteAt x (3 - k) := by
    intro k hk
    rw [cell_eq hk, setWord_get (place_lt little hk) h, place_not]
  rw [word_eq]
  simp only [List.range_succ, List.range_zero, List.nil_append, List.cons_append, List.map_cons,
    List.map_nil, hcell 0 (by decide), hcell 1 (by decide), hcell 2 (by decide),
    hcell 3 (by decide)]
  exact wordOf_bytes x

theorem word_setWord_other (h : j ≠ i) :
    word little (setWord little buf i x) j = word little buf j := by
  have hget : ∀ k < 4, (setWord little buf i x).getD (4 * j + place little k) 0
      = buf.getD (4 * j + place little k) 0 := by
    intro k hk
    have hp := place_lt little hk
    exact setWord_get_other (by omega)
  simp only [word, hget 0 (by decide), hget 1 (by decide), hget 2 (by decide), hget 3 (by decide)]

/-! ## The rounds -/

theorem choose_eq (b c d : UInt32) : d ^^^ (b &&& (c ^^^ d)) = (b &&& c) ^^^ (~~~b &&& d) := by
  apply UInt32.eq_of_toBitVec_eq
  ext i hi
  simp
  cases b.toBitVec[i] <;> cases c.toBitVec[i] <;> cases d.toBitVec[i] <;> rfl

theorem majority_eq (b c d : UInt32) :
    (b &&& c) ||| (d &&& (b ||| c)) = (b &&& c) ^^^ (b &&& d) ^^^ (c &&& d) := by
  apply UInt32.eq_of_toBitVec_eq
  ext i hi
  simp
  cases b.toBitVec[i] <;> cases c.toBitVec[i] <;> cases d.toBitVec[i] <;> rfl

variable {m m' : ℕ → UInt32} {t : ℕ}

theorem scheduled_get (h : j < t) : (scheduled m t).getD j 0 = schedule m (t - 1 - j) := by
  induction t generalizing j with
  | zero => omega
  | succ t ih =>
    cases j with
    | zero => rfl
    | succ j =>
      have hget := ih (show j < t by omega)
      rw [show t + 1 - 1 - (j + 1) = t - 1 - j by omega, ← hget]
      rfl

theorem schedule_lt (h : t < 16) : schedule m t = m t := by
  simp [schedule, scheduled, h]

/-- The recurrence of the message schedule. -/
theorem schedule_ge (h : 16 ≤ t) :
    schedule m t = rotl 1 (schedule m (t - 3) ^^^ schedule m (t - 8) ^^^ schedule m (t - 14)
      ^^^ schedule m (t - 16)) := by
  have hlt : ¬t < 16 := by omega
  have hunfold : schedule m t = rotl 1 ((scheduled m t).getD 2 0 ^^^ (scheduled m t).getD 7 0
      ^^^ (scheduled m t).getD 13 0 ^^^ (scheduled m t).getD 15 0) := by
    simp [schedule, scheduled, hlt]
  rw [hunfold, scheduled_get (by omega), scheduled_get (by omega), scheduled_get (by omega),
    scheduled_get (by omega)]
  rfl

theorem schedule_congr (h : ∀ t < 16, m t = m' t) (t : ℕ) : schedule m t = schedule m' t := by
  induction t using Nat.strong_induction_on with
  | _ t ih =>
    by_cases hlt : t < 16
    · rw [schedule_lt hlt, schedule_lt hlt, h t hlt]
    · rw [schedule_ge (m := m) (t := t) (by omega), schedule_ge (t := t) (by omega),
        ih (t - 3) (by omega),
        ih (t - 8) (by omega), ih (t - 14) (by omega), ih (t - 16) (by omega)]

theorem compress_congr (h : ∀ t < 16, m t = m' t) (w : Words) : compress w m = compress w m' := by
  have hround : round m = round m' := by
    ext v t : 2
    simp [round, schedule_congr h]
  rw [compress, compress, hround]

theorem rol32_eq (x n : UInt32) : rol32 x n = rotl n x := rfl

/-- The words before the turn `n`. -/
structure Window (little : Bool) (m : ℕ → UInt32) (buf : List UInt8) (n : ℕ) : Prop where
  length : buf.length = 64
  words : ∀ t, t < max 16 n → n ≤ t + 16 → word little buf (t % 16) = schedule m t

/-- A turn. -/
theorem turn_spec {v : Words} {n : ℕ} (h : Window little m buf n) :
    Window little m (turn little (buf, v) n).1 (n + 1) ∧
      (turn little (buf, v) n).2 = round m v n := by
  have hand : ∀ a, a &&& 15 = a % 16 := fun a => Nat.and_two_pow_sub_one_eq_mod a 4
  -- the buffer after the turn
  have hbuf : ∃ buf', (turn little (buf, v) n).1 = buf' ∧ Window little m buf' (n + 1) ∧
      word little buf' (n % 16) = schedule m n := by
    refine ⟨_, rfl, ?_⟩
    by_cases hn : 16 ≤ n
    · have hword : rol32 (word little buf ((n + 13) % 16) ^^^ word little buf ((n + 8) % 16)
          ^^^ word little buf ((n + 2) % 16) ^^^ word little buf (n % 16)) 1 = schedule m n := by
        rw [schedule_ge hn, ← h.words (n - 3) (by omega) (by omega),
          ← h.words (n - 8) (by omega) (by omega), ← h.words (n - 14) (by omega) (by omega),
          ← h.words (n - 16) (by omega) (by omega), show (n - 3) % 16 = (n + 13) % 16 by omega,
          show (n - 8) % 16 = (n + 8) % 16 by omega, show (n - 14) % 16 = (n + 2) % 16 by omega,
          show (n - 16) % 16 = n % 16 by omega]
        rfl
      have hturn : (turn little (buf, v) n).1 = setWord little buf (n % 16) (schedule m n) := by
        simp only [turn, if_pos hn, hand, hword]
      have hself : word little (setWord little buf (n % 16) (schedule m n)) (n % 16)
          = schedule m n := word_setWord_self (by rw [h.length]; omega)
      rw [hturn]
      refine ⟨⟨by rw [length_setWord, h.length], fun t ht hle => ?_⟩, hself⟩
      by_cases heq : t = n
      · rw [heq, hself]
      · rw [word_setWord_other (by omega), h.words t (by omega) (by omega)]
    · have hturn : (turn little (buf, v) n).1 = buf := by simp only [turn, if_neg hn]
      rw [hturn]
      exact ⟨⟨h.length, fun t ht hle => h.words t (by omega) (by omega)⟩,
        h.words n (by omega) (by omega)⟩
  obtain ⟨buf', hfst, hwindow, hword⟩ := hbuf
  refine ⟨by rw [hfst]; exact hwindow, ?_⟩
  have hsnd : (turn little (buf, v) n).2.a = (if n < 20 then (v.d ^^^ (v.b &&& (v.c ^^^ v.d)))
        + 0x5A827999
      else if n < 40 then (v.b ^^^ v.c ^^^ v.d) + 0x6ED9EBA1
      else if n < 60 then ((v.b &&& v.c) ||| (v.d &&& (v.b ||| v.c))) + 0x8F1BBCDC
      else (v.b ^^^ v.c ^^^ v.d) + 0xCA62C1D6)
      + (rol32 v.a 5 + v.e + word little (turn little (buf, v) n).1 (n &&& 15)) := rfl
  have ha : (turn little (buf, v) n).2.a = (round m v n).a := by
    rw [hsnd, hfst, hand, hword, choose_eq, majority_eq, rol32_eq]
    unfold round roundFun roundConst
    by_cases h20 : n < 20
    · simp only [if_pos h20]
      ac_rfl
    · by_cases h40 : n < 40
      · simp only [if_neg h20, if_pos h40]
        ac_rfl
      · by_cases h60 : n < 60
        · simp only [if_neg h20, if_neg h40, if_pos h60]
          ac_rfl
        · simp only [if_neg h20, if_neg h40, if_neg h60]
          ac_rfl
  have hrest : (turn little (buf, v) n).2
      = ⟨(turn little (buf, v) n).2.a, v.a, rol32 v.b 30, v.c, v.d⟩ := rfl
  rw [hrest, ha]
  rfl

/-- **The turns.** -/
theorem turns_spec {v : Words} (n : ℕ) (hlen : buf.length = 64)
    (hwords : ∀ t < 16, word little buf t = m t) :
    Window little m ((List.range n).foldl (turn little) (buf, v)).1 n ∧
      ((List.range n).foldl (turn little) (buf, v)).2 = (List.range n).foldl (round m) v := by
  induction n with
  | zero =>
    refine ⟨⟨hlen, fun t ht _ => ?_⟩, rfl⟩
    have hlt : t < 16 := by omega
    rw [Nat.mod_eq_of_lt hlt]
    change word little buf t = _
    rw [hwords t hlt, schedule_lt hlt]
  | succ n ih =>
    obtain ⟨hwindow, hvars⟩ := ih
    have hturn := @turn_spec _ _ m ((List.range n).foldl (turn little) (buf, v)).2 n hwindow
    rw [List.range_succ, List.foldl_append, List.foldl_append, List.foldl_cons, List.foldl_nil,
      List.foldl_cons, List.foldl_nil, ← hvars]
    exact hturn

/-! ## Bytes -/

variable {s s' : Sha1} {l l' : List UInt8} {n : ℕ}

theorem blockOf_append (h : 64 * i + 64 ≤ l.length) (ht : t < 16) :
    blockOf (l ++ l') i t = blockOf l i t := by
  have hdrop : (l ++ l').drop (64 * i + 4 * t) = l.drop (64 * i + 4 * t) ++ l' :=
    List.drop_append_of_le_length (by omega)
  have hlen : (l.drop (64 * i + 4 * t)).length = l.length - (64 * i + 4 * t) := List.length_drop
  rw [blockOf, hdrop, List.take_append_of_le_length (by omega)]
  rfl

theorem hashBlocks_append (h : 64 * n ≤ l.length) : hashBlocks (l ++ l') n = hashBlocks l n := by
  induction n with
  | zero => simp [hashBlocks]
  | succ n ih =>
    have hprev := ih (by omega)
    unfold hashBlocks at hprev ⊢
    rw [List.range_succ, List.foldl_append, List.foldl_append, List.foldl_cons, List.foldl_nil,
      List.foldl_cons, List.foldl_nil, hprev]
    exact compress_congr (fun t ht => blockOf_append (by omega) ht) _

theorem hashBlocks_succ (l : List UInt8) (n : ℕ) :
    hashBlocks l (n + 1) = compress (hashBlocks l n) (blockOf l n) := by
  unfold hashBlocks
  rw [List.range_succ, List.foldl_append]
  rfl

/-- The bytes `l` have been added. -/
structure Holds (little : Bool) (s : Sha1) (l : List UInt8) : Prop where
  order : s.isLittleEndian = little
  length : s.buffer.length = 64
  offset : s.bufferOffset = l.length % 64
  state : s.state = hashBlocks l (l.length / 64)
  bytes : ∀ k < l.length % 64, cell little s.buffer k = l.getD (64 * (l.length / 64) + k) 0

theorem holds_init (little : Bool) (hbuf : buf.length = 64) :
    Holds little (Sha1.init little buf) [] where
  order := rfl
  length := hbuf
  offset := rfl
  state := rfl
  bytes k hk := absurd hk (Nat.not_lt_zero k)

theorem xor_three (h : i < 64) : i ^^^ 3 = 4 * (i / 4) + (3 - i % 4) := by
  revert i
  decide

/-- The byte that is stored. -/
theorem cell_set {b : UInt8} (hbuf : buf.length = 64) (hi : i < 64) (hk : k < 64) :
    cell little (buf.set (if little then i ^^^ 3 else i) b) k
      = if k = i then b else cell little buf k := by
  have hpos : (if little = true then i ^^^ 3 else i) = 4 * (i / 4) + place little (i % 4) := by
    unfold place
    split
    · exact xor_three hi
    · omega
  have hp := place_lt little (show i % 4 < 4 by omega)
  have hq := place_lt little (show k % 4 < 4 by omega)
  unfold cell
  rw [hpos, List.getD_eq_getElem?_getD, List.getD_eq_getElem?_getD]
  by_cases heq : k = i
  · rw [if_pos heq, heq, List.getElem?_set_self (by omega)]
    rfl
  · have hne : 4 * (i / 4) + place little (i % 4) ≠ 4 * (k / 4) + place little (k % 4) := by
      intro h
      apply heq
      have hback := congrArg (place (!little)) (show place little (i % 4) = place little (k % 4) by omega)
      rw [place_not, place_not] at hback
      omega
    rw [if_neg heq, List.getElem?_set_ne hne]

/-- **A byte is added.** -/
theorem Holds.add (h : Holds little s l) (b : UInt8) : Holds little (s.add little b) (l ++ [b]) := by
  have hlen : (l ++ [b]).length = l.length + 1 := by simp
  have hoff : s.bufferOffset < 64 := by
    rw [h.offset]
    omega
  have hcell : ∀ k ≤ s.bufferOffset,
      cell little (s.buffer.set (if little then s.bufferOffset ^^^ 3 else s.bufferOffset) b) k
        = (l ++ [b]).getD (64 * (l.length / 64) + k) 0 := by
    intro k hk
    rw [cell_set h.length hoff (by omega)]
    have hoffset := h.offset
    by_cases heq : k = s.bufferOffset
    · rw [if_pos heq, heq, hoffset, List.getD_append_right _ _ _ _ (by omega),
        show 64 * (l.length / 64) + l.length % 64 - l.length = 0 by omega]
      rfl
    · rw [if_neg heq, h.bytes k (by omega), List.getD_append _ _ _ _ (by omega)]
  have hbuf : (s.buffer.set (if little then s.bufferOffset ^^^ 3 else s.bufferOffset) b).length
      = 64 := by rw [List.length_set, h.length]
  simp only [Sha1.add, h.order]
  generalize hset : s.buffer.set (if little = true then s.bufferOffset ^^^ 3 else s.bufferOffset) b
    = buf at *
  have hoffset := h.offset
  by_cases hfull : s.bufferOffset + 1 = 64
  · have hdiv : (l ++ [b]).length / 64 = l.length / 64 + 1 := by omega
    have hwords : ∀ t < 16, word little buf t = blockOf (l ++ [b]) (l.length / 64) t := by
      intro t ht
      have hbytes : (List.range 4).map (fun k => cell little buf (4 * t + k))
          = ((l ++ [b]).drop (64 * (l.length / 64) + 4 * t)).take 4 := by
        apply List.ext_getElem
        · simp
          omega
        · intro k hk hk'
          simp only [List.length_map, List.length_range] at hk
          rw [List.getElem_map, List.getElem_range, hcell _ (by omega), List.getElem_take,
            List.getElem_drop, List.getD_eq_getElem _ _ (by omega)]
          congr 1
          omega
      rw [word_eq, hbytes]
      rfl
    obtain ⟨hwindow, hvars⟩ := @turns_spec _ _ (blockOf (l ++ [b]) (l.length / 64)) s.state 80
      hbuf hwords
    simp only [if_pos hfull]
    generalize (List.range 80).foldl (turn little) (buf, s.state) = r at hwindow hvars ⊢
    refine ⟨rfl, hwindow.length, by simp only; omega, ?_, fun k hk => by omega⟩
    rw [hdiv, hashBlocks_succ, hashBlocks_append (by omega), hvars, ← h.state]
    rfl
  · simp only [if_neg hfull]
    have hdiv : (l ++ [b]).length / 64 = l.length / 64 := by omega
    refine ⟨rfl, hbuf, by simp only; omega, ?_, fun k hk => ?_⟩
    · rw [hdiv, hashBlocks_append (by omega)]
      exact h.state
    · rw [hdiv]
      exact hcell k (by omega)

theorem Holds.foldl (h : Holds little s l) (l' : List UInt8) :
    Holds little (l'.foldl (Sha1.add little) s) (l ++ l') := by
  induction l' generalizing s l with
  | nil => simpa using h
  | cons b l' ih =>
    have hnext := ih (h.add b)
    rw [List.append_assoc] at hnext
    exact hnext

@[simp] theorem bytesHashed_add (s : Sha1) (b : UInt8) :
    (s.add little b).bytesHashed = s.bytesHashed := by
  unfold Sha1.add
  dsimp only
  split <;> rfl

/-- What `dill_sha1_hashbyte` does with a message. -/
theorem holds_hashbytes (h : Holds little s l) (l' : List UInt8) :
    Holds little (l'.foldl (Sha1.hashbyte little) s) (l ++ l') ∧
      (l'.foldl (Sha1.hashbyte little) s).bytesHashed
        = s.bytesHashed + UInt32.ofNat l'.length := by
  induction l' generalizing s l with
  | nil => exact ⟨by simpa using h, by simp⟩
  | cons b l' ih =>
    have hcount : Holds little { s with bytesHashed := s.bytesHashed + 1 } l :=
      ⟨h.order, h.length, h.offset, h.state, h.bytes⟩
    obtain ⟨hholds, hbytes⟩ := ih (hcount.add b)
    rw [List.append_assoc] at hholds
    refine ⟨hholds, ?_⟩
    rw [List.foldl_cons]
    unfold Sha1.hashbyte at hbytes ⊢
    rw [hbytes, bytesHashed_add, List.length_cons, UInt32.ofNat_add, UInt32.add_comm (UInt32.ofNat _),
      ← UInt32.add_assoc]
    rfl

/-! ## The result -/

theorem lengthBytes_eq (h : n < 2 ^ 32) : lengthBytes (UInt32.ofNat n) = bigEndian 8 (8 * n) := by
  have hn : (UInt32.ofNat n).toNat = n := by
    rw [UInt32.toNat_ofNat', Nat.mod_eq_of_lt h]
  have hshift : ∀ w : UInt32, ((UInt32.ofNat n) >>> w).toUInt8.toNat = n >>> (w.toNat % 32) % 256 := by
    intro w
    rw [UInt32.toNat_toUInt8, UInt32.toNat_shiftRight, hn]
  unfold lengthBytes bigEndian bigEndian bigEndian bigEndian bigEndian bigEndian bigEndian bigEndian
    bigEndian
  simp only [List.cons.injEq, and_true]
  refine ⟨?_, ?_, ?_, ?_, ?_, ?_, ?_, ?_⟩ <;> apply UInt8.toNat_inj.mp
  · rw [UInt8.toNat_ofNat', UInt8.toNat_zero]
    omega
  · rw [UInt8.toNat_ofNat', UInt8.toNat_zero]
    omega
  · rw [UInt8.toNat_ofNat', UInt8.toNat_zero]
    omega
  · rw [hshift, Nat.shiftRight_eq_div_pow, UInt8.toNat_ofNat']
    change n / 2 ^ 29 % 256 = _
    omega
  · rw [hshift, Nat.shiftRight_eq_div_pow, UInt8.toNat_ofNat']
    change n / 2 ^ 21 % 256 = _
    omega
  · rw [hshift, Nat.shiftRight_eq_div_pow, UInt8.toNat_ofNat']
    change n / 2 ^ 13 % 256 = _
    omega
  · rw [hshift, Nat.shiftRight_eq_div_pow, UInt8.toNat_ofNat']
    change n / 2 ^ 5 % 256 = _
    omega
  · rw [UInt32.toNat_toUInt8, UInt32.toNat_shiftLeft, hn, UInt8.toNat_ofNat', Nat.shiftLeft_eq]
    change n * 2 ^ 3 % 2 ^ 32 % 2 ^ 8 = _
    omega

theorem byteAt_swapped (x : UInt32) (h : k < 4) : byteAt (swapped x) k = byteAt x (3 - k) := by
  apply UInt8.eq_of_toBitVec_eq
  ext i hi
  interval_cases k <;> interval_cases i <;> simp [byteAt, swapped]

/-- The bytes of `state` in memory are those of the digest. -/
theorem memoryOf_eq (little : Bool) (x : UInt32) :
    memoryOf little (if little then swapped x else x) = bytesOfWord x := by
  have hbytes : memoryOf little (if little then swapped x else x)
      = [byteAt x 3, byteAt x 2, byteAt x 1, byteAt x 0] := by
    cases little with
    | false => rfl
    | true =>
      simp [memoryOf, place, List.range_succ, byteAt_swapped]
  rw [hbytes]
  unfold bytesOfWord bigEndian bigEndian bigEndian bigEndian bigEndian
  simp only [List.cons.injEq, and_true]
  refine ⟨?_, ?_, ?_, ?_⟩ <;> apply UInt8.toNat_inj.mp
  · rw [toNat_byteAt x (by decide), UInt8.toNat_ofNat']
    omega
  · rw [toNat_byteAt x (by decide), UInt8.toNat_ofNat']
    omega
  · rw [toNat_byteAt x (by decide), UInt8.toNat_ofNat']
    omega
  · rw [toNat_byteAt x (by decide), UInt8.toNat_ofNat']
    omega

theorem Holds.hash (h : Holds little s l) : s.hash little = (hashBlocks l (l.length / 64)).bytes := by
  unfold Sha1.hash Words.bytes
  simp only [h.order, h.state, memoryOf_eq]

/-- **The result is the digest.** -/
theorem result_eq (little : Bool) (hbuf : buf.length = 64) (l : List UInt8) (hl : l.length < 2 ^ 32) :
    (l.foldl (Sha1.hashbyte little) (Sha1.init little buf)).result little = some (sha1 l) := by
  obtain ⟨hmsg, hcount⟩ := holds_hashbytes (holds_init little hbuf) l
  rw [List.nil_append] at hmsg
  generalize l.foldl (Sha1.hashbyte little) (Sha1.init little buf) = s at hmsg hcount ⊢
  -- the loop adds zeros until there is room for the length, and no more
  generalize hpad : (119 - l.length % 64) % 64 = pad
  have hbody : ∀ k s', (∃ j, j + k = pad ∧ s'.bytesHashed = s.bytesHashed ∧
        Holds little s' (l ++ 0x80 :: List.replicate j 0)) → (s'.bufferOffset != 56) = true →
      ∃ k' < k, ∃ j, j + k' = pad ∧ (s'.add little 0).bytesHashed = s.bytesHashed ∧
        Holds little (s'.add little 0) (l ++ 0x80 :: List.replicate j 0) := by
    rintro k s' ⟨j, hj, hn, hholds⟩ hne
    have hoffset := hholds.offset
    have hne : s'.bufferOffset ≠ 56 := by simpa using hne
    simp only [List.length_append, List.length_cons, List.length_replicate] at hoffset
    have hadd := hholds.add 0
    rw [List.append_assoc, List.cons_append, ← List.replicate_succ'] at hadd
    exact ⟨k - 1, by omega, j + 1, by omega, by rw [bytesHashed_add, hn], hadd⟩
  obtain ⟨s', hloop, hcond, k, j, hj, hn, hholds⟩ := whileLoop_spec hbody
    (show ∃ j, j + pad = pad ∧ (s.add little 0x80).bytesHashed = s.bytesHashed ∧
        Holds little (s.add little 0x80) (l ++ 0x80 :: List.replicate j 0) from
      ⟨0, by omega, bytesHashed_add s _, hmsg.add 0x80⟩) (show pad ≤ 64 by omega)
  have hoffset := hholds.offset
  have h56 : s'.bufferOffset = 56 := by simpa using hcond
  simp only [List.length_append, List.length_cons, List.length_replicate] at hoffset
  obtain rfl : j = pad := by omega
  have hfinal := hholds.foldl (lengthBytes s'.bytesHashed)
  have hlen : lengthBytes s'.bytesHashed = bigEndian 8 (8 * l.length) := by
    rw [hn, hcount]
    change lengthBytes (0 + UInt32.ofNat l.length) = _
    rw [UInt32.zero_add, lengthBytes_eq hl]
  have hpadded : l ++ 0x80 :: List.replicate j 0 ++ lengthBytes s'.bytesHashed = padded l := by
    rw [hlen, padded, hpad]
  rw [hpadded] at hfinal
  unfold Sha1.result
  change (whileLoop _ _ 64 (s.add little 0x80) >>= _) = _
  rw [hloop]
  change some _ = _
  rw [hfinal.hash]
  rfl

@[simp] theorem length_sha1 (l : List UInt8) : (sha1 l).length = 20 := by
  simp [sha1, Words.bytes, bytesOfWord]

/-- **The digest of FIPS 180**, of a message that is shorter than 2^32 bytes. -/
theorem sha1_digest (little : Bool) (buf : {bs : List UInt8 // bs.length = 64}) (l : List UInt8)
    (hl : l.length < 2 ^ 32) :
    (l.foldl (Sha1.hashbyte little) (Sha1.init little buf)).result little = some (sha1 l) :=
  result_eq little buf.2 l hl

/-- The test vector "abc" of FIPS 180. -/
theorem sha1_digest_abc :
    ([97, 98, 99].foldl (Sha1.hashbyte true) (Sha1.init true (List.replicate 64 0))).result true
      = some [0xa9, 0x99, 0x3e, 0x36, 0x47, 0x06, 0x81, 0x6a, 0xba, 0x3e, 0x25, 0x71, 0x78, 0x50,
          0xc2, 0x6c, 0x9c, 0xd0, 0xd8, 0x9d] := by
  rw [sha1_digest true ⟨List.replicate 64 0, List.length_replicate⟩ [97, 98, 99] (by decide)]
  decide +kernel

end Libdill.Utils
