import Libdill.Foundations.BigEndian
import Libdill.Foundations.Loop
import Libdill.Foundations.Radix
import Mathlib.Data.Nat.Bitwise

/-!
# SHA-1

`dill_sha1_init`, `dill_sha1_hashbyte` and `dill_sha1_result` of `utils.c`, on a machine of either byte
order, and the digest they are to compute.

* `sha1`: the digest of FIPS 180.
-/

namespace Libdill.Utils

open Foundations

/-! ## The digest -/

/-- The five words of a hash value. -/
structure Words where
  a : UInt32
  b : UInt32
  c : UInt32
  d : UInt32
  e : UInt32
  deriving DecidableEq

/-- The word whose bytes are `bs`. -/
def wordOf (bs : List UInt8) : UInt32 := UInt32.ofNat (ofBigEndian bs)

/-- `ROTL`. -/
def rotl (n : UInt32) (x : UInt32) : UInt32 := (x <<< n) ||| (x >>> (32 - n))

/-- The first `t` words of the message schedule of the block with the words `m`, the last one
first. -/
def scheduled (m : ℕ → UInt32) : ℕ → List UInt32
  | 0 => []
  | t + 1 =>
    let w := scheduled m t
    (if t < 16 then m t
      else rotl 1 (w.getD 2 0 ^^^ w.getD 7 0 ^^^ w.getD 13 0 ^^^ w.getD 15 0)) :: w

/-- A word of the message schedule. -/
def schedule (m : ℕ → UInt32) (t : ℕ) : UInt32 := (scheduled m (t + 1)).headD 0

/-- The functions of the rounds. -/
def roundFun (t : ℕ) (x y z : UInt32) : UInt32 :=
  if t < 20 then (x &&& y) ^^^ (~~~x &&& z)
  else if t < 40 then x ^^^ y ^^^ z
  else if t < 60 then (x &&& y) ^^^ (x &&& z) ^^^ (y &&& z)
  else x ^^^ y ^^^ z

/-- Their constants. -/
def roundConst (t : ℕ) : UInt32 :=
  if t < 20 then 0x5A827999
  else if t < 40 then 0x6ED9EBA1
  else if t < 60 then 0x8F1BBCDC
  else 0xCA62C1D6

/-- A round. -/
def round (m : ℕ → UInt32) (v : Words) (t : ℕ) : Words where
  a := rotl 5 v.a + roundFun t v.b v.c v.d + v.e + roundConst t + schedule m t
  b := v.a
  c := rotl 30 v.b
  d := v.c
  e := v.d

/-- The sum of two hash values. -/
def Words.add (h v : Words) : Words := ⟨h.a + v.a, h.b + v.b, h.c + v.c, h.d + v.d, h.e + v.e⟩

/-- The hash value after a block. -/
def compress (h : Words) (m : ℕ → UInt32) : Words := h.add ((List.range 80).foldl (round m) h)

/-- The initial hash value. -/
def initial : Words := ⟨0x67452301, 0xefcdab89, 0x98badcfe, 0x10325476, 0xc3d2e1f0⟩

/-- The padded message. -/
def padded (m : List UInt8) : List UInt8 :=
  m ++ 0x80 :: List.replicate ((119 - m.length % 64) % 64) 0 ++ bigEndian 8 (8 * m.length)

/-- The words of the block `i`. -/
def blockOf (m : List UInt8) (i t : ℕ) : UInt32 := wordOf ((m.drop (64 * i + 4 * t)).take 4)

/-- The hash value after `n` blocks. -/
def hashBlocks (m : List UInt8) (n : ℕ) : Words :=
  (List.range n).foldl (fun h i => compress h (blockOf m i)) initial

/-- The bytes of a word. -/
def bytesOfWord (x : UInt32) : List UInt8 := bigEndian 4 x.toNat

/-- The bytes of a hash value. -/
def Words.bytes (h : Words) : List UInt8 :=
  bytesOfWord h.a ++ bytesOfWord h.b ++ bytesOfWord h.c ++ bytesOfWord h.d ++ bytesOfWord h.e

/-- **The digest of a message.** -/
def sha1 (m : List UInt8) : List UInt8 :=
  (hashBlocks (padded m) ((padded m).length / 64)).bytes

/-! ## The code -/

/-- `dill_sha1`; `buffer` as the 64 bytes in memory. -/
structure Sha1 where
  buffer : List UInt8
  state : Words
  bytesHashed : UInt32
  bufferOffset : ℕ
  isLittleEndian : Bool

/-- The byte `k` of a word, from the lowest one. -/
def byteAt (x : UInt32) (k : ℕ) : UInt8 := (x >>> UInt32.ofNat (8 * k)).toUInt8

/-- Where the byte `k` of a word stands on a machine, counted from the highest one: `little` says
whether the lowest one comes first. -/
def place (little : Bool) (k : ℕ) : ℕ := if little then 3 - k else k

/-- The word `buffer[i]`. -/
def word (little : Bool) (buf : List UInt8) (i : ℕ) : UInt32 :=
  let byte := fun k => (buf.getD (4 * i + place little k) 0).toUInt32
  (byte 0 <<< 24) ||| (byte 1 <<< 16) ||| (byte 2 <<< 8) ||| byte 3

/-- `buffer[i] = x`. -/
def setWord (little : Bool) (buf : List UInt8) (i : ℕ) (x : UInt32) : List UInt8 :=
  (List.range 4).foldl (fun buf k => buf.set (4 * i + k) (byteAt x (place (!little) k))) buf

/-- `dill_sha1_rol32`. -/
def rol32 (num : UInt32) (n : UInt32) : UInt32 := (num <<< n) ||| (num >>> (32 - n))

/-- `dill_sha1_init`. -/
def Sha1.init (little : Bool) (buf : List UInt8) : Sha1 where
  buffer := buf
  state := ⟨0x67452301, 0xefcdab89, 0x98badcfe, 0x10325476, 0xc3d2e1f0⟩
  bytesHashed := 0
  bufferOffset := 0
  isLittleEndian := little

/-- A turn of the loop in `dill_sha1_add`. -/
def turn (little : Bool) (s : List UInt8 × Words) (i : ℕ) : List UInt8 × Words :=
  let v := s.2
  let buf := if 16 ≤ i then
      let t := word little s.1 ((i + 13) &&& 15) ^^^ word little s.1 ((i + 8) &&& 15)
        ^^^ word little s.1 ((i + 2) &&& 15) ^^^ word little s.1 (i &&& 15)
      setWord little s.1 (i &&& 15) (rol32 t 1)
    else s.1
  let t := if i < 20 then (v.d ^^^ (v.b &&& (v.c ^^^ v.d))) + 0x5A827999
    else if i < 40 then (v.b ^^^ v.c ^^^ v.d) + 0x6ED9EBA1
    else if i < 60 then ((v.b &&& v.c) ||| (v.d &&& (v.b ||| v.c))) + 0x8F1BBCDC
    else (v.b ^^^ v.c ^^^ v.d) + 0xCA62C1D6
  let t := t + (rol32 v.a 5 + v.e + word little buf (i &&& 15))
  (buf, ⟨t, v.a, rol32 v.b 30, v.c, v.d⟩)

/-- `dill_sha1_add`. -/
def Sha1.add (little : Bool) (s : Sha1) (data : UInt8) : Sha1 :=
  let pos := if s.isLittleEndian then s.bufferOffset ^^^ 3 else s.bufferOffset
  let buf := s.buffer.set pos data
  let offset := s.bufferOffset + 1
  if offset = 64 then
    let r := (List.range 80).foldl (turn little) (buf, s.state)
    { s with buffer := r.1, state := s.state.add r.2, bufferOffset := 0 }
  else { s with buffer := buf, bufferOffset := offset }

/-- `dill_sha1_hashbyte`. -/
def Sha1.hashbyte (little : Bool) (s : Sha1) (data : UInt8) : Sha1 :=
  Sha1.add little { s with bytesHashed := s.bytesHashed + 1 } data

/-- The change of the byte order. -/
def swapped (x : UInt32) : UInt32 :=
  ((x <<< 24) &&& (0xFF000000 : UInt32)) ||| ((x <<< 8) &&& (0x00FF0000 : UInt32))
    ||| ((x >>> 8) &&& (0x0000FF00 : UInt32)) ||| ((x >>> 24) &&& (0x000000FF : UInt32))

/-- The bytes of a word in memory. -/
def memoryOf (little : Bool) (x : UInt32) : List UInt8 :=
  (List.range 4).map fun k => byteAt x (place (!little) k)

/-- The last eight bytes of the padded message. -/
def lengthBytes (n : UInt32) : List UInt8 :=
  [0, 0, 0, (n >>> 29).toUInt8, (n >>> 21).toUInt8, (n >>> 13).toUInt8, (n >>> 5).toUInt8,
    (n <<< 3).toUInt8]

/-- The bytes of `state` that `dill_sha1_result` returns a pointer to. -/
def Sha1.hash (little : Bool) (s : Sha1) : List UInt8 :=
  let mem := fun x => memoryOf little (if s.isLittleEndian then swapped x else x)
  mem s.state.a ++ mem s.state.b ++ mem s.state.c ++ mem s.state.d ++ mem s.state.e

/-- `dill_sha1_result`. The loop that pads is given 64 turns. -/
def Sha1.result (little : Bool) (s : Sha1) : Option (List UInt8) := do
  let s := s.add little 0x80
  let s ← whileLoop (fun s => s.bufferOffset != 56) (fun s => s.add little 0x00) 64 s
  pure (((lengthBytes s.bytesHashed).foldl (Sha1.add little) s).hash little)

end Libdill.Utils
