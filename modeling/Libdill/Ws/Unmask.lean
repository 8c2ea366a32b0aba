import Libdill.Ws.Decode

/-!
# Masked messages on a server

The loop of `dill_ws_recvl_base` that unmasks the payload counts from the beginning of each
element.

* `spread_unmask_iff`: what is stored is the payload exactly when, for each element, the key is the
  same from its first byte on as from the position of the element in the payload on.
* `server_unmasks_iff`: the same for a whole receive.
-/

namespace Libdill.Ws

open Foundations Libdill.Sock

variable {key : Key} {pos : ℕ} {bs : List UInt8} {l : List Elem}

/-- The first `n` bytes of an iolist, which are those of a payload from position `pos` on, are
unmasked with the right bytes of the key. -/
def Aligned (key : Key) : ℕ → ℕ → List Elem → Prop
  | _, _, [] => True
  | pos, n, it :: next =>
    (∀ i < min n it.len, key.at i = key.at (pos + i)) ∧ Aligned key (pos + it.len) (n - it.len) next

instance decidableAligned (key : Key) : ∀ pos n l, Decidable (Aligned key pos n l)
  | _, _, [] => inferInstanceAs (Decidable True)
  | pos, n, it :: next =>
    have := decidableAligned key (pos + it.len) (n - it.len) next
    inferInstanceAs (Decidable (_ ∧ _))

instance decidableStored : ∀ n l, Decidable (Stored n l)
  | _, [] => inferInstanceAs (Decidable True)
  | n, it :: next =>
    have := decidableStored (n - it.len) next
    inferInstanceAs (Decidable (_ ∧ _))

theorem aligned_zero (key : Key) (pos : ℕ) (l : List Elem) : Aligned key pos 0 l := by
  induction l generalizing pos with
  | nil => trivial
  | cons it l ih =>
    constructor
    · intro i hi
      omega
    · rw [Nat.zero_sub]
      exact ih _

/-- One piece of the payload in its element. -/
theorem put_unmask_iff {it : Elem} (hit : 0 < bs.length → it.IsBuf) :
    it.put (key.mask 0 (key.mask pos bs)) = it.put bs ↔
      ∀ i < bs.length, key.at i = key.at (pos + i) := by
  cases it with
  | null n =>
    have hnil : bs.length = 0 := by
      by_contra h
      exact hit (by omega)
    rw [hnil]
    simp [Elem.put]
  | buf mem =>
    have hput : (Elem.buf mem).put (key.mask 0 (key.mask pos bs)) = (Elem.buf mem).put bs ↔
        key.mask 0 (key.mask pos bs) = bs := by
      constructor
      · intro h
        have hmem := Elem.buf.inj h
        exact (List.append_inj hmem (by simp)).1
      · intro h
        rw [h]
    rw [hput, mask_mask_iff]
    simp only [Nat.zero_add]

theorem spread_unmask_iff (hcap : bs.length ≤ capacity l) (hst : Stored bs.length l) :
    (spread (key.mask 0) (key.mask pos bs) l).1 ++ (spread (key.mask 0) (key.mask pos bs) l).2
        = fill bs l ↔
      Aligned key pos bs.length l := by
  induction l generalizing bs pos with
  | nil => simp [spread, fill, Aligned]
  | cons it l ih =>
    by_cases hle : bs.length ≤ it.len
    · have hput := @put_unmask_iff key pos bs it fun hpos => hst.1 (by omega)
      rw [spread_short (by rw [length_mask]; exact hle), fill, List.take_of_length_le hle,
        List.drop_eq_nil_of_le hle, fill_nil, List.nil_append, List.cons.injEq, hput, Aligned,
        Nat.min_eq_left hle, Nat.sub_eq_zero_of_le hle]
      constructor
      · intro h
        exact ⟨h.1, aligned_zero _ _ _⟩
      · intro h
        exact ⟨h.1, rfl⟩
    · have hlt : it.len < bs.length := by omega
      have hlen : (bs.take it.len).length = it.len := by
        rw [List.length_take]
        omega
      have hput := @put_unmask_iff key pos (bs.take it.len) it fun hpos => hst.1 (by omega)
      have hcap' : (bs.drop it.len).length ≤ capacity l := by
        rw [capacity_cons] at hcap
        rw [List.length_drop]
        omega
      have hst' : Stored (bs.drop it.len).length l := by
        rw [List.length_drop]
        exact hst.2
      have hrest := @ih (pos + it.len) (bs.drop it.len) hcap' hst'
      rw [List.length_drop] at hrest
      rw [hlen] at hput
      rw [spread_long (by rw [length_mask]; exact hlt), fill, List.cons_append, List.cons.injEq,
        mask_take, mask_drop, hput, hrest, Aligned, Nat.min_eq_right (le_of_lt hlt)]

/-! ## A receive on a server -/

variable {self : WsSock} {f : Frame}

/-- What `flags` is set to by the first frame of a message. -/
def Frame.flags (f : Frame) : UInt32 := if f.opcode = 1 then 1 else 0

/-- A message in one frame. -/
structure Frame.Single (f : Frame) : Prop where
  fin : f.fin = true
  opcode : f.opcode = 1 ∨ f.opcode = 2

theorem Frame.Single.valid (h : f.Single) : f.Valid f.key.isSome where
  opcode := by
    rcases h.opcode with h | h
    · exact .inr (.inl h)
    · exact .inr (.inr (.inl h))
  role := rfl
  control := by
    intro h8
    rcases h.opcode with h | h <;> rw [h] at h8 <;> cases h8

theorem Frame.Single.ne_close (h : f.Single) : f.opcode ≠ 8 := by
  rcases h.opcode with h | h <;> rw [h] <;> decide

theorem Frame.Single.flags_eq (h : f.Single) {s : Rx (List UInt8)} :
    (s.opened f.opcode).flags = some f.flags := by
  unfold Rx.opened Frame.flags
  rcases h.opcode with h | h <;> rw [h] <;> rfl

theorem ssize_of_fits (f : Frame) :
    (0 + UInt64.ofNat f.payload.length).toInt64.toInt = f.payload.length := by
  have hlt := f.fits.lt
  rw [UInt64.zero_add]
  apply Prefix.ssize_eq_iff.mpr
  constructor
  · rw [UInt64.toNat_ofNat']
    omega
  · exact hlt

/-- A message in one frame is received: its size is returned, and the payload has been spread over
the elements. -/
theorem recvl_single {u : Bsock (List UInt8)} (hu : Reads u) (hf : f.Single)
    (hs : self.server = f.key.isSome) (ho : self.indone = false)
    (hcap : f.payload.length ≤ capacity l) (hst : f.key.isSome → Stored f.payload.length l)
    (n : ℕ) (rest : List UInt8) :
    recvl u (n + 1) self l (f.encode ++ rest) = .ok (.ok f.payload.length,
      ⟨self, rest, (spread (unmask f.key) f.body l).1, (spread (unmask f.key) f.body l).2,
        some f.flags⟩) := by
  have hvalid : f.Valid (Rx.start self (f.encode ++ rest) l).self.server := by
    change f.Valid self.server
    rw [hs]
    exact hf.valid
  have hframe := frame_data hu hvalid hf.ne_close rfl hcap hst 0
  rw [hf.fin] at hframe
  have hrecv := recvlBase_data (n := n + 1) ho (frames_last hframe) ho
  rw [ssize_of_fits] at hrecv
  rw [recvl, hrecv, Rx.stored, hf.flags_eq]
  rfl

/-- On a server a message in one frame is stored as it would be in one buffer: its size is
returned, the iolist contains the unmasked payload, and the stream is behind the frame. -/
def WsSock.Unmasks (self : WsSock) (f : Frame) (l : List Elem) : Prop :=
  ∀ n rest, ∃ r, recvl lossless (n + 1) self l (f.encode ++ rest) = .ok (.ok f.payload.length, r) ∧
    r.passed ++ r.it = fill f.payload l ∧ r.u = rest ∧ r.self = self ∧ r.flags = some f.flags

/-- **Unmasking.** A server stores the payload of a masked frame exactly when no element with a
null base gets bytes, and in every element the key is the same from its beginning on as from the
position of the element in the payload on. -/
theorem server_unmasks_iff (self : WsSock) (hs : self.server = true) (ho : self.indone = false)
    (f : Frame) (hf : f.Single) (key : Key) (hkey : f.key = some key) (l : List Elem)
    (hcap : f.payload.length ≤ capacity l) :
    self.Unmasks f l ↔ Stored f.payload.length l ∧ Aligned key 0 f.payload.length l := by
  have hrole : self.server = f.key.isSome := by
    rw [hs, hkey]
    rfl
  have hbody : f.body = key.mask 0 f.payload := by
    rw [Frame.body, hkey]
  by_cases hst : Stored f.payload.length l
  · have hrecv := fun n rest => recvl_single reads_lossless hf hrole ho hcap (fun _ => hst) n rest
    have hmem := @spread_unmask_iff key 0 f.payload l hcap hst
    have hun : unmask f.key = key.mask 0 := by
      rw [hkey]
      rfl
    rw [hun, hbody] at hrecv
    constructor
    · intro h
      obtain ⟨r, hr, hfill, -⟩ := h 0 []
      rw [hrecv] at hr
      cases hr
      exact ⟨hst, hmem.mp hfill⟩
    · intro h n rest
      exact ⟨_, hrecv n rest, hmem.mpr h.2, rfl, rfl, rfl⟩
  · constructor
    · intro h
      obtain ⟨r, hr, -⟩ := h 0 []
      have hvalid : f.Valid (Rx.start self (f.encode ++ []) l).self.server := by
        change f.Valid self.server
        rw [hrole]
        exact hf.valid
      have hfault := frame_fault reads_lossless hvalid hf.ne_close rfl hcap (by rw [hkey]; rfl)
        hst 0
      rw [recvl, recvlBase_stop ho (frames_stop hfault)] at hr
      cases hr
    · intro h
      exact absurd h.1 hst

/-- A message of five bytes, in a first element of four and a second one of one byte. -/
theorem server_unmasks_fourAndOne :
    let key : Key := ⟨[1, 2, 3, 4], rfl⟩
    let f : Frame := ⟨true, 1, some key, .short, [72, 101, 108, 108, 111], by decide⟩
    (WsSock.attach true true 1 (List.replicate 128 0)).Unmasks f
      [.buf [0, 0, 0, 0], .buf [0, 0, 0]] :=
  (server_unmasks_iff _ rfl rfl _ ⟨rfl, .inl rfl⟩ ⟨[1, 2, 3, 4], rfl⟩ rfl _ (by decide)).mpr
    (by decide)

/-- The same message with a first element of one byte: from the second byte on it is garbled. -/
theorem server_garbles_second_element :
    let key : Key := ⟨[1, 2, 3, 4], rfl⟩
    let f : Frame := ⟨true, 1, some key, .short, [72, 101, 108, 108, 111], by decide⟩
    let self := WsSock.attach true true 1 (List.replicate 128 0)
    let l : List Elem := [.buf [0], .buf [0, 0, 0, 0]]
    recvl lossless 1 self l f.encode
        = .ok (.ok 5, ⟨self, [], [.buf [72]], [.buf [102, 109, 107, 106]], some 1⟩) ∧
      ¬ self.Unmasks f l := by
  intro key f self l
  have hspread : spread (unmask f.key) f.body l
      = ([.buf [72]], [.buf [102, 109, 107, 106]]) := by decide
  have hrun := @recvl_single l self f lossless reads_lossless ⟨rfl, .inl rfl⟩ rfl rfl (by decide)
    (fun _ => by decide) 0 []
  rw [hspread, List.append_nil] at hrun
  refine ⟨hrun, fun h => ?_⟩
  obtain ⟨r, hr, hfill, -⟩ := h 0 []
  rw [List.append_nil] at hr
  rw [hrun] at hr
  cases hr
  revert hfill
  decide

end Libdill.Ws
