import Libdill.Ws.Unmask

/-!
# Fragmented messages

`dill_ws_recvl_base` keeps the current element of the iolist from one frame to the next, but not
the position in it: every frame is read from the beginning of the element where the frame before it
has ended.

* `place`: where the bytes of the frames go.
* `fragments_iff`: the message arrives, whatever its bytes are, exactly when at most one frame has
  bytes and these are unmasked right, or when all that is written in the wrong place is skipped.
-/

namespace Libdill.Ws

open Foundations Libdill.Sock

/-! ## Cutting a message -/

/-- A frame of a message without its bytes. -/
structure Piece where
  key : Option Key
  form : LenForm
  size : ℕ
  fits : form.Fits size

/-- The number of bytes of a message. -/
def total : List Piece → ℕ
  | [] => 0
  | p :: ps => p.size + total ps

/-- `n` bytes of the message `c` from position `pos` on. -/
def bytesAt (c : ℕ → UInt8) (pos n : ℕ) : List UInt8 := (List.range' pos n).map c

@[simp] theorem length_bytesAt (c : ℕ → UInt8) (pos n : ℕ) : (bytesAt c pos n).length = n := by
  rw [bytesAt, List.length_map, List.length_range']

theorem bytesAt_append (c : ℕ → UInt8) (pos n m : ℕ) :
    bytesAt c pos (n + m) = bytesAt c pos n ++ bytesAt c (pos + n) m := by
  rw [bytesAt, ← List.range'_append_1, List.map_append]
  rfl

theorem getElem?_bytesAt (c : ℕ → UInt8) {pos n x : ℕ} (h : x < n) :
    (bytesAt c pos n)[x]? = some (c (pos + x)) := by
  rw [bytesAt, List.getElem?_map, List.getElem?_range' h]
  simp

/-- The frame with the bytes of `c` from `pos` on. -/
def Piece.frame (p : Piece) (c : ℕ → UInt8) (pos : ℕ) (fin : Bool) (opcode : UInt8) : Frame where
  fin := fin
  opcode := opcode
  key := p.key
  form := p.form
  payload := bytesAt c pos p.size
  fits := by
    rw [length_bytesAt]
    exact p.fits

/-- The frames of a message, of which the last one is marked and the first one has the opcode. -/
def encodeAll (c : ℕ → UInt8) : ℕ → UInt8 → List Piece → List UInt8
  | _, _, [] => []
  | pos, opcode, p :: ps =>
    (p.frame c pos ps.isEmpty opcode).encode ++ encodeAll c (pos + p.size) 0 ps

/-- A message cut into frames, for a receiver of the given role. Its size can be returned. -/
structure Cut (server : Bool) where
  pieces : List Piece
  ne_nil : pieces ≠ []
  role : ∀ p ∈ pieces, p.key.isSome = server
  size_lt : total pieces < 2 ^ 63

/-- What a receiver returns for the message and stores in `l`, whatever its bytes are: its type,
its length and its bytes, and the stream is behind the last frame. -/
def WsSock.Assembles (self : WsSock) (opcode : UInt8) (ps : List Piece) (l : List Elem) : Prop :=
  ∀ c rest n, ps.length ≤ n →
    ∃ r, recvl lossless n self l (encodeAll c 0 opcode ps ++ rest) = .ok (.ok (total ps), r) ∧
      r.passed ++ r.it = fill (bytesAt c 0 (total ps)) l ∧ r.u = rest ∧ r.self = self ∧
      r.flags = some (if opcode = 1 then 1 else 0)

/-! ## Where the bytes go -/

/-- What reading one frame makes of the elements. -/
def Piece.put (p : Piece) (c : ℕ → UInt8) (pos : ℕ) (l : List Elem) : List Elem × List Elem :=
  spread (unmask p.key) (p.frame c pos true 0).body l

/-- The elements after the frames, those that have been passed and those from the current one on;
there are none if bytes have to be unmasked where there is no buffer. -/
def place (c : ℕ → UInt8) : ℕ → List Piece → List Elem → Option (List Elem × List Elem)
  | _, [], l => some ([], l)
  | pos, p :: ps, l =>
    if p.key.isSome → Stored p.size l then
      (place c (pos + p.size) ps (p.put c pos l).2).map fun r => ((p.put c pos l).1 ++ r.1, r.2)
    else none

variable {c : ℕ → UInt8} {pos : ℕ} {ps : List Piece} {p : Piece} {l : List Elem}
  {server : Bool}

@[simp] theorem length_body_frame (fin : Bool) (opcode : UInt8) :
    (p.frame c pos fin opcode).body.length = p.size := by
  rw [Frame.length_body]
  exact length_bytesAt c pos p.size

/-- There is room for what is left of the message. -/
theorem put_room (hcap : total (p :: ps) ≤ capacity l) :
    total ps ≤ capacity (p.put c pos l).2 ∧ capacity (p.put c pos l).1 ≤ p.size ∧
      (0 < p.size → capacity (p.put c pos l).1 < p.size) := by
  have hlen := @length_body_frame c pos p true 0
  rw [total] at hcap
  have h := @spread_capacity (p.frame c pos true 0).body l (unmask p.key)
    (fun _ => length_unmask p.key) (by rw [hlen]; omega)
  rw [hlen] at h
  unfold Piece.put
  omega

/-- The frames of a message are accepted. -/
theorem Piece.valid (hp : p.key.isSome = server) {opcode : UInt8}
    (hop : opcode = 0 ∨ opcode = 1 ∨ opcode = 2) (fin : Bool) :
    (p.frame c pos fin opcode).opcode ≠ 8 ∧ (p.frame c pos fin opcode).Valid server := by
  have h8 : opcode ≠ 8 := by
    rcases hop with rfl | rfl | rfl <;> decide
  refine ⟨h8, ⟨?_, hp⟩, fun h => absurd h h8⟩
  change opcode = 0 ∨ opcode = 1 ∨ opcode = 2 ∨ opcode = 8
  tauto

/-- **The frames of a message.** -/
theorem frames_place {u : Bsock (List UInt8)} (hr : Reads u)
    (hrole : ∀ q ∈ ps, q.key.isSome = server) {opcode : UInt8}
    (hop : opcode = 0 ∨ opcode = 1 ∨ opcode = 2) {n : ℕ} (hn : ps.length ≤ n) (hne : ps ≠ [])
    {s : Rx (List UInt8)} {rest : List UInt8} (hs : s.self.server = server)
    (hu : s.u = encodeAll c pos opcode ps ++ rest) (hcap : total ps ≤ capacity s.it)
    (res : UInt64) :
    frames u n res s
      = (place c pos ps s.it).elim (.error .fault) fun r =>
          .ok (.ok (res + UInt64.ofNat (total ps)),
            { s with u := rest, passed := s.passed ++ r.1, it := r.2,
                     flags := (s.opened opcode).flags }) := by
  induction ps generalizing pos opcode n s res with
  | nil => exact absurd rfl hne
  | cons p ps ih =>
    obtain ⟨hp, hrole⟩ := List.forall_mem_cons.mp hrole
    obtain ⟨n, rfl⟩ : ∃ k, n = k + 1 := ⟨n - 1, by simp at hn; omega⟩
    obtain ⟨h8, hvalid⟩ := @Piece.valid c pos p server hp opcode hop ps.isEmpty
    rw [← hs] at hvalid
    have hlen : (p.frame c pos ps.isEmpty opcode).payload.length = p.size :=
      length_bytesAt c pos p.size
    have hu' : s.u = (p.frame c pos ps.isEmpty opcode).encode ++
        (encodeAll c (pos + p.size) 0 ps ++ rest) := by
      rw [hu, encodeAll, List.append_assoc]
    have hroom : (p.frame c pos ps.isEmpty opcode).payload.length ≤ capacity s.it := by
      rw [total] at hcap
      rw [hlen]
      omega
    by_cases hst : p.key.isSome → Stored p.size s.it
    · have hframe := frame_data hr hvalid h8 hu' hroom (by rw [hlen]; exact hst) res
      rw [hlen] at hframe
      rw [place, if_pos hst]
      cases ps with
      | nil =>
        rw [frames_last hframe]
        simp only [place, Option.map_some, Option.elim_some, List.append_nil, total, Nat.add_zero]
        rfl
      | cons q ps =>
        have hrest := @ih (pos + p.size) hrole 0 (.inl rfl) n (by simpa using hn) (by simp)
          (s.stored (p.frame c pos false opcode) (encodeAll c (pos + p.size) 0 (q :: ps) ++ rest))
          hs rfl (put_room hcap).1 (res + UInt64.ofNat p.size)
        have hit : (s.stored (p.frame c pos false opcode)
            (encodeAll c (pos + p.size) 0 (q :: ps) ++ rest)).it = (p.put c pos s.it).2 := rfl
        have hsum : res + UInt64.ofNat p.size + UInt64.ofNat (total (q :: ps))
            = res + UInt64.ofNat (total (p :: q :: ps)) := by
          rw [UInt64.add_assoc, ← UInt64.ofNat_add]
          rfl
        rw [frames_more hframe]
        refine hrest.trans ?_
        rw [hit, hsum]
        cases place c (pos + p.size) (q :: ps) (p.put c pos s.it).2 with
        | none => rfl
        | some r =>
          simp only [Option.map_some, Option.elim_some, ← List.append_assoc]
          rfl
    · have hnot : p.key.isSome ∧ ¬ Stored p.size s.it := Classical.not_imp.mp hst
      have hfault := frame_fault hr hvalid h8 hu' hroom hnot.1
        (by rw [hlen]; exact hnot.2) res
      rw [frames_stop hfault, place, if_neg hst]
      rfl

/-- The message arrives when the bytes go where they belong. -/
theorem assembles_iff {self : WsSock} (cut : Cut server) (hs : self.server = server)
    (ho : self.indone = false) {opcode : UInt8} (hop : opcode = 1 ∨ opcode = 2)
    (hcap : total cut.pieces ≤ capacity l) :
    self.Assembles opcode cut.pieces l ↔
      ∀ c, ∃ r, place c 0 cut.pieces l = some r ∧
        r.1 ++ r.2 = fill (bytesAt c 0 (total cut.pieces)) l := by
  have hflags : ∀ s : Rx (List UInt8),
      (s.opened opcode).flags = some (if opcode = 1 then 1 else 0) := by
    intro s
    rcases hop with rfl | rfl <;> rfl
  have hsize : (0 + UInt64.ofNat (total cut.pieces)).toInt64.toInt = total cut.pieces := by
    have hlt := cut.size_lt
    rw [UInt64.zero_add]
    apply Prefix.ssize_eq_iff.mpr
    rw [UInt64.toNat_ofNat']
    omega
  have hrun : ∀ c rest n, cut.pieces.length ≤ n → _ := fun c rest n hn =>
    @frames_place c 0 cut.pieces server lossless reads_lossless cut.role opcode (.inr hop) n hn cut.ne_nil
      (.start self (encodeAll c 0 opcode cut.pieces ++ rest) l) rest hs rfl hcap 0
  constructor
  · intro h c
    obtain ⟨r, hr, hfill, -⟩ := h c [] _ (le_refl _)
    have hframes := hrun c [] _ (le_refl _)
    cases hplace : place c 0 cut.pieces l with
    | none =>
      rw [show (Rx.start self (encodeAll c 0 opcode cut.pieces ++ []) l).it = l by rfl, hplace]
        at hframes
      rw [recvl, recvlBase_stop ho hframes] at hr
      cases hr
    | some r' =>
      rw [show (Rx.start self (encodeAll c 0 opcode cut.pieces ++ []) l).it = l by rfl, hplace]
        at hframes
      rw [recvl, recvlBase_data ho hframes ho, hsize] at hr
      cases hr
      exact ⟨r', rfl, hfill⟩
  · intro h c rest n hn
    obtain ⟨r, hplace, hfill⟩ := h c
    have hframes := hrun c rest n hn
    rw [show (Rx.start self (encodeAll c 0 opcode cut.pieces ++ rest) l).it = l by rfl, hplace]
      at hframes
    have hrecv := recvlBase_data ho hframes ho
    rw [hsize, hflags] at hrecv
    exact ⟨_, hrecv, hfill, rfl, rfl, rfl⟩

/-- Frames without bytes do nothing. -/
theorem place_filter :
    place c pos ps l = place c pos (ps.filter fun p => 0 < p.size) l := by
  induction ps generalizing pos l with
  | nil => rfl
  | cons p ps ih =>
    by_cases hp : 0 < p.size
    · rw [List.filter_cons_of_pos (by simpa using hp), place, place, ih]
    · have hzero : p.size = 0 := by omega
      have hbody : (p.frame c pos true 0).body = [] := by
        apply List.length_eq_zero_iff.mp
        rw [length_body_frame, hzero]
      have hput : p.put c pos l = ([], l) := by
        rw [Piece.put, hbody, spread_nil (unmask_nil _)]
      have hst : p.key.isSome → Stored p.size l := by
        intro _
        rw [hzero]
        exact stored_zero l
      rw [List.filter_cons_of_neg (by simpa using hp), place, if_pos hst, hput, hzero, Nat.add_zero,
        ih]
      cases place c pos (ps.filter fun p => 0 < p.size) l <;> rfl

theorem total_filter : total (ps.filter fun p => 0 < p.size) = total ps := by
  induction ps with
  | nil => rfl
  | cons p ps ih =>
    by_cases hp : 0 < p.size
    · rw [List.filter_cons_of_pos (by simpa using hp), total, total, ih]
    · rw [List.filter_cons_of_neg (by simpa using hp), total, ih]
      omega

/-! ## Bytes in the wrong place that are skipped -/

/-- The first `n` bytes of an iolist are skipped. -/
def Skipped : ℕ → List Elem → Prop
  | _, [] => True
  | n, it :: next => (0 < min n it.len → ¬ it.IsBuf) ∧ Skipped (n - it.len) next

/-- Of the first `n` bytes of an iolist, those in the element where the first `k` of them end and
behind it are skipped. -/
def SkippedFrom : ℕ → ℕ → List Elem → Prop
  | _, _, [] => True
  | k, n, it :: next =>
    if k ≤ it.len then Skipped n (it :: next) else SkippedFrom (k - it.len) (n - it.len) next

theorem put_null {it : Elem} (h : ¬ it.IsBuf) (bs : List UInt8) : it.put bs = it := by
  cases it with
  | null n => rfl
  | buf mem => exact absurd trivial h

theorem spread_skipped {bs : List UInt8} {n : ℕ} (h : Skipped n l) (hn : bs.length ≤ n) :
    (spread id bs l).1 ++ (spread id bs l).2 = l ∧
      Skipped (n - capacity (spread id bs l).1) (spread id bs l).2 := by
  induction l generalizing bs n with
  | nil => exact ⟨rfl, trivial⟩
  | cons it l ih =>
    obtain ⟨hit, hl⟩ := h
    by_cases hle : bs.length ≤ it.len
    · have hput : it.put bs = it := by
        by_cases hpos : 0 < bs.length
        · exact put_null (hit (by omega)) bs
        · rw [List.length_eq_zero_iff.mp (by omega : bs.length = 0), Elem.put_nil]
      rw [spread_short hle, id, hput]
      exact ⟨rfl, hit, hl⟩
    · have hput : it.put (bs.take it.len) = it := by
        by_cases hpos : 0 < it.len
        · exact put_null (hit (by omega)) _
        · rw [show it.len = 0 by omega, List.take_zero, Elem.put_nil]
      have hdrop : (bs.drop it.len).length ≤ n - it.len := by
        rw [List.length_drop]
        omega
      obtain ⟨hcat, hrest⟩ := ih hl hdrop
      rw [spread_long (by omega), id, hput, capacity_cons, ← Nat.sub_sub]
      constructor
      · rw [List.cons_append, hcat]
      · exact hrest

theorem skippedFrom_spec {bs bs' : List UInt8} {n : ℕ} (h : SkippedFrom bs.length n l)
    (hn : bs.length + bs'.length ≤ n) :
    Skipped (n - capacity (spread id bs l).1) (spread id bs l).2 ∧
      fill (bs ++ bs') l = fill bs l := by
  induction l generalizing bs n with
  | nil => exact ⟨trivial, rfl⟩
  | cons it l ih =>
    rw [SkippedFrom] at h
    split at h
    · have hlong := @spread_skipped _ (bs ++ bs') _ h (by rw [List.length_append]; exact hn)
      have hshort := @spread_skipped _ bs _ h (by omega)
      refine ⟨hshort.2, ?_⟩
      rw [← spread_id, ← spread_id, hlong.1, hshort.1]
    · rename_i hlt
      have hlen : (bs.drop it.len).length = bs.length - it.len := List.length_drop
      rw [← hlen] at h
      obtain ⟨hskip, hfill⟩ := ih h (by omega)
      rw [spread_long (by omega), capacity_cons, Elem.len_put (by rw [id, List.length_take]; omega),
        ← Nat.sub_sub]
      refine ⟨hskip, ?_⟩
      rw [fill, fill, List.take_append_of_le_length (by omega),
        List.drop_append_of_le_length (by omega), hfill]

theorem put_none (h : p.key = none) : p.put c pos l = spread id (bytesAt c pos p.size) l := by
  have hbody : (p.frame c pos true 0).body = bytesAt c pos p.size := by
    unfold Frame.body
    rw [show (p.frame c pos true 0).key = none from h]
    rfl
  rw [Piece.put, h, hbody]
  rfl

/-- Where everything is skipped the frames change nothing. -/
theorem place_skipped (hkeys : ∀ q ∈ ps, q.key = none) {n : ℕ} (h : Skipped n l)
    (hn : total ps ≤ n) (hcap : total ps ≤ capacity l) :
    ∃ r, place c pos ps l = some r ∧ r.1 ++ r.2 = l := by
  induction ps generalizing pos l n with
  | nil => exact ⟨_, rfl, rfl⟩
  | cons p ps ih =>
    obtain ⟨hp, hkeys⟩ := List.forall_mem_cons.mp hkeys
    have hroom := @put_room c pos _ _ _ hcap
    have hsize := length_bytesAt c pos p.size
    rw [total] at hn
    obtain ⟨hcat, hskip⟩ := @spread_skipped _ (bytesAt c pos p.size) _ h (by omega)
    rw [← put_none hp] at hcat hskip
    obtain ⟨r, hplace, hr⟩ := ih hkeys hskip (by omega) hroom.1
    have hst : p.key.isSome → Stored p.size l := by
      intro hk
      rw [hp] at hk
      cases hk
    refine ⟨_, by rw [place, if_pos hst, hplace, Option.map_some], ?_⟩
    rw [List.append_assoc, hr, hcat]

/-! ## Bytes in the wrong place that are stored -/

theorem not_skipped {n : ℕ} (h : ¬ Skipped n l) : ∃ x < n, ∃ w, cell x l = some w := by
  induction l generalizing n with
  | nil => exact absurd trivial h
  | cons it l ih =>
    by_cases hit : 0 < min n it.len → ¬ it.IsBuf
    · obtain ⟨x, hx, w, hw⟩ := ih fun hl => h ⟨hit, hl⟩
      refine ⟨it.len + x, by omega, w, ?_⟩
      rw [cell, if_neg (by omega), Nat.add_sub_cancel_left]
      exact hw
    · obtain ⟨hpos, hbuf⟩ := Classical.not_imp.mp hit
      have hbuf := not_not.mp hbuf
      have hlen : 0 < it.bytes.length := by
        rw [Elem.length_bytes hbuf]
        omega
      refine ⟨0, by omega, it.bytes[0], ?_⟩
      rw [cell, if_pos (by omega), List.getElem?_eq_getElem hlen]

/-- A byte that is stored in the element where the bytes `bs` end, at its beginning, or behind
them. -/
theorem not_skippedFrom {bs : List UInt8} {n : ℕ} (hn : bs.length ≤ n)
    (h : ¬ SkippedFrom bs.length n l) :
    ∃ x < n, (∃ w, cell x l = some w) ∧ (x = capacity (spread id bs l).1 ∨ bs.length ≤ x) := by
  induction l generalizing bs n with
  | nil => exact absurd trivial h
  | cons it l ih =>
    rw [SkippedFrom] at h
    split at h
    · rename_i hle
      rw [spread_short hle]
      by_cases hhead : 0 < min n it.len ∧ it.IsBuf
      · have hlen : 0 < it.bytes.length := by
          rw [Elem.length_bytes hhead.2]
          omega
        refine ⟨0, by omega, ⟨it.bytes[0], ?_⟩, .inl rfl⟩
        rw [cell, if_pos (by omega), List.getElem?_eq_getElem hlen]
      · have hl : ¬ Skipped (n - it.len) l := by
          intro hl
          apply h
          exact ⟨fun hpos hbuf => hhead ⟨hpos, hbuf⟩, hl⟩
        obtain ⟨x, hx, w, hw⟩ := not_skipped hl
        refine ⟨it.len + x, by omega, ⟨w, ?_⟩, .inr (by omega)⟩
        rw [cell, if_neg (by omega), Nat.add_sub_cancel_left]
        exact hw
    · rename_i hlt
      have hlen : (bs.drop it.len).length = bs.length - it.len := List.length_drop
      rw [← hlen] at h
      obtain ⟨x, hx, ⟨w, hw⟩, hor⟩ := ih (by omega) h
      refine ⟨it.len + x, by omega, ⟨w, ?_⟩, ?_⟩
      · rw [cell, if_neg (by omega), Nat.add_sub_cancel_left]
        exact hw
      · rw [spread_long (by omega), capacity_cons,
          Elem.len_put (by rw [id, List.length_take]; omega)]
        omega

section Lag

variable {v : UInt8} {b y : ℕ}

/-- The bytes of a frame are stored at positions before their own. So the byte at `b + y` is not
the one that belongs there: if those behind it are all `v`, it is `v` after the frame. -/
theorem put_keeps (hp : p.key = none) (hb : b < pos) (hv : ∀ x, b + y < x → c x = v)
    {w : UInt8} (hw : cell y l = some w) (h : w = v ∨ y < p.size) :
    cell y ((p.put c pos l).1 ++ (p.put c pos l).2) = some v := by
  rw [put_none hp, spread_id, cell_fill y]
  by_cases hy : y < p.size
  · rw [getElem?_bytesAt c hy, hw, Option.elim_some, Option.map_some, hv _ (by omega)]
  · rw [List.getElem?_eq_none (by rw [length_bytesAt]; omega), Option.elim_none, hw,
      h.resolve_right hy]

theorem place_keeps {r : List Elem × List Elem} (hkeys : ∀ q ∈ ps, q.key = none) (hb : b < pos)
    (hv : ∀ x, b + y < x → c x = v) (hcap : total ps ≤ capacity l) {w : UInt8}
    (hw : cell y l = some w) (h : w = v ∨ ∃ p qs, ps = p :: qs ∧ y < p.size)
    (hr : place c pos ps l = some r) : cell y (r.1 ++ r.2) = some v := by
  induction ps generalizing pos l b y w r with
  | nil =>
    cases hr
    rcases h with rfl | ⟨p, qs, hnil, -⟩
    · exact hw
    · cases hnil
  | cons p ps ih =>
    obtain ⟨hp, hkeys⟩ := List.forall_mem_cons.mp hkeys
    have hroom := @put_room c pos _ _ _ hcap
    rw [total] at hcap
    have hput := put_keeps hp hb hv hw (by
      rcases h with h | ⟨p', qs, heq, hy⟩
      · exact .inl h
      · cases heq
        exact .inr hy)
    rw [place, if_pos (by rw [hp]; exact fun hk => by cases hk)] at hr
    obtain ⟨r', hplace, rfl⟩ := Option.map_eq_some_iff.mp hr
    rw [cell_append] at hput
    rw [List.append_assoc, cell_append]
    by_cases hy : y < capacity (p.put c pos l).1
    · rw [if_pos hy] at hput ⊢
      exact hput
    · rw [if_neg hy] at hput ⊢
      exact ih (b := b + capacity (p.put c pos l).1) hkeys (by omega)
        (fun x hx => hv x (by omega)) hroom.1 hput (.inl rfl) hplace

/-- A frame that is unmasked stores its first byte as it is. -/
theorem put_head {it : Elem} (hp : p.key.isSome) (hbuf : it.IsBuf) (hlen : 0 < it.len) :
    ∃ it' : Elem, it'.IsBuf ∧ it'.len = it.len ∧
      it'.bytes[0]? = (if 0 < p.size then some (c pos) else it.bytes[0]?) ∧
      (p.put c pos (it :: l) = ([], it' :: l) ∨
        ∃ passed rest, p.put c pos (it :: l) = (it' :: passed, rest)) := by
  obtain ⟨key, hkey⟩ := Option.isSome_iff_exists.mp hp
  have hbody : (p.frame c pos true 0).body = key.mask 0 (bytesAt c pos p.size) := by
    unfold Frame.body
    rw [show (p.frame c pos true 0).key = some key from hkey]
    rfl
  have hstored : ∀ n, it.len = n ∨ p.size ≤ n →
      (it.put ((bytesAt c pos p.size).take n)).bytes[0]?
        = if 0 < p.size then some (c pos) else it.bytes[0]? := by
    intro n hn
    rw [Elem.bytes_put hbuf, List.getElem?_append, List.length_take, length_bytesAt]
    by_cases hpos : 0 < p.size
    · rw [if_pos (by omega), if_pos hpos, List.getElem?_take_of_lt (by omega),
        getElem?_bytesAt c hpos, Nat.add_zero]
    · rw [if_neg (by omega), if_neg hpos, show min n p.size = 0 by omega]
      rfl
  rw [Piece.put, hbody, hkey]
  change ∃ it' : Elem, it'.IsBuf ∧ it'.len = it.len ∧ it'.bytes[0]? = _ ∧
    (spread (key.mask 0) (key.mask 0 (bytesAt c pos p.size)) (it :: l) = ([], it' :: l) ∨
      ∃ passed rest,
        spread (key.mask 0) (key.mask 0 (bytesAt c pos p.size)) (it :: l) = (it' :: passed, rest))
  by_cases hle : p.size ≤ it.len
  · have hall := hstored p.size (.inr (le_refl _))
    rw [List.take_of_length_le (le_of_eq (length_bytesAt c pos p.size))] at hall
    refine ⟨it.put (bytesAt c pos p.size), Elem.isBuf_put.mpr hbuf,
      Elem.len_put (by rw [length_bytesAt]; exact hle), hall, .inl ?_⟩
    rw [spread_short (by rw [length_mask, length_bytesAt]; exact hle), unmask_mask]
  · have hlong := @spread_long (key.mask 0 (bytesAt c pos p.size)) it (key.mask 0)
      (by rw [length_mask, length_bytesAt]; omega) l
    rw [mask_take, unmask_mask] at hlong
    exact ⟨it.put ((bytesAt c pos p.size).take it.len), Elem.isBuf_put.mpr hbuf,
      Elem.len_put (by rw [List.length_take]; omega), hstored it.len (.inl rfl),
      .inr ⟨_, _, hlong⟩⟩

/-- The beginning of the element in which a frame has ended is overwritten by every frame that
follows. -/
theorem place_head {r : List Elem × List Elem} {it : Elem}
    (hkeys : ∀ q ∈ ps, q.key.isSome) (hbuf : it.IsBuf) (hlen : 0 < it.len)
    (hv : ∀ x, pos ≤ x → c x = v)
    (h : it.bytes[0]? = some v ∨ ∃ p qs, ps = p :: qs ∧ 0 < p.size)
    (hr : place c pos ps (it :: l) = some r) : cell 0 (r.1 ++ r.2) = some v := by
  induction ps generalizing pos it r with
  | nil =>
    cases hr
    rcases h with h | ⟨p, qs, hnil, -⟩
    · rw [List.nil_append, cell, if_pos hlen, h]
    · cases hnil
  | cons p ps ih =>
    obtain ⟨hp, hkeys⟩ := List.forall_mem_cons.mp hkeys
    rw [place] at hr
    split at hr
    · obtain ⟨r', hplace, rfl⟩ := Option.map_eq_some_iff.mp hr
      obtain ⟨it', hbuf', hlen', hbyte, hput⟩ := put_head (l := l) (c := c) hp hbuf hlen
      have hfirst : it'.bytes[0]? = some v := by
        rw [hbyte]
        split
        · rw [hv pos (le_refl _)]
        · rename_i hpos
          rcases h with h | ⟨p', qs, heq, hsize⟩
          · exact h
          · cases heq
            exact absurd hsize hpos
      rcases hput with hput | ⟨passed, rest, hput⟩
      · rw [hput] at hplace ⊢
        exact ih hkeys hbuf' (by omega) (fun x hx => hv x (by omega)) (.inl hfirst) hplace
      · rw [hput, List.cons_append, List.cons_append, cell, if_pos (by omega), hfirst]
    · cases hr

end Lag

/-! ## Fragments -/

/-- The bytes of a single frame are unmasked right. -/
def Piece.Right (p : Piece) (l : List Elem) : Prop :=
  ∀ key, p.key = some key → Stored p.size l ∧ Aligned key 0 p.size l

/-- When fragments make no difference: at most one frame has bytes, and these are unmasked right;
or nothing has to be unmasked, and all elements that get bytes from the one on where the first frame
with bytes ends are skipped. -/
def Harmless (ps : List Piece) (l : List Elem) : Prop :=
  match ps.filter fun p => 0 < p.size with
  | [] => True
  | [p] => p.Right l
  | p :: _ :: _ => p.key = none ∧ SkippedFrom p.size (total ps) l

theorem right_iff {key : Key} (hkey : p.key = some key) :
    p.Right l ↔ Stored p.size l ∧ Aligned key 0 p.size l := by
  constructor
  · intro h
    exact h key hkey
  · intro h key' hkey'
    rw [hkey] at hkey'
    cases hkey'
    exact h

/-- One frame with bytes that are not masked. -/
theorem place_one_none (hkey : p.key = none) (c : ℕ → UInt8) :
    ∃ r, place c 0 [p] l = some r ∧ r.1 ++ r.2 = fill (bytesAt c 0 p.size) l := by
  refine ⟨_, by rw [place, if_pos (by rw [hkey]; exact fun hk => by cases hk)]; rfl, ?_⟩
  simp only [List.append_nil]
  rw [put_none hkey, spread_id]

theorem place_one_some {key : Key} (hkey : p.key = some key) (hst : Stored p.size l)
    (hcap : p.size ≤ capacity l) (c : ℕ → UInt8) :
    ∃ r, place c 0 [p] l = some r ∧
      (r.1 ++ r.2 = fill (bytesAt c 0 p.size) l ↔ Aligned key 0 p.size l) := by
  have hlen := length_bytesAt c 0 p.size
  have hbody : (p.frame c 0 true 0).body = key.mask 0 (bytesAt c 0 p.size) := by
    unfold Frame.body
    rw [show (p.frame c 0 true 0).key = some key from hkey]
    rfl
  have hput : p.put c 0 l = spread (key.mask 0) (key.mask 0 (bytesAt c 0 p.size)) l := by
    rw [Piece.put, hbody, hkey]
    rfl
  have halign := @spread_unmask_iff key 0 (bytesAt c 0 p.size) l (by rw [hlen]; exact hcap)
    (by rw [hlen]; exact hst)
  rw [hlen, ← hput] at halign
  refine ⟨_, by rw [place, if_pos fun _ => hst]; rfl, ?_⟩
  simp only [List.append_nil]
  exact halign

/-- One frame with bytes. -/
theorem place_one (hcap : p.size ≤ capacity l) :
    (∀ c, ∃ r, place c 0 [p] l = some r ∧ r.1 ++ r.2 = fill (bytesAt c 0 p.size) l) ↔
      p.Right l := by
  cases hkey : p.key with
  | none =>
    have hright : p.Right l := by
      intro key h
      rw [hkey] at h
      cases h
    exact iff_of_true (place_one_none hkey) hright
  | some key =>
    rw [right_iff hkey]
    by_cases hst : Stored p.size l
    · have hsome := place_one_some hkey hst hcap
      constructor
      · intro h
        obtain ⟨r, hr, hfill⟩ := h fun _ => 0
        obtain ⟨r', hr', hiff⟩ := hsome fun _ => 0
        cases hr.symm.trans hr'
        exact ⟨hst, hiff.mp hfill⟩
      · rintro ⟨-, halign⟩ c
        obtain ⟨r, hr, hiff⟩ := hsome c
        exact ⟨r, hr, hiff.mpr halign⟩
    · constructor
      · intro h
        obtain ⟨r, hr, -⟩ := h fun _ => 0
        rw [place, if_neg (by rw [hkey]; exact fun h => hst (h rfl))] at hr
        cases hr
      · intro h
        exact absurd h.1 hst

/-- Frames with bytes that are not masked, where all bytes behind the end of the first one are
skipped. -/
theorem place_many_skipped (hkeys : ∀ x ∈ p :: ps, x.key = none)
    (hcap : total (p :: ps) ≤ capacity l) (h : SkippedFrom p.size (total (p :: ps)) l)
    (c : ℕ → UInt8) :
    ∃ r, place c 0 (p :: ps) l = some r ∧ r.1 ++ r.2 = fill (bytesAt c 0 (total (p :: ps))) l := by
  obtain ⟨hpkey, hkeys⟩ := List.forall_mem_cons.mp hkeys
  have hst : p.key.isSome → Stored p.size l := by
    intro hk
    rw [hpkey] at hk
    cases hk
  have hsize : ∀ c pos n, (bytesAt c pos n).length = n := length_bytesAt
  have htotal : total (p :: ps) = p.size + total ps := rfl
  have hspec := @skippedFrom_spec l (bytesAt c 0 p.size) (bytesAt c (0 + p.size) (total ps))
    (total (p :: ps)) (by rw [hsize]; exact h) (by rw [hsize, hsize, htotal])
  rw [← put_none hpkey, ← bytesAt_append, ← htotal] at hspec
  obtain ⟨hskip, hfill⟩ := hspec
  obtain ⟨hroom1, hroom2, -⟩ := @put_room c 0 ps p l hcap
  obtain ⟨r, hr, hcat⟩ := @place_skipped c (0 + p.size) ps _ hkeys _ hskip (by omega) hroom1
  refine ⟨_, by rw [place, if_pos hst, hr, Option.map_some], ?_⟩
  rw [List.append_assoc, hcat, put_none hpkey, spread_id, hfill]

/-- What is stored behind the end of the first frame is not the message, when the message has bytes
there that differ from those in the iolist and those behind. -/
theorem place_many_spoils {q : Piece} (hkeys : ∀ x ∈ p :: q :: ps, x.key = none) (hp : 0 < p.size)
    (hq : 0 < q.size) (hcap : total (p :: q :: ps) ≤ capacity l)
    (hnot : ¬ SkippedFrom p.size (total (p :: q :: ps)) l) :
    ∃ c, ∀ r, place c 0 (p :: q :: ps) l = some r →
      r.1 ++ r.2 ≠ fill (bytesAt c 0 (total (p :: q :: ps))) l := by
  obtain ⟨hpkey, hkeys⟩ := List.forall_mem_cons.mp hkeys
  have hst : p.key.isSome → Stored p.size l := by
    intro hk
    rw [hpkey] at hk
    cases hk
  have hsize : ∀ c pos n, (bytesAt c pos n).length = n := length_bytesAt
  have htotal : total (p :: q :: ps) = p.size + total (q :: ps) := rfl
  have hlen := hsize (fun _ => 0) 0 p.size
  rw [← hlen] at hnot
  obtain ⟨x, hx, ⟨v, hv⟩, hor⟩ := not_skippedFrom (by rw [hlen]; omega) hnot
  -- a message whose bytes differ at `x`: behind it they are all what is in the iolist there
  let c : ℕ → UInt8 := fun i => if i ≤ x then v + 1 else v
  refine ⟨c, fun r hr hfill => ?_⟩
  rw [place, if_pos hst] at hr
  obtain ⟨r', hplace, rfl⟩ := Option.map_eq_some_iff.mp hr
  have hcapA : capacity (spread id (bytesAt (fun _ => 0) 0 p.size) l).1
      = capacity (p.put c 0 l).1 := by
    rw [put_none hpkey]
    exact spread_congr (fun _ => rfl) (by rw [hsize, hsize]) l
  rw [hcapA, hlen] at hor
  obtain ⟨hroom1, hroom2, hroom3⟩ := @put_room c 0 (q :: ps) p l hcap
  have hlt := hroom3 hp
  have hA : capacity (p.put c 0 l).1 ≤ x := by omega
  have hmem := @cell_fill (bytesAt c 0 p.size) l x
  rw [← spread_id, ← put_none hpkey, cell_append, if_neg (by omega), hv] at hmem
  have hend : cell (x - capacity (p.put c 0 l).1) (r'.1 ++ r'.2) = some v := by
    by_cases hxp : x < p.size
    · rw [getElem?_bytesAt c hxp] at hmem
      exact place_keeps (b := capacity (p.put c 0 l).1) hkeys (by omega)
        (fun i hi => if_neg (by omega)) hroom1 hmem
        (.inr ⟨q, ps, rfl, by omega⟩) hplace
    · rw [List.getElem?_eq_none (by rw [hsize]; omega)] at hmem
      exact place_keeps (b := capacity (p.put c 0 l).1) hkeys (by omega)
        (fun i hi => if_neg (by omega)) hroom1 hmem (.inl rfl) hplace
  have hfinal := congrArg (cell x) hfill
  rw [List.append_assoc, cell_append, if_neg (by omega), hend,
    cell_fill x, getElem?_bytesAt c hx, hv] at hfinal
  simp only [Option.elim_some, Option.map_some, Nat.zero_add] at hfinal
  rw [show c x = v + 1 from if_pos (le_refl x)] at hfinal
  exact byte_succ_ne v (Option.some.inj hfinal).symm

/-- Several frames with bytes that are not masked. -/
theorem place_many_none {q : Piece} (hkeys : ∀ x ∈ p :: q :: ps, x.key = none) (hp : 0 < p.size)
    (hq : 0 < q.size) (hcap : total (p :: q :: ps) ≤ capacity l) :
    (∀ c, ∃ r, place c 0 (p :: q :: ps) l = some r ∧
        r.1 ++ r.2 = fill (bytesAt c 0 (total (p :: q :: ps))) l) ↔
      SkippedFrom p.size (total (p :: q :: ps)) l := by
  refine ⟨fun h => ?_, place_many_skipped hkeys hcap⟩
  by_contra hnot
  obtain ⟨c, hc⟩ := place_many_spoils hkeys hp hq hcap hnot
  obtain ⟨r, hr, hfill⟩ := h c
  exact hc r hr hfill

/-- Several frames with bytes that have to be unmasked never give back the message. -/
theorem place_many_some {q : Piece} (hkeys : ∀ x ∈ p :: q :: ps, x.key.isSome) (hp : 0 < p.size)
    (hq : 0 < q.size) (hcap : total (p :: q :: ps) ≤ capacity l) :
    ¬ ∀ c, ∃ r, place c 0 (p :: q :: ps) l = some r ∧
        r.1 ++ r.2 = fill (bytesAt c 0 (total (p :: q :: ps))) l := by
  obtain ⟨hpkey, hkeys⟩ := List.forall_mem_cons.mp hkeys
  have hun : ∀ bs, (unmask p.key bs).length = bs.length := fun _ => length_unmask p.key
  have hbody : ∀ c, (p.frame c 0 true 0).body.length = p.size := fun c =>
    length_body_frame true 0
  have hle : p.size ≤ capacity l := by
    rw [total] at hcap
    omega
  intro h
  -- a message that is one up to the element where the first frame ends, and zero behind it
  let x := capacity (p.put (fun _ => 0) 0 l).1
  let c : ℕ → UInt8 := fun i => if i ≤ x then 1 else 0
  have hx : capacity (p.put c 0 l).1 = x :=
    spread_congr hun (by rw [hbody, hbody]) l
  have hlt := (@put_room c 0 (q :: ps) p l hcap).2.2 hp
  obtain ⟨r, hr, hfill⟩ := h c
  rw [place] at hr
  split at hr
  · rename_i hst
    obtain ⟨r', hplace, rfl⟩ := Option.map_eq_some_iff.mp hr
    obtain ⟨it, next, hend, hbuf, hlen⟩ := @spread_end (p.frame c 0 true 0).body l (unmask p.key) hun
      (by rw [hbody]; exact hp) (by rw [hbody]; exact hle) (by rw [hbody]; exact hst hpkey)
    rw [show (p.put c 0 l).2 = it :: next from hend] at hplace
    have hhead := place_head hkeys hbuf hlen
      (fun i hi => show c i = 0 from if_neg (by omega)) (.inr ⟨q, ps, rfl, hq⟩) hplace
    have hfinal := congrArg (cell x) hfill
    have hxt : x < total (p :: q :: ps) := by
      rw [total]
      omega
    rw [List.append_assoc, cell_append, hx, if_neg (lt_irrefl x), Nat.sub_self, hhead,
      cell_fill x, getElem?_bytesAt c hxt] at hfinal
    simp only [Option.elim_some, Nat.zero_add] at hfinal
    rw [show c x = 1 from if_pos (le_refl x)] at hfinal
    cases hcell : cell x l with
    | none =>
      rw [hcell] at hfinal
      cases hfinal
    | some w =>
      rw [hcell] at hfinal
      cases hfinal
  · cases hr

/-- **Fragments.** A receiver returns a fragmented message, whatever its bytes are, exactly when
the fragments are harmless. -/
theorem fragments_iff {server : Bool} (self : WsSock) (hs : self.server = server)
    (ho : self.indone = false) (opcode : UInt8) (hop : opcode = 1 ∨ opcode = 2) (cut : Cut server)
    (l : List Elem) (hcap : total cut.pieces ≤ capacity l) :
    self.Assembles opcode cut.pieces l ↔ Harmless cut.pieces l := by
  rw [assembles_iff cut hs ho hop hcap]
  simp only [@place_filter _ _ cut.pieces]
  rw [← total_filter] at hcap ⊢
  have hrole : ∀ x ∈ cut.pieces.filter fun p => 0 < p.size, x.key.isSome = server := fun x hx =>
    cut.role x (List.mem_of_mem_filter hx)
  have hsizes : ∀ x ∈ cut.pieces.filter fun p => 0 < p.size, 0 < x.size := fun x hx => by
    simpa using (List.mem_filter.mp hx).2
  unfold Harmless
  rw [← @total_filter cut.pieces]
  generalize (cut.pieces.filter fun p => 0 < p.size) = ps at hcap hrole hsizes ⊢
  match ps with
  | [] =>
    refine iff_of_true (fun c => ⟨_, rfl, ?_⟩) trivial
    rw [total, bytesAt, List.range'_zero, List.map_nil, fill_nil]
    rfl
  | [p] =>
    rw [total, total, Nat.add_zero] at hcap ⊢
    exact place_one hcap
  | p :: q :: ps =>
    have hp := hsizes p List.mem_cons_self
    have hq := hsizes q (List.mem_cons_of_mem _ List.mem_cons_self)
    cases server with
    | true =>
      refine iff_of_false (place_many_some hrole hp hq hcap) fun h => ?_
      have hkey := hrole p List.mem_cons_self
      rw [h.1] at hkey
      cases hkey
    | false =>
      have hnone : ∀ x ∈ p :: q :: ps, x.key = none := fun x hx => by
        simpa using hrole x hx
      rw [place_many_none hnone hp hq hcap]
      exact ⟨fun h => ⟨hnone p List.mem_cons_self, h⟩, fun h => h.2⟩

/-- Two bytes in two frames, with an empty one between them, on a client that skips them. -/
theorem fragments_skipped :
    let p : Piece := ⟨none, .short, 1, by decide⟩
    let q : Piece := ⟨none, .short, 0, by decide⟩
    let cut : Cut false := ⟨[p, q, p], by simp, by simp [p, q], by decide⟩
    (WsSock.attach false true 1 (List.replicate 128 0)).Assembles 1 cut.pieces [.null 4] := by
  intro p q cut
  apply (@fragments_iff false (WsSock.attach false true 1 (List.replicate 128 0)) rfl rfl 1
    (.inl rfl) cut [.null 4] (by decide)).mpr
  change p.key = none ∧ SkippedFrom 1 2 [.null 4]
  constructor
  · rfl
  · simp [SkippedFrom, Skipped, Elem.len, Elem.IsBuf]

/-- The second of two frames is stored over the first one. -/
theorem fragments_overwrite :
    let c : ℕ → UInt8 := fun i => if i = 0 then 72 else 105
    let p : Piece := ⟨none, .short, 1, by decide⟩
    let self := WsSock.attach false true 1 (List.replicate 128 0)
    recvl lossless 2 self [.buf [0, 0]] (encodeAll c 0 1 [p, p])
        = .ok (.ok 2, ⟨self, [], [], [.buf [105, 0]], some 1⟩) ∧
      ¬ self.Assembles 1 [p, p] [.buf [0, 0]] := by
  intro c p self
  have hplace : place c 0 [p, p] [.buf [0, 0]] = some ([], [.buf [105, 0]]) := rfl
  have hframes := @frames_place c 0 [p, p] false lossless reads_lossless (by simp [p]) 1
    (.inr (.inl rfl)) 2 (le_refl _) (by simp) (.start self (encodeAll c 0 1 [p, p] ++ []) [.buf [0, 0]]) [] rfl rfl (by decide) 0
  rw [show (Rx.start self (encodeAll c 0 1 [p, p] ++ []) [.buf [0, 0]]).it = [.buf [0, 0]] by rfl,
    hplace] at hframes
  have hrun := recvlBase_data rfl hframes rfl
  refine ⟨?_, fun h => ?_⟩
  · rw [List.append_nil] at hrun
    exact hrun
  · obtain ⟨r, hr, hfill, -⟩ := h c [] 2 (le_refl _)
    rw [recvl, hrun] at hr
    cases hr
    revert hfill
    decide

end Libdill.Ws
