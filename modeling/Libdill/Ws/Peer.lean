import Libdill.Ws.Cutoff
import Libdill.Ws.Fragments
import Libdill.Ws.Trust

/-!
# A peer that sends messages

What a peer of a WebSocket sends, messages and control frames, and what one receive call makes of
the beginning of it when the stream may break off.

* `allAt_frames`: as long as a call goes on, it reads its headers where the frames of a message begin.
* `frames_refuse`: a message of which a frame is too long for the elements that are left is refused.
* `gives_fits`: a message that fits is received as it is.
-/

namespace Libdill.Ws

open Foundations Libdill.Sock

/-! ## The peer -/

/-- A message of the peer, to a socket of the given role: its type, its bytes and how they are cut
into frames. -/
structure Sent (server : Bool) where
  text : Bool
  content : ℕ → UInt8
  pieces : List Piece
  ne_nil : pieces ≠ []
  role : ∀ p ∈ pieces, p.key.isSome = server

/-- The frames of a message from position `pos` on, the first of them with the opcode. The very last
one is marked if the message is `complete`. -/
def framesOf (content : ℕ → UInt8) (complete : Bool) : ℕ → UInt8 → List Piece → List Frame
  | _, _, [] => []
  | pos, opcode, p :: ps =>
    p.frame content pos (complete && ps.isEmpty) opcode ::
      framesOf content complete (pos + p.size) 0 ps

/-- The opcode of the first frame of a message. -/
def opcodeFor (text : Bool) : UInt8 := if text then 1 else 2

def Sent.frames {server : Bool} (m : Sent server) : List Frame :=
  framesOf m.content true 0 (opcodeFor m.text) m.pieces

/-- The bytes of the message. -/
def Sent.bytes {server : Bool} (m : Sent server) : List UInt8 := bytesAt m.content 0 (total m.pieces)

/-- A ping or a pong. -/
structure Ping (server : Bool) where
  frame : Frame
  opcode : frame.opcode = 9 ∨ frame.opcode = 10
  fin : frame.fin = true
  length_le : frame.payload.length ≤ 125
  role : frame.key.isSome = server

/-- What a peer sends: messages, with control frames between them. -/
inductive Item (server : Bool)
  | message (m : Sent server)
  | ping (f : Ping server)

def Item.frames {server : Bool} : Item server → List Frame
  | .message m => m.frames
  | .ping f => [f.frame]

/-- How the stream of a peer ends. -/
inductive Ending (server : Bool)
  /-- Nothing more is sent. -/
  | idle
  /-- A close frame, and then whatever the peer sends when it does not use WebSockets any more. -/
  | close (f : Frame) (wf : f.WellFormed) (role : f.key.isSome = server) (raw : List UInt8)
  /-- Some frames of a message and, before the message goes on, a control frame; `more` is all that
  comes after it. -/
  | pinged (text : Bool) (content : ℕ → UInt8) (ps : List Piece)
      (role : ∀ p ∈ ps, p.key.isSome = server) (f : Ping server) (more : List UInt8)

def Ending.frames {server : Bool} : Ending server → List Frame
  | .idle => []
  | .close f _ _ _ => [f]
  | .pinged text content ps _ f _ => framesOf content false 0 (opcodeFor text) ps ++ [f.frame]

/-- What is not in frames, or comes after the frames that matter. -/
def Ending.raw {server : Bool} : Ending server → List UInt8
  | .idle => []
  | .close _ _ _ raw => raw
  | .pinged _ _ _ _ _ more => more

/-- A peer of a socket. -/
structure Peer (server : Bool) where
  items : List (Item server)
  ending : Ending server

namespace Peer

variable {server : Bool}

def frames (peer : Peer server) : List Frame :=
  peer.items.flatMap Item.frames ++ peer.ending.frames

/-- The bytes the peer sends. -/
def wire (peer : Peer server) : List UInt8 :=
  peer.frames.flatMap Frame.encode ++ peer.ending.raw

/-- The messages among the items. -/
def messagesOf : List (Item server) → List (Sent server)
  | [] => []
  | .message m :: is => m :: messagesOf is
  | .ping _ :: is => messagesOf is

/-- The messages the peer sends. -/
def messages (peer : Peer server) : List (Sent server) := messagesOf peer.items

/-- When `x` can still be received and the stream breaks off before `lost`: if there are the two bytes
every frame starts with, it is at the beginning of a frame. -/
def AtFrame (peer : Peer server) (lost x : List UInt8) : Prop :=
  2 ≤ x.length → ∃ fs fs', peer.frames = fs ++ fs' ∧ fs' ≠ [] ∧
    x ++ lost = fs'.flatMap Frame.encode ++ peer.ending.raw

end Peer

/-- A socket that receives messages. -/
structure WsSock.Receives (sock : WsSock) (server : Bool) : Prop where
  role : sock.server = server
  receiving : sock.indone = false
  sized : sock.Sized

/-! ## Receive calls -/

/-- What a successful receive hands out. -/
structure Delivery where
  size : ℤ
  iol : List Elem
  flags : Option UInt32

/-- A call on a socket and its stream, if it returns, with what it hands out. -/
def Receive.gives {σ : Type} (u : Bsock σ) (p : WsSock × σ) (c : Receive) :
    Option ((WsSock × σ) × Except Errno Delivery) :=
  match receive u c p.1 p.2 with
  | .error _ => none
  | .ok (.error e, r) => some ((r.self, r.u), .error e)
  | .ok (.ok sz, r) => some ((r.self, r.u), .ok ⟨sz, r.passed ++ r.it, r.flags⟩)

/-- The successful ones of some calls: the iolist each was given, and what it has handed out. -/
def successes : List Receive → List (Except Errno Delivery) → List (List Elem × Delivery)
  | c :: cs, .ok d :: outs => (c.first, d) :: successes cs outs
  | _ :: cs, .error _ :: outs => successes cs outs
  | _, _ => []

/-- A message in its entirety: its length, its bytes where it has been received, and its type. -/
structure Sent.Whole {server : Bool} (m : Sent server) (r : List Elem × Delivery) : Prop where
  size : r.2.size = total m.pieces
  iol : r.2.iol = fill m.bytes r.1
  flags : r.2.flags = some (if m.text then 1 else 0)

/-- `P` holds of the stream whenever the call reads a header. -/
def AllAt (P : List UInt8 → Prop) (u : Bsock (List UInt8)) : ℕ → UInt64 → Rx (List UInt8) → Prop
  | 0, _, _ => True
  | n + 1, res, s =>
    P s.u ∧ ∀ res' s', frame u res s = .ok (.ok (res', false), s') → AllAt P u n res' s'

def Receive.HeadersAt (P : List UInt8 → Prop) (u : Bsock (List UInt8)) (p : WsSock × List UInt8)
    (c : Receive) : Prop :=
  p.1.indone = false → AllAt P u c.n 0 (.start p.1 p.2 c.first)

/-! ## Messages and iolists -/

/-- The message arrives as it is in the iolist. -/
structure Sent.Fits {server : Bool} (m : Sent server) (l : List Elem) : Prop where
  room : total m.pieces ≤ capacity l
  size_lt : total m.pieces < 2 ^ 63
  harmless : Harmless m.pieces l

/-- Of elements with these lengths, those from the one on where `n` bytes end. -/
def ahead : ℕ → List ℕ → List ℕ
  | _, [] => []
  | n, len :: next => if n ≤ len then len :: next else ahead (n - len) next

/-- One of the frames is too long for the elements from the one on where the frame before it ends. -/
def Overflows : List ℕ → List Piece → Prop
  | _, [] => False
  | lens, p :: ps => lens.sum < p.size ∨ Overflows (ahead p.size lens) ps

/-- How many bytes of these frames are read before the call is refused: up to where a frame has filled
the elements that are left, or the two bytes with which a control frame behind them starts. -/
def stopsAt : List ℕ → List Frame → ℕ
  | _, [] => 2
  | lens, f :: fs =>
    if lens.sum < f.payload.length then f.encode.length - f.payload.length + lens.sum
    else f.encode.length + stopsAt (ahead f.payload.length lens) fs

/-- There are elements, and those a server unmasks in are buffers. -/
structure Sound (server : Bool) (l : List Elem) : Prop where
  ne_nil : l ≠ []
  isBuf : server = true → ∀ it ∈ l, 0 < it.len → it.IsBuf

/-- The ping is nothing but the two bytes that are read before it is refused. -/
def Ping.Bare {server : Bool} (f : Ping server) : Prop :=
  f.frame.payload = [] ∧ f.frame.key = none ∧ f.frame.form = .short

variable {server : Bool} {fate : Option Errno} {lost rest : List UInt8} {s s' : Rx (List UInt8)}
  {n : ℕ} {res res' : UInt64} {f : Frame} {P : List UInt8 → Prop}

/-! ## One frame -/

/-- A header that is read on a stream that breaks off is read on the whole stream. -/
theorem frame_ext (lost : List UInt8) {r : UInt64 × Bool}
    (h : frame (ending fate) res s = .ok (.ok r, s')) :
    frame lossless res (s.ext lost) = .ok (.ok r, s'.ext lost) := by
  rcases (follows_frame res s).1 _ _ h with h | ⟨⟨e, he⟩, -⟩
  · exact h
  · cases he

theorem data_ne_close {opcode : UInt8} (h : opcode = 0 ∨ opcode = 1 ∨ opcode = 2) : opcode ≠ 8 := by
  rcases h with h | h | h <;> rw [h] <;> decide

/-- A frame with data of a message for a socket of this role. -/
structure Frame.Data (server : Bool) (f : Frame) : Prop where
  opcode : f.opcode = 0 ∨ f.opcode = 1 ∨ f.opcode = 2
  role : f.key.isSome = server

theorem Frame.Data.valid (h : f.Data server) : f.Valid server where
  opcode := by
    rcases h.opcode with h | h | h
    · exact .inl h
    · exact .inr (.inl h)
    · exact .inr (.inr (.inl h))
  role := h.role
  control := fun h8 => absurd h8 (data_ne_close h.opcode)

/-- **A frame that has been received.** The stream is at the end of it. -/
theorem frame_next (hf : f.Data s.self.server) (hs : s.u ++ lost = f.encode ++ rest) {fin : Bool}
    (h : frame (ending fate) res s = .ok (.ok (res', fin), s')) :
    s'.u ++ lost = rest ∧ fin = f.fin ∧ s'.self = s.self := by
  have hrun := frame_ext lost h
  have hvalid : f.Valid (s.ext lost).self.server := hf.valid
  have hdata := data_ne_close hf.opcode
  have hop : (f.opcode == 8) = false := by simpa using hdata
  rw [frame_encode reads_lossless hvalid hs, hop] at hrun
  obtain ⟨_, s₁, hpay, hret⟩ := Call.ret_of_bind hrun
  cases hret
  obtain ⟨⟨bs, hbs, hlen⟩, hself⟩ := readPayload_consumes consumes_lossless hpay
  refine ⟨?_, rfl, ?_⟩
  · have hlen' : bs.length = f.body.length := by
      rw [hlen, Frame.length_body]
    exact ((List.append_inj hbs hlen'.symm).2).symm
  · exact (hself rfl).trans (opened_data hdata).1

/-- A control frame the receiver does not know is refused as soon as its header has been read. -/
theorem frame_ping (f : Ping server) (hs : s.u = f.frame.encode ++ rest) (res : UInt64) :
    frame lossless res s = .ok (.error .EPROTO, { s with u := s.u.drop 2 }) := by
  obtain ⟨x, y, tail, hbytes, hrsv, hop⟩ : ∃ x y tail, f.frame.encode ++ rest = x :: y :: tail ∧
      (x &&& 0x70 == 0) = true ∧ (x &&& 0x0f = 9 ∨ x &&& 0x0f = 10) := by
    refine ⟨_, _, _, rfl, ?_⟩
    rw [f.fin]
    rcases f.opcode with h | h <;> rw [h]
    · exact ⟨rfl, .inl rfl⟩
    · exact ⟨rfl, .inr rfl⟩
  have hread : recv lossless 2 s = .ok (.ok [x, y], { s with u := tail }) :=
    @recv_run lossless tail [x, y] s reads_lossless (hs.trans hbytes)
  have hswitch : switchOpcode (x &&& 0x0f) { s with u := tail }
      = .ok (.error .EPROTO, { s with u := tail }) := by
    rcases hop with h | h <;> rw [h] <;> rfl
  unfold frame
  rw [Call.bind_ret hread, hs, hbytes]
  simp only [List.getD_cons_zero, hrsv]
  rw [Call.bind_ret Call.require_true, Call.bind_fail hswitch]
  rfl

theorem frame_closing (hf : f.WellFormed) (hrole : f.key.isSome = s.self.server)
    (hsz : s.self.Sized) (hs : s.u = f.encode ++ rest) {r : UInt64 × Bool}
    (h : frame lossless res s = .ok (.ok r, s')) : r.2 = true := by
  have hvalid : f.Valid s.self.server := by
    rw [← hrole]
    exact hf.valid
  rw [frame_close reads_lossless hvalid hf.opcode hs hsz] at h
  cases h
  rfl

/-! ## The headers of a call -/

theorem allAt_cons (hP : P s.u) (hf : f.Data s.self.server) (hs : s.u ++ lost = f.encode ++ rest)
    (h : f.fin = false → ∀ n res s', s'.self = s.self → s'.u ++ lost = rest →
      AllAt P (ending fate) n res s') :
    AllAt P (ending fate) n res s := by
  cases n with
  | zero => trivial
  | succ n =>
    refine ⟨hP, fun res' s' hrun => ?_⟩
    obtain ⟨hu, hfin, hself⟩ := frame_next hf hs hrun
    exact h hfin.symm n res' s' hself hu

/-- A call that reads one more header at most. -/
theorem allAt_one (hP : P s.u)
    (h : ∀ res' s', frame (ending fate) res s ≠ .ok (.ok (res', false), s')) :
    AllAt P (ending fate) n res s := by
  cases n with
  | zero => trivial
  | succ n => exact ⟨hP, fun res' s' hrun => absurd hrun (h res' s')⟩

theorem opcodeFor_data (text : Bool) :
    opcodeFor text = 0 ∨ opcodeFor text = 1 ∨ opcodeFor text = 2 := by
  cases text
  · exact .inr (.inr rfl)
  · exact .inr (.inl rfl)

theorem framesOf_data {content : ℕ → UInt8} {complete : Bool} {pos : ℕ} {opcode : UInt8}
    {ps : List Piece} (hop : opcode = 0 ∨ opcode = 1 ∨ opcode = 2)
    (hrole : ∀ p ∈ ps, p.key.isSome = server) :
    ∀ f ∈ framesOf content complete pos opcode ps, f.Data server := by
  induction ps generalizing pos opcode with
  | nil =>
    intro f hf
    cases hf
  | cons p ps ih =>
    obtain ⟨hp, hrole⟩ := List.forall_mem_cons.mp hrole
    refine List.forall_mem_cons.mpr ⟨⟨hop, hp⟩, ?_⟩
    exact ih (.inl rfl) hrole

/-- Frames of a message, where only the last one may be marked: all headers that a call reads are
at the beginning of one of them, or are what comes behind if the last one is not marked. -/
theorem allAt_frames {fs : List Frame} (hdata : ∀ f ∈ fs, f.Data s.self.server)
    (hs : s.u ++ lost = fs.flatMap Frame.encode ++ rest)
    (hP : ∀ fs' x, fs' <:+ fs → fs' ≠ [] → x ++ lost = fs'.flatMap Frame.encode ++ rest → P x)
    (hend : (∀ f ∈ fs, f.fin = false) → ∀ n res s', s'.self = s.self → s'.u ++ lost = rest →
      AllAt P (ending fate) n res s')
    (hfin : ∀ fs' f, fs = fs' ++ [f] → ∀ f ∈ fs', f.fin = false) :
    AllAt P (ending fate) n res s := by
  induction fs generalizing n res s with
  | nil => exact hend (fun f hf => by cases hf) n res s rfl hs
  | cons f fs ih =>
    obtain ⟨hf, hdata⟩ := List.forall_mem_cons.mp hdata
    have hs' : s.u ++ lost = f.encode ++ (fs.flatMap Frame.encode ++ rest) := by
      rw [hs, List.flatMap_cons, List.append_assoc]
    refine allAt_cons (hP _ _ List.suffix_rfl (by simp) hs) hf hs' fun hopen n res s' hself hu => ?_
    refine ih (by rw [hself]; exact hdata) hu ?_ ?_ ?_
    · intro fs' x hsuf hne hx
      exact hP fs' x (hsuf.trans (List.suffix_cons f fs)) hne hx
    · intro hall n res s'' hself' hu'
      exact hend (List.forall_mem_cons.mpr ⟨hopen, hall⟩) n res s'' (hself'.trans hself) hu'
    · intro fs' g hfs
      have h := hfin (f :: fs') g (by rw [hfs]; rfl)
      exact (List.forall_mem_cons.mp h).2

/-! ## Calls that return no message -/

/-- The call does not succeed, and does nothing that is not defined; when it returns it has taken `k`
bytes off the stream. -/
def Refuses {α : Type} (x : Call (Rx (List UInt8)) Stop Errno α) (k : ℕ) (s : Rx (List UInt8)) : Prop :=
  x s = .error .waits ∨ ∃ e s', x s = .ok (.error e, s') ∧ s'.u = s.u.drop k

theorem Refuses.bind {α β : Type} {x : Call (Rx (List UInt8)) Stop Errno α} {k : ℕ}
    (h : Refuses x k s) (g : α → Call (Rx (List UInt8)) Stop Errno β) : Refuses (x >>= g) k s := by
  rcases h with hwaits | ⟨e, s', hfail, hu⟩
  · exact .inl (Call.bind_stop hwaits)
  · exact .inr ⟨e, s', Call.bind_fail hfail, hu⟩

theorem sum_lens (l : List Elem) : (l.map Elem.len).sum = capacity l := by
  induction l with
  | nil => rfl
  | cons it l ih => rw [List.map_cons, List.sum_cons, ih, capacity_cons]

theorem spread_lens {g : List UInt8 → List UInt8} (hg : ∀ bs, (g bs).length = bs.length)
    (bs : List UInt8) (l : List Elem) :
    (spread g bs l).2.map Elem.len = ahead bs.length (l.map Elem.len) := by
  induction l generalizing bs with
  | nil => rfl
  | cons it l ih =>
    by_cases hle : bs.length ≤ it.len
    · rw [spread_short hle, List.map_cons, List.map_cons, ahead, if_pos hle,
        Elem.len_put (by rw [hg]; exact hle)]
    · rw [spread_long (by omega), ih, List.length_drop, List.map_cons, ahead, if_neg hle]

theorem spread_sound {g : List UInt8 → List UInt8} {bs : List UInt8} {l : List Elem}
    (hg : ∀ bs, (g bs).length = bs.length) (h : Sound server l) (hcap : bs.length ≤ capacity l) :
    Sound server (spread g bs l).2 := by
  obtain ⟨hne, hbuf⟩ := h
  induction l generalizing bs with
  | nil => exact absurd rfl hne
  | cons it l ih =>
    by_cases hle : bs.length ≤ it.len
    · rw [spread_short hle]
      refine ⟨List.cons_ne_nil _ _, fun hserver => ?_⟩
      obtain ⟨hit, hl⟩ := List.forall_mem_cons.mp (hbuf hserver)
      refine List.forall_mem_cons.mpr ⟨fun hpos => ?_, hl⟩
      rw [Elem.len_put (by rw [hg]; exact hle)] at hpos
      exact Elem.isBuf_put.mpr (hit hpos)
    · rw [spread_long (by omega)]
      refine ih ?_ ?_ ?_
      · rw [capacity_cons] at hcap
        rw [List.length_drop]
        omega
      · rintro rfl
        rw [capacity_cons, capacity_nil] at hcap
        omega
      · intro hserver
        exact (List.forall_mem_cons.mp (hbuf hserver)).2

theorem sound_stored {l : List Elem} (h : ∀ it ∈ l, 0 < it.len → it.IsBuf) (n : ℕ) :
    Stored n l := by
  induction l generalizing n with
  | nil => trivial
  | cons it l ih =>
    obtain ⟨hit, hl⟩ := List.forall_mem_cons.mp h
    exact ⟨fun hpos => hit (by omega), ih hl _⟩

/-- A payload that is too long. -/
theorem payload_overflow {key : Option Key} {bs : List UInt8} {l : List Elem} (hne : l ≠ [])
    (hbuf : key.isSome = true → ∀ it ∈ l, 0 < it.len → it.IsBuf) (hlt : capacity l < bs.length) :
    ∃ passed l', payload lossless (key.map Key.bytes) bs.length l (bs ++ rest)
      = .ok (.error .EMSGSIZE, passed, l', (bs ++ rest).drop (capacity l)) := by
  induction l generalizing bs with
  | nil => exact absurd rfl hne
  | cons it l ih =>
    rw [capacity_cons] at hlt
    have hit : key.isSome → 0 < it.len → it.IsBuf := fun hk => hbuf hk it List.mem_cons_self
    have hc := @chunk_take lossless rest bs key it reads_lossless (by omega) hit
    have hleft : bs.drop it.len ++ rest = (bs ++ rest).drop it.len :=
      (List.drop_append_of_le_length (by omega)).symm
    by_cases hl : l = []
    · rw [payload]
      simp only [Nat.min_eq_right (by omega : it.len ≤ bs.length), hc,
        if_neg (by omega : ¬ bs.length - it.len = 0), hl, List.isEmpty_nil, if_true,
        hleft, capacity_cons, capacity_nil, Nat.add_zero]
      exact ⟨_, _, rfl⟩
    · obtain ⟨passed, l', hrest⟩ := @ih (bs.drop it.len) hl
        (fun hk => (List.forall_mem_cons.mp (hbuf hk)).2) (by rw [List.length_drop]; omega)
      have hlong := payload_long (by omega) hl hc hrest
      rw [hleft, List.drop_drop, ← capacity_cons] at hlong
      exact ⟨_, _, hlong⟩

/-- What comes behind the header of a frame. -/
theorem Frame.drop_header (f : Frame) :
    (f.encode ++ rest).drop (f.encode.length - f.payload.length) = f.body ++ rest := by
  unfold Frame.encode
  rw [List.append_assoc _ f.body]
  apply List.drop_left'
  simp only [List.length_append, Frame.length_body]
  omega

theorem frame_overflow (hf : f.Data s.self.server) (hs : s.u = f.encode ++ rest)
    (hl : Sound s.self.server s.it) (hlt : capacity s.it < f.payload.length) (res : UInt64) :
    ∃ s', frame lossless res s = .ok (.error .EMSGSIZE, s') ∧
      s'.u = s.u.drop (f.encode.length - f.payload.length + capacity s.it) := by
  have hdata := data_ne_close hf.opcode
  have hop : (f.opcode == 8) = false := by simpa using hdata
  obtain ⟨-, -, hit⟩ := opened_data (s := s) hdata
  obtain ⟨passed, l', hpay⟩ := @payload_overflow rest f.key f.body s.it hl.ne_nil
    (fun hk => hl.isBuf (by rw [← hf.role]; exact hk)) (by rw [Frame.length_body]; exact hlt)
  rw [Frame.length_body] at hpay
  have hread : ∃ s', readPayload lossless false (f.key.map Key.bytes) f.payload.length
      { s.opened f.opcode with u := f.body ++ rest } = .ok (.error .EMSGSIZE, s') ∧
        s'.u = (f.body ++ rest).drop (capacity s.it) := by
    unfold readPayload
    simp only [Bool.false_eq_true, if_false, hit, hpay]
    exact ⟨_, rfl, rfl⟩
  obtain ⟨s', hread, hu⟩ := hread
  refine ⟨s', ?_, ?_⟩
  swap
  · rw [hu, hs, ← List.drop_drop, f.drop_header]
  rw [frame_encode reads_lossless hf.valid hs, hop, Call.bind_fail hread]

/-- A call that is refused when it has received one more frame. -/
theorem Refuses.more {bs : List UInt8} {k : ℕ}
    (hframe : frame lossless res s = .ok (.ok (res', false), s'))
    (hu : s.u = bs ++ s'.u) (h : Refuses (frames lossless n res') k s') :
    Refuses (frames lossless (n + 1) res) (bs.length + k) s := by
  unfold Refuses
  rw [frames_more hframe, hu, ← List.drop_drop, List.drop_left]
  exact h

/-- **Frames of a message that is refused.** One of them is too long, or the message does not go on
and what comes behind it is refused. -/
theorem frames_refuse {content : ℕ → UInt8} {complete : Bool} {pos : ℕ} {opcode : UInt8}
    {ps : List Piece} (hop : opcode = 0 ∨ opcode = 1 ∨ opcode = 2)
    (hrole : ∀ p ∈ ps, p.key.isSome = s.self.server)
    (hs : s.u = (framesOf content complete pos opcode ps).flatMap Frame.encode ++ rest)
    (hl : Sound s.self.server s.it)
    (h : Overflows (s.it.map Elem.len) ps ∨ (complete = false ∧ ∀ n res s', s'.self = s.self →
      s'.u = rest → Refuses (frames lossless n res) 2 s')) :
    Refuses (frames lossless n res)
      (stopsAt (s.it.map Elem.len) (framesOf content complete pos opcode ps)) s := by
  induction ps generalizing pos opcode n res s with
  | nil =>
    rcases h with h | ⟨-, h⟩
    · exact h.elim
    · exact h n res s rfl hs
  | cons p ps ih =>
    obtain ⟨hp, hrole⟩ := List.forall_mem_cons.mp hrole
    cases n with
    | zero => exact .inl rfl
    | succ n =>
      have hdata : (p.frame content pos (complete && ps.isEmpty) opcode).Data s.self.server :=
        ⟨hop, hp⟩
      have hlen : (p.frame content pos (complete && ps.isEmpty) opcode).payload.length = p.size :=
        length_bytesAt _ _ _
      have hs' : s.u = (p.frame content pos (complete && ps.isEmpty) opcode).encode ++
          ((framesOf content complete (pos + p.size) 0 ps).flatMap Frame.encode ++ rest) := by
        rw [hs, framesOf, List.flatMap_cons, List.append_assoc]
      by_cases hcap : p.size ≤ capacity s.it
      · have hopen : (complete && ps.isEmpty) = false := by
          rcases h with h | ⟨h, -⟩
          · cases ps with
            | nil =>
              rcases h with h | h
              · rw [sum_lens] at h
                omega
              · exact h.elim
            | cons q ps => exact Bool.and_false _
          · rw [h]
            rfl
        have hst : (p.frame content pos (complete && ps.isEmpty) opcode).key.isSome →
            Stored (p.frame content pos (complete && ps.isEmpty) opcode).payload.length s.it :=
          fun hk => sound_stored (hl.isBuf (by rw [← hp]; exact hk)) _
        have hframe := frame_data reads_lossless hdata.valid (data_ne_close hop) hs'
          (by rw [hlen]; exact hcap) hst res
        rw [show (p.frame content pos (complete && ps.isEmpty) opcode).fin = false from hopen]
          at hframe
        have hun : ∀ bs, (unmask p.key bs).length = bs.length := fun _ => length_unmask p.key
        have hlens := spread_lens hun
          (p.frame content pos (complete && ps.isEmpty) opcode).body s.it
        rw [length_body_frame] at hlens
        rw [framesOf, stopsAt, if_neg (by rw [sum_lens, hlen]; omega), hlen, ← hlens]
        refine Refuses.more hframe hs' (ih (.inl rfl) hrole rfl ?_ ?_)
        · exact spread_sound hun hl (by rw [length_body_frame]; exact hcap)
        · rcases h with h | ⟨hc, h⟩
          · left
            rcases h with h | h
            · rw [sum_lens] at h
              omega
            · rw [← hlens] at h
              exact h
          · exact .inr ⟨hc, h⟩
      · obtain ⟨s', hframe, hu⟩ := frame_overflow hdata hs' hl (by rw [hlen]; omega) res
        refine .inr ⟨_, s', frames_fail hframe, ?_⟩
        rw [framesOf, stopsAt, if_pos (by rw [sum_lens, hlen]; omega), sum_lens]
        exact hu

theorem encode_two (f : Frame) : 2 ≤ f.encode.length := by
  unfold Frame.encode hdrBytes
  simp only [List.length_append, List.length_cons]
  omega

/-! ## Whole calls -/

variable {self : WsSock} {x x' : List UInt8} {c : Receive} {p : WsSock × List UInt8}
  {o : Except Errno Delivery}

theorem gives_eq_some {u : Bsock (List UInt8)} {q : WsSock × List UInt8}
    (h : c.gives u p = some (q, o)) :
    (∃ e r, receive u c p.1 p.2 = .ok (.error e, r) ∧ o = .error e ∧ q = (r.self, r.u)) ∨
      ∃ sz r, receive u c p.1 p.2 = .ok (.ok sz, r) ∧
        o = .ok ⟨sz, r.passed ++ r.it, r.flags⟩ ∧ q = (r.self, r.u) := by
  unfold Receive.gives at h
  split at h
  · cases h
  · rename_i e r hr
    cases h
    exact .inl ⟨e, r, hr, rfl, rfl⟩
  · rename_i sz r hr
    cases h
    exact .inr ⟨sz, r, hr, rfl, rfl⟩

theorem recvlBase_refuses {k : ℕ} (hopen : s.self.indone = false)
    (h : Refuses (frames lossless n 0) k s) : Refuses (recvlBase lossless n) k s := by
  unfold recvlBase Refuses
  rw [Call.look_bind, hopen, beq_self_eq_true, Call.bind_ret Call.require_true]
  exact h.bind _

/-- When a message has been received, looking for more of its frames would have given the same. -/
theorem frames_mono {u : Bsock (List UInt8)}
    {v : Except Stop (Except Errno UInt64 × Rx (List UInt8))} (k : ℕ)
    (h : frames u n res s = v) (hv : v ≠ .error .waits) :
    frames u (n + k) res s = v := by
  induction n generalizing res s with
  | zero => exact absurd h.symm hv
  | succ n ih =>
    rw [Nat.succ_add]
    cases hframe : frame u res s with
    | error r =>
      rw [frames_stop hframe] at h ⊢
      exact h
    | ok p =>
      obtain ⟨o, s₁⟩ := p
      cases o with
      | error e =>
        rw [frames_fail hframe] at h ⊢
        exact h
      | ok r =>
        obtain ⟨res₁, fin⟩ := r
        cases fin with
        | true =>
          rw [frames_last hframe] at h ⊢
          exact h
        | false =>
          rw [frames_more hframe] at h ⊢
          exact ih h

theorem recvlBase_mono {u : Bsock (List UInt8)}
    {v : Except Stop (Except Errno ℤ × Rx (List UInt8))} (k : ℕ)
    (hopen : s.self.indone = false) (h : recvlBase u n s = v) (hv : v ≠ .error .waits) :
    recvlBase u (n + k) s = v := by
  unfold recvlBase at h ⊢
  rw [Call.look_bind, hopen, beq_self_eq_true, Call.bind_ret Call.require_true] at h ⊢
  cases hframes : frames u n 0 s with
  | error r =>
    cases r with
    | waits =>
      rw [Call.bind_stop hframes] at h
      exact absurd h.symm hv
    | fault =>
      have hmore := frames_mono k hframes (fun h => by cases h)
      rw [Call.bind_stop hframes] at h
      rw [Call.bind_stop hmore]
      exact h
  | ok p =>
    obtain ⟨o, s₁⟩ := p
    have hmore := frames_mono k hframes (fun h => by cases h)
    cases o with
    | error e =>
      rw [Call.bind_fail hframes] at h
      rw [Call.bind_fail hmore]
      exact h
    | ok res =>
      rw [Call.bind_ret hframes] at h
      rw [Call.bind_ret hmore]
      exact h

/-- The frames are those the message is cut into. -/
theorem framesOf_encode {content : ℕ → UInt8} {pos : ℕ} {opcode : UInt8} {ps : List Piece} :
    (framesOf content true pos opcode ps).flatMap Frame.encode = encodeAll content pos opcode ps := by
  induction ps generalizing pos opcode with
  | nil => rfl
  | cons p ps ih => rw [framesOf, List.flatMap_cons, ih, encodeAll, Bool.true_and]

/-- What the base function returns for a message that fits. -/
theorem recvlBase_fits {m : Sent server} (hserver : self.server = server)
    (hopen : self.indone = false) {l : List Elem} (hm : m.Fits l) (n : ℕ) (rest : List UInt8) :
    recvlBase lossless n (.start self (m.frames.flatMap Frame.encode ++ rest) l) = .error .waits ∨
      ∃ r, recvlBase lossless n (.start self (m.frames.flatMap Frame.encode ++ rest) l)
          = .ok (.ok (total m.pieces), r) ∧
        r.passed ++ r.it = fill m.bytes l ∧ r.u = rest ∧ r.self = self ∧
        r.flags = some (if m.text then 1 else 0) := by
  have hop : opcodeFor m.text = 1 ∨ opcodeFor m.text = 2 := by
    unfold opcodeFor
    cases m.text
    · exact .inr rfl
    · exact .inl rfl
  have hflags : (if opcodeFor m.text = 1 then (1 : UInt32) else 0) = if m.text then 1 else 0 := by
    unfold opcodeFor
    cases m.text <;> rfl
  have hall := (fragments_iff self hserver hopen _ hop ⟨m.pieces, m.ne_nil, m.role, hm.size_lt⟩ l
    hm.room).mpr hm.harmless
  obtain ⟨r, hr, hfill, hu, hself, hfl⟩ :=
    hall m.content rest (n + m.pieces.length) (Nat.le_add_left _ _)
  rw [← framesOf_encode] at hr
  change recvlBase lossless (n + m.pieces.length)
    (.start self (m.frames.flatMap Frame.encode ++ rest) l) = .ok (.ok (total m.pieces), r) at hr
  by_cases hwait :
      recvlBase lossless n (.start self (m.frames.flatMap Frame.encode ++ rest) l) = .error .waits
  · exact .inl hwait
  · right
    have hmono := recvlBase_mono (s := .start self (m.frames.flatMap Frame.encode ++ rest) l)
      m.pieces.length hopen rfl hwait
    exact ⟨r, by rw [← hmono, hr], hfill, hu, hself, hfl.trans (by rw [hflags])⟩

theorem receive_stop {u : Bsock (List UInt8)} {r : Stop}
    (h : recvlBase u c.n (.start self x c.first) = .error r) : receive u c self x = .error r := by
  unfold receive
  split
  · exact Call.bind_stop h
  · exact h

/-- A message that has been received is returned, unless it has the other type. -/
theorem receive_sized {u : Bsock (List UInt8)} {sz : ℤ} {r : Rx (List UInt8)} {flags : UInt32}
    (h : recvlBase u c.n (.start self x c.first) = .ok (.ok sz, r)) (hflags : r.flags = some flags) :
    receive u c self x = .ok (.ok sz, r) ∨ receive u c self x = .ok (.error .EPROTO, r) := by
  unfold receive
  split
  · unfold mrecvl Call.andThen
    rw [h]
    simp only [Call.look_bind, hflags]
    cases isText flags == isText self.flags with
    | true => exact .inl rfl
    | false => exact .inr rfl
  · exact .inl h

/-- **A message that fits** is received as it is or has the other type, or the stream breaks off. -/
theorem gives_fits (fate : Option Errno) {m : Sent server} (hserver : self.server = server)
    (hopen : self.indone = false) (hm : m.Fits c.first)
    (hs : x ++ lost = m.frames.flatMap Frame.encode ++ rest) :
    (∀ q o, c.gives (ending fate) (self, x) = some (q, o) →
      (q.2 = [] ∧ ∃ e, o = .error e) ∨
      (q.1 = self ∧ q.2 ++ lost = rest ∧
        ((∃ e, o = .error e) ∨ ∃ d, o = .ok d ∧ m.Whole (c.first, d)))) ∧
      receive (ending fate) c self x ≠ .error .fault := by
  obtain ⟨hok, herr⟩ := @follows_receive fate lost c self x
  rw [hs] at hok herr
  rcases recvlBase_fits hserver hopen hm c.n rest with hwait | ⟨r, hr, hfill, hu, hself, hflags⟩
  · rw [receive_stop hwait] at hok herr
    constructor
    · intro q o hq
      rcases gives_eq_some hq with ⟨e, r, hr, ho, rfl⟩ | ⟨sz, r, hr, ho, rfl⟩
      · rcases hok _ _ hr with h | ⟨-, hnil⟩
        · cases h
        · exact .inl ⟨hnil, e, ho⟩
      · rcases hok _ _ hr with h | ⟨⟨e, he⟩, -⟩
        · cases h
        · cases he
    · intro hr
      rcases herr _ hr with h | h <;> cases h
  · have hrun := receive_sized hr hflags
    constructor
    · intro q o hq
      rcases gives_eq_some hq with ⟨e, r', hr', ho, rfl⟩ | ⟨sz, r', hr', ho, rfl⟩
      · rcases hok _ _ hr' with h | ⟨-, hnil⟩
        · rcases hrun with hrun | hrun
          · rw [hrun] at h
            cases h
          · rw [hrun] at h
            cases h
            exact .inr ⟨hself, hu, .inl ⟨_, ho⟩⟩
        · exact .inl ⟨hnil, e, ho⟩
      · rcases hok _ _ hr' with h | ⟨⟨e, he⟩, -⟩
        · rcases hrun with hrun | hrun
          · rw [hrun] at h
            cases h
            exact .inr ⟨hself, hu, .inr ⟨_, ho, rfl, hfill, hflags⟩⟩
          · rw [hrun] at h
            cases h
        · cases he
    · intro hr'
      rcases herr _ hr' with h | h
      · rcases hrun with hrun | hrun <;> rw [hrun] at h <;> cases h
      · cases h

/-- What a call that fails on the whole stream does if it breaks off. -/
theorem gives_fail (fate : Option Errno) {e : Errno} {r : Rx (List UInt8)}
    (h : recvlBase lossless c.n (.start self (x ++ lost) c.first) = .error .waits ∨
      recvlBase lossless c.n (.start self (x ++ lost) c.first) = .ok (.error e, r)) :
    (∀ q o, c.gives (ending fate) (self, x) = some (q, o) → (∃ e, o = .error e) ∧
      (q.2 = [] ∨ (q.1 = r.self ∧ q.2 ++ lost = r.u))) ∧
      receive (ending fate) c self x ≠ .error .fault := by
  have hrun : receive lossless c self (x ++ lost) = .error .waits ∨
      receive lossless c self (x ++ lost) = .ok (.error e, r) := h.imp receive_stop receive_fail
  obtain ⟨hok, herr⟩ := @follows_receive fate lost c self x
  constructor
  · intro q o hq
    rcases gives_eq_some hq with ⟨e₁, r₁, hr₁, rfl, rfl⟩ | ⟨sz, r₁, hr₁, -, -⟩
    · refine ⟨⟨e₁, rfl⟩, ?_⟩
      rcases hok _ _ hr₁ with hsame | ⟨-, hnil⟩
      · rcases hrun with hrun | hrun <;> rw [hsame] at hrun <;> cases hrun
        exact .inr ⟨rfl, rfl⟩
      · exact .inl hnil
    · rcases hok _ _ hr₁ with hsame | ⟨⟨e, he⟩, -⟩
      · rcases hrun with hrun | hrun <;> rw [hsame] at hrun <;> cases hrun
      · cases he
  · intro hr
    rcases herr _ hr with hsame | hw
    · rcases hrun with hrun | hrun <;> rw [hsame] at hrun <;> cases hrun
    · cases hw

/-- What is refused on the whole stream is refused if it breaks off; and if it breaks off before the
bytes that the call takes, nothing is left. -/
theorem gives_refused (fate : Option Errno) {k : ℕ}
    (h : Refuses (recvlBase lossless c.n) k (.start self (x ++ lost) c.first)) :
    (∀ q o, c.gives (ending fate) (self, x) = some (q, o) →
      (∃ e, o = .error e) ∧ (x.length ≤ k → q.2 = [])) ∧
      receive (ending fate) c self x ≠ .error .fault := by
  rcases h with hwaits | ⟨e, s', hfail, hu⟩
  · obtain ⟨hgives, hdef⟩ := @gives_fail lost self x c fate .EPIPE (.start self [] c.first)
      (.inl hwaits)
    refine ⟨fun q o hq => ?_, hdef⟩
    obtain ⟨he, hleft⟩ := hgives q o hq
    refine ⟨he, fun _ => ?_⟩
    rcases hleft with hnil | ⟨-, hnil⟩
    · exact hnil
    · exact (List.append_eq_nil_iff.mp hnil).1
  · obtain ⟨hgives, hdef⟩ := gives_fail fate (.inr hfail)
    refine ⟨fun q o hq => ?_, hdef⟩
    obtain ⟨he, hleft⟩ := hgives q o hq
    refine ⟨he, fun hle => ?_⟩
    rcases hleft with hnil | ⟨-, hrest⟩
    · exact hnil
    · have hlen := congrArg List.length (hrest.trans hu)
      change (q.2 ++ lost).length = ((x ++ lost).drop k).length at hlen
      rw [List.length_drop, List.length_append, List.length_append] at hlen
      exact List.length_eq_zero_iff.mp (by omega)

/-- A call that meets a control frame. -/
theorem recvlBase_ping (f : Ping server) (hopen : s.self.indone = false)
    (hs : s.u = f.frame.encode ++ rest) :
    recvlBase lossless n s = .error .waits ∨
      recvlBase lossless n s = .ok (.error .EPROTO, { s with u := s.u.drop 2 }) := by
  cases n with
  | zero => exact .inl (recvlBase_stop hopen rfl)
  | succ n => exact .inr (recvlBase_fail hopen (frames_fail (frame_ping f hs 0)))

theorem shut_indone (sock : WsSock) (f : Frame) : (sock.shut f).indone = true := by
  unfold WsSock.shut
  split
  · rfl
  · unfold WsSock.setStatus WsSock.loaded WsSock.load
    split <;> rfl

/-- A call that meets the close frame. -/
theorem recvlBase_wellFormed (hf : f.WellFormed) (hrole : f.key.isSome = s.self.server)
    (hopen : s.self.indone = false) (hsz : s.self.Sized) (hs : s.u = f.encode ++ rest) :
    recvlBase lossless n s = .error .waits ∨
      recvlBase lossless n s = .ok (.error .EPIPE, { s with self := s.self.shut f, u := rest }) := by
  cases n with
  | zero => exact .inl (recvlBase_stop hopen rfl)
  | succ n => exact .inr (recvlBase_shut reads_lossless hf hs hrole.symm hopen hsz)

end Libdill.Ws
