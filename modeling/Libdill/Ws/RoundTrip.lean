import Libdill.Foundations.Answers
import Libdill.Prefix.Peers
import Libdill.Ws.Unmask

/-!
# From server to client

A server sends messages, a client receives them, in any interleaving, over a lossless bytestream.
The abstract view of the pair is a queue of typed messages; the pair can do whatever the queue can.

* `ws_round_trip`: every message arrives with its type, its length and its bytes, in order, in
  whatever iolist has room for it, and the stream is left behind its frame.
-/

namespace Libdill.Ws

open Foundations Libdill.Sock

/-! ## The pair of sockets -/

/-- The calls of the two sides. An iolist to be sent is one of `Prefix.Iolist`; a client may
receive a message of up to `k + 1` frames. -/
inductive Op
  | sendl (flags : UInt32) (m : Prefix.Iolist)
  | recvl (k : ℕ) (l : List Elem)

/-- What a call does: a send returns, a receive returns with the iolist and the flags, or the
behaviour is undefined. -/
inductive Out
  | sent (r : Except Errno Unit)
  | received (r : Except Errno ℤ) (l : List Elem) (flags : Option UInt32)
  | fault

/-- The two sockets and the bytes between them. -/
structure Net where
  server : WsSock
  client : WsSock
  wire : List UInt8

/-- One call. A call that waits has no result yet. A server takes no mask. -/
def Net.step (n : Net) : Op → Option (Net × Out)
  | .sendl flags m =>
    match sendl lossless n.server flags m.bufs (.ok []) n.wire with
    | .error .waits => none
    | .error .fault => some (n, .fault)
    | .ok (r, wire) => some ({ n with wire := wire }, .sent r)
  | .recvl k l =>
    match recvl lossless (k + 1) n.client l n.wire with
    | .error .waits => none
    | .error .fault => some (n, .fault)
    | .ok (r, s) =>
      some ({ n with client := s.self, wire := s.u }, .received r (s.passed ++ s.it) s.flags)

/-! ## The queue -/

/-- A message and its type. -/
structure Message where
  text : Bool
  bytes : List UInt8
  size_lt : bytes.length < 2 ^ 63

/-- The message a send is asked to send. -/
def messageOf (flags : UInt32) (m : Prefix.Iolist) : Message :=
  ⟨isText flags, m.bytes, m.size_lt⟩

/-- The flags a receive reports for the type of a message. -/
def Message.flags (m : Message) : UInt32 := if m.text then 1 else 0

/-- One call on the queue. A message is received into an iolist that has room for it. -/
def queueStep (q : List Message) : Op → Option (List Message × Out)
  | .sendl flags m => some (q ++ [messageOf flags m], .sent (.ok ()))
  | .recvl _ l =>
    match q with
    | [] => none
    | m :: q =>
      if m.bytes.length ≤ capacity l then
        some (q, .received (.ok m.bytes.length) (fill m.bytes l) (some m.flags))
      else none

/-- The frame of a message. -/
def Message.frame (m : Message) : Frame :=
  Frame.whole (if m.text then 1 else 2) none m.bytes m.size_lt

/-- The frames of a queue. -/
def wireOf (q : List Message) : List UInt8 := q.flatMap fun m => m.frame.encode

theorem frame_single (m : Message) : m.frame.Single where
  fin := rfl
  opcode := by
    cases h : m.text <;> simp [Message.frame, Frame.whole, h]

theorem frame_flags (m : Message) : m.frame.flags = m.flags := by
  cases h : m.text <;> simp [Message.frame, Frame.whole, Frame.flags, Message.flags, h]

/-! ## One call -/

/-- The two ends of a stream: a server that sends and a client that receives. -/
structure Ends (server client : WsSock) : Prop where
  isServer : server.server = true
  sending : server.outdone = false
  isClient : client.server = false
  receiving : client.indone = false

variable {server client : WsSock} {wire rest : List UInt8}

theorem step_sendl (h : Ends server client) (flags : UInt32) (m : Prefix.Iolist) :
    Net.step ⟨server, client, wire⟩ (.sendl flags m)
      = some (⟨server, client, wire ++ (messageOf flags m).frame.encode⟩, .sent (.ok ())) := by
  have hsend := sendlBase_server h.isServer h.sending (opcodeOf flags) m.bufs_ne m.size_lt (.ok [])
    wire
  unfold Net.step sendl
  simp only [hsend]
  rfl

theorem step_recvl (h : Ends server client) (m : Message) {l : List Elem}
    (hcap : m.bytes.length ≤ capacity l) (k : ℕ) :
    Net.step ⟨server, client, m.frame.encode ++ rest⟩ (.recvl k l)
      = some (⟨server, client, rest⟩,
          .received (.ok m.bytes.length) (fill m.bytes l) (some m.flags)) := by
  have hrecv := recvl_single reads_lossless (frame_single m) h.isClient h.receiving hcap
    (fun hk => absurd hk Bool.false_ne_true) k rest
  have hfill := spread_id m.bytes l
  unfold Net.step
  simp only [hrecv, frame_flags]
  rw [← hfill]
  rfl

/-- The wire holds the frames of the messages that wait. -/
def Stands (server client : WsSock) (n : Net) (q : List Message) : Prop :=
  n = ⟨server, client, wireOf q⟩

theorem Stands.step (h : Ends server client) {n : Net} {q q' : List Message} {op : Op} {o : Out}
    (hs : Stands server client n q) (hq : queueStep q op = some (q', o)) :
    ∃ n', n.step op = some (n', o) ∧ Stands server client n' q' := by
  subst hs
  cases op with
  | sendl flags m =>
    cases hq
    refine ⟨_, step_sendl h flags m, ?_⟩
    unfold Stands wireOf
    rw [List.flatMap_append, List.flatMap_singleton]
  | recvl k l =>
    cases q with
    | nil => cases hq
    | cons m q =>
      unfold queueStep at hq
      simp only at hq
      split at hq
      · rename_i hcap
        cases hq
        exact ⟨_, step_recvl h m hcap k, rfl⟩
      · cases hq

/-! ## Round trip -/

/-- What a server and a client guarantee. -/
structure RoundTrip (server client : WsSock) : Prop where
  /-- Every run of the queue is a run of the pair with the same results, after which the sockets
  are as before and the wire holds exactly the frames of the messages not yet received. -/
  refines : ∀ (ops : List Op) (q : List Message) (outs : List Out),
    answers queueStep [] ops = some (q, outs) →
    answers Net.step ⟨server, client, []⟩ ops = some (⟨server, client, wireOf q⟩, outs)
  /-- A sequence of messages that is sent and received into iolists with enough room arrives as it
  is, and both sides end at the same stream position. -/
  delivers : ∀ (ms : List (UInt32 × Prefix.Iolist)) (ls : List (List Elem)) (k : ℕ),
    List.Forall₂ (fun m l => m.2.bytes.length ≤ capacity l) ms ls →
    answers Net.step ⟨server, client, []⟩
        (ms.map (fun m => .sendl m.1 m.2) ++ ls.map (.recvl k))
      = some (⟨server, client, []⟩, ms.map (fun _ => .sent (.ok ())) ++
          List.zipWith (fun m l => .received (.ok m.2.bytes.length) (fill m.2.bytes l)
            (some (messageOf m.1 m.2).flags)) ms ls)
  /-- In an iolist of buffers the message is found at the front, and nothing behind it has been
  written to. -/
  stores : ∀ (m : Message) (rest : List UInt8) (l : List Elem) (k : ℕ), (∀ it ∈ l, it.IsBuf) →
    m.bytes.length ≤ capacity l →
    ∃ l', Net.step ⟨server, client, m.frame.encode ++ rest⟩ (.recvl k l)
        = some (⟨server, client, rest⟩, .received (.ok m.bytes.length) l' (some m.flags)) ∧
      bytesOf l' = m.bytes ++ (bytesOf l).drop m.bytes.length

theorem queue_sends (ms : List (UInt32 × Prefix.Iolist)) (q : List Message) :
    answers queueStep q (ms.map fun m => .sendl m.1 m.2)
      = some (q ++ ms.map (fun m => messageOf m.1 m.2), ms.map fun _ => .sent (.ok ())) := by
  induction ms generalizing q with
  | nil =>
    rw [List.map_nil, List.map_nil, List.append_nil]
    rfl
  | cons m ms ih =>
    have hrest := ih (q ++ [messageOf m.1 m.2])
    rw [List.append_assoc] at hrest
    exact answers_cons rfl hrest

theorem queue_recvs {ms : List (UInt32 × Prefix.Iolist)} {ls : List (List Elem)} (k : ℕ)
    (h : List.Forall₂ (fun m l => m.2.bytes.length ≤ capacity l) ms ls) :
    answers queueStep (ms.map fun m => messageOf m.1 m.2) (ls.map (.recvl k))
      = some ([], List.zipWith (fun m l => .received (.ok m.2.bytes.length) (fill m.2.bytes l)
          (some (messageOf m.1 m.2).flags)) ms ls) := by
  induction h with
  | nil => rfl
  | @cons m l ms ls hml _ ih =>
    refine answers_cons ?_ ih
    unfold queueStep
    exact if_pos hml

/-- **Round trip.** Messages of both types and of any length arrive as they were sent. -/
theorem ws_round_trip (server client : WsSock) (h : Ends server client) :
    RoundTrip server client := by
  have hrefines : ∀ (ops : List Op) (q : List Message) (outs : List Out),
      answers queueStep [] ops = some (q, outs) →
      answers Net.step ⟨server, client, []⟩ ops = some (⟨server, client, wireOf q⟩, outs) := by
    intro ops q outs hq
    have hstart : Stands server client ⟨server, client, []⟩ [] := rfl
    have hstep : ∀ n q op q' o, Stands server client n q → queueStep q op = some (q', o) →
        ∃ n', n.step op = some (n', o) ∧ Stands server client n' q' :=
      fun _ _ _ _ _ hs hq => hs.step h hq
    obtain ⟨n, hn, hs⟩ := answers_sim hstep hstart hq
    rw [hn, hs]
  constructor
  · exact hrefines
  · intro ms ls k hml
    exact hrefines _ [] _ (answers_append (queue_sends ms []) (queue_recvs k hml))
  · intro m rest l k hl hcap
    exact ⟨_, step_recvl h m hcap k, fill_bytes hl hcap⟩

/-- Two sockets that have just been attached. -/
theorem ws_round_trip_attached :
    RoundTrip (WsSock.attach true true 0 (List.replicate 128 0))
      (WsSock.attach false true 0 (List.replicate 128 0)) :=
  ws_round_trip _ _ ⟨rfl, rfl, rfl, rfl⟩

end Libdill.Ws
