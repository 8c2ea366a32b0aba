import Libdill.Foundations.Answers
import Libdill.Prefix.RoundTrip

/-!
# Two PREFIX peers over a bytestream

One peer sends, the other one receives, in any interleaving, over a lossless bytestream. The
abstract view of the pair is a mailbox, a queue of whole messages, and the pair refines it.

* `prefix_round_trip`: every receive returns what the mailbox returns, the wire holds the frames
  of the messages that wait, and a socket that could not deliver a message delivers nothing more.
* `msendl_truthful_iff`: a send is truthful, whatever the state of the socket and of the
  transport, exactly for the messages that fit in the header.
-/

namespace Libdill.Prefix

open Foundations Libdill.Sock

/-! ## The pair of sockets -/

/-- An iolist to be sent. Its size is reported to the receiver as a `ssize_t`. -/
structure Iolist where
  bufs : List (List UInt8)
  bufs_ne : bufs ≠ []
  size_lt : bufs.flatten.length < 2 ^ 63

/-- The message an iolist holds. -/
def Iolist.bytes (m : Iolist) : List UInt8 := m.bufs.flatten

/-- The length of a receive buffer. No object is larger than `PTRDIFF_MAX`. -/
structure Buf where
  len : ℕ
  len_lt : len < 2 ^ 63

/-- The calls of the two peers. -/
inductive Op
  | msend (m : Iolist)
  | mrecv (b : Buf)

/-- What a call returns. -/
inductive Out
  | sent (r : Except Errno Unit)
  | received (r : Except Errno (ℤ × List UInt8))

/-- The two sockets and the bytes between them. -/
structure Net where
  tx : PrefixSock
  rx : PrefixSock
  wire : List UInt8

/-- The pair before anything is sent. -/
def Params.net (p : Params) : Net := ⟨p.attach, p.attach, []⟩

/-- One call. A receive that waits for bytes that are not there has no result yet. -/
def Net.step (n : Net) : Op → Option (Net × Out)
  | .msend m =>
    let r := n.tx.msendl lossless n.wire m.bufs
    some ({ n with tx := r.2.1, wire := r.2.2 }, .sent r.1)
  | .mrecv b =>
    (n.rx.mrecvl lossless n.wire [b.len]).map fun r =>
      ({ n with rx := r.2.1, wire := r.2.2 }, .received r.1)

theorem step_mrecv (n : Net) (b : Buf) :
    n.step (.mrecv b) = (n.rx.mrecvl lossless n.wire [b.len]).map fun r =>
      ({ n with rx := r.2.1, wire := r.2.2 }, .received r.1) := rfl

/-! ## The mailbox -/

/-- The purpose of the pair: a queue of messages. It breaks when a message is refused. -/
structure Mailbox where
  msgs : List (List UInt8)
  broken : Bool

/-- One call on the mailbox. -/
def Mailbox.step (q : Mailbox) : Op → Option (Mailbox × Out)
  | .msend m => some ({ q with msgs := q.msgs ++ [m.bytes] }, .sent (.ok ()))
  | .mrecv b =>
    if q.broken then some (q, .received (.error .ECONNRESET))
    else
      match q.msgs with
      | [] => none
      | m :: ms =>
        if m.length ≤ b.len then some (⟨ms, false⟩, .received (.ok (m.length, m)))
        else some (⟨ms, true⟩, .received (.error .EMSGSIZE))

/-- The frames of a sequence of messages. -/
def Params.frames (p : Params) (ms : List (List UInt8)) : List UInt8 := ms.flatMap p.frame

/-- The message can be announced in the header. -/
def Params.Fits (p : Params) (m : List UInt8) : Prop := m.length < 256 ^ p.hdrlen

/-- A call that sends no message too long for the header. -/
def Params.FitsOp (p : Params) : Op → Prop
  | .msend m => p.Fits m.bytes
  | .mrecv _ => True

/-- The pair stands for the mailbox. -/
structure Stands (p : Params) (n : Net) (q : Mailbox) : Prop where
  tx : n.tx = p.attach
  rx : n.rx = { p.attach with inerr := q.broken }
  wire : q.broken = false → n.wire = p.frames q.msgs
  fits : ∀ m ∈ q.msgs, p.Fits m ∧ m.length < 2 ^ 63

variable {p : Params} {n n' : Net} {q : Mailbox}

theorem stands_init : Stands p p.net ⟨[], false⟩ :=
  ⟨rfl, rfl, fun _ => rfl, fun _ h => absurd h List.not_mem_nil⟩

theorem Stands.msend (h : Stands p n q) {m : Iolist} (hm : p.Fits m.bytes) :
    ∃ n', n.step (.msend m) = some (n', .sent (.ok ())) ∧
      Stands p n' { q with msgs := q.msgs ++ [m.bytes] } := by
  have hout : n.tx.outerr = false := by rw [h.tx]; rfl
  have hsend := msendl_lossless hout n.wire m.bufs
  have hframe : n.tx.frame m.bufs.flatten = p.frame m.bytes := by rw [h.tx]; rfl
  rw [hframe] at hsend
  refine ⟨{ n with wire := n.wire ++ p.frame m.bytes }, ?_, h.tx, h.rx, ?_, ?_⟩
  · unfold Net.step
    simp only [hsend]
  · intro hq
    have hwire := h.wire hq
    show n.wire ++ p.frame m.bytes = p.frames (q.msgs ++ [m.bytes])
    rw [hwire, Params.frames, Params.frames, List.flatMap_append, List.flatMap_singleton]
  · intro m' hm'
    rcases List.mem_append.mp hm' with hm' | hm'
    · exact h.fits m' hm'
    · rw [List.mem_singleton.mp hm']
      exact ⟨hm, m.size_lt⟩

/-- One call on the pair does what it does on the mailbox. -/
theorem Stands.step (h : Stands p n q) {op : Op} (hop : p.FitsOp op) :
    Option.Rel (fun x y => Stands p x.1 y.1 ∧ x.2 = y.2) (n.step op) (q.step op) := by
  cases op with
  | msend m =>
    obtain ⟨n', hn, hs⟩ := h.msend hop
    rw [hn]
    exact .some ⟨hs, rfl⟩
  | mrecv b =>
    obtain ⟨msgs, broken⟩ := q
    cases broken with
    | true =>
      have hin : n.rx.inerr = true := by rw [h.rx]
      unfold Net.step Mailbox.step
      simp only [mrecvl_broken hin, Option.map_some, if_true]
      exact .some ⟨h, rfl⟩
    | false =>
      have hin : n.rx.inerr = false := by rw [h.rx]
      have hwire := h.wire rfl
      cases msgs with
      | nil =>
        have hnil : n.wire = [] := hwire
        unfold Net.step Mailbox.step
        simp only [hnil, mrecvl_empty hin, Option.map_none, Bool.false_eq_true, if_false]
        exact .none
      | cons m ms =>
        obtain ⟨hm, hlt⟩ := h.fits m List.mem_cons_self
        have hrx : n.rx.toParams = p := by rw [h.rx]; rfl
        have hm' : m.length < 256 ^ n.rx.hdrlen := by rw [hrx]; exact hm
        have hcons : n.wire = n.rx.frame m ++ p.frames ms := by rw [hwire, hrx]; rfl
        have hrest : ∀ m' ∈ ms, p.Fits m' ∧ m'.length < 2 ^ 63 := fun m' h' =>
          h.fits m' (List.mem_cons_of_mem m h')
        unfold Net.step Mailbox.step
        simp only [Bool.false_eq_true, if_false]
        by_cases hlen : m.length ≤ b.len
        · rw [hcons, mrecvl_fits hin hm' hlt hlen, if_pos hlen]
          exact .some ⟨⟨h.tx, h.rx, fun _ => rfl, hrest⟩, rfl⟩
        · have hsmall : b.len < m.length := by omega
          rw [hcons, mrecvl_small hin hm' hlt hsmall, if_neg hlen]
          refine .some ⟨⟨h.tx, ?_, ?_, hrest⟩, rfl⟩
          · show { n.rx with inerr := true } = _
            rw [h.rx]
          · intro hq
            cases hq

/-- A socket whose receive failed fails all later ones. -/
theorem step_broken (h : n.rx.inerr = true) {op : Op} {o : Out} (hs : n.step op = some (n', o)) :
    n'.rx.inerr = true ∧ ∀ r, o = .received r → r = .error .ECONNRESET := by
  cases op with
  | msend m =>
    cases hs
    exact ⟨h, fun r hr => by cases hr⟩
  | mrecv b =>
    rw [step_mrecv, mrecvl_broken h] at hs
    cases hs
    exact ⟨h, fun r hr => by cases hr; rfl⟩

/-! ## Round trip -/

/-- What two PREFIX sockets with the same parameters guarantee for messages that fit in the
header. -/
structure RoundTrip (p : Params) : Prop where
  /-- In every interleaving of sends and receives the calls return what the mailbox returns, wait
  when it waits, and the wire holds exactly the frames of the messages not yet received. -/
  refines : ∀ ops : List Op, (∀ op ∈ ops, p.FitsOp op) →
    Option.Rel
      (fun x y => (y.1.broken = false → x.1.wire = p.frames y.1.msgs) ∧ x.2 = y.2)
      (answers Net.step p.net ops) (answers Mailbox.step ⟨[], false⟩ ops)
  /-- A sequence that is sent and received into large enough buffers arrives as it is, and both
  peers end at the same stream position. -/
  delivers : ∀ (ms : List Iolist) (bs : List Buf),
    List.Forall₂ (fun m b => p.Fits m.bytes ∧ m.bytes.length ≤ b.len) ms bs →
    answers Net.step p.net (ms.map .msend ++ bs.map .mrecv)
      = some (p.net, ms.map (fun _ => .sent (.ok ())) ++
          ms.map fun m => .received (.ok (m.bytes.length, m.bytes)))
  /-- A buffer that is too small for the next message gets `EMSGSIZE`, and after any failed
  receive every later one fails, whatever is called in between. -/
  refuses : ∀ (ops : List Op) (n : Net) (outs : List Out), (∀ op ∈ ops, p.FitsOp op) →
    answers Net.step p.net ops = some (n, outs) →
    (∀ m rest b, n.rx.inerr = false → p.Fits m → m.length < 2 ^ 63 →
      n.wire = p.frame m ++ rest → b.len < m.length →
      ∃ n', n.step (.mrecv b) = some (n', .received (.error .EMSGSIZE))) ∧
    ∀ b n' e, n.step (.mrecv b) = some (n', .received (.error e)) →
      ∀ ops' n'' outs', answers Net.step n' ops' = some (n'', outs') →
        ∀ r, .received r ∈ outs' → r = .error .ECONNRESET

theorem answers_stands {ops : List Op} (hops : ∀ op ∈ ops, p.FitsOp op) :
    Option.Rel (fun x y => Stands p x.1 y.1 ∧ x.2 = y.2)
      (answers Net.step p.net ops) (answers Mailbox.step ⟨[], false⟩ ops) :=
  answers_rel (fun _ _ _ hop hs => hs.step hop) hops stands_init

/-- Sending a sequence of messages. -/
theorem answers_msends (h : Stands p n q) {ms : List Iolist} (hms : ∀ m ∈ ms, p.Fits m.bytes) :
    ∃ n', Stands p n' { q with msgs := q.msgs ++ ms.map Iolist.bytes } ∧
      answers Net.step n (ms.map .msend) = some (n', ms.map fun _ => .sent (.ok ())) := by
  induction ms generalizing n q with
  | nil =>
    have hnil : ({ q with msgs := q.msgs ++ [].map Iolist.bytes } : Mailbox) = q := by
      rw [List.map_nil, List.append_nil]
    exact ⟨n, by rw [hnil]; exact h, rfl⟩
  | cons m ms ih =>
    obtain ⟨hm, hms⟩ := List.forall_mem_cons.mp hms
    obtain ⟨n₁, hn₁, hs₁⟩ := h.msend hm
    obtain ⟨n₂, hs₂, hn₂⟩ := ih hs₁ hms
    refine ⟨n₂, ?_, answers_cons hn₁ hn₂⟩
    rw [List.append_assoc] at hs₂
    exact hs₂

/-- Receiving a sequence of messages. -/
theorem answers_mrecvs {ms : List Iolist} {bs : List Buf}
    (hb : List.Forall₂ (fun m b => p.Fits m.bytes ∧ m.bytes.length ≤ b.len) ms bs)
    (h : Stands p n ⟨ms.map Iolist.bytes, false⟩) :
    answers Net.step n (bs.map .mrecv)
      = some (p.net, ms.map fun m => .received (.ok (m.bytes.length, m.bytes))) := by
  induction hb generalizing n with
  | nil =>
    obtain ⟨tx, rx, wire⟩ := n
    obtain ⟨htx, hrx, hwire, -⟩ := h
    cases htx
    cases hrx
    cases hwire rfl
    rfl
  | @cons m b ms bs hmb hrest ih =>
    have hstep := h.step (show p.FitsOp (.mrecv b) from trivial)
    unfold Mailbox.step at hstep
    simp only [Bool.false_eq_true, if_false, List.map_cons, if_pos hmb.2] at hstep
    cases hn : n.step (.mrecv b) with
    | none => rw [hn] at hstep; cases hstep
    | some x =>
      rw [hn] at hstep
      cases hstep with
      | some hx =>
        obtain ⟨n₁, o⟩ := x
        cases hx.2
        exact answers_cons hn (ih hx.1)

theorem fits_of_forall₂ {ms : List Iolist} {bs : List Buf}
    (hb : List.Forall₂ (fun m b => p.Fits m.bytes ∧ m.bytes.length ≤ b.len) ms bs) :
    ∀ m ∈ ms, p.Fits m.bytes := by
  induction hb with
  | nil => exact fun m hm => absurd hm List.not_mem_nil
  | cons hmb _ ih => exact List.forall_mem_cons.mpr ⟨hmb.1, ih⟩

/-- A failed receive marks the socket. -/
theorem inerr_of_failed {b : Buf} {e : Errno}
    (h : n.step (.mrecv b) = some (n', .received (.error e))) : n'.rx.inerr = true := by
  rw [step_mrecv] at h
  obtain ⟨⟨r, rx, wire⟩, hr, heq⟩ := Option.map_eq_some_iff.mp h
  cases heq
  exact inerr_of_error hr

/-- **Round trip.** For every header length and both byte orders, messages that fit in the header
are received as they were sent, in every interleaving. -/
theorem prefix_round_trip (p : Params) : RoundTrip p where
  refines ops hops := by
    have hrel := answers_stands hops
    cases hx : answers Net.step p.net ops with
    | none =>
      rw [hx] at hrel
      cases hy : answers Mailbox.step ⟨[], false⟩ ops with
      | none => exact .none
      | some y => rw [hy] at hrel; cases hrel
    | some x =>
      rw [hx] at hrel
      cases hy : answers Mailbox.step ⟨[], false⟩ ops with
      | none => rw [hy] at hrel; cases hrel
      | some y =>
        rw [hy] at hrel
        cases hrel with
        | some hxy => exact .some ⟨hxy.1.wire, hxy.2⟩
  delivers ms bs hb := by
    obtain ⟨n₁, hs, hn⟩ := answers_msends (stands_init (p := p)) (fits_of_forall₂ hb)
    exact answers_append hn (answers_mrecvs hb hs)
  refuses ops n outs hops hrun := by
    have hrel := answers_stands hops
    rw [hrun] at hrel
    obtain ⟨q, hs⟩ : ∃ q, Stands p n q := by
      cases hy : answers Mailbox.step ⟨[], false⟩ ops with
      | none => rw [hy] at hrel; cases hrel
      | some y =>
        rw [hy] at hrel
        cases hrel with
        | some hxy => exact ⟨y.1, hxy.1⟩
    have hrx : n.rx.toParams = p := by rw [hs.rx]; rfl
    refine ⟨?_, ?_⟩
    · intro m rest b hin hm hlt hwire hlen
      rw [← hrx] at hm hwire
      refine ⟨{ n with rx := { n.rx with inerr := true }, wire := m ++ rest }, ?_⟩
      rw [step_mrecv, hwire, mrecvl_small hin hm hlt hlen]
      rfl
    · intro b n' e hn ops' n'' outs' hrun' r hr
      have hkeep := answers_invariant (I := fun n => n.rx.inerr = true)
        (Q := fun o => ∀ r, o = .received r → r = .error .ECONNRESET)
        (fun _ _ _ _ h hs => step_broken h hs) (inerr_of_failed hn) hrun'
      exact hkeep.2 _ hr r rfl

/-! ## Truthful frames -/

/-- The bytes `f` are one frame, which a peer with the same parameters decodes to the message `m`:
received into any large enough buffer it returns `m` and is left behind it in the stream. -/
def Params.Decodes (p : Params) (f m : List UInt8) : Prop :=
  ∀ (len : ℕ) (rest : List UInt8), m.length ≤ len →
    p.attach.mrecvl lossless (f ++ rest) [len] = some (.ok (m.length, m), p.attach, rest)

/-- A send of `first` never misleads the peer, in any state of the socket and of the transport: if
it succeeds one frame of the message was put on the wire, and a message that the header cannot
announce is refused with `EMSGSIZE` and nothing is written. -/
def Params.Truthful (p : Params) (first : List (List UInt8)) : Prop :=
  ∀ (outerr : Bool) (a : SendAnswer) (wire : List UInt8),
    let r := PrefixSock.msendl (answering a) { p.attach with outerr := outerr } wire first
    (r.1 = .ok () → ∃ f, r.2.2 = wire ++ f ∧ p.Decodes f first.flatten) ∧
    (256 ^ p.hdrlen ≤ first.flatten.length → r.1 = .error .EMSGSIZE ∧ r.2.2 = wire)

/-- A frame is decoded to its message exactly when the header can announce it. -/
theorem decodes_frame_iff {m : List UInt8} (hm : m.length < 256 ^ p.hdrlen) :
    p.Decodes (p.frame m) m ↔ m.length < 2 ^ 63 := by
  have hin : p.attach.inerr = false := rfl
  refine ⟨fun h => ?_, fun hlt len rest hlen => mrecvl_fits hin hm hlt hlen⟩
  have hrecv := h m.length [] (le_refl _)
  rw [show p.frame m = p.attach.frame m by rfl, mrecvl_frame hin] at hrecv
  split at hrecv
  · cases hrecv
  · obtain ⟨⟨r, s⟩, -, heq⟩ := Option.map_eq_some_iff.mp hrecv
    cases r with
    | error e => cases heq
    | ok data =>
      have hret := congrArg Prod.fst heq
      have hsz := congrArg Prod.fst (Except.ok.inj hret)
      exact (ssize_eq_iff.mp hsz).2

theorem msendl_sent (p : Params) (wire : List UInt8) (first : List (List UInt8)) :
    p.attach.msendl (answering .sent) wire first
      = (.ok (), p.attach, wire ++ p.frame first.flatten) := by
  have hlossless : p.attach.msendl lossless wire first
      = (.ok (), p.attach, wire ++ p.frame first.flatten) := msendl_lossless rfl wire first
  exact hlossless

/-- **No desynchronisation, exactly.** A send is truthful if and only if the header can announce
the message and its size is a `ssize_t`. -/
theorem msendl_truthful_iff (p : Params) (first : List (List UInt8)) :
    p.Truthful first ↔
      first.flatten.length < 256 ^ p.hdrlen ∧ first.flatten.length < 2 ^ 63 := by
  constructor
  · intro h
    obtain ⟨hok, hlong⟩ := h false .sent []
    rw [show ({ p.attach with outerr := false } : PrefixSock) = p.attach by rfl, msendl_sent]
      at hok hlong
    have hfits : first.flatten.length < 256 ^ p.hdrlen := by
      by_contra hn
      obtain ⟨herr, -⟩ := hlong (by omega)
      cases herr
    obtain ⟨f, hf, hdec⟩ := hok rfl
    rw [List.nil_append, List.nil_append] at hf
    rw [← hf] at hdec
    exact ⟨hfits, (decodes_frame_iff hfits).mp hdec⟩
  · rintro ⟨hfits, hlt⟩ outerr a wire
    refine ⟨fun hok => ?_, fun hlong => by omega⟩
    cases outerr with
    | true => cases hok
    | false =>
      cases a with
      | sent =>
        rw [show ({ p.attach with outerr := false } : PrefixSock) = p.attach by rfl, msendl_sent]
        exact ⟨p.frame first.flatten, rfl, (decodes_frame_iff hfits).mpr hlt⟩
      | failed e k => cases hok

/-- A message of 256 bytes on a socket with a header of one byte is sent, and the peer receives an
empty message; the 256 bytes are taken for what follows it. -/
theorem msendl_untruthful :
    let p : Params := ⟨1, true, by decide⟩
    let m : List UInt8 := List.replicate 256 7
    (p.attach.msendl (answering .sent) [] [m]).1 = .ok () ∧
      p.attach.mrecvl lossless (p.attach.msendl (answering .sent) [] [m]).2.2 [256]
        = some (.ok (0, []), p.attach, m) ∧
      ¬ p.Truthful [m] := by
  intro p m
  have hlen : m.length = 256 := List.length_replicate
  refine ⟨rfl, ?_, fun h => ?_⟩
  · have hsz : p.attach.sizeSeen m = 0 := by
      unfold Params.sizeSeen
      rw [hlen, show p.attach.hdrlen = 1 by rfl]
      decide
    have hbody : lossless.brecvl (m ++ []) [0] true = some (.ok [], m ++ []) :=
      @lossless_brecvl [] (m ++ []) [0] rfl
    have hret : (p.attach.getHdr (p.attach.putHdr (UInt64.ofNat m.length))).toInt64.toInt = 0 :=
      ssize_eq_iff.mpr ⟨getHdr_frame.trans hsz, by decide⟩
    rw [msendl_sent, List.flatten_singleton, List.nil_append, ← List.append_nil (p.frame m),
      show p.frame m = p.attach.frame m by rfl, mrecvl_frame rfl, hsz, hbody, if_neg (by decide),
      Option.map_some]
    simp only [hret, List.append_nil]
  · obtain ⟨-, hlong⟩ := h false .sent []
    rw [List.flatten_singleton, hlen] at hlong
    obtain ⟨herr, -⟩ := hlong (by decide)
    cases herr

end Libdill.Prefix
