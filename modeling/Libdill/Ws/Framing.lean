import Libdill.Ws.Peer

/-!
# Frame boundaries

A peer sends messages and control frames, a socket receives them with any sequence of calls. Nothing
in the socket remembers that a receive has stopped inside a frame: the next one takes what is left of
it for a header.

* `framing_never_slips`: as long as no call follows one that stops inside a frame or a message, and
  messages are received where their fragments are harmless, what is returned are whole messages of
  the peer, in order, and every header that is read is the header of a frame of the peer.
* `framing_slips`: the other case.
-/

namespace Libdill.Ws

open Foundations Libdill.Sock

/-- What is received are whole messages of `ms`, in order. -/
def InOrder {server : Bool} (ms : List (Sent server)) (cs : List Receive)
    (outs : List (Except Errno Delivery)) : Prop :=
  ∃ ms', ms'.Sublist ms ∧ List.Forall₂ Sent.Whole ms' (successes cs outs)

/-- Receiving with the calls `cs` from a stream that ends in whatever way. -/
structure Framed {server : Bool} (P : List UInt8 → Prop) (fate : Option Errno)
    (p : WsSock × List UInt8) (ms : List (Sent server)) (cs : List Receive) : Prop where
  /-- What is received are messages of the peer. -/
  whole : ∀ p' outs, answers (Receive.gives (ending fate)) p cs = some (p', outs) →
    InOrder ms cs outs
  /-- Every header that is read is one. -/
  headers : ∀ cs₁ c cs₂ q outs, cs = cs₁ ++ c :: cs₂ →
    answers (Receive.gives (ending fate)) p cs₁ = some (q, outs) →
    c.HeadersAt P (ending fate) q
  /-- No call does what is not defined. -/
  defined : ∀ cs₁ c cs₂ q outs, cs = cs₁ ++ c :: cs₂ →
    answers (Receive.gives (ending fate)) p cs₁ = some (q, outs) →
    receive (ending fate) c q.1 q.2 ≠ .error .fault

/-- Calls for the items `is`, of which `x` bytes can be received. A message is received where it
arrives as it is; or it is refused because a frame is too long, and then no call follows. No call
follows one that has met a control frame that is not bare or comes inside a message. When the stream
breaks off before such a refusal there may be any calls. -/
def Careful {server : Bool} (e : Ending server) : ℕ → List Receive → List (Item server) → Prop
  | _, [], _ => True
  | x, c :: cs, .message m :: is =>
    (m.Fits c.first ∧ ((m.frames.flatMap Frame.encode).length ≤ x →
      Careful e (x - (m.frames.flatMap Frame.encode).length) cs is)) ∨
    (Overflows (c.first.map Elem.len) m.pieces ∧ Sound server c.first ∧
      (x ≤ stopsAt (c.first.map Elem.len) m.frames ∨ cs = []))
  | x, _ :: cs, .ping f :: is => (f.Bare ∧ (2 ≤ x → Careful e (x - 2) cs is)) ∨ x ≤ 2 ∨ cs = []
  | x, c :: cs, [] =>
    match e with
    | .pinged text content ps _ _ _ => Sound server c.first ∧
      (x ≤ stopsAt (c.first.map Elem.len) (framesOf content false 0 (opcodeFor text) ps) ∨ cs = [])
    | _ => True

variable {server : Bool} {fate : Option Errno} {lost rest x x' : List UInt8}
  {s s' : Rx (List UInt8)} {n : ℕ} {res res' : UInt64} {f : Frame} {P : List UInt8 → Prop}
  {self : WsSock} {c : Receive} {p : WsSock × List UInt8}

/-! ## Runs of calls -/

variable {ms : List (Sent server)} {cs : List Receive}

theorem framed_nil : Framed P fate p ms [] where
  whole := by
    intro p' outs h
    cases h
    exact ⟨[], List.nil_sublist ms, .nil⟩
  headers := by
    intro cs₁ c cs₂ q outs h
    cases cs₁ <;> cases h
  defined := by
    intro cs₁ c cs₂ q outs h
    cases cs₁ <;> cases h

/-- One more call at the beginning. -/
theorem framed_cons (hhead : c.HeadersAt P (ending fate) p)
    (hdef : receive (ending fate) c p.1 p.2 ≠ .error .fault)
    (hstep : ∀ q o, c.gives (ending fate) p = some (q, o) →
      ((∃ e, o = .error e) ∧ Framed P fate q ms cs) ∨
      ∃ m ms' d, ms = m :: ms' ∧ o = .ok d ∧ m.Whole (c.first, d) ∧ Framed P fate q ms' cs) :
    Framed P fate p ms (c :: cs) where
  whole := by
    intro p' outs h
    obtain ⟨q, o, outs', hc, hcs, rfl⟩ := answers_cons_eq_some h
    rcases hstep q o hc with ⟨⟨e, rfl⟩, hq⟩ | ⟨m, ms', d, rfl, rfl, hm, hq⟩
    · exact hq.whole p' outs' hcs
    · obtain ⟨ms₁, hsub, hall⟩ := hq.whole p' outs' hcs
      exact ⟨m :: ms₁, hsub.cons_cons m, .cons hm hall⟩
  headers := by
    intro cs₁ c' cs₂ q outs hsplit h
    cases cs₁ with
    | nil =>
      cases hsplit
      cases h
      exact hhead
    | cons c₁ cs₁ =>
      cases hsplit
      obtain ⟨q₁, o, outs', hc, hcs, rfl⟩ := answers_cons_eq_some h
      rcases hstep q₁ o hc with ⟨-, hq⟩ | ⟨m, ms', d, -, -, -, hq⟩
      · exact hq.headers cs₁ c' cs₂ q outs' rfl hcs
      · exact hq.headers cs₁ c' cs₂ q outs' rfl hcs
  defined := by
    intro cs₁ c' cs₂ q outs hsplit h
    cases cs₁ with
    | nil =>
      cases hsplit
      cases h
      exact hdef
    | cons c₁ cs₁ =>
      cases hsplit
      obtain ⟨q₁, o, outs', hc, hcs, rfl⟩ := answers_cons_eq_some h
      rcases hstep q₁ o hc with ⟨-, hq⟩ | ⟨m, ms', d, -, -, -, hq⟩
      · exact hq.defined cs₁ c' cs₂ q outs' rfl hcs
      · exact hq.defined cs₁ c' cs₂ q outs' rfl hcs

/-- A message may go unreceived. -/
theorem Framed.skip (h : Framed P fate p ms cs) (m : Sent server) : Framed P fate p (m :: ms) cs where
  whole := by
    intro p' outs hr
    obtain ⟨ms', hsub, hall⟩ := h.whole p' outs hr
    exact ⟨ms', hsub.cons m, hall⟩
  headers := h.headers
  defined := h.defined

/-- After the close frame. -/
theorem framed_closed (h : p.1.indone = true) : Framed P fate p ms cs := by
  induction cs with
  | nil => exact framed_nil
  | cons c cs ih =>
    have hbase : recvlBase (ending fate) c.n (.start p.1 p.2 c.first)
        = .ok (.error .EPIPE, .start p.1 p.2 c.first) := recvlBase_closed h
    have hrun := receive_fail hbase
    refine framed_cons (fun hopen => by rw [h] at hopen; cases hopen) ?_ fun q o hq => ?_
    · rw [hrun]
      intro hr
      cases hr
    · unfold Receive.gives at hq
      rw [hrun] at hq
      cases hq
      exact .inl ⟨⟨_, rfl⟩, ih⟩

theorem frame_spent (hs : s.u = []) :
    frame (ending fate) res s = .error .waits ∨
      ∃ e, frame (ending fate) res s = .ok (.error e, s) := by
  have hread : recv (ending fate) 2 s = fate.elim (.error .waits) fun e => .ok (.error e, s) := by
    have hcut := @brecv_ending fate 2 s.u
    rw [hs, if_neg (by simp)] at hcut
    unfold recv
    rw [hs, hcut]
    cases fate with
    | none => rfl
    | some e =>
      simp only [Option.elim_some]
      rw [← hs]
  unfold frame
  cases fate with
  | none => exact .inl (Call.bind_stop hread)
  | some e => exact .inr ⟨e, Call.bind_fail hread⟩

/-- When the stream has broken off. -/
theorem framed_spent (hP : P []) (h : p.2 = []) : Framed P fate p ms cs := by
  induction cs with
  | nil => exact framed_nil
  | cons c cs ih =>
    by_cases hopen : p.1.indone = false
    · have hbase : recvlBase (ending fate) c.n (.start p.1 p.2 c.first) = .error .waits ∨
          ∃ e, recvlBase (ending fate) c.n (.start p.1 p.2 c.first)
            = .ok (.error e, .start p.1 p.2 c.first) := by
        cases c.n with
        | zero => exact .inl (recvlBase_stop hopen rfl)
        | succ n =>
          rcases @frame_spent fate (.start p.1 p.2 c.first) 0 h with hframe | ⟨e, hframe⟩
          · exact .inl (recvlBase_stop hopen (frames_stop hframe))
          · exact .inr ⟨e, recvlBase_fail hopen (frames_fail hframe)⟩
      have hhead : c.HeadersAt P (ending fate) p := by
        intro _
        refine allAt_one ?_ fun res' s' hrun => ?_
        · change P p.2
          rw [h]
          exact hP
        · rcases @frame_spent fate (.start p.1 p.2 c.first) 0 h with hframe | ⟨e, hframe⟩ <;>
            rw [hframe] at hrun <;> cases hrun
      rcases hbase with hbase | ⟨e, hbase⟩
      · have hrun := receive_stop hbase
        refine framed_cons hhead ?_ fun q o hq => ?_
        · rw [hrun]
          intro hr
          cases hr
        · unfold Receive.gives at hq
          rw [hrun] at hq
          cases hq
      · have hrun := receive_fail hbase
        refine framed_cons hhead ?_ fun q o hq => ?_
        · rw [hrun]
          intro hr
          cases hr
        · unfold Receive.gives at hq
          rw [hrun] at hq
          cases hq
          exact .inl ⟨⟨_, rfl⟩, ih⟩
    · exact framed_closed (by simpa using hopen)

/-! ## A careful receiver -/

theorem framesOf_marked {content : ℕ → UInt8} {complete : Bool} {pos : ℕ} {opcode : UInt8}
    {ps : List Piece} {fs : List Frame} {f : Frame}
    (h : framesOf content complete pos opcode ps = fs ++ [f]) : ∀ g ∈ fs, g.fin = false := by
  induction ps generalizing pos opcode fs with
  | nil =>
    cases fs <;> cases h
  | cons p ps ih =>
    cases fs with
    | nil =>
      intro g hg
      cases hg
    | cons g fs =>
      rw [framesOf, List.cons_append, List.cons.injEq] at h
      obtain ⟨rfl, hrest⟩ := h
      refine List.forall_mem_cons.mpr ⟨?_, ih hrest⟩
      cases ps with
      | nil =>
        rw [framesOf] at hrest
        exact absurd hrest (by simp)
      | cons q ps => exact Bool.and_false _

theorem framesOf_last {content : ℕ → UInt8} {pos : ℕ} {opcode : UInt8} {ps : List Piece}
    (hne : ps ≠ []) : ¬ ∀ g ∈ framesOf content true pos opcode ps, g.fin = false := by
  induction ps generalizing pos opcode with
  | nil => exact absurd rfl hne
  | cons p ps ih =>
    intro h
    obtain ⟨hp, hrest⟩ := List.forall_mem_cons.mp h
    cases ps with
    | nil => cases hp
    | cons q ps => exact ih (List.cons_ne_nil q ps) hrest

theorem Sent.data (m : Sent server) : ∀ f ∈ m.frames, f.Data server :=
  framesOf_data (opcodeFor_data m.text) m.role

/-- The headers of a message. -/
theorem allAt_message (fate : Option Errno) (c : Receive) {m : Sent server}
    (hserver : self.server = server)
    (hs : x ++ lost = m.frames.flatMap Frame.encode ++ rest)
    (hP : ∀ fs y, fs <:+ m.frames → fs ≠ [] → y ++ lost = fs.flatMap Frame.encode ++ rest → P y) :
    c.HeadersAt P (ending fate) (self, x) := by
  intro _
  refine allAt_frames (by rw [show (Rx.start self x c.first).self.server = server from hserver]
                          exact m.data) hs hP ?_ fun fs f h => framesOf_marked h
  intro hall
  exact absurd hall (framesOf_last m.ne_nil)

/-- The header of a control frame. -/
theorem allAt_ping (f : Ping server) (hs : s.u ++ lost = f.frame.encode ++ rest) (hP : P s.u) :
    AllAt P (ending fate) n res s := by
  refine allAt_one hP fun res' s' hrun => ?_
  have hall := frame_ext lost hrun
  rw [frame_ping f (s := s.ext lost) hs] at hall
  cases hall

/-- The position in the stream of a peer of whom the items `is` are left. -/
structure At (P : List UInt8 → Prop) (lost : List UInt8) (e : Ending server)
    (is : List (Item server)) (x : List UInt8) : Prop where
  stream : x ++ lost = (is.flatMap Item.frames ++ e.frames).flatMap Frame.encode ++ e.raw
  headers : ∀ fs y, fs <:+ is.flatMap Item.frames ++ e.frames → fs ≠ [] →
    y ++ lost = fs.flatMap Frame.encode ++ e.raw → P y

variable {e : Ending server} {is : List (Item server)} {i : Item server}

theorem At.first (h : At P lost e (i :: is) x) :
    x ++ lost = i.frames.flatMap Frame.encode ++
      ((is.flatMap Item.frames ++ e.frames).flatMap Frame.encode ++ e.raw) := by
  rw [h.stream, List.flatMap_cons, List.append_assoc, List.flatMap_append, List.append_assoc]

theorem At.next (h : At P lost e (i :: is) x)
    (hx : x' ++ lost = (is.flatMap Item.frames ++ e.frames).flatMap Frame.encode ++ e.raw) :
    At P lost e is x' where
  stream := hx
  headers := by
    intro fs y hsuf hne hy
    refine h.headers fs y ?_ hne hy
    rw [List.flatMap_cons, List.append_assoc]
    exact hsuf.trans (List.suffix_append _ _)

/-- The headers of the first item. -/
theorem At.item (h : At P lost e (i :: is) x) (fs : List Frame) (y : List UInt8)
    (hsuf : fs <:+ i.frames) (hne : fs ≠ []) (hy : y ++ lost = fs.flatMap Frame.encode ++
      ((is.flatMap Item.frames ++ e.frames).flatMap Frame.encode ++ e.raw)) : P y := by
  refine h.headers (fs ++ (is.flatMap Item.frames ++ e.frames)) y ?_ ?_ ?_
  · obtain ⟨fs', hfs⟩ := hsuf
    refine ⟨fs', ?_⟩
    rw [← List.append_assoc, hfs, List.flatMap_cons, List.append_assoc]
  · intro hnil
    exact hne (List.append_eq_nil_iff.mp hnil).1
  · simp only [hy, List.flatMap_append, List.append_assoc]

/-- How much of the stream has been received. -/
theorem length_received {bs : List UInt8} (hs : x ++ lost = bs ++ rest) (hx : x' ++ lost = rest) :
    bs.length ≤ x.length ∧ x'.length = x.length - bs.length := by
  have hlen := congrArg List.length hs
  have hlen' := congrArg List.length hx
  rw [List.length_append, List.length_append] at hlen
  rw [List.length_append] at hlen'
  omega

variable (hP0 : ∀ y : List UInt8, y.length < 2 → P y)

include hP0

/-- A call that is refused is the last one, or the stream breaks off before that. -/
theorem framed_refused {k : ℕ} (hhead : c.HeadersAt P (ending fate) (self, x))
    (h : (∀ q o, c.gives (ending fate) (self, x) = some (q, o) →
      (∃ e, o = .error e) ∧ (x.length ≤ k → q.2 = [])) ∧
      receive (ending fate) c self x ≠ .error .fault)
    (hend : x.length ≤ k ∨ cs = []) : Framed P fate (self, x) ms (c :: cs) := by
  obtain ⟨hgives, hdef⟩ := h
  refine framed_cons hhead hdef fun q o hq => .inl ?_
  obtain ⟨he, hnil⟩ := hgives q o hq
  refine ⟨he, ?_⟩
  rcases hend with hshort | rfl
  · exact framed_spent (hP0 [] (by simp)) (hnil hshort)
  · exact framed_nil

/-- The first call, when a message comes first. -/
theorem framed_message {m : Sent server} (hself : self.Receives server)
    (hcareful : Careful e x.length (c :: cs) (.message m :: is))
    (hat : At P lost e (.message m :: is) x)
    (ih : ∀ x', Careful e x'.length cs is → At P lost e is x' →
      Framed P fate (self, x') (Peer.messagesOf is) cs) :
    Framed P fate (self, x) (Peer.messagesOf (.message m :: is)) (c :: cs) := by
  have hfirst := hat.first
  have hhead := allAt_message fate c hself.role hfirst
    (fun fs y => hat.item fs y)
  rcases hcareful with ⟨hfits, hnext⟩ | ⟨hover, hsound, hend⟩
  · obtain ⟨hgives, hdef⟩ := gives_fits fate hself.role hself.receiving hfits hfirst
    refine framed_cons hhead hdef fun q o hq => ?_
    rcases hgives q o hq with ⟨hnil, he⟩ | ⟨hsame, hq2, hout⟩
    · exact .inl ⟨he, framed_spent (hP0 [] (by simp)) hnil⟩
    · obtain ⟨hle, hlen⟩ := length_received hfirst hq2
      have hrest : Framed P fate q (Peer.messagesOf is) cs := by
        have h := ih q.2 (by rw [hlen]; exact hnext hle) (hat.next hq2)
        rw [← hsame] at h
        exact h
      rcases hout with he | ⟨d, hd, hwhole⟩
      · exact .inl ⟨he, hrest.skip m⟩
      · exact .inr ⟨m, _, d, rfl, hd, hwhole, hrest⟩
  · have href : Refuses (recvlBase lossless c.n) (stopsAt (c.first.map Elem.len) m.frames)
        (.start self (x ++ lost) c.first) := by
      refine recvlBase_refuses hself.receiving ?_
      refine frames_refuse (opcodeFor_data m.text) ?_ hfirst ?_ (.inl hover)
      · intro p hp
        exact (m.role p hp).trans hself.role.symm
      · change Sound self.server c.first
        rw [hself.role]
        exact hsound
    exact framed_refused hP0 hhead (gives_refused fate href) hend

/-- The first call, when a control frame comes first. -/
theorem framed_ping {f : Ping server} (hself : self.Receives server)
    (hcareful : Careful e x.length (c :: cs) (.ping f :: is)) (hat : At P lost e (.ping f :: is) x)
    (ih : ∀ x', Careful e x'.length cs is → At P lost e is x' →
      Framed P fate (self, x') (Peer.messagesOf is) cs) :
    Framed P fate (self, x) (Peer.messagesOf (.ping f :: is)) (c :: cs) := by
  have hfirst : x ++ lost = f.frame.encode ++
      ((is.flatMap Item.frames ++ e.frames).flatMap Frame.encode ++ e.raw) := by
    have h := hat.first
    rw [Item.frames, List.flatMap_singleton] at h
    exact h
  have hhead : c.HeadersAt P (ending fate) (self, x) := fun _ =>
    allAt_ping f hfirst (hat.item [f.frame] x List.suffix_rfl (by simp)
      (by rw [List.flatMap_singleton]; exact hfirst))
  have hping := recvlBase_ping (n := c.n) (s := .start self (x ++ lost) c.first) f hself.receiving
    hfirst
  rcases hcareful with ⟨⟨hpay, hkey, hform⟩, hnext⟩ | hend
  · obtain ⟨hgives, hdef⟩ := gives_fail fate hping
    refine framed_cons hhead hdef fun q o hq => .inl ?_
    obtain ⟨he, hq⟩ := hgives q o hq
    refine ⟨he, ?_⟩
    rcases hq with hnil | ⟨hsame, hq2⟩
    · exact framed_spent (hP0 [] (by simp)) hnil
    · have hbody : f.frame.body = [] :=
        List.length_eq_zero_iff.mp (by rw [Frame.length_body, hpay]; rfl)
      have hlen2 : f.frame.encode.length = 2 := by
        unfold Frame.encode
        rw [hbody, hkey, hform]
        rfl
      have hdrop : q.2 ++ lost
          = (is.flatMap Item.frames ++ e.frames).flatMap Frame.encode ++ e.raw := by
        rw [hq2]
        change (x ++ lost).drop 2 = _
        rw [hfirst, ← hlen2, List.drop_left]
      obtain ⟨hle, hlen⟩ := length_received hfirst hdrop
      rw [hlen2] at hle hlen
      have h := ih q.2 (by rw [hlen]; exact hnext hle) (hat.next hdrop)
      have hq1 : q.1 = self := hsame
      rw [← hq1] at h
      exact h
  · have href : Refuses (recvlBase lossless c.n) 2 (.start self (x ++ lost) c.first) :=
      hping.imp_right fun hfail => ⟨_, _, hfail, rfl⟩
    exact framed_refused hP0 hhead (gives_refused fate href) hend

/-- The first call after the last item. -/
theorem framed_ending (hself : self.Receives server) (hcareful : Careful e x.length (c :: cs) [])
    (hat : At P lost e [] x) :
    Framed P fate (self, x) (Peer.messagesOf ([] : List (Item server))) (c :: cs) := by
  have hstream := hat.stream
  have hheads := hat.headers
  rw [List.flatMap_nil, List.nil_append] at hstream hheads
  cases e with
  | idle =>
    have hnil : x = [] := by
      have h : x ++ lost = [] := hstream
      exact (List.append_eq_nil_iff.mp h).1
    exact framed_spent (hP0 [] (by simp)) hnil
  | close f wf role raw =>
    have hfirst : x ++ lost = f.encode ++ raw := by
      rw [Ending.frames, List.flatMap_singleton] at hstream
      exact hstream
    have hrole : f.key.isSome = self.server := role.trans hself.role.symm
    have hhead : c.HeadersAt P (ending fate) (self, x) := by
      intro _
      refine allAt_one (hheads [f] x List.suffix_rfl (by simp) hstream) fun res' s' hrun => ?_
      have hfin := frame_closing (s := (Rx.start self x c.first).ext lost) wf hrole hself.sized hfirst
        (frame_ext lost hrun)
      cases hfin
    have hbase := recvlBase_wellFormed (n := c.n) (s := .start self (x ++ lost) c.first) wf hrole
      hself.receiving hself.sized hfirst
    obtain ⟨hgives, hdef⟩ := gives_fail fate hbase
    refine framed_cons hhead hdef fun q o hq => .inl ?_
    obtain ⟨he, hq⟩ := hgives q o hq
    refine ⟨he, ?_⟩
    rcases hq with hnil | ⟨hsame, -⟩
    · exact framed_spent (hP0 [] (by simp)) hnil
    · exact framed_closed (by rw [hsame]; exact shut_indone self f)
  | pinged text content ps role f more =>
    obtain ⟨hsound, hend⟩ := hcareful
    have hfirst : x ++ lost = (framesOf content false 0 (opcodeFor text) ps).flatMap Frame.encode ++
        (f.frame.encode ++ more) := by
      rw [Ending.frames, List.flatMap_append, List.flatMap_singleton, List.append_assoc] at hstream
      exact hstream
    have hrole : ∀ p ∈ ps, p.key.isSome = self.server := fun p hp =>
      (role p hp).trans hself.role.symm
    have hping : ∀ y, y ++ lost = f.frame.encode ++ more → P y := by
      intro y hy
      refine hheads [f.frame] y (List.suffix_append _ _) (by simp) ?_
      rw [List.flatMap_singleton]
      exact hy
    have hhead : c.HeadersAt P (ending fate) (self, x) := by
      intro _
      refine allAt_frames (framesOf_data (opcodeFor_data text) hrole) hfirst ?_ ?_
        fun fs f h => framesOf_marked h
      · intro fs y hsuf hne hy
        refine hheads (fs ++ [f.frame]) y ?_ (by simp) ?_
        · obtain ⟨fs', hfs⟩ := hsuf
          exact ⟨fs', by rw [← List.append_assoc, hfs]; rfl⟩
        · rw [hy, List.flatMap_append, List.flatMap_singleton, List.append_assoc]
          rfl
      · intro _ n res s' _ hu
        exact allAt_ping f hu (hping _ hu)
    have href : Refuses (recvlBase lossless c.n)
        (stopsAt (c.first.map Elem.len) (framesOf content false 0 (opcodeFor text) ps))
        (.start self (x ++ lost) c.first) := by
      refine recvlBase_refuses hself.receiving ?_
      refine frames_refuse (opcodeFor_data text) hrole hfirst ?_ (.inr ⟨rfl, ?_⟩)
      · change Sound self.server c.first
        rw [hself.role]
        exact hsound
      · intro n res s' _ hu
        cases n with
        | zero => exact .inl rfl
        | succ n => exact .inr ⟨_, _, frames_fail (frame_ping f hu res), rfl⟩
    exact framed_refused hP0 hhead (gives_refused fate href) hend

/-- **Any number of calls.** -/
theorem framed_careful (hself : self.Receives server) (hcareful : Careful e x.length cs is)
    (hat : At P lost e is x) : Framed P fate (self, x) (Peer.messagesOf is) cs := by
  induction cs generalizing x is with
  | nil => exact framed_nil
  | cons c cs ih =>
    cases is with
    | nil => exact framed_ending hP0 hself hcareful hat
    | cons i is =>
      cases i with
      | message m =>
        exact framed_message hP0 hself hcareful hat fun x' hc ha => ih hc ha
      | ping f => exact framed_ping hP0 hself hcareful hat fun x' hc ha => ih hc ha

omit hP0

/-- **Framing.** As long as every call is careful, what is received are whole messages of the peer, in
order, and no header is read but where the peer has one. -/
theorem framing_never_slips (fate : Option Errno) (self : WsSock) (server : Bool)
    (hself : self.Receives server) (peer : Peer server) (S lost : List UInt8)
    (hwire : S ++ lost = peer.wire) (cs : List Receive)
    (hcareful : Careful peer.ending S.length cs peer.items) :
    Framed (peer.AtFrame lost) fate (self, S) peer.messages cs := by
  refine framed_careful ?_ hself hcareful ⟨hwire, ?_⟩
  · intro y hy hle
    omega
  · rintro fs y ⟨fs', hfs⟩ hne hy -
    exact ⟨fs', fs, hfs.symm, hne, hy⟩

/-- A message of two bytes, a bare ping and a message of three bytes: the first is received, the ping
fails, and the last message is too long for its buffer. -/
theorem framing_never_slips_client :
    let m : Sent false := ⟨true, fun _ => 72, [⟨none, .short, 2, by decide⟩], by simp, by simp⟩
    let m' : Sent false := ⟨true, fun _ => 73, [⟨none, .short, 3, by decide⟩], by simp, by simp⟩
    let f : Ping false := ⟨⟨true, 9, none, .short, [], by decide⟩, .inl rfl, rfl, by decide, rfl⟩
    let peer : Peer false := ⟨[.message m, .ping f, .message m'], .idle⟩
    Framed (peer.AtFrame []) (some .ECONNRESET)
      (WsSock.attach false true 1 (List.replicate 128 0), peer.wire) peer.messages
      [⟨true, 1, [.buf [0, 0]]⟩, ⟨true, 1, [.buf [0, 0]]⟩, ⟨true, 1, [.buf [0, 0]]⟩] := by
  intro m m' f peer
  have hfits : m.Fits [.buf [0, 0]] := by
    refine ⟨by decide, by decide, fun key hkey => ?_⟩
    cases hkey
  refine framing_never_slips _ _ false ⟨rfl, rfl, rfl, List.length_replicate⟩ peer peer.wire []
    (List.append_nil _) _ (.inl ⟨hfits, fun _ => .inl ⟨⟨rfl, rfl, rfl⟩, fun _ => .inr ⟨?_, ?_, .inr rfl⟩⟩⟩)
  · exact .inl (by decide)
  · exact ⟨by simp, fun h => by cases h⟩

/-- A message of four bytes for which there is room for one: the next receive takes the three bytes
that are left for a frame, and returns a message the peer has not sent. -/
theorem framing_slips :
    let m : Sent false := ⟨true, fun i => [97, 130, 1, 88].getD i 0,
      [⟨none, .short, 4, by decide⟩], by simp, by simp⟩
    let peer : Peer false := ⟨[.message m], .idle⟩
    let self := WsSock.attach false true 1 (List.replicate 128 0)
    let cs : List Receive := [⟨false, 1, [.buf [0]]⟩, ⟨false, 1, [.buf [0, 0]]⟩]
    answers (Receive.gives (ending none)) (self, peer.wire) cs
        = some ((self, []), [.error .EMSGSIZE, .ok ⟨1, [.buf [88, 0]], some 0⟩]) ∧
      ¬ Framed (peer.AtFrame []) none (self, peer.wire) peer.messages cs := by
  have hfirst : Receive.gives (ending none)
      (WsSock.attach false true 1 (List.replicate 128 0), [129, 4, 97, 130, 1, 88])
      ⟨false, 1, [.buf [0]]⟩ = some ((WsSock.attach false true 1 (List.replicate 128 0), [130, 1, 88]),
        .error .EMSGSIZE) := rfl
  have hsecond : Receive.gives (ending none)
      (WsSock.attach false true 1 (List.replicate 128 0), [130, 1, 88]) ⟨false, 1, [.buf [0, 0]]⟩
        = some ((WsSock.attach false true 1 (List.replicate 128 0), []),
          .ok ⟨1, [.buf [88, 0]], some 0⟩) := rfl
  intro m peer self cs
  have hwire : peer.wire = [129, 4, 97, 130, 1, 88] := by decide
  have hrun : answers (Receive.gives (ending none)) (self, peer.wire) cs
      = some ((self, []), [.error .EMSGSIZE, .ok ⟨1, [.buf [88, 0]], some 0⟩]) := by
    rw [hwire]
    exact answers_cons hfirst (answers_cons hsecond rfl)
  refine ⟨hrun, fun h => ?_⟩
  obtain ⟨ms', hsub, hall⟩ := h.whole _ _ hrun
  cases hall with
  | cons hm hnil =>
    cases hnil
    have hmem := hsub.subset List.mem_cons_self
    rw [List.mem_singleton.mp hmem] at hm
    have hsize := hm.size
    revert hsize
    decide

end Libdill.Ws
