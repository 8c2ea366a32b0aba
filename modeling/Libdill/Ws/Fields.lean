import Libdill.Http.RoundTrip
import Libdill.Ws.Attach

/-!
# Fields over a connection that does not fail

The loop of the handshake over the fields of a message, when the lines of the message are on the
stream: `receive_next` and `receive_last` receive a line, `fields_turn` and `fields_stop` are one turn,
and `fields_run` is the loop, for fields whose turns are those of a `FieldRun`.
-/

namespace Libdill.Ws

open Foundations Libdill.Sock Libdill.Utils Libdill.Http
open Libdill.Suffix (SuffixSock Source crlf)
open Libdill.Term (TermSock)

/-! ## HTTP over a connection that does not fail -/

section Stream

variable {p : Partner} {n i : ℕ} {o m : List UInt8} {t : TermSock} {s : Args} {rx : Rxbuf}

theorem send_goes {bufs : List (List UInt8)} (hp : p.fate o = none) (h : bufs ≠ []) :
    Term.msendl (Suffix.msock p.bsock n) bufs (t, crlf.attach, i, o)
      = .ok (.ok (), t, crlf.attach, i, o ++ (bufs.flatten ++ crlf.bytes)) := by
  have hempty : bufs.isEmpty = false := by simpa using h
  have hsend : bsendl p.bsock (bufs ++ [crlf.bytes]) (i, o)
      = .ok (.ok (), i, o ++ (bufs.flatten ++ crlf.bytes)) := by
    have hfull : (bufs ++ [crlf.bytes]).isEmpty = false := by simp
    simp only [bsendl, hfull, Partner.bsock, hp, Bool.false_eq_true, if_false]
    rw [List.flatten_append, List.flatten_singleton]
  have hrun := @Suffix.msendl_run crlf.attach _ _ _ _ _ h rfl hsend
  unfold Term.msendl Sock.msendl
  rw [hempty]
  exact below_run hrun

/-- A field whose value is not blank. -/
theorem field_goes {name value : CString} (hp : p.fate o = none)
    (hname : strpbrk name nameDelims = false) (hvalue : ∃ c ∈ value.bytes, c ≠ 32) :
    sendfield p.bsock n name value (t, crlf.attach, i, o)
      = .ok (.ok (), t, crlf.attach, i,
          o ++ (name.bytes ++ [58, 32] ++ strip 32 value.bytes ++ crlf.bytes)) := by
  have hstrip := strip_ne_nil hvalue
  have hne : value.bytes.length ≠ 0 := by
    intro h
    rw [List.length_eq_zero_iff] at h
    rw [h] at hstrip
    exact hstrip rfl
  have hlen : ¬(strip 32 value.bytes).length = 0 := fun h => hstrip (List.length_eq_zero_iff.mp h)
  unfold sendfield
  rw [hname, if_neg Bool.false_ne_true, if_neg hne]
  simp only [length_strip, if_neg hlen]
  rw [← length_strip, take_strip, send_goes hp (List.cons_ne_nil _ _)]
  simp

/-- **A message is sent as its line.** -/
theorem message_goes {msg : Http.Message} (hp : p.fate o = none) (h : msg.Valid) :
    below (msg.call p.bsock n) (s, t, crlf.attach, i, o)
      = .ok (.ok (), s, t, crlf.attach, i, o ++ (msg.line ++ crlf.bytes)) := by
  apply below_run
  cases msg with
  | request command resource =>
    obtain ⟨hc, hr, -, -⟩ := h
    unfold Http.Message.call sendrequest
    simp only [hc, hr, Bool.false_eq_true, if_false]
    rw [send_goes hp (by simp)]
    simp [Http.Message.line]
  | status k reason =>
    obtain ⟨hlo, hhi, -, -⟩ := h
    unfold Http.Message.call sendstatus
    simp only [show ¬(k < 100 ∨ 599 < k) by omega, if_false]
    rw [send_goes hp (by simp)]
    simp [Http.Message.line]
  | field name value =>
    obtain ⟨hn, -, hv⟩ := h
    exact field_goes hp hn hv

/-- The empty line. -/
theorem done_goes {indone : Bool} (hp : p.fate o = none) :
    Http.done p.bsock n (⟨[], indone, false⟩, crlf.attach, i, o)
      = .ok (.ok (), ⟨[], indone, true⟩, crlf.attach, i, o ++ crlf.bytes) := by
  have hsend : bsendl p.bsock ([[]] ++ [crlf.bytes]) (i, o)
      = .ok (.ok (), i, o ++ crlf.bytes) := by
    have hfull : ([[]] ++ [crlf.bytes] : List (List UInt8)).isEmpty = false := rfl
    simp only [bsendl, hfull, Partner.bsock, hp, Bool.false_eq_true, if_false]
    rfl
  have hrun := @Suffix.msendl_run crlf.attach _ _ _ _ _ (List.cons_ne_nil [] []) rfl hsend
  unfold Http.done Term.done
  rw [Call.look_bind]
  refine (Call.bind_ret Call.require_true).trans ?_
  rw [Call.look_bind]
  refine (Call.bind_ret (below_run hrun)).trans ?_
  rfl

/-- A line that comes next, as SUFFIX receives it. -/
theorem mrecvl_next (hm : p.incoming.Message crlf i m) (hn : m.length < n) :
    Suffix.mrecvl p.bsock n [.buf (rx.bytes.take (rxbufSize - 1))] (crlf.attach, i, o)
      = .ok (.ok (m.length, [Elem.put (m.take (rxbufSize - 1))
          (.buf (rx.bytes.take (rxbufSize - 1)))]), crlf.attach, i + (m ++ crlf.bytes).length, o) := by
  have hroom := room_rxbuf rx
  obtain ⟨j, hrun, -⟩ := @Suffix.mrecvl_cut _ _ _ _ crlf.attach _ m _
    (.buf (rx.bytes.take (rxbufSize - 1))) [] n Suffix.yields_source (Suffix.cutAt_of_free hm.2) hm.1 rfl
    (fun _ => by rw [hroom]; decide) hn
  obtain ⟨-, hj⟩ := mrecvl_moves rfl hrun
  rw [mrecvl_beside, hrun, hj, hroom, List.length_append]
  rfl

variable {α : Type} {parse : ℕ → Rxbuf → Call Args Stop Errno α}
  {line : List UInt8 → Call Args Stop Errno α}

/-- **A line is received.** -/
theorem receive_next (hparse : Parses parse line) (ht : t.term = [])
    (hm : p.incoming.Message crlf i m) (hne : m ≠ []) (hshort : m.length < rxbufSize)
    (hn : rxbufSize ≤ n) :
    Http.receive p.bsock n rx parse (s, t, crlf.attach, i, o)
      = onArgs (line m) (s, t, crlf.attach, i + (m ++ crlf.bytes).length, o) := by
  have hrun := @receive_run _ _ _ rx t _ _ m s _ _ _ hparse ht (@mrecvl_next p n i o m rx hm (by omega))
  rwa [if_neg hne, if_neg (by omega)] at hrun

/-- **The last line is received.** -/
theorem receive_last (ht : t.term = []) (hm : p.incoming.Message crlf i []) (hn : rxbufSize ≤ n) :
    Http.receive p.bsock n rx parse (s, t, crlf.attach, i, o)
      = .ok (.error .EPIPE, s, { t with indone := true }, crlf.attach, i + crlf.bytes.length, o) :=
  receive_end ht (@mrecvl_next p n i o [] rx hm (lt_of_lt_of_le (by decide) hn))

/-- **The stream has broken off.** -/
theorem receive_broken {e : Errno} (ht : t.term = []) (h : p.incoming.get i = some (.error e)) :
    ∃ self, Http.receive p.bsock n rx parse (s, t, crlf.attach, i, o)
      = .ok (.error e, s, t, self, i, o) := by
  have hread : p.bsock.brecvl (i, o) [crlf.bytes.length] true = some (.error e, i, o) := by
    change (p.incoming.read 2 i).map _ = _
    rw [Source.read, h]
    rfl
  have hrecv : Suffix.recv p.bsock crlf.bytes.length (crlf.attach, i, o)
      = .ok (.error e, { crlf.attach with inerr := true }, i, o) := by
    unfold Suffix.recv brecv
    simp only [hread]
  refine ⟨{ crlf.attach with inerr := true }, Http.receive_fail ht ?_⟩
  unfold Suffix.mrecvl
  rw [Call.look_bind]
  refine (Call.bind_ret Call.require_true).trans ?_
  rw [Call.look_bind]
  exact Call.bind_fail hrecv

end Stream

/-! ## The loop over the fields -/

/-- The buffers for the lines. -/
structure Buffers (s : Args) : Prop where
  sized : Sized s
  command : (s .command).length = 32
  reason : (s .reason).length = 256
  name : (s .name).length = 256
  value : (s .value).length = 256

theorem Buffers.put {s : Args} {a : Arg} {w : List UInt8} (h : Buffers s) (hw : w.length < (s a).length) :
    Buffers (s.put a w) where
  sized := h.sized.put hw
  command := by rw [length_put hw, h.command]
  reason := by rw [length_put hw, h.reason]
  name := by rw [length_put hw, h.name]
  value := by rw [length_put hw, h.value]

/-- The value of a field, as it is received. -/
def stripped (value : CString) : CString where
  bytes := strip 32 value.bytes
  noNull h := value.noNull (mem_strip h)

theorem cut_bytes (w : CString) : cut w.bytes = w := by
  cases w with
  | mk bytes noNull =>
    have hall : bytes.takeWhile (· != 0) = bytes := by
      rw [List.takeWhile_eq_self_iff]
      intro c hc
      rw [bne_iff_ne]
      exact fun h => noNull (h ▸ hc)
    rw [CString.mk.injEq]
    exact hall

/-- A field that the loop receives: it is sent as one line, and the buffers have room for it. -/
structure Passes (q : CString × CString) : Prop where
  sendable : (Http.Message.field q.1 q.2).Sendable
  name : q.1.bytes.length < 256
  value : (stripped q.2).bytes.length < 256

/-- The buffers when a field has been received. -/
def stored (s : Args) (q : CString × CString) : Args :=
  (s.put .name q.1.bytes).put .value (stripped q.2).bytes

theorem Buffers.stored {s : Args} {q : CString × CString} (h : Buffers s) (hq : Passes q) :
    Buffers (stored s q) := by
  have hname : q.1.bytes.length < (s .name).length := by
    rw [h.name]
    exact hq.name
  apply (h.put hname).put
  rw [(h.put hname).value]
  exact hq.value

/-- The line of a field. -/
def fieldOf (q : CString × CString) : List UInt8 := (Http.Message.field q.1 q.2).line

/-- What is made of fields that are received one after the other. -/
inductive FieldRun {φ : Type} (next : φ → Call Args Stop Errno φ) :
    φ → List (CString × CString) → φ → Prop
  | nil (x : φ) : FieldRun next x [] x
  | cons {x y z : φ} {q : CString × CString} {qs : List (CString × CString)}
      (h : ∀ s, next x (stored s q) = .ok (.ok y, stored s q)) (hqs : FieldRun next y qs z) :
      FieldRun next x (q :: qs) z

section Loop

variable {p : Partner} {n k i : ℕ} {o : List UInt8} {t : TermSock} {s : Args} {v : Memory} {φ : Type}
  {next : φ → Call Args Stop Errno φ} {x y : φ} {q : CString × CString} {qs : List (CString × CString)}

theorem holds_lines {f : Source} {m : List UInt8} {ms : List (List UInt8)} :
    f.Holds i (Suffix.wireOf crlf (m :: ms)) ↔
      f.Holds i (m ++ crlf.bytes) ∧ f.Holds (i + (m ++ crlf.bytes).length) (Suffix.wireOf crlf ms) :=
  Suffix.holds_append

theorem length_lines {m : List UInt8} {ms : List (List UInt8)} :
    (Suffix.wireOf crlf (m :: ms)).length = (m ++ crlf.bytes).length + (Suffix.wireOf crlf ms).length :=
  List.length_append

/-- **A turn of the loop.** -/
theorem fields_turn (hb : Buffers s) (ht : t.term = []) (hq : Passes q)
    (hm : p.incoming.Message crlf i (fieldOf q)) (hn : rxbufSize ≤ n)
    (hnext : next x (stored s q) = .ok (.ok y, stored s q)) :
    fields p.bsock n v next (k + 1) x (s, t, crlf.attach, i, o)
      = fields p.bsock n v next k y
          (stored s q, t, crlf.attach, i + (fieldOf q ++ crlf.bytes).length, o) := by
  have hfits : (Http.Message.field q.1 q.2).fits s = true := by
    apply fits_iff.mpr
    simp only [Http.Message.kind, Recv.args, Http.Message.strings, List.zip_cons_cons,
      List.zip_nil_left, List.forall_mem_cons, List.not_mem_nil, false_implies, implies_true, and_true]
    rw [hb.name, hb.value]
    exact ⟨hq.name, hq.value⟩
  have hparse := parse_field hb.sized hq.sendable.valid hfits
  have hrecv : recvfield p.bsock n (v.rxbuf (k + 1)) (s, t, crlf.attach, i, o)
      = .ok (.ok (), stored s q, t, crlf.attach, i + (fieldOf q ++ crlf.bytes).length, o) :=
    (receive_next parses_field ht hm (Http.Message.line_ne_nil _) hq.sendable.short hn).trans
      (onArgs_run hparse)
  rw [fields]
  simp only [hrecv]
  exact Call.bind_ret (onArgs_run hnext)

/-- **The loop ends** at the empty line. -/
theorem fields_stop (ht : t.term = []) (hm : p.incoming.Message crlf i []) (hn : rxbufSize ≤ n) :
    fields p.bsock n v next (k + 1) x (s, t, crlf.attach, i, o)
      = .ok (.ok x, s, { t with indone := true }, crlf.attach, i + crlf.bytes.length, o) := by
  have hrecv : recvfield p.bsock n (v.rxbuf (k + 1)) (s, t, crlf.attach, i, o)
      = .ok (.error .EPIPE, s, { t with indone := true }, crlf.attach, i + crlf.bytes.length, o) :=
    receive_last ht hm hn
  rw [fields]
  simp only [hrecv, if_true]

/-- **The loop** over the fields in front of an empty line. -/
theorem fields_run (htakes : FieldRun next x qs y) (hqs : ∀ q ∈ qs, Passes q) (hb : Buffers s)
    (ht : t.term = []) (hn : rxbufSize ≤ n) (hk : qs.length < k)
    (hwire : p.incoming.Holds i (Suffix.wireOf crlf (qs.map fieldOf ++ [[]]))) :
    ∃ s', s' .resource = s .resource ∧
      fields p.bsock n v next k x (s, t, crlf.attach, i, o)
        = .ok (.ok y, s', { t with indone := true }, crlf.attach,
            i + (Suffix.wireOf crlf (qs.map fieldOf ++ [[]])).length, o) := by
  induction htakes generalizing s i k with
  | nil x =>
    obtain ⟨k, rfl⟩ : ∃ k', k = k' + 1 := ⟨k - 1, by simp at hk; omega⟩
    have hm : p.incoming.Message crlf i [] := ⟨hwire, free_of_notMem (by simp)⟩
    exact ⟨s, rfl, fields_stop ht hm hn⟩
  | @cons x y z q qs hnext _ ih =>
    obtain ⟨k, rfl⟩ : ∃ k', k = k' + 1 := ⟨k - 1, by simp at hk; omega⟩
    obtain ⟨hq, hqs⟩ := List.forall_mem_cons.mp hqs
    rw [List.map_cons, List.cons_append] at hwire
    obtain ⟨hline, hrest⟩ := holds_lines.mp hwire
    have hm : p.incoming.Message crlf i (fieldOf q) :=
      ⟨hline, Http.Message.free_line hq.sendable.valid⟩
    obtain ⟨s', hres, hrun⟩ := ih hqs (hb.stored hq) (by simpa using hk) hrest
    refine ⟨s', ?_, ?_⟩
    · rw [hres, stored, put_of_ne (by decide), put_of_ne (by decide)]
    · rw [fields_turn hb ht hq hm hn (hnext s), hrun, List.map_cons, List.cons_append, length_lines,
        Nat.add_assoc]

end Loop

/-! ## What gets through -/

/-- What the caller of the client asks for gets through to the server: it can be sent, and the buffers
of the server and of its caller have room for it. -/
structure Fit (path host : CString) (resource hostBuf : List UInt8) : Prop where
  sendable : (Http.Message.request (lit "GET") path).Sendable
  passes : Passes (lit "Host", host)
  room : path.bytes.length < resource.length
  size : resource.length < sizeRange
  hostRoom : (stripped host).bytes.length < hostBuf.length

end Libdill.Ws
