import Libdill.Ledger.Open
import Mathlib.Data.List.Perm.Basic
import Mathlib.Data.List.Nodup
import Mathlib.Data.List.Flatten

/-!
# The books

`Books w F O`: every open descriptor is one of a socket, one of a call that waits or one of `F`, and
no two of them are the same; and so for the blocks in memory with `O`. No two objects are at the same
place, no two handles are equal, and the descriptors of the sockets are what the sockets take them
for and do not block.

`At w₀ F O` says that the books of a world are kept and that its sockets and waiting calls are those
of `w₀`. There is one lemma for each operation of `Ledger/World.lean`.
-/

namespace Libdill.Ledger

open Foundations Libdill.Sock

/-- The type of the descriptor of a socket. -/
def Kind.type : Kind → SockType
  | .udp => .dgram
  | _ => .stream

/-- The families of the descriptors of a socket. -/
def Kind.families : Kind → List Family
  | .ipc => [.unix]
  | .ipcListener => [.unix]
  | _ => [.inet, .inet6]

/-- The listeners for connections. -/
def Kind.listener : Kind → Option Kind
  | .tcp => some .tcpListener
  | .ipc => some .ipcListener
  | _ => none

/-- The descriptor is one for a socket of the kind, in non-blocking mode. -/
structure Kind.Suits (kind : Kind) (d : Desc) : Prop where
  type : d.type = some kind.type
  family : d.family ∈ kind.families
  nonblock : d.nonblock = true

/-- The block of an object, if it is the library's. -/
def Sock.blocks (x : Sock) : List ℕ := if x.mem then [] else [x.addr]

/-- The descriptors of a waiting call that no socket has. -/
def Pending.fds : Pending → List ℤ
  | .connect _ _ s _ => [s]
  | _ => []

/-- The blocks of a waiting call. -/
def Pending.blocks : Pending → List ℕ
  | .connect _ alloc _ a => if alloc then [a] else []
  | .accept _ alloc _ a => if alloc then [a] else []
  | _ => []

/-- What a waiting call relies on. -/
def Pending.Waits (w : World) : Pending → Prop
  | .connect kind _ s _ => kind.Suits (w.desc s)
  | .accept kind _ s _ => ∃ p ∈ w.socks, p.2.fd = s ∧ kind.listener = some p.2.kind
  | .close h s => ∃ p ∈ w.socks, p.2.fd = s ∧ p.1 = h ∧ p.2.kind.listener.isSome = true
  | .recvfd s => ∃ p ∈ w.socks, p.2.fd = s

/-- The descriptors of the sockets and of the waiting calls. -/
def World.held (w : World) : List ℤ := w.socks.map (·.2.fd) ++ w.calls.flatMap Pending.fds

/-- The blocks of the sockets and of the waiting calls. -/
def World.blocks (w : World) : List ℕ := w.socks.flatMap (·.2.blocks) ++ w.calls.flatMap Pending.blocks

/-- The books of the descriptors and the blocks: besides the sockets and the waiting calls there are
owners of `F` and of `O`. -/
structure Books (w : World) (F : List ℤ) (O : List ℕ) : Prop where
  fds : w.fds.Perm (w.held ++ F)
  heap : w.heap.Perm (w.blocks ++ O)
  nodup_fds : w.fds.Nodup
  nodup_heap : w.heap.Nodup
  nodup_addrs : w.addrs.Nodup
  nodup_handles : (w.socks.map Prod.fst ++ w.stale).Nodup
  suits : ∀ p ∈ w.socks, p.2.kind.Suits (w.desc p.2.fd)
  waits : ∀ p ∈ w.calls, p.Waits w

variable {w w' w₀ : World} {F F' : List ℤ} {O O' : List ℕ} {s h : ℤ} {a : ℕ} {x : Sock} {kind : Kind}

/-! ## What the books say -/

theorem Books.perm (hb : Books w F O) (hF : F.Perm F') (hO : O.Perm O') : Books w F' O' where
  fds := hb.fds.trans (hF.append_left _)
  heap := hb.heap.trans (hO.append_left _)
  nodup_fds := hb.nodup_fds
  nodup_heap := hb.nodup_heap
  nodup_addrs := hb.nodup_addrs
  nodup_handles := hb.nodup_handles
  suits := hb.suits
  waits := hb.waits

theorem Books.disjoint (hb : Books w F O) : (w.held ++ F).Nodup := hb.fds.nodup_iff.mp hb.nodup_fds

theorem Books.mem_of_held (hb : Books w F O) (hs : s ∈ w.held) : s ∈ w.fds :=
  hb.fds.mem_iff.mpr (List.mem_append_left _ hs)

theorem Books.mem_of_free (hb : Books w F O) (hs : s ∈ F) : s ∈ w.fds :=
  hb.fds.mem_iff.mpr (List.mem_append_right _ hs)

theorem Books.held_ne (hb : Books w F O) {t : ℤ} (ht : t ∈ w.held) (hs : s ∈ F) : t ≠ s :=
  (List.nodup_append.mp hb.disjoint).2.2 t ht s hs

theorem held_of_sock {p : ℤ × Sock} (hp : p ∈ w.socks) : p.2.fd ∈ w.held :=
  List.mem_append_left _ (List.mem_map_of_mem hp)

theorem held_of_call {p : Pending} (hp : p ∈ w.calls) {t : ℤ} (ht : t ∈ p.fds) : t ∈ w.held :=
  List.mem_append_right _ (List.mem_flatMap.mpr ⟨p, hp, ht⟩)

/-- What a call waits for is the descriptor of a socket or its own. -/
theorem Books.held_of_waits (hb : Books w F O) {p : Pending} (hp : p ∈ w.calls) : p.fd ∈ w.held := by
  have hw := hb.waits p hp
  cases p with
  | connect k alloc s a => exact held_of_call hp (List.mem_singleton.mpr rfl)
  | accept k alloc s a =>
    obtain ⟨q, hq, rfl, -⟩ := hw
    exact held_of_sock hq
  | close h s =>
    obtain ⟨q, hq, rfl, -⟩ := hw
    exact held_of_sock hq
  | recvfd s =>
    obtain ⟨q, hq, rfl⟩ := hw
    exact held_of_sock hq

/-- Nobody waits for a descriptor that is neither a socket's nor that of a waiting call. -/
theorem Books.free_not_waited (hb : Books w F O) (hs : s ∈ F) : s ∉ w.calls.map Pending.fd := by
  intro hmem
  obtain ⟨p, hp, hfd⟩ := List.mem_map.mp hmem
  exact hb.held_ne (hb.held_of_waits hp) hs hfd

/-- A waiting call relies on the socket whose descriptor it waits for and on the descriptors it
holds. -/
theorem Pending.Waits.keeps {p : Pending} (hp : p.Waits w)
    (hsocks : ∀ q ∈ w.socks, q.2.fd = p.fd →
      ∃ q' ∈ w'.socks, q'.1 = q.1 ∧ q'.2.fd = q.2.fd ∧ q'.2.kind = q.2.kind)
    (hdesc : ∀ t ∈ p.fds, w'.desc t = w.desc t) : p.Waits w' := by
  cases p with
  | connect k alloc s a =>
    change k.Suits (w'.desc s)
    rw [hdesc s (List.mem_singleton.mpr rfl)]
    exact hp
  | accept k alloc s a =>
    obtain ⟨q, hq, hfd, hkind⟩ := hp
    obtain ⟨q', hq', -, hfd', hkind'⟩ := hsocks q hq hfd
    exact ⟨q', hq', hfd'.trans hfd, by rw [hkind', hkind]⟩
  | close h s =>
    obtain ⟨q, hq, hfd, hh, hkind⟩ := hp
    obtain ⟨q', hq', hh', hfd', hkind'⟩ := hsocks q hq hfd
    exact ⟨q', hq', hfd'.trans hfd, hh'.trans hh, by rw [hkind', hkind]⟩
  | recvfd s =>
    obtain ⟨q, hq, hfd⟩ := hp
    obtain ⟨q', hq', -, hfd', -⟩ := hsocks q hq hfd
    exact ⟨q', hq', hfd'.trans hfd⟩

theorem Pending.Waits.mono {p : Pending} (hp : p.Waits w) (hsocks : w.socks ⊆ w'.socks)
    (hdesc : ∀ t ∈ p.fds, w'.desc t = w.desc t) : p.Waits w' :=
  hp.keeps (fun q hq _ => ⟨q, hsocks hq, rfl, rfl, rfl⟩) hdesc

/-! ## The books against another world -/

/-- The books are kept, and the sockets and the waiting calls are those of `w₀`. -/
structure At (w₀ : World) (F : List ℤ) (O : List ℕ) (w : World) : Prop extends Books w F O where
  socks : w.socks = w₀.socks
  stale : w.stale = w₀.stale
  calls : w.calls = w₀.calls

theorem Books.at (hb : Books w F O) : At w F O w := ⟨hb, rfl, rfl, rfl⟩

theorem At.perm (hw : At w₀ F O w) (hF : F.Perm F') (hO : O.Perm O') : At w₀ F' O' w :=
  ⟨hw.toBooks.perm hF hO, hw.socks, hw.stale, hw.calls⟩

theorem At.addrs (hw : At w₀ F O w) : w.addrs = w₀.addrs := by
  unfold World.addrs
  rw [hw.socks, hw.calls]

theorem At.mem_fds (hw : At w₀ F O w) : s ∈ w.fds ↔ s ∈ w₀.held ++ F := by
  have hheld : w.held = w₀.held := by
    unfold World.held
    rw [hw.socks, hw.calls]
  rw [hw.fds.mem_iff, hheld]

/-- The answers do not count. -/
theorem At.env (hw : At w₀ F O w) (env : List Reply) : At w₀ F O { w with env := env } :=
  ⟨⟨hw.fds, hw.heap, hw.nodup_fds, hw.nodup_heap, hw.nodup_addrs, hw.nodup_handles, hw.suits,
    hw.waits⟩, hw.socks, hw.stale, hw.calls⟩

/-- The descriptors that belong to nobody may be set as one likes. -/
theorem At.set (hw : At w₀ F O w) (hs : s ∈ F) (d : Desc) :
    At w₀ F O { w with desc := Function.update w.desc s d } := by
  have hdesc : ∀ t ∈ w.held, Function.update w.desc s d t = w.desc t :=
    fun t ht => Function.update_of_ne (hw.held_ne ht hs) _ _
  refine ⟨⟨hw.fds, hw.heap, hw.nodup_fds, hw.nodup_heap, hw.nodup_addrs, hw.nodup_handles, ?_, ?_⟩,
    hw.socks, hw.stale, hw.calls⟩
  · intro p hp
    change p.2.kind.Suits (Function.update w.desc s d p.2.fd)
    rw [hdesc _ (held_of_sock hp)]
    exact hw.suits p hp
  · intro p hp
    exact (hw.waits p hp).mono (fun _ hq => hq) fun t ht => hdesc t (held_of_call hp ht)

/-- A socket comes into the world. -/
def World.add (w : World) (h : ℤ) (x : Sock) : World := { w with socks := (h, x) :: w.socks }

/-! ## The operations -/

/-- The call keeps the books: it ends with `Q`, or it waits for an answer that does not come. -/
abbrev Keeps {α : Type} (x : M α) (w : World) (Q : Except Errno α → World → Prop) : Prop :=
  Call.Meets x w Q (· = .blocked)

theorem answer_keeps {α : Type} {f : Reply → Option α} :
    Keeps (answer f) w fun o w' =>
      ∃ r env, o = .ok r ∧ w' = { w with env := env } ∧ ∃ a, w.env = a :: env ∧ f a = some r := by
  unfold Keeps Call.Meets answer
  cases henv : w.env with
  | nil => rfl
  | cons a env =>
    cases hf : f a with
    | none => simp only [hf]
    | some r =>
      simp only [hf]
      exact ⟨r, env, rfl, rfl, a, rfl, hf⟩

theorem result_keeps {α : Type} {r : Except Errno α} :
    Keeps (result r) w fun o w' => o = r ∧ w' = w := .of_ok rfl ⟨rfl, rfl⟩

theorem require_keeps {c : Bool} {e : Errno} : Keeps (Call.require c e) w fun o w' =>
    w' = w ∧ (o = .error e ∨ o = .ok () ∧ c = true) := by
  cases c with
  | false => exact .of_ok Call.require_false ⟨rfl, .inl rfl⟩
  | true => exact .of_ok Call.require_true ⟨rfl, .inr ⟨rfl, rfl⟩⟩

/-- A call of which only the success counts. -/
theorem call_keeps : Keeps call w fun _ w' =>
    ∃ r env, w' = { w with env := env } ∧ w.env = .call r :: env := by
  refine answer_keeps.bind (by rintro e w' ⟨r, env, hr, -⟩; cases hr) ?_
  rintro r w' ⟨r', env, hr, rfl, a, henv, hf⟩
  cases hr
  refine result_keeps.mono ?_
  rintro o w' ⟨rfl, rfl⟩
  cases a with
  | call r' =>
    cases hf
    exact ⟨_, env, rfl, henv⟩
  | _ => cases hf

theorem opened_keeps (hw : At w₀ F O w) {d : Desc} : Keeps (opened d s) w fun o w' =>
    o = .ok s ∧ At w₀ (s :: F) O w' ∧ w'.desc s = d ∧ w'.env = w.env ∧
      ∀ t ∈ w.fds, w'.desc t = w.desc t := by
  by_cases hc : 0 ≤ s ∧ s ∉ w.fds
  · refine .of_ok (by unfold opened; rw [if_pos hc]) ?_
    have hdesc : ∀ t ∈ w.fds, Function.update w.desc s d t = w.desc t := by
      intro t ht
      have hne : t ≠ s := by
        rintro rfl
        exact hc.2 ht
      exact Function.update_of_ne hne _ _
    refine ⟨rfl, ⟨⟨?_, hw.heap, List.nodup_cons.mpr ⟨hc.2, hw.nodup_fds⟩, hw.nodup_heap, hw.nodup_addrs,
      hw.nodup_handles, ?_, ?_⟩, hw.socks, hw.stale, hw.calls⟩, Function.update_self _ _ _, rfl,
      hdesc⟩
    · exact (hw.fds.cons s).trans List.perm_middle.symm
    · intro p hp
      change p.2.kind.Suits (Function.update w.desc s d p.2.fd)
      rw [hdesc _ (hw.mem_of_held (held_of_sock hp))]
      exact hw.suits p hp
    · intro p hp
      exact (hw.waits p hp).mono (fun _ hq => hq)
        fun t ht => hdesc t (hw.mem_of_held (held_of_call hp ht))
  · exact .of_error (by unfold opened; rw [if_neg hc]) rfl

theorem descOf_keeps : Keeps (descOf s) w fun o w' =>
    w' = w ∧ (o = .error .EBADF ∨ s ∈ w.fds ∧ o = .ok (w.desc s)) := by
  by_cases hs : s ∈ w.fds
  · exact .of_ok (by unfold descOf; rw [if_pos hs]) ⟨rfl, .inr ⟨hs, rfl⟩⟩
  · exact .of_ok (by unfold descOf; rw [if_neg hs]) ⟨rfl, .inl rfl⟩

theorem socket_keeps (hw : At w₀ F O w) {family : Family} {type : SockType} :
    Keeps (socket family type) w fun o w' =>
      match o with
      | .error _ => At w₀ F O w'
      | .ok s => At w₀ (s :: F) O w' ∧ w'.desc s = ⟨some type, family, false, false⟩ := by
  refine answer_keeps.bind (by rintro e w' ⟨r, env, hr, -⟩; cases hr) ?_
  rintro r w' ⟨r', env, hr, rfl, -⟩
  refine result_keeps.bind ?_ ?_
  · rintro e w' ⟨-, rfl⟩
    exact hw.env env
  · rintro s w' ⟨-, rfl⟩
    refine (opened_keeps (hw.env env)).mono ?_
    rintro o w' ⟨rfl, hat, hdesc, -⟩
    exact ⟨hat, hdesc⟩

theorem fdUnblock_keeps (hw : At w₀ F O w) (hs : s ∈ F) : Keeps (fdUnblock s) w fun o w' =>
    o = .ok () ∧ At w₀ F O w' ∧ w'.desc s = { w.desc s with nonblock := true } ∧ w'.env = w.env ∧
      ∀ t, t ≠ s → w'.desc t = w.desc t := by
  refine .of_ok (by unfold fdUnblock; rw [if_pos (hw.mem_of_free hs)]) ?_
  exact ⟨rfl, hw.set hs _, Function.update_self _ _ _, rfl, fun t ht => Function.update_of_ne ht _ _⟩

theorem close_keeps (hw : At w₀ (s :: F) O w) : Keeps (close s) w fun o w' =>
    o = .ok () ∧ At w₀ F O w' ∧ w'.desc = w.desc ∧ w'.env = w.env := by
  refine .of_ok (by unfold close; rw [if_pos (hw.mem_of_free List.mem_cons_self)]) ?_
  refine ⟨rfl, ⟨⟨?_, hw.heap, hw.nodup_fds.erase s, hw.nodup_heap, hw.nodup_addrs, hw.nodup_handles,
    hw.suits, hw.waits⟩, hw.socks, hw.stale, hw.calls⟩, rfl, rfl⟩
  have hfds := (hw.fds.trans List.perm_middle).erase s
  rwa [List.erase_cons_head] at hfds

theorem fdClose_keeps (hw : At w₀ (s :: F) O w) : Keeps (fdClose s) w fun o w' =>
    o = .ok () ∧ At w₀ F O w' ∧ w'.desc = w.desc ∧ w'.env = w.env := by
  have hrun : fdClose s w = close s w := by
    unfold fdClose
    rw [if_neg (hw.free_not_waited List.mem_cons_self)]
  unfold Keeps Call.Meets
  rw [hrun]
  exact close_keeps hw

theorem listen_keeps (hw : At w₀ F O w) (hs : s ∈ F) : Keeps (listen s) w fun o w' =>
    At w₀ F O w' ∧ (o = .ok () → w'.desc s = { w.desc s with listening := true }) := by
  refine call_keeps.bind ?_ ?_
  · rintro e w' ⟨r, env, rfl, -⟩
    exact ⟨hw.env env, nofun⟩
  · rintro u w' ⟨r, env, rfl, -⟩
    exact .of_ok rfl ⟨(hw.env env).set hs _, fun _ => Function.update_self _ _ _⟩

theorem malloc_keeps (hw : At w₀ F O w) : Keeps malloc w fun o w' =>
    match o with
    | .error _ => At w₀ F O w' ∧ ∃ r, w.env = .malloc r :: w'.env
    | .ok a => At w₀ F (a :: O) w' ∧ a ∉ w₀.addrs ∧ w.env = .malloc (some a) :: w'.env ∧
        w'.desc = w.desc := by
  refine answer_keeps.bind (by rintro e w' ⟨r, env, hr, -⟩; cases hr) ?_
  rintro p w' ⟨r, env, hr, rfl, b, henv, hf⟩
  cases hr
  cases b with
  | malloc q =>
    cases hf
    cases p with
    | none => exact .fail ⟨hw.env env, none, henv⟩
    | some a =>
      by_cases hc : a ∈ w.heap ∨ a ∈ w.addrs
      · exact .of_error (if_pos hc) rfl
      · refine .of_ok (if_neg hc) ⟨?_, ?_, henv, rfl⟩
        · refine ⟨⟨hw.fds, ?_, hw.nodup_fds, List.nodup_cons.mpr ⟨?_, hw.nodup_heap⟩, hw.nodup_addrs,
            hw.nodup_handles, hw.suits, hw.waits⟩, hw.socks, hw.stale, hw.calls⟩
          · exact (hw.heap.cons a).trans List.perm_middle.symm
          · exact fun ha => hc (.inl ha)
        · rw [← hw.addrs]
          exact fun ha => hc (.inr ha)
  | _ => cases hf

theorem free_keeps (hw : At w₀ F (a :: O) w) : Keeps (free a) w fun o w' =>
    o = .ok () ∧ At w₀ F O w' ∧ w'.env = w.env := by
  have ha : a ∈ w.heap := hw.heap.mem_iff.mpr (List.mem_append_right _ List.mem_cons_self)
  refine .of_ok (by unfold free; rw [if_pos ha]) ?_
  refine ⟨rfl, ⟨⟨hw.fds, ?_, hw.nodup_fds, hw.nodup_heap.erase a, hw.nodup_addrs, hw.nodup_handles,
    hw.suits, hw.waits⟩, hw.socks, hw.stale, hw.calls⟩, rfl⟩
  have hheap := (hw.heap.trans List.perm_middle).erase a
  rwa [List.erase_cons_head] at hheap

theorem add_addrs : (w.add h x).addrs = x.addr :: w.addrs := rfl

/-- **A new socket.** It takes over its descriptor. -/
theorem make_keeps (hw : At w₀ (s :: F) O w) (hsuits : kind.Suits (w.desc s)) (ha : a ∉ w₀.addrs) :
    Keeps (make kind s a) w fun o w' =>
      match o with
      | .error e => At w₀ (s :: F) O w' ∧ w.env = .made (.error e) :: w'.env
      | .ok h => At (w₀.add h ⟨kind, s, a, true⟩) F O w' ∧ w.env = .made (.ok h) :: w'.env ∧
          w'.desc = w.desc := by
  refine answer_keeps.bind (by rintro e w' ⟨r, env, hr, -⟩; cases hr) ?_
  rintro r w' ⟨r', env, hr, rfl, b, henv, hf⟩
  cases hr
  cases b with
  | made q =>
    cases hf
    cases r with
    | error e =>
      refine result_keeps.bind ?_ ?_
      · rintro e' w' ⟨he, rfl⟩
        cases he
        exact ⟨hw.env env, henv⟩
      · rintro a w' ⟨h, -⟩
        cases h
    | ok h =>
      refine result_keeps.bind (by rintro e w' ⟨h, -⟩; cases h) ?_
      rintro h' w' ⟨hh, rfl⟩
      cases hh
      by_cases hc : 0 ≤ h ∧ h ∉ w.socks.map Prod.fst ∧ h ∉ w.stale
      · refine .of_ok (if_pos hc) ⟨?_, henv, rfl⟩
        refine ⟨⟨?_, ?_, hw.nodup_fds, hw.nodup_heap, ?_, ?_, ?_, ?_⟩, ?_, hw.stale, hw.calls⟩
        · change w.fds.Perm ((s :: w.held) ++ F)
          exact hw.fds.trans List.perm_middle
        · exact hw.heap
        · refine List.nodup_cons.mpr ⟨?_, hw.nodup_addrs⟩
          change a ∉ w.addrs
          rwa [hw.addrs]
        · refine List.nodup_cons.mpr ⟨?_, hw.nodup_handles⟩
          change h ∉ w.socks.map Prod.fst ++ w.stale
          rw [List.mem_append]
          exact fun hmem => hmem.elim hc.2.1 hc.2.2
        · intro p hp
          obtain rfl | hp := List.mem_cons.mp hp
          · exact hsuits
          · exact hw.suits p hp
        · intro p hp
          exact (hw.waits p hp).mono (fun _ hq => List.mem_cons_of_mem _ hq) fun _ _ => rfl
        · change (h, _) :: w.socks = (h, _) :: w₀.socks
          rw [hw.socks]
      · exact .of_error (if_neg hc) rfl
  | _ => cases hf

/-! ## Objects -/

/-- **The memory passes to the socket.** -/
theorem own_keeps (hw : At (w₀.add h ⟨kind, s, a, true⟩) F (a :: O) w) :
    Keeps (own a) w fun o w' =>
      o = .ok () ∧ At (w₀.add h ⟨kind, s, a, false⟩) F O w' ∧ w'.env = w.env ∧ w'.desc = w.desc := by
  have hsocks : w.socks = (h, ⟨kind, s, a, true⟩) :: w₀.socks := hw.socks
  have hother : ∀ p ∈ w₀.socks, p.2.addr ≠ a := by
    intro p hp heq
    have hnodup := hw.nodup_addrs
    unfold World.addrs at hnodup
    rw [hsocks] at hnodup
    have hmem : p.2.addr ∈ w₀.socks.map (·.2.addr) := List.mem_map_of_mem hp
    rw [heq] at hmem
    exact (List.nodup_cons.mp hnodup).1 (List.mem_append_left _ hmem)
  have hnew : (w.own a).socks = (h, ⟨kind, s, a, false⟩) :: w₀.socks := by
    change w.socks.map _ = _
    rw [hsocks, List.map_cons, if_pos rfl]
    refine congrArg _ ?_
    refine (List.map_congr_left fun p hp => ?_).trans (List.map_id _)
    exact if_neg (hother p hp)
  have hheld : (w.own a).held = w.held := by
    unfold World.held
    rw [hnew, hsocks]
    rfl
  have hblocks : (w.own a).blocks = a :: w.blocks := by
    unfold World.blocks
    rw [hnew, hsocks]
    rfl
  refine .of_ok rfl ⟨rfl, ⟨⟨?_, ?_, hw.nodup_fds, hw.nodup_heap, ?_, ?_, ?_, ?_⟩, hnew, hw.stale,
    hw.calls⟩, rfl, rfl⟩
  · rw [hheld]
    exact hw.fds
  · rw [hblocks]
    exact hw.heap.trans List.perm_middle
  · have hnodup := hw.nodup_addrs
    unfold World.addrs at hnodup ⊢
    rw [hsocks] at hnodup
    rw [hnew]
    exact hnodup
  · have hnodup := hw.nodup_handles
    rw [hsocks] at hnodup
    rw [hnew]
    exact hnodup
  · intro p hp
    rw [hnew] at hp
    obtain rfl | hp := List.mem_cons.mp hp
    · refine hw.suits (h, ⟨kind, s, a, true⟩) ?_
      rw [hsocks]
      exact List.mem_cons_self
    · refine hw.suits p ?_
      rw [hsocks]
      exact List.mem_cons_of_mem _ hp
  · intro p hp
    refine (hw.waits p hp).keeps ?_ fun _ _ => rfl
    intro q hq _
    rw [hsocks] at hq
    rw [hnew]
    obtain rfl | hq := List.mem_cons.mp hq
    · exact ⟨_, List.mem_cons_self, rfl, rfl, rfl⟩
    · exact ⟨q, List.mem_cons_of_mem _ hq, rfl, rfl, rfl⟩

theorem self_keeps (hh : h ∉ w.stale) : Keeps (self h) w fun o w' =>
    w' = w ∧ match o with
      | .error _ => True
      | .ok x => (h, x) ∈ w.socks := by
  unfold Keeps Call.Meets self
  rw [if_neg hh]
  cases hl : w.socks.lookup h with
  | none => exact ⟨rfl, trivial⟩
  | some x =>
    obtain ⟨l₁, l₂, heq, -⟩ := List.lookup_eq_some_iff.mp hl
    refine ⟨rfl, ?_⟩
    rw [heq]
    exact List.mem_append_right _ List.mem_cons_self

theorem hquery_keeps (hh : h ∉ w.stale) : Keeps (hquery h kind) w fun o w' =>
    w' = w ∧ match o with
      | .error _ => True
      | .ok x => (h, x) ∈ w.socks ∧ x.kind = kind := by
  refine (self_keeps hh).bind (fun e w' h => h) ?_
  rintro x w' ⟨rfl, hx⟩
  cases hk : x.kind == kind with
  | false => exact .of_ok (Call.bind_fail Call.require_false) ⟨rfl, trivial⟩
  | true => exact .of_ok (Call.bind_ret Call.require_true) ⟨rfl, hx, beq_iff_eq.mp hk⟩

/-- The close callback has been run. -/
def World.shut (w : World) (x : Sock) : World :=
  { w with fds := w.fds.erase x.fd, heap := if x.mem then w.heap else w.heap.erase x.addr }

/-- Nobody waits for the descriptor of a socket. -/
def World.Idle (w : World) (x : Sock) : Prop := ∀ p ∈ w.calls, p.fd ≠ x.fd

theorem Books.block_of_sock (hb : Books w F O) (hx : (h, x) ∈ w.socks) (hmem : x.mem = false) :
    x.addr ∈ w.heap := by
  refine hb.heap.mem_iff.mpr (List.mem_append_left _ (List.mem_append_left _ ?_))
  refine List.mem_flatMap.mpr ⟨(h, x), hx, ?_⟩
  unfold Sock.blocks
  rw [hmem]
  exact List.mem_singleton.mpr rfl

theorem closeCallback_run (hb : Books w F O) (hx : (h, x) ∈ w.socks) (hidle : w.Idle x) :
    closeCallback x w = .ok (.ok (), w.shut x) := by
  have hfd : fdClose x.fd w = .ok (.ok (), { w with fds := w.fds.erase x.fd }) := by
    unfold fdClose close
    rw [if_neg, if_pos (hb.mem_of_held (held_of_sock hx))]
    intro hmem
    obtain ⟨p, hp, heq⟩ := List.mem_map.mp hmem
    exact hidle p hp heq
  unfold closeCallback
  refine (Call.bind_ret hfd).trans ?_
  unfold World.shut
  cases hmem : x.mem with
  | true => rfl
  | false =>
    unfold free
    exact if_pos (hb.block_of_sock hx hmem)

/-- **A socket goes.** -/
theorem At.remove (hw : At w₀ F O w) (hx : (h, x) ∈ w₀.socks) (hidle : w₀.Idle x) {stale : List ℤ}
    (hstale : ((w₀.socks.erase (h, x)).map Prod.fst ++ stale).Nodup) :
    At { w₀ with socks := w₀.socks.erase (h, x), stale := stale } F O
      { w.shut x with socks := w.socks.erase (h, x), stale := stale } := by
  have hperm : w.socks.Perm ((h, x) :: w.socks.erase (h, x)) :=
    List.perm_cons_erase (hw.socks ▸ hx)
  have hheld : w.held.Perm (x.fd :: ((w.socks.erase (h, x)).map (·.2.fd) ++
      w.calls.flatMap Pending.fds)) := (hperm.map (·.2.fd)).append_right _
  have hblocks : w.blocks.Perm (x.blocks ++ ((w.socks.erase (h, x)).flatMap (·.2.blocks) ++
      w.calls.flatMap Pending.blocks)) := by
    rw [← List.append_assoc]
    exact (hperm.flatMap_right (·.2.blocks)).append_right _
  have haddrs : w.addrs.Perm (x.addr :: ((w.socks.erase (h, x)).map (·.2.addr) ++
      w.calls.flatMap Pending.addrs)) := (hperm.map (·.2.addr)).append_right _
  refine ⟨⟨?_, ?_, hw.nodup_fds.erase _, ?_, ?_, ?_, ?_, ?_⟩, ?_, rfl, hw.calls⟩
  · have hfds := (hw.fds.trans (hheld.append_right F)).erase x.fd
    rwa [List.cons_append, List.erase_cons_head] at hfds
  · have hheap := hw.heap.trans (hblocks.append_right O)
    change (if x.mem then w.heap else w.heap.erase x.addr).Perm _
    unfold Sock.blocks at hheap
    cases hmem : x.mem with
    | true =>
      rw [hmem] at hheap
      exact hheap
    | false =>
      rw [hmem] at hheap
      have herase := hheap.erase x.addr
      rwa [if_neg Bool.false_ne_true, List.append_assoc, List.singleton_append,
        List.erase_cons_head] at herase
  · change (if x.mem then w.heap else w.heap.erase x.addr).Nodup
    split
    · exact hw.nodup_heap
    · exact hw.nodup_heap.erase _
  · exact (List.nodup_cons.mp (haddrs.nodup_iff.mp hw.nodup_addrs)).2
  · change ((w.socks.erase (h, x)).map Prod.fst ++ stale).Nodup
    rwa [hw.socks]
  · intro p hp
    exact hw.suits p (List.mem_of_mem_erase hp)
  · intro p hp
    refine (hw.waits p hp).keeps ?_ fun _ _ => rfl
    intro q hq hfd
    have hne : q ≠ (h, x) := by
      rintro rfl
      exact hidle p (hw.calls ▸ hp) hfd.symm
    exact ⟨q, (List.mem_erase_of_ne hne).mpr hq, rfl, rfl, rfl⟩
  · change w.socks.erase (h, x) = w₀.socks.erase (h, x)
    rw [hw.socks]

theorem Books.sock_unique (hb : Books w F O) {y : Sock} (hx : (h, x) ∈ w.socks)
    (hy : (h, y) ∈ w.socks) : y = x := by
  have hnodup := (List.nodup_append.mp hb.nodup_handles).1
  have heq := List.inj_on_of_nodup_map hnodup hy hx rfl
  exact congrArg Prod.snd heq

theorem Books.not_stale (hb : Books w F O) (hx : (h, x) ∈ w.socks) : h ∉ w.stale :=
  fun hs => (List.nodup_append.mp hb.nodup_handles).2.2 h (List.mem_map_of_mem hx) h hs rfl

theorem self_run (hb : Books w F O) (hx : (h, x) ∈ w.socks) : self h w = .ok (.ok x, w) := by
  unfold self
  rw [if_neg (hb.not_stale hx)]
  have hsome : (w.socks.lookup h).isSome :=
    List.lookup_isSome_iff.mpr ⟨(h, x), hx, beq_self_eq_true h⟩
  obtain ⟨y, hy⟩ := Option.isSome_iff_exists.mp hsome
  obtain ⟨l₁, l₂, heq, -⟩ := List.lookup_eq_some_iff.mp hy
  have hmem : (h, y) ∈ w.socks := by
    rw [heq]
    exact List.mem_append_right _ List.mem_cons_self
  rw [hy, hb.sock_unique hx hmem]

/-- The world without a socket. -/
def World.drop (w : World) (h : ℤ) (x : Sock) : World := { w with socks := w.socks.erase (h, x) }

/-- The world without a socket whose handle stays. -/
def World.strand (w : World) (h : ℤ) (x : Sock) : World :=
  { w with socks := w.socks.erase (h, x), stale := h :: w.stale }

theorem At.handles_perm (hw : At w₀ F O w) (hx : (h, x) ∈ w₀.socks) :
    (h :: ((w₀.socks.erase (h, x)).map Prod.fst ++ w₀.stale)).Nodup := by
  have hperm := ((List.perm_cons_erase hx).map Prod.fst).append_right w₀.stale
  have hnodup := hw.nodup_handles
  rw [hw.socks, hw.stale] at hnodup
  exact hperm.nodup_iff.mp hnodup

theorem At.idle (hw : At w₀ F O w) (hidle : w₀.Idle x) : w.Idle x :=
  fun p hp => hidle p (hw.calls ▸ hp)

theorem At.mem (hw : At w₀ F O w) (hx : (h, x) ∈ w₀.socks) : (h, x) ∈ w.socks := by
  rwa [hw.socks]

theorem hclose_keeps (hw : At w₀ F O w) (hx : (h, x) ∈ w₀.socks) (hidle : w₀.Idle x) :
    Keeps (hclose h) w fun o w' => o = .ok () ∧ At (w₀.drop h x) F O w' ∧ w'.env = w.env := by
  have hrun : hclose h w = .ok (.ok (), (w.shut x).drop h x) := by
    unfold hclose
    refine (Call.bind_ret (self_run hw.toBooks (hw.mem hx))).trans ?_
    exact (Call.bind_ret (closeCallback_run hw.toBooks (hw.mem hx) (hw.idle hidle))).trans rfl
  refine .of_ok hrun ⟨rfl, ?_⟩
  have hat := hw.remove hx hidle (List.nodup_cons.mp (hw.handles_perm hx)).2
  rw [← hw.stale] at hat
  exact ⟨⟨hat.toBooks, hat.socks, hw.stale, hat.calls⟩, rfl⟩

theorem closeObject_keeps (hw : At w₀ F O w) (hx : (h, x) ∈ w₀.socks) (hidle : w₀.Idle x) :
    Keeps (closeObject h x) w fun o w' => o = .ok () ∧ At (w₀.strand h x) F O w' := by
  have hrun : closeObject h x w = .ok (.ok (), (w.shut x).strand h x) := by
    unfold closeObject
    exact (Call.bind_ret (closeCallback_run hw.toBooks (hw.mem hx) (hw.idle hidle))).trans rfl
  refine .of_ok hrun ⟨rfl, ?_⟩
  have hat := hw.remove hx hidle (List.perm_middle.symm.nodup_iff.mp (hw.handles_perm hx))
  rw [← hw.stale] at hat
  refine ⟨hat.toBooks, hat.socks, ?_, hat.calls⟩
  change h :: w.stale = h :: w₀.stale
  rw [hw.stale]

/-- The last socket that has come is closed again. -/
theorem hclose_new_keeps (hw : At (w₀.add h x) F O w) (hidle : w₀.Idle x) :
    Keeps (hclose h) w fun o w' => o = .ok () ∧ At w₀ F O w' ∧ w'.env = w.env := by
  refine (hclose_keeps (x := x) hw List.mem_cons_self hidle).mono ?_
  rintro o w' ⟨rfl, hat, henv⟩
  refine ⟨rfl, ⟨hat.toBooks, hat.socks.trans ?_, hat.stale, hat.calls⟩, henv⟩
  exact List.erase_cons_head ..

end Libdill.Ledger
