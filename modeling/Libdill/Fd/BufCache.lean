import Libdill.Fd.Recv
import Libdill.Foundations.Pool
import Libdill.Foundations.Run
import Libdill.Utils.Queues
import Mathlib.Data.Int.Notation
import Mathlib.Data.List.Pairwise

/-!
# The cache of receive buffers

A connection gets its receive buffer when it first needs one and loses it when the buffer has been
read out, or when the connection is closed; `fd.c` keeps up to 32 buffers that are not in use in a
`dill_slist`, whose nodes are the first bytes of the buffers. Unlike `dill_freestack`,
`dill_fd_freebuf` frees the buffer it is passed when the cache is full.
-/

namespace Libdill.Fd

open Foundations Libdill.Utils

/-- `DILL_FD_CACHESIZE`. -/
def cachesize : ℕ := 32

/-- Why the program would be stopped. -/
inductive BufStop
  /-- `free` of a block that is not allocated. -/
  | badFree
  /-- A loop would not end. -/
  | diverge
  deriving DecidableEq, Repr

/-- `struct dill_ctx_fd`, the receive buffers of the connections (`rxbuf.buf`), and the memory.
`conns` is history: the connections that are open. -/
structure Bufs where
  nodes : Nodes ℕ
  /-- The address of `ctx->cache`. -/
  cache : ℕ
  count : ℤ
  heap : List ℕ
  rxbuf : ℕ → Option ℕ
  conns : List ℕ

namespace Bufs

/-- `free`. -/
def free (s : Bufs) (ptr : ℕ) : Except BufStop Bufs :=
  if ptr ∉ s.heap then .error .badFree else .ok { s with heap := s.heap.erase ptr }

/-- `dill_ctx_fd_init`. -/
def ctxInit (s : Bufs) : Bufs := { s with count := 0, nodes := s.nodes.slistInit s.cache }

/-- The loop of `dill_ctx_fd_term`; the number bounds its turns. -/
def ctxTerm : ℕ → Bufs → Except BufStop Bufs
  | n, s =>
    let p := s.nodes.slistPop s.cache
    let s := { s with nodes := p.2 }
    if p.1 = s.cache then .ok s
    else
      match n with
      | 0 => .error .diverge
      | n + 1 => do
        let s ← s.free p.1
        ctxTerm n s

/-- `dill_fd_allocbuf`; `mem` is what `malloc` returns. -/
def allocbuf (s : Bufs) (mem : Option ℕ) : Option ℕ × Bufs :=
  let p := s.nodes.slistPop s.cache
  let s := { s with nodes := p.2 }
  if p.1 ≠ s.cache then (some p.1, { s with count := s.count - 1 })
  else
    match mem with
    | none => (none, s)
    | some ptr => (some ptr, { s with heap := ptr :: s.heap })

/-- `dill_fd_freebuf`. -/
def freebuf (s : Bufs) (buf : ℕ) : Except BufStop Bufs :=
  if s.count ≥ cachesize then s.free buf
  else .ok { s with nodes := s.nodes.slistPush s.cache buf, count := s.count + 1 }

/-- `dill_fd_initrxbuf`, for a new connection. -/
def initrxbuf (s : Bufs) (c : ℕ) : Bufs :=
  { s with rxbuf := Function.update s.rxbuf c none, conns := c :: s.conns }

/-- `dill_fd_termrxbuf`, for a connection that is closed. -/
def termrxbuf (s : Bufs) (c : ℕ) : Except BufStop Bufs := do
  let s ←
    match s.rxbuf c with
    | some buf => s.freebuf buf
    | none => .ok s
  .ok { s with conns := s.conns.erase c }

/-- The part of `dill_fd_recv` that sees to it that there is a buffer. -/
def fill (s : Bufs) (c : ℕ) (mem : Option ℕ) : Bufs :=
  match s.rxbuf c with
  | some _ => s
  | none =>
    let r := s.allocbuf mem
    { r.2 with rxbuf := Function.update r.2.rxbuf c r.1 }

/-- The part of `dill_fd_copy` that gives the buffer away when it has been read out. -/
def drain (s : Bufs) (c : ℕ) : Except BufStop Bufs := do
  match s.rxbuf c with
  | some buf =>
    let s ← s.freebuf buf
    .ok { s with rxbuf := Function.update s.rxbuf c none }
  | none => .ok s

/-- What happens to the buffers. -/
inductive Op
  | init (c : ℕ)
  | term (c : ℕ)
  | fill (c : ℕ) (mem : Option ℕ)
  | drain (c : ℕ)
  /-- The program stores to a word of its memory. -/
  | store (p v : ℕ)

def step (s : Bufs) : Op → Except BufStop Bufs
  | .init c => .ok (s.initrxbuf c)
  | .term c => s.termrxbuf c
  | .fill c mem => .ok (s.fill c mem)
  | .drain c => s.drain c
  | .store p v => .ok { s with nodes := s.nodes.setNext p v }

/-- Two buffers do not overlap. -/
def Apart (b b' : ℕ) : Prop := b + bufsize ≤ b' ∨ b' + bufsize ≤ b

/-- Connections are opened before they are used, `malloc` returns memory that is in use for nothing
else, and nothing is stored to `ctx->cache` or to a buffer that no connection has. -/
def Allowed (s : Bufs) : Op → Prop
  | .init c => c ∉ s.conns
  | .term c => c ∈ s.conns
  | .fill c mem => c ∈ s.conns ∧ ∀ ptr, mem = some ptr → ptr ≠ s.cache ∧ ∀ b ∈ s.heap, Apart ptr b
  | .drain c => c ∈ s.conns
  | .store p _ => p ≠ s.cache ∧ (p ∈ s.heap → ∃ c ∈ s.conns, s.rxbuf c = some p)

/-- There are no connections yet. -/
def IsInit (s : Bufs) : Prop := ∃ s₀ : Bufs, s₀.heap = [] ∧ s₀.conns = [] ∧ s = s₀.ctxInit

/-- The buffers of the connections. -/
def held (s : Bufs) : List ℕ := s.conns.filterMap s.rxbuf

variable {s s' : Bufs} {b c ptr : ℕ} {bs : List ℕ}

/-! ## The buffers of the connections -/

instance symm_apart : Std.Symm Apart := ⟨fun _ _ => Or.symm⟩

theorem Apart.ne (h : Apart b ptr) : b ≠ ptr := by
  unfold Apart bufsize at h
  omega

theorem filterMap_update {f : ℕ → Option ℕ} {l : List ℕ} (hc : c ∉ l) (o : Option ℕ) :
    l.filterMap (Function.update f c o) = l.filterMap f :=
  List.filterMap_congr fun _ hx => Function.update_of_ne (ne_of_mem_of_not_mem hx hc) _ _

/-- The buffer of one connection, and those of the others. -/
theorem held_perm {f : ℕ → Option ℕ} {l : List ℕ} (hc : c ∈ l) :
    (l.filterMap f).Perm ((f c).toList ++ (l.erase c).filterMap f) := by
  have hp := (List.perm_cons_erase hc).filterMap f
  rw [List.filterMap_cons] at hp
  cases hf : f c with
  | none =>
    rw [hf] at hp
    exact hp
  | some b =>
    rw [hf] at hp
    exact hp

theorem held_update {f : ℕ → Option ℕ} {l : List ℕ} (hc : c ∈ l) (hl : l.Nodup) (o : Option ℕ) :
    (l.filterMap (Function.update f c o)).Perm (o.toList ++ (l.erase c).filterMap f) := by
  have hp := held_perm (f := Function.update f c o) hc
  rwa [Function.update_self, filterMap_update hl.not_mem_erase] at hp

/-- The cache holds the buffers `bs`, and every other buffer is one of `out`. -/
structure Kept (s : Bufs) (out bs : List ℕ) : Prop where
  pool : Pool id s.nodes.next s.cache s.heap out bs
  count : s.count = bs.length
  room : bs.length ≤ cachesize
  apart : s.heap.Pairwise Apart

/-- **The invariant.** Every buffer is in the cache or belongs to a connection. -/
structure Inv (s : Bufs) : Prop where
  kept : ∃ bs, Kept s s.held bs
  conns : s.conns.Nodup

variable {out : List ℕ}

theorem Kept.perm (h : Kept s out bs) {out' : List ℕ} (hp : out.Perm out') : Kept s out' bs :=
  { h with pool := h.pool.perm hp }

/-! ## The functions -/

theorem free_eq (hb : b ∈ s.heap) : s.free b = .ok { s with heap := s.heap.erase b } := by
  rw [free, if_neg (not_not_intro hb)]

theorem Kept.take (h : Kept s out (b :: bs)) :
    (s.nodes.slistPop s.cache).1 = b ∧
      Kept { s with nodes := (s.nodes.slistPop s.cache).2, count := s.count - 1 } (b :: out) bs := by
  obtain ⟨hp, hr⟩ := h.pool.take
  have hp : s.nodes.next s.cache = b := hp
  refine ⟨hp, ?_, ?_, Nat.le_of_succ_le h.room, h.apart⟩
  · change Pool id (Function.update s.nodes.next s.cache (s.nodes.next (s.nodes.next s.cache)))
      _ _ _ _
    rw [hp]
    exact hr
  · change s.count - 1 = _
    rw [h.count, List.length_cons]
    omega

theorem Kept.free (h : Kept s (b :: out) bs) :
    b ∈ s.heap ∧ Kept { s with heap := s.heap.erase b } out bs := by
  obtain ⟨hb, hr⟩ := h.pool.release
  exact ⟨hb, hr, h.count, h.room, h.apart.sublist List.erase_sublist⟩

/-- **`dill_fd_allocbuf`** returns a buffer that nobody has. -/
theorem Kept.allocbuf (h : Kept s out bs) {mem : Option ℕ}
    (hm : ∀ ptr, mem = some ptr → ptr ≠ s.cache ∧ ∀ b ∈ s.heap, Apart ptr b) :
    ∃ bs', Kept (s.allocbuf mem).2 ((s.allocbuf mem).1.toList ++ out) bs' ∧
      (s.allocbuf mem).2.rxbuf = s.rxbuf ∧ (s.allocbuf mem).2.conns = s.conns := by
  cases bs with
  | nil =>
    have hp : (s.nodes.slistPop s.cache).1 = s.cache := h.pool.eq_head_iff.mpr rfl
    have hsame : Kept { s with nodes := (s.nodes.slistPop s.cache).2 } out [] := by
      refine { h with pool := { h.pool with ring := ?_ } }
      exact (Queues.slistPop_ring h.pool.ring h.pool.ring_nodup).2
    unfold Bufs.allocbuf
    simp only [hp, ne_eq, not_true_eq_false, if_false]
    cases mem with
    | none => exact ⟨[], hsame, rfl, rfl⟩
    | some ptr =>
      obtain ⟨hne, hap⟩ := hm ptr rfl
      refine ⟨[], ⟨hsame.pool.add ?_, h.count, h.room, List.pairwise_cons.mpr ⟨hap, h.apart⟩⟩, rfl, rfl⟩
      rw [List.map_id, List.mem_cons, not_or]
      exact ⟨hne, fun hin => (hap ptr hin).ne rfl⟩
  | cons b bs =>
    obtain ⟨hp, htake⟩ := h.take
    have hne : b ≠ s.cache := h.pool.node_ne (h.pool.mem_heap List.mem_cons_self)
    unfold Bufs.allocbuf
    simp only [hp, ne_eq, hne, not_false_eq_true, if_true]
    exact ⟨bs, htake, trivial, trivial⟩

/-- **`dill_fd_freebuf`** keeps the buffer, or frees it when there is no room. -/
theorem Kept.freebuf (h : Kept s (b :: out) bs) :
    ∃ s' bs', s.freebuf b = .ok s' ∧ Kept s' out bs' ∧ s'.rxbuf = s.rxbuf ∧ s'.conns = s.conns := by
  by_cases hfull : s.count ≥ cachesize
  · obtain ⟨hb, hfree⟩ := h.free
    exact ⟨_, bs, by rw [Bufs.freebuf, if_pos hfull, free_eq hb], hfree, rfl, rfl⟩
  · have hroom : bs.length < cachesize := by
      rw [h.count] at hfull
      omega
    have hput := h.pool.put List.mem_cons_self
    rw [List.erase_cons_head] at hput
    refine ⟨{ s with nodes := s.nodes.slistPush s.cache b, count := s.count + 1 }, b :: bs,
      by rw [Bufs.freebuf, if_neg hfull], ⟨hput, ?_, hroom, h.apart⟩, rfl, rfl⟩
    change s.count + 1 = _
    rw [h.count, List.length_cons]
    omega

/-- **`dill_ctx_fd_term`** frees what is in the cache. It leaves the count as it is. -/
theorem ctxTerm_frees {n : ℕ} {count : ℤ} (h : Kept { s with count := count } out bs)
    (hn : bs.length ≤ n) : ∃ s', ctxTerm n s = .ok s' ∧ s'.heap.Perm out := by
  induction bs generalizing s n count with
  | nil =>
    have hp : (s.nodes.slistPop s.cache).1 = s.cache := h.pool.eq_head_iff.mpr rfl
    have hheap : s.heap.Perm (out ++ []) := h.pool.split
    rw [List.append_nil] at hheap
    refine ⟨{ s with nodes := (s.nodes.slistPop s.cache).2 }, ?_, hheap⟩
    unfold ctxTerm
    exact if_pos hp
  | cons b bs ih =>
    obtain ⟨hp, htake⟩ := h.take
    obtain ⟨hb, hfree⟩ := htake.free
    have hp : (s.nodes.slistPop s.cache).1 = b := hp
    have hb : b ∈ s.heap := hb
    have hne : b ≠ s.cache := h.pool.node_ne hb
    cases n with
    | zero => cases hn
    | succ n =>
      obtain ⟨s', hs', hperm⟩ := ih (s := { s with
        nodes := (s.nodes.slistPop s.cache).2, heap := s.heap.erase b }) hfree
        (Nat.le_of_succ_le_succ hn)
      refine ⟨s', ?_, hperm⟩
      unfold ctxTerm
      simp only [hp, if_neg hne]
      rw [free_eq (by exact hb)]
      exact hs'

/-! ## Runs -/

theorem Inv.initrxbuf (h : Inv s) (hc : c ∉ s.conns) : Inv (s.initrxbuf c) where
  kept := by
    obtain ⟨bs, hk⟩ := h.kept
    have hheld : (s.initrxbuf c).held = s.held := by
      change (c :: s.conns).filterMap (Function.update s.rxbuf c none) = _
      rw [List.filterMap_cons, Function.update_self, filterMap_update hc]
      rfl
    exact ⟨bs, by rw [hheld]; exact ⟨hk.pool, hk.count, hk.room, hk.apart⟩⟩
  conns := List.nodup_cons.mpr ⟨hc, h.conns⟩

/-- Giving away the buffer of a connection, if it has one. -/
theorem Inv.give (h : Inv s) (hc : c ∈ s.conns) :
    (s.rxbuf c = none ∧ ∃ bs, Kept s ((s.conns.erase c).filterMap s.rxbuf) bs) ∨
    ∃ buf s' bs, s.rxbuf c = some buf ∧ s.freebuf buf = .ok s' ∧
      Kept s' ((s.conns.erase c).filterMap s.rxbuf) bs ∧ s'.rxbuf = s.rxbuf ∧
        s'.conns = s.conns := by
  obtain ⟨bs, hk⟩ := h.kept
  have hk := hk.perm (held_perm hc)
  cases hb : s.rxbuf c with
  | none =>
    rw [hb] at hk
    exact .inl ⟨rfl, bs, hk⟩
  | some buf =>
    rw [hb] at hk
    obtain ⟨s', bs', he, hk', hrx, hcs⟩ := Kept.freebuf hk
    exact .inr ⟨buf, s', bs', rfl, he, hk', hrx, hcs⟩

theorem Inv.termrxbuf (h : Inv s) (hc : c ∈ s.conns) : ∃ s', s.termrxbuf c = .ok s' ∧ Inv s' := by
  rcases h.give hc with ⟨hnone, bs, hk⟩ | ⟨buf, s', bs, hsome, he, hk, hrx, hcs⟩
  · refine ⟨{ s with conns := s.conns.erase c }, ?_, ⟨bs, ?_⟩, h.conns.erase c⟩
    · rw [Bufs.termrxbuf, hnone]
      rfl
    · exact ⟨hk.pool, hk.count, hk.room, hk.apart⟩
  · refine ⟨{ s' with conns := s'.conns.erase c }, ?_, ⟨bs, ?_⟩, by rw [hcs]; exact h.conns.erase c⟩
    · rw [Bufs.termrxbuf, hsome]
      simp only [he]
      rfl
    · change Kept _ ((s'.conns.erase c).filterMap s'.rxbuf) bs
      rw [hrx, hcs]
      exact ⟨hk.pool, hk.count, hk.room, hk.apart⟩

theorem Inv.drain (h : Inv s) (hc : c ∈ s.conns) : ∃ s', s.drain c = .ok s' ∧ Inv s' := by
  rcases h.give hc with ⟨hnone, -⟩ | ⟨buf, s', bs, hsome, he, hk, hrx, hcs⟩
  · exact ⟨s, by rw [Bufs.drain, hnone], h⟩
  · refine ⟨{ s' with rxbuf := Function.update s'.rxbuf c none }, ?_, ⟨bs, ?_⟩, hcs ▸ h.conns⟩
    · rw [Bufs.drain, hsome]
      simp only [he]
      rfl
    · refine (Kept.perm (s := { s' with rxbuf := Function.update s'.rxbuf c none })
        ⟨hk.pool, hk.count, hk.room, hk.apart⟩ ?_)
      change (((s.conns.erase c).filterMap s.rxbuf)).Perm
        (s'.conns.filterMap (Function.update s'.rxbuf c none))
      rw [hrx, hcs]
      exact (held_update hc h.conns none).symm

theorem Inv.fill (h : Inv s) (hc : c ∈ s.conns) {mem : Option ℕ}
    (hm : ∀ ptr, mem = some ptr → ptr ≠ s.cache ∧ ∀ b ∈ s.heap, Apart ptr b) :
    Inv (s.fill c mem) := by
  unfold Bufs.fill
  split
  · exact h
  rename_i hnone
  obtain ⟨bs, hk⟩ := h.kept
  have hk := hk.perm (held_perm hc)
  rw [hnone] at hk
  obtain ⟨bs', hk', hrx, hcs⟩ := hk.allocbuf hm
  refine ⟨⟨bs', ?_⟩, by rw [hcs]; exact h.conns⟩
  refine Kept.perm (s := { (s.allocbuf mem).2 with
    rxbuf := Function.update (s.allocbuf mem).2.rxbuf c (s.allocbuf mem).1 })
    ⟨hk'.pool, hk'.count, hk'.room, hk'.apart⟩ ?_
  change ((s.allocbuf mem).1.toList ++ (s.conns.erase c).filterMap s.rxbuf).Perm
    ((s.allocbuf mem).2.conns.filterMap
      (Function.update (s.allocbuf mem).2.rxbuf c (s.allocbuf mem).1))
  rw [hrx, hcs]
  exact (held_update hc h.conns _).symm

theorem Inv.step {op : Op} (h : Inv s) (ha : s.Allowed op) : ∃ s', s.step op = .ok s' ∧ Inv s' := by
  cases op with
  | init c => exact ⟨_, rfl, h.initrxbuf ha⟩
  | term c => exact h.termrxbuf ha
  | fill c mem => exact ⟨_, rfl, h.fill ha.1 ha.2⟩
  | drain c => exact h.drain ha
  | store p v =>
    obtain ⟨bs, hk⟩ := h.kept
    refine ⟨_, rfl, ⟨bs, hk.pool.store (fun hp => ?_) v, hk.count, hk.room, hk.apart⟩, h.conns⟩
    rw [List.map_id] at hp
    rcases List.mem_cons.mp hp with rfl | hp
    · exact ha.1 rfl
    · obtain ⟨c, hc, hb⟩ := ha.2 (hk.pool.mem_heap hp)
      exact hk.pool.out_notMem (List.mem_filterMap.mpr ⟨c, hc, hb⟩) hp

theorem Inv.start (hs : s.IsInit) : Inv s := by
  obtain ⟨⟨nodes, cache, count, heap, rxbuf, conns⟩, rfl, rfl, rfl⟩ := hs
  exact ⟨⟨[], .empty (Function.update_self _ _ _), rfl, Nat.zero_le _, .nil⟩, .nil⟩

end Bufs

open Bufs

/-- **The cache of buffers is safe.** In every run, whatever `malloc` and the connections do: a
connection that has a buffer has one that is allocated and overlaps that of no other connection; at
most 32 more buffers are kept; no operation frees memory that is not allocated; and at the end of
the program `dill_ctx_fd_term` leaves the buffers of the open connections allocated and no
others. -/
theorem bufs_safe {s : Bufs} (hs : Reach Bufs.step IsInit Allowed s) :
    (∀ c ∈ s.conns, ∀ b, s.rxbuf c = some b → b ∈ s.heap ∧
      ∀ c' ∈ s.conns, c' ≠ c → ∀ b', s.rxbuf c' = some b' → Apart b b') ∧
    (0 ≤ s.count ∧ s.count ≤ cachesize ∧ (s.heap.length : ℤ) = s.held.length + s.count) ∧
    (∀ op, s.Allowed op → ∃ s', s.step op = .ok s') ∧
    ∃ s', s.ctxTerm s.count.toNat = .ok s' ∧ s'.heap.Perm s.held := by
  have h : Inv s := by
    refine Reach.invariant (I := Inv) (fun s hi => Inv.start hi) ?_ hs
    intro s op s' hinv ha he
    obtain ⟨s₁, he', hinv'⟩ := hinv.step ha
    rw [he'] at he
    cases he
    exact hinv'
  obtain ⟨bs, hk⟩ := h.kept
  refine ⟨fun c hc b hb => ?_, ⟨?_, ?_, ?_⟩, fun op ha => ?_, ?_⟩
  · have hin : b ∈ s.held := List.mem_filterMap.mpr ⟨c, hc, hb⟩
    refine ⟨hk.pool.out_mem hin, fun c' hc' hne b' hb' => ?_⟩
    have hin' : b' ∈ s.held := List.mem_filterMap.mpr ⟨c', hc', hb'⟩
    have hb'' : b' ∈ (s.conns.erase c).filterMap s.rxbuf :=
      List.mem_filterMap.mpr ⟨c', (List.mem_erase_of_ne hne).mpr hc', hb'⟩
    have hnd := (held_perm (f := s.rxbuf) hc).nodup_iff.mp hk.pool.out_nodup
    rw [hb] at hnd
    have hne' : b ≠ b' := fun e => (List.nodup_cons.mp hnd).1 (e ▸ hb'')
    exact hk.apart.forall (hk.pool.out_mem hin) (hk.pool.out_mem hin') hne'
  · rw [hk.count]
    exact Int.natCast_nonneg _
  · rw [hk.count]
    exact Int.ofNat_le.mpr hk.room
  · rw [hk.count, hk.pool.split.length_eq, List.length_append]
    rfl
  · obtain ⟨s', he, -⟩ := h.step ha
    exact ⟨s', he⟩
  · exact @ctxTerm_frees _ _ _ _ s.count hk (by rw [hk.count]; exact Nat.le_refl _)

/-- No connection yet, and the cache at address 64. -/
def noBufs : Bufs :=
  ctxInit { nodes := ⟨fun _ => 0, fun _ => 0⟩, cache := 64, count := 0, heap := [],
            rxbuf := fun _ => none, conns := [] }

/-- The buffer of a connection goes through the cache to another one. -/
theorem bufs_safe_two : ∃ s, Reach Bufs.step IsInit Allowed s ∧ s.conns = [1] ∧
    s.rxbuf 1 = some 4096 ∧ 4096 ∈ s.heap ∧ s.count ≤ cachesize := by
  have h₀ : Reach Bufs.step IsInit Allowed noBufs := .init ⟨_, rfl, rfl, rfl⟩
  have h₁ := Reach.step (.init 0) h₀ (by exact nofun) rfl
  have hok : (noBufs.initrxbuf 0).Allowed (.fill 0 (some 4096)) := by
    refine ⟨List.mem_cons_self, ?_⟩
    rintro ptr ⟨⟩
    exact ⟨by decide, nofun⟩
  have h₂ := Reach.step (.fill 0 (some 4096)) h₁ hok rfl
  have h₃ := Reach.step (.term 0) h₂ (by exact List.mem_cons_self) rfl
  have h₄ := Reach.step (.init 1) h₃ (by exact nofun) rfl
  have h₅ := Reach.step (.fill 1 none) h₄ (by exact ⟨List.mem_cons_self, nofun⟩) rfl
  obtain ⟨hconn, hcount, -⟩ := bufs_safe h₅
  exact ⟨_, h₅, rfl, rfl, (hconn 1 (.head _) 4096 rfl).1, hcount.2.1⟩

end Libdill.Fd
