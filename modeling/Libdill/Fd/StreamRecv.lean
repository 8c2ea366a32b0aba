import Libdill.Fd.Stream

/-!
# Receives on a connection

What `conn` makes of an iolist.

* `conn_brecvl`: however the bytes arrive, a receive gets as many as it asks for unless it runs off
  the end of the iolist or is refused by the kernel.
* `conn_fails`: it does not if nothing is in the receive buffer.
* `conn_refused`, `conn_accepted`: exactly when the kernel refuses a receive.
* `conn_ahead`: how many bytes may be in the receive buffer behind those that have been received.
-/

namespace Libdill.Fd

open Libdill.Sock

variable {rx : RxBuf} {n k : ℕ}

/-! ## What is in the receive buffer -/

/-- What is left of an iolist when the buffer is used up is shorter than what is left of it behind
its first elements, if these are empty. -/
theorem fill_length_le (h : rx.Filled) (l : List ℕ) :
    (rx.fill l).2.2.length ≤ (l.dropWhile (· == 0)).length := by
  induction l generalizing rx with
  | nil => exact le_refl _
  | cons n l ih =>
    obtain ⟨-, -, hfilled⟩ := rx.copy_spec h n
    have hrest := ih hfilled
    have htail := (List.dropWhile_suffix (l := l) (· == 0)).length_le
    unfold RxBuf.fill
    simp only
    split
    · rename_i hlt
      have hn : (n == 0) = false := by
        rw [beq_eq_false_iff_ne]
        omega
      rw [List.dropWhile_cons_of_neg (by rw [hn]; exact Bool.false_ne_true)]
      exact le_refl _
    · change ((rx.copy n).2.fill l).2.2.length ≤ _
      by_cases hn : n = 0
      · rw [hn, List.dropWhile_cons_of_pos (by rfl)]
        rw [hn] at hrest
        exact hrest
      · rw [List.dropWhile_cons_of_neg (by simpa using hn), List.length_cons]
        omega

theorem fill_empty (h : rx.Filled) (hempty : rx.unread = []) (l : List ℕ) :
    (rx.fill l).2.2 = l.dropWhile (· == 0) := by
  have hcopy : ∀ n, rx.copy n = ([], rx) := by
    intro n
    have hlen := rx.unread_length h
    rw [hempty, List.length_nil] at hlen
    unfold RxBuf.copy
    simp only
    rw [if_pos hlen.symm]
  induction l with
  | nil => rfl
  | cons n l ih =>
    unfold RxBuf.fill
    simp only [hcopy, List.length_nil, Nat.sub_zero]
    by_cases hn : n = 0
    · rw [if_neg (by omega), hn, List.dropWhile_cons_of_pos (by rfl)]
      exact ih
    · rw [if_pos (by omega), List.dropWhile_cons_of_neg (by simpa using hn)]


/-- What the receive buffer holds has been used up, or all elements have been filled. -/
theorem drained_spec {rx : Option RxBuf} (h : Filled rx) (lens : List ℕ) :
    unread rx = (drained rx lens).1 ++ unread (drained rx lens).2.1 ∧
      Filled (drained rx lens).2.1 ∧
      ((drained rx lens).2.2 ≠ [] → unread (drained rx lens).2.1 = []) ∧
      (drained rx lens).2.1.isSome = rx.isSome ∧
      (drained rx lens).1.length + (drained rx lens).2.2.sum = lens.sum := by
  cases rx with
  | none => exact ⟨rfl, trivial, fun _ => rfl, rfl, Nat.zero_add _⟩
  | some rx =>
    obtain ⟨hsplit, hfilled, hempty⟩ := RxBuf.fill_spec h lens
    exact ⟨hsplit, hfilled, hempty, rfl, (fill_left h lens).1⟩

/-- No more elements are left than there are in the worst case. -/
theorem drained_length_le {link : Link} {rx : Option RxBuf} (h : Filled rx)
    (hlink : rx.isSome = link.hasBuffer) (lens : List ℕ) :
    (drained rx lens).2.2.length ≤ (link.behind lens).length := by
  cases link with
  | tcp =>
    obtain ⟨rx, rfl⟩ := Option.isSome_iff_exists.mp hlink
    exact fill_length_le h lens
  | ipc =>
    cases rx with
    | none => exact le_rfl
    | some rx => cases hlink

/-- With nothing in the receive buffer. -/
theorem drained_empty {link : Link} {rx : Option RxBuf} (h : Filled rx)
    (hlink : rx.isSome = link.hasBuffer) (hempty : unread rx = []) (lens : List ℕ) :
    (drained rx lens).2.2 = link.behind lens := by
  cases link with
  | tcp =>
    obtain ⟨rx, rfl⟩ := Option.isSome_iff_exists.mp hlink
    exact fill_empty h hempty lens
  | ipc =>
    cases rx with
    | none => rfl
    | some rx => cases hlink

theorem behind_sum (link : Link) (lens : List ℕ) : (link.behind lens).sum = lens.sum := by
  cases link with
  | tcp => exact dropWhile_zero_sum lens
  | ipc => rfl

/-- A socket without a receive buffer receives directly, and so does one when too much is missing. -/
theorem direct_of_left {link : Link} {rx : Option RxBuf} (hf : Filled rx)
    (hlink : rx.isSome = link.hasBuffer) {lens : List ℕ}
    (h : rx.isNone ∨ bufsize < (drained rx lens).2.2.sum) : link.Direct lens.sum := by
  rcases h with h | h
  · cases link with
    | tcp =>
      rw [← Option.not_isSome, hlink] at h
      cases h
    | ipc => exact .inl rfl
  · have hsum := (drained_spec hf lens).2.2.2.2
    exact .inr (by omega)

/-! ## Buffers in the array -/

open Scatter (Buf Action Crowded plan cells reached)

variable {acts : List Action} {P : ℕ → Prop} {max : ℕ} {got : List UInt8} {s : Conn}
  {first : List Elem} {lens : List ℕ} {ends : Bool}

theorem slots_cons (first : List Elem) :
    ∃ base, ∀ len lens, slots first (len :: lens) = (base, len) :: slots first.tail lens := by
  cases first with
  | nil => exact ⟨some 0, fun _ _ => rfl⟩
  | cons it first =>
    cases it with
    | null k => exact ⟨none, fun _ _ => rfl⟩
    | buf mem => exact ⟨some 0, fun _ _ => rfl⟩

theorem slots_lens (first : List Elem) (lens : List ℕ) :
    (slots first lens).map Prod.snd = lens := by
  induction lens generalizing first with
  | nil => cases first <;> rfl
  | cons len lens ih =>
    obtain ⟨base, hcons⟩ := slots_cons first
    rw [hcons, List.map_cons, ih]

theorem length_slots (first : List Elem) (lens : List ℕ) :
    (slots first lens).length = lens.length := by
  conv_rhs => rw [← slots_lens first lens, List.length_map]

/-- The elements that are left when the receive buffer is used up have the lengths of the buffers
that are missing. -/
theorem cut_fill (hf : rx.Filled) (l : List Buf) :
    (Scatter.cut l (rx.fill (l.map Prod.snd)).1.length).map Prod.snd
      = (rx.fill (l.map Prod.snd)).2.2 := by
  induction l generalizing rx with
  | nil => rfl
  | cons b l ih =>
    obtain ⟨-, -, hfilled⟩ := rx.copy_spec hf b.2
    have hle := copy_length_le hf b.2
    rw [List.map_cons]
    unfold RxBuf.fill Scatter.cut
    simp only
    split
    · rename_i hlt
      rw [if_neg (by dsimp only; omega)]
      rfl
    · have hlen : ((rx.copy b.2).1 ++ ((rx.copy b.2).2.fill (l.map Prod.snd)).1).length
          = b.2 + ((rx.copy b.2).2.fill (l.map Prod.snd)).1.length := by
        rw [List.length_append]
        omega
      simp only [hlen]
      rw [if_pos (Nat.le_add_right _ _), Nat.add_sub_cancel_left]
      exact ih hfilled

theorem missing_lens {rx : Option RxBuf} (hf : Filled rx) (first : List Elem) (lens : List ℕ) :
    (missing rx.isSome (slots first lens) (drained rx lens).1.length).map Prod.snd
      = (drained rx lens).2.2 := by
  cases rx with
  | none => exact slots_lens first lens
  | some rx =>
    have hcut := cut_fill hf (slots first lens)
    rw [slots_lens] at hcut
    exact hcut

/-- Buffers that are missing stand together if they did before. -/
theorem crowded_cut {l : List Buf} (h : Crowded max (Scatter.cut l k)) : Crowded max l := by
  induction l generalizing k with
  | nil => exact h
  | cons b l ih =>
    unfold Scatter.cut at h
    split at h
    · exact (ih h).mono (List.suffix_cons _ _).isInfix
    · exact h.head fun hfull =>
        ⟨fun hnone => hfull.1 (by rw [hnone]; rfl), hfull.2.trans_le (Nat.sub_le _ _)⟩

/-- Empty buffers at the front do not stand together with anything. -/
theorem crowded_cut_zero {l : List Buf} (h : Crowded max l) : Crowded max (Scatter.cut l 0) := by
  induction l with
  | nil => exact h
  | cons b l ih =>
    unfold Scatter.cut
    split
    · rename_i hzero
      rw [← List.nil_append (b :: l), Scatter.crowded_split
        (fun hfull => absurd hfull.2 (not_lt.mpr hzero))] at h
      rw [Nat.zero_sub]
      exact ih (h.resolve_left fun hnil => hnil.ne_nil rfl)
    · exact h.head fun hfull =>
        ⟨fun hnone => hfull.1 (Option.map_eq_none_iff.mp hnone), hfull.2⟩

theorem crowded_missing {b : Bool} {l : List Buf} (h : Crowded max (missing b l k)) :
    Crowded max l := by
  cases b with
  | false => exact h
  | true => exact crowded_cut h

theorem crowded_missing_zero {l : List Buf} (h : Crowded max l) (b : Bool) :
    Crowded max (missing b l 0) := by
  cases b with
  | false => exact h
  | true => exact crowded_cut_zero h

/-! ## The direct receive -/

theorem fine_lens {a : Action} (h : a.Fine P) : a.lens ≠ [] ∧ ∀ n ∈ a.lens, 0 < n := by
  cases a with
  | skip len => exact ⟨List.cons_ne_nil _ _, List.forall_mem_singleton.mpr h.1⟩
  | recv iov => exact ⟨by simpa [Scatter.Action.lens] using h.1, List.forall_mem_map.mpr h.2⟩

theorem sum_lens (a : Action) : a.lens.sum = a.cells.length := by
  cases a with
  | skip len => exact List.sum_singleton.trans List.length_replicate.symm
  | recv iov => exact (Scatter.length_cells iov).symm

/-- The kernel refuses a part of the plan if too many buffers stand together. -/
theorem plan_over {max : ℕ+} {l : List Buf} :
    (∃ a ∈ plan ends [] l, max < a.lens.length) ↔ Crowded max (reached ends l) := by
  rw [← Scatter.plan_crowded, Scatter.plan_reached]
  constructor
  · rintro ⟨a, ha, hlt⟩
    cases a with
    | skip len => exact absurd hlt (not_lt.mpr max.pos)
    | recv iov => exact ⟨iov, ha, by rwa [Scatter.Action.lens, List.length_map] at hlt⟩
  · rintro ⟨iov, hiov, hlt⟩
    exact ⟨_, hiov, by rwa [Scatter.Action.lens, List.length_map]⟩

/-- One call of `dill_fd_recv_`. -/
theorem recv_run (hne : lens ≠ []) (hpos : ∀ n ∈ lens, 0 < n) (hf : Filled s.rx)
    (hu : unread s.rx = []) (hle : lens.sum ≤ s.pieces.flatten.length) :
    ∃ s', work s.turns [] ([], s.rx, .syscall (.direct lens [])) s.pieces
        = some (.ok (s.pieces.flatten.take lens.sum), s') ∧
      s'.rx = s.rx ∧ s'.pieces.flatten = s.pieces.flatten.drop lens.sum := by
  have hleft : (Outcome.syscall (.direct lens [])).left = lens.sum := Nat.add_zero _
  obtain ⟨s', hwork, hran⟩ := @work_run s.turns s.pieces s.rx [] []
    (.syscall (.direct lens [])) hf ⟨hne, hpos⟩ hu (fun _ => trivial)
    (by rw [hleft, hu]; exact hle) (Nat.lt_succ_self _)
  have hbytes := hran.bytes
  have hrx := hran.same trivial
  rw [hrx, hu, hleft] at hbytes
  rw [hu, hleft] at hwork
  exact ⟨s', hwork, hrx, hbytes⟩

theorem directly_run (h : ∀ a ∈ acts, a.Fine P) (hmax : ∀ a ∈ acts, a.lens.length ≤ max)
    (hf : Filled s.rx) (hu : unread s.rx = [])
    (hle : (acts.flatMap Action.cells).length ≤ s.pieces.flatten.length) :
    ∃ s', directly max ends acts got s = (if ends then some (.ok (got ++
        s.pieces.flatten.take (acts.flatMap Action.cells).length), s') else none) ∧
      s'.rx = s.rx ∧
      s'.pieces.flatten = s.pieces.flatten.drop (acts.flatMap Action.cells).length := by
  induction acts generalizing got s with
  | nil =>
    refine ⟨s, ?_, rfl, rfl⟩
    rw [List.flatMap_nil, List.length_nil, List.take_zero, List.append_nil]
    rfl
  | cons a acts ih =>
    obtain ⟨ha, hrest⟩ := List.forall_mem_cons.mp h
    obtain ⟨hroom, hmax⟩ := List.forall_mem_cons.mp hmax
    obtain ⟨hne, hpos⟩ := fine_lens ha
    rw [List.flatMap_cons, List.length_append, ← sum_lens] at hle ⊢
    obtain ⟨s₁, hwork, hrx, hpieces⟩ := recv_run hne hpos hf hu (by omega)
    obtain ⟨s', hrun, hrx', hpieces'⟩ := @ih (got ++ s.pieces.flatten.take a.lens.sum) s₁
      hrest hmax (hrx ▸ hf) (hrx ▸ hu) (by rw [hpieces, List.length_drop]; omega)
    refine ⟨s', ?_, hrx'.trans hrx, ?_⟩
    · rw [directly, if_neg hroom.not_gt, hwork]
      refine hrun.trans ?_
      rw [hpieces, List.append_assoc, ← List.take_add]
    · rw [hpieces', hpieces, List.drop_drop]

/-- A receive that is refused by the kernel. -/
theorem directly_refused (h : ∀ a ∈ acts, a.Fine P) (hmax : ∃ a ∈ acts, max < a.lens.length)
    (hf : Filled s.rx) (hu : unread s.rx = [])
    (hle : (acts.flatMap Action.cells).length ≤ s.pieces.flatten.length) :
    ∃ s', directly max ends acts got s = some (.error .EMSGSIZE, s') := by
  induction acts generalizing got s with
  | nil =>
    obtain ⟨a, ha, -⟩ := hmax
    exact absurd ha List.not_mem_nil
  | cons a acts ih =>
    obtain ⟨ha, hrest⟩ := List.forall_mem_cons.mp h
    obtain ⟨hne, hpos⟩ := fine_lens ha
    rw [List.flatMap_cons, List.length_append, ← sum_lens] at hle
    rw [directly]
    by_cases hroom : max < a.lens.length
    · exact ⟨s, if_pos hroom⟩
    · obtain ⟨s₁, hwork, hrx, hpieces⟩ := recv_run hne hpos hf hu (by omega)
      rw [if_neg hroom, hwork]
      obtain ⟨a', ha', hlt⟩ := hmax
      have hmem : a' ∈ acts := (List.mem_cons.mp ha').resolve_left fun heq => hroom (heq ▸ hlt)
      exact ih hrest ⟨a', hmem, hlt⟩ (hrx ▸ hf) (hrx ▸ hu)
        (by rw [hpieces, List.length_drop]; omega)

/-- A receive that is refused or runs off the end of its iolist does not return its bytes. -/
theorem directly_fails (h : ends = false ∨ ∃ a ∈ acts, max < a.lens.length) (bs : List UInt8)
    (s' : Conn) : directly max ends acts got s ≠ some (.ok bs, s') := by
  induction acts generalizing got s with
  | nil =>
    rcases h with rfl | ⟨a, ha, -⟩
    · exact fun hno => by cases hno
    · exact absurd ha List.not_mem_nil
  | cons a acts ih =>
    rw [directly]
    by_cases hroom : max < a.lens.length
    · rw [if_pos hroom]
      exact fun hno => by cases hno
    · have hrest : ends = false ∨ ∃ a ∈ acts, max < a.lens.length := by
        rcases h with h | ⟨a', ha', hlt⟩
        · exact .inl h
        · exact .inr ⟨a', (List.mem_cons.mp ha').resolve_left fun heq => hroom (heq ▸ hlt), hlt⟩
      rw [if_neg hroom]
      split
      · exact ih hrest
      · rename_i r hr
        exact hr bs s'

/-! ## The bytestream -/

variable {link : Link} {iovMax : ℕ+} {x : List UInt8}

/-- The buffers that are missing behind what is in the receive buffer. -/
def left (rx : Option RxBuf) (first : List Elem) (lens : List ℕ) : List Buf :=
  missing rx.isSome (slots first lens) (drained rx lens).1.length

theorem length_plan_cells (l : List Buf) :
    ((plan true [] l).flatMap Action.cells).length = (l.map Prod.snd).sum := by
  rw [Scatter.plan_cells, List.length_append, Scatter.length_cells, Scatter.length_cells,
    List.map_nil, List.sum_nil, Nat.zero_add]

theorem plan_fine_any (ends : Bool) (l : List Buf) :
    ∀ a ∈ plan ends [] l, a.Fine fun _ => True :=
  Scatter.plan_fine (fun _ hb => absurd hb List.not_mem_nil) fun _ _ _ => .inr trivial

theorem left_length (hf : Filled s.rx) :
    (left s.rx first lens).length = (drained s.rx lens).2.2.length := by
  rw [← missing_lens hf first lens, List.length_map]
  rfl

theorem reached_front (ends : Bool) (l : List Buf) : reached ends l <+: l := by
  unfold reached
  split
  · exact List.prefix_rfl
  · exact List.rdropWhile_prefix _ _

/-- A single element does not stand together with others, whether it is the last one or not. -/
theorem crowded_reached (ends : Bool) (l : List Buf) :
    Crowded iovMax (reached (ends || decide (l.length ≤ 1)) l) ↔
      Crowded iovMax (reached ends l) := by
  by_cases hone : l.length ≤ 1
  · have hno : ∀ e, ¬Crowded iovMax (reached e l) := fun e h =>
      absurd h.length (not_lt.mpr ((reached_front e l).length_le.trans (hone.trans iovMax.pos)))
    exact iff_of_false (hno _) (hno _)
  · rw [decide_eq_false hone, Bool.or_false]

theorem length_plan_le (ends : Bool) (l : List Buf) :
    ((plan ends [] l).flatMap Action.cells).length ≤ (l.map Prod.snd).sum := by
  obtain ⟨t, ht⟩ := reached_front ends l
  conv_rhs => rw [← ht, List.map_append, List.sum_append]
  rw [Scatter.plan_reached, length_plan_cells]
  exact Nat.le_add_right _ _

/-- What is in the receive buffer behind the bytes that are stored. -/
theorem unread_ahead {rx : Option RxBuf} (hlink : rx.isSome = link.hasBuffer)
    (h : (unread rx).length < bufsize) : (unread rx).length ≤ link.ahead := by
  cases link with
  | tcp => exact Nat.le_sub_one_of_lt h
  | ipc =>
    cases rx with
    | none => exact le_rfl
    | some rx => cases hlink

/-- All the elements are filled from the receive buffer. -/
theorem conn_done (hs : s.Holds link x) (h : (drained s.rx lens).2.2 = []) :
    ∃ s', (conn iovMax first).brecvl s lens ends = some (.ok (x.take lens.sum), s') ∧
      s'.Holds link (x.drop lens.sum) ∧ (0 < lens.sum → (unread s'.rx).length ≤ link.ahead) := by
  obtain ⟨hlink, hf, hsmall, rfl⟩ := hs
  obtain ⟨hbytes, hf', -, hsome, hsum⟩ := drained_spec hf lens
  rw [h, List.sum_nil, Nat.add_zero] at hsum
  rw [hbytes, List.length_append] at hsmall
  have hrun : (conn iovMax first).brecvl s lens ends =
      some (.ok (drained s.rx lens).1, ⟨(drained s.rx lens).2.1, s.pieces⟩) :=
    if_pos (List.isEmpty_iff.mpr h)
  rw [hrun, hbytes, List.append_assoc, List.take_left' hsum, List.drop_left' hsum]
  refine ⟨_, rfl, ⟨hsome.trans hlink, hf', (Nat.le_add_left _ _).trans hsmall, rfl⟩, fun hpos => ?_⟩
  refine unread_ahead (hsome.trans hlink) ?_
  dsimp only
  omega

/-- The elements that are left are filled through the receive buffer. -/
theorem conn_buffered (hs : s.Holds link x) (hne : (drained s.rx lens).2.2 ≠ [])
    (h : ¬(s.rx.isNone ∨ bufsize < (drained s.rx lens).2.2.sum)) (hle : lens.sum ≤ x.length) :
    ∃ s', (conn iovMax first).brecvl s lens ends = some (.ok (x.take lens.sum), s') ∧
      s'.Holds link (x.drop lens.sum) ∧ (unread s'.rx).length ≤ link.ahead := by
  obtain ⟨hlink, hf, -, rfl⟩ := hs
  obtain ⟨hbytes, hf', hempty, hsome, hsum⟩ := drained_spec hf lens
  have hdry := hempty hne
  rw [hbytes, hdry, List.append_nil, List.length_append] at hle
  obtain ⟨rx, hrx⟩ : ∃ rx, s.rx = some rx := by
    cases hrx : s.rx with
    | none =>
      rw [hrx] at h
      exact absurd (.inl rfl) h
    | some rx => exact ⟨rx, rfl⟩
  have hopen : 0 < (drained s.rx lens).2.2.headD 0 := by
    rw [hrx] at hf hne ⊢
    exact (fill_left hf lens).2 hne
  have hnone : (drained s.rx lens).2.1 ≠ none := by
    rw [← Option.isSome_iff_ne_none, hsome, hrx]
    rfl
  obtain ⟨s', hwork, hran⟩ := @work_run s.turns s.pieces (drained s.rx lens).2.1
    (drained s.rx lens).1 [] (.syscall (.buffered (drained s.rx lens).2.2)) hf' hopen hdry
    (fun h => absurd h hnone) (by
      rw [hdry]
      change (drained s.rx lens).2.2.sum ≤ s.pieces.flatten.length
      omega) (Nat.lt_succ_self _)
  have hrest := hran.bytes
  rw [hdry, List.nil_append, List.append_nil] at hwork
  rw [hdry, List.nil_append] at hrest
  have hsmall := hran.small (hopen.trans_le le_sum_of_headD)
  have hlink' := hran.buffer.trans (hsome.trans hlink)
  have hno : ¬(drained s.rx lens).2.2.isEmpty := by simpa using hne
  refine ⟨s', ?_, ⟨hlink', hran.filled, hsmall.le, ?_⟩, unread_ahead hlink' hsmall⟩
  · rw [hbytes, hdry, List.append_nil, ← hsum, List.take_length_add_append]
    exact (if_neg hno).trans ((if_neg h).trans hwork)
  · rw [hrest, hbytes, hdry, List.append_nil, ← hsum, List.drop_length_add_append]
    rfl

/-- The elements that are left are received into directly. -/
theorem conn_direct (hne : (drained s.rx lens).2.2 ≠ [])
    (h : s.rx.isNone ∨ bufsize < (drained s.rx lens).2.2.sum) :
    (conn iovMax first).brecvl s lens ends =
      directly iovMax (ends || decide ((drained s.rx lens).2.2.length ≤ 1))
        (plan (ends || decide ((drained s.rx lens).2.2.length ≤ 1)) [] (left s.rx first lens))
        (drained s.rx lens).1 ⟨(drained s.rx lens).2.1, s.pieces⟩ := by
  have hno : ¬(drained s.rx lens).2.2.isEmpty := by simpa using hne
  exact (if_neg hno).trans (if_pos h)

/-- This is not refused by the kernel if it returns. -/
theorem conn_scattered (hs : s.Holds link x) (hne : (drained s.rx lens).2.2 ≠ [])
    (h : s.rx.isNone ∨ bufsize < (drained s.rx lens).2.2.sum) (hle : lens.sum ≤ x.length)
    (hmax : ¬Crowded iovMax (reached ends (left s.rx first lens))) :
    ∃ s', (conn iovMax first).brecvl s lens ends =
        (if ends || decide ((drained s.rx lens).2.2.length ≤ 1) then
          some (.ok (x.take lens.sum), s') else none) ∧
      ((ends || decide ((drained s.rx lens).2.2.length ≤ 1)) = true →
        s'.Holds link (x.drop lens.sum) ∧ unread s'.rx = []) := by
  obtain ⟨hlink, hf, -, rfl⟩ := hs
  obtain ⟨hbytes, hf', hempty, hsome, hsum⟩ := drained_spec hf lens
  have hdry := hempty hne
  rw [hbytes, hdry, List.append_nil, List.length_append] at hle
  rw [hbytes, hdry, List.append_nil, ← hsum, List.take_length_add_append,
    List.drop_length_add_append]
  rw [← crowded_reached, left_length hf, ← plan_over] at hmax
  have hroom : ∀ a ∈ plan (ends || decide ((drained s.rx lens).2.2.length ≤ 1)) []
      (left s.rx first lens), a.lens.length ≤ (iovMax : ℕ) :=
    fun a ha => not_lt.mp fun hlt => hmax ⟨a, ha, hlt⟩
  have hlens : (left s.rx first lens).map Prod.snd = (drained s.rx lens).2.2 :=
    missing_lens hf first lens
  have hcells := length_plan_le (ends || decide ((drained s.rx lens).2.2.length ≤ 1))
    (left s.rx first lens)
  rw [hlens] at hcells
  obtain ⟨s', hrun, hrx, hpieces⟩ := @directly_run _ _ iovMax (drained s.rx lens).1
    ⟨(drained s.rx lens).2.1, s.pieces⟩ (ends || decide ((drained s.rx lens).2.2.length ≤ 1))
    (plan_fine_any _ _) hroom hf' hdry (by dsimp only; omega)
  refine ⟨s', ?_, fun hends => ?_⟩
  · rw [conn_direct hne h, hrun]
    split
    · rename_i hends
      rw [hends, length_plan_cells, hlens]
    · rfl
  · rw [hends, length_plan_cells, hlens] at hpieces
    have hnil : unread s'.rx = [] := by rw [hrx, hdry]
    have hlink' := (congrArg Option.isSome hrx).trans (hsome.trans hlink)
    refine ⟨⟨hlink', hrx ▸ hf', by rw [hnil]; exact Nat.zero_le _, ?_⟩, hnil⟩
    rw [hnil, List.nil_append, hpieces]

/-- **A receive.** -/
theorem conn_brecvl (hs : s.Holds link x) (hloose : ¬Loose link lens ends)
    (hmax : link.Direct lens.sum → ¬Crowded iovMax (slots first lens)) (hle : lens.sum ≤ x.length) :
    ∃ s', (conn iovMax first).brecvl s lens ends = some (.ok (x.take lens.sum), s') ∧
      s'.Holds link (x.drop lens.sum) ∧ (0 < lens.sum → (unread s'.rx).length ≤ link.ahead) := by
  have hlink := hs.buffer
  have hf := hs.filled
  by_cases hne : (drained s.rx lens).2.2 = []
  · exact conn_done hs hne
  · by_cases hdirect : s.rx.isNone ∨ bufsize < (drained s.rx lens).2.2.sum
    · have hd := direct_of_left hf hlink hdirect
      have hends : (ends || decide ((drained s.rx lens).2.2.length ≤ 1)) = true := by
        rw [Bool.or_eq_true, decide_eq_true_eq]
        by_contra hno
        obtain ⟨hno, hmany⟩ := not_or.mp hno
        have hlength := drained_length_le hf hlink lens
        exact hloose ⟨Bool.eq_false_iff.mpr hno, hd, by omega⟩
      have hroom : ¬Crowded iovMax (reached ends (left s.rx first lens)) := fun h =>
        hmax hd (crowded_missing (h.mono (reached_front ends _).isInfix))
      obtain ⟨s', hrun, hholds⟩ := conn_scattered hs hne hdirect hle hroom
      obtain ⟨hs', hnil⟩ := hholds hends
      rw [hends] at hrun
      exact ⟨s', hrun, hs', fun _ => by rw [hnil]; exact Nat.zero_le _⟩
    · obtain ⟨s', hrun, hs', hahead⟩ :=
        @conn_buffered _ first lens ends link iovMax x hs hne hdirect hle
      exact ⟨s', hrun, hs', fun _ => hahead⟩

theorem length_slots_le (first : List Elem) (n : ℕ) : ¬Crowded iovMax (slots first [n]) := by
  intro h
  have hlen := h.length
  rw [length_slots] at hlen
  exact absurd hlen (not_lt.mpr iovMax.pos)

/-- A receive into a single buffer never fails. -/
theorem conn_brecv {bs rest : List UInt8} (hs : s.Holds link (bs ++ rest)) :
    ∃ s', (conn iovMax first).brecvl s [bs.length] true = some (.ok bs, s') ∧ s'.Holds link rest ∧
      (bs ≠ [] → (unread s'.rx).length ≤ link.ahead) := by
  have hloose : ¬Loose link [bs.length] true := fun h => by cases h.ends
  have hmax : ¬Crowded iovMax (slots first [bs.length]) := length_slots_le first bs.length
  have hsum : [bs.length].sum = bs.length := List.sum_singleton
  obtain ⟨s', hrecv, hs', hahead⟩ := conn_brecvl hs hloose (fun _ => hmax)
    (by rw [hsum, List.length_append]; omega)
  rw [hsum, List.take_left] at hrecv
  rw [hsum, List.drop_left] at hs'
  rw [hsum] at hahead
  exact ⟨s', hrecv, hs', fun hne => hahead (List.length_pos_iff.mpr hne)⟩

theorem yields_conn : Yields (conn iovMax first) (Conn.Holds link) := by
  intro s bs rest hs
  obtain ⟨s', hrecv, hs', -⟩ := @conn_brecv _ first link iovMax _ _ hs
  refine ⟨s', ?_, hs'⟩
  unfold brecv
  simp only [hrecv]

/-- A receive that runs off the end of its iolist or is refused, when nothing is in the receive
buffer. -/
theorem conn_fails (hs : s.Holds link x) (hu : unread s.rx = [])
    (h : Loose link lens ends ∨ link.Direct lens.sum ∧ Crowded iovMax (slots first lens))
    (bs : List UInt8) (s' : Conn) :
    (conn iovMax first).brecvl s lens ends ≠ some (.ok bs, s') := by
  have hlink := hs.buffer
  have hf := hs.filled
  have hrest := drained_empty hf hlink hu lens
  have hgot : (drained s.rx lens).1 = [] := by
    have hbytes := (drained_spec hf lens).1
    rw [hu] at hbytes
    exact (List.append_eq_nil_iff.mp hbytes.symm).1
  have hleft : Crowded iovMax (slots first lens) → Crowded iovMax (left s.rx first lens) := by
    intro hcrowded
    unfold left
    rw [hgot]
    exact crowded_missing_zero hcrowded _
  have hd : link.Direct lens.sum := h.elim Loose.direct And.left
  have hne : (drained s.rx lens).2.2 ≠ [] := by
    rcases h with hloose | ⟨-, hcrowded⟩
    · rw [hrest]
      exact List.ne_nil_of_length_pos (Nat.zero_lt_one.trans hloose.length)
    · apply List.ne_nil_of_length_pos
      rw [← @left_length s first lens hf]
      exact (Nat.zero_le _).trans_lt (hleft hcrowded).length
  have hdirect : s.rx.isNone ∨ bufsize < (drained s.rx lens).2.2.sum := by
    rw [hrest, behind_sum]
    refine hd.imp_left ?_
    rintro rfl
    rw [← Option.not_isSome, hlink]
    rfl
  rw [conn_direct hne hdirect]
  apply directly_fails
  rcases h with hloose | ⟨-, hcrowded⟩
  · refine .inl ?_
    rw [hloose.ends, hrest, Bool.false_or]
    exact decide_eq_false (not_le.mpr hloose.length)
  · cases hends : ends || decide ((drained s.rx lens).2.2.length ≤ 1) with
    | false => exact .inl rfl
    | true => exact .inr (plan_over.mpr (hleft hcrowded))

/-! ## Receives that the kernel refuses -/

/-- Whether a receive is direct, when the bytes in the receive buffer do not suffice. -/
theorem direct_iff (hs : s.Holds link x) (hne : (drained s.rx lens).2.2 ≠ []) :
    (s.rx.isNone ∨ bufsize < (drained s.rx lens).2.2.sum ↔
      link.Direct (lens.sum - (unread s.rx).length)) ∧
    (drained s.rx lens).1.length = (unread s.rx).length := by
  obtain ⟨hbytes, -, hempty, -, hsum⟩ := drained_spec hs.filled lens
  rw [hempty hne, List.append_nil] at hbytes
  have hgot := congrArg List.length hbytes
  refine ⟨?_, hgot.symm⟩
  rw [hgot, ← hsum, Nat.add_sub_cancel_left]
  refine or_congr_left ?_
  rw [← Option.not_isSome, hs.buffer]
  cases link with
  | tcp => exact iff_of_false (by decide) (by decide)
  | ipc => exact iff_of_true rfl rfl

theorem Refused.crowded_all {max : ℕ} {l : List Buf} {u : ℕ} (h : Refused link max ends l u) :
    Crowded max l :=
  crowded_missing (h.crowded.mono (reached_front _ _).isInfix)

theorem conn_refused (hs : s.Holds link x) (hle : lens.sum ≤ x.length)
    (h : Refused link iovMax ends (slots first lens) (unread s.rx).length) :
    ∃ s', (conn iovMax first).brecvl s lens ends = some (.error .EMSGSIZE, s') := by
  obtain ⟨hd, hcrowded⟩ := h
  rw [slots_lens] at hd
  obtain ⟨hbytes, hf', hempty, -, hsum⟩ := drained_spec hs.filled lens
  have hne : (drained s.rx lens).2.2 ≠ [] := by
    intro hnil
    rw [hnil, List.sum_nil, Nat.add_zero] at hsum
    have hgot := congrArg List.length hbytes
    rw [List.length_append] at hgot
    rcases hd with rfl | hlt
    · have hlen := hcrowded.length.trans_le (reached_front ends _).length_le
      have hrx : s.rx = none := Option.not_isSome_iff_eq_none.mp (by rw [hs.buffer]; decide)
      rw [hrx] at hnil
      change (iovMax : ℕ) < (slots first lens).length at hlen
      rw [length_slots, show lens = [] from hnil] at hlen
      exact absurd hlen (Nat.not_lt_zero _)
    · omega
  obtain ⟨hiff, hgot⟩ := direct_iff hs hne
  have hleft : left s.rx first lens
      = missing link.hasBuffer (slots first lens) (unread s.rx).length := by
    unfold left
    rw [hgot, hs.buffer]
  rw [← hleft, ← crowded_reached, left_length hs.filled, ← plan_over] at hcrowded
  rw [conn_direct hne (hiff.mpr hd)]
  refine directly_refused (plan_fine_any _ _) hcrowded hf' (hempty hne) ?_
  have hcells := length_plan_le (ends || decide ((drained s.rx lens).2.2.length ≤ 1))
    (left s.rx first lens)
  have hx := congrArg List.length hs.bytes
  rw [List.length_append, ← hgot] at hx
  rw [show (left s.rx first lens).map Prod.snd = _ from missing_lens hs.filled first lens] at hcells
  dsimp only
  omega

/-- Otherwise it does not fail. -/
theorem conn_accepted (hs : s.Holds link x) (hle : lens.sum ≤ x.length)
    (h : ¬Refused link iovMax ends (slots first lens) (unread s.rx).length) :
    (conn iovMax first).brecvl s lens ends = none ∨
      ∃ s', (conn iovMax first).brecvl s lens ends = some (.ok (x.take lens.sum), s') := by
  by_cases hne : (drained s.rx lens).2.2 = []
  · obtain ⟨s', hrun, -⟩ := @conn_done _ first lens ends link iovMax x hs hne
    exact .inr ⟨s', hrun⟩
  · obtain ⟨hiff, hgot⟩ := direct_iff hs hne
    by_cases hdirect : s.rx.isNone ∨ bufsize < (drained s.rx lens).2.2.sum
    · have hroom : ¬Crowded iovMax (reached ends (left s.rx first lens)) := by
        intro hcrowded
        unfold left at hcrowded
        rw [hgot, hs.buffer] at hcrowded
        exact h ⟨by rw [slots_lens]; exact hiff.mp hdirect, hcrowded⟩
      obtain ⟨s', hrun, -⟩ := conn_scattered hs hne hdirect hle hroom
      split at hrun
      · exact .inr ⟨s', hrun⟩
      · exact .inl hrun
    · obtain ⟨s', hrun, -⟩ := @conn_buffered _ first lens ends link iovMax x hs hne hdirect hle
      exact .inr ⟨s', hrun⟩

/-! ## Connections to begin with -/

/-- The receive buffer of a new connection. -/
def Link.buffer : Link → Option RxBuf
  | .tcp => some RxBuf.init
  | .ipc => none

theorem holds_piece (link : Link) (x : List UInt8) : Conn.Holds link ⟨link.buffer, [x]⟩ x := by
  cases link with
  | tcp =>
    refine ⟨rfl, Nat.zero_le _, Nat.zero_le _, ?_⟩
    simp [unread, Link.buffer, RxBuf.unread, RxBuf.init]
  | ipc => exact ⟨rfl, trivial, Nat.zero_le _, by simp [unread, Link.buffer]⟩

theorem unread_full (x : List UInt8) : (RxBuf.mk x.length 0 (some x)).unread = x := by
  show (x.take x.length).drop 0 = x
  rw [List.take_length, List.drop_zero]

/-- A buffer that does not suffice is used up. -/
theorem fill_short (hf : rx.Filled) (h : rx.unread.length < n) :
    ∃ rx', rx.fill [n] = (rx.unread, rx', [n - rx.unread.length]) := by
  have hcopy : (rx.copy n).1 = rx.unread := by
    rw [(rx.copy_spec hf n).1, List.take_of_length_le h.le]
  refine ⟨(rx.copy n).2, ?_⟩
  unfold RxBuf.fill
  simp only [hcopy]
  exact if_pos h

/-- Another one fills the element. -/
theorem fill_long (c : UInt8) (bs : List UInt8) :
    ∃ rx', (RxBuf.mk (c :: bs).length 0 (some (c :: bs))).fill [1] = ([c], rx', []) ∧ rx'.Filled ∧
      rx'.unread = bs := by
  obtain ⟨hone, hrest, hfilled⟩ :=
    (RxBuf.mk (c :: bs).length 0 (some (c :: bs))).copy_spec (le_refl _) 1
  rw [unread_full] at hone hrest
  refine ⟨_, ?_, hfilled, hrest⟩
  unfold RxBuf.fill
  simp only [hone]
  rfl

/-- With the last one of the first bytes `x` the next `k` bytes get into the receive buffer. -/
theorem conn_ahead (iovMax : ℕ+) (first : List Elem) {link : Link} (hx : x ≠ [])
    (hsmall : x.length ≤ bufsize) (y : List UInt8) (hk : k ≤ link.ahead) :
    ∃ s s', s.Holds link (x ++ y) ∧
      (conn iovMax first).brecvl s [x.length] true = some (.ok x, s') ∧ s'.Holds link y ∧
      unread s'.rx = y.take k := by
  cases link with
  | ipc =>
    obtain ⟨s', hrun, hs', hahead⟩ := @conn_brecv _ first .ipc iovMax x y
      (holds_piece .ipc (x ++ y))
    refine ⟨_, s', holds_piece .ipc (x ++ y), hrun, hs', ?_⟩
    rw [Nat.le_zero.mp hk, List.take_zero]
    exact List.length_eq_zero_iff.mp (Nat.le_zero.mp (hahead hx))
  | tcp =>
    obtain ⟨xs, c, rfl⟩ : ∃ xs c, x = xs ++ [c] := ⟨_, _, (List.dropLast_append_getLast hx).symm⟩
    rw [List.length_append, List.length_singleton] at hsmall ⊢
    have hf : (RxBuf.mk xs.length 0 (some xs)).Filled := le_refl xs.length
    obtain ⟨rx₁, hshort⟩ := @fill_short _ (xs.length + 1) hf (by rw [unread_full]; omega)
    obtain ⟨rx₂, hlong, hf₂, hu₂⟩ := fill_long c (y.take k)
    rw [unread_full, Nat.add_sub_cancel_left] at hshort
    have hle : (c :: y.take k).length ≤ bufsize := by
      have hahead : k ≤ bufsize - 1 := hk
      have hbuf : 0 < bufsize := by decide
      rw [List.length_cons, List.length_take]
      omega
    have hhand : handOut bufsize [c :: y.take k, y.drop k]
        = some (.data (c :: y.take k), [y.drop k]) := by
      simp only [handOut]
      rw [if_neg (List.cons_ne_nil _ _), if_pos hle]
    refine ⟨⟨some ⟨xs.length, 0, some xs⟩, [c :: y.take k, y.drop k]⟩, ⟨some rx₂, [y.drop k]⟩,
      ⟨rfl, hf, ?_, ?_⟩, ?_, ⟨rfl, hf₂, ?_, ?_⟩, hu₂⟩
    · rw [show unread (some _) = xs from unread_full xs]
      omega
    · rw [show unread (some _) = xs from unread_full xs]
      simp
    · have hdrained : drained (some ⟨xs.length, 0, some xs⟩) [xs.length + 1]
          = (xs, some rx₁, [1]) := by
        simp only [drained, hshort]
      have hturns : ∃ n, Conn.turns ⟨some ⟨xs.length, 0, some xs⟩, [c :: y.take k, y.drop k]⟩
          = n + 2 := ⟨_, rfl⟩
      obtain ⟨n, hturns⟩ := hturns
      have hturn : turn (some rx₁) (.buffered [1]) (.data (c :: y.take k))
          = ([c], some rx₂, .done) := by
        simp only [turn, hlong]
        rfl
      have hthrough : ¬((some (RxBuf.mk xs.length 0 (some xs))).isNone ∨ bufsize < [1].sum) :=
        fun h => h.elim (fun hnone => by cases hnone) fun hlt => absurd hlt (by decide)
      simp only [conn, hdrained]
      rw [if_neg (by decide), if_neg hthrough, hturns, work]
      simp only [Job.room, hhand, hturn]
      rw [work, List.append_nil]
    · change rx₂.unread.length ≤ bufsize
      rw [hu₂]
      exact (Nat.le_succ _).trans hle
    · change rx₂.unread ++ _ = y
      rw [hu₂]
      simp

/-- The first bytes may also come alone. -/
theorem conn_piece (iovMax : ℕ+) (first : List Elem) (link : Link) (hx : x ≠ []) (y : List UInt8) :
    ∃ s s', s.Holds link (x ++ y) ∧
      (conn iovMax first).brecvl s [x.length] true = some (.ok x, s') ∧ s'.Holds link y ∧
      unread s'.rx = [] := by
  by_cases hsmall : x.length ≤ bufsize
  · exact conn_ahead iovMax first hx hsmall y (Nat.zero_le _)
  · have hs := holds_piece link (x ++ y)
    have hu : unread link.buffer = [] := by cases link <;> rfl
    have hsum : [x.length].sum = x.length := List.sum_singleton
    have hrest : (drained link.buffer [x.length]).2.2 = link.behind [x.length] :=
      drained_empty hs.filled hs.buffer hu [x.length]
    have hsum' := behind_sum link [x.length]
    rw [← hrest, hsum] at hsum'
    have hne : (drained link.buffer [x.length]).2.2 ≠ [] := by
      intro hnil
      rw [hnil, List.sum_nil] at hsum'
      omega
    have hroom : ¬Crowded iovMax (reached true (left link.buffer first [x.length])) := fun h =>
      length_slots_le first x.length (crowded_missing (h.mono (reached_front true _).isInfix))
    have hlong : bufsize < (drained link.buffer [x.length]).2.2.sum := by omega
    obtain ⟨s', hrun, hholds⟩ := conn_scattered hs hne (.inr hlong)
      (by rw [hsum, List.length_append]; omega) hroom
    obtain ⟨hs', hnil⟩ := hholds rfl
    rw [hsum, List.take_left] at hrun
    rw [hsum, List.drop_left] at hs'
    exact ⟨_, s', hs, hrun, hs', hnil⟩

end Libdill.Fd
