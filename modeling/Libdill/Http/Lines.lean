import Libdill.Http.Parse

/-!
# Lines

What the parsers make of a line, step by step. A token that fits is copied, and the parser goes on
behind it; the rest of what it does depends on what it finds there.

* `token_fits`, `token_unfit`, `version_run`: the steps.
* `requestLine_fits`, `statusLine_found`, `fieldLine_fits`: the parsers when they get through to
  their last step.
-/

namespace Libdill.Http

open Foundations Libdill.Sock

variable {s : Args} {a b : Arg} {w m rest : List UInt8} {p : UInt8 → Bool} {full : Bool} {n : ℕ}

/-! ## The buffers -/

/-- The buffers have the sizes that the caller gives, and these are not zero. -/
structure Sized (s : Args) : Prop where
  pos : ∀ a, 0 < (s a).length
  lt : ∀ a, (s a).length < sizeRange

@[simp] theorem put_self : s.put a w a = w ++ 0 :: (s a).drop (w.length + 1) :=
  Function.update_self ..

@[simp] theorem put_of_ne (h : b ≠ a) : s.put a w b = s b := Function.update_of_ne h ..

theorem length_put (h : w.length < (s a).length) : (s.put a w b).length = (s b).length := by
  by_cases hb : b = a
  · subst hb
    rw [put_self, List.length_append, List.length_cons, List.length_drop]
    omega
  · rw [put_of_ne hb]

theorem Sized.put (hs : Sized s) (h : w.length < (s a).length) : Sized (s.put a w) := by
  constructor <;> intro b <;> rw [length_put h]
  · exact hs.pos b
  · exact hs.lt b

theorem minus_one (hs : Sized s) (a : Arg) : minus (s a).length 1 = (s a).length - 1 :=
  minus_eq (hs.pos a) (hs.lt a)

theorem give_fits (hs : Sized s) (h : w.length < (s a).length) :
    give a w s = .ok (.ok (), s.put a w) := by
  unfold give
  rw [Call.look_bind, minus_one hs a, decide_eq_true (by omega), Call.bind_ret Call.require_true,
    if_neg (by omega)]
  rfl

theorem give_full (hs : Sized s) (h : (s a).length ≤ w.length) :
    give a w s = .ok (.error .EMSGSIZE, s) := by
  have hpos := hs.pos a
  unfold give
  rw [Call.look_bind, minus_one hs a, decide_eq_false (by omega), Call.bind_fail Call.require_false]

/-! ## Tokens -/

/-- There is something behind the token, and the buffer has room for it. -/
def Fits (p : UInt8 → Bool) (a : Arg) (rest : List UInt8) (s : Args) : Prop :=
  (rest.dropWhile p).headD 0 ≠ 0 ∧ (rest.takeWhile p).length < (s a).length

theorem token_fits (hs : Sized s) (h : Fits p a rest s) :
    token p a rest s = .ok (.ok (rest.dropWhile p), s.put a (rest.takeWhile p)) := by
  unfold token
  rw [bne_iff_ne.mpr h.1, Call.bind_ret Call.require_true, Call.bind_ret (give_fits hs h.2)]
  rfl

theorem token_unfit (hs : Sized s) (h : ¬Fits p a rest s) :
    ∃ e, token p a rest s = .ok (.error e, s) ∧
      (e = .EPROTO ∨ (s a).length ≤ (rest.takeWhile p).length) := by
  unfold token
  by_cases hend : (rest.dropWhile p).headD 0 = 0
  · rw [hend]
    exact ⟨.EPROTO, rfl, .inl rfl⟩
  · have hfull : (s a).length ≤ (rest.takeWhile p).length := by
      by_contra hlt
      exact h ⟨hend, by omega⟩
    rw [bne_iff_ne.mpr hend, Call.bind_ret Call.require_true, Call.bind_fail (give_full hs hfull)]
    exact ⟨_, rfl, .inr hfull⟩

/-- The next word of a line. -/
def word (m : List UInt8) : List UInt8 := (m.dropWhile isSpace).takeWhile isWord

/-- What is behind it. -/
def behind (m : List UInt8) : List UInt8 := (m.dropWhile isSpace).dropWhile isWord

/-! ## The protocol -/

/-- `memcmp` is called, and there are fewer characters in `rxbuf` than it is given. -/
def Overreads (m rest : List UInt8) : Prop :=
  (rest.takeWhile isWord).length ≠ 8 ∧ rxbufSize < m.length - rest.length + http11.length

/-- What the check of the protocol accepts. -/
def Loose (rest : List UInt8) : Prop := (rest.takeWhile isWord).length = 8 ∨ http11 <+: rest

theorem version_run (h : full = true → ¬Overreads m rest) :
    (Loose rest → version full (m.length - rest.length) rest s = .ok (.ok (), s)) ∧
      (¬Loose rest → version full (m.length - rest.length) rest s = .ok (.error .EPROTO, s)) := by
  unfold version Loose
  by_cases height : (rest.takeWhile isWord).length = 8
  · rw [if_pos height]
    exact ⟨fun _ => rfl, fun hno => absurd (.inl height) hno⟩
  · have hread : ¬(full = true ∧ rxbufSize < m.length - rest.length + http11.length) :=
      fun hf => h hf.1 ⟨height, hf.2⟩
    rw [if_neg height, if_neg hread]
    by_cases hpre : http11 <+: rest
    · rw [decide_eq_true hpre]
      exact ⟨fun _ => rfl, fun hno => absurd (.inr hpre) hno⟩
    · rw [decide_eq_false hpre]
      exact ⟨fun hl => (hl.resolve_left height |> hpre).elim, fun _ => rfl⟩

theorem version_overreads (hfull : full = true) (h : Overreads m rest) :
    version full (m.length - rest.length) rest s = .error .fault := by
  unfold version
  rw [if_neg h.1, if_pos ⟨hfull, h.2⟩]
  rfl

/-! ## The parsers -/

/-- The first two words fit. -/
structure RequestFits (m : List UInt8) (s : Args) : Prop where
  command : Fits isWord .command (m.dropWhile isSpace) s
  resource : Fits isWord .resource ((behind m).dropWhile isSpace) s

/-- What is left when the command and the resource have been copied. -/
def protocolOf (m : List UInt8) : List UInt8 := (behind (behind m)).dropWhile isSpace

/-- The buffers then. -/
def requestArgs (m : List UInt8) (s : Args) : Args :=
  (s.put .command (word m)).put .resource (word (behind m))

theorem RequestFits.sizes (h : RequestFits m s) :
    (word m).length < (s .command).length ∧
      (word (behind m)).length < (s.put .command (word m) .resource).length := by
  refine ⟨h.command.2, ?_⟩
  rw [put_of_ne (by decide)]
  exact h.resource.2

theorem RequestFits.length_args (h : RequestFits m s) (a : Arg) :
    (requestArgs m s a).length = (s a).length := by
  unfold requestArgs
  rw [length_put h.sizes.2, length_put h.sizes.1]

theorem requestLine_fits (hs : Sized s) (h : RequestFits m s) :
    requestLine full m s = (version full (m.length - (protocolOf m).length) (protocolOf m) >>=
      fun _ => Call.require ((((protocolOf m).dropWhile isWord).dropWhile isSpace).headD 0 == 0)
        .EPROTO) (requestArgs m s) := by
  have hresource : Fits isWord .resource ((behind m).dropWhile isSpace) (s.put .command (word m)) :=
    ⟨h.resource.1, h.sizes.2⟩
  have hs₁ : Sized (s.put .command (word m)) := hs.put h.command.2
  unfold requestLine
  rw [Call.bind_ret (token_fits hs h.command)]
  exact Call.bind_ret (token_fits hs₁ hresource)

/-- What the last check looks at. -/
theorem requestLine_ok (hs : Sized s) (h : RequestFits m s)
    (hread : full = true → ¬Overreads m (protocolOf m)) (hloose : Loose (protocolOf m))
    (hlast : (behind (behind (behind m))).dropWhile isSpace = []) :
    requestLine full m s = .ok (.ok (), requestArgs m s) := by
  obtain ⟨haccept, -⟩ := @version_run (requestArgs m s) m (protocolOf m) full hread
  rw [requestLine_fits hs h, Call.bind_ret (haccept hloose)]
  change Call.require (((behind (behind (behind m))).dropWhile isSpace).headD 0 == 0) _ _ = _
  rw [hlast]
  rfl

theorem requestLine_unfit (hs : Sized s) (h : ¬RequestFits m s) :
    ∃ e s', requestLine full m s = .ok (.error e, s') ∧ (∀ a, (s' a).length = (s a).length) ∧
      (e = .EPROTO ∨ (s .command).length ≤ (word m).length ∨
        (s .resource).length ≤ (word (behind m)).length) := by
  unfold requestLine
  by_cases hcommand : Fits isWord .command (m.dropWhile isSpace) s
  · have hs₁ : Sized (s.put .command (word m)) := hs.put hcommand.2
    have hresource : ¬Fits isWord .resource ((behind m).dropWhile isSpace)
        (s.put .command (word m)) := by
      intro hfits
      rw [Fits, put_of_ne (by decide)] at hfits
      exact h ⟨hcommand, hfits⟩
    obtain ⟨e, hrun, he⟩ := token_unfit hs₁ hresource
    rw [put_of_ne (by decide)] at he
    rw [Call.bind_ret (token_fits hs hcommand)]
    refine ⟨e, _, Call.bind_fail hrun, fun a => length_put hcommand.2, ?_⟩
    exact he.imp id .inr
  · obtain ⟨e, hrun, he⟩ := token_unfit hs hcommand
    exact ⟨e, s, Call.bind_fail hrun, fun _ => rfl, he.imp id .inl⟩

/-- Three digits, and something behind them. -/
structure IsCode (rest : List UInt8) : Prop where
  behind : (rest.dropWhile isWord).headD 0 ≠ 0
  length : (rest.takeWhile isWord).length = 3
  digits : (rest.takeWhile isWord).all isDigit = true

theorem status_code (h : IsCode rest) :
    status rest s
      = .ok (.ok (number (rest.getD 0 0) (rest.getD 1 0) (rest.getD 2 0)), s) := by
  unfold status
  rw [bne_iff_ne.mpr h.behind, decide_eq_true h.length, h.digits]
  rfl

theorem status_refused (h : ¬IsCode rest) : status rest s = .ok (.error .EPROTO, s) := by
  unfold status
  by_cases hbehind : (rest.dropWhile isWord).headD 0 = 0
  · rw [hbehind]
    rfl
  · rw [bne_iff_ne.mpr hbehind, Call.bind_ret Call.require_true]
    by_cases hlen : (rest.takeWhile isWord).length = 3
    · have hdigits : (rest.takeWhile isWord).all isDigit = false := by
        rw [Bool.eq_false_iff]
        exact fun hd => h ⟨hbehind, hlen, hd⟩
      rw [decide_eq_true hlen, hdigits]
      rfl
    · rw [decide_eq_false hlen]
      rfl

/-- The reason. -/
def reasonOf (m : List UInt8) : List UInt8 := (behind (behind m)).dropWhile isSpace

/-- The number of the status. -/
def codeOf (m : List UInt8) : ℕ :=
  let rest := (behind m).dropWhile isSpace
  number (rest.getD 0 0) (rest.getD 1 0) (rest.getD 2 0)

theorem statusLine_short (h : (behind m).headD 0 = 0) :
    statusLine full m s = .ok (.error .EPROTO, s) := by
  unfold statusLine
  change (Call.require ((behind m).headD 0 != 0) Errno.EPROTO >>= _) s = _
  rw [h]
  rfl

theorem statusLine_long (h : (behind m).headD 0 ≠ 0) :
    statusLine full m s = (version full (m.length - (m.dropWhile isSpace).length)
      (m.dropWhile isSpace) >>= fun _ => status ((behind m).dropWhile isSpace) >>= fun n =>
        give .reason (reasonOf m) >>= fun _ => pure n) s := by
  unfold statusLine
  change (Call.require ((behind m).headD 0 != 0) Errno.EPROTO >>= _) s = _
  rw [bne_iff_ne.mpr h, Call.bind_ret Call.require_true]
  rfl

/-- What the check of the status line accepts. -/
structure StatusLoose (m : List UInt8) : Prop where
  behind : (behind m).headD 0 ≠ 0
  protocol : Loose (m.dropWhile isSpace)
  code : IsCode ((Http.behind m).dropWhile isSpace)

theorem statusLine_refused (hread : full = true → (behind m).headD 0 ≠ 0 →
    ¬Overreads m (m.dropWhile isSpace)) (h : ¬StatusLoose m) :
    statusLine full m s = .ok (.error .EPROTO, s) := by
  by_cases hbehind : (behind m).headD 0 = 0
  · exact statusLine_short hbehind
  · obtain ⟨haccept, hrefuse⟩ := @version_run s m (m.dropWhile isSpace) full
      fun hf => hread hf hbehind
    rw [statusLine_long hbehind]
    by_cases hloose : Loose (m.dropWhile isSpace)
    · rw [Call.bind_ret (haccept hloose)]
      exact Call.bind_fail (status_refused fun hc => h ⟨hbehind, hloose, hc⟩)
    · exact Call.bind_fail (hrefuse hloose)

theorem statusLine_found (hread : full = true → (behind m).headD 0 ≠ 0 →
    ¬Overreads m (m.dropWhile isSpace)) (h : StatusLoose m) :
    statusLine full m s = (give .reason (reasonOf m) >>= fun _ => pure (codeOf m)) s := by
  obtain ⟨haccept, -⟩ := @version_run s m (m.dropWhile isSpace) full fun hf => hread hf h.behind
  rw [statusLine_long h.behind, Call.bind_ret (haccept h.protocol), Call.bind_ret (status_code h.code)]
  rfl

/-- The rest of a field line behind the name. -/
def afterName (m : List UInt8) : List UInt8 :=
  ((m.dropWhile isSpace).dropWhile isName).dropWhile isSpace

/-- The value. -/
def valueOf (m : List UInt8) : List UInt8 := (afterName m).tail.dropWhile isSpace

/-- The name. -/
def nameOf (m : List UInt8) : List UInt8 := (m.dropWhile isSpace).takeWhile isName

/-- There is a name, and then a colon. -/
structure FieldFits (m : List UInt8) (s : Args) : Prop where
  name : Fits isName .name (m.dropWhile isSpace) s
  colon : (afterName m).headD 0 = 58

theorem fieldLine_fits (hs : Sized s) (h : FieldFits m s) :
    fieldLine m s = give .value (valueOf m) (s.put .name (nameOf m)) := by
  unfold fieldLine
  rw [Call.bind_ret (token_fits hs h.name)]
  change (Call.require ((afterName m).headD 0 == 58) Errno.EPROTO >>= _) _ = _
  rw [h.colon]
  rfl

theorem fieldLine_unfit (hs : Sized s) (h : ¬FieldFits m s) :
    ∃ e s', fieldLine m s = .ok (.error e, s') ∧ (∀ a, (s' a).length = (s a).length) ∧
      (e = .EPROTO ∨ (s .name).length ≤ (nameOf m).length) := by
  unfold fieldLine
  by_cases hname : Fits isName .name (m.dropWhile isSpace) s
  · have hcolon : ((afterName m).headD 0 == 58) = false := by
      rw [beq_eq_false_iff_ne]
      exact fun hc => h ⟨hname, hc⟩
    rw [Call.bind_ret (token_fits hs hname)]
    change ∃ e s', (Call.require ((afterName m).headD 0 == 58) Errno.EPROTO >>= _) _ = _ ∧ _
    rw [hcolon]
    exact ⟨.EPROTO, _, rfl, fun a => length_put hname.2, .inl rfl⟩
  · obtain ⟨e, hrun, he⟩ := token_unfit hs hname
    exact ⟨e, s, Call.bind_fail hrun, fun _ => rfl, he⟩

end Libdill.Http
