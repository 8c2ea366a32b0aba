import Libdill.Http.Handshake
import Libdill.Http.Words
import Libdill.Utils.Strings

/-!
# Sending over HTTP

`dill_http_sendrequest`, `dill_http_sendstatus` and `dill_http_sendfield`. A failed assertion is a
fault. The arguments are checked for different characters: those of a request may not contain a
newline, the reason of a status and the value of a field are not looked at, and the value is stripped
after the check that it is not empty.

* `send_line_run`: what is put on the wire.
* `send_one_line_iff`: when the functions send exactly one line or nothing.
-/

namespace Libdill.Http

open Foundations Libdill.Sock Libdill.Utils
open Libdill.Suffix (SuffixSock crlf)
open Libdill.Term (TermSock)

/-! ## The functions -/

section Calls

variable {σ : Type} (u : Bsock σ) (n : ℕ)

/-- `dill_http_sendrequest`. -/
def sendrequest (command resource : CString) : Call (Stack σ) Stop Errno Unit :=
  if strpbrk command [32, 9, 10] then Call.fail .EINVAL
  else if strpbrk resource [32, 9, 10] then Call.fail .EINVAL
  else Term.msendl (Suffix.msock u n) [command.bytes, [32], resource.bytes, 32 :: http11]

/-- The character of a digit. -/
def digit (k : ℤ) : UInt8 := UInt8.ofNat (k.toNat + 48)

/-- The buffer of `dill_http_sendstatus`. -/
def statusBuf (status : ℤ) : List UInt8 :=
  [digit (status / 100), digit (status % 100 / 10), digit (status % 100 % 10), 32]

/-- `dill_http_sendstatus`. -/
def sendstatus (status : ℤ) (reason : CString) : Call (Stack σ) Stop Errno Unit :=
  if status < 100 ∨ 599 < status then Call.fail .EINVAL
  else Term.msendl (Suffix.msock u n) [http11 ++ [32], statusBuf status, reason.bytes]

/-- The characters that a name must not contain. -/
def nameDelims : List UInt8 :=
  [40, 41, 44, 47, 58, 59, 60, 61, 62, 63, 64, 91, 92, 93, 123, 125, 34, 32, 9, 10]

/-- `dill_http_sendfield`. -/
def sendfield (name value : CString) : Call (Stack σ) Stop Errno Unit :=
  if strpbrk name nameDelims then Call.fail .EINVAL
  else if value.bytes.length = 0 then Call.fail .EPROTO
  else
    let start := value.bytes.drop (lstrip 32 value.bytes)
    let len := rstrip 32 start
    if len = 0 then Call.stop .fault
    else Term.msendl (Suffix.msock u n) [name.bytes, [58, 32], start.take len]

end Calls

/-! ## Lines on the wire -/

variable {t : TermSock} {i o m a b v : List UInt8} {bufs : List (List UInt8)} {n k : ℕ}
  {inerr : Bool} {command resource reason name value : CString} {status : ℤ}

/-- **A line is put on the wire**, whatever is in it. -/
theorem send_line_run (h : bufs ≠ []) :
    Term.msendl (Suffix.msock duplex n) bufs (t, ⟨crlf, inerr, false⟩, i, o)
      = .ok (.ok (), t, ⟨crlf, inerr, false⟩, i, o ++ (bufs.flatten ++ crlf.bytes)) := by
  have hempty : bufs.isEmpty = false := by simpa using h
  have hsend := @bsendl_duplex (bufs ++ [crlf.bytes]) (by simp) i o
  rw [List.flatten_append, List.flatten_singleton] at hsend
  have hrun := @Suffix.msendl_run ⟨crlf, inerr, false⟩ _ _ _ _ _ h rfl hsend
  unfold Term.msendl Sock.msendl
  rw [hempty]
  exact below_run hrun

/-- CRLF does not occur. -/
def NoCrlf (m : List UInt8) : Prop := ∀ k, ¬OccursAt crlf.bytes m k

/-- Either nothing is written, because an argument is not valid, or exactly one line is, which is not
empty. -/
def SendsOneLine (z : Stack Wires) (r : Except Stop (Except Errno Unit × Stack Wires)) : Prop :=
  (∃ e, r = .ok (.error e, z) ∧ (e = .EINVAL ∨ e = .EPROTO)) ∨
    ∃ m, m ≠ [] ∧ NoCrlf m ∧
      r = .ok (.ok (), z.1, z.2.1, z.2.2.1, z.2.2.2 ++ (m ++ crlf.bytes))

theorem sendsOneLine_iff (h : bufs ≠ []) (hne : bufs.flatten ≠ []) :
    SendsOneLine (t, ⟨crlf, inerr, false⟩, i, o)
        (Term.msendl (Suffix.msock duplex n) bufs (t, ⟨crlf, inerr, false⟩, i, o))
      ↔ NoCrlf bufs.flatten := by
  rw [send_line_run h]
  constructor
  · rintro (⟨e, he, -⟩ | ⟨m, -, hm, heq⟩)
    · cases he
    · simp only [Except.ok.injEq, Prod.mk.injEq, true_and] at heq
      have hsame := List.append_cancel_right (List.append_cancel_left heq)
      rw [hsame]
      exact hm
  · intro hno
    exact .inr ⟨_, hne, hno, rfl⟩

theorem sendsOneLine_fault (z : Stack Wires) : ¬SendsOneLine z (.error .fault) := by
  rintro (⟨e, he, -⟩ | ⟨m, -, -, heq⟩)
  · cases he
  · cases heq

/-! ## Where CRLF can occur -/

theorem occursAt_crlf : OccursAt crlf.bytes m k ↔ m[k]? = some 13 ∧ m[k + 1]? = some 10 := by
  unfold OccursAt
  rw [show m[k]? = (m.drop k)[0]? by simp, show m[k + 1]? = (m.drop k)[1]? by simp]
  cases m.drop k with
  | nil => simp [crlf]
  | cons x l =>
    cases l with
    | nil => simp [crlf]
    | cons y l => simp [crlf, List.cons_prefix_cons, eq_comm]

theorem noCrlf_iff : NoCrlf m ↔ ∀ k : ℕ, m[k]? = some (13 : UInt8) → m[k + 1]? ≠ some 10 := by
  unfold NoCrlf
  simp only [occursAt_crlf, not_and, ne_eq]

theorem noCrlf_of_notMem (h : 10 ∉ m) : NoCrlf m := by
  rw [noCrlf_iff]
  intro k _ hk
  exact h (List.mem_of_getElem? hk)

/-- Behind something that ends with another character. -/
theorem noCrlf_append_right {c : UInt8} (ha : 10 ∉ a ++ [c]) (hc : c ≠ 13) :
    NoCrlf (a ++ [c] ++ b) ↔ NoCrlf b := by
  rw [noCrlf_iff, noCrlf_iff]
  constructor
  · intro h k h13 h10
    apply h ((a ++ [c]).length + k)
    · rw [List.getElem?_append_right (by omega), Nat.add_sub_cancel_left]
      exact h13
    · rw [Nat.add_assoc, List.getElem?_append_right (by omega), Nat.add_sub_cancel_left]
      exact h10
  · intro h k h13 h10
    have hlen : (a ++ [c]).length = a.length + 1 := List.length_append
    rcases Nat.lt_trichotomy k a.length with hk | hk | hk
    · rw [List.getElem?_append_left (by omega)] at h10
      exact ha (List.mem_of_getElem? h10)
    · rw [List.getElem?_append_left (by omega), hk, List.getElem?_concat_length] at h13
      cases h13
      exact hc rfl
    · rw [List.getElem?_append_right (by omega)] at h13 h10
      apply h _ h13
      rw [show k - (a ++ [c]).length + 1 = k + 1 - (a ++ [c]).length by omega]
      exact h10

/-- In front of spaces. -/
theorem noCrlf_append_spaces (k : ℕ) : NoCrlf (a ++ spaces k) ↔ NoCrlf a := by
  rw [noCrlf_iff, noCrlf_iff]
  have hspace : ∀ (j : ℕ) (x : UInt8), (spaces k)[j]? = some x → x = 32 := fun j x hx =>
    mem_spaces (List.mem_of_getElem? hx)
  constructor
  · intro h j h13 h10
    have hj := (List.getElem?_eq_some_iff.mp h10).1
    apply h j
    · rw [List.getElem?_append_left (by omega)]
      exact h13
    · rw [List.getElem?_append_left hj]
      exact h10
  · intro h j h13 h10
    by_cases hj : j + 1 < a.length
    · rw [List.getElem?_append_left (by omega)] at h13 h10
      exact h j h13 h10
    · rw [List.getElem?_append_right (by omega)] at h10
      exact absurd (hspace _ _ h10) (by decide)

/-! ## The three functions -/

/-- A digit is none of the characters of CRLF. -/
theorem digit_toNat {d : ℤ} (h : d.toNat < 10) : (digit d).toNat = d.toNat + 48 := by
  unfold digit
  rw [UInt8.toNat_ofNat']
  omega

theorem digit_ne {d : ℤ} (h : d.toNat < 10) {c : UInt8} (hc : c.toNat < 48) : digit d ≠ c := by
  intro heq
  have hval := digit_toNat h
  rw [heq] at hval
  omega

/-- The status is in the range that is checked. -/
theorem digits_lt (h : ¬(status < 100 ∨ 599 < status)) :
    (status / 100).toNat < 10 ∧ (status % 100 / 10).toNat < 10 ∧ (status % 100 % 10).toNat < 10 := by
  omega

theorem sendrequest_one (z : Stack Wires) (hz : z = (t, ⟨crlf, inerr, false⟩, i, o)) :
    SendsOneLine z (sendrequest duplex n command resource z) := by
  subst hz
  unfold sendrequest
  by_cases hcommand : strpbrk command [32, 9, 10] = true
  · rw [if_pos hcommand]
    exact .inl ⟨_, rfl, .inl rfl⟩
  · by_cases hresource : strpbrk resource [32, 9, 10] = true
    · rw [if_neg hcommand, if_pos hresource]
      exact .inl ⟨_, rfl, .inl rfl⟩
    · have hc := strpbrk_eq_false.mp (Bool.not_eq_true _ ▸ hcommand)
      have hr := strpbrk_eq_false.mp (Bool.not_eq_true _ ▸ hresource)
      rw [if_neg hcommand, if_neg hresource, sendsOneLine_iff (by simp) (by simp)]
      apply noCrlf_of_notMem
      simp only [List.flatten_cons, List.flatten_nil, List.append_nil, List.mem_append, not_or]
      refine ⟨fun hmem => hc 10 hmem (by decide), by decide, fun hmem => hr 10 hmem (by decide),
        by decide⟩

/-- The bytes in front of the reason. -/
theorem noCrlf_status (h : ¬(status < 100 ∨ 599 < status)) :
    NoCrlf [http11 ++ [32], statusBuf status, reason.bytes].flatten ↔ NoCrlf reason.bytes := by
  obtain ⟨h₁, h₂, h₃⟩ := digits_lt h
  have hflat : [http11 ++ [32], statusBuf status, reason.bytes].flatten
      = (http11 ++ [32, digit (status / 100), digit (status % 100 / 10),
          digit (status % 100 % 10)]) ++ [32] ++ reason.bytes := by
    simp [statusBuf]
  rw [hflat]
  apply noCrlf_append_right _ (by decide)
  have hne : ∀ d : ℤ, d.toNat < 10 → 10 ≠ digit d := fun d hd => (digit_ne hd (by decide)).symm
  simp only [List.mem_append, List.mem_cons, List.not_mem_nil, or_false, not_or]
  exact ⟨⟨by decide, by decide, hne _ h₁, hne _ h₂, hne _ h₃⟩, by decide⟩

theorem sendstatus_one_iff (z : Stack Wires) (hz : z = (t, ⟨crlf, inerr, false⟩, i, o)) :
    SendsOneLine z (sendstatus duplex n status reason z)
      ↔ status < 100 ∨ 599 < status ∨ NoCrlf reason.bytes := by
  subst hz
  unfold sendstatus
  by_cases hrange : status < 100 ∨ 599 < status
  · rw [if_pos hrange]
    exact iff_of_true (.inl ⟨_, rfl, .inl rfl⟩) (hrange.imp id .inl)
  · rw [if_neg hrange, sendsOneLine_iff (by simp) (by simp [http11]), noCrlf_status hrange]
    constructor
    · exact fun h => .inr (.inr h)
    · rintro (h | h | h)
      · exact absurd (.inl h) hrange
      · exact absurd (.inr h) hrange
      · exact h

/-- The bytes in front of the value, and the spaces around it. -/
theorem noCrlf_field (h : strpbrk name nameDelims = false) :
    NoCrlf [name.bytes, [58, 32], strip 32 value.bytes].flatten ↔ NoCrlf value.bytes := by
  have hflat : [name.bytes, [58, 32], strip 32 value.bytes].flatten
      = (name.bytes ++ [58]) ++ [32] ++ strip 32 value.bytes := by
    simp
  have hname : 10 ∉ name.bytes ++ [58] ++ [32] := by
    simp only [List.mem_append, not_or]
    exact ⟨⟨fun hmem => strpbrk_eq_false.mp h 10 hmem (by decide), by decide⟩, by decide⟩
  rw [hflat, noCrlf_append_right hname (by decide)]
  obtain ⟨a, b, hvalue⟩ := eq_strip 32 value.bytes
  have hspaces : NoCrlf (spaces a ++ strip 32 value.bytes) ↔ NoCrlf (strip 32 value.bytes) := by
    cases a with
    | zero => rfl
    | succ a =>
      have hlast : spaces (a + 1) = spaces a ++ [32] := List.replicate_succ'
      rw [hlast]
      apply noCrlf_append_right _ (by decide)
      rw [← hlast]
      exact fun hmem => absurd (mem_spaces hmem) (by decide)
  rw [← hspaces, ← @noCrlf_append_spaces _ b]
  exact iff_of_eq (congrArg NoCrlf hvalue.symm)

/-- What is sent when the assertion holds. -/
theorem sendfield_eq (hname : strpbrk name nameDelims = false) (hvalue : strip 32 value.bytes ≠ [])
    (z : Stack Wires) : sendfield duplex n name value z
      = Term.msendl (Suffix.msock duplex n) [name.bytes, [58, 32], strip 32 value.bytes] z := by
  have hne : value.bytes.length ≠ 0 := by
    intro h
    rw [List.length_eq_zero_iff] at h
    rw [h] at hvalue
    exact hvalue rfl
  have hlen : ¬(strip 32 value.bytes).length = 0 := fun h =>
    hvalue (List.length_eq_zero_iff.mp h)
  unfold sendfield
  rw [hname, if_neg Bool.false_ne_true, if_neg hne]
  simp only [length_strip, if_neg hlen]
  rw [← length_strip, take_strip]

theorem sendfield_one_iff (z : Stack Wires) (hz : z = (t, ⟨crlf, inerr, false⟩, i, o)) :
    SendsOneLine z (sendfield duplex n name value z)
      ↔ strpbrk name nameDelims = true ∨ value.bytes = [] ∨
        (∃ c ∈ value.bytes, c ≠ 32) ∧ NoCrlf value.bytes := by
  subst hz
  by_cases hname : strpbrk name nameDelims = true
  · unfold sendfield
    rw [if_pos hname]
    exact iff_of_true (.inl ⟨_, rfl, .inl rfl⟩) (.inl hname)
  · by_cases hempty : value.bytes = []
    · unfold sendfield
      rw [if_neg hname, hempty]
      exact iff_of_true (.inl ⟨_, rfl, .inr rfl⟩) (.inr (.inl rfl))
    · have hfalse := Bool.not_eq_true _ ▸ hname
      by_cases hspaces : strip 32 value.bytes = []
      · have hall := strip_eq_nil.mp hspaces
        have hlen : ¬value.bytes.length = 0 := fun h => hempty (List.length_eq_zero_iff.mp h)
        unfold sendfield
        rw [if_neg hname, if_neg hlen]
        simp only [length_strip, hspaces, List.length_nil, if_true]
        refine iff_of_false (sendsOneLine_fault _) ?_
        rintro (h | h | ⟨⟨c, hc, hne⟩, -⟩)
        · exact hname h
        · exact hempty h
        · exact hne (hall c hc)
      · have hsome : ∃ c ∈ value.bytes, c ≠ 32 := by
          by_contra hno
          apply hspaces
          rw [strip_eq_nil]
          intro c hc
          by_contra hne
          exact hno ⟨c, hc, hne⟩
        rw [sendfield_eq hfalse hspaces, sendsOneLine_iff (by simp) (by simp), noCrlf_field hfalse]
        constructor
        · exact fun h => .inr (.inr ⟨hsome, h⟩)
        · rintro (h | h | h)
          · exact absurd h hname
          · exact absurd h hempty
          · exact h.2

/-- **When exactly one line or nothing is sent.** -/
theorem send_one_line_iff (command resource reason name value : CString) (status : ℤ) (n : ℕ)
    (t : TermSock) (inerr : Bool) (i o : List UInt8) :
    SendsOneLine (t, ⟨crlf, inerr, false⟩, i, o)
      (sendrequest duplex n command resource (t, ⟨crlf, inerr, false⟩, i, o)) ∧
    (SendsOneLine (t, ⟨crlf, inerr, false⟩, i, o)
        (sendstatus duplex n status reason (t, ⟨crlf, inerr, false⟩, i, o)) ↔
      status < 100 ∨ 599 < status ∨ NoCrlf reason.bytes) ∧
    (SendsOneLine (t, ⟨crlf, inerr, false⟩, i, o)
        (sendfield duplex n name value (t, ⟨crlf, inerr, false⟩, i, o)) ↔
      strpbrk name nameDelims = true ∨ value.bytes = [] ∨
        (∃ c ∈ value.bytes, c ≠ 32) ∧ NoCrlf value.bytes) :=
  ⟨sendrequest_one _ rfl, sendstatus_one_iff _ rfl, sendfield_one_iff _ rfl⟩

/-- A string of one space. -/
def space : CString := ⟨[32], by decide⟩

/-- The assertion fails. -/
theorem sendfield_aborts : ¬SendsOneLine (⟨[], false, false⟩, ⟨crlf, false, false⟩, [], [])
    (sendfield duplex 1 ⟨[65], by decide⟩ space
      (⟨[], false, false⟩, ⟨crlf, false, false⟩, [], [])) := by
  rw [sendfield_one_iff _ rfl]
  rintro (h | h | ⟨⟨c, hc, hne⟩, -⟩)
  · exact absurd h (by decide +kernel)
  · cases h
  · exact hne (List.mem_singleton.mp hc)

end Libdill.Http
