import Libdill.Prefix.RoundTrip
import Libdill.Sock.Msock

/-!
# PREFIX as a message socket

The functions of `prefix.c` as those of a message socket, which receives into memory and may be given
an iolist that does not end in `last`.

* `mrecvlInto_body`, `mrecvlInto_refused`: what a receive makes of a frame.
* `mrecvl_lens`: the function agrees with the one on the bytes that are stored.
* `trim_ends`, `trim_loose`: where the message ends in the iolist.
-/

namespace Libdill.Prefix

open Foundations Libdill.Sock

variable {σ : Type} (u : Bsock σ)

/-- `dill_prefix_msendl`. -/
def msendl (first : List (List UInt8)) : Call (PrefixSock × σ) Stop Errno Unit := fun (self, s) =>
  .ok (self.msendl u s first)

/-- The receiver fails, and is of no use any more. -/
def failed {α : Type} (e : Errno) : Call (PrefixSock × σ) Stop Errno α := fun (self, s) =>
  .ok (.error e, { self with inerr := true }, s)

/-- `dill_brecvl` of the underlying socket. -/
def recvl (lens : List ℕ) (ends : Bool) : Call (PrefixSock × σ) Stop Errno (List UInt8) :=
  fun (self, s) =>
    match u.brecvl s lens ends with
    | none => .error .waits
    | some (.error e, s) => .ok (.error e, { self with inerr := true }, s)
    | some (.ok bs, s) => .ok (.ok bs, self, s)

/-- The part of `dill_prefix_mrecvl` behind the header. Without an iolist the message is skipped. -/
def body (first : List Elem) (ends : Bool) (sz : ℕ) :
    Call (PrefixSock × σ) Stop Errno (ℕ × List Elem) :=
  if first.isEmpty then do
    let _ ← recvl u [sz] true
    pure (sz, [])
  else
    match trim sz (first.map Elem.len) with
    | none => failed .EMSGSIZE
    | some (lens, e) => do
      -- The list that has been trimmed ends in `last` if the one that was passed did.
      let data ← recvl u lens (e && ends)
      pure (sz, fill data first)

/-- `dill_prefix_mrecvl`: the size of the message, and the iolist. What the bytestream `v` does may
depend on the iolist whose elements are received into; the header goes into a local array. -/
def mrecvlInto (v : List Elem → Bsock σ) (first : List Elem) (ends : Bool) :
    Call (PrefixSock × σ) Stop Errno (ℕ × List Elem) := do
  let inerr ← Call.look fun s => s.1.inerr
  Call.require (inerr == false) .ECONNRESET
  let hdrlen ← Call.look fun s => s.1.hdrlen
  let szbuf ← recvl (v []) [hdrlen] true
  let sz ← Call.look fun s => (s.1.getHdr szbuf).toNat
  body (v first) first ends sz

/-- `dill_prefix_mrecvl` over a bytestream that looks at the lengths of the elements only. -/
def mrecvl (first : List Elem) (ends : Bool) :
    Call (PrefixSock × σ) Stop Errno (ℕ × List Elem) := mrecvlInto (fun _ => u) first ends

/-- The message socket. -/
def msock : Msock (PrefixSock × σ) where
  msendl := msendl u
  mrecvl := mrecvl u

/-- The message socket over a bytestream that looks at the elements. -/
def msockInto (v : List Elem → Bsock σ) : Msock (PrefixSock × σ) where
  msendl := msendl (v [])
  mrecvl := mrecvlInto v

/-! ## Receiving a frame -/

variable {u} {v : List Elem → Bsock σ} {s : σ} {self : PrefixSock} {m : List UInt8}
  {first : List Elem} {ends e : Bool} {lens lens' : List ℕ} {k : ℕ}

theorem recvl_run {bs : List UInt8} {s' : σ} (h : u.brecvl s lens ends = some (.ok bs, s')) :
    recvl u lens ends (self, s) = .ok (.ok bs, self, s') := by
  unfold recvl
  simp only [h]

theorem recvl_fails {err : Errno} {s' : σ} (h : u.brecvl s lens ends = some (.error err, s')) :
    recvl u lens ends (self, s) = .ok (.error err, { self with inerr := true }, s') := by
  unfold recvl
  simp only [h]

theorem recvl_waits (h : u.brecvl s lens ends = none) :
    recvl u lens ends (self, s) = .error .waits := by
  unfold recvl
  simp only [h]

variable {s' : σ}

theorem mrecvlInto_open {szbuf : List UInt8} (hin : self.inerr = false)
    (h : (v []).brecvl s [self.hdrlen] true = some (.ok szbuf, s')) :
    mrecvlInto v first ends (self, s)
      = body (v first) first ends (self.getHdr szbuf).toNat (self, s') := by
  unfold mrecvlInto
  rw [Call.look_bind]
  change (Call.require (self.inerr == false) Errno.ECONNRESET >>= _) (self, s) = _
  rw [hin, beq_self_eq_true, Call.bind_ret Call.require_true, Call.look_bind,
    Call.bind_ret (recvl_run h), Call.look_bind]

theorem mrecvl_open {szbuf : List UInt8} (hin : self.inerr = false)
    (h : u.brecvl s [self.hdrlen] true = some (.ok szbuf, s')) :
    mrecvl u first ends (self, s) = body u first ends (self.getHdr szbuf).toNat (self, s') :=
  mrecvlInto_open hin h

theorem body_refused {sz : ℕ} (hfirst : first ≠ []) (h : trim sz (first.map Elem.len) = none) :
    body u first ends sz (self, s) = .ok (.error .EMSGSIZE, { self with inerr := true }, s) := by
  unfold body
  rw [show first.isEmpty = false by simpa using hfirst, if_neg Bool.false_ne_true, h]
  rfl

theorem body_fits {sz : ℕ} (hfirst : first ≠ [])
    (h : trim sz (first.map Elem.len) = some (lens, e)) :
    body u first ends sz (self, s)
      = (recvl u lens (e && ends) >>= fun data => pure (sz, fill data first)) (self, s) := by
  unfold body
  rw [show first.isEmpty = false by simpa using hfirst, if_neg Bool.false_ne_true, h]

/-- A message that does not fit is refused. -/
theorem mrecvlInto_refused (hin : self.inerr = false) (hfirst : first ≠ [])
    (h : (v []).brecvl s [self.hdrlen] true = some (.ok (self.putHdr (UInt64.ofNat m.length)), s'))
    (htrim : trim (self.sizeSeen m) (first.map Elem.len) = none) :
    mrecvlInto v first ends (self, s)
      = .ok (.error .EMSGSIZE, { self with inerr := true }, s') := by
  rw [mrecvlInto_open hin h, getHdr_frame, body_refused hfirst htrim]

/-- A message that fits is received into the trimmed iolist. -/
theorem mrecvlInto_body (hin : self.inerr = false) (hfirst : first ≠ [])
    (h : (v []).brecvl s [self.hdrlen] true = some (.ok (self.putHdr (UInt64.ofNat m.length)), s'))
    (htrim : trim (self.sizeSeen m) (first.map Elem.len) = some (lens, e)) :
    mrecvlInto v first ends (self, s) = (recvl (v first) lens (e && ends) >>= fun data =>
      pure (self.sizeSeen m, fill data first)) (self, s') := by
  rw [mrecvlInto_open hin h, getHdr_frame, body_fits hfirst htrim]

theorem recvl_inv {bs : List UInt8} {self' : PrefixSock}
    (h : recvl u lens ends (self, s) = .ok (.ok bs, self', s')) :
    u.brecvl s lens ends = some (.ok bs, s') ∧ self' = self := by
  cases hr : u.brecvl s lens ends with
  | none =>
    rw [recvl_waits hr] at h
    cases h
  | some r =>
    obtain ⟨o, s₁⟩ := r
    cases o with
    | error err =>
      rw [recvl_fails hr] at h
      cases h
    | ok data =>
      rw [recvl_run hr] at h
      cases h
      exact ⟨rfl, rfl⟩

theorem mrecvl_inv {r : ℕ × List Elem} {self' : PrefixSock}
    (h : mrecvl u first ends (self, s) = .ok (.ok r, self', s')) :
    self.inerr = false ∧ ∃ szbuf s₁, u.brecvl s [self.hdrlen] true = some (.ok szbuf, s₁) ∧
      body u first ends (self.getHdr szbuf).toNat (self, s₁) = .ok (.ok r, self', s') := by
  unfold mrecvl mrecvlInto at h
  rw [Call.look_bind] at h
  obtain ⟨_, s₀, hreq, h⟩ := Call.ret_of_bind h
  cases hin : self.inerr with
  | true =>
    change Call.require (self.inerr == false) Errno.ECONNRESET (self, s) = _ at hreq
    rw [hin] at hreq
    cases hreq
  | false =>
    change Call.require (self.inerr == false) Errno.ECONNRESET (self, s) = _ at hreq
    rw [hin, beq_self_eq_true, Call.require_true] at hreq
    cases hreq
    rw [Call.look_bind] at h
    obtain ⟨szbuf, ⟨self₁, s₁⟩, hread, hbody⟩ := Call.ret_of_bind h
    obtain ⟨hhdr, rfl⟩ := recvl_inv hread
    exact ⟨rfl, szbuf, s₁, hhdr, hbody⟩

/-- On an iolist that ends in `last` the function does what `PrefixSock.mrecvl` does, which is about
the bytes that are stored. -/
theorem mrecvl_lens {self' : PrefixSock} {r : List Elem}
    (h : mrecvl u first true (self, s) = .ok (.ok (k, r), self', s')) :
    ∃ sz data, self.mrecvl u s (first.map Elem.len) = some (.ok (sz, data), self', s') ∧
      r = fill data first ∧ (k < 2 ^ 63 → sz = k) := by
  obtain ⟨hin, szbuf, s₁, hhdr, hbody⟩ := mrecvl_inv h
  have hssize : ∀ sz : UInt64, sz.toNat < 2 ^ 63 → sz.toInt64.toInt = (sz.toNat : ℤ) :=
    fun sz hlt => ssize_eq_iff.mpr ⟨rfl, hlt⟩
  have hempty : (first.map Elem.len).isEmpty = first.isEmpty := by
    cases first <;> rfl
  unfold PrefixSock.mrecvl
  simp only [hin, hhdr, hempty, Bool.false_eq_true, if_false]
  unfold body at hbody
  cases hnil : first.isEmpty with
  | true =>
    rw [hnil, if_pos rfl] at hbody
    obtain ⟨_, ⟨self₂, s₂⟩, hread, hret⟩ := Call.ret_of_bind hbody
    obtain ⟨hskip, rfl⟩ := recvl_inv hread
    cases hret
    simp only [hskip, if_true]
    rw [List.isEmpty_iff.mp hnil]
    exact ⟨_, [], rfl, rfl, hssize _⟩
  | false =>
    rw [hnil, if_neg Bool.false_ne_true] at hbody
    cases htrim : trim (self.getHdr szbuf).toNat (first.map Elem.len) with
    | none =>
      rw [htrim] at hbody
      cases hbody
    | some t =>
      obtain ⟨lens', e⟩ := t
      rw [htrim] at hbody
      obtain ⟨data, ⟨self₂, s₂⟩, hread, hret⟩ := Call.ret_of_bind hbody
      obtain ⟨hdata, rfl⟩ := recvl_inv hread
      cases hret
      rw [Bool.and_true] at hdata
      simp only [hdata, Bool.false_eq_true, if_false]
      exact ⟨_, data, rfl, rfl, hssize _⟩

/-! ## Where a message ends -/

theorem trim_eq_none (h : lens ≠ []) : trim k lens = none ↔ lens.sum < k := by
  induction lens generalizing k with
  | nil => exact absurd rfl h
  | cons len next ih =>
    unfold trim
    rw [List.sum_cons]
    split
    · simp
      omega
    · rw [Option.map_eq_none_iff]
      cases next with
      | nil =>
        simp [trim]
        omega
      | cons len' next =>
        rw [ih (List.cons_ne_nil _ _)]
        omega

theorem trim_ne_nil (h : trim k lens = some (lens', e)) : lens ≠ [] := by
  rintro rfl
  cases h

theorem trim_sum (h : trim k lens = some (lens', e)) : lens'.sum = k := by
  induction lens generalizing k lens' with
  | nil => cases h
  | cons len next ih =>
    unfold trim at h
    split at h
    · cases h
      exact List.sum_singleton
    · obtain ⟨⟨r, e'⟩, hr, heq⟩ := Option.map_eq_some_iff.mp h
      cases heq
      rw [List.sum_cons, ih hr]
      omega

/-- The trimmed iolist ends in `last` if all the elements before it are used up. -/
theorem trim_ends (hk : 0 < k) (h : trim k lens = some (lens', e)) :
    e = true ↔ lens.dropLast.sum < k := by
  induction lens generalizing k lens' with
  | nil => cases h
  | cons len next ih =>
    unfold trim at h
    split at h
    · rename_i hle
      cases h
      cases next with
      | nil => simpa using hk
      | cons len' next =>
        rw [List.dropLast_cons_cons, List.sum_cons, List.isEmpty_cons]
        simp
        omega
    · obtain ⟨⟨r, e'⟩, hr, heq⟩ := Option.map_eq_some_iff.mp h
      cases heq
      rw [ih (by omega) hr, List.dropLast_cons_of_ne_nil (trim_ne_nil hr), List.sum_cons]
      omega

/-- There is more than one element in the trimmed iolist, from the first one with room on, if the
message is longer than that one. -/
theorem trim_loose (hk : 0 < k) (h : trim k lens = some (lens', e)) :
    1 < (lens'.dropWhile (· == 0)).length ↔ (lens.dropWhile (· == 0)).headD 0 < k := by
  induction lens generalizing k lens' with
  | nil => cases h
  | cons len next ih =>
    unfold trim at h
    split at h
    · rename_i hle
      cases h
      have hk' : (k == 0) = false := by simpa using hk.ne'
      have hlen : (len == 0) = false := by
        rw [beq_eq_false_iff_ne]
        omega
      simp only [List.dropWhile, hk', hlen, List.length_singleton, List.headD_cons]
      omega
    · rename_i hgt
      obtain ⟨⟨r, e'⟩, hr, heq⟩ := Option.map_eq_some_iff.mp h
      cases heq
      have hne : r ≠ [] := by
        rintro rfl
        have hsum := trim_sum hr
        rw [List.sum_nil] at hsum
        omega
      by_cases hlen : len = 0
      · rw [hlen, List.dropWhile_cons_of_pos (by rfl), List.dropWhile_cons_of_pos (by rfl)]
        rw [hlen] at hr
        exact ih hk hr
      · have hpos := List.length_pos_iff.mpr hne
        rw [List.dropWhile_cons_of_neg (by simpa using hlen),
          List.dropWhile_cons_of_neg (by simpa using hlen), List.length_cons, List.headD_cons]
        change 1 < r.length + 1 ↔ len < k
        omega

/-- There is more than one element in the trimmed iolist if the message is longer than the first. -/
theorem trim_many (h : trim k lens = some (lens', e)) : 1 < lens'.length ↔ lens.headD 0 < k := by
  cases lens with
  | nil => cases h
  | cons len next =>
    unfold trim at h
    rw [List.headD_cons]
    split at h
    · rename_i hle
      cases h
      rw [List.length_singleton]
      omega
    · rename_i hgt
      obtain ⟨⟨r, e'⟩, hr, heq⟩ := Option.map_eq_some_iff.mp h
      cases heq
      have hne : r ≠ [] := by
        rintro rfl
        have hsum := trim_sum hr
        rw [List.sum_nil] at hsum
        omega
      have hpos := List.length_pos_iff.mpr hne
      rw [List.length_cons]
      change 1 < r.length + 1 ↔ len < k
      omega

end Libdill.Prefix
