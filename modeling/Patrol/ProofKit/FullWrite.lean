import Mathlib.Data.List.Basic

/-! Writing a buffer in full through a call that may take a part of what it is offered.  A full write
repeats the call on what is left, also after an error that it retries, and gives up on a call that
takes nothing and on every other error.  `fullWrite` counts symbols; the symbols themselves are the
ones at these positions of the buffer. -/

namespace ProofKit

/-- What one call returns: the number of symbols that it took, or an error. -/
inductive WriteResult (ε : Type)
  | wrote (n : Nat)
  | failed (error : ε)
deriving DecidableEq, Repr

/-- A full write so far: whether it succeeded, `none` while it has not returned, the number of
symbols taken, and the results left to later calls. -/
structure Served (ε : Type) where
  ok : Option Bool
  count : Nat
  rest : List (WriteResult ε)

variable {ε : Type} (retry : ε → Bool)

/-- A full write of `n` symbols, given the results of the calls from the first on.  A call takes no
more than it is offered. -/
def fullWrite : List (WriteResult ε) → Nat → Served ε
  | rs, 0 => ⟨some true, 0, rs⟩
  | [], _ + 1 => ⟨none, 0, []⟩
  | .wrote 0 :: rs, _ + 1 => ⟨some false, 0, rs⟩
  | .wrote (m + 1) :: rs, n + 1 =>
    let w := fullWrite rs (n - m)
    { w with count := min (m + 1) (n + 1) + w.count }
  | .failed e :: rs, n + 1 => if retry e then fullWrite rs (n + 1) else ⟨some false, 0, rs⟩

@[simp] theorem fullWrite_zero (rs : List (WriteResult ε)) :
    fullWrite retry rs 0 = ⟨some true, 0, rs⟩ := by
  cases rs <;> rfl

/-- A full write takes no more than its buffer, and all of it exactly when it succeeds. -/
theorem fullWrite_count (rs : List (WriteResult ε)) (n : Nat) :
    (fullWrite retry rs n).count ≤ n ∧
      ((fullWrite retry rs n).ok = some true ↔ (fullWrite retry rs n).count = n) := by
  induction rs generalizing n with
  | nil => cases n <;> simp [fullWrite]
  | cons r rs ih =>
    cases n with
    | zero => simp
    | succ n =>
      match r with
      | .wrote 0 => simp [fullWrite]
      | .wrote (m + 1) =>
        obtain ⟨hle, hiff⟩ := ih (n - m)
        simp only [fullWrite, hiff]
        omega
      | .failed e =>
        simp only [fullWrite]
        split
        · exact ih (n + 1)
        · simp

/-- Whether the first of the results that is not retried lets a symbol through. -/
def accepts : List (WriteResult ε) → Bool
  | [] => false
  | .wrote n :: _ => n != 0
  | .failed e :: rs => retry e && accepts rs

/-- A full write of a non-empty buffer takes a symbol exactly when the results let one through. -/
theorem fullWrite_count_pos (rs : List (WriteResult ε)) (n : Nat) :
    0 < (fullWrite retry rs (n + 1)).count ↔ accepts retry rs = true := by
  induction rs with
  | nil => simp [fullWrite, accepts]
  | cons r rs ih =>
    match r with
    | .wrote 0 => simp [fullWrite, accepts]
    | .wrote (m + 1) =>
      have : 0 < min (m + 1) (n + 1) := by omega
      simp only [fullWrite, accepts, bne_iff_ne, ne_eq, Nat.add_one_ne_zero, not_false_iff, iff_true]
      omega
    | .failed e =>
      cases h : retry e with
      | true => simpa [fullWrite, accepts, h] using ih
      | false => simp [fullWrite, accepts, h]

/-- Whether the first of the results that is not retried takes nothing. -/
def refuses : List (WriteResult ε) → Bool
  | [] => false
  | .wrote n :: _ => n == 0
  | .failed e :: rs => !retry e || refuses rs

/-- A full write of a non-empty buffer fails without a symbol taken exactly when it is refused. -/
theorem fullWrite_refused (rs : List (WriteResult ε)) (n : Nat) :
    (fullWrite retry rs (n + 1)).ok = some false ∧ (fullWrite retry rs (n + 1)).count = 0 ↔
      refuses retry rs = true := by
  induction rs with
  | nil => simp [fullWrite, refuses]
  | cons r rs ih =>
    match r with
    | .wrote 0 => simp [fullWrite, refuses]
    | .wrote (m + 1) => simp [fullWrite, refuses]
    | .failed e =>
      cases h : retry e with
      | true => simpa [fullWrite, refuses, h] using ih
      | false => simp [fullWrite, refuses, h]

/-- Every call takes something or is tried again. -/
def Accepting (rs : List (WriteResult ε)) : Prop :=
  ∀ r ∈ rs, match r with
    | .wrote n => 0 < n
    | .failed e => retry e = true

theorem Accepting.of_cons {r : WriteResult ε} {rs : List (WriteResult ε)}
    (h : Accepting retry (r :: rs)) : Accepting retry rs :=
  fun r' hr => h r' (List.mem_cons_of_mem _ hr)

/-- Such calls never fail a full write, and leave such calls. -/
theorem Accepting.fullWrite {rs : List (WriteResult ε)} (h : Accepting retry rs) (n : Nat) :
    (fullWrite retry rs n).ok ≠ some false ∧ Accepting retry (fullWrite retry rs n).rest := by
  induction rs generalizing n with
  | nil => cases n <;> exact ⟨nofun, h⟩
  | cons r rs ih =>
    cases n with
    | zero =>
      rw [fullWrite_zero]
      exact ⟨nofun, h⟩
    | succ n =>
      match r with
      | .wrote 0 => exact absurd (h (.wrote 0) (by simp)) (Nat.lt_irrefl 0)
      | .wrote (m + 1) => exact ih h.of_cons (n - m)
      | .failed e =>
        have he : retry e = true := h (.failed e) (by simp)
        simp only [ProofKit.fullWrite, he, if_true]
        exact ih h.of_cons (n + 1)

/-- Full writes of a header and then, if that succeeds, of a body. -/
def fullWrite₂ (rs : List (WriteResult ε)) (header body : Nat) : Served ε :=
  let h := fullWrite retry rs header
  if h.ok = some true then
    let b := fullWrite retry h.rest body
    { b with count := header + b.count }
  else h

theorem fullWrite₂_count (rs : List (WriteResult ε)) (header body : Nat) :
    (fullWrite₂ retry rs header body).count ≤ header + body ∧
      ((fullWrite₂ retry rs header body).ok = some true ↔
        (fullWrite₂ retry rs header body).count = header + body) := by
  have hh := fullWrite_count retry rs header
  have hb := fullWrite_count retry (fullWrite retry rs header).rest body
  simp only [fullWrite₂]
  split
  · simp only [hb.2]
    omega
  · rename_i hok
    rw [hh.2] at hok ⊢
    omega

theorem Accepting.fullWrite₂ {rs : List (WriteResult ε)} (h : Accepting retry rs)
    (header body : Nat) : (fullWrite₂ retry rs header body).ok ≠ some false ∧
      Accepting retry (fullWrite₂ retry rs header body).rest := by
  have hheader := h.fullWrite retry header
  simp only [ProofKit.fullWrite₂]
  split
  · exact hheader.2.fullWrite retry body
  · exact hheader

/-- A full write with a header takes a symbol exactly when the results let one through. -/
theorem fullWrite₂_count_pos (rs : List (WriteResult ε)) (header body : Nat) :
    0 < (fullWrite₂ retry rs (header + 1) body).count ↔ accepts retry rs = true := by
  rw [← fullWrite_count_pos retry rs header]
  have hh := (fullWrite_count retry rs (header + 1)).2
  simp only [fullWrite₂]
  split
  · rename_i hok
    have hcount := hh.mp hok
    simp only
    omega
  · rfl

/-- A full write with a header fails without a symbol taken exactly when it is refused. -/
theorem fullWrite₂_refused (rs : List (WriteResult ε)) (header body : Nat) :
    (fullWrite₂ retry rs (header + 1) body).ok = some false ∧
        (fullWrite₂ retry rs (header + 1) body).count = 0 ↔
      refuses retry rs = true := by
  rw [← fullWrite_refused retry rs header]
  have hh := (fullWrite_count retry rs (header + 1)).2
  simp only [fullWrite₂]
  split
  · rename_i hok
    have hcount := hh.mp hok
    simp only [hok, hcount]
    simp
  · rfl

end ProofKit
