import Mathlib.Algebra.Ring.Int.Defs
import Mathlib.Data.List.Induction

/-! Times at which something happens again: how far they are apart bounds how many there are. -/

namespace ProofKit

/-- Each time is at least `gap` after every earlier one. -/
def Spaced (gap : Int) (times : List Int) : Prop :=
  times.Pairwise fun a b => a + gap ≤ b

/-- The times of a window. -/
def within (a b : Int) (times : List Int) : List Int :=
  times.filter fun t => a ≤ t ∧ t ≤ b

variable {gap : Int} {times : List Int}

theorem spaced_nil : Spaced gap [] := List.Pairwise.nil

theorem spaced_singleton (time : Int) : Spaced gap [time] := List.pairwise_singleton _ _

theorem Spaced.sublist {times' : List Int} (h : Spaced gap times) (hsub : times'.Sublist times) :
    Spaced gap times' :=
  List.Pairwise.sublist hsub h

/-- No time is later than the last. -/
theorem Spaced.le_last (h : Spaced gap times) (hgap : 0 ≤ gap) {last : Int}
    (hlast : times.getLast? = some last) {time : Int} (htime : time ∈ times) : time ≤ last := by
  obtain ⟨earlier, rfl⟩ := List.getLast?_eq_some_iff.mp hlast
  rcases List.mem_append.mp htime with htime | htime
  · have hle := (List.pairwise_append.mp h).2.2 time htime last (List.mem_singleton_self last)
    omega
  · exact Int.le_of_eq (List.mem_singleton.mp htime)

/-- One more time, far enough from the last. -/
theorem Spaced.concat (h : Spaced gap times) (hgap : 0 ≤ gap) {now : Int}
    (hnow : ∀ last, times.getLast? = some last → last + gap ≤ now) :
    Spaced gap (times ++ [now]) := by
  refine List.pairwise_append.mpr ⟨h, List.pairwise_singleton _ _, ?_⟩
  intro time htime time' htime'
  rw [List.mem_singleton.mp htime']
  cases hlast : times.getLast? with
  | none =>
    rw [List.getLast?_eq_none_iff.mp hlast] at htime
    cases htime
  | some last =>
    have hle := h.le_last hgap hlast htime
    have hgap := hnow last hlast
    omega

/-- Times that are `gap` apart need `gap` each, apart from the first. -/
theorem Spaced.length_mul_le (h : Spaced gap times) (hgap : 0 ≤ gap) {a b : Int} (hab : a ≤ b)
    (hwithin : ∀ time ∈ times, a ≤ time ∧ time ≤ b) : times.length * gap ≤ b - a + gap := by
  induction times generalizing a with
  | nil =>
    rw [List.length_nil, Int.natCast_zero, Int.zero_mul]
    omega
  | cons time times ih =>
    have hcons := List.pairwise_cons.mp h
    have htime := hwithin time List.mem_cons_self
    rw [List.length_cons, Int.natCast_add, Int.natCast_one, Int.add_mul, Int.one_mul]
    cases times with
    | nil =>
      rw [List.length_nil, Int.natCast_zero, Int.zero_mul]
      omega
    | cons time' times =>
      have hnext := hcons.1 time' List.mem_cons_self
      have hbound := (hwithin time' (by simp)).2
      -- what follows the first time lies in the window that starts a gap after it
      have hrest := ih (a := time + gap) hcons.2 (by omega) fun t ht =>
        ⟨hcons.1 t ht, (hwithin t (List.mem_cons_of_mem _ ht)).2⟩
      omega

/-- How many times lie in a window. -/
theorem Spaced.within_length (h : Spaced gap times) (hgap : 0 ≤ gap) {a b : Int} (hab : a ≤ b) :
    (within a b times).length * gap ≤ b - a + gap := by
  apply (h.sublist List.filter_sublist).length_mul_le hgap hab
  intro time htime
  simpa using (List.mem_filter.mp htime).2

end ProofKit
