import Mathlib.Data.List.TakeWhile

/-! Runs of symbols of one kind, taken off a text as long as they are. -/

namespace ProofKit

variable {α : Type*} {p : α → Bool}

/-- A run of symbols ends before what comes here. -/
def Stops (p : α → Bool) (r : List α) : Prop := ∀ c ∈ r.head?, p c = false

theorem stops_nil : Stops p [] := by
  intro c hc
  cases hc

theorem stops_cons {c : α} {r : List α} : Stops p (c :: r) ↔ p c = false := by
  simp [Stops]

theorem Stops.left {t r : List α} (h : Stops p (t ++ r)) : Stops p t := by
  cases t with
  | nil => exact stops_nil
  | cons c t => exact stops_cons.mpr (stops_cons.mp h)

theorem Stops.append {t r : List α} (ht : Stops p t) (hr : Stops p r) : Stops p (t ++ r) := by
  cases t with
  | nil => exact hr
  | cons c t => exact stops_cons.mpr (stops_cons.mp ht)

theorem Stops.mono {q : α → Bool} {r : List α} (h : Stops q r)
    (himp : ∀ c, p c = true → q c = true) : Stops p r := by
  intro c hc
  have hq := h c hc
  cases hp : p c with
  | false => rfl
  | true => rw [himp c hp] at hq; cases hq

theorem stops_dropWhile (i : List α) : Stops p (i.dropWhile p) := by
  intro c hc
  have hnot := List.head?_dropWhile_not p i
  rw [Option.mem_def.mp hc] at hnot
  exact hnot

theorem takeWhile_of_stops {r : List α} (h : Stops p r) : r.takeWhile p = [] := by
  cases r with
  | nil => rfl
  | cons c r => exact List.takeWhile_cons_of_neg (by simp [stops_cons.mp h])

theorem dropWhile_of_stops {r : List α} (h : Stops p r) : r.dropWhile p = r := by
  cases r with
  | nil => rfl
  | cons c r => exact List.dropWhile_cons_of_neg (by simp [stops_cons.mp h])

/-- The longest run that a text begins with, and what comes after it. -/
theorem span_iff {i run r : List α} :
    (i.takeWhile p = run ∧ i.dropWhile p = r) ↔
      i = run ++ r ∧ (∀ c ∈ run, p c = true) ∧ Stops p r := by
  constructor
  · rintro ⟨rfl, rfl⟩
    exact ⟨List.takeWhile_append_dropWhile.symm, fun c hc => List.mem_takeWhile_imp hc,
      stops_dropWhile i⟩
  · rintro ⟨rfl, hrun, hr⟩
    rw [List.takeWhile_append_of_pos hrun, List.dropWhile_append_of_pos hrun,
      takeWhile_of_stops hr, dropWhile_of_stops hr, List.append_nil]
    exact ⟨rfl, rfl⟩

end ProofKit
