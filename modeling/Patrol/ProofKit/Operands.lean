import Mathlib.Data.List.Basic

/-! Words of which some have the next word as their operand.  A loop that goes over the operands
looks at the word at a position exactly if an even number of words that take an operand stand
directly before it. -/

namespace ProofKit

variable {α : Type*} (takes : α → Bool)

/-- How many words with `takes` stand directly before a position. -/
def runBefore (l : List α) (i : Nat) : Nat := ((l.take i).reverse.takeWhile takes).length

/-- The number of words with `takes` directly before a position is even. -/
def EvenRun (l : List α) (i : Nat) : Prop := runBefore takes l i % 2 = 0

instance (l : List α) (i : Nat) : Decidable (EvenRun takes l i) :=
  inferInstanceAs (Decidable (_ = _))

/-- The words with an even run before them, each with the word behind it. -/
def looked (l : List α) : List (α × Option α) :=
  (List.range l.length).filterMap fun i =>
    if EvenRun takes l i then l[i]?.map fun a => (a, l[i + 1]?) else none

variable {takes}

theorem evenRun_zero (l : List α) : EvenRun takes l 0 := rfl

/-- The word behind one that is looked at is its operand, or is looked at next. -/
theorem evenRun_succ {l : List α} {i : Nat} {a : α} (h : l[i]? = some a) :
    EvenRun takes l (i + 1) ↔ ¬ (takes a = true ∧ EvenRun takes l i) := by
  rw [EvenRun, EvenRun, runBefore, runBefore, List.take_add_one, h, Option.toList_some,
    List.reverse_append, List.reverse_singleton, List.singleton_append, List.takeWhile_cons]
  cases takes a with
  | false => simp
  | true =>
    simp only [if_true, List.length_cons, true_and]
    omega

theorem evenRun_cons {a : α} (ha : takes a = false) (l : List α) {i : Nat} (hi : i ≤ l.length) :
    EvenRun takes (a :: l) (i + 1) ↔ EvenRun takes l i := by
  induction i with
  | zero => simp [evenRun_succ (show (a :: l)[0]? = some a from rfl), ha, evenRun_zero]
  | succ i ih =>
    have hget := List.getElem?_eq_getElem hi
    rw [evenRun_succ (show (a :: l)[i + 1]? = some l[i] from hget), evenRun_succ hget,
      ih (Nat.le_of_lt hi)]

theorem evenRun_cons₂ {a : α} (ha : takes a = true) (v : α) (l : List α) {i : Nat}
    (hi : i ≤ l.length) : EvenRun takes (a :: v :: l) (i + 2) ↔ EvenRun takes l i := by
  induction i with
  | zero =>
    rw [evenRun_succ (show (a :: v :: l)[1]? = some v from rfl),
      evenRun_succ (show (a :: v :: l)[0]? = some a from rfl)]
    simp [ha, evenRun_zero]
  | succ i ih =>
    have hget := List.getElem?_eq_getElem hi
    rw [evenRun_succ (show (a :: v :: l)[i + 2]? = some l[i] from hget), evenRun_succ hget,
      ih (Nat.le_of_lt hi)]

/-! ### The words one by one -/

@[simp] theorem looked_nil : looked takes ([] : List α) = [] := rfl

@[simp] theorem looked_singleton (a : α) : looked takes [a] = [(a, none)] := rfl

theorem looked_pass {a : α} (ha : takes a = false) (l : List α) :
    looked takes (a :: l) = (a, l.head?) :: looked takes l := by
  rw [looked, List.length_cons, List.range_succ_eq_map, List.filterMap_cons_some,
    List.filterMap_map]
  · rw [looked, List.cons_inj_right]
    apply List.filterMap_congr
    intro i hi
    have hlt := List.mem_range.mp hi
    simp [evenRun_cons ha l (Nat.le_of_lt hlt)]
  · rw [if_pos (evenRun_zero _), List.head?_eq_getElem?]
    rfl

theorem looked_take {a : α} (ha : takes a = true) (v : α) (l : List α) :
    looked takes (a :: v :: l) = (a, some v) :: looked takes l := by
  have hodd : ¬ EvenRun takes (a :: v :: l) 1 := by
    rw [evenRun_succ (show (a :: v :: l)[0]? = some a from rfl)]
    simp [ha, evenRun_zero]
  rw [looked, List.length_cons, List.length_cons, List.range_succ_eq_map, List.range_succ_eq_map,
    List.filterMap_cons_some, List.map_cons, List.filterMap_cons_none, List.map_map,
    List.filterMap_map]
  · rw [looked, List.cons_inj_right]
    apply List.filterMap_congr
    intro i hi
    have hlt := List.mem_range.mp hi
    simp [evenRun_cons₂ ha v l (Nat.le_of_lt hlt)]
  · exact if_neg hodd
  · exact if_pos (evenRun_zero _)

end ProofKit
