import Mathlib.Data.List.Forall2
import Patrol.ProofKit.Scanner

/-! Loops that move an index through a buffer, as scans of the buffer.  The body of such a loop looks
at the buffer from the index on and breaks, adds one to the index, or adds the width of an item that
it emits.  A body faults where it reads outside its buffer, or where it subtracts sizes by an
operation that faults. -/

namespace ProofKit

/-- A subtraction of sizes, which is exact where the result is not negative. -/
structure SizeSub where
  sub : Nat → Nat → Option Nat
  exact : ∀ {a b}, b ≤ a → sub a b = some (a - b)

/-- Subtraction on a 64-bit `size_t`, which wraps below zero. -/
def wrappingSub (a b : Nat) : Option Nat := some (if b ≤ a then a - b else a + UInt64.size - b)

/-- Subtraction that faults where `wrappingSub` wraps. -/
def checkedSub (a b : Nat) : Option Nat := if b ≤ a then some (a - b) else none

theorem wrappingSub_exact {a b : Nat} (h : b ≤ a) : wrappingSub a b = some (a - b) := by
  rw [wrappingSub, if_pos h]

theorem checkedSub_exact {a b : Nat} (h : b ≤ a) : checkedSub a b = some (a - b) := if_pos h

def wrapping : SizeSub := ⟨wrappingSub, @wrappingSub_exact⟩

def checked : SizeSub := ⟨checkedSub, @checkedSub_exact⟩

theorem checked_sub_isSome {a b : Nat} : (checked.sub a b).isSome ↔ b ≤ a := by
  simp [checked, checkedSub]

/-- The loop with `body` from an index on: the items in order and the index at which it breaks, or
`none` where the body faults or the fuel runs out. -/
def indexLoop {δ : Type} (body : Nat → Option (Verdict δ)) : Nat → Nat → Option (List δ × Nat)
  | 0, _ => none
  | fuel + 1, off =>
    match body off with
    | none => none
    | some .wait => some ([], off)
    | some .skip => indexLoop body fuel (off + 1)
    | some (.take n e) => (indexLoop body fuel (off + n)).map fun r => (e :: r.1, r.2)

theorem mapM_forall₂ {β γ : Type} {f : β → Option γ} {xs : List β} {ys : List γ}
    (h : xs.mapM f = some ys) : List.Forall₂ (fun x y => f x = some y) xs ys := by
  induction xs generalizing ys with
  | nil =>
    cases h
    exact .nil
  | cons x xs ih =>
    rw [List.mapM_cons] at h
    obtain ⟨y, hy, h⟩ := Option.bind_eq_some_iff.mp h
    obtain ⟨zs, hzs, h⟩ := Option.bind_eq_some_iff.mp h
    cases h
    exact .cons hy (ih hzs)

theorem forall₂_mem_left {β γ : Type} {R : β → γ → Prop} {xs : List β} {ys : List γ}
    (h : List.Forall₂ R xs ys) {x : β} (hx : x ∈ xs) : ∃ y ∈ ys, R x y := by
  induction h with
  | nil => cases hx
  | cons hr _ ih =>
    rcases List.mem_cons.mp hx with rfl | hx
    · exact ⟨_, List.mem_cons_self, hr⟩
    · obtain ⟨y, hy, hxy⟩ := ih hx
      exact ⟨y, List.mem_cons_of_mem _ hy, hxy⟩

theorem mapM_isSome {β γ : Type} {f : β → Option γ} {xs : List β} :
    (xs.mapM f).isSome ↔ ∀ x ∈ xs, (f x).isSome := by
  induction xs with
  | nil => simp
  | cons x xs ih =>
    rw [List.mapM_cons, List.forall_mem_cons, ← ih]
    cases f x <;> cases xs.mapM f <;> simp

variable {α ε δ : Type} (S : Scanner α ε)

/-- The number of symbols that a scan consumes. -/
def Scanner.consumed (b : List α) : Nat := b.length - (S.rest b).length

theorem Scanner.consumed_eq (b : List α) :
    S.consumed b = ((S.scan b).1.flatMap Piece.symbols).length := by
  have hl := S.scan_length b
  simp only [consumed, rest]
  omega

theorem Scanner.drop_consumed (b : List α) : b.drop (S.consumed b) = S.rest b := by
  have hd : ((S.scan b).1.flatMap Piece.symbols ++ (S.scan b).2).drop
      ((S.scan b).1.flatMap Piece.symbols).length = (S.scan b).2 := List.drop_left
  rwa [S.scan_partition b, ← S.consumed_eq] at hd

/-- Erasing what a scan consumed, if anything, leaves what the scan left. -/
theorem Scanner.erase_consumed (b : List α) :
    (if 0 < S.consumed b then b.drop (S.consumed b) else b) = S.rest b := by
  have hdrop := S.drop_consumed b
  split
  · exact hdrop
  · rename_i hzero
    rwa [Nat.eq_zero_of_not_pos hzero, List.drop_zero] at hdrop

/-- The located items of two parts: those of the first, and then those of what it left with the
second. -/
theorem Scanner.located_scan_append (off : Nat) (b c : List α) :
    located off (S.scan (b ++ c)).1 =
      located off (S.scan b).1 ++ located (off + S.consumed b) (S.scan (S.rest b ++ c)).1 := by
  rw [S.scan_append b c, located_append, S.consumed_eq]
  rfl

theorem Scanner.consumed_next {b : List α} (h : S.verdict b ≠ .wait) :
    S.consumed b = (S.verdict b).width + S.consumed (b.drop (S.verdict b).width) := by
  have hle := S.width_le b
  have hl := S.scan_length (b.drop (S.verdict b).width)
  simp only [consumed, rest, S.scan_next h, List.length_drop] at hl ⊢
  omega

/-- The located items of a buffer from an index on: that of the first step, if any, and the others. -/
theorem Scanner.located_next {b : List α} {off : Nat} (h : S.verdict (b.drop off) ≠ .wait) :
    located off (S.scan (b.drop off)).1 =
      ((S.verdict (b.drop off)).item?.map fun e => (off, e)).toList ++
        located (off + (S.verdict (b.drop off)).width)
          (S.scan (b.drop (off + (S.verdict (b.drop off)).width))).1 := by
  rw [S.scan_next h, located, List.drop_drop, List.length_take, Nat.min_eq_left (S.width_le _)]

/-- A loop whose body is the scanner's verdict at each index, with the items replaced by `f`, takes
the steps of the scan: it never runs out of fuel, and it faults only where `f` does. -/
theorem indexLoop_eq_scan {b : List α} {body : Nat → Option (Verdict δ)}
    {f : Nat → ε → Option δ}
    (hbody : ∀ off ≤ b.length, body off = (S.verdict (b.drop off)).mapM (f off))
    {fuel off : Nat} (hoff : off ≤ b.length) (hfuel : b.length - off < fuel) :
    indexLoop body fuel off =
      ((located off (S.scan (b.drop off)).1).mapM fun x => f x.1 x.2).map
        fun ds => (ds, off + S.consumed (b.drop off)) := by
  induction fuel generalizing off with
  | zero => omega
  | succ fuel ih =>
    have hle := S.width_le (b.drop off)
    rw [List.length_drop] at hle
    rw [indexLoop, hbody off hoff]
    cases hv : S.verdict (b.drop off) with
    | wait => simp [S.scan_wait hv, located, Scanner.consumed, S.rest_wait hv]
    | skip =>
      have hne : S.verdict (b.drop off) ≠ .wait := by simp [hv]
      have hlocated := S.located_next hne
      have hconsumed := S.consumed_next hne
      simp only [hv, Verdict.width_skip, Verdict.item?_skip, Option.map_none, Option.toList_none,
        List.nil_append, List.drop_drop] at hle hlocated hconsumed
      rw [hlocated, hconsumed, Verdict.mapM_skip]
      simp only [ih (show off + 1 ≤ b.length by omega) (by omega), Nat.add_assoc]
    | take n e =>
      have hne : S.verdict (b.drop off) ≠ .wait := by simp [hv]
      have hpos := S.take_pos hv
      have hlocated := S.located_next hne
      have hconsumed := S.consumed_next hne
      simp only [hv, Verdict.width_take, Verdict.item?_take, Option.map_some, Option.toList_some,
        List.singleton_append, List.drop_drop] at hle hlocated hconsumed
      rw [hlocated, hconsumed, Verdict.mapM_take, List.mapM_cons]
      cases hf : f off e with
      | none => rfl
      | some d =>
        simp only [Option.map_some, ih (show off + n ≤ b.length by omega) (by omega)]
        cases (located (off + n) (S.scan (b.drop (off + n))).1).mapM fun x => f x.1 x.2 with
        | none => rfl
        | some ds => simp [Nat.add_assoc]

/-- A loop over a whole buffer whose items are always replaced never faults. -/
theorem indexLoop_total {b : List α} {body : Nat → Option (Verdict δ)} {f : Nat → ε → δ}
    (hbody : ∀ off ≤ b.length, body off = (S.verdict (b.drop off)).mapM fun e => some (f off e)) :
    indexLoop body (b.length + 1) 0 =
      some ((located 0 (S.scan b).1).map fun x => f x.1 x.2, S.consumed b) := by
  have hpure : ∀ xs : List (Nat × ε), (xs.mapM fun x => some (f x.1 x.2)) =
      some (xs.map fun x => f x.1 x.2) := fun xs => List.mapM_pure
  rw [indexLoop_eq_scan S hbody (Nat.zero_le _) (by omega), List.drop_zero, hpure,
    Option.map_some, Nat.zero_add]

end ProofKit
