import Mathlib.Data.List.Basic
import Mathlib.Tactic.Ring

/-! Fields of a fixed width.  Where all fields are as long as they may be, texts are ordered as their
fields are, one after the other; and numbers that are written with leading zeros are ordered as
numbers are. -/

namespace ProofKit

section Order

variable {α : Type*} [LT α]

/-- Texts with a first field of the same length. -/
theorem append_lt_append_iff {a b c d : List α} (h : a.length = b.length) :
    a ++ c < b ++ d ↔ a < b ∨ a = b ∧ c < d := by
  induction a generalizing b with
  | nil =>
    rw [List.eq_nil_of_length_eq_zero h.symm]
    simp
  | cons x a ih =>
    cases b with
    | nil => cases h
    | cons y b =>
      rw [List.cons_append, List.cons_append, List.cons_lt_cons_iff, List.cons_lt_cons_iff,
        ih (Nat.succ.inj h), List.cons.injEq]
      tauto

end Order

variable {α : Type*} (digit : Nat → α)

/-- The last `w` digits of a number. -/
def fixedWidth : Nat → Nat → List α
  | 0, _ => []
  | w + 1, n => digit (n / 10 ^ w % 10) :: fixedWidth w n

variable {digit}

@[simp] theorem fixedWidth_length (w n : Nat) : (fixedWidth digit w n).length = w := by
  induction w with
  | zero => rfl
  | succ w ih => rw [fixedWidth, List.length_cons, ih]

/-- The last digit stands at the end. -/
theorem fixedWidth_concat (w n : Nat) :
    fixedWidth digit (w + 1) n = fixedWidth digit w (n / 10) ++ [digit (n % 10)] := by
  induction w with
  | zero => simp [fixedWidth]
  | succ w ih =>
    rw [fixedWidth, ih, fixedWidth, List.cons_append, Nat.div_div_eq_div_mul, pow_succ, mul_comm]

theorem fixedWidth_zero (w : Nat) : fixedWidth digit w 0 = List.replicate w (digit 0) := by
  induction w with
  | zero => rfl
  | succ w ih => rw [fixedWidth, ih, Nat.zero_div, List.replicate_succ]

theorem mem_fixedWidth {w n : Nat} {x : α} (h : x ∈ fixedWidth digit w n) :
    ∃ d < 10, x = digit d := by
  induction w with
  | zero => cases h
  | succ w ih =>
    rcases List.mem_cons.mp h with rfl | h
    · exact ⟨_, Nat.mod_lt _ (by decide), rfl⟩
    · exact ih h

section Digits

variable [LT α]
  (hdigit : ∀ d e, d < 10 → e < 10 → (digit d < digit e ↔ d < e))

include hdigit

theorem digit_inj {d e : Nat} (hd : d < 10) (he : e < 10) (h : digit d = digit e) : d = e := by
  have hirrefl := mt (hdigit e e he he).mp (Nat.lt_irrefl e)
  have hle := mt (hdigit d e hd he).mpr (h ▸ hirrefl)
  have hge := mt (hdigit e d he hd).mpr (h ▸ hirrefl)
  omega

/-- Numbers with as many digits are ordered as these are. -/
theorem fixedWidth_lt_iff (w m n : Nat) :
    fixedWidth digit w m < fixedWidth digit w n ↔ m % 10 ^ w < n % 10 ^ w := by
  induction w with
  | zero => simp [fixedWidth, Nat.mod_one]
  | succ w ih =>
    have hq := Nat.mod_lt (m / 10 ^ w) (show 0 < 10 by decide)
    have hr := Nat.mod_lt (n / 10 ^ w) (show 0 < 10 by decide)
    have hm := Nat.mod_lt m (Nat.pow_pos (n := w) (show 0 < 10 by decide))
    have hn := Nat.mod_lt n (Nat.pow_pos (n := w) (show 0 < 10 by decide))
    rw [fixedWidth, fixedWidth, List.cons_lt_cons_iff, ih, hdigit _ _ hq hr, Nat.mod_pow_succ,
      Nat.mod_pow_succ]
    generalize m / 10 ^ w % 10 = q at hq
    generalize n / 10 ^ w % 10 = r at hr
    rcases Nat.lt_trichotomy q r with hlt | rfl | hlt
    · have hmul := Nat.mul_le_mul_left (10 ^ w) hlt
      rw [Nat.mul_succ] at hmul
      exact iff_of_true (.inl hlt) (by omega)
    · simp
    · have hmul := Nat.mul_le_mul_left (10 ^ w) hlt
      rw [Nat.mul_succ] at hmul
      have hne : digit q ≠ digit r := fun h => Nat.ne_of_gt hlt (digit_inj hdigit hq hr h)
      refine iff_of_false ?_ (by omega)
      rintro (h | ⟨h, -⟩)
      · exact Nat.lt_asymm hlt h
      · exact hne h

theorem fixedWidth_inj {w m n : Nat} (h : fixedWidth digit w m = fixedWidth digit w n) :
    m % 10 ^ w = n % 10 ^ w := by
  have hirrefl := mt (fixedWidth_lt_iff hdigit w n n).mp (Nat.lt_irrefl _)
  have hle := mt (fixedWidth_lt_iff hdigit w m n).mpr (h ▸ hirrefl)
  have hge := mt (fixedWidth_lt_iff hdigit w n m).mpr (h ▸ hirrefl)
  omega

end Digits

end ProofKit
