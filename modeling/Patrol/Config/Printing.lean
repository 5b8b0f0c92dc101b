import Patrol.Config.ConfigManager
import Patrol.Json.Decoding

/-! Printing: what `%d`, `%u` and `%s` write, as parts of a JSON text. -/

namespace Patrol.Config.ConfigManager

open ProofKit Json

/-- What stands between quotes unchanged: no null byte, no quote and no backslash. -/
def PlainText (s : List UInt8) : Prop := ∀ b ∈ s, b ≠ 0 ∧ b ≠ 0x22 ∧ b ≠ 0x5C

instance (s : List UInt8) : Decidable (PlainText s) := List.decidableBAll _ s

theorem printStr_plain {s : List UInt8} (h : PlainText s) : printStr s = s := by
  rw [printStr, List.takeWhile_eq_self_iff]
  intro b hb
  simpa using (h b hb).1

theorem PlainText.stringText {s : List UInt8} (h : PlainText s) : StringText s s := by
  induction s with
  | nil => exact .nil
  | cons b s ih =>
    obtain ⟨⟨-, hquote, hslash⟩, hs⟩ := List.forall_mem_cons.mp h
    exact .cons (.raw hquote hslash) (ih hs)

/-! ### Digits -/

theorem toUInt8_digit {c : Char} (h : c.isDigit = true) :
    c.toUInt8.toNat = c.toNat ∧ isdigit c.toUInt8 = true := by
  rw [Char.isDigit_iff_toNat] at h
  have hlt : c.toNat < 256 := Nat.lt_of_le_of_lt h.2 (by decide)
  have hnat : c.toUInt8.toNat = c.toNat := by
    rw [Char.toUInt8, UInt32.toNat_toUInt8]
    exact Nat.mod_eq_of_lt hlt
  refine ⟨hnat, ?_⟩
  simp only [isdigit, Bool.and_eq_true, decide_eq_true_eq, UInt8.le_iff_toNat_le, hnat]
  exact h

theorem printNat_isdigit (n : Nat) : ∀ c ∈ printNat n, isdigit c = true := by
  rw [printNat, List.forall_mem_map]
  intro c hc
  exact (toUInt8_digit (Nat.isDigit_of_mem_toDigits (by decide) (by decide) hc)).2

/-- The digits that are printed write the number. -/
theorem decimal_printNat (n : Nat) : decimal (printNat n) = n := by
  have hdigits : ∀ c ∈ Nat.toDigits 10 n, c.toUInt8.toNat = c.toNat := fun c hc =>
    (toUInt8_digit (Nat.isDigit_of_mem_toDigits (by decide) (by decide) hc)).1
  rw [decimal, printNat, List.foldl_map]
  rw [List.foldl_ext _ (fun n c => 10 * n + (c.toNat - '0'.toNat)) 0
    fun m c hc => by rw [hdigits c hc]; rfl]
  rw [← Nat.ofDigitChars_eq_foldl, Nat.ofDigitChars_toDigits (by decide) (by decide)]

/-- The first digit of a number other than zero is not zero. -/
theorem printNat_head {n : Nat} (h : 0 < n) : ∃ d ds, printNat n = d :: ds ∧ d ≠ 0x30 := by
  induction n using Nat.strong_induction_on with
  | _ n ih =>
    by_cases hlt : n < 10
    · rw [printNat, Nat.toDigits_of_lt_base hlt]
      have hdigit : ∀ n < 10, 0 < n → n.digitChar.toUInt8 ≠ 0x30 := by decide
      exact ⟨_, _, rfl, hdigit n hlt h⟩
    · obtain ⟨d, ds, hdigits, hd⟩ := ih (n / 10) (by omega) (by omega)
      rw [printNat] at hdigits
      rw [printNat, Nat.toDigits_of_base_le (by decide) (by omega), List.map_append, hdigits]
      exact ⟨d, ds ++ _, rfl, hd⟩

/-- A number that is printed, with the sign that it has. -/
def printed (x : Int) : Numeral := ⟨decide (x < 0), printNat x.natAbs, none, none⟩

theorem printed_text (x : Int) : (printed x).text = printInt x := by
  by_cases h : x < 0 <;>
    simp [printed, Numeral.text, Numeral.fractionText, Numeral.exponentText, printInt, h]

theorem printed_isJson (x : Int) : (printed x).IsJson := by
  refine ⟨?_, nofun, nofun⟩
  rcases Nat.eq_zero_or_pos x.natAbs with hzero | hpos
  · left
    rw [printed, hzero]
    rfl
  · right
    obtain ⟨d, ds, hdigits, hd⟩ := printNat_head hpos
    refine ⟨d, ds, hdigits, hd, ?_⟩
    rw [← hdigits]
    exact printNat_isdigit _

theorem printed_value (x : Int) : (printed x).value = x := by
  rw [Numeral.value]
  show (if decide (x < 0) = true then -(decimal (printNat x.natAbs) : Int)
    else decimal (printNat x.natAbs)) = x
  rw [decimal_printNat]
  split
  · next h =>
    simp only [decide_eq_true_eq] at h
    omega
  · next h =>
    simp only [decide_eq_true_eq] at h
    omega

theorem printInt_intText (v : Int64) : IntText v (printInt v.toInt) :=
  ⟨printed v.toInt, printed_isJson _, rfl, rfl, printed_value _, (printed_text _).symm⟩

theorem printInt_int32 (x : Int32) : IntText x.toInt64 (printInt x.toInt) := by
  rw [← Int32.toInt_toInt64]
  exact printInt_intText _

theorem ofNat_port (p : UInt16) : (Int64.ofNat p.toNat).toInt = p.toNat := by
  have := p.toNat_lt
  rw [Int64.toInt_ofNat_of_lt (by omega)]

theorem printNat_port (p : UInt16) : IntText (Int64.ofNat p.toNat) (printNat p.toNat) := by
  have h := printInt_intText (Int64.ofNat p.toNat)
  rw [ofNat_port] at h
  exact h

/-- A port is the same after the conversions. -/
theorem toPort_ofNat (p : UInt16) : toPort (Int64.ofNat p.toNat) = p := by
  rw [toPort, Int64.toUInt64_ofNat', UInt64.toUInt16_ofNat', UInt16.ofNat_toNat]

end Patrol.Config.ConfigManager
