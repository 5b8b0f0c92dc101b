import Mathlib.Algebra.CharP.Two
import Mathlib.Algebra.Field.ZMod
import Mathlib.Algebra.Polynomial.FieldDivision
import Mathlib.RingTheory.AdjoinRoot

/-! Cyclic redundancy checks.  A list of bits is a polynomial over the field of two elements,
highest coefficient first.  A shift register with feedback reduces what it is fed modulo its
generator, so a message with its check is accepted exactly when the generator divides it, and what a
check detects is a question of divisibility. -/

namespace ProofKit

open Polynomial

/-- The polynomial of a list of bits, the highest coefficient first. -/
noncomputable def bitPoly : List Bool → (ZMod 2)[X]
  | [] => 0
  | b :: bs => (if b then X ^ bs.length else 0) + bitPoly bs

/-- The bits of two lists added without carry. -/
def xorBits : List Bool → List Bool → List Bool := List.zipWith xor

theorem xorBits_length {a b : List Bool} (h : a.length = b.length) :
    (xorBits a b).length = b.length := by
  rw [xorBits, List.length_zipWith, h, Nat.min_self]

theorem bitPoly_append (a b : List Bool) :
    bitPoly (a ++ b) = X ^ b.length * bitPoly a + bitPoly b := by
  induction a with
  | nil => simp [bitPoly]
  | cons x a ih =>
    rw [List.cons_append, bitPoly, bitPoly, ih, List.length_append, pow_add]
    cases x with
    | false => simp only [Bool.false_eq_true, if_false]; ring
    | true => simp only [if_true]; ring

theorem bitPoly_replicate_false (n : Nat) : bitPoly (List.replicate n false) = 0 := by
  induction n with
  | zero => rfl
  | succ n ih => simp [List.replicate_succ, bitPoly, ih]

theorem bitPoly_xor {a b : List Bool} (h : a.length = b.length) :
    bitPoly (xorBits a b) = bitPoly a + bitPoly b := by
  induction a generalizing b with
  | nil =>
    cases List.eq_nil_of_length_eq_zero h.symm
    simp [xorBits, bitPoly]
  | cons x a ih =>
    cases b with
    | nil => cases h
    | cons y b =>
      have hlen : a.length = b.length := Nat.succ.inj h
      have hrec : bitPoly (List.zipWith xor a b) = bitPoly a + bitPoly b := ih hlen
      have htwo := CharTwo.add_self_eq_zero (X ^ b.length : (ZMod 2)[X])
      rw [xorBits, List.zipWith_cons_cons, bitPoly, bitPoly, bitPoly, hrec, hlen,
        List.length_zipWith, hlen, Nat.min_self]
      cases x <;> cases y <;> simp only [Bool.xor_false, Bool.xor_true, Bool.not_false,
        Bool.not_true, Bool.false_eq_true, if_false, if_true]
      · ring
      · ring
      · ring
      · linear_combination -htwo

theorem bitPoly_degree_lt (bs : List Bool) : (bitPoly bs).degree < bs.length := by
  induction bs with
  | nil => simp [bitPoly]
  | cons b bs ih =>
    have hlt : (bs.length : WithBot Nat) < (b :: bs).length := by
      rw [List.length_cons]
      exact_mod_cast Nat.lt_succ_self _
    apply (degree_add_le _ _).trans_lt
    apply max_lt _ (ih.trans hlt)
    split
    · rwa [degree_X_pow]
    · rw [degree_zero]
      exact WithBot.bot_lt_coe _

/-- A list of bits has the zero polynomial only if no bit is set. -/
theorem bitPoly_eq_zero {bs : List Bool} (h : bitPoly bs = 0) : true ∉ bs := by
  induction bs with
  | nil => exact List.not_mem_nil
  | cons b bs ih =>
    cases b with
    | false =>
      rw [bitPoly, if_neg Bool.false_ne_true, zero_add] at h
      simpa using ih h
    | true =>
      rw [bitPoly, if_pos rfl] at h
      have htop : (X ^ bs.length + bitPoly bs).coeff bs.length = 1 := by
        rw [coeff_add, coeff_X_pow_self, coeff_eq_zero_of_degree_lt (bitPoly_degree_lt bs),
          add_zero]
      rw [h, coeff_zero] at htop
      exact absurd htop zero_ne_one

theorem bitPoly_eval_one (bs : List Bool) : (bitPoly bs).eval 1 = (bs.count true : ZMod 2) := by
  induction bs with
  | nil => simp [bitPoly]
  | cons b bs ih => cases b <;> simp [bitPoly, ih, add_comm]

theorem bitPoly_inj {a b : List Bool} (hlen : a.length = b.length) (h : bitPoly a = bitPoly b) :
    a = b := by
  have hzero : true ∉ xorBits a b := by
    apply bitPoly_eq_zero
    rw [bitPoly_xor hlen, h, CharTwo.add_self_eq_zero]
  clear h
  induction a generalizing b with
  | nil => exact (List.eq_nil_of_length_eq_zero hlen.symm).symm
  | cons x a ih =>
    cases b with
    | nil => cases hlen
    | cons y b =>
      rw [xorBits, List.zipWith_cons_cons, List.mem_cons, not_or] at hzero
      rw [ih (Nat.succ.inj hlen) hzero.2]
      cases x <;> cases y <;> simp_all

variable {g : (ZMod 2)[X]}

/-! ### Shift registers -/

/-- One step of a shift register: the top bit is shifted out, and the taps are flipped where it is
set. -/
def feedback (taps : List Bool) : List Bool → List Bool
  | [] => []
  | b :: r => if b then xorBits (r ++ [false]) taps else r ++ [false]

/-- The check of a message in blocks that are as long as the register. -/
def remainder (taps : List Bool) (blocks : List (List Bool)) : List Bool :=
  blocks.foldl (fun r b => Nat.repeat (feedback taps) taps.length (xorBits r b))
    (List.replicate taps.length false)

theorem feedback_length {taps r : List Bool} (h : r.length = taps.length) :
    (feedback taps r).length = taps.length := by
  cases r with
  | nil => exact h
  | cons b r =>
    rw [List.length_cons] at h
    rw [feedback]
    split
    · rw [xorBits_length]
      simpa using h
    · simpa using h

/-- A step of the register multiplies its polynomial by `X`, modulo the generator. -/
theorem mk_feedback {taps r : List Bool} (hg : g = X ^ taps.length + bitPoly taps)
    (h : r.length = taps.length) :
    AdjoinRoot.mk g (bitPoly (feedback taps r)) = AdjoinRoot.mk g (X * bitPoly r) := by
  have hshift : ∀ r : List Bool, bitPoly (r ++ [false]) = X * bitPoly r := by
    intro r
    rw [bitPoly_append]
    simp [bitPoly]
  cases r with
  | nil => simp [feedback, bitPoly]
  | cons b r =>
    have hlen : (r ++ [false]).length = taps.length := by simpa using h
    rw [List.length_cons] at h
    cases b with
    | false => simp only [feedback, Bool.false_eq_true, if_false, hshift, bitPoly, zero_add]
    | true =>
      have htwo := CharTwo.add_self_eq_zero (bitPoly taps)
      apply AdjoinRoot.mk_eq_mk.mpr
      refine ⟨-1, ?_⟩
      simp only [feedback, if_true, bitPoly_xor hlen, hshift, bitPoly, hg, ← h, pow_succ]
      linear_combination htwo

theorem mk_repeat_feedback {taps : List Bool} (hg : g = X ^ taps.length + bitPoly taps) (n : Nat)
    {r : List Bool} (h : r.length = taps.length) :
    (Nat.repeat (feedback taps) n r).length = taps.length ∧
      AdjoinRoot.mk g (bitPoly (Nat.repeat (feedback taps) n r)) =
        AdjoinRoot.mk g (X ^ n * bitPoly r) := by
  induction n with
  | zero => exact ⟨h, by rw [pow_zero, one_mul]; rfl⟩
  | succ n ih =>
    refine ⟨feedback_length ih.1, ?_⟩
    rw [Nat.repeat, mk_feedback hg ih.1, map_mul, ih.2, ← map_mul, pow_succ]
    apply congrArg (AdjoinRoot.mk g)
    ring

/-- The check of a message is the message, moved up by the length of the register, modulo the
generator. -/
theorem mk_remainder {taps : List Bool} (hg : g = X ^ taps.length + bitPoly taps)
    {blocks : List (List Bool)} (hblocks : ∀ b ∈ blocks, b.length = taps.length) :
    (remainder taps blocks).length = taps.length ∧
      AdjoinRoot.mk g (bitPoly (remainder taps blocks)) =
        AdjoinRoot.mk g (X ^ taps.length * bitPoly blocks.flatten) := by
  have hfold : ∀ r : List Bool, r.length = taps.length →
      (blocks.foldl (fun r b => Nat.repeat (feedback taps) taps.length (xorBits r b)) r).length =
          taps.length ∧
        AdjoinRoot.mk g (bitPoly
            (blocks.foldl (fun r b => Nat.repeat (feedback taps) taps.length (xorBits r b)) r)) =
          AdjoinRoot.mk g (X ^ blocks.flatten.length * bitPoly r +
            X ^ taps.length * bitPoly blocks.flatten) := by
    induction blocks with
    | nil =>
      intro r hr
      exact ⟨hr, by simp [bitPoly]⟩
    | cons b blocks ih =>
      intro r hr
      have hb := hblocks b List.mem_cons_self
      have hrb : r.length = b.length := hr.trans hb.symm
      obtain ⟨hlen, hmk⟩ := mk_repeat_feedback hg taps.length
        (show (xorBits r b).length = taps.length by rw [xorBits_length hrb, hb])
      obtain ⟨hlen', hmk'⟩ := ih (fun c hc => hblocks c (List.mem_cons_of_mem _ hc)) _ hlen
      refine ⟨hlen', ?_⟩
      rw [List.foldl_cons, hmk', map_add, map_mul, hmk, ← map_mul, ← map_add, List.flatten_cons,
        bitPoly_append, bitPoly_xor hrb, List.length_append, hb, pow_add]
      apply congrArg (AdjoinRoot.mk g)
      ring
  obtain ⟨hlen, hmk⟩ := hfold (List.replicate taps.length false) List.length_replicate
  refine ⟨hlen, ?_⟩
  rw [remainder, hmk, bitPoly_replicate_false, mul_zero, zero_add]

theorem generator_monic {taps : List Bool} (hg : g = X ^ taps.length + bitPoly taps) : g.Monic := by
  rw [hg]
  exact monic_X_pow_add (bitPoly_degree_lt taps)

theorem generator_degree {taps : List Bool} (hg : g = X ^ taps.length + bitPoly taps) :
    g.degree = taps.length := by
  rw [hg, degree_add_eq_left_of_degree_lt] <;> rw [degree_X_pow]
  exact bitPoly_degree_lt taps

/-- So the check is the remainder of the division by the generator. -/
theorem bitPoly_remainder {taps : List Bool} (hg : g = X ^ taps.length + bitPoly taps)
    {blocks : List (List Bool)} (hblocks : ∀ b ∈ blocks, b.length = taps.length) :
    bitPoly (remainder taps blocks) = (X ^ taps.length * bitPoly blocks.flatten) %ₘ g := by
  obtain ⟨hlen, hmk⟩ := mk_remainder hg hblocks
  have hmonic := generator_monic hg
  have hdegree : (bitPoly (remainder taps blocks)).degree < g.degree := by
    rw [generator_degree hg, ← hlen]
    exact bitPoly_degree_lt _
  rw [← modByMonic_eq_of_dvd_sub hmonic (AdjoinRoot.mk_eq_mk.mp hmk)]
  exact ((modByMonic_eq_self_iff hmonic).mpr hdegree).symm

/-- A message with its check is a multiple of the generator, and with nothing else in its place. -/
theorem remainder_eq_iff {taps : List Bool} (hg : g = X ^ taps.length + bitPoly taps)
    {blocks : List (List Bool)} (hblocks : ∀ b ∈ blocks, b.length = taps.length) {c : List Bool}
    (hc : c.length = taps.length) :
    remainder taps blocks = c ↔ g ∣ bitPoly (blocks.flatten ++ c) := by
  obtain ⟨hlen, hmk⟩ := mk_remainder hg hblocks
  have hdiff : AdjoinRoot.mk g (bitPoly (blocks.flatten ++ c)) =
      AdjoinRoot.mk g (bitPoly (xorBits (remainder taps blocks) c)) := by
    rw [bitPoly_append, bitPoly_xor (hlen.trans hc.symm), map_add, map_add, hmk, hc]
  rw [← AdjoinRoot.mk_eq_zero, hdiff, AdjoinRoot.mk_eq_zero]
  constructor
  · rintro rfl
    rw [bitPoly_xor rfl, CharTwo.add_self_eq_zero]
    exact dvd_zero g
  · intro hdvd
    apply bitPoly_inj (hlen.trans hc.symm)
    rw [← CharTwo.add_eq_zero, ← bitPoly_xor (hlen.trans hc.symm)]
    apply eq_zero_of_dvd_of_degree_lt hdvd
    rw [generator_degree hg, ← hc, ← xorBits_length (hlen.trans hc.symm)]
    exact bitPoly_degree_lt _

/-! ### Detected errors -/

/-- A generator with an even number of terms divides no polynomial with an odd number of them. -/
theorem not_dvd_of_odd (hg : g.eval 1 = 0) {e : List Bool} (he : Odd (e.count true)) :
    ¬ g ∣ bitPoly e := by
  rintro ⟨q, hq⟩
  have heval := bitPoly_eval_one e
  rw [hq, eval_mul, hg, zero_mul, ZMod.natCast_eq_one_iff_odd.mpr he] at heval
  exact zero_ne_one heval

/-- The set bits of a list lie within `n` consecutive ones, from bit `i` on. -/
def Within (n i : Nat) (e : List Bool) : Prop := ∀ j, e[j]? = some true → i ≤ j ∧ j < i + n

theorem Within.split {n i : Nat} {e : List Bool} (h : Within n i e) :
    bitPoly e = X ^ (e.drop (i + n)).length * bitPoly ((e.drop i).take n) := by
  have hfalse : ∀ l : List Bool, true ∉ l → bitPoly l = 0 := by
    intro l hl
    rw [List.eq_replicate_of_mem fun b hb => Bool.eq_false_iff.mpr fun ht => hl (ht ▸ hb)]
    exact bitPoly_replicate_false _
  have hbefore : true ∉ e.take i := by
    intro hmem
    obtain ⟨j, hj⟩ := List.mem_iff_getElem?.mp hmem
    rw [List.getElem?_take] at hj
    split_ifs at hj with hlt
    have := (h j hj).1
    omega
  have hafter : true ∉ e.drop (i + n) := by
    intro hmem
    obtain ⟨j, hj⟩ := List.mem_iff_getElem?.mp hmem
    rw [List.getElem?_drop] at hj
    have := (h _ hj).2
    omega
  calc bitPoly e
      = bitPoly (e.take i ++ ((e.drop i).take n ++ e.drop (i + n))) := by
        rw [← List.drop_drop, List.take_append_drop, List.take_append_drop]
    _ = _ := by
        rw [bitPoly_append, bitPoly_append, hfalse _ hbefore, hfalse _ hafter]
        ring

/-- A generator with a constant term divides no burst of at most as many bits as its degree. -/
theorem not_dvd_of_burst (hg : g.coeff 0 ≠ 0) {e : List Bool} (he : true ∈ e) {i : Nat}
    (hburst : Within g.natDegree i e) : ¬ g ∣ bitPoly e := by
  have hne : g ≠ 0 := by
    rintro rfl
    exact hg (coeff_zero 0)
  have hcop : IsCoprime g (X ^ (e.drop (i + g.natDegree)).length) := by
    apply IsCoprime.pow_right
    exact (irreducible_X.coprime_iff_not_dvd.mpr (mt X_dvd_iff.mp hg)).symm
  intro hdvd
  rw [hburst.split] at hdvd
  have hzero : bitPoly ((e.drop i).take g.natDegree) = 0 := by
    apply eq_zero_of_dvd_of_degree_lt (hcop.dvd_of_dvd_mul_left hdvd)
    rw [degree_eq_natDegree hne]
    apply (bitPoly_degree_lt _).trans_le
    exact_mod_cast List.length_take_le _ _
  apply bitPoly_eq_zero _ he
  rw [hburst.split, hzero, mul_zero]

/-! ### Pairs of errors -/

/-- Bit `j` of a list is set, and no other. -/
def SetOnce (j : Nat) (e : List Bool) : Prop := ∀ k, e[k]? = some true ↔ k = j

/-- Bits `i` and `j` of a list are set, and no others. -/
structure SetTwice (i j : Nat) (e : List Bool) : Prop where
  lt : i < j
  iff : ∀ k, e[k]? = some true ↔ k = i ∨ k = j

theorem SetTwice.lt_length {i j : Nat} {e : List Bool} (h : SetTwice i j e) : j < e.length :=
  (List.getElem?_eq_some_iff.mp ((h.iff j).mpr (.inr rfl))).1

theorem not_mem_of_setOnce {b : Bool} {e : List Bool} (h : SetOnce 0 (b :: e)) : true ∉ e := by
  intro hmem
  obtain ⟨k, hk⟩ := List.mem_iff_getElem?.mp hmem
  exact Nat.succ_ne_zero k ((h (k + 1)).mp hk)

theorem bitPoly_of_not_mem {e : List Bool} (h : true ∉ e) : bitPoly e = 0 := by
  rw [List.eq_replicate_of_mem fun b hb => Bool.eq_false_iff.mpr fun ht => h (ht ▸ hb)]
  exact bitPoly_replicate_false _

theorem bitPoly_once {j : Nat} {e : List Bool} (h : SetOnce j e) :
    bitPoly e = X ^ (e.length - 1 - j) := by
  induction e generalizing j with
  | nil => cases (h j).mpr rfl
  | cons b e ih =>
    cases j with
    | zero =>
      have hb : b = true := by simpa using h 0
      rw [bitPoly, if_pos hb, bitPoly_of_not_mem (not_mem_of_setOnce h), add_zero]
      rfl
    | succ j =>
      have hb : b = false := by simpa using h 0
      have hrest : SetOnce j e := fun k => by simpa using h (k + 1)
      rw [bitPoly, if_neg (Bool.not_eq_true _ ▸ hb), zero_add, ih hrest, List.length_cons]
      apply congrArg (X ^ ·)
      omega

theorem bitPoly_twice {i j : Nat} {e : List Bool} (h : SetTwice i j e) :
    bitPoly e = X ^ (e.length - 1 - i) + X ^ (e.length - 1 - j) := by
  induction e generalizing i j with
  | nil => cases (h.iff j).mpr (.inr rfl)
  | cons b e ih =>
    obtain ⟨hlt, hiff⟩ := h
    obtain ⟨j, rfl⟩ := Nat.exists_eq_add_of_lt hlt
    cases i with
    | zero =>
      have hb : b = true := by simpa using hiff 0
      have hrest : SetOnce j e := fun k => by simpa using hiff (k + 1)
      have hexp : e.length - 1 - j = e.length + 1 - 1 - (0 + j + 1) := by omega
      rw [bitPoly, if_pos hb, bitPoly_once hrest, hexp]
      rfl
    | succ i =>
      have hb : b = false := by simpa using hiff 0
      have hrest : SetTwice i (i + j + 1) e :=
        ⟨by omega, fun k => by simpa [Nat.add_right_comm] using hiff (k + 1)⟩
      rw [bitPoly, if_neg (Bool.not_eq_true _ ▸ hb), zero_add, ih hrest, List.length_cons]
      apply congrArg₂ (X ^ · + X ^ ·) <;> omega

/-- A generator with a constant term divides a pair of errors exactly if their distance is a multiple
of the order of `X`. -/
theorem dvd_twice_iff (hg : g.coeff 0 ≠ 0) {i j : Nat} {e : List Bool} (h : SetTwice i j e) :
    g ∣ bitPoly e ↔ orderOf (AdjoinRoot.root g) ∣ j - i := by
  have hcop : IsCoprime g (X ^ (e.length - 1 - j)) :=
    IsCoprime.pow_right (irreducible_X.coprime_iff_not_dvd.mpr (mt X_dvd_iff.mp hg)).symm
  have hsplit : bitPoly e = X ^ (e.length - 1 - j) * (X ^ (j - i) - 1) := by
    have hlt := h.lt
    have hlen := h.lt_length
    have hexp : e.length - 1 - i = e.length - 1 - j + (j - i) := by omega
    rw [bitPoly_twice h, CharTwo.sub_eq_add, mul_add, mul_one, ← pow_add, hexp]
  have hshift : g ∣ bitPoly e ↔ g ∣ X ^ (j - i) - 1 := by
    rw [hsplit]
    exact ⟨hcop.dvd_of_dvd_mul_left, fun hdvd => hdvd.mul_left _⟩
  rw [hshift, ← AdjoinRoot.mk_eq_mk, orderOf_dvd_iff_pow_eq_one, map_pow, AdjoinRoot.mk_X,
    map_one]

/-- Where one or two bits are set, they are these. -/
theorem setOnce_of_count {e : List Bool} (h : e.count true = 1) : ∃ j, SetOnce j e := by
  induction e with
  | nil => cases h
  | cons b e ih =>
    cases b with
    | true =>
      rw [List.count_cons_self, Nat.add_eq_right] at h
      refine ⟨0, fun k => ?_⟩
      cases k with
      | zero => simp
      | succ k =>
        simpa using fun hk => List.count_eq_zero.mp h (List.mem_of_getElem? hk)
    | false =>
      rw [List.count_cons_of_ne (by decide)] at h
      obtain ⟨j, hj⟩ := ih h
      refine ⟨j + 1, fun k => ?_⟩
      cases k with
      | zero => simp
      | succ k => simpa using hj k

theorem setTwice_of_count {e : List Bool} (h : e.count true = 2) : ∃ i j, SetTwice i j e := by
  induction e with
  | nil => cases h
  | cons b e ih =>
    cases b with
    | true =>
      rw [List.count_cons_self] at h
      obtain ⟨j, hj⟩ := setOnce_of_count (Nat.succ.inj h)
      refine ⟨0, j + 1, Nat.succ_pos j, fun k => ?_⟩
      cases k with
      | zero => simp
      | succ k => simpa using hj k
    | false =>
      rw [List.count_cons_of_ne (by decide)] at h
      obtain ⟨i, j, hlt, hiff⟩ := ih h
      refine ⟨i + 1, j + 1, Nat.succ_lt_succ hlt, fun k => ?_⟩
      cases k with
      | zero => simp
      | succ k => simpa using hiff k

end ProofKit
