import Mathlib.Data.List.Basic

/-! Scanners of symbol streams.  A scanner looks at the front of a buffer and waits for more symbols,
skips one symbol, or takes an item.  A verdict other than waiting stands when more symbols arrive, so
the scan of a stream does not depend on how the stream is cut into chunks. -/

namespace ProofKit

/-- What a scanner decides at the front of its buffer: to wait for more symbols, to skip one symbol,
or to take the first `n` symbols as an item. -/
inductive Verdict (ε : Type)
  | wait
  | skip
  | take (n : Nat) (item : ε)
deriving DecidableEq, Repr

namespace Verdict

variable {ε δ : Type}

/-- The number of symbols that a verdict consumes. -/
def width : Verdict ε → Nat
  | wait => 0
  | skip => 1
  | take n _ => n

def item? : Verdict ε → Option ε
  | wait => none
  | skip => none
  | take _ e => some e

/-- The verdict with its item replaced, where the replacement exists. -/
def mapM (f : ε → Option δ) : Verdict ε → Option (Verdict δ)
  | wait => some wait
  | skip => some skip
  | take n e => (f e).map (take n)

@[simp] theorem width_wait : (wait : Verdict ε).width = 0 := rfl
@[simp] theorem width_skip : (skip : Verdict ε).width = 1 := rfl
@[simp] theorem width_take (n : Nat) (e : ε) : (take n e).width = n := rfl
@[simp] theorem item?_wait : (wait : Verdict ε).item? = none := rfl
@[simp] theorem item?_skip : (skip : Verdict ε).item? = none := rfl
@[simp] theorem item?_take (n : Nat) (e : ε) : (take n e).item? = some e := rfl
@[simp] theorem mapM_wait (f : ε → Option δ) : (wait : Verdict ε).mapM f = some wait := rfl
@[simp] theorem mapM_skip (f : ε → Option δ) : (skip : Verdict ε).mapM f = some skip := rfl
@[simp] theorem mapM_take (f : ε → Option δ) (n : Nat) (e : ε) :
    (take n e).mapM f = (f e).map (take n) := rfl

end Verdict

/-- A scanner.  It waits on the empty buffer, it takes at least one symbol and no more than it has,
and more symbols change no verdict but `wait`. -/
structure Scanner (α ε : Type) where
  verdict : List α → Verdict ε
  verdict_nil : verdict [] = .wait
  take_pos : ∀ {b n e}, verdict b = .take n e → 0 < n
  take_le : ∀ {b n e}, verdict b = .take n e → n ≤ b.length
  stable : ∀ {b} (c), verdict b ≠ .wait → verdict (b ++ c) = verdict b

/-- What one read brings: at least one symbol, and no more than the reader has room for. -/
structure Chunk (α : Type) (cap : Nat) where
  bytes : List α
  nonempty : bytes ≠ []
  le_cap : bytes.length ≤ cap

/-- One step of a scan: the symbols it consumes, and the item they are taken as, if any. -/
structure Piece (α ε : Type) where
  symbols : List α
  item : Option ε

/-- The items of a list of pieces, each with its offset from `off` in their symbols. -/
def located {α ε : Type} : Nat → List (Piece α ε) → List (Nat × ε)
  | _, [] => []
  | off, p :: ps => (p.item.map fun e => (off, e)).toList ++ located (off + p.symbols.length) ps

theorem located_append {α ε : Type} (off : Nat) (ps qs : List (Piece α ε)) :
    located off (ps ++ qs) =
      located off ps ++ located (off + (ps.flatMap Piece.symbols).length) qs := by
  induction ps generalizing off with
  | nil => simp [located]
  | cons p ps ih => simp [located, ih, Nat.add_assoc]

theorem located_shift {α ε : Type} (off : Nat) (ps : List (Piece α ε)) :
    located off ps = (located 0 ps).map fun x => (off + x.1, x.2) := by
  have h : ∀ k, located (off + k) ps = (located k ps).map fun x => (off + x.1, x.2) := by
    induction ps with
    | nil => exact fun k => rfl
    | cons p ps ih =>
      intro k
      rw [located, located, Nat.add_assoc, ih]
      cases p.item <;> simp
  exact h 0

theorem located_items {α ε : Type} (off : Nat) (ps : List (Piece α ε)) :
    (located off ps).map Prod.snd = ps.filterMap Piece.item := by
  induction ps generalizing off with
  | nil => rfl
  | cons p ps ih => cases h : p.item <;> simp [located, h, ih]

namespace Scanner

variable {α ε : Type} (S : Scanner α ε)

theorem width_pos {b : List α} (h : S.verdict b ≠ .wait) : 0 < (S.verdict b).width := by
  cases hv : S.verdict b with
  | wait => exact absurd hv h
  | skip => exact Nat.one_pos
  | take n e => exact S.take_pos hv

theorem width_le (b : List α) : (S.verdict b).width ≤ b.length := by
  cases hv : S.verdict b with
  | wait => exact Nat.zero_le _
  | skip =>
    cases b with
    | nil => rw [S.verdict_nil] at hv; cases hv
    | cons a b => simp
  | take n e => exact S.take_le hv

theorem width_eq_zero {b : List α} : (S.verdict b).width = 0 ↔ S.verdict b = .wait := by
  refine ⟨fun h => ?_, fun h => by rw [h]; rfl⟩
  by_contra hw
  have := S.width_pos hw
  omega

/-- The steps of the scan of a buffer, up to the first wait, and the symbols left there. -/
def scan (b : List α) : List (Piece α ε) × List α :=
  if (S.verdict b).width = 0 then ([], b)
  else
    let r := scan (b.drop (S.verdict b).width)
    (⟨b.take (S.verdict b).width, (S.verdict b).item?⟩ :: r.1, r.2)
termination_by b.length
decreasing_by
  have := S.width_le b
  simp only [List.length_drop]
  omega

/-- The items of the scan of a buffer, in order. -/
def items (b : List α) : List ε := (S.scan b).1.filterMap Piece.item

/-- The symbols that the scan of a buffer leaves. -/
def rest (b : List α) : List α := (S.scan b).2

theorem scan_wait {b : List α} (h : S.verdict b = .wait) : S.scan b = ([], b) := by
  rw [scan, if_pos (S.width_eq_zero.mpr h)]

theorem scan_next {b : List α} (h : S.verdict b ≠ .wait) :
    S.scan b = (⟨b.take (S.verdict b).width, (S.verdict b).item?⟩ ::
      (S.scan (b.drop (S.verdict b).width)).1, (S.scan (b.drop (S.verdict b).width)).2) := by
  rw [scan, if_neg fun hw => h (S.width_eq_zero.mp hw)]

/-- Induction along a scan. -/
theorem scan_induction {P : List α → Prop} (b : List α)
    (wait : ∀ b, S.verdict b = .wait → P b)
    (next : ∀ b, S.verdict b ≠ .wait → P (b.drop (S.verdict b).width) → P b) : P b := by
  by_cases h : S.verdict b = .wait
  · exact wait b h
  · exact next b h (scan_induction (b.drop (S.verdict b).width) wait next)
termination_by b.length
decreasing_by
  have := S.width_pos h
  have := S.width_le b
  simp only [List.length_drop]
  omega

/-- The steps of a scan and what it leaves make up the buffer. -/
theorem scan_partition (b : List α) :
    (S.scan b).1.flatMap Piece.symbols ++ (S.scan b).2 = b := by
  induction b using S.scan_induction with
  | wait b h => simp [S.scan_wait h]
  | next b h ih => simp [S.scan_next h, ih]

theorem scan_length (b : List α) :
    ((S.scan b).1.flatMap Piece.symbols).length + (S.scan b).2.length = b.length := by
  rw [← List.length_append, S.scan_partition]

/-- Each step of a scan is the verdict on what is there: its symbols, those of the later steps, and
what the scan leaves. -/
theorem scan_piece {b : List α} {before after : List (Piece α ε)} {p : Piece α ε}
    (h : (S.scan b).1 = before ++ p :: after) :
    ∃ d, d = p.symbols ++ (after.flatMap Piece.symbols ++ S.rest b) ∧ S.verdict d ≠ .wait ∧
      p.symbols = d.take (S.verdict d).width ∧ p.item = (S.verdict d).item? := by
  induction b using S.scan_induction generalizing before with
  | wait b hw =>
    rw [S.scan_wait hw] at h
    simp at h
  | next b hn ih =>
    have hrest : S.rest b = S.rest (b.drop (S.verdict b).width) := by rw [rest, S.scan_next hn, rest]
    rw [S.scan_next hn] at h
    cases before with
    | nil =>
      obtain ⟨rfl, rfl⟩ := List.cons.inj h
      refine ⟨b, ?_, hn, rfl, rfl⟩
      rw [hrest, rest, S.scan_partition, List.take_append_drop]
    | cons q before =>
      obtain ⟨-, htail⟩ := List.cons.inj h
      rw [hrest]
      exact ih htail

/-- A scan stops where the scanner waits. -/
theorem verdict_rest (b : List α) : S.verdict (S.rest b) = .wait := by
  unfold rest
  induction b using S.scan_induction with
  | wait b h => rwa [S.scan_wait h]
  | next b h ih => rwa [S.scan_next h]

/-- The scan of two parts: the scan of the first, and then that of what it left with the second. -/
theorem scan_append (b c : List α) :
    S.scan (b ++ c) =
      ((S.scan b).1 ++ (S.scan ((S.scan b).2 ++ c)).1, (S.scan ((S.scan b).2 ++ c)).2) := by
  induction b using S.scan_induction with
  | wait b h => simp [S.scan_wait h]
  | next b h ih =>
    have hv := S.stable c h
    have hle := S.width_le b
    rw [S.scan_next (b := b ++ c) (by rwa [hv]), hv, List.take_append_of_le_length hle,
      List.drop_append_of_le_length hle, ih, S.scan_next h]
    rfl

theorem items_append (b c : List α) :
    S.items (b ++ c) = S.items b ++ S.items (S.rest b ++ c) := by
  simp [items, rest, S.scan_append b c]

theorem rest_append (b c : List α) : S.rest (b ++ c) = S.rest (S.rest b ++ c) := by
  simp [rest, S.scan_append b c]

theorem items_wait {b : List α} (h : S.verdict b = .wait) : S.items b = [] := by
  simp [items, S.scan_wait h]

theorem rest_wait {b : List α} (h : S.verdict b = .wait) : S.rest b = b := by
  simp [rest, S.scan_wait h]

theorem items_skip {b : List α} (h : S.verdict b = .skip) : S.items b = S.items (b.drop 1) := by
  simp [items, S.scan_next (b := b) (by simp [h]), h]

theorem rest_skip {b : List α} (h : S.verdict b = .skip) : S.rest b = S.rest (b.drop 1) := by
  simp [rest, S.scan_next (b := b) (by simp [h]), h]

theorem items_take {b : List α} {n : Nat} {e : ε} (h : S.verdict b = .take n e) :
    S.items b = e :: S.items (b.drop n) := by
  simp [items, S.scan_next (b := b) (by simp [h]), h]

theorem rest_take {b : List α} {n : Nat} {e : ε} (h : S.verdict b = .take n e) :
    S.rest b = S.rest (b.drop n) := by
  simp [rest, S.scan_next (b := b) (by simp [h]), h]

/-! ### Positions -/

/-- The positions of a stream at which its scan stands. -/
inductive Point (b : List α) : Nat → Prop
  | start : Point b 0
  | next {s : Nat} : Point b s → S.verdict (b.drop s) ≠ .wait →
      Point b (s + (S.verdict (b.drop s)).width)

theorem point_wait {b : List α} (h : S.verdict b = .wait) {s : Nat} (hp : S.Point b s) : s = 0 := by
  induction hp with
  | start => rfl
  | next _ hn ih => subst ih; exact absurd h hn

/-- The points of a stream after the first are those of the stream past its first step. -/
theorem point_next {b : List α} (h : S.verdict b ≠ .wait) {s : Nat} :
    S.Point b s ↔ s = 0 ∨
      ∃ t, s = (S.verdict b).width + t ∧ S.Point (b.drop (S.verdict b).width) t := by
  constructor
  · intro hp
    induction hp with
    | start => exact .inl rfl
    | next _ hn ih =>
      rcases ih with rfl | ⟨t, rfl, ht⟩
      · exact .inr ⟨0, by simp, .start⟩
      · refine .inr ⟨_, Nat.add_assoc _ _ _, ?_⟩
        rw [← List.drop_drop] at hn ⊢
        exact .next ht hn
  · rintro (rfl | ⟨t, rfl, ht⟩)
    · exact .start
    · induction ht with
      | start => simpa using Point.next (S := S) (b := b) .start h
      | next _ hn ih =>
        rw [List.drop_drop] at hn ⊢
        rw [← Nat.add_assoc]
        exact .next ih hn

/-- The located items of a scan are the items taken at its points. -/
theorem mem_located {b : List α} (off : Nat) {s : Nat} {e : ε} :
    (s, e) ∈ located off (S.scan b).1 ↔
      ∃ t, s = off + t ∧ S.Point b t ∧ ∃ n, S.verdict (b.drop t) = .take n e := by
  induction b using S.scan_induction generalizing off with
  | wait b h =>
    rw [S.scan_wait h]
    constructor
    · intro hm
      cases hm
    · rintro ⟨t, -, hp, n, hn⟩
      rw [S.point_wait h hp, List.drop_zero, h] at hn
      cases hn
  | next b h ih =>
    have hw : (b.take (S.verdict b).width).length = (S.verdict b).width := by
      rw [List.length_take, Nat.min_eq_left (S.width_le b)]
    rw [S.scan_next h, located, List.mem_append, hw, ih]
    simp only [S.point_next h]
    constructor
    · rintro (hm | ⟨t, rfl, hp, n, hn⟩)
      · cases hv : S.verdict b with
        | wait => exact absurd hv h
        | skip => simp [hv] at hm
        | take n e' =>
          obtain ⟨rfl, rfl⟩ : s = off ∧ e = e' := by simpa [hv] using hm
          exact ⟨0, by simp, .inl rfl, n, by simpa using hv⟩
      · exact ⟨_, by omega, .inr ⟨t, rfl, hp⟩, n, by rwa [← List.drop_drop]⟩
    · rintro ⟨t, rfl, rfl | ⟨t, rfl, hp⟩, n, hn⟩
      · rw [List.drop_zero] at hn
        exact .inl (by simp [hn])
      · exact .inr ⟨t, by omega, hp, n, by rwa [List.drop_drop]⟩

/-- The items of a scan are those taken at its points. -/
theorem mem_items {b : List α} {e : ε} :
    e ∈ S.items b ↔ ∃ s, S.Point b s ∧ ∃ n, S.verdict (b.drop s) = .take n e := by
  rw [items, ← located_items 0, List.mem_map]
  constructor
  · rintro ⟨x, hx, rfl⟩
    obtain ⟨s, -, hp⟩ := (S.mem_located 0).mp hx
    exact ⟨s, hp⟩
  · rintro ⟨s, hp⟩
    exact ⟨(0 + s, e), (S.mem_located 0).mpr ⟨s, rfl, hp⟩, rfl⟩

/-- Every position is a point of the scan, lies inside an item taken at an earlier point, or lies
past a point where the scan waits. -/
theorem point_or_passed (b : List α) (s : Nat) :
    S.Point b s ∨ (∃ p n e, p < s ∧ S.Point b p ∧ S.verdict (b.drop p) = .take n e ∧ s < p + n) ∨
      ∃ p, p < s ∧ S.Point b p ∧ S.verdict (b.drop p) = .wait := by
  induction s with
  | zero => exact .inl .start
  | succ s ih =>
    rcases ih with hp | ⟨p, n, e, hlt, hp, hv, hs⟩ | ⟨p, hlt, hp, hv⟩
    · cases hv : S.verdict (b.drop s) with
      | wait => exact .inr (.inr ⟨s, by omega, hp, hv⟩)
      | skip => exact .inl (by simpa [hv] using hp.next (by simp [hv]))
      | take n e =>
        have hnext : S.Point b (s + n) := by simpa [hv] using hp.next (by simp [hv])
        have hpos := S.take_pos hv
        by_cases hn : n = 1
        · exact .inl (hn ▸ hnext)
        · exact .inr (.inl ⟨s, n, e, by omega, hp, hv, by omega⟩)
    · have hnext : S.Point b (p + n) := by simpa [hv] using hp.next (by simp [hv])
      by_cases hn : p + n = s + 1
      · exact .inl (hn ▸ hnext)
      · exact .inr (.inl ⟨p, n, e, by omega, hp, hv, by omega⟩)
    · exact .inr (.inr ⟨p, by omega, hp, hv⟩)

end Scanner

end ProofKit
