import Patrol.Json.Cst
import Patrol.ProofKit.Runs

/-! Reading lexemes off what is left of a text: blanks, the pieces of a string, and numbers.  Each is
read in one way. -/

namespace Patrol.Json

open ProofKit

/-! ### Blanks -/

/-- The blanks that a text begins with, as the parser sees them, and what comes after them. -/
def blanks (i : List UInt8) : List UInt8 := i.takeWhile isspace
def skip (i : List UInt8) : List UInt8 := i.dropWhile isspace

theorem blanks_skip (i : List UInt8) : blanks i ++ skip i = i :=
  List.takeWhile_append_dropWhile

theorem blanks_readable (i : List UInt8) : (Lexeme.blank (blanks i)).Readable :=
  fun _ hc => List.mem_takeWhile_imp hc

theorem skip_stops (i : List UInt8) : Stops isspace (skip i) := stops_dropWhile i

/-- Blanks are read up to what is not blank. -/
theorem blanks_append {w r : List UInt8} (hw : (Lexeme.blank w).Readable) (hr : Stops isspace r) :
    blanks (w ++ r) = w ∧ skip (w ++ r) = r :=
  span_iff.mpr ⟨rfl, hw, hr⟩

/-! ### Strings -/

/-- Reads what stands after an opening quote. -/
def readPieces : List UInt8 → Option (List Piece × List UInt8)
  | [] => none
  | c :: i =>
    if c = 0x22 then some ([], i)
    else if c = 0x5C then
      match i with
      | [] => none
      | e :: i =>
        if e = 0x75 then
          match i with
          | a :: b :: c :: d :: i => (readPieces i).map fun x => (.unicode a b c d :: x.1, x.2)
          | _ => none
        else (readPieces i).map fun x => (.escape e :: x.1, x.2)
    else (readPieces i).map fun x => (.plain c :: x.1, x.2)

theorem readPieces_piece {p : Piece} (hp : (Lexeme.piece p).Readable) (i : List UInt8) :
    readPieces (p.text ++ i) = (readPieces i).map fun x => (p :: x.1, x.2) := by
  cases p with
  | plain c =>
    simp only [Piece.text, List.singleton_append]
    rw [readPieces.eq_def]
    exact (if_neg hp.1).trans (if_neg hp.2)
  | escape e =>
    simp only [Piece.text, List.cons_append, List.nil_append]
    rw [readPieces.eq_def]
    simp only [Lexeme.Readable] at hp
    simp [hp]
  | unicode a b c d =>
    simp only [Piece.text, List.cons_append, List.nil_append]
    rw [readPieces.eq_def]
    simp

theorem readPieces_quote (i : List UInt8) : readPieces (0x22 :: i) = some ([], i) := by
  rw [readPieces.eq_def]
  rfl

theorem readPieces_complete {ps : List Piece} (hps : ∀ p ∈ ps, (Lexeme.piece p).Readable)
    (r : List UInt8) : readPieces (ps.flatMap Piece.text ++ 0x22 :: r) = some (ps, r) := by
  induction ps with
  | nil => exact readPieces_quote r
  | cons p ps ih =>
    simp only [List.forall_mem_cons] at hps
    rw [List.flatMap_cons, List.append_assoc, readPieces_piece hps.1, ih hps.2]
    rfl

/-- What is read stands at the closing quote, or begins with a piece. -/
theorem readPieces_cases {i r : List UInt8} {ps : List Piece} (h : readPieces i = some (ps, r)) :
    ps = [] ∧ i = 0x22 :: r ∨
      ∃ p ps' j, ps = p :: ps' ∧ i = p.text ++ j ∧ (Lexeme.piece p).Readable ∧
        readPieces j = some (ps', r) := by
  have hmap : ∀ {p : Piece} {j : List UInt8}, (Lexeme.piece p).Readable →
      (readPieces j).map (fun x => (p :: x.1, x.2)) = some (ps, r) →
      ∃ p' ps' j', ps = p' :: ps' ∧ p.text ++ j = p'.text ++ j' ∧ (Lexeme.piece p').Readable ∧
        readPieces j' = some (ps', r) := by
    intro p j hp hj
    obtain ⟨⟨ps', r'⟩, hread, heq⟩ := Option.map_eq_some_iff.mp hj
    cases heq
    exact ⟨p, ps', j, rfl, rfl, hp, hread⟩
  rw [readPieces.eq_def] at h
  split at h
  · cases h
  · next c j =>
    split at h
    · next hc =>
      cases h
      exact Or.inl ⟨rfl, by rw [hc]⟩
    · next hquote =>
      refine Or.inr ?_
      split at h
      · next hslash =>
        subst hslash
        split at h
        · cases h
        · next e j =>
          split at h
          · next hu =>
            subst hu
            split at h
            · next a b c d j => exact hmap (p := .unicode a b c d) trivial h
            · cases h
          · next hu => exact hmap (p := .escape e) hu h
      · next hslash => exact hmap (p := .plain c) ⟨hquote, hslash⟩ h

theorem readPieces_sound {i r : List UInt8} {ps : List Piece} (h : readPieces i = some (ps, r)) :
    i = ps.flatMap Piece.text ++ 0x22 :: r ∧ ∀ p ∈ ps, (Lexeme.piece p).Readable := by
  induction ps generalizing i with
  | nil =>
    rcases readPieces_cases h with ⟨-, rfl⟩ | ⟨p, ps', j, heq, -⟩
    · exact ⟨rfl, by simp⟩
    · cases heq
  | cons p ps ih =>
    rcases readPieces_cases h with ⟨heq, -⟩ | ⟨p', ps', j, heq, rfl, hp, hj⟩
    · cases heq
    · cases heq
      obtain ⟨rfl, hps⟩ := ih hj
      exact ⟨by simp, List.forall_mem_cons.mpr ⟨hp, hps⟩⟩

/-! ### Numbers -/

namespace Numeral

def isSign (c : UInt8) : Bool := c == 0x2B || c == 0x2D
def isLetter (c : UInt8) : Bool := c == 0x65 || c == 0x45

/-- The digits of a run, and what comes after them. -/
def Digits (ds r : List UInt8) : Prop := (∀ c ∈ ds, isdigit c = true) ∧ Stops isdigit r

def FractionFits : Option (List UInt8) → List UInt8 → Prop
  | none, r => Stops (· == 0x2E) r
  | some ds, r => Digits ds r

def ExponentFits : Option (UInt8 × List UInt8 × List UInt8) → List UInt8 → Prop
  | none, r => Stops isLetter r
  | some (e, sign, ds), r =>
    isLetter e = true ∧
      ((∃ c, sign = [c] ∧ isSign c = true) ∨ sign = [] ∧ Stops isSign (ds ++ r)) ∧ Digits ds r

/-- Each part of a number is read as far as it goes, with `r` after the number. -/
structure Fits (n : Numeral) (r : List UInt8) : Prop where
  minus : n.minus = false → Stops (· == 0x2D)
    (n.digits ++ (fractionText n.fraction ++ (exponentText n.exponent ++ r)))
  digits : Digits n.digits (fractionText n.fraction ++ (exponentText n.exponent ++ r))
  fraction : FractionFits n.fraction (exponentText n.exponent ++ r)
  exponent : ExponentFits n.exponent r

theorem digits_iff {i ds r : List UInt8} :
    (i.takeWhile isdigit = ds ∧ i.dropWhile isdigit = r) ↔ i = ds ++ r ∧ Digits ds r :=
  span_iff

theorem readFraction_of_fits {r : List UInt8} {f : Option (List UInt8)} (h : FractionFits f r) :
    readFraction (fractionText f ++ r) = (f, r) := by
  cases f with
  | none =>
    apply if_neg
    intro hdot
    simpa using h _ hdot
  | some ds =>
    obtain ⟨htake, hdrop⟩ := digits_iff.mpr ⟨rfl, h⟩
    rw [readFraction, if_pos (by rfl)]
    simp only [fractionText, List.cons_append, List.tail_cons, htake, hdrop]

theorem readFraction_fits {i r : List UInt8} {f : Option (List UInt8)}
    (h : readFraction i = (f, r)) : i = fractionText f ++ r ∧ FractionFits f r := by
  rw [readFraction] at h
  split at h
  · next hdot =>
    cases h
    obtain ⟨j, rfl⟩ := List.head?_eq_some_iff.mp hdot
    obtain ⟨hj, hdigits⟩ := digits_iff.mp ⟨rfl, rfl⟩
    exact ⟨congrArg (0x2E :: ·) hj, hdigits⟩
  · next hdot =>
    cases h
    refine ⟨rfl, fun c hc => ?_⟩
    rw [beq_eq_false_iff_ne]
    rintro rfl
    exact hdot hc

theorem readExponent_of_fits {r : List UInt8} {x : Option (UInt8 × List UInt8 × List UInt8)}
    (h : ExponentFits x r) : readExponent (exponentText x ++ r) = (x, r) := by
  rcases x with _ | ⟨e, sign, ds⟩
  · cases r with
    | nil => rfl
    | cons c r =>
      have hc := stops_cons.mp h
      simp only [isLetter, Bool.or_eq_false_iff, beq_eq_false_iff_ne] at hc
      simp [exponentText, readExponent, hc]
  · obtain ⟨he, hsign, hdigits⟩ := h
    obtain ⟨htake, hdrop⟩ := digits_iff.mpr ⟨rfl, hdigits⟩
    have hletter : e = 0x65 ∨ e = 0x45 := by simpa [isLetter] using he
    rcases hsign with ⟨c, rfl, hc⟩ | ⟨rfl, hstop⟩
    · have hsign : c = 0x2B ∨ c = 0x2D := by simpa [isSign] using hc
      simp [exponentText, readExponent, hletter, hsign, htake, hdrop]
    · have hnone : ¬ ((ds ++ r).head? = some 0x2B ∨ (ds ++ r).head? = some 0x2D) := by
        rintro (hplus | hminus)
        · simpa [isSign] using hstop _ hplus
        · simpa [isSign] using hstop _ hminus
      simp only [exponentText, readExponent, List.nil_append, List.cons_append, if_pos hletter,
        if_neg hnone, htake, hdrop]

theorem readExponent_fits {i r : List UInt8} {x : Option (UInt8 × List UInt8 × List UInt8)}
    (h : readExponent i = (x, r)) : i = exponentText x ++ r ∧ ExponentFits x r := by
  rcases i with _ | ⟨e, i⟩
  · cases h
    exact ⟨rfl, stops_nil⟩
  · rw [readExponent] at h
    split at h
    · next hletter =>
      have he : isLetter e = true := by simpa [isLetter] using hletter
      split at h
      · next hsign =>
        cases h
        rcases i with _ | ⟨c, i⟩
        · simp at hsign
        · have hc : isSign c = true := by simpa [isSign] using hsign
          obtain ⟨hi, hdigits⟩ := digits_iff.mp ⟨rfl, rfl⟩
          exact ⟨congrArg (e :: c :: ·) hi, he, Or.inl ⟨c, rfl, hc⟩, hdigits⟩
      · next hsign =>
        cases h
        obtain ⟨hi, hdigits⟩ := digits_iff.mp ⟨rfl, rfl⟩
        refine ⟨congrArg (e :: ·) hi, he, Or.inr ⟨rfl, ?_⟩, hdigits⟩
        rw [← hi]
        intro c hc
        rw [isSign, Bool.or_eq_false_iff, beq_eq_false_iff_ne, beq_eq_false_iff_ne]
        constructor
        · rintro rfl
          exact hsign (Or.inl hc)
        · rintro rfl
          exact hsign (Or.inr hc)
    · next hletter =>
      cases h
      refine ⟨rfl, stops_cons.mpr ?_⟩
      simpa [isLetter] using hletter

/-- The sign, and what comes after it. -/
theorem minus_iff {i j : List UInt8} {minus : Bool} :
    (decide (i.head? = some 0x2D) = minus ∧ (if i.head? = some 0x2D then i.tail else i) = j) ↔
      i = (if minus then [0x2D] else []) ++ j ∧ (minus = false → Stops (· == 0x2D) j) := by
  constructor
  · rintro ⟨rfl, rfl⟩
    by_cases hminus : i.head? = some 0x2D
    · obtain ⟨j, rfl⟩ := List.head?_eq_some_iff.mp hminus
      simp
    · rw [if_neg hminus]
      refine ⟨by simp [hminus], fun _ c hc => ?_⟩
      rw [beq_eq_false_iff_ne]
      rintro rfl
      exact hminus hc
  · rintro ⟨rfl, hstop⟩
    cases minus with
    | true => simp
    | false =>
      have hminus : j.head? ≠ some 0x2D := fun hc => by simpa using hstop rfl _ hc
      simp [hminus]

theorem read_eq {i j k l r ds : List UInt8} {minus : Bool} {f : Option (List UInt8)}
    {x : Option (UInt8 × List UInt8 × List UInt8)}
    (hminus : decide (i.head? = some 0x2D) = minus ∧
      (if i.head? = some 0x2D then i.tail else i) = j)
    (hdigits : j.takeWhile isdigit = ds ∧ j.dropWhile isdigit = k)
    (hf : readFraction k = (f, l)) (hx : readExponent l = (x, r)) :
    read i = (⟨minus, ds, f, x⟩, r) := by
  obtain ⟨rfl, rfl⟩ := hminus
  obtain ⟨rfl, rfl⟩ := hdigits
  simp only [read, decide_eq_true_eq, hf, hx]

/-- A number is read if and only if each of its parts goes as far as it can. -/
theorem read_iff {i r : List UInt8} {n : Numeral} :
    read i = (n, r) ↔ i = n.text ++ r ∧ n.Fits r := by
  constructor
  · intro h
    generalize hj : (if i.head? = some 0x2D then i.tail else i) = j
    generalize hk : j.dropWhile isdigit = k
    rcases hf : readFraction k with ⟨f, l⟩
    rcases hx : readExponent l with ⟨x, r'⟩
    rw [read_eq ⟨rfl, hj⟩ ⟨rfl, hk⟩ hf hx] at h
    cases h
    obtain ⟨hi, hminus⟩ := minus_iff.mp ⟨rfl, hj⟩
    obtain ⟨hj, hdigits⟩ := digits_iff.mp ⟨rfl, hk⟩
    obtain ⟨rfl, hfraction⟩ := readFraction_fits hf
    obtain ⟨rfl, hexponent⟩ := readExponent_fits hx
    refine ⟨?_, ?_, hdigits, hfraction, hexponent⟩
    · rw [text, List.append_assoc, List.append_assoc, List.append_assoc, ← hj]
      exact hi
    · simp only
      rwa [← hj]
  · rintro ⟨rfl, h⟩
    have hsplit : n.text ++ r = (if n.minus then [0x2D] else []) ++
        (n.digits ++ (fractionText n.fraction ++ (exponentText n.exponent ++ r))) := by
      simp only [text, List.append_assoc]
    exact read_eq (minus_iff.mpr ⟨hsplit, h.minus⟩) (digits_iff.mpr ⟨rfl, h.digits⟩)
      (readFraction_of_fits h.fraction) (readExponent_of_fits h.exponent)

/-- A character that a number can go on with. -/
def isNumeric (c : UInt8) : Bool := isdigit c || c == 0x2E || isLetter c || isSign c

theorem isNumeric_stops {r : List UInt8} (h : Stops isNumeric r) :
    Stops isdigit r ∧ Stops (· == 0x2E) r ∧ Stops isLetter r ∧ Stops isSign r := by
  refine ⟨h.mono ?_, h.mono ?_, h.mono ?_, h.mono ?_⟩ <;>
  · intro c hc
    simp_all [isNumeric]

theorem ExponentFits.nil {x : Option (UInt8 × List UInt8 × List UInt8)} {r : List UInt8}
    (h : ExponentFits x r) : ExponentFits x [] := by
  rcases x with _ | ⟨e, sign, ds⟩
  · exact stops_nil
  · obtain ⟨he, hsign, hdigits, -⟩ := h
    refine ⟨he, hsign.imp_right (And.imp_right fun h => ?_), hdigits, stops_nil⟩
    rw [List.append_nil]
    exact h.left

theorem ExponentFits.append {x : Option (UInt8 × List UInt8 × List UInt8)} {r : List UInt8}
    (h : ExponentFits x []) (hr : Stops isNumeric r) : ExponentFits x r := by
  obtain ⟨hdigit, -, hletter, hsign⟩ := isNumeric_stops hr
  rcases x with _ | ⟨e, sign, ds⟩
  · exact hletter
  · obtain ⟨he, hs, hdigits, -⟩ := h
    refine ⟨he, hs.imp_right (And.imp_right fun h => ?_), hdigits, hdigit⟩
    rw [List.append_nil] at h
    exact h.append hsign

/-- What stands before some text stands alone. -/
theorem Fits.nil {n : Numeral} {r : List UInt8} (h : n.Fits r) : n.Fits [] := by
  have hleft : ∀ {p : UInt8 → Bool} {t : List UInt8}, Stops p (t ++ r) → Stops p (t ++ []) := by
    intro p t ht
    rw [List.append_nil]
    exact ht.left
  obtain ⟨hminus, hdigits, hfraction, hexponent⟩ := h
  refine ⟨fun hm => ?_, ⟨hdigits.1, ?_⟩, ?_, hexponent.nil⟩
  · rw [← List.append_assoc, ← List.append_assoc]
    exact hleft (by simpa only [List.append_assoc] using hminus hm)
  · rw [← List.append_assoc]
    exact hleft (by simpa only [List.append_assoc] using hdigits.2)
  · cases hf : n.fraction with
    | none =>
      rw [hf] at hfraction
      exact hleft hfraction
    | some ds =>
      rw [hf] at hfraction
      exact ⟨hfraction.1, hleft hfraction.2⟩

/-- What stands alone stands before what does not go on with it. -/
theorem Fits.append {n : Numeral} {r : List UInt8} (h : n.Fits []) (hr : Stops isNumeric r) :
    n.Fits r := by
  obtain ⟨hdigit, hdot, -, hsign⟩ := isNumeric_stops hr
  have happend : ∀ {p : UInt8 → Bool} {t : List UInt8}, Stops p r → Stops p (t ++ []) →
      Stops p (t ++ r) := by
    intro p t hp ht
    rw [List.append_nil] at ht
    exact ht.append hp
  obtain ⟨hminus, hdigits, hfraction, hexponent⟩ := h
  refine ⟨fun hm => ?_, ⟨hdigits.1, ?_⟩, ?_, hexponent.append hr⟩
  · have hdash : Stops (· == 0x2D) r := hsign.mono fun c hc => by simp_all [isSign]
    rw [← List.append_assoc, ← List.append_assoc]
    exact happend hdash (by simpa only [List.append_assoc] using hminus hm)
  · rw [← List.append_assoc]
    exact happend hdigit (by simpa only [List.append_assoc] using hdigits.2)
  · cases hf : n.fraction with
    | none =>
      rw [hf] at hfraction
      exact happend hdot hfraction
    | some ds =>
      rw [hf] at hfraction
      exact ⟨hfraction.1, happend hdigit hfraction.2⟩

/-- A run of digits that is not empty begins with none but a digit. -/
theorem digits_stops {p : UInt8 → Bool} {ds t : List UInt8} (hne : ds ≠ [])
    (hds : ∀ c ∈ ds, isdigit c = true) (hp : ∀ c, isdigit c = true → p c = false) :
    Stops p (ds ++ t) := by
  obtain ⟨d, ds, rfl⟩ := List.exists_cons_of_ne_nil hne
  exact stops_cons.mpr (hp d (hds d List.mem_cons_self))

theorem IsJson.exponent_stops {n : Numeral} (h : n.IsJson) {p : UInt8 → Bool}
    (hlower : p 0x65 = false) (hupper : p 0x45 = false) :
    Stops p (exponentText n.exponent ++ []) := by
  rcases hx : n.exponent with _ | ⟨e, sign, ds⟩
  · exact stops_nil
  · apply stops_cons.mpr
    rcases (h.exponent _ hx).1 with rfl | rfl
    · exact hlower
    · exact hupper

theorem not_minus_of_digit (c : UInt8) (h : isdigit c = true) : (c == 0x2D) = false := by
  rw [beq_eq_false_iff_ne]
  rintro rfl
  exact absurd h (by decide)

theorem not_sign_of_digit (c : UInt8) (h : isdigit c = true) : isSign c = false := by
  rw [isSign, not_minus_of_digit c h, Bool.or_false, beq_eq_false_iff_ne]
  rintro rfl
  exact absurd h (by decide)

theorem IsJson.digits_run {n : Numeral} (h : n.IsJson) :
    n.digits ≠ [] ∧ ∀ c ∈ n.digits, isdigit c = true := by
  rcases h.digits with hd | ⟨d, ds, hd, -, hds⟩
  · rw [hd]
    exact ⟨by simp, by simp [isdigit]⟩
  · rw [hd]
    exact ⟨by simp, hds⟩

/-- A number as JSON has it goes as far as it can. -/
theorem IsJson.fits {n : Numeral} (h : n.IsJson) : n.Fits [] := by
  obtain ⟨hne, hdigits⟩ := h.digits_run
  have hexponent : Stops isdigit (exponentText n.exponent ++ []) :=
    h.exponent_stops (by decide) (by decide)
  refine ⟨fun _ => digits_stops hne hdigits not_minus_of_digit, ⟨hdigits, ?_⟩, ?_, ?_⟩
  · cases hf : n.fraction with
    | none => exact hexponent
    | some ds => exact stops_cons.mpr (by decide)
  · cases hf : n.fraction with
    | none => exact h.exponent_stops (by decide) (by decide)
    | some ds => exact ⟨(h.fraction ds hf).2, hexponent⟩
  · rcases hx : n.exponent with _ | ⟨e, sign, ds⟩
    · exact stops_nil
    · obtain ⟨he, hsign, hds, hrun⟩ := h.exponent _ hx
      refine ⟨by simpa [isLetter] using he, ?_, hrun, stops_nil⟩
      rcases hsign with hs | hs | hs
      · exact Or.inr ⟨hs, digits_stops hds hrun not_sign_of_digit⟩
      · exact Or.inl ⟨_, hs, by decide⟩
      · exact Or.inl ⟨_, hs, by decide⟩

end Numeral

/-- A number that is read stands alone, and the parser goes as far as the number does. -/
theorem numeral_readable {i r : List UInt8} {n : Numeral} (h : Numeral.read i = (n, r))
    (hstart : n.minus = true ∨ n.digits ≠ []) : (Lexeme.numeral n).Readable :=
  ⟨hstart, Numeral.read_iff.mpr ⟨by simp, (Numeral.read_iff.mp h).2.nil⟩⟩

theorem numeral_append {n : Numeral} (h : (Lexeme.numeral n).Readable) {r : List UInt8}
    (hr : Stops Numeral.isNumeric r) : Numeral.read (n.text ++ r) = (n, r) :=
  Numeral.read_iff.mpr ⟨rfl, (Numeral.read_iff.mp h.2).2.append hr⟩

/-- What JSON has the parser takes. -/
theorem Lexeme.IsJson.readable {x : Lexeme} (h : x.IsJson) : x.Readable := by
  match x with
  | .blank w =>
    intro c hc
    have hblank := h c hc
    simp only [isBlank, Bool.or_eq_true, beq_iff_eq] at hblank
    rcases hblank with ((rfl | rfl) | rfl) | rfl <;> decide
  | .piece (.plain c) => exact h.2
  | .piece (.escape e) =>
    rintro rfl
    exact absurd (show (0x75 : UInt8) ∈ _ from h) (by decide)
  | .piece (.unicode a b c d) => trivial
  | .numeral n =>
    exact numeral_readable (Numeral.read_iff.mpr ⟨(List.append_nil _).symm, h.fits⟩)
      (Or.inr h.digits_run.1)

end Patrol.Json
