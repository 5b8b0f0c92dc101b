import Patrol.Json.JsonHelper
import Patrol.ProofKit.Progress

/-! The parser ends and stays inside its text.  Next to each method of the parser stand its notes: the
values of `pos_` at each call of `parseValue`, `parseObject` and `parseArray`, at the start of each turn
of a loop, and after each change of `pos_`. -/

namespace Patrol.Json

open ProofKit

namespace Parser

section Notes

variable (s : List UInt8)

def skipWhileNotes (p : UInt8 → Bool) : (left pos : Nat) → List Nat
  | 0, _ => []
  | left + 1, pos =>
    if p (s.getD pos 0) then pos :: (pos + 1) :: skipWhileNotes p left (pos + 1) else []

def skipWsNotes (pos : Nat) : List Nat := skipWhileNotes s isspace (s.length - pos) pos

def skipDigitsNotes (pos : Nat) : List Nat := skipWhileNotes s isdigit (s.length - pos) pos

def consumeNotes (pos : Nat) : List Nat := if pos < s.length then [pos + 1] else []

def expectNotes (c : UInt8) (pos : Nat) : List Nat :=
  skipWsNotes s pos ++ if peek s (skipWs s pos) != c then [] else [skipWs s pos + 1]

def consumeUpToNotes : Nat → Nat → List Nat
  | 0, _ => []
  | n + 1, pos =>
    if pos < s.length then pos :: (consumeNotes s pos ++ consumeUpToNotes n (consume s pos).2)
    else []

def stringLoopNotes : (left pos : Nat) → List Nat
  | 0, _ => []
  | left + 1, pos =>
    if pos < s.length && peek s pos != 0x22 then
      pos :: (consumeNotes s pos ++
        let (c, pos) := consume s pos
        if c == 0x5C then
          consumeNotes s pos ++
            let (e, pos) := consume s pos
            if e == 0x75 then
              consumeUpToNotes s 4 pos ++ stringLoopNotes left (consumeUpTo s 4 pos)
            else stringLoopNotes left pos
        else stringLoopNotes left pos)
    else []

def parseStringNotes (pos : Nat) : List Nat :=
  expectNotes s 0x22 pos ++ after (expect s 0x22 pos) fun pos =>
    stringLoopNotes s (s.length - pos) pos ++
      expectNotes s 0x22 (stringLoop s (s.length - pos) pos []).2

def parseNumberNotes (pos : Nat) : List Nat :=
  let minus := if peek s pos == 0x2D then [pos + 1] else []
  let pos := if peek s pos == 0x2D then pos + 1 else pos
  let digits := skipDigitsNotes s pos
  let pos := skipDigits s pos
  let fraction := if peek s pos == 0x2E then (pos + 1) :: skipDigitsNotes s (pos + 1) else []
  let pos := if peek s pos == 0x2E then skipDigits s (pos + 1) else pos
  let exponent :=
    if peek s pos == 0x65 || peek s pos == 0x45 then
      let pos := pos + 1
      if peek s pos == 0x2B || peek s pos == 0x2D then
        pos :: (pos + 1) :: skipDigitsNotes s (pos + 1)
      else pos :: skipDigitsNotes s pos
    else []
  minus ++ (digits ++ (fraction ++ exponent))

def parseBoolNotes (pos : Nat) : List Nat := after (parseBool s pos) fun x => [x.2]

def parseNullNotes (pos : Nat) : List Nat := after (parseNull s pos) fun pos => [pos]

/-- What comes after a value in a container: `next` goes on after a comma. -/
def separatorNotes (close : UInt8) (next : Nat → List Nat) (pos : Nat) : List Nat :=
  skipWsNotes s pos ++
    if peek s (skipWs s pos) == 0x2C then (skipWs s pos + 1) :: next (skipWs s pos + 1)
    else if peek s (skipWs s pos) == close then [skipWs s pos + 1]
    else []

mutual

def parseValueNotes : (fuel pos : Nat) → List Nat
  | 0, _ => []
  | fuel + 1, pos =>
    pos :: (skipWsNotes s pos ++
      let pos := skipWs s pos
      let c := peek s pos
      if c == 0x22 then parseStringNotes s pos
      else if c == 0x7B then parseObjectNotes fuel pos
      else if c == 0x5B then parseArrayNotes fuel pos
      else if c == 0x74 || c == 0x66 then parseBoolNotes s pos
      else if c == 0x6E then parseNullNotes s pos
      else if c == 0x2D || isdigit c then parseNumberNotes s pos
      else [])
termination_by structural fuel => fuel

def parseObjectNotes : (fuel pos : Nat) → List Nat
  | 0, _ => []
  | fuel + 1, pos =>
    pos :: (expectNotes s 0x7B pos ++ after (expect s 0x7B pos) fun pos =>
      skipWsNotes s pos ++
        if peek s (skipWs s pos) == 0x7D then [skipWs s pos + 1]
        else objectLoopNotes fuel (skipWs s pos))
termination_by structural fuel => fuel

def objectLoopNotes : (fuel pos : Nat) → List Nat
  | 0, _ => []
  | fuel + 1, pos =>
    if pos < s.length then
      pos :: (skipWsNotes s pos ++
        if peek s (skipWs s pos) != 0x22 then []
        else
          parseStringNotes s (skipWs s pos) ++ after (parseString s (skipWs s pos)) fun k =>
            expectNotes s 0x3A k.2 ++ after (expect s 0x3A k.2) fun pos =>
              parseValueNotes fuel pos ++ after (parseValue s fuel pos) fun v =>
                separatorNotes s 0x7D (objectLoopNotes fuel) v.2)
    else []
termination_by structural fuel => fuel

def parseArrayNotes : (fuel pos : Nat) → List Nat
  | 0, _ => []
  | fuel + 1, pos =>
    pos :: (expectNotes s 0x5B pos ++ after (expect s 0x5B pos) fun pos =>
      skipWsNotes s pos ++
        if peek s (skipWs s pos) == 0x5D then [skipWs s pos + 1]
        else arrayLoopNotes fuel (skipWs s pos))
termination_by structural fuel => fuel

def arrayLoopNotes : (fuel pos : Nat) → List Nat
  | 0, _ => []
  | fuel + 1, pos =>
    if pos < s.length then
      pos :: (parseValueNotes fuel pos ++ after (parseValue s fuel pos) fun v =>
        separatorNotes s 0x5D (arrayLoopNotes fuel) v.2)
    else []
termination_by structural fuel => fuel

end

def parseNotes : List Nat :=
  skipWsNotes s 0 ++ parseValueNotes s (3 * s.length + 1) (skipWs s 0)

end Notes

variable {s : List UInt8} {pos : Nat}

/-- What a method can throw: an error of its own, or the end of the fuel where that is not enough. -/
def Ends (enough : Prop) (e : Throw) : Prop :=
  (∃ what, e = .runtimeError what) ∨ (e = .fuel ∧ ¬ enough)

theorem ends_runtimeError (enough : Prop) (what : String) : Ends enough (.runtimeError what) :=
  Or.inl ⟨what, rfl⟩

/-- The NUL that `peek` returns at the end is no other character. -/
theorem lt_of_peek {c : UInt8} (hc : c ≠ 0) (h : (peek s pos == c) = true) : pos < s.length := by
  by_contra hlt
  rw [peek, if_neg hlt, beq_iff_eq] at h
  exact hc h.symm

theorem skipWhile_advances (p : UInt8 → Bool) {left : Nat} (h : pos + left ≤ s.length) :
    Advances 4 s.length 0 pos (skipWhileNotes s p left pos) (skipWhile s p left pos) := by
  induction left generalizing pos with
  | zero => exact .stay h
  | succ left ih =>
    rw [skipWhileNotes, skipWhile]
    split
    · have hmove : Advances 4 s.length 1 pos [pos + 1] (pos + 1) :=
        .move (Nat.lt_succ_self pos) (by omega) (by decide)
      exact (hmove.append (ih (by omega)) (by decide)).note
    · exact .stay (by omega)

theorem skipWs_advances (h : pos ≤ s.length) :
    Advances 4 s.length 0 pos (skipWsNotes s pos) (skipWs s pos) :=
  skipWhile_advances isspace (by omega)

theorem skipDigits_advances (h : pos ≤ s.length) :
    Advances 4 s.length 0 pos (skipDigitsNotes s pos) (skipDigits s pos) :=
  skipWhile_advances isdigit (by omega)

/-- The index moves past a character that is there. -/
theorem next_advances (h : pos < s.length) : Advances 4 s.length 3 pos [pos + 1] (pos + 1) :=
  .move (Nat.lt_succ_self pos) h (by decide)

/-- At a digit, the loop over the digits takes a turn. -/
theorem skipDigits_next (h : isdigit (peek s pos) = true) :
    Advances 4 s.length 2 pos (skipDigitsNotes s pos) (skipDigits s pos) := by
  have hlt : pos < s.length := by
    by_contra hlt
    rw [peek, if_neg hlt] at h
    exact absurd h (by decide)
  rw [peek, if_pos hlt] at h
  obtain ⟨left, hleft⟩ : ∃ left, s.length - pos = left + 1 := ⟨s.length - pos - 1, by omega⟩
  rw [skipDigitsNotes, skipDigits, hleft, skipWhileNotes, skipWhile, if_pos h, if_pos h]
  have hrest : pos + 1 + left ≤ s.length := by omega
  exact ((next_advances hlt).append (skipWhile_advances isdigit hrest) (by decide)).note

theorem consume_next (h : pos < s.length) :
    Advances 4 s.length 3 pos (consumeNotes s pos) (consume s pos).2 := by
  rw [consumeNotes, consume, if_pos h, if_pos h]
  exact next_advances h

theorem consume_advances (h : pos ≤ s.length) :
    Advances 4 s.length 0 pos (consumeNotes s pos) (consume s pos).2 := by
  by_cases hlt : pos < s.length
  · exact (consume_next hlt).weaken (Nat.zero_le _)
  · rw [consumeNotes, consume, if_neg hlt, if_neg hlt]
    exact .stay h

theorem consumeUpTo_advances (n : Nat) (h : pos ≤ s.length) :
    Advances 4 s.length 0 pos (consumeUpToNotes s n pos) (consumeUpTo s n pos) := by
  induction n generalizing pos with
  | zero => exact .stay h
  | succ n ih =>
    rw [consumeUpToNotes, consumeUpTo]
    split
    · next hlt =>
      have hnext := consume_next hlt
      exact (hnext.append (ih hnext.walk.inside) (by decide)).note
    · exact .stay h

theorem stringLoop_advances (left : Nat) (r : List UInt8) (h : pos ≤ s.length) :
    Advances 4 s.length 0 pos (stringLoopNotes s left pos) (stringLoop s left pos r).2 := by
  induction left generalizing pos r with
  | zero => exact .stay h
  | succ left ih =>
    rw [stringLoopNotes, stringLoop]
    split
    · next hturn =>
      have hlt : pos < s.length := by
        rw [Bool.and_eq_true, decide_eq_true_eq] at hturn
        exact hturn.1
      have hconsume := consume_next hlt
      rcases hread : consume s pos with ⟨c, pos₁⟩
      rw [hread] at hconsume
      have hrest : Advances 4 s.length 0 pos₁
          (if c == 0x5C then
            consumeNotes s pos₁ ++
              if (consume s pos₁).1 == 0x75 then
                consumeUpToNotes s 4 (consume s pos₁).2 ++
                  stringLoopNotes s left (consumeUpTo s 4 (consume s pos₁).2)
              else stringLoopNotes s left (consume s pos₁).2
          else stringLoopNotes s left pos₁)
          (if c == 0x5C then
            if (consume s pos₁).1 == 0x75 then
              stringLoop s left (consumeUpTo s 4 (consume s pos₁).2) (r ++ [0x3F])
            else stringLoop s left (consume s pos₁).2 (r ++ [unescape (consume s pos₁).1])
          else stringLoop s left pos₁ (r ++ [c])).2 := by
        split
        · have hescape := consume_advances hconsume.walk.inside
          split
          · have hunicode := consumeUpTo_advances 4 hescape.walk.inside
            exact hescape.append (hunicode.append (ih _ hunicode.walk.inside) (Nat.le_refl 0))
              (Nat.le_refl 0)
          · exact hescape.append (ih _ hescape.walk.inside) (Nat.le_refl 0)
        · exact ih _ hconsume.walk.inside
      exact (hconsume.append hrest (by decide)).note
    · exact .stay h

theorem expect_tracks (enough : Prop) {c : UInt8} (hc : c ≠ 0) (h : pos ≤ s.length) :
    Tracks 4 s.length id (Ends enough) 3 0 pos (expectNotes s c pos) (expect s c pos) := by
  have hws := skipWs_advances h
  rw [expectNotes, expect]
  split
  · rw [List.append_nil]
    exact ⟨⟨_, hws.walk⟩, hws.paid.trans (Nat.mul_le_mul_left _
      (Nat.sub_le_sub_right hws.walk.inside _)), ends_runtimeError _ _⟩
  · next hpeek =>
    have hlt : skipWs s pos < s.length := lt_of_peek hc (by simpa [bne] using hpeek)
    exact hws.append (next_advances hlt) (by decide)

theorem parseString_tracks (enough : Prop) (h : pos ≤ s.length) :
    Tracks 4 s.length Prod.snd (Ends enough) 2 0 pos (parseStringNotes s pos)
      (parseString s pos) := by
  have hrest : ∀ pos₁, Advances 4 s.length 3 pos (expectNotes s 0x22 pos) pos₁ →
      Tracks 4 s.length Prod.snd (Ends enough) 0 3 pos₁
        (stringLoopNotes s (s.length - pos₁) pos₁ ++
          expectNotes s 0x22 (stringLoop s (s.length - pos₁) pos₁ []).2)
        (do
          let pos ← expect s 0x22 (stringLoop s (s.length - pos₁) pos₁ []).2
          .ok ((stringLoop s (s.length - pos₁) pos₁ []).1, pos)) := by
    intro pos₁ h₁
    have hloop := stringLoop_advances (s.length - pos₁) [] h₁.walk.inside
    have hclose := expect_tracks enough (c := 0x22) (by decide) hloop.walk.inside
    exact Tracks.advance hloop (hclose.map Prod.snd (fun pos => (_, pos)) fun _ => rfl) (by decide)
      (by decide)
  exact (expect_tracks enough (by decide) h).bind hrest (by decide) (by decide)

theorem isWord_ok (word : List UInt8) (h : pos ≤ s.length) :
    ∃ found, isWord s word pos = .ok found ∧ (found = true → pos + word.length ≤ s.length) := by
  rw [isWord, sizeSub, if_pos h, ok_bind, substr, if_pos h]
  split
  · next hlength => exact ⟨_, rfl, fun _ => by omega⟩
  · exact ⟨false, rfl, fun hfound => absurd hfound (by decide)⟩

theorem parseBool_tracks (enough : Prop) (h : pos ≤ s.length) :
    Tracks 4 s.length Prod.snd (Ends enough) 2 0 pos (parseBoolNotes s pos) (parseBool s pos) := by
  obtain ⟨isTrue, htrue, hfour⟩ := isWord_ok [0x74, 0x72, 0x75, 0x65] h
  obtain ⟨isFalse, hfalse, hfive⟩ := isWord_ok [0x66, 0x61, 0x6C, 0x73, 0x65] h
  rw [parseBoolNotes, parseBool, htrue, ok_bind]
  cases isTrue with
  | true => exact .move (by omega) (hfour rfl) (by decide)
  | false =>
    rw [hfalse]
    cases isFalse with
    | true => exact .move (by omega) (hfive rfl) (by decide)
    | false => exact .throws h (ends_runtimeError _ _)

theorem parseNull_tracks (enough : Prop) (h : pos ≤ s.length) :
    Tracks 4 s.length id (Ends enough) 2 0 pos (parseNullNotes s pos) (parseNull s pos) := by
  obtain ⟨isNull, hnull, hfour⟩ := isWord_ok [0x6E, 0x75, 0x6C, 0x6C] h
  rw [parseNullNotes, parseNull, hnull, ok_bind]
  cases isNull with
  | true => exact .move (by omega) (hfour rfl) (by decide)
  | false => exact .throws h (ends_runtimeError _ _)

/-- A number starts with a minus sign or a digit, so that its first loop ends further on. -/
theorem whole_advances (h : (peek s pos == 0x2D || isdigit (peek s pos)) = true) :
    Advances 4 s.length 2 pos
      ((if peek s pos == 0x2D then [pos + 1] else []) ++
        skipDigitsNotes s (if peek s pos == 0x2D then pos + 1 else pos))
      (skipDigits s (if peek s pos == 0x2D then pos + 1 else pos)) := by
  by_cases hminus : (peek s pos == 0x2D) = true
  · rw [if_pos hminus, if_pos hminus]
    have hlt : pos < s.length := lt_of_peek (by decide) hminus
    exact (next_advances hlt).append (skipDigits_advances hlt) (by decide)
  · rw [if_neg hminus, if_neg hminus]
    rw [Bool.not_eq_true] at hminus
    rw [hminus, Bool.false_or] at h
    exact skipDigits_next h

theorem fraction_advances (h : pos ≤ s.length) :
    ∃ flt last,
      (if peek s pos == 0x2E then (true, skipDigits s (pos + 1)) else (false, pos)) = (flt, last) ∧
      (if peek s pos == 0x2E then skipDigits s (pos + 1) else pos) = last ∧
      Advances 4 s.length 0 pos
        (if peek s pos == 0x2E then (pos + 1) :: skipDigitsNotes s (pos + 1) else []) last := by
  split
  · next hdot =>
    have hlt : pos < s.length := lt_of_peek (by decide) hdot
    exact ⟨_, _, rfl, rfl, (next_advances hlt).append (skipDigits_advances hlt) (by decide)⟩
  · exact ⟨_, _, rfl, rfl, .stay h⟩

theorem exponent_advances (flt : Bool) (h : pos ≤ s.length) :
    ∃ flt' last,
      (if peek s pos == 0x65 || peek s pos == 0x45 then
        (true, skipDigits s
          (if peek s (pos + 1) == 0x2B || peek s (pos + 1) == 0x2D then pos + 1 + 1 else pos + 1))
        else (flt, pos)) = (flt', last) ∧
      Advances 4 s.length 0 pos
        (if peek s pos == 0x65 || peek s pos == 0x45 then
          if peek s (pos + 1) == 0x2B || peek s (pos + 1) == 0x2D then
            (pos + 1) :: (pos + 1 + 1) :: skipDigitsNotes s (pos + 1 + 1)
          else (pos + 1) :: skipDigitsNotes s (pos + 1)
        else []) last := by
  split
  · next he =>
    have hlt : pos < s.length := by
      rcases (Bool.or_eq_true _ _).mp he with he | he
      · exact lt_of_peek (by decide) he
      · exact lt_of_peek (by decide) he
    split
    · next hsign =>
      have hlt' : pos + 1 < s.length := by
        rcases (Bool.or_eq_true _ _).mp hsign with hsign | hsign
        · exact lt_of_peek (by decide) hsign
        · exact lt_of_peek (by decide) hsign
      have hdigits := (next_advances hlt').append (skipDigits_advances hlt') (Nat.zero_le _)
      exact ⟨_, _, rfl, (next_advances hlt).append hdigits (by decide)⟩
    · exact ⟨_, _, rfl, (next_advances hlt).append (skipDigits_advances hlt) (by decide)⟩
  · exact ⟨_, _, rfl, .stay h⟩

theorem parseNumber_tracks (enough : Prop)
    (h : (peek s pos == 0x2D || isdigit (peek s pos)) = true) :
    Tracks 4 s.length Prod.snd (Ends enough) 2 0 pos (parseNumberNotes s pos)
      (parseNumber s pos) := by
  have hwhole := whole_advances h
  obtain ⟨flt, last, hfraction, hlast, hfractionAdvances⟩ := fraction_advances hwhole.walk.inside
  obtain ⟨flt', last', hexponent, hexponentAdvances⟩ :=
    exponent_advances flt hfractionAdvances.walk.inside
  have hadvances := hwhole.append
    (hfractionAdvances.append hexponentAdvances (Nat.le_refl 0)) (Nat.le_refl 2)
  have hle := hadvances.walk.le
  have hinside := hadvances.walk.inside
  rw [List.append_assoc] at hadvances
  rw [parseNumberNotes, parseNumber]
  simp only [hlast, hfraction, hexponent, sizeSub, if_pos hle, ok_bind, substr,
    if_pos (hle.trans hinside)]
  exact hadvances

/-- Enough fuel for a value: each of its characters opens at most a value, a container and a loop. -/
def EnoughForValue (s : List UInt8) (fuel pos : Nat) : Prop := 3 * (s.length - pos) + 1 ≤ fuel

def EnoughForContainer (s : List UInt8) (fuel pos : Nat) : Prop :=
  pos < s.length ∧ 3 * (s.length - pos) ≤ fuel

def EnoughForLoop (s : List UInt8) (fuel pos : Nat) : Prop := 3 * (s.length - pos) + 2 ≤ fuel

section Enough

variable {fuel start : Nat}

theorem EnoughForValue.container (h : EnoughForValue s (fuel + 1) start) (hle : start ≤ pos)
    (hlt : pos < s.length) : EnoughForContainer s fuel pos := by
  rw [EnoughForValue] at h
  exact ⟨hlt, by omega⟩

theorem EnoughForContainer.loop (h : EnoughForContainer s (fuel + 1) start) (hlt : start < pos) :
    EnoughForLoop s fuel pos := by
  rw [EnoughForContainer] at h
  rw [EnoughForLoop]
  omega

theorem EnoughForLoop.value (h : EnoughForLoop s (fuel + 1) start) (hle : start ≤ pos) :
    EnoughForValue s fuel pos := by
  rw [EnoughForLoop] at h
  rw [EnoughForValue]
  omega

theorem EnoughForLoop.next (h : EnoughForLoop s (fuel + 1) start) (hlt : start < pos)
    (hle : pos ≤ s.length) : EnoughForLoop s fuel pos := by
  rw [EnoughForLoop] at h ⊢
  omega

theorem not_enoughForContainer : ¬ EnoughForContainer s 0 pos := by
  rw [EnoughForContainer]
  omega

end Enough

theorem Ends.imp {enough enough' : Prop} {e : Throw} (he : Ends enough e)
    (h : enough' → enough) : Ends enough' e :=
  Or.imp id (fun hfuel => ⟨hfuel.1, fun henough => hfuel.2 (h henough)⟩) he

def ValuesTrack (s : List UInt8) (fuel : Nat) : Prop :=
  ∀ ⦃pos⦄, pos ≤ s.length →
    Tracks 4 s.length Prod.snd (Ends (EnoughForValue s fuel pos)) 1 2 pos
      (parseValueNotes s fuel pos) (parseValue s fuel pos)

def ObjectsTrack (s : List UInt8) (fuel : Nat) : Prop :=
  ∀ ⦃pos⦄, pos ≤ s.length →
    Tracks 4 s.length Prod.snd (Ends (EnoughForContainer s fuel pos)) 2 1 pos
      (parseObjectNotes s fuel pos) (parseObject s fuel pos)

def ArraysTrack (s : List UInt8) (fuel : Nat) : Prop :=
  ∀ ⦃pos⦄, pos ≤ s.length →
    Tracks 4 s.length Prod.snd (Ends (EnoughForContainer s fuel pos)) 2 1 pos
      (parseArrayNotes s fuel pos) (parseArray s fuel pos)

def ObjectLoopsTrack (s : List UInt8) (fuel : Nat) : Prop :=
  ∀ ⦃pos⦄ entries, pos ≤ s.length →
    Tracks 4 s.length Prod.snd (Ends (EnoughForLoop s fuel pos)) 0 3 pos
      (objectLoopNotes s fuel pos) (objectLoop s fuel pos entries)

def ArrayLoopsTrack (s : List UInt8) (fuel : Nat) : Prop :=
  ∀ ⦃pos⦄ elements, pos ≤ s.length →
    Tracks 4 s.length Prod.snd (Ends (EnoughForLoop s fuel pos)) 0 3 pos
      (arrayLoopNotes s fuel pos) (arrayLoop s fuel pos elements)

theorem parseValue_tracks {fuel : Nat} (ihObject : ObjectsTrack s fuel)
    (ihArray : ArraysTrack s fuel) : ValuesTrack s (fuel + 1) := by
  intro pos h
  have hws := skipWs_advances h
  have hinside := hws.walk.inside
  have hle := hws.walk.le
  rw [parseValueNotes, parseValue]
  refine Tracks.note (Tracks.advance hws ?_ (show 2 ≤ 0 + 2 by decide) (show 1 ≤ 1 + 0 by decide))
  dsimp only
  split
  · have hstring := (parseString_tracks (EnoughForValue s (fuel + 1) pos) hinside).map Prod.snd
      (fun x => (JsonNode.string x.1, x.2)) fun _ => rfl
    exact hstring.relax (Nat.le_refl 2) (Nat.zero_le 1)
  split
  · next hobject =>
    have hlt := lt_of_peek (by decide) hobject
    exact (ihObject hinside).throwing fun _ he => he.imp fun henough => henough.container hle hlt
  split
  · next harray =>
    have hlt := lt_of_peek (by decide) harray
    exact (ihArray hinside).throwing fun _ he => he.imp fun henough => henough.container hle hlt
  split
  · exact (parseBool_tracks _ hinside).relax (Nat.le_refl 2) (Nat.zero_le 1)
  split
  · have hnull := (parseNull_tracks (EnoughForValue s (fuel + 1) pos) hinside).map Prod.snd
      (fun pos => (JsonNode.null, pos)) fun _ => rfl
    exact hnull.relax (Nat.le_refl 2) (Nat.zero_le 1)
  split
  · next hnumber =>
    exact (parseNumber_tracks _ hnumber).relax (Nat.le_refl 2) (Nat.zero_le 1)
  · exact .throws hinside (ends_runtimeError _ _)

/-- The start of a container: an opening bracket, after which the container ends or its loop starts. -/
theorem opening_tracks {enough : Prop} {opening close : UInt8} {empty : JsonNode}
    (loop : Nat → Except Throw (JsonNode × Nat)) (loopNotes : Nat → List Nat)
    (hopening : opening ≠ 0) (hclose : close ≠ 0) (h : pos ≤ s.length)
    (hloop : ∀ pos', pos < pos' → pos' ≤ s.length →
      Tracks 4 s.length Prod.snd (Ends enough) 0 3 pos' (loopNotes pos') (loop pos')) :
    Tracks 4 s.length Prod.snd (Ends enough) 2 1 pos
      (pos :: (expectNotes s opening pos ++ after (expect s opening pos) fun pos =>
        skipWsNotes s pos ++
          if peek s (skipWs s pos) == close then [skipWs s pos + 1] else loopNotes (skipWs s pos)))
      (do
        let pos ← expect s opening pos
        let pos := skipWs s pos
        if peek s pos == close then .ok (empty, pos + 1) else loop pos) := by
  refine Tracks.note ((expect_tracks enough hopening h).bind ?_ (show 3 ≤ 3 + 0 by decide)
    (show 3 ≤ 0 + 3 by decide))
  intro pos₁ h₁
  dsimp only [id_eq] at h₁ ⊢
  have hws := skipWs_advances h₁.walk.inside
  refine Tracks.advance hws ?_ (show 0 ≤ 0 + 0 by decide) (show 3 ≤ 3 + 0 by decide)
  split
  · next hend => exact (next_advances (lt_of_peek hclose hend)).weaken (Nat.zero_le _)
  · exact hloop _ (h₁.lt.trans_le hws.walk.le) hws.walk.inside

/-- What comes after a value in a container: a comma, after which the loop goes on, or the closing
bracket. -/
theorem separator_tracks {enough : Prop} {close : UInt8} {done : JsonNode} {what : String}
    {next : Nat → Except Throw (JsonNode × Nat)} {nextNotes : Nat → List Nat} (hclose : close ≠ 0)
    (h : pos ≤ s.length)
    (hnext : ∀ pos', pos < pos' → pos' ≤ s.length →
      Tracks 4 s.length Prod.snd (Ends enough) 0 3 pos' (nextNotes pos') (next pos')) :
    Tracks 4 s.length Prod.snd (Ends enough) 0 0 pos (separatorNotes s close nextNotes pos)
      (if peek s (skipWs s pos) == 0x2C then next (skipWs s pos + 1)
        else if peek s (skipWs s pos) == close then .ok (done, skipWs s pos + 1)
        else .error (.runtimeError what)) := by
  have hws := skipWs_advances h
  refine Tracks.advance hws ?_ (show 0 ≤ 0 + 0 by decide) (show 0 ≤ 0 + 0 by decide)
  split
  · next hcomma =>
    have hmove := next_advances (lt_of_peek (by decide) hcomma)
    have hlt := hws.walk.le.trans_lt hmove.lt
    exact Tracks.advance hmove (hnext _ hlt hmove.walk.inside) (Nat.zero_le _) (by decide)
  split
  · next hend => exact (next_advances (lt_of_peek hclose hend)).weaken (Nat.zero_le _)
  · exact .throws hws.walk.inside (ends_runtimeError _ _)

theorem parseObject_tracks {fuel : Nat} (ih : ObjectLoopsTrack s fuel) :
    ObjectsTrack s (fuel + 1) := by
  intro pos h
  rw [parseObjectNotes, parseObject]
  refine opening_tracks (objectLoop s fuel · []) (objectLoopNotes s fuel) (by decide) (by decide) h
    ?_
  intro pos' hlt hle
  exact (ih [] hle).throwing fun _ he => he.imp fun henough => henough.loop hlt

theorem parseArray_tracks {fuel : Nat} (ih : ArrayLoopsTrack s fuel) :
    ArraysTrack s (fuel + 1) := by
  intro pos h
  rw [parseArrayNotes, parseArray]
  refine opening_tracks (arrayLoop s fuel · []) (arrayLoopNotes s fuel) (by decide) (by decide) h
    ?_
  intro pos' hlt hle
  exact (ih [] hle).throwing fun _ he => he.imp fun henough => henough.loop hlt

/-- A value of a container, and what comes after it. -/
theorem element_tracks {fuel start : Nat} {close : UInt8} {what : String}
    {nextNotes : Nat → List Nat} (next : JsonNode → Nat → Except Throw (JsonNode × Nat))
    (done : JsonNode → JsonNode) (ihValue : ValuesTrack s fuel) (hclose : close ≠ 0)
    (h : pos ≤ s.length) (hstart : start ≤ pos)
    (hnext : ∀ v pos', start < pos' → pos' ≤ s.length →
      Tracks 4 s.length Prod.snd (Ends (EnoughForLoop s fuel pos')) 0 3 pos' (nextNotes pos')
        (next v pos')) :
    Tracks 4 s.length Prod.snd (Ends (EnoughForLoop s (fuel + 1) start)) 1 2 pos
      (parseValueNotes s fuel pos ++ after (parseValue s fuel pos) fun v =>
        separatorNotes s close nextNotes v.2)
      (parseValue s fuel pos >>= fun v =>
        if peek s (skipWs s v.2) == 0x2C then next v.1 (skipWs s v.2 + 1)
        else if peek s (skipWs s v.2) == close then .ok (done v.1, skipWs s v.2 + 1)
        else .error (.runtimeError what)) := by
  have hvalue : Tracks 4 s.length Prod.snd (Ends (EnoughForLoop s (fuel + 1) start)) 1 2 pos
      (parseValueNotes s fuel pos) (parseValue s fuel pos) :=
    (ihValue h).throwing fun _ he => he.imp fun henough => henough.value hstart
  refine hvalue.bind ?_ (show 1 ≤ 1 + 0 by decide) (show 0 ≤ 2 + 1 by decide)
  rintro ⟨v, pos₁⟩ h₁
  refine separator_tracks hclose h₁.walk.inside fun pos' hlt hle => ?_
  have hlt' : start < pos' := (hstart.trans h₁.walk.le).trans_lt hlt
  exact (hnext v pos' hlt' hle).throwing fun _ he => he.imp fun henough =>
    henough.next hlt' hle

theorem arrayLoop_tracks {fuel : Nat} (ihValue : ValuesTrack s fuel)
    (ihLoop : ArrayLoopsTrack s fuel) : ArrayLoopsTrack s (fuel + 1) := by
  intro pos elements h
  rw [arrayLoopNotes, arrayLoop]
  dsimp only
  split
  · refine Tracks.note (element_tracks (fun v pos => arrayLoop s fuel pos (elements ++ [v]))
      (fun v => .array (elements ++ [v])) ihValue (show (0x5D : UInt8) ≠ 0 by decide) h
      (Nat.le_refl pos) ?_)
    intro v pos' _ hle
    exact ihLoop (elements ++ [v]) hle
  · exact Advances.stay h

theorem objectLoop_tracks {fuel : Nat} (ihValue : ValuesTrack s fuel)
    (ihLoop : ObjectLoopsTrack s fuel) : ObjectLoopsTrack s (fuel + 1) := by
  intro pos entries h
  rw [objectLoopNotes, objectLoop]
  dsimp only
  split
  · have hws := skipWs_advances h
    refine Tracks.note (Tracks.advance hws ?_ (show 1 ≤ 0 + 1 by decide) (show 2 ≤ 2 + 0 by decide))
    split
    · exact .throws hws.walk.inside (ends_runtimeError _ _)
    -- the key pays for the turn, and the colon for what a throw in the value leaves open
    have hkey := parseString_tracks (EnoughForLoop s (fuel + 1) pos) hws.walk.inside
    refine Tracks.relax (hkey.bind ?_ (show 1 ≤ 2 + 0 by decide) (show 0 ≤ 0 + 2 by decide))
      (Nat.le_refl 1) (Nat.zero_le 2)
    rintro ⟨k, pos₁⟩ h₁
    have hcolon := expect_tracks (EnoughForLoop s (fuel + 1) pos) (c := 0x3A) (by decide)
      h₁.walk.inside
    refine hcolon.bind ?_ (show 0 ≤ 3 + 1 by decide) (show 2 ≤ 0 + 3 by decide)
    intro pos₂ h₂
    dsimp only [id_eq] at h₂ ⊢
    have hstart : pos ≤ pos₂ := hws.walk.le.trans (h₁.walk.le.trans h₂.walk.le)
    refine element_tracks (fun v pos => objectLoop s fuel pos (OrderedMap.insert k v entries))
      (fun v => .object (OrderedMap.insert k v entries)) ihValue (show (0x7D : UInt8) ≠ 0 by decide)
      h₂.walk.inside hstart ?_
    intro v pos' _ hle
    exact ihLoop (OrderedMap.insert k v entries) hle
  · exact Advances.stay h

/-- Every method of the parser stays inside the text and pays for its notes. -/
theorem parser_tracks (s : List UInt8) (fuel : Nat) :
    ValuesTrack s fuel ∧ ObjectsTrack s fuel ∧ ArraysTrack s fuel ∧ ObjectLoopsTrack s fuel ∧
      ArrayLoopsTrack s fuel := by
  induction fuel with
  | zero =>
    refine ⟨?_, ?_, ?_, ?_, ?_⟩
    · intro pos h
      exact .throws h (Or.inr ⟨rfl, Nat.not_succ_le_zero _⟩)
    · intro pos h
      exact .throws h (Or.inr ⟨rfl, not_enoughForContainer⟩)
    · intro pos h
      exact .throws h (Or.inr ⟨rfl, not_enoughForContainer⟩)
    · intro pos entries h
      exact .throws h (Or.inr ⟨rfl, Nat.not_succ_le_zero _⟩)
    · intro pos elements h
      exact .throws h (Or.inr ⟨rfl, Nat.not_succ_le_zero _⟩)
  | succ fuel ih =>
    obtain ⟨ihValue, ihObject, ihArray, ihObjectLoop, ihArrayLoop⟩ := ih
    exact ⟨parseValue_tracks ihObject ihArray, parseObject_tracks ihObjectLoop,
      parseArray_tracks ihArrayLoop, objectLoop_tracks ihValue ihObjectLoop,
      arrayLoop_tracks ihValue ihArrayLoop⟩

/-- A call that returns normally has consumed a character, and none past the end. -/
def Consumes (s : List UInt8) (method : Nat → Nat → Except Throw (JsonNode × Nat)) : Prop :=
  ∀ ⦃fuel pos v pos'⦄, pos ≤ s.length → method fuel pos = .ok (v, pos') →
    pos < pos' ∧ pos' ≤ s.length

theorem consumes_of_tracks {method : Nat → Nat → Except Throw (JsonNode × Nat)}
    {notes : Nat → Nat → List Nat} {slack excess : Nat} {thrown : Nat → Nat → Throw → Prop}
    (h : ∀ fuel pos, pos ≤ s.length →
      Tracks 4 s.length Prod.snd (thrown fuel pos) (slack + 1) excess pos (notes fuel pos)
        (method fuel pos)) : Consumes s method := by
  intro fuel pos v pos' hpos hok
  have htracks := h fuel pos hpos
  rw [hok] at htracks
  have hadvances : Advances 4 s.length (slack + 1) pos (notes fuel pos) pos' := htracks
  exact ⟨hadvances.lt, hadvances.walk.inside⟩

/-- The notes of a call that returns normally lead from where it starts to where it returns. -/
def Leads (s : List UInt8) (method : Nat → Nat → Except Throw (JsonNode × Nat))
    (notes : Nat → Nat → List Nat) : Prop :=
  ∀ ⦃fuel pos v pos'⦄, pos ≤ s.length → method fuel pos = .ok (v, pos') →
    (notes fuel pos).head? = some pos ∧ (notes fuel pos).getLast? = some pos'

theorem leads_of_tracks {method : Nat → Nat → Except Throw (JsonNode × Nat)}
    {notes : Nat → Nat → List Nat} {slack excess : Nat} {thrown : Nat → Nat → Throw → Prop}
    (hzero : ∀ pos, method 0 pos = .error .fuel)
    (hsucc : ∀ fuel pos, ∃ rest, notes (fuel + 1) pos = pos :: rest)
    (h : ∀ fuel pos, pos ≤ s.length →
      Tracks 4 s.length Prod.snd (thrown fuel pos) slack excess pos (notes fuel pos)
        (method fuel pos)) : Leads s method notes := by
  intro fuel pos v pos' hpos hok
  have htracks := h fuel pos hpos
  rw [hok] at htracks
  have hadvances : Advances 4 s.length slack pos (notes fuel pos) pos' := htracks
  have hlast := hadvances.walk.getLast?
  cases fuel with
  | zero =>
    rw [hzero] at hok
    cases hok
  | succ fuel =>
    obtain ⟨rest, hrest⟩ := hsucc fuel pos
    rw [hrest] at hlast ⊢
    exact ⟨rfl, by rwa [List.getLast?_cons_cons] at hlast⟩

/-- The loops that count down the characters left end where their conditions fail. -/
def LoopsEnd (s : List UInt8) : Prop :=
  (∀ p pos, let last := skipWhile s p (s.length - pos) pos
    ¬ (last < s.length ∧ p (s.getD last 0) = true)) ∧
  (∀ pos r, let last := (stringLoop s (s.length - pos) pos r).2
    ¬ (last < s.length ∧ peek s last ≠ 0x22))

theorem skipWhile_ends (p : UInt8 → Bool) {left : Nat} (h : s.length ≤ pos + left) :
    ¬ (skipWhile s p left pos < s.length ∧ p (s.getD (skipWhile s p left pos) 0) = true) := by
  induction left generalizing pos with
  | zero => exact fun hturn => absurd hturn.1 (Nat.not_lt.mpr h)
  | succ left ih =>
    rw [skipWhile]
    split
    · exact ih (by omega)
    · next hp => exact fun hturn => hp hturn.2

theorem stringLoop_ends {left : Nat} (r : List UInt8) (h : s.length ≤ pos + left) :
    ¬ ((stringLoop s left pos r).2 < s.length ∧ peek s (stringLoop s left pos r).2 ≠ 0x22) := by
  induction left generalizing pos r with
  | zero => exact fun hturn => absurd hturn.1 (Nat.not_lt.mpr h)
  | succ left ih =>
    rw [stringLoop]
    split
    · next hturn =>
      rw [Bool.and_eq_true, decide_eq_true_eq] at hturn
      have hconsume := consume_next hturn.1
      have hlt := hconsume.lt
      rcases hread : consume s pos with ⟨c, pos₁⟩
      rw [hread] at hconsume hlt
      dsimp only at hconsume hlt ⊢
      have hescape := consume_advances hconsume.walk.inside
      have hle := hescape.walk.le
      split
      · split
        · have hunicode := (consumeUpTo_advances 4 hescape.walk.inside).walk.le
          exact ih _ (by omega)
        · exact ih _ (by omega)
      · exact ih _ (by omega)
    · next hturn =>
      intro hlast
      exact hturn (by simpa using hlast)

theorem loops_end (s : List UInt8) : LoopsEnd s :=
  ⟨fun p _ => skipWhile_ends p (by omega), fun _ r => stringLoop_ends r (by omega)⟩

/-- On every text the parser ends, with a node or with an error of its own: no `substr` throws, no
subtraction wraps, and the fuel is enough.  The index never goes back and never leaves the text, every
call of `parseValue`, `parseObject` or `parseArray` that returns has consumed a character and returns the
index that its notes lead to, and the calls, the turns of the loops and the changes of the index are
together linear in the text. -/
theorem parse_ends_inside (s : List UInt8) :
    ((∃ n, parse s = .ok n) ∨ ∃ what, parse s = .error (.runtimeError what)) ∧
      (0 :: parseNotes s).Pairwise (· ≤ ·) ∧ (∀ pos ∈ parseNotes s, pos ≤ s.length) ∧
      (parseNotes s).length ≤ 4 * s.length + 2 ∧
      Consumes s (parseValue s) ∧ Consumes s (parseObject s) ∧ Consumes s (parseArray s) ∧
      Leads s (parseValue s) (parseValueNotes s) ∧ Leads s (parseObject s) (parseObjectNotes s) ∧
      Leads s (parseArray s) (parseArrayNotes s) ∧ LoopsEnd s := by
  have hws := skipWs_advances (Nat.zero_le s.length)
  have hvalue := (parser_tracks s (3 * s.length + 1)).1 hws.walk.inside
  have hnotes := Tracks.advance hws hvalue (show 1 ≤ 0 + 1 by decide) (show 2 ≤ 2 + 0 by decide)
  obtain ⟨last, hwalk⟩ := hnotes.walks
  refine ⟨?_, hwalk.rises, fun _ => hwalk.mem_inside, ?_, ?_, ?_, ?_, ?_, ?_, ?_, loops_end s⟩
  · rw [parse]
    cases hresult : parseValue s (3 * s.length + 1) (skipWs s 0) with
    | ok x => exact Or.inl ⟨x.1, rfl⟩
    | error e =>
      rw [hresult] at hvalue
      rcases hvalue.2.2 with ⟨what, rfl⟩ | ⟨-, hfuel⟩
      · exact Or.inr ⟨what, rfl⟩
      · exact absurd (show 3 * (s.length - skipWs s 0) + 1 ≤ 3 * s.length + 1 by omega) hfuel
  · exact hnotes.bounded
  · exact consumes_of_tracks fun fuel _ h => (parser_tracks s fuel).1 h
  · exact consumes_of_tracks fun fuel _ h => (parser_tracks s fuel).2.1 h
  · exact consumes_of_tracks fun fuel _ h => (parser_tracks s fuel).2.2.1 h
  · exact leads_of_tracks (fun _ => rfl) (fun _ _ => ⟨_, rfl⟩)
      fun fuel _ h => (parser_tracks s fuel).1 h
  · exact leads_of_tracks (fun _ => rfl) (fun _ _ => ⟨_, rfl⟩)
      fun fuel _ h => (parser_tracks s fuel).2.1 h
  · exact leads_of_tracks (fun _ => rfl) (fun _ _ => ⟨_, rfl⟩)
      fun fuel _ h => (parser_tracks s fuel).2.2.1 h

/-- The notes of `[1]`. -/
example : parseNotes [0x5B, 0x31, 0x5D] = [0, 0, 1, 1, 1, 1, 2, 3] := by decide

end Parser

end Patrol.Json
