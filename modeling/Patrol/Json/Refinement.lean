import Patrol.Json.Reader
import Patrol.ProofKit.Fallible

/-! The parser reads what the reader reads: each method of the parser, at an index into the text,
agrees with the reading of what is left of the text there. -/

namespace Patrol.Json

open ProofKit

namespace Parser

/-- What is left of the text `s` at an index. -/
def At (s : List UInt8) (pos : Nat) (i : List UInt8) : Prop := pos ≤ s.length ∧ s.drop pos = i

variable {s : List UInt8} {pos : Nat} {i : List UInt8}

theorem at_zero (s : List UInt8) : At s 0 s := ⟨Nat.zero_le _, rfl⟩

theorem At.length (h : At s pos i) : pos + i.length = s.length := by
  rw [← h.2, List.length_drop]
  have := h.1
  omega

theorem At.add {t : List UInt8} (h : At s pos (t ++ i)) : At s (pos + t.length) i := by
  have hlength := h.length
  rw [List.length_append] at hlength
  refine ⟨by omega, ?_⟩
  rw [← List.drop_drop, h.2, List.drop_left]

theorem At.next {c : UInt8} (h : At s pos (c :: i)) : At s (pos + 1) i := At.add (t := [c]) h

theorem At.getD {c : UInt8} (h : At s pos (c :: i)) : s.getD pos 0 = c := by
  rw [List.getD_eq_getElem?_getD, ← List.head?_drop, h.2]
  rfl

theorem At.lt {c : UInt8} (h : At s pos (c :: i)) : pos < s.length := by
  have := h.length
  simp only [List.length_cons] at this
  omega

theorem At.not_lt (h : At s pos []) : ¬ pos < s.length := by
  have := h.length
  simp only [List.length_nil] at this
  omega

theorem At.peek (h : At s pos i) : peek s pos = i.headD 0 := by
  cases i with
  | nil => exact if_neg h.not_lt
  | cons c i => exact (if_pos h.lt).trans h.getD

theorem At.peek_eq {c : UInt8} (hc : c ≠ 0) (h : At s pos i) :
    (Parser.peek s pos == c) = decide (i.head? = some c) := by
  rw [h.peek]
  cases i with
  | nil => simpa using hc.symm
  | cons d i => simp [beq_eq_decide]

theorem At.consume {c : UInt8} (h : At s pos (c :: i)) : consume s pos = (c, pos + 1) := by
  rw [Parser.consume, if_pos h.lt, h.getD]

theorem At.skipWhile (p : UInt8 → Bool) {left : Nat} (h : At s pos i) (hleft : left = i.length) :
    At s (skipWhile s p left pos) (i.dropWhile p) := by
  subst hleft
  induction i generalizing pos with
  | nil => exact h
  | cons c i ih =>
    rw [List.length_cons, Parser.skipWhile, h.getD, List.dropWhile_cons]
    split
    · exact ih h.next
    · exact h

theorem At.skipWs (h : At s pos i) : At s (skipWs s pos) (skip i) := by
  refine h.skipWhile isspace ?_
  have := h.length
  omega

theorem At.skipDigits (h : At s pos i) : At s (skipDigits s pos) (i.dropWhile isdigit) := by
  refine h.skipWhile isdigit ?_
  have := h.length
  omega

/-- A method of the parser returns what is read, or throws where nothing is read. -/
def Agrees {α : Type} (s : List UInt8) (x : Except Throw (α × Nat))
    (y : Option (α × List UInt8)) : Prop :=
  match y with
  | some (a, r) => ∃ pos, x = .ok (a, pos) ∧ At s pos r
  | none => ∃ e, x = .error e ∧ e.what ≠ ""

theorem expect_ok {c : UInt8} {r : List UInt8} (hc : c ≠ 0) (h : At s pos i)
    (hskip : skip i = c :: r) : ∃ pos', expect s c pos = .ok pos' ∧ At s pos' r := by
  have hws := h.skipWs
  have hpeek := hws.peek_eq hc
  rw [hskip] at hws hpeek
  refine ⟨_, ?_, hws.next⟩
  simp [expect, bne, hpeek]

theorem expect_error {c : UInt8} (hc : c ≠ 0) (h : At s pos i)
    (hskip : (skip i).head? ≠ some c) : ∃ e, expect s c pos = .error e ∧ e.what ≠ "" := by
  refine ⟨.runtimeError ("expected " ++ String.singleton (Char.ofNat c.toNat)), ?_,
    by simp [Throw.what]⟩
  simp [expect, bne, h.skipWs.peek_eq hc, hskip]

theorem At.consumeUpTo (n : Nat) (h : At s pos i) : At s (consumeUpTo s n pos) (i.drop n) := by
  induction n generalizing pos i with
  | zero => exact h
  | succ n ih =>
    rw [Parser.consumeUpTo]
    cases i with
    | nil =>
      rw [if_neg h.not_lt]
      exact h
    | cons c i =>
      rw [if_pos h.lt, h.consume]
      exact ih h.next

theorem stringLoop_end (left : Nat) (acc : List UInt8) (h : At s pos []) :
    stringLoop s left pos acc = (acc, pos) := by
  cases left with
  | zero => rfl
  | succ left => simp [stringLoop, h.not_lt]

/-- The turn of the loop at a character that is no quote. -/
theorem stringLoop_next {c : UInt8} (left : Nat) (acc : List UInt8) (h : At s pos (c :: i))
    (hquote : c ≠ 0x22) :
    stringLoop s (left + 1) pos acc =
      if c == 0x5C then
        if (consume s (pos + 1)).1 == 0x75 then
          stringLoop s left (consumeUpTo s 4 (consume s (pos + 1)).2) (acc ++ [0x3F])
        else stringLoop s left (consume s (pos + 1)).2 (acc ++ [unescape (consume s (pos + 1)).1])
      else stringLoop s left (pos + 1) (acc ++ [c]) := by
  have hpeek : peek s pos = c := h.peek
  rw [stringLoop, if_pos (by simp [h.lt, hpeek, hquote]), h.consume]

/-- The loop of `parseString` comes with the pieces to the closing quote, or without them to the end
of the text. -/
def LoopReads (s : List UInt8) (acc : List UInt8) (loop : List UInt8 × Nat) :
    Option (List Piece × List UInt8) → Prop
  | some (ps, r) => loop.1 = acc ++ ps.map Piece.value ∧ At s loop.2 (0x22 :: r)
  | none => At s loop.2 []

theorem LoopReads.piece {acc : List UInt8} {loop : List UInt8 × Nat} {p : Piece}
    {y : Option (List Piece × List UInt8)} (h : LoopReads s (acc ++ [p.value]) loop y) :
    LoopReads s acc loop (y.map fun x => (p :: x.1, x.2)) := by
  cases y with
  | none => exact h
  | some x =>
    refine ⟨?_, h.2⟩
    rw [h.1, List.append_assoc]
    rfl

/-- The loop after a backslash. -/
theorem escape_reads {left : Nat} {acc : List UInt8}
    (ih : ∀ {pos i} (acc : List UInt8), At s pos i → i.length ≤ left →
      LoopReads s acc (stringLoop s left pos acc) (readPieces i))
    (h : At s pos (0x5C :: i)) (hleft : i.length ≤ left) :
    LoopReads s acc (stringLoop s (left + 1) pos acc) (readPieces (0x5C :: i)) := by
  have hnext := h.next
  rw [stringLoop_next left acc h (by decide), readPieces.eq_def]
  simp only [show ((0x5C : UInt8) = 0x22) = False by decide, BEq.rfl, if_true, if_false]
  cases i with
  | nil =>
    rw [Parser.consume, if_neg hnext.not_lt]
    dsimp only
    rw [if_neg (by decide), stringLoop_end _ _ hnext]
    exact hnext
  | cons e j =>
    rw [hnext.consume]
    simp only [List.length_cons] at hleft
    by_cases hu : e = 0x75
    · subst hu
      simp only [BEq.rfl, if_true]
      have hdrop := hnext.next.consumeUpTo 4
      have hend : At s (consumeUpTo s 4 (pos + 1 + 1)) [] →
          LoopReads s acc
            (stringLoop s left (consumeUpTo s 4 (pos + 1 + 1)) (acc ++ [0x3F])) none := by
        intro hnil
        rw [stringLoop_end _ _ hnil]
        exact hnil
      rcases j with _ | ⟨a, _ | ⟨b, _ | ⟨c, _ | ⟨d, k⟩⟩⟩⟩
      · exact hend hdrop
      · exact hend hdrop
      · exact hend hdrop
      · exact hend hdrop
      · simp only [List.length_cons] at hleft
        exact LoopReads.piece (p := .unicode a b c d) (ih _ hdrop (by omega))
    · simp only [beq_iff_eq, hu, if_false]
      exact LoopReads.piece (p := .escape e) (ih _ hnext.next (by omega))

/-- The loop of `parseString` reads the pieces up to the closing quote, or to the end of the text. -/
theorem stringLoop_reads {left : Nat} (acc : List UInt8) (h : At s pos i)
    (hleft : i.length ≤ left) :
    LoopReads s acc (stringLoop s left pos acc) (readPieces i) := by
  induction left generalizing pos i acc with
  | zero =>
    obtain rfl := List.eq_nil_of_length_eq_zero (Nat.le_zero.mp hleft)
    exact h
  | succ left ih =>
    cases i with
    | nil =>
      rw [stringLoop_end _ _ h]
      exact h
    | cons c i =>
      simp only [List.length_cons, Nat.add_le_add_iff_right] at hleft
      by_cases hquote : c = 0x22
      · subst hquote
        have hpeek : peek s pos = 0x22 := h.peek
        rw [readPieces_quote]
        simp [LoopReads, stringLoop, hpeek, h]
      by_cases hslash : c = 0x5C
      · subst hslash
        exact escape_reads ih h hleft
      · rw [stringLoop_next left acc h hquote, readPieces.eq_def]
        simp only [if_neg hquote, beq_iff_eq, hslash, if_false]
        exact LoopReads.piece (p := .plain c) (ih _ h.next hleft)

/-- What a quote opens is read as a string. -/
theorem parseString_agrees {j : List UInt8} (h : At s pos i) (hskip : skip i = 0x22 :: j) :
    Agrees s (parseString s pos)
      ((readPieces j).map fun x => (x.1.map Piece.value, x.2)) := by
  obtain ⟨pos₁, hopen, h₁⟩ := expect_ok (by decide) h hskip
  have hleft : j.length ≤ s.length - pos₁ := by
    have := h₁.length
    omega
  have hloop := stringLoop_reads [] h₁ hleft
  rw [parseString, hopen, ok_bind]
  generalize stringLoop s (s.length - pos₁) pos₁ [] = loop at hloop
  obtain ⟨r, pos₂⟩ := loop
  cases hread : readPieces j with
  | none =>
    rw [hread] at hloop
    obtain ⟨e, he, hwhat⟩ := @expect_error _ _ _ 0x22 (by decide) hloop (by simp [skip])
    refine ⟨e, ?_, hwhat⟩
    simp only [he, error_bind]
  | some x =>
    rw [hread] at hloop
    obtain ⟨hr, h₂⟩ := hloop
    obtain ⟨pos₃, hclose, h₃⟩ := expect_ok (by decide) h₂ (dropWhile_of_stops
      (stops_cons.mpr (by decide)))
    refine ⟨pos₃, ?_, h₃⟩
    simp only at hr hclose
    simp only [hclose, ok_bind, hr, List.nil_append]

theorem minus_at (h : At s pos i) :
    At s (if peek s pos == 0x2D then pos + 1 else pos)
      (if i.head? = some 0x2D then i.tail else i) := by
  simp only [h.peek_eq (c := 0x2D) (by decide), decide_eq_true_eq]
  split
  · next hminus =>
    obtain ⟨j, rfl⟩ := List.head?_eq_some_iff.mp hminus
    exact h.next
  · exact h

theorem fraction_at (h : At s pos i) :
    ∃ pos', (if peek s pos == 0x2E then (true, skipDigits s (pos + 1)) else (false, pos)) =
        ((Numeral.readFraction i).1.isSome, pos') ∧ At s pos' (Numeral.readFraction i).2 := by
  simp only [h.peek_eq (c := 0x2E) (by decide), decide_eq_true_eq, Numeral.readFraction]
  split
  · next hdot =>
    obtain ⟨j, rfl⟩ := List.head?_eq_some_iff.mp hdot
    exact ⟨_, rfl, h.next.skipDigits⟩
  · exact ⟨_, rfl, h⟩

theorem exponent_at (flt : Bool) (h : At s pos i) :
    ∃ pos', (if peek s pos == 0x65 || peek s pos == 0x45 then
        (true, skipDigits s
          (if peek s (pos + 1) == 0x2B || peek s (pos + 1) == 0x2D then pos + 1 + 1 else pos + 1))
        else (flt, pos)) = (flt || (Numeral.readExponent i).1.isSome, pos') ∧
      At s pos' (Numeral.readExponent i).2 := by
  cases i with
  | nil => exact ⟨pos, by simp [h.peek, Numeral.readExponent], h⟩
  | cons e j =>
    have hpeek : peek s pos = e := h.peek
    rw [Numeral.readExponent]
    by_cases he : e = 0x65 ∨ e = 0x45
    · rw [if_pos (by simpa [hpeek] using he), if_pos he]
      simp only [h.next.peek_eq (c := 0x2B) (by decide), h.next.peek_eq (c := 0x2D) (by decide),
        Bool.or_eq_true, decide_eq_true_eq]
      split
      · next hsign =>
        cases j with
        | nil => simp at hsign
        | cons c j => exact ⟨_, by simp, h.next.next.skipDigits⟩
      · exact ⟨_, by simp, h.next.skipDigits⟩
    · rw [if_neg (by simpa [hpeek] using he), if_neg he]
      exact ⟨pos, by simp, h⟩

/-- The characters of a number, from its first index to the one after its last. -/
theorem token_at {t r : List UInt8} {pos' : Nat} (h : At s pos (t ++ r)) (h' : At s pos' r) :
    sizeSub pos' pos = .ok t.length ∧ substr s pos t.length = .ok t := by
  have hlength := h.length
  have hlength' := h'.length
  rw [List.length_append] at hlength
  have heq : pos' - pos = t.length := by omega
  rw [sizeSub, if_pos (by omega), heq, substr, if_pos h.1, h.2, List.take_left]
  exact ⟨rfl, rfl⟩

/-- A number is read as far as it goes. -/
theorem parseNumber_agrees (h : At s pos i) :
    Agrees s (parseNumber s pos) (some ((Numeral.read i).1.node, (Numeral.read i).2)) := by
  have h₁ := minus_at h
  generalize hj : (if i.head? = some 0x2D then i.tail else i) = j at h₁
  generalize hk : j.dropWhile isdigit = k
  have h₂ := h₁.skipDigits
  rw [hk] at h₂
  obtain ⟨pos₃, hfraction, h₃⟩ := fraction_at h₂
  rcases hf : Numeral.readFraction k with ⟨f, l⟩
  rw [hf] at hfraction h₃
  obtain ⟨pos₄, hexponent, h₄⟩ := exponent_at f.isSome h₃
  rcases hx : Numeral.readExponent l with ⟨x, r⟩
  rw [hx] at hexponent h₄
  rw [Numeral.read_eq ⟨rfl, hj⟩ ⟨rfl, hk⟩ hf hx]
  have hread := Numeral.read_eq ⟨rfl, hj⟩ ⟨rfl, hk⟩ hf hx
  rw [(Numeral.read_iff.mp hread).1] at h
  obtain ⟨hsub, htoken⟩ := token_at h h₄
  refine ⟨pos₄, ?_, h₄⟩
  rw [parseNumber]
  simp only [hfraction, hexponent, hsub, ok_bind, htoken]
  rfl

theorem isWord_at (word : List UInt8) (h : At s pos i) :
    isWord s word pos = .ok (word.isPrefixOf i) := by
  have hlength := h.length
  have hsub : sizeSub s.length pos = .ok i.length := by
    rw [sizeSub, if_pos h.1]
    congr 1
    omega
  rw [isWord, hsub, ok_bind]
  by_cases hword : word <+: i
  · obtain ⟨r, rfl⟩ := hword
    rw [if_pos (by simp), substr, if_pos h.1, h.2, List.take_left, ok_bind,
      List.isPrefixOf_iff_prefix.mpr ⟨r, rfl⟩, BEq.rfl]
  · have hno : word.isPrefixOf i = false := by
      rwa [Bool.eq_false_iff, ne_eq, List.isPrefixOf_iff_prefix]
    rw [hno]
    split
    · next hle =>
      rw [substr, if_pos h.1, h.2, ok_bind]
      congr 1
      rw [beq_eq_false_iff_ne]
      intro htake
      exact hword (htake ▸ List.take_prefix _ _)
    · rfl

theorem at_word {word : List UInt8} (h : At s pos i) (hword : word.isPrefixOf i = true) :
    At s (pos + word.length) (i.drop word.length) := by
  obtain ⟨r, rfl⟩ := List.isPrefixOf_iff_prefix.mp hword
  rw [List.drop_left]
  exact h.add

theorem readWord_eq (i : List UInt8) :
    readWord i =
      if [0x6E, 0x75, 0x6C, 0x6C].isPrefixOf i then some (.null, i.drop 4)
      else if [0x74, 0x72, 0x75, 0x65].isPrefixOf i then some (.bool true, i.drop 4)
      else if [0x66, 0x61, 0x6C, 0x73, 0x65].isPrefixOf i then some (.bool false, i.drop 5)
      else none := by
  rw [readWord, words, List.find?_cons, List.find?_cons, List.find?_cons, List.find?_nil]
  simp only [Cst.text]
  cases [0x6E, 0x75, 0x6C, 0x6C].isPrefixOf i with
  | true => rfl
  | false =>
    cases [0x74, 0x72, 0x75, 0x65].isPrefixOf i with
    | true => rfl
    | false => cases [0x66, 0x61, 0x6C, 0x73, 0x65].isPrefixOf i <;> rfl

theorem parseBool_agrees {c : UInt8} (h : At s pos (c :: i)) (hc : c ≠ 0x6E) :
    Agrees s (parseBool s pos) ((readWord (c :: i)).map fun x => (x.1.node, x.2)) := by
  have hnull : [0x6E, 0x75, 0x6C, 0x6C].isPrefixOf (c :: i) = false := by
    simp [List.isPrefixOf, hc.symm]
  rw [parseBool, readWord_eq, hnull]
  simp only [Bool.false_eq_true, if_false, isWord_at _ h, ok_bind]
  split
  · next htrue => exact ⟨_, rfl, at_word h htrue⟩
  · next htrue =>
    split
    · next hfalse => exact ⟨_, rfl, at_word h hfalse⟩
    · exact ⟨_, rfl, by decide⟩

theorem parseNull_agrees (h : At s pos (0x6E :: i)) :
    Agrees s ((parseNull s pos).map fun pos => (.null, pos))
      ((readWord (0x6E :: i)).map fun x => (x.1.node, x.2)) := by
  have htrue : [0x74, 0x72, 0x75, 0x65].isPrefixOf (0x6E :: i) = false := rfl
  have hfalse : [0x66, 0x61, 0x6C, 0x73, 0x65].isPrefixOf (0x6E :: i) = false := rfl
  rw [parseNull, readWord_eq, htrue, hfalse]
  simp only [isWord_at _ h, ok_bind]
  split
  · next hnull => exact ⟨_, rfl, at_word h hnull⟩
  · exact ⟨_, rfl, by decide⟩

def ValuesAgree (s : List UInt8) (fuel : Nat) : Prop :=
  ∀ ⦃pos i⦄, At s pos i → Agrees s (parseValue s fuel pos)
    ((readValue fuel (skip i)).map fun x => (x.1.node, x.2))

def ObjectsAgree (s : List UInt8) (fuel : Nat) : Prop :=
  ∀ ⦃pos i⦄, At s pos (0x7B :: i) → Agrees s (parseObject s fuel pos)
    ((readContainer fuel true i).map fun x => (x.1.node, x.2))

def ArraysAgree (s : List UInt8) (fuel : Nat) : Prop :=
  ∀ ⦃pos i⦄, At s pos (0x5B :: i) → Agrees s (parseArray s fuel pos)
    ((readContainer fuel false i).map fun x => (x.1.node, x.2))

/-- The loop of `parseObject` adds the members to the entries that are there. -/
def ObjectLoopsAgree (s : List UInt8) (fuel : Nat) : Prop :=
  ∀ ⦃pos i w entries⦄, At s pos i → Agrees s (objectLoop s fuel pos entries)
    ((readItems fuel true w i).map fun x =>
      (.object (x.1.members.foldl (fun entries m => OrderedMap.insert m.1 m.2 entries) entries),
        x.2))

/-- The loop of `parseArray` adds the values to the elements that are there. -/
def ArrayLoopsAgree (s : List UInt8) (fuel : Nat) : Prop :=
  ∀ ⦃pos i w elements⦄, At s pos i → Agrees s (arrayLoop s fuel pos elements)
    ((readItems fuel false w i).map fun x => (.array (elements ++ x.1.members.map Prod.snd), x.2))

/-- Agreement goes on from the first part of a sequence to its second. -/
theorem Agrees.bind {α β γ : Type} {x : Except Throw (α × Nat)} {y : Option (γ × List UInt8)}
    {φ : γ → α} {f : α × Nat → Except Throw (β × Nat)}
    {g : γ × List UInt8 → Option (β × List UInt8)}
    (h : Agrees s x (y.map fun a => (φ a.1, a.2)))
    (hf : ∀ {c : γ} {pos : Nat} {r : List UInt8}, At s pos r → Agrees s (f (φ c, pos)) (g (c, r))) :
    Agrees s (x >>= f) (y.bind g) := by
  cases y with
  | some a =>
    obtain ⟨pos, rfl, hpos⟩ := h
    exact hf hpos
  | none =>
    obtain ⟨e, rfl, he⟩ := h
    exact ⟨e, rfl, he⟩

theorem Agrees.bind_map {α β : Type} {x : Except Throw (α × Nat)} {y : Option (α × List UInt8)}
    (h : Agrees s x y) (f : α → β) :
    Agrees s (x >>= fun a => .ok (f a.1, a.2)) (y.map fun a => (f a.1, a.2)) := by
  cases y with
  | some a =>
    obtain ⟨pos, rfl, hpos⟩ := h
    exact ⟨pos, rfl, hpos⟩
  | none =>
    obtain ⟨e, rfl, he⟩ := h
    exact ⟨e, rfl, he⟩

theorem readWord_none {c : UInt8} (hn : c ≠ 0x6E) (ht : c ≠ 0x74) (hf : c ≠ 0x66)
    (i : List UInt8) : readWord (c :: i) = none := by
  rw [readWord_eq]
  simp [List.isPrefixOf, hn.symm, ht.symm, hf.symm]

theorem parseValue_agrees {fuel : Nat} (ihObject : ObjectsAgree s fuel)
    (ihArray : ArraysAgree s fuel) : ValuesAgree s (fuel + 1) := by
  intro pos i h
  have hws := h.skipWs
  rw [parseValue]
  cases hskip : skip i with
  | nil =>
    rw [hskip] at hws
    rw [hws.peek]
    exact ⟨.runtimeError "unexpected char", rfl, by decide⟩
  | cons c j =>
    have hstops := stops_cons.mp (hskip ▸ skip_stops i)
    rw [hskip] at hws
    have hpeek : peek s (skipWs s pos) = c := hws.peek
    simp only [hpeek, beq_iff_eq, Bool.or_eq_true]
    rw [readValue]
    by_cases hquote : c = 0x22
    · subst hquote
      have hstring := (parseString_agrees hws (dropWhile_of_stops (stops_cons.mpr hstops))).bind_map
        JsonNode.string
      simpa only [if_true, Option.map_map, Function.comp_def, Cst.node] using hstring
    by_cases hobject : c = 0x7B
    · subst hobject
      exact ihObject hws
    by_cases harray : c = 0x5B
    · subst harray
      exact ihArray hws
    simp only [if_neg hquote, if_neg hobject, if_neg harray]
    by_cases hbool : c = 0x74 ∨ c = 0x66
    · have hnumber : ¬ (c = 0x2D ∨ isdigit c = true) := by
        rcases hbool with rfl | rfl <;> decide
      have hnull : c ≠ 0x6E := by rcases hbool with rfl | rfl <;> decide
      rw [if_pos hbool, if_neg hnumber]
      exact parseBool_agrees hws hnull
    rw [if_neg hbool]
    by_cases hnull : c = 0x6E
    · subst hnull
      exact parseNull_agrees hws
    rw [if_neg hnull]
    by_cases hnumber : c = 0x2D ∨ isdigit c = true
    · rw [if_pos hnumber, if_pos hnumber]
      exact parseNumber_agrees hws
    · rw [if_neg hnumber, if_neg hnumber, readWord_none hnull (fun h => hbool (Or.inl h))
        (fun h => hbool (Or.inr h))]
      exact ⟨.runtimeError "unexpected char", rfl, by decide⟩

theorem parseObject_agrees {fuel : Nat} (ih : ObjectLoopsAgree s fuel) :
    ObjectsAgree s (fuel + 1) := by
  intro pos i h
  obtain ⟨pos₁, hopen, h₁⟩ := expect_ok (by decide) h
    (dropWhile_of_stops (stops_cons.mpr (by decide)))
  have hws := h₁.skipWs
  rw [parseObject, hopen, ok_bind, readContainer]
  simp only [hws.peek_eq (c := 0x7D) (by decide), decide_eq_true_eq]
  by_cases hclose : (skip i).head? = some 0x7D
  · obtain ⟨r, hr⟩ := List.head?_eq_some_iff.mp hclose
    rw [hr] at hws
    rw [if_pos hclose, if_pos (show _ = some (closing true) from hclose), hr]
    exact ⟨_, rfl, hws.next⟩
  · rw [if_neg hclose, if_neg (show ¬ _ = some (closing true) from hclose), Option.map_map]
    exact ih hws

theorem parseArray_agrees {fuel : Nat} (ih : ArrayLoopsAgree s fuel) :
    ArraysAgree s (fuel + 1) := by
  intro pos i h
  obtain ⟨pos₁, hopen, h₁⟩ := expect_ok (by decide) h
    (dropWhile_of_stops (stops_cons.mpr (by decide)))
  have hws := h₁.skipWs
  rw [parseArray, hopen, ok_bind, readContainer]
  simp only [hws.peek_eq (c := 0x5D) (by decide), decide_eq_true_eq]
  by_cases hclose : (skip i).head? = some 0x5D
  · obtain ⟨r, hr⟩ := List.head?_eq_some_iff.mp hclose
    rw [hr] at hws
    rw [if_pos hclose, if_pos (show _ = some (closing false) from hclose), hr]
    exact ⟨_, rfl, hws.next⟩
  · rw [if_neg hclose, if_neg (show ¬ _ = some (closing false) from hclose), Option.map_map]
    exact ih hws

/-- What follows a value in a container: a comma, after which the loop goes on, or the closing
bracket. -/
theorem separator_agrees {fuel : Nat} {isObject : Bool} {label : Option Label} {w r : List UInt8}
    {v : Cst} {next : Nat → Except Throw (JsonNode × Nat)} {done : JsonNode} {what : String}
    (h : At s pos r) (g : Items → JsonNode) (hdone : g (.last label w v (blanks r)) = done)
    (hnext : ∀ {pos r'}, At s pos r' → Agrees s (next pos)
      ((readItems fuel isObject [] r').map fun x => (g (.more label w v (blanks r) x.1), x.2)))
    (hwhat : what ≠ "") :
    Agrees s
      (if peek s (skipWs s pos) == 0x2C then next (skipWs s pos + 1)
        else if peek s (skipWs s pos) == closing isObject then .ok (done, skipWs s pos + 1)
        else .error (.runtimeError what))
      (Option.map (fun x : Items × List UInt8 => (g x.1, x.2))
        (match skip r with
        | [] => none
        | c :: r' =>
          if c = 0x2C then
            (readItems fuel isObject [] r').map fun x => (.more label w v (blanks r) x.1, x.2)
          else if c = closing isObject then some (.last label w v (blanks r), r')
          else none)) := by
  have hws := h.skipWs
  have hclosing : closing isObject ≠ 0 := by cases isObject <;> decide
  simp only [hws.peek_eq (c := 0x2C) (by decide), hws.peek_eq hclosing, decide_eq_true_eq]
  cases hskip : skip r with
  | nil => exact ⟨.runtimeError what, rfl, hwhat⟩
  | cons c r' =>
    rw [hskip] at hws
    simp only [List.head?_cons, Option.some.injEq]
    by_cases hcomma : c = 0x2C
    · rw [if_pos hcomma, if_pos hcomma, Option.map_map]
      exact hnext hws.next
    · rw [if_neg hcomma, if_neg hcomma]
      by_cases hclose : c = closing isObject
      · rw [if_pos hclose, if_pos hclose, ← hdone]
        exact ⟨_, rfl, hws.next⟩
      · rw [if_neg hclose, if_neg hclose]
        exact ⟨.runtimeError what, rfl, hwhat⟩

theorem arrayLoop_agrees {fuel : Nat} (ihValue : ValuesAgree s fuel)
    (ihLoop : ArrayLoopsAgree s fuel) : ArrayLoopsAgree s (fuel + 1) := by
  intro pos i w elements h
  rw [arrayLoop]
  cases i with
  | nil =>
    rw [if_neg h.not_lt]
    exact ⟨pos, by simp [Items.members], h⟩
  | cons c i =>
    rw [if_pos h.lt, readItems]
    simp only [readLabel, Bool.false_eq_true, if_false, Option.bind_some, Option.map_bind]
    refine (ihValue h).bind fun {v pos₁ r} h₁ => ?_
    refine @separator_agrees s pos₁ fuel false none _ r v (fun pos =>
      arrayLoop s fuel pos (elements ++ [v.node])) _ _ h₁
      (fun items => .array (elements ++ items.members.map Prod.snd)) rfl ?_ (by decide)
    intro pos₂ r' h₂
    simpa [Items.members] using @ihLoop _ _ [] (elements ++ [v.node]) h₂

/-- A key is read with its colon, and then `f` and `g` go on. -/
theorem label_agrees {w : List UInt8} {β : Type}
    {f : List UInt8 × Nat → Nat → Except Throw (β × Nat)}
    {g : (Option Label × List UInt8) × List UInt8 → Option (β × List UInt8)} (h : At s pos i)
    (hf : ∀ {pos r} (pos' : Nat) (label : Label) (w' : List UInt8), At s pos r →
      Agrees s (f (label.key.map Piece.value, pos') pos) (g ((some label, w'), skip r))) :
    Agrees s
      (if peek s (skipWs s pos) != 0x22 then .error (.runtimeError "expected key")
        else do
          let k ← parseString s (skipWs s pos)
          let pos ← expect s 0x3A k.2
          f k pos)
      ((readLabel true w i).bind g) := by
  have hws := h.skipWs
  simp only [readLabel, if_true, bne, hws.peek_eq (c := 0x22) (by decide)]
  cases hskip : skip i with
  | nil => exact ⟨.runtimeError "expected key", rfl, by decide⟩
  | cons d j =>
    simp only [List.head?_cons, Option.some.injEq]
    by_cases hquote : d = 0x22
    · subst hquote
      have hkey := parseString_agrees hws ((dropWhile_of_stops (skip_stops i)).trans hskip)
      simp only [decide_true, Bool.not_true, Bool.false_eq_true, if_false, if_true,
        Option.bind_assoc]
      refine hkey.bind fun {ps pos₁ r} h₁ => ?_
      by_cases hcolon : (skip r).head? = some 0x3A
      · obtain ⟨r', hr'⟩ := List.head?_eq_some_iff.mp hcolon
        obtain ⟨pos₂, hexpect, h₂⟩ := expect_ok (by decide) h₁ hr'
        simp only [hexpect, ok_bind, hr', if_true, Option.bind_some]
        exact hf pos₁ ⟨_, ps, _⟩ _ h₂
      · obtain ⟨e, he, hwhat⟩ := expect_error (by decide) h₁ hcolon
        cases hr : skip r with
        | nil => exact ⟨e, by rw [he]; rfl, hwhat⟩
        | cons c r' =>
          have hc : c ≠ 0x3A := by simpa [hr] using hcolon
          simp only [if_neg hc]
          exact ⟨e, by rw [he]; rfl, hwhat⟩
    · rw [if_pos (by simp [hquote]), if_neg hquote]
      exact ⟨.runtimeError "expected key", rfl, by decide⟩

theorem objectLoop_agrees {fuel : Nat} (ihValue : ValuesAgree s fuel)
    (ihLoop : ObjectLoopsAgree s fuel) : ObjectLoopsAgree s (fuel + 1) := by
  intro pos i w entries h
  rw [objectLoop]
  cases i with
  | nil =>
    rw [if_neg h.not_lt]
    exact ⟨pos, by simp [Items.members], h⟩
  | cons c i =>
    rw [if_pos h.lt, readItems, Option.map_bind]
    dsimp only
    refine label_agrees h fun {pos₁ r₁} _ label w' h₁ => ?_
    simp only [Function.comp_apply, Option.map_bind]
    refine (ihValue h₁).bind fun {v pos₂ r₂} h₂ => ?_
    refine @separator_agrees s pos₂ fuel true (some label) w' r₂ v (fun pos => objectLoop s fuel pos
      (OrderedMap.insert (label.key.map Piece.value) v.node entries)) _ "expected , or \x7d" h₂
      (fun items => .object (items.members.foldl
        (fun entries m => OrderedMap.insert m.1 m.2 entries) entries)) rfl ?_ (by decide)
    intro pos₃ r₃ h₃
    simpa [Items.members, labelKey] using @ihLoop _ _ []
      (OrderedMap.insert (label.key.map Piece.value) v.node entries) h₃

/-- Every method of the parser agrees with the reader. -/
theorem parser_agrees (s : List UInt8) (fuel : Nat) :
    ValuesAgree s fuel ∧ ObjectsAgree s fuel ∧ ArraysAgree s fuel ∧ ObjectLoopsAgree s fuel ∧
      ArrayLoopsAgree s fuel := by
  induction fuel with
  | zero =>
    refine ⟨?_, ?_, ?_, ?_, ?_⟩
    · exact fun _ _ _ => ⟨.fuel, rfl, by decide⟩
    · exact fun _ _ _ => ⟨.fuel, rfl, by decide⟩
    · exact fun _ _ _ => ⟨.fuel, rfl, by decide⟩
    · exact fun _ _ _ _ _ => ⟨.fuel, rfl, by decide⟩
    · exact fun _ _ _ _ _ => ⟨.fuel, rfl, by decide⟩
  | succ fuel ih =>
    obtain ⟨ihValue, ihObject, ihArray, ihObjectLoop, ihArrayLoop⟩ := ih
    exact ⟨parseValue_agrees ihObject ihArray, parseObject_agrees ihObjectLoop,
      parseArray_agrees ihArrayLoop, objectLoop_agrees ihValue ihObjectLoop,
      arrayLoop_agrees ihValue ihArrayLoop⟩

end Parser

/-- A text that begins with a value is parsed, whatever comes after the value. -/
theorem parse_reads {input r : List UInt8} {c : Cst} (h : c.Reads (skip input) r) (err : String) :
    parse input err = (c.node, err) := by
  have hlength : (skip input).length ≤ input.length := List.length_dropWhile_le _ _
  have hread := (@readValue_iff (3 * input.length + 1) _ _ _ (by omega)).mpr h
  have hvalue := (Parser.parser_agrees input (3 * input.length + 1)).1 (Parser.at_zero input).skipWs
  rw [show skip (skip input) = skip input from dropWhile_of_stops (skip_stops input),
    hread] at hvalue
  obtain ⟨pos, hparse, -⟩ := hvalue
  simp only [parse, Parser.parse, hparse, ok_bind]

/-- A text that does not begin with a value gives an error. -/
theorem parse_throws {input : List UInt8}
    (h : ∀ (c : Cst) (r : List UInt8), ¬ c.Reads (skip input) r) (err : String) :
    ∃ what, what ≠ "" ∧ parse input err = (.null, what) := by
  have hvalue := (Parser.parser_agrees input (3 * input.length + 1)).1 (Parser.at_zero input).skipWs
  rw [show skip (skip input) = skip input from dropWhile_of_stops (skip_stops input)] at hvalue
  cases hread : readValue (3 * input.length + 1) (skip input) with
  | none =>
    rw [hread] at hvalue
    obtain ⟨e, hparse, hwhat⟩ := hvalue
    exact ⟨e.what, hwhat, by simp only [parse, Parser.parse, hparse, error_bind]⟩
  | some x => exact absurd ((read_sound _).1 hread) (h x.1 x.2)

/-- The error stays empty exactly if the text begins with a value. -/
theorem parse_accepts {input : List UInt8} :
    (parse input "").2 = "" ↔ ∃ (c : Cst) (r : List UInt8), c.Reads (skip input) r := by
  constructor
  · intro hparse
    by_contra hno
    push Not at hno
    obtain ⟨what, hwhat, heq⟩ := parse_throws hno ""
    rw [heq] at hparse
    exact hwhat hparse
  · rintro ⟨c, r, h⟩
    rw [parse_reads h]

end Patrol.Json
