import Patrol.Json.Lexing

/-! The reader: a parser that reads the concrete syntax off what is left of a text.  It reads every
text in at most one way, and every text that has a reading. -/

namespace Patrol.Json

open ProofKit

/-- Reads what stands before a value: the label of a member, and the blanks.  The blanks `w` have
been read before. -/
def readLabel (isObject : Bool) (w i : List UInt8) :
    Option ((Option Label × List UInt8) × List UInt8) :=
  if isObject then
    match skip i with
    | [] => none
    | c :: j =>
      if c = 0x22 then
        (readPieces j).bind fun (ps, r) =>
          match skip r with
          | [] => none
          | c :: r' =>
            if c = 0x3A then
              some ((some ⟨w ++ blanks i, ps, blanks r⟩, blanks r'), skip r')
            else none
      else none
  else some ((none, w ++ blanks i), skip i)

def words : List Cst := [.null, .bool true, .bool false]

def readWord (i : List UInt8) : Option (Cst × List UInt8) :=
  (words.find? fun c => c.text.isPrefixOf i).map fun c => (c, i.drop c.text.length)

mutual

/-- Reads a value that a text begins with. -/
def readValue : (fuel : Nat) → List UInt8 → Option (Cst × List UInt8)
  | 0, _ => none
  | _ + 1, [] => none
  | fuel + 1, c :: i =>
    if c = 0x22 then (readPieces i).map fun x => (.string x.1, x.2)
    else if c = 0x7B then readContainer fuel true i
    else if c = 0x5B then readContainer fuel false i
    else if c = 0x2D ∨ isdigit c then
      some (.number (Numeral.read (c :: i)).1, (Numeral.read (c :: i)).2)
    else readWord (c :: i)

/-- Reads what stands after an opening bracket. -/
def readContainer : (fuel : Nat) → Bool → List UInt8 → Option (Cst × List UInt8)
  | 0, _, _ => none
  | fuel + 1, isObject, i =>
    if (skip i).head? = some (closing isObject) then
      some (.container isObject (.close (blanks i)), (skip i).tail)
    else (readItems fuel isObject (blanks i) (skip i)).map fun x => (.container isObject x.1, x.2)

/-- Reads values, of which there is none yet or the last had a comma after it. -/
def readItems : (fuel : Nat) → Bool → (w : List UInt8) → List UInt8 → Option (Items × List UInt8)
  | 0, _, _, _ => none
  | _ + 1, _, w, [] => some (.cut w, [])
  | fuel + 1, isObject, w, c :: i =>
    (readLabel isObject w (c :: i)).bind fun (l, j) =>
      (readValue fuel j).bind fun (v, r) =>
        match skip r with
        | [] => none
        | c :: r' =>
          if c = 0x2C then
            (readItems fuel isObject [] r').map fun x => (.more l.1 l.2 v (blanks r) x.1, x.2)
          else if c = closing isObject then some (.last l.1 l.2 v (blanks r), r')
          else none

end

/-! ### What a reading is -/

/-- A value stands before `r`: a number goes on as far as it can, and a bracket that is not closed is
open at the end of the text. -/
def Cst.Stands (c : Cst) (r : List UInt8) : Prop :=
  (∀ n, c = .number n → Numeral.read (n.text ++ r) = (n, r)) ∧ (c.Shaped false ∨ r = [])

/-- The parser's reading of a text that begins with a value. -/
structure Cst.Reads (c : Cst) (i r : List UInt8) : Prop where
  text : i = c.text ++ r
  shaped : c.Shaped true
  lexemes : ∀ x ∈ c.lexemes, x.Readable
  stands : c.Stands r

/-- The reading of what stands after an opening bracket, or after a comma. -/
structure Items.Reads (isObject first : Bool) (items : Items) (i r : List UInt8) : Prop where
  text : i = items.text isObject ++ r
  shaped : items.Shaped isObject true first
  lexemes : ∀ x ∈ items.lexemes, x.Readable
  stands : items.Shaped isObject false first ∨ r = []

theorem skip_cons {i r : List UInt8} {c : UInt8} (h : skip i = c :: r) : i = blanks i ++ c :: r := by
  rw [← h, blanks_skip]

/-- What is read before a value. -/
theorem readLabel_sound {isObject : Bool} {w i r : List UInt8} {label : Option Label}
    {w' : List UInt8} (h : readLabel isObject w i = some ((label, w'), r))
    (hw : (Lexeme.blank w).Readable) :
    w ++ i = labelText label ++ (w' ++ r) ∧ label.isSome = isObject ∧
      (∀ x ∈ labelLexemes label, x.Readable) ∧ (Lexeme.blank w').Readable ∧ Stops isspace r := by
  have hblank : ∀ i, (Lexeme.blank (w ++ blanks i)).Readable := by
    intro i c hc
    rcases List.mem_append.mp hc with hc | hc
    · exact hw c hc
    · exact blanks_readable i c hc
  rw [readLabel] at h
  split at h
  · next hobj =>
    split at h
    · cases h
    · next c j hskip =>
      split at h
      · next hquote =>
        obtain ⟨⟨ps, r₁⟩, hread, hrest⟩ := Option.bind_eq_some_iff.mp h
        obtain ⟨rfl, hps⟩ := readPieces_sound hread
        simp only at hrest
        split at hrest
        · cases hrest
        · next c' r' hskip' =>
          split at hrest
          · next hcolon =>
            cases hrest
            refine ⟨?_, hobj.symm, ?_, blanks_readable r', skip_stops r'⟩
            · have hi := skip_cons hskip
              have hr₁ := skip_cons hskip'
              have hr' := blanks_skip r'
              rw [hquote] at hi
              rw [hcolon] at hr₁
              simp only [labelText, Label.text, stringText, List.append_assoc, List.cons_append,
                List.nil_append, hr', ← hr₁, ← hi]
            · simp only [labelLexemes, List.forall_mem_cons, List.forall_mem_map]
              exact ⟨hblank i, blanks_readable r₁, hps⟩
          · cases hrest
      · cases h
  · next hobj =>
    cases h
    refine ⟨?_, ?_, by simp [labelLexemes], hblank i, skip_stops i⟩
    · rw [labelText, List.nil_append, List.append_assoc, blanks_skip]
    · simpa using hobj

theorem word_plain {c : Cst} (h : c ∈ words) :
    c.lexemes = [] ∧ (∀ cut, c.Shaped cut) ∧ ∀ n, c ≠ .number n := by
  simp only [words, List.mem_cons, List.not_mem_nil, or_false] at h
  rcases h with rfl | rfl | rfl <;> exact ⟨rfl, fun _ => trivial, by simp⟩

theorem readWord_sound {i r : List UInt8} {c : Cst} (h : readWord i = some (c, r)) :
    c.Reads i r := by
  obtain ⟨c', hfind, heq⟩ := Option.map_eq_some_iff.mp h
  cases heq
  obtain ⟨hlexemes, hshaped, hnumber⟩ := word_plain (List.mem_of_find?_eq_some hfind)
  have hword : c.text.isPrefixOf i = true := by simpa using List.find?_some hfind
  have htext := List.prefix_iff_eq_append.mp (List.isPrefixOf_iff_prefix.mp hword)
  exact ⟨htext.symm, hshaped true, by simp [hlexemes], fun n hn => absurd hn (hnumber n),
    Or.inl (hshaped false)⟩

theorem readNumber_sound {c : UInt8} {i : List UInt8} (h : c = 0x2D ∨ isdigit c = true) :
    (Cst.number (Numeral.read (c :: i)).1).Reads (c :: i) (Numeral.read (c :: i)).2 := by
  rcases hread : Numeral.read (c :: i) with ⟨n, r⟩
  obtain ⟨htext, hfits⟩ := Numeral.read_iff.mp hread
  refine ⟨htext, trivial, ?_, ?_, Or.inl trivial⟩
  · simp only [Cst.lexemes, List.forall_mem_singleton]
    refine numeral_readable hread ?_
    by_contra hno
    simp only [not_or, Bool.not_eq_true, not_not] at hno
    have hminus := hfits.minus hno.1
    have hdigits := hfits.digits.2
    have hrest : c :: i = Numeral.fractionText n.fraction ++
        (Numeral.exponentText n.exponent ++ r) := by
      simp [htext, Numeral.text, hno]
    rw [hno.2, List.nil_append, ← hrest, stops_cons] at hminus
    rw [← hrest, stops_cons] at hdigits
    simp_all
  · rintro n' hn
    cases hn
    rw [← htext, hread]

theorem readString_sound {i r : List UInt8} {ps : List Piece} (h : readPieces i = some (ps, r)) :
    (Cst.string ps).Reads (0x22 :: i) r := by
  obtain ⟨rfl, hps⟩ := readPieces_sound h
  refine ⟨?_, trivial, ?_, nofun, Or.inl trivial⟩
  · simp [Cst.text, stringText]
  · simpa [Cst.lexemes] using hps

/-- Where a value is followed by something, it stands on its own. -/
theorem Cst.Reads.closed {c : Cst} {i r : List UInt8} (h : c.Reads i r) (hr : r ≠ []) :
    c.Shaped false :=
  h.stands.2.resolve_right hr

/-- A value with its label, and what its separator stands for. -/
theorem readItem_sound {isObject first : Bool} {w w' w'' i j r : List UInt8} {c : UInt8}
    {label : Option Label} {v : Cst} {items : Items} (hw : (Lexeme.blank w).Readable)
    (hlabel : readLabel isObject w i = some ((label, w'), j)) (hv : v.Reads j (w'' ++ c :: r))
    (hw'' : (Lexeme.blank w'').Readable) :
    (c = closing isObject → (Items.last label w' v w'').Reads isObject first (w ++ i) r) ∧
      (c = 0x2C → ∀ {r'}, items.Reads isObject false r r' →
        (Items.more label w' v w'' items).Reads isObject first (w ++ i) r') := by
  obtain ⟨htext, hobj, hlexemes, hw', -⟩ := readLabel_sound hlabel hw
  have hclosed := hv.closed (by simp)
  have hvtext := hv.text
  constructor
  · rintro rfl
    refine ⟨?_, ⟨hobj, hclosed⟩, ?_, Or.inl ⟨hobj, hclosed⟩⟩
    · rw [htext, hvtext]
      simp [Items.text]
    · simp only [Items.lexemes, List.forall_mem_append, List.forall_mem_cons]
      exact ⟨hlexemes, hw', hw'', hv.lexemes⟩
  · rintro rfl r' hitems
    have hitext := hitems.text
    refine ⟨?_, ⟨hobj, hclosed, hitems.shaped⟩, ?_, ?_⟩
    · rw [htext, hvtext, hitext]
      simp [Items.text]
    · simp only [Items.lexemes, List.forall_mem_append, List.forall_mem_cons]
      exact ⟨hlexemes, hw', hw'', hv.lexemes, hitems.lexemes⟩
    · exact hitems.stands.imp_left fun h => ⟨hobj, hclosed, h⟩

theorem container_reads {isObject : Bool} {items : Items} {i r : List UInt8}
    (h : items.Reads isObject true i r) :
    (Cst.container isObject items).Reads (opening isObject :: i) r :=
  ⟨congrArg (_ :: ·) h.text, h.shaped, h.lexemes, nofun, h.stands⟩

def ValuesSound (fuel : Nat) : Prop :=
  ∀ ⦃i r c⦄, readValue fuel i = some (c, r) → c.Reads i r

def ContainersSound (fuel : Nat) : Prop :=
  ∀ ⦃isObject i r c⦄, readContainer fuel isObject i = some (c, r) →
    c.Reads (opening isObject :: i) r

def ItemsSound (fuel : Nat) : Prop :=
  ∀ ⦃isObject first w i r items⦄, readItems fuel isObject w i = some (items, r) →
    (Lexeme.blank w).Readable → (first = true ∨ w = []) → items.Reads isObject first (w ++ i) r

theorem readValue_sound {fuel : Nat} (ih : ContainersSound fuel) : ValuesSound (fuel + 1) := by
  intro i r c h
  cases i with
  | nil => cases h
  | cons d i =>
    rw [readValue] at h
    split at h
    · next hd =>
      obtain ⟨⟨ps, r'⟩, hread, heq⟩ := Option.map_eq_some_iff.mp h
      cases heq
      rw [hd]
      exact readString_sound hread
    · split at h
      · next hd =>
        rw [hd]
        exact ih h
      · split at h
        · next hd =>
          rw [hd]
          exact ih h
        · split at h
          · next hd =>
            cases h
            exact readNumber_sound hd
          · exact readWord_sound h

theorem readContainer_sound {fuel : Nat} (ih : ItemsSound fuel) : ContainersSound (fuel + 1) := by
  intro isObject i r c h
  rw [readContainer] at h
  split at h
  · next hclose =>
    cases h
    obtain ⟨r, hr⟩ := List.head?_eq_some_iff.mp hclose
    rw [hr, List.tail_cons]
    apply container_reads
    refine ⟨?_, rfl, ?_, Or.inl rfl⟩
    · rw [Items.text, List.append_assoc]
      exact skip_cons hr
    · simpa only [Items.lexemes, List.forall_mem_singleton] using blanks_readable i
  · obtain ⟨⟨items, r'⟩, hread, heq⟩ := Option.map_eq_some_iff.mp h
    cases heq
    apply container_reads
    have hitems := ih hread (blanks_readable i) (Or.inl rfl)
    rwa [blanks_skip] at hitems

theorem readItems_sound {fuel : Nat} (ihValue : ValuesSound fuel) (ihItems : ItemsSound fuel) :
    ItemsSound (fuel + 1) := by
  intro isObject first w i r items h hw hfirst
  cases i with
  | nil =>
    cases h
    rw [List.append_nil]
    exact ⟨(List.append_nil _).symm, ⟨rfl, hfirst⟩,
      by simpa only [Items.lexemes, List.forall_mem_singleton] using hw, Or.inr rfl⟩
  | cons d i =>
    rw [readItems] at h
    obtain ⟨⟨⟨label, w'⟩, j⟩, hlabel, h⟩ := Option.bind_eq_some_iff.mp h
    obtain ⟨⟨v, r₁⟩, hvalue, h⟩ := Option.bind_eq_some_iff.mp h
    have hv := ihValue hvalue
    simp only at h
    split at h
    · cases h
    · next c r₂ hskip =>
      rw [skip_cons hskip] at hv
      have hitem := fun items =>
        @readItem_sound isObject first _ _ _ _ _ _ _ _ _ items hw hlabel hv (blanks_readable r₁)
      split at h
      · next hcomma =>
        obtain ⟨⟨items', r₃⟩, hread, heq⟩ := Option.map_eq_some_iff.mp h
        cases heq
        exact (hitem items').2 hcomma (ihItems hread nofun (Or.inr rfl))
      · split at h
        · next hclose =>
          cases h
          exact (hitem (.close [])).1 hclose
        · cases h

/-- Whatever the reader reads is a reading. -/
theorem read_sound (fuel : Nat) :
    ValuesSound fuel ∧ ContainersSound fuel ∧ ItemsSound fuel := by
  induction fuel with
  | zero => exact ⟨nofun, nofun, nofun⟩
  | succ fuel ih =>
    obtain ⟨ihValue, ihContainer, ihItems⟩ := ih
    exact ⟨readValue_sound ihContainer, readContainer_sound ihItems,
      readItems_sound ihValue ihItems⟩

/-! ### Every reading is read -/

theorem blanks_behind {w : List UInt8} (hw : (Lexeme.blank w).Readable) (i : List UInt8) :
    blanks (w ++ i) = w ++ blanks i ∧ skip (w ++ i) = skip i :=
  ⟨List.takeWhile_append_of_pos hw, List.dropWhile_append_of_pos hw⟩

/-- A number begins with a minus sign or a digit. -/
theorem numeral_head {n : Numeral} (h : (Lexeme.numeral n).Readable) :
    ∃ d t, n.text = d :: t ∧ (d = 0x2D ∨ isdigit d = true) := by
  have hdigits := (Numeral.read_iff.mp h.2).2.digits.1
  rw [Numeral.text]
  cases hminus : n.minus with
  | true => exact ⟨0x2D, _, rfl, Or.inl rfl⟩
  | false =>
    obtain ⟨d, ds, hd⟩ := List.exists_cons_of_ne_nil (h.1.resolve_left (by simp [hminus]))
    rw [hd] at hdigits ⊢
    exact ⟨d, _, rfl, Or.inr (hdigits d List.mem_cons_self)⟩

theorem isspace_toNat {d : UInt8} (h : isspace d = true) : d.toNat ≤ 32 := by
  simp only [isspace, Bool.or_eq_true, beq_iff_eq, Bool.and_eq_true, decide_eq_true_eq,
    UInt8.le_iff_toNat_le] at h
  rcases h with rfl | ⟨-, h⟩
  · decide
  · exact h.trans (by decide)

theorem isNumeric_toNat {d : UInt8} (h : Numeral.isNumeric d = true) : 43 ≤ d.toNat := by
  simp only [Numeral.isNumeric, Numeral.isLetter, Numeral.isSign, isdigit, Bool.or_eq_true,
    beq_iff_eq, Bool.and_eq_true, decide_eq_true_eq, UInt8.le_iff_toNat_le] at h
  rcases h with ((⟨h, -⟩ | rfl) | rfl | rfl) | rfl | rfl
  · exact le_trans (by decide) h
  all_goals decide

theorem not_numeric_of_space {d : UInt8} (h : isspace d = true) : Numeral.isNumeric d = false := by
  by_contra hnum
  have hlow := isNumeric_toNat (Bool.not_eq_false _ ▸ hnum)
  have hhigh := isspace_toNat h
  omega

theorem not_space_of_start {d : UInt8} (h : d = 0x2D ∨ isdigit d = true) : isspace d = false := by
  have hnum : Numeral.isNumeric d = true := by
    rcases h with rfl | h
    · decide
    · simp [Numeral.isNumeric, h]
  by_contra hspace
  rw [not_numeric_of_space (Bool.not_eq_false _ ▸ hspace)] at hnum
  cases hnum

/-- What a value begins with. -/
theorem text_head {c : Cst} (h : ∀ x ∈ c.lexemes, x.Readable) :
    ∃ d t, c.text = d :: t ∧ isspace d = false ∧ d ≠ 0x5D := by
  match c with
  | .null => exact ⟨_, _, rfl, by decide, by decide⟩
  | .bool true => exact ⟨_, _, rfl, by decide, by decide⟩
  | .bool false => exact ⟨_, _, rfl, by decide, by decide⟩
  | .string ps => exact ⟨_, _, rfl, by decide, by decide⟩
  | .container true items => exact ⟨_, _, rfl, by decide, by decide⟩
  | .container false items => exact ⟨_, _, rfl, by decide, by decide⟩
  | .number n =>
    obtain ⟨d, t, htext, hd⟩ := numeral_head (h _ List.mem_cons_self)
    refine ⟨d, t, htext, not_space_of_start hd, ?_⟩
    rintro rfl
    exact absurd hd (by decide)

/-- What stands before a value is read, and is no less than the blanks read before. -/
theorem readLabel_complete {isObject : Bool} {w i r w' : List UInt8} {label : Option Label}
    (hw : (Lexeme.blank w).Readable) (htext : w ++ i = labelText label ++ (w' ++ r))
    (hobj : label.isSome = isObject) (hlabel : ∀ x ∈ labelLexemes label, x.Readable)
    (hw' : (Lexeme.blank w').Readable) (hr : Stops isspace r) :
    readLabel isObject w i = some ((label, w'), r) ∧ r.length ≤ i.length := by
  obtain ⟨hblanks, hskip⟩ := blanks_behind hw i
  have hlength := congrArg List.length htext
  subst hobj
  cases label with
  | none =>
    rw [htext, labelText, List.nil_append] at hblanks hskip
    obtain ⟨hb, hs⟩ := blanks_append hw' hr
    have hw'' := congrArg List.length (hb.symm.trans hblanks)
    simp only [labelText, List.length_append, List.length_nil] at hlength hw''
    refine ⟨?_, by omega⟩
    simp [readLabel, ← hblanks, ← hskip, hb, hs]
  | some l =>
    simp only [labelLexemes, List.forall_mem_cons, List.forall_mem_map] at hlabel
    obtain ⟨hbefore, hafter, hkey⟩ := hlabel
    simp only [htext, labelText, Label.text, stringText, List.append_assoc, List.cons_append,
      List.nil_append] at hblanks hskip
    obtain ⟨hb, hs⟩ := @blanks_append _
      (0x22 :: (l.key.flatMap Piece.text ++ 0x22 :: (l.after ++ 0x3A :: (w' ++ r))))
      hbefore (stops_cons.mpr (by decide))
    obtain ⟨hb', hs'⟩ := @blanks_append _ (0x3A :: (w' ++ r)) hafter (stops_cons.mpr (by decide))
    obtain ⟨hb'', hs''⟩ := blanks_append hw' hr
    have hw'' := congrArg List.length (hb.symm.trans hblanks)
    simp only [labelText, Label.text, List.length_append] at hlength hw''
    refine ⟨?_, by omega⟩
    rw [readLabel, ← hskip, ← hblanks, hb, hs]
    simp [readPieces_complete hkey, hb', hs', hb'', hs'']

/-- What stands before a value, and the value, do not begin with the closing bracket. -/
theorem item_head {isObject : Bool} {w' : List UInt8} {label : Option Label} {v : Cst}
    (hobj : label.isSome = isObject) (hlabel : ∀ x ∈ labelLexemes label, x.Readable)
    (hw' : (Lexeme.blank w').Readable) (hv : ∀ x ∈ v.lexemes, x.Readable) (r : List UInt8) :
    ∃ d t, skip (labelText label ++ (w' ++ (v.text ++ r))) = d :: t ∧ d ≠ closing isObject := by
  subst hobj
  cases label with
  | none =>
    obtain ⟨d, t, htext, hspace, hne⟩ := text_head hv
    refine ⟨d, t ++ r, ?_, hne⟩
    rw [htext]
    exact (blanks_append hw' (stops_cons.mpr hspace)).2
  | some l =>
    simp only [labelLexemes, List.forall_mem_cons] at hlabel
    refine ⟨0x22, l.key.flatMap Piece.text ++ 0x22 :: (l.after ++ 0x3A :: (w' ++ (v.text ++ r))), ?_,
      show (0x22 : UInt8) ≠ 0x7D by decide⟩
    simp only [labelText, Label.text, stringText, List.append_assoc, List.cons_append,
      List.nil_append]
    exact (blanks_append hlabel.1 (stops_cons.mpr (by decide))).2

theorem blank_stops {w : List UInt8} (hw : (Lexeme.blank w).Readable) :
    Stops Numeral.isNumeric w := by
  cases w with
  | nil => exact stops_nil
  | cons d w => exact stops_cons.mpr (not_numeric_of_space (hw d List.mem_cons_self))

theorem Items.Shaped.open {isObject first : Bool} :
    ∀ {items : Items}, items.Shaped isObject false first → items.Shaped isObject true first
  | .close _, h => h
  | .cut _, h => absurd h.1 (by decide)
  | .last _ _ _ _, h => h
  | .more _ _ _ _ _, h => ⟨h.1, h.2.1, Items.Shaped.open h.2.2⟩

theorem Cst.Shaped.open {c : Cst} (h : c.Shaped false) : c.Shaped true := by
  cases c with
  | container isObject items => exact Items.Shaped.open h
  | _ => trivial

/-- A value in a container, before a comma or the closing bracket. -/
theorem inner_reads {v : Cst} (hshaped : v.Shaped false) (hv : ∀ x ∈ v.lexemes, x.Readable)
    {w : List UInt8} (hw : (Lexeme.blank w).Readable) {c : UInt8}
    (hc : Numeral.isNumeric c = false) (r : List UInt8) :
    v.Reads (v.text ++ (w ++ c :: r)) (w ++ c :: r) := by
  refine ⟨rfl, hshaped.open, hv, ?_, Or.inl hshaped⟩
  · rintro n rfl
    exact numeral_append (hv _ List.mem_cons_self) ((blank_stops hw).append (stops_cons.mpr hc))

/-- A word is read. -/
theorem readWord_complete {c : Cst} (h : c ∈ words) (r : List UInt8) :
    readWord (c.text ++ r) = some (c, r) := by
  simp only [words, List.mem_cons, List.not_mem_nil, or_false] at h
  rcases h with rfl | rfl | rfl <;> rfl

theorem readValue_word {c : Cst} (h : c ∈ words) (fuel : Nat) (r : List UInt8) :
    readValue (fuel + 1) (c.text ++ r) = some (c, r) := by
  rw [← readWord_complete h r]
  simp only [words, List.mem_cons, List.not_mem_nil, or_false] at h
  rcases h with rfl | rfl | rfl <;> rfl

theorem readValue_number {n : Numeral} (h : (Lexeme.numeral n).Readable) {r : List UInt8}
    (hstands : Numeral.read (n.text ++ r) = (n, r)) (fuel : Nat) :
    readValue (fuel + 1) (n.text ++ r) = some (.number n, r) := by
  obtain ⟨d, t, htext, hd⟩ := numeral_head h
  have hne : d ≠ 0x22 ∧ d ≠ 0x7B ∧ d ≠ 0x5B := by
    refine ⟨?_, ?_, ?_⟩ <;>
    · rintro rfl
      exact absurd hd (by decide)
  rw [htext, List.cons_append] at hstands ⊢
  rw [readValue, if_neg hne.1, if_neg hne.2.1, if_neg hne.2.2, if_pos hd, hstands]

def ReadsValues (fuel : Nat) : Prop :=
  ∀ ⦃i r c⦄, Cst.Reads c i r → 3 * i.length + 1 ≤ fuel → readValue fuel i = some (c, r)

def ReadsContainers (fuel : Nat) : Prop :=
  ∀ ⦃isObject i r items⦄, Items.Reads isObject true items i r → 3 * i.length + 3 ≤ fuel →
    readContainer fuel isObject i = some (.container isObject items, r)

/-- The blanks `w` that have been read before are all, or none has been read after a comma. -/
def ReadsItems (fuel : Nat) : Prop :=
  ∀ ⦃isObject first w i r items⦄, Items.Reads isObject first items (w ++ i) r →
    (Lexeme.blank w).Readable → first = false ∧ w = [] ∨ Stops isspace i →
    (∀ w', items ≠ .close w') → 3 * i.length + 2 ≤ fuel →
    readItems fuel isObject w i = some (items, r)

theorem readValue_complete {fuel : Nat} (ih : ReadsContainers fuel) : ReadsValues (fuel + 1) := by
  rintro i r c ⟨rfl, hshaped, hlexemes, hstands⟩ hfuel
  cases c with
  | null => exact readValue_word (by simp [words]) fuel r
  | bool b => exact readValue_word (by cases b <;> simp [words]) fuel r
  | number n => exact readValue_number (hlexemes _ List.mem_cons_self) (hstands.1 n rfl) fuel
  | string ps =>
    simp only [Cst.lexemes, List.forall_mem_map] at hlexemes
    simp [Cst.text, stringText, readValue, readPieces_complete hlexemes]
  | container isObject items =>
    have hitems : items.Reads isObject true (items.text isObject ++ r) r :=
      ⟨rfl, hshaped, hlexemes, hstands.2⟩
    have hread := ih hitems (by simp [Cst.text] at hfuel ⊢; omega)
    cases isObject <;> exact hread

/-- The first value of a reading begins with something that is not the closing bracket. -/
theorem first_head {isObject first : Bool} {items : Items} {i r : List UInt8}
    (h : items.Reads isObject first i r) (hopen : ∀ w', items ≠ .close w') :
    (∃ w', items = .cut w' ∧ r = [] ∧ i = w' ∧ (Lexeme.blank w').Readable ∧
      (first = true ∨ w' = [])) ∨
    ∃ d t, skip i = d :: t ∧ d ≠ closing isObject := by
  obtain ⟨rfl, hshaped, hlexemes, hstands⟩ := h
  cases items with
  | close w' => exact absurd rfl (hopen w')
  | cut w' =>
    have hr := hstands.resolve_left fun h => absurd h.1 (by decide)
    subst hr
    exact Or.inl ⟨w', rfl, rfl, List.append_nil _, hlexemes _ List.mem_cons_self, hshaped.2⟩
  | last label w' v w'' =>
    simp only [Items.lexemes, List.forall_mem_append, List.forall_mem_cons] at hlexemes
    obtain ⟨hlabel, hw', -, hv⟩ := hlexemes
    rw [Items.text]
    simp only [List.append_assoc]
    exact Or.inr (item_head hshaped.1 hlabel hw' hv _)
  | more label w' v w'' items =>
    simp only [Items.lexemes, List.forall_mem_append, List.forall_mem_cons] at hlexemes
    obtain ⟨hlabel, hw', -, hv, -⟩ := hlexemes
    rw [Items.text]
    simp only [List.append_assoc]
    exact Or.inr (item_head hshaped.1 hlabel hw' hv _)

theorem skip_blank {w : List UInt8} (hw : (Lexeme.blank w).Readable) : skip w = [] := by
  have h := (blanks_append hw (stops_nil (α := UInt8))).2
  rwa [List.append_nil] at h

theorem closing_stops (isObject : Bool) (r : List UInt8) :
    Stops isspace (closing isObject :: r) := by
  cases isObject <;> exact stops_cons.mpr (by decide)

theorem readContainer_complete {fuel : Nat} (ih : ReadsItems fuel) :
    ReadsContainers (fuel + 1) := by
  intro isObject i r items h hfuel
  rw [readContainer]
  by_cases hclose : ∃ w', items = .close w'
  · obtain ⟨w', rfl⟩ := hclose
    obtain ⟨rfl, -, hlexemes, -⟩ := h
    have hw' : (Lexeme.blank w').Readable := hlexemes _ List.mem_cons_self
    obtain ⟨hb, hs⟩ := blanks_append hw' (closing_stops isObject r)
    rw [Items.text, List.append_assoc, List.singleton_append, hb, hs]
    exact if_pos rfl
  · have hopen : ∀ w', items ≠ .close w' := fun w' hw' => hclose ⟨w', hw'⟩
    have hhead : (skip i).head? ≠ some (closing isObject) := by
      rcases first_head h hopen with ⟨w', -, -, rfl, hw', -⟩ | ⟨d, t, hskip, hne⟩
      · simp [skip_blank hw']
      · simpa [hskip] using hne
    have hlen : (skip i).length ≤ i.length := List.length_dropWhile_le _ _
    rw [← blanks_skip i] at h
    rw [if_neg hhead, ih h (blanks_readable i) (Or.inr (skip_stops i)) hopen (by omega)]
    rfl

/-- A value in a container is read, with what stands before it and the blanks after it. -/
theorem readItem_complete {fuel : Nat} (ih : ReadsValues fuel) {isObject : Bool}
    {w i w' w'' r : List UInt8} {label : Option Label} {v : Cst} {c : UInt8}
    (hw : (Lexeme.blank w).Readable)
    (htext : w ++ i = labelText label ++ (w' ++ (v.text ++ (w'' ++ c :: r))))
    (hobj : label.isSome = isObject) (hlabel : ∀ x ∈ labelLexemes label, x.Readable)
    (hw' : (Lexeme.blank w').Readable) (hw'' : (Lexeme.blank w'').Readable)
    (hv : ∀ x ∈ v.lexemes, x.Readable) (hshaped : v.Shaped false)
    (hc : Numeral.isNumeric c = false) (hfuel : 3 * i.length + 1 ≤ fuel) :
    readLabel isObject w i = some ((label, w'), v.text ++ (w'' ++ c :: r)) ∧
      readValue fuel (v.text ++ (w'' ++ c :: r)) = some (v, w'' ++ c :: r) ∧
      r.length + 1 ≤ i.length := by
  obtain ⟨d, t, hhead, hspace, -⟩ := text_head hv
  have hstops : Stops isspace (v.text ++ (w'' ++ c :: r)) := by
    rw [hhead]
    exact stops_cons.mpr hspace
  obtain ⟨hread, hlength⟩ := readLabel_complete hw htext hobj hlabel hw' hstops
  refine ⟨hread, ih (inner_reads hshaped hv hw'' hc r) (by omega), ?_⟩
  simp only [List.length_append, List.length_cons] at hlength
  omega

theorem readItems_complete {fuel : Nat} (ihValue : ReadsValues fuel) (ihItems : ReadsItems fuel) :
    ReadsItems (fuel + 1) := by
  rintro isObject first w i r items ⟨htext, hshaped, hlexemes, hstands⟩ hw hfirst hopen hfuel
  cases items with
  | close w' => exact absurd rfl (hopen w')
  | cut w' =>
    have hr := hstands.resolve_left fun h => absurd h.1 (by decide)
    subst hr
    rw [Items.text, List.append_nil] at htext
    subst htext
    have hi : i = [] := by
      rcases hfirst with ⟨rfl, rfl⟩ | hstops
      · exact hshaped.2.resolve_left (by decide)
      · have hskip := skip_blank (hlexemes _ List.mem_cons_self)
        rwa [(blanks_behind hw i).2, skip, dropWhile_of_stops hstops] at hskip
    subst hi
    rw [readItems, List.append_nil]
  | last label w' v w'' =>
    simp only [Items.lexemes, List.forall_mem_append, List.forall_mem_cons] at hlexemes
    obtain ⟨hlabel, hw', hw'', hv⟩ := hlexemes
    simp only [Items.text, List.append_assoc, List.singleton_append] at htext
    obtain ⟨hread, hvalue, hlength⟩ := readItem_complete ihValue hw htext hshaped.1 hlabel hw' hw''
      hv hshaped.2 (by cases isObject <;> decide) (by omega)
    obtain ⟨hb, hs⟩ := blanks_append hw'' (closing_stops isObject r)
    have hcomma : closing isObject ≠ 0x2C := by cases isObject <;> decide
    cases i with
    | nil => simp at hlength
    | cons e i => simp only [readItems, hread, Option.bind_some, hvalue, hb, hs, if_neg hcomma,
        if_true]
  | more label w' v w'' items =>
    simp only [Items.lexemes, List.forall_mem_append, List.forall_mem_cons] at hlexemes
    obtain ⟨hlabel, hw', hw'', hv, hitems⟩ := hlexemes
    simp only [Items.text, List.append_assoc, List.cons_append] at htext
    obtain ⟨hread, hvalue, hlength⟩ := readItem_complete ihValue hw htext hshaped.1 hlabel hw' hw''
      hv hshaped.2.1 (by decide) (by omega)
    obtain ⟨hb, hs⟩ := @blanks_append _ (0x2C :: (items.text isObject ++ r)) hw''
      (stops_cons.mpr (by decide))
    have hrest : readItems fuel isObject [] (items.text isObject ++ r) = some (items, r) := by
      refine @ihItems isObject false [] _ _ _ ⟨rfl, hshaped.2.2, hitems, ?_⟩ nofun
        (Or.inl ⟨rfl, rfl⟩) ?_ (by omega)
      · exact hstands.imp_left fun h => h.2.2
      · rintro w₀ rfl
        exact absurd hshaped.2.2 (by simp [Items.Shaped])
    cases i with
    | nil => simp at hlength
    | cons e i => simp only [readItems, hread, Option.bind_some, hvalue, hb, hs, if_true, hrest,
        Option.map_some]

/-- The reader reads every reading. -/
theorem read_complete (fuel : Nat) :
    ReadsValues fuel ∧ ReadsContainers fuel ∧ ReadsItems fuel := by
  induction fuel with
  | zero =>
    refine ⟨?_, ?_, ?_⟩
    · intro i r c _ hfuel
      omega
    · intro isObject i r items _ hfuel
      omega
    · intro isObject first w i r items _ _ _ _ hfuel
      omega
  | succ fuel ih =>
    obtain ⟨ihValue, ihContainer, ihItems⟩ := ih
    exact ⟨readValue_complete ihContainer, readContainer_complete ihItems,
      readItems_complete ihValue ihItems⟩

/-- A text is read in the way of its reading, and not at all if it has none. -/
theorem readValue_iff {fuel : Nat} {i r : List UInt8} {c : Cst}
    (hfuel : 3 * i.length + 1 ≤ fuel) : readValue fuel i = some (c, r) ↔ c.Reads i r :=
  ⟨fun h => (read_sound fuel).1 h, fun h => (read_complete fuel).1 h hfuel⟩

end Patrol.Json
