import Patrol.Json.Reader

/-! The strings of a text: where a value that the parser reads has them, and where nothing but one of
them can stand. -/

namespace Patrol.Json

open ProofKit

/-- A character that stands outside of strings: a blank, a character of a number, a bracket, a comma
or a colon, or a letter of a word. -/
def isMark (c : UInt8) : Bool :=
  isspace c || Numeral.isNumeric c || [0x7B, 0x7D, 0x5B, 0x5D, 0x2C, 0x3A].contains c ||
    (words.flatMap Cst.text).contains c

def Readable (ps : List Piece) : Prop := ∀ p ∈ ps, (Lexeme.piece p).Readable

/-- The strings and the marks of a text, from its beginning up to what is left. -/
inductive Leads : List UInt8 → List UInt8 → Prop
  | here {i : List UInt8} : Leads i i
  | mark {c : UInt8} {i r : List UInt8} : isMark c = true → Leads i r → Leads (c :: i) r
  | string {ps : List Piece} {i r : List UInt8} :
      Readable ps → Leads i r → Leads (stringText ps ++ i) r

/-- A text has a string in it, and a mark after that. -/
def Holds (i : List UInt8) (ps : List Piece) : Prop :=
  Readable ps ∧ ∃ c r, isMark c = true ∧ Leads i (stringText ps ++ c :: r)

theorem Leads.trans {i j r : List UInt8} (h : Leads i j) (h' : Leads j r) : Leads i r := by
  induction h with
  | here => exact h'
  | mark hc _ ih => exact .mark hc (ih h')
  | string hps _ ih => exact .string hps (ih h')

theorem Leads.holds {i j : List UInt8} {ps : List Piece} (h : Leads i j) (hj : Holds j ps) :
    Holds i ps := by
  obtain ⟨hps, c, r, hc, hlead⟩ := hj
  exact ⟨hps, c, r, hc, h.trans hlead⟩

theorem leads_marks {t : List UInt8} (h : ∀ c ∈ t, isMark c = true) (r : List UInt8) :
    Leads (t ++ r) r := by
  induction t with
  | nil => exact .here
  | cons c t ih =>
    simp only [List.forall_mem_cons] at h
    exact .mark h.1 (ih h.2)

theorem leads_string {ps : List Piece} (h : Readable ps) (r : List UInt8) :
    Leads (stringText ps ++ r) r :=
  .string h .here

/-! ### The strings of a value -/

theorem blank_marks {w : List UInt8} (h : (Lexeme.blank w).Readable) :
    ∀ c ∈ w, isMark c = true := by
  intro c hc
  simp [isMark, h c hc]

theorem word_marks {c : Cst} (h : c ∈ words) : ∀ b ∈ c.text, isMark b = true := by
  intro b hb
  have hmem : b ∈ words.flatMap Cst.text := List.mem_flatMap.mpr ⟨c, h, hb⟩
  simp [isMark, hmem]

namespace Numeral

theorem isNumeric_cases {c : UInt8}
    (h : isdigit c = true ∨ c = 0x2E ∨ isLetter c = true ∨ isSign c = true) :
    isNumeric c = true := by
  rcases h with h | rfl | h | h <;> simp [isNumeric, *]

theorem Digits.numeric {ds r : List UInt8} (h : Digits ds r) : ∀ c ∈ ds, isNumeric c = true :=
  fun c hc => isNumeric_cases (.inl (h.1 c hc))

theorem FractionFits.numeric {f : Option (List UInt8)} {r : List UInt8} (h : FractionFits f r) :
    ∀ c ∈ fractionText f, isNumeric c = true := by
  cases f with
  | none => simp [fractionText]
  | some ds => exact List.forall_mem_cons.mpr ⟨by decide, Digits.numeric h⟩

theorem ExponentFits.numeric {x : Option (UInt8 × List UInt8 × List UInt8)} {r : List UInt8}
    (h : ExponentFits x r) : ∀ c ∈ exponentText x, isNumeric c = true := by
  rcases x with _ | ⟨e, sign, ds⟩
  · simp [exponentText]
  · obtain ⟨he, hsign, hds⟩ := h
    simp only [exponentText, List.forall_mem_cons, List.forall_mem_append]
    refine ⟨isNumeric_cases (.inr (.inr (.inl he))), ?_, hds.numeric⟩
    rcases hsign with ⟨c, rfl, hc⟩ | ⟨rfl, -⟩
    · exact List.forall_mem_singleton.mpr (isNumeric_cases (.inr (.inr (.inr hc))))
    · simp

end Numeral

theorem numeral_marks {n : Numeral} (h : (Lexeme.numeral n).Readable) :
    ∀ c ∈ n.text, isMark c = true := by
  have hfits := (Numeral.read_iff.mp h.2).2
  have hnumeric : ∀ c ∈ n.text, Numeral.isNumeric c = true := by
    rw [Numeral.text]
    simp only [List.forall_mem_append]
    refine ⟨?_, hfits.digits.numeric, hfits.fraction.numeric, hfits.exponent.numeric⟩
    cases n.minus
    · simp
    · simp [Numeral.isNumeric, Numeral.isSign]
  intro c hc
  simp [isMark, hnumeric c hc]

theorem bracket_marks (isObject : Bool) :
    isMark (opening isObject) = true ∧ isMark (closing isObject) = true := by
  cases isObject <;> decide

theorem leads_label {label : Option Label} (h : ∀ x ∈ labelLexemes label, x.Readable)
    (r : List UInt8) : Leads (labelText label ++ r) r := by
  rcases label with _ | ⟨w, key, w'⟩
  · exact .here
  · simp only [labelLexemes, List.forall_mem_cons, List.forall_mem_map] at h
    obtain ⟨hw, hw', hkey⟩ := h
    simp only [labelText, Label.text, List.append_assoc]
    refine (leads_marks (blank_marks hw) _).trans ((leads_string hkey _).trans ?_)
    exact (leads_marks (blank_marks hw') _).trans (.mark (by decide) .here)

/-- What stands before a value that follows a bracket or a comma. -/
theorem leads_before {label : Option Label} {w : List UInt8}
    (h : ∀ x ∈ labelLexemes label, x.Readable) (hw : (Lexeme.blank w).Readable) (r : List UInt8) :
    Leads (labelText label ++ (w ++ r)) r :=
  (leads_label h _).trans (leads_marks (blank_marks hw) _)

mutual

/-- A value leads to what comes after it. -/
theorem Cst.leads {c : Cst} (hshaped : c.Shaped false) (h : ∀ x ∈ c.lexemes, x.Readable)
    (r : List UInt8) : Leads (c.text ++ r) r := by
  cases c with
  | null => exact leads_marks (word_marks (c := .null) (by simp [words])) r
  | bool b => exact leads_marks (word_marks (c := .bool b) (by cases b <;> simp [words])) r
  | number n => exact leads_marks (numeral_marks (h _ List.mem_cons_self)) r
  | string ps => exact leads_string (List.forall_mem_map.mp h) r
  | container isObject items =>
    exact .mark (bracket_marks isObject).1 (Items.leads hshaped h r)

theorem Items.leads {isObject first : Bool} {items : Items}
    (hshaped : items.Shaped isObject false first) (h : ∀ x ∈ items.lexemes, x.Readable)
    (r : List UInt8) : Leads (items.text isObject ++ r) r := by
  have hclose : Leads (closing isObject :: r) r := .mark (bracket_marks isObject).2 .here
  cases items with
  | close w =>
    simp only [Items.text, List.append_assoc]
    exact (leads_marks (blank_marks (h _ List.mem_cons_self)) _).trans hclose
  | cut w => exact absurd hshaped.1 (by decide)
  | last label w v w' =>
    simp only [Items.lexemes, List.forall_mem_append, List.forall_mem_cons] at h
    obtain ⟨hlabel, hw, hw', hv⟩ := h
    simp only [Items.text, List.append_assoc]
    refine (leads_before hlabel hw _).trans ((Cst.leads hshaped.2 hv _).trans ?_)
    exact (leads_marks (blank_marks hw') _).trans hclose
  | more label w v w' items =>
    simp only [Items.lexemes, List.forall_mem_append, List.forall_mem_cons] at h
    obtain ⟨hlabel, hw, hw', hv, hitems⟩ := h
    simp only [Items.text, List.append_assoc, List.cons_append]
    refine (leads_before hlabel hw _).trans ((Cst.leads hshaped.2.1 hv _).trans ?_)
    refine (leads_marks (blank_marks hw') _).trans (.mark (by decide) ?_)
    exact Items.leads hshaped.2.2 hitems r

end

mutual

/-- The strings that are values. -/
def Cst.strings : Cst → List (List Piece)
  | .string ps => [ps]
  | .container _ items => items.strings
  | _ => []

def Items.strings : Items → List (List Piece)
  | .close _ => []
  | .cut _ => []
  | .last _ _ v _ => v.strings
  | .more _ _ v _ items => v.strings ++ items.strings

end

/-- After a value come blanks, and a mark. -/
theorem behind_mark {w : List UInt8} (hw : (Lexeme.blank w).Readable) {m : UInt8}
    (hm : isMark m = true) (r : List UInt8) : ∃ c r', w ++ m :: r = c :: r' ∧ isMark c = true := by
  cases w with
  | nil => exact ⟨m, r, rfl, hm⟩
  | cons c w => exact ⟨c, w ++ m :: r, rfl, blank_marks hw c List.mem_cons_self⟩

mutual

/-- The text of a value has its strings in it. -/
theorem Cst.holds {c : Cst} (hshaped : c.Shaped false) (h : ∀ x ∈ c.lexemes, x.Readable)
    {ps : List Piece} (hps : ps ∈ c.strings) {m : UInt8} (hm : isMark m = true) (r : List UInt8) :
    Holds (c.text ++ m :: r) ps := by
  cases c with
  | null => simp [Cst.strings] at hps
  | bool b => simp [Cst.strings] at hps
  | number n => simp [Cst.strings] at hps
  | string qs =>
    obtain rfl := List.mem_singleton.mp hps
    exact ⟨List.forall_mem_map.mp h, m, r, hm, .here⟩
  | container isObject items =>
    exact (leads_marks (t := [_]) (by simpa using (bracket_marks isObject).1) _).holds
      (Items.holds hshaped h hps (m :: r))

theorem Items.holds {isObject cut first : Bool} {items : Items}
    (hshaped : items.Shaped isObject cut first) (h : ∀ x ∈ items.lexemes, x.Readable)
    {ps : List Piece} (hps : ps ∈ items.strings) (r : List UInt8) :
    Holds (items.text isObject ++ r) ps := by
  cases items with
  | close w => simp [Items.strings] at hps
  | cut w => simp [Items.strings] at hps
  | last label w v w' =>
    simp only [Items.lexemes, List.forall_mem_append, List.forall_mem_cons] at h
    obtain ⟨hlabel, hw, hw', hv⟩ := h
    obtain ⟨m, r', hbehind, hm⟩ := behind_mark hw' (bracket_marks isObject).2 r
    simp only [Items.text, List.append_assoc, List.singleton_append, hbehind]
    exact (leads_before hlabel hw _).holds (Cst.holds hshaped.2 hv hps hm r')
  | more label w v w' items =>
    simp only [Items.lexemes, List.forall_mem_append, List.forall_mem_cons] at h
    obtain ⟨hlabel, hw, hw', hv, hitems⟩ := h
    simp only [Items.text, List.append_assoc, List.cons_append]
    refine (leads_before hlabel hw _).holds ?_
    rcases List.mem_append.mp hps with hps | hps
    · obtain ⟨m, r', hbehind, hm⟩ :=
        @behind_mark _ hw' 0x2C (by decide) (items.text isObject ++ r)
      rw [hbehind]
      exact Cst.holds hshaped.2.1 hv hps hm r'
    · refine (Cst.leads hshaped.2.1 hv _).holds ((leads_marks (blank_marks hw') _).holds ?_)
      exact (Leads.mark (by decide) .here).holds (Items.holds hshaped.2.2 hitems hps r)

end

/-- What the parser reads has all its strings in the text. -/
theorem reads_holds {isObject : Bool} {items : Items} {i r : List UInt8}
    (h : (Cst.container isObject items).Reads i r) {ps : List Piece} (hps : ps ∈ items.strings) :
    Holds i ps := by
  rw [h.text]
  exact (Leads.mark (bracket_marks isObject).1 .here).holds
    (Items.holds h.shaped h.lexemes hps r)

/-! ### Which strings a node has -/

theorem lookup_entries {k : List UInt8} {n : JsonNode} (members : List (List UInt8 × JsonNode))
    {entries : List (List UInt8 × JsonNode)}
    (h : (members.foldl (fun entries m => OrderedMap.insert m.1 m.2 entries) entries).lookup k =
      some n) : (∃ m ∈ members, m.2 = n) ∨ entries.lookup k = some n := by
  induction members generalizing entries with
  | nil => exact Or.inr h
  | cons m members ih =>
    rw [List.foldl_cons] at h
    rcases ih h with ⟨m', hm', hn⟩ | hentries
    · exact Or.inl ⟨m', List.mem_cons_of_mem _ hm', hn⟩
    · rw [OrderedMap.lookup_insert] at hentries
      split at hentries
      · exact Or.inl ⟨m, List.mem_cons_self, Option.some.inj hentries⟩
      · exact Or.inr hentries

theorem Items.member_value {m : List UInt8 × JsonNode} :
    ∀ {items : Items}, m ∈ items.members →
      ∃ v : Cst, m.2 = v.node ∧ ∀ ps ∈ v.strings, ps ∈ items.strings
  | .close _, h => absurd h List.not_mem_nil
  | .cut _, h => absurd h List.not_mem_nil
  | .last _ _ v _, h => ⟨v, by rw [List.mem_singleton.mp h], fun _ hps => hps⟩
  | .more _ _ v _ _, h => by
    rcases List.mem_cons.mp h with rfl | h
    · exact ⟨v, rfl, fun _ hps => List.mem_append_left _ hps⟩
    · obtain ⟨v', hnode, hstrings⟩ := Items.member_value h
      exact ⟨v', hnode, fun ps hps => List.mem_append_right _ (hstrings ps hps)⟩

/-- The values of a value: `null`, or that of a member of an object. -/
theorem Cst.get_cases (c : Cst) (k : List UInt8) :
    c.node.get k = .null ∨ ∃ (items : Items) (v : Cst), c = .container true items ∧
      c.node.get k = v.node ∧ ∀ ps ∈ v.strings, ps ∈ items.strings := by
  rcases c with _ | b | n | ps | ⟨_ | _, items⟩
  · exact Or.inl rfl
  · exact Or.inl rfl
  · left
    rw [Cst.node, Numeral.node]
    split <;> rfl
  · exact Or.inl rfl
  · exact Or.inl rfl
  · rw [Cst.node, JsonNode.get]
    cases hlookup : (entriesOf items.members).lookup k with
    | none => exact Or.inl rfl
    | some n =>
      rcases lookup_entries items.members hlookup with ⟨m, hm, rfl⟩ | hnil
      · obtain ⟨v, hnode, hstrings⟩ := Items.member_value hm
        exact Or.inr ⟨items, v, rfl, hnode, hstrings⟩
      · cases hnil

theorem Cst.stringOr_cases (c : Cst) (fallback : List UInt8) :
    c.node.stringOr fallback = fallback ∨
      ∃ ps ∈ c.strings, c.node.stringOr fallback = ps.map Piece.value := by
  rcases c with _ | b | n | ps | ⟨_ | _, items⟩
  · exact Or.inl rfl
  · exact Or.inl rfl
  · left
    rw [Cst.node, Numeral.node]
    split <;> rfl
  · exact Or.inr ⟨ps, List.mem_singleton_self ps, rfl⟩
  · exact Or.inl rfl
  · exact Or.inl rfl

/-- A string of a member of a member is one of the text. -/
theorem reads_string {c : Cst} {i r : List UInt8} (h : c.Reads i r) (k k' fallback : List UInt8) :
    ((c.node.get k).get k').stringOr fallback = fallback ∨
      ∃ ps, Holds i ps ∧ ((c.node.get k).get k').stringOr fallback = ps.map Piece.value := by
  rcases c.get_cases k with hnull | ⟨items, v, rfl, hv, hstrings⟩
  · left
    rw [hnull]
    rfl
  rw [hv]
  rcases v.get_cases k' with hnull | ⟨items', v', rfl, hv', hstrings'⟩
  · left
    rw [hnull]
    rfl
  rw [hv']
  rcases v'.stringOr_cases fallback with hfallback | ⟨ps, hps, hvalue⟩
  · exact Or.inl hfallback
  · exact Or.inr ⟨ps, reads_holds h (hstrings ps (hstrings' ps hps)), hvalue⟩

/-! ### What a text can have in it -/

theorem holds_nil {ps : List Piece} : ¬ Holds [] ps := by
  rintro ⟨-, c, r, -, hlead⟩
  generalize hj : stringText ps ++ c :: r = j at hlead
  cases hlead
  cases hj

/-- A character other than a quote is a mark before the strings that follow it. -/
theorem holds_mark {c : UInt8} {i : List UInt8} {ps : List Piece} (hc : c ≠ 0x22)
    (h : Holds (c :: i) ps) : isMark c = true ∧ Holds i ps := by
  obtain ⟨hps, m, r, hm, hlead⟩ := h
  generalize hi : c :: i = i' at hlead
  cases hlead with
  | here =>
    rw [stringText, List.cons_append] at hi
    exact absurd (List.cons.inj hi).1 hc
  | mark hmark hlead =>
    obtain ⟨rfl, rfl⟩ := List.cons.inj hi
    exact ⟨hmark, hps, m, r, hm, hlead⟩
  | string hqs hlead =>
    rw [stringText, List.cons_append] at hi
    exact absurd (List.cons.inj hi).1 hc

theorem holds_skip {t i : List UInt8} {ps : List Piece} (ht : ∀ c ∈ t, c ≠ 0x22)
    (h : Holds (t ++ i) ps) : Holds i ps := by
  induction t with
  | nil => exact h
  | cons c t ih =>
    simp only [List.forall_mem_cons] at ht
    exact ih ht.2 (holds_mark ht.1 h).2

/-- At a quote a string begins.  It is the one, with a mark after it, or stands before it. -/
theorem holds_quote {i : List UInt8} {ps : List Piece} (h : Holds (0x22 :: i) ps) :
    ∃ qs r, Readable qs ∧ i = qs.flatMap Piece.text ++ 0x22 :: r ∧
      (qs = ps ∧ (∃ m r', r = m :: r' ∧ isMark m = true) ∨ Holds r ps) := by
  obtain ⟨hps, m, r, hm, hlead⟩ := h
  generalize hi : 0x22 :: i = i' at hlead
  generalize hj : stringText ps ++ m :: r = j at hlead
  cases hlead with
  | here =>
    subst hj
    simp only [stringText, List.cons_append, List.append_assoc, List.nil_append] at hi
    exact ⟨ps, m :: r, hps, (List.cons.inj hi).2, Or.inl ⟨rfl, m, r, rfl, hm⟩⟩
  | mark hmark hlead =>
    rw [← (List.cons.inj hi).1] at hmark
    exact absurd hmark (by decide)
  | @string qs k _ hqs hlead =>
    simp only [stringText, List.cons_append, List.append_assoc, List.nil_append] at hi
    refine ⟨qs, k, hqs, (List.cons.inj hi).2, Or.inr ⟨hps, m, r, hm, ?_⟩⟩
    rw [hj]
    exact hlead

/-! ### Where a string ends -/

/-- Pieces before a closing quote are read in one way. -/
theorem pieces_unique {ps qs : List Piece} {r r' : List UInt8} (hps : Readable ps)
    (hqs : Readable qs)
    (h : ps.flatMap Piece.text ++ 0x22 :: r = qs.flatMap Piece.text ++ 0x22 :: r') :
    ps = qs ∧ r = r' := by
  have hread := readPieces_complete hps r
  rw [h, readPieces_complete hqs r'] at hread
  cases hread
  exact ⟨rfl, rfl⟩

/-- Characters that stand for themselves. -/
def Raw (t : List UInt8) : Prop := ∀ b ∈ t, b ≠ 0x22 ∧ b ≠ 0x5C

theorem Raw.readable {t : List UInt8} (h : Raw t) : Readable (t.map .plain) :=
  List.forall_mem_map.mpr h

theorem plain_text (t : List UInt8) : (t.map Piece.plain).flatMap Piece.text = t := by
  simp [List.flatMap_map, Piece.text]

theorem plain_value (t : List UInt8) : (t.map Piece.plain).map Piece.value = t := by
  rw [List.map_map]
  exact List.map_id t

/-- A string of such characters ends at the next quote. -/
theorem raw_ends {t r r' : List UInt8} {qs : List Piece} (ht : Raw t) (hqs : Readable qs)
    (h : qs.flatMap Piece.text ++ 0x22 :: r = t ++ 0x22 :: r') : qs = t.map .plain ∧ r = r' := by
  rw [← plain_text t] at h
  exact pieces_unique hqs ht.readable h

/-- A quote within the text of a piece comes after a backslash, and three characters at most after
the quote. -/
theorem piece_quote {q : Piece} (hq : (Lexeme.piece q).Readable) {d z : List UInt8}
    (h : q.text = d ++ 0x22 :: z) : z.length ≤ 3 := by
  cases q with
  | plain c =>
    rcases d with _ | ⟨d, ds⟩
    · exact absurd (List.cons.inj h).1 hq.1
    · simp [Piece.text] at h
  | escape e =>
    have hlength := congrArg List.length h
    simp only [Piece.text, List.length_append, List.length_cons, List.length_nil] at hlength
    omega
  | unicode a b c e =>
    rcases d with _ | ⟨d, _ | ⟨d', ds⟩⟩
    · exact absurd (List.cons.inj h).1 (by decide)
    · exact absurd (List.cons.inj (List.cons.inj h).2).1 (by decide)
    · have hlength := congrArg List.length h
      simp only [Piece.text, List.length_append, List.length_cons, List.length_nil] at hlength
      omega

/-- A string that goes on into `d`, a quote and `gap` ends with `d`, or within it, or at the quote
behind the gap. -/
theorem string_ends {gap v : List UInt8} (hraw : Raw gap) (hlength : 3 ≤ gap.length)
    {qs : List Piece} (hqs : Readable qs) {d r : List UInt8}
    (h : qs.flatMap Piece.text ++ 0x22 :: r = d ++ 0x22 :: (gap ++ 0x22 :: v)) :
    qs.flatMap Piece.text = d ∧ r = gap ++ 0x22 :: v ∨
      (∃ d', d = qs.flatMap Piece.text ++ 0x22 :: d' ∧ r = d' ++ 0x22 :: (gap ++ 0x22 :: v)) ∨
      r = v := by
  induction qs generalizing d with
  | nil =>
    rcases d with _ | ⟨c, d⟩
    · exact Or.inl ⟨rfl, (List.cons.inj h).2⟩
    · obtain ⟨rfl, hr⟩ := List.cons.inj h
      exact Or.inr (Or.inl ⟨d, rfl, hr⟩)
  | cons q qs ih =>
    obtain ⟨hq, hqs⟩ := List.forall_mem_cons.mp hqs
    rw [List.flatMap_cons, List.append_assoc] at h
    rw [List.flatMap_cons]
    rcases List.append_eq_append_iff.mp h with ⟨d', rfl, hrest⟩ | ⟨z, hz, hrest⟩
    · rcases ih hqs hrest with ⟨rfl, hr⟩ | ⟨d'', rfl, hr⟩ | hr
      · exact Or.inl ⟨rfl, hr⟩
      · exact Or.inr (Or.inl ⟨d'', by rw [List.append_assoc], hr⟩)
      · exact Or.inr (Or.inr hr)
    · rcases z with _ | ⟨c, z⟩
      · -- the piece ends with `d`
        rw [List.append_nil] at hz
        rcases ih (d := []) hqs hrest.symm with ⟨hnil, hr⟩ | ⟨d'', hd, -⟩ | hr
        · exact Or.inl ⟨by rw [hnil, List.append_nil, hz], hr⟩
        · exact absurd hd (by simp)
        · exact Or.inr (Or.inr hr)
      · -- the piece takes the quote behind `d`, and a part of the gap
        rw [List.cons_append] at hrest
        obtain ⟨rfl, hgap⟩ := List.cons.inj hrest
        have hle := piece_quote hq hz
        obtain ⟨gap', rfl⟩ : ∃ gap', gap = z ++ gap' := by
          rcases List.append_eq_append_iff.mp hgap with ⟨z', rfl, -⟩ | ⟨z', rfl, -⟩
          · have : z' = [] := by
              rw [List.length_append] at hle
              exact List.eq_nil_of_length_eq_zero (by omega)
            exact ⟨[], by simp [this]⟩
          · exact ⟨z', rfl⟩
        rw [List.append_assoc, List.append_cancel_left_eq] at hgap
        have hgap' : Raw gap' := fun b hb => hraw b (List.mem_append_right _ hb)
        exact Or.inr (Or.inr (raw_ends hgap' hqs hgap.symm).2)

theorem pieces_length (ps : List Piece) : ps.length ≤ (ps.flatMap Piece.text).length := by
  induction ps with
  | nil => exact Nat.le_refl _
  | cons p ps ih =>
    have hp : 1 ≤ p.text.length := by cases p <;> simp [Piece.text]
    rw [List.flatMap_cons, List.length_append, List.length_cons]
    omega

/-- A string without escapes has a piece for each character, and one with escapes has fewer. -/
theorem pieces_cases {ps : List Piece} (h : Readable ps) :
    (∃ t, Raw t ∧ ps = t.map .plain) ∨ ps.length < (ps.flatMap Piece.text).length := by
  induction ps with
  | nil => exact Or.inl ⟨[], by simp [Raw], rfl⟩
  | cons p ps ih =>
    obtain ⟨hp, hps⟩ := List.forall_mem_cons.mp h
    have hle := pieces_length ps
    rw [List.flatMap_cons, List.length_append, List.length_cons]
    cases p with
    | plain c =>
      rcases ih hps with ⟨t, ht, rfl⟩ | hlt
      · exact Or.inl ⟨c :: t, List.forall_mem_cons.mpr ⟨hp, ht⟩, rfl⟩
      · right
        simp only [Piece.text, List.length_singleton]
        omega
    | escape e =>
      right
      simp only [Piece.text, List.length_cons, List.length_nil]
      omega
    | unicode a b c d =>
      right
      simp only [Piece.text, List.length_cons, List.length_nil]
      omega

/-- Where a string of characters stands in the text, and behind it a gap, a quote and then no mark:
a string of the text is the one, or shorter, or stands behind. -/
theorem holds_between {gap u : List UInt8} {x : UInt8} (hraw : Raw gap) (hlength : 3 ≤ gap.length)
    (hx : x ≠ 0x22) (hmark : isMark x = false) {ps : List Piece} (d : List UInt8) :
    (Holds (0x22 :: (d ++ 0x22 :: (gap ++ 0x22 :: x :: u))) ps →
      ps.flatMap Piece.text = d ∨ ps.length < d.length ∨ Holds (gap ++ 0x22 :: x :: u) ps) ∧
    (Holds (d ++ 0x22 :: (gap ++ 0x22 :: x :: u)) ps →
      ps.length < d.length ∨ Holds (gap ++ 0x22 :: x :: u) ps) := by
  have hno : ∀ {r}, r = x :: u →
      ¬ ((∃ m r', r = m :: r' ∧ isMark m = true) ∨ Holds r ps) := by
    rintro r rfl (⟨m, r', heq, hm⟩ | h)
    · rw [(List.cons.inj heq).1, hm] at hmark
      cases hmark
    · rw [(holds_mark hx h).1] at hmark
      cases hmark
  -- on the length: a string that ends within `d` leaves a shorter part of it, outside of strings
  induction hn : d.length using Nat.strong_induction_on generalizing d with
  | _ n ih =>
    subst hn
    constructor
    · intro h
      obtain ⟨qs, r, hqs, htext, hcase⟩ := holds_quote h
      rcases string_ends hraw hlength hqs htext.symm with ⟨rfl, rfl⟩ | ⟨d', rfl, rfl⟩ | hr
      · rcases hcase with ⟨rfl, -⟩ | hbehind
        · exact Or.inl rfl
        · exact Or.inr (Or.inr hbehind)
      · have hle := pieces_length qs
        simp only [List.length_append, List.length_cons] at ih ⊢
        rcases hcase with ⟨rfl, -⟩ | hbehind
        · exact Or.inr (Or.inl (by omega))
        · rcases (ih d'.length (by omega) d' rfl).2 hbehind with hlt | hbehind
          · exact Or.inr (Or.inl (by omega))
          · exact Or.inr (Or.inr hbehind)
      · exact absurd (hcase.imp And.right id) (hno hr)
    · intro h
      rcases d with _ | ⟨c, d⟩
      · obtain ⟨qs, r, hqs, htext, hcase⟩ := holds_quote h
        exact absurd (hcase.imp And.right id) (hno (raw_ends hraw hqs htext.symm).2)
      · simp only [List.length_cons] at ih ⊢
        by_cases hc : c = 0x22
        · subst hc
          rcases (ih d.length (by omega) d rfl).1 h with rfl | hlt | hbehind
          · exact Or.inl (by have := pieces_length ps; omega)
          · exact Or.inl (by omega)
          · exact Or.inr hbehind
        · rcases (ih d.length (by omega) d rfl).2 (holds_mark hc h).2 with hlt | hbehind
          · exact Or.inl (by omega)
          · exact Or.inr hbehind

end Patrol.Json
