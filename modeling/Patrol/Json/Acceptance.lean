import Patrol.Json.Decoding

/-! Acceptance: which of the texts that the parser accepts are JSON documents. -/

namespace Patrol.Json

open ProofKit

def Accepts (s : List UInt8) : Prop := (parse s "").2 = ""

instance (s : List UInt8) : Decidable (Accepts s) :=
  inferInstanceAs (Decidable ((parse s "").2 = ""))

/-- A text is a JSON document: blanks, a value with all its brackets closed and all its lexemes those
of JSON, and blanks. -/
def Document (s : List UInt8) : Prop :=
  ∃ (w : List UInt8) (c : Cst) (w' : List UInt8), s = w ++ (c.text ++ w') ∧ Spaces w ∧ Spaces w' ∧
    c.Shaped false ∧ ∀ x ∈ c.lexemes, x.IsJson

/-- A text begins with blanks and a value, as the parser reads them, and has a flaw: the outermost
bracket is not closed, a lexeme is not one of JSON, or something other than blanks follows. -/
def Flawed (s : List UInt8) : Prop :=
  ∃ (w i : List UInt8) (c : Cst) (r : List UInt8),
    s = w ++ i ∧ (Lexeme.blank w).Readable ∧ c.Reads i r ∧
      (¬ c.Shaped false ∨ (∃ x ∈ Lexeme.blank w :: c.lexemes, ¬ x.IsJson) ∨ ¬ Spaces r)

/-- The blanks before a value, and the value. -/
theorem reads_split {w i r : List UInt8} {c : Cst} (hw : (Lexeme.blank w).Readable)
    (h : c.Reads i r) : blanks (w ++ i) = w ∧ skip (w ++ i) = i := by
  obtain ⟨d, t, hhead, hspace, -⟩ := text_head h.lexemes
  apply blanks_append hw
  rw [h.text, hhead]
  exact stops_cons.mpr hspace

/-- A text has one reading. -/
theorem reads_unique {c c' : Cst} {i r r' : List UInt8} (h : c.Reads i r) (h' : c'.Reads i r') :
    c = c' ∧ r = r' := by
  have hread := (readValue_iff le_rfl).mpr h
  rw [(readValue_iff le_rfl).mpr h'] at hread
  cases hread
  exact ⟨rfl, rfl⟩

/-- The value of a document is read, where nothing follows that goes on with it. -/
theorem document_reads {c : Cst} {r : List UInt8} (hshaped : c.Shaped false)
    (hjson : ∀ x ∈ c.lexemes, x.IsJson)
    (hr : (∀ n, c ≠ .number n) ∨ Stops Numeral.isNumeric r) : c.Reads (c.text ++ r) r := by
  have hlexemes : ∀ x ∈ c.lexemes, x.Readable := fun x hx => (hjson x hx).readable
  refine ⟨rfl, hshaped.open, hlexemes, ?_, Or.inl hshaped⟩
  rintro n rfl
  exact numeral_append (hlexemes _ List.mem_cons_self) (hr.resolve_left fun h => h n rfl)

/-- A text with a flaw is accepted and is no document. -/
theorem flawed_accepted {s : List UInt8} (h : Flawed s) : Accepts s ∧ ¬ Document s := by
  obtain ⟨w, i, c, r, rfl, hw, hreads, hflaw⟩ := h
  obtain ⟨hblanks, hskip⟩ := reads_split hw hreads
  refine ⟨parse_accepts.mpr ⟨c, r, by rwa [hskip]⟩, ?_⟩
  rintro ⟨v, c', r', htext, hv, hr', hshaped, hjson⟩
  have hreads' := document_reads hshaped hjson (Or.inr (blank_stops hr'.readable))
  obtain ⟨hblanks', hskip'⟩ := reads_split hv.readable hreads'
  rw [← htext] at hblanks' hskip'
  obtain rfl := hblanks.symm.trans hblanks'
  rw [← hskip', hskip] at hreads'
  obtain ⟨rfl, rfl⟩ := reads_unique hreads hreads'
  rcases hflaw with hcut | ⟨x, hx, hno⟩ | hrest
  · exact hcut hshaped
  · rcases List.mem_cons.mp hx with rfl | hx
    · exact hno hv
    · exact hno (hjson x hx)
  · exact hrest hr'

/-- A text that is accepted is a document, or has a flaw. -/
theorem accepted_cases {s : List UInt8} (h : Accepts s) : Document s ∨ Flawed s := by
  obtain ⟨c, r, hreads⟩ := parse_accepts.mp h
  rw [or_iff_not_imp_right]
  intro hflaw
  have hno : ¬ (¬ c.Shaped false ∨ (∃ x ∈ Lexeme.blank (blanks s) :: c.lexemes, ¬ x.IsJson) ∨
      ¬ Spaces r) := fun hf =>
    hflaw ⟨blanks s, skip s, c, r, (blanks_skip s).symm, blanks_readable s, hreads, hf⟩
  simp only [not_or, not_not, not_exists, not_and, List.mem_cons, forall_eq_or_imp] at hno
  obtain ⟨hshaped, ⟨hblanks, hjson⟩, hr⟩ := hno
  refine ⟨blanks s, c, r, ?_, hblanks, hr, hshaped, hjson⟩
  rw [← hreads.text, blanks_skip]

/-- A text that ends with the closing bracket of its object has no part before its end that is a
document. -/
theorem document_whole {w p q : List UInt8} {items : Items} (hw : Spaces w)
    (hshaped : (Cst.container true items).Shaped false)
    (hjson : ∀ x ∈ (Cst.container true items).lexemes, x.IsJson)
    (htext : w ++ (Cst.container true items).text = p ++ q) (hp : Document p) : q = [] := by
  obtain ⟨v, c, r, rfl, hv, hr, hshaped', hjson'⟩ := hp
  have hreads := @document_reads _ [] hshaped hjson (Or.inl (by simp))
  rw [List.append_nil] at hreads
  have hskip := (reads_split hw.readable hreads).2
  -- the value of the part begins with the bracket too, and is no number
  have hnumber : ∀ n, c ≠ .number n := by
    rintro n rfl
    obtain ⟨d, t, hhead, hd⟩ := numeral_head (hjson' _ List.mem_cons_self).readable
    have hstops : Stops isspace ((Cst.number n).text ++ (r ++ q)) := by
      rw [Cst.text, hhead]
      exact stops_cons.mpr (not_space_of_start hd)
    rw [htext, List.append_assoc, List.append_assoc, (blanks_append hv.readable hstops).2, Cst.text,
      hhead] at hskip
    have hbracket : d = 0x7B := (List.cons.inj hskip).1
    rw [hbracket] at hd
    exact absurd hd (by decide)
  have hreads' := @document_reads _ (r ++ q) hshaped' hjson' (Or.inl hnumber)
  have hskip' := (reads_split hv.readable hreads').2
  rw [htext, List.append_assoc, List.append_assoc, hskip'] at hskip
  rw [hskip] at hreads'
  have hempty := (reads_unique hreads hreads').2
  exact (List.append_eq_nil_iff.mp hempty.symm).2

/-- What the parser accepts is a JSON document, if and only if it has none of the flaws.  A part of a
text that is accepted, of a text that ends with the closing bracket of its object, has one. -/
theorem accepts_document_iff (s : List UInt8) :
    ((Accepts s → Document s) ↔ ¬ Flawed s) ∧
      ∀ w items q, Spaces w → (Cst.container true items).Shaped false →
        (∀ x ∈ (Cst.container true items).lexemes, x.IsJson) →
        w ++ (Cst.container true items).text = s ++ q → q ≠ [] → Accepts s → Flawed s := by
  refine ⟨⟨fun h hflaw => ?_, fun h haccepts => ?_⟩, ?_⟩
  · exact (flawed_accepted hflaw).2 (h (flawed_accepted hflaw).1)
  · exact (accepted_cases haccepts).resolve_right h
  · intro w items q hw hshaped hjson htext hq haccepts
    exact (accepted_cases haccepts).resolve_left fun hdoc =>
      hq (document_whole hw hshaped hjson htext hdoc)

/-- The characters of an object that ends after a comma. -/
def cutObject : List UInt8 := [0x7B, 0x22, 0x61, 0x22, 0x3A, 0x31, 0x2C]

/-- An object that ends after a comma is accepted. -/
theorem cut_object_accepted : ¬ ∀ s, Accepts s → Document s := by
  intro h
  refine (@flawed_accepted cutObject ?_).2 (h cutObject (by decide))
  refine ⟨[], cutObject, .container true (.more (some ⟨[], [.plain 0x61], []⟩) []
    (.number ⟨false, [0x31], none, none⟩) [] (.cut [])), [], rfl, by simp [Lexeme.Readable], ?_, ?_⟩
  · refine ⟨rfl, ?_, ?_, ?_, Or.inr rfl⟩
    · simp [Cst.Shaped, Items.Shaped]
    · simp [Cst.lexemes, Items.lexemes, labelLexemes, Lexeme.Readable]
      decide
    · rintro n hn
      cases hn
  · left
    simp [Cst.Shaped, Items.Shaped]

end Patrol.Json
