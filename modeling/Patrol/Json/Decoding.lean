import Patrol.Json.Refinement

/-! Decoding: the parser returns the tree that a text is written for. -/

namespace Patrol.Json

open ProofKit

/-- A tree of values.  The keys of an object may repeat. -/
inductive Tree
  | null
  | bool (b : Bool)
  | int (v : Int64)
  | string (val : List UInt8)
  | array (elements : List Tree)
  | object (members : List (List UInt8 × Tree))

mutual

/-- The tree as a node, in which the last of the members with one key stays. -/
def Tree.node : Tree → JsonNode
  | .null => .null
  | .bool b => .bool b
  | .int v => .int v
  | .string val => .string val
  | .array elements => .array (Tree.nodes elements)
  | .object members => .object (entriesOf (Tree.memberNodes members))

def Tree.nodes : List Tree → List JsonNode
  | [] => []
  | t :: ts => t.node :: Tree.nodes ts

def Tree.memberNodes : List (List UInt8 × Tree) → List (List UInt8 × JsonNode)
  | [] => []
  | (k, t) :: ms => (k, t.node) :: Tree.memberNodes ms

end

/-! ### Texts of a tree -/

/-- Spaces, tabs and the ends of lines. -/
def Spaces (w : List UInt8) : Prop := ∀ c ∈ w, isBlank c = true

instance (w : List UInt8) : Decidable (Spaces w) := List.decidableBAll _ w

/-- How a character is written in a string. -/
inductive CharText : UInt8 → List UInt8 → Prop
  | raw {c : UInt8} : c ≠ 0x22 → c ≠ 0x5C → CharText c [c]
  | quote : CharText 0x22 [0x5C, 0x22]
  | backslash : CharText 0x5C [0x5C, 0x5C]
  | slash : CharText 0x2F [0x5C, 0x2F]
  | newline : CharText 0x0A [0x5C, 0x6E]
  | carriageReturn : CharText 0x0D [0x5C, 0x72]
  | tab : CharText 0x09 [0x5C, 0x74]

inductive StringText : List UInt8 → List UInt8 → Prop
  | nil : StringText [] []
  | cons {c : UInt8} {val t u : List UInt8} :
      CharText c t → StringText val u → StringText (c :: val) (t ++ u)

/-- The value of a number without a fraction and an exponent. -/
def Numeral.value (n : Numeral) : Int :=
  if n.minus then -decimal n.digits else decimal n.digits

/-- How an integer is written: with digits, the first of them not zero before others, and a minus
sign or none. -/
def IntText (v : Int64) (t : List UInt8) : Prop :=
  ∃ n : Numeral, n.IsJson ∧ n.fraction = none ∧ n.exponent = none ∧ n.value = v.toInt ∧ t = n.text

mutual

/-- The texts of a tree. -/
inductive Text : Tree → List UInt8 → Prop
  | null : Text .null [0x6E, 0x75, 0x6C, 0x6C]
  | true : Text (.bool true) [0x74, 0x72, 0x75, 0x65]
  | false : Text (.bool false) [0x66, 0x61, 0x6C, 0x73, 0x65]
  | int {v : Int64} {t : List UInt8} : IntText v t → Text (.int v) t
  | string {val t : List UInt8} : StringText val t → Text (.string val) (0x22 :: (t ++ [0x22]))
  | array {ts : List Tree} {u : List UInt8} :
      ElementsText ts u → Text (.array ts) (0x5B :: (u ++ [0x5D]))
  | object {ms : List (List UInt8 × Tree)} {u : List UInt8} :
      MembersText ms u → Text (.object ms) (0x7B :: (u ++ [0x7D]))

inductive ElementsText : List Tree → List UInt8 → Prop
  | nil {w : List UInt8} : Spaces w → ElementsText [] w
  | last {t : Tree} {w v w' : List UInt8} :
      Spaces w → Text t v → Spaces w' → ElementsText [t] (w ++ (v ++ w'))
  | more {t t' : Tree} {ts : List Tree} {w v w' u : List UInt8} :
      Spaces w → Text t v → Spaces w' → ElementsText (t' :: ts) u →
      ElementsText (t :: t' :: ts) (w ++ (v ++ (w' ++ 0x2C :: u)))

inductive MembersText : List (List UInt8 × Tree) → List UInt8 → Prop
  | nil {w : List UInt8} : Spaces w → MembersText [] w
  | last {k : List UInt8} {t : Tree} {w key w₁ w₂ v w' : List UInt8} :
      Spaces w → StringText k key → Spaces w₁ → Spaces w₂ → Text t v → Spaces w' →
      MembersText [(k, t)]
        (w ++ (0x22 :: (key ++ 0x22 :: (w₁ ++ 0x3A :: (w₂ ++ (v ++ w'))))))
  | more {k : List UInt8} {t : Tree} {m : List UInt8 × Tree} {ms : List (List UInt8 × Tree)}
      {w key w₁ w₂ v w' u : List UInt8} :
      Spaces w → StringText k key → Spaces w₁ → Spaces w₂ → Text t v → Spaces w' →
      MembersText (m :: ms) u →
      MembersText ((k, t) :: m :: ms)
        (w ++ (0x22 :: (key ++ 0x22 :: (w₁ ++ 0x3A :: (w₂ ++ (v ++ (w' ++ 0x2C :: u)))))))

end

/-! ### The syntax of a text -/

/-- The syntax that a text of a tree has. -/
structure Cst.Writes (c : Cst) (t : Tree) (v : List UInt8) : Prop where
  text : c.text = v
  shaped : c.Shaped false
  lexemes : ∀ x ∈ c.lexemes, x.Readable
  node : c.node = t.node

theorem Spaces.readable {w : List UInt8} (h : Spaces w) : (Lexeme.blank w).Readable :=
  @Lexeme.IsJson.readable (.blank w) h

theorem CharText.piece {c : UInt8} {t : List UInt8} (h : CharText c t) :
    ∃ p : Piece, p.text = t ∧ p.value = c ∧ (Lexeme.piece p).Readable := by
  have hescape : ∀ e, e ≠ 0x75 → (Lexeme.piece (.escape e)).Readable := fun _ he => he
  cases h with
  | raw hquote hslash => exact ⟨.plain c, rfl, rfl, hquote, hslash⟩
  | quote => exact ⟨.escape 0x22, rfl, rfl, hescape _ (by decide)⟩
  | backslash => exact ⟨.escape 0x5C, rfl, rfl, hescape _ (by decide)⟩
  | slash => exact ⟨.escape 0x2F, rfl, rfl, hescape _ (by decide)⟩
  | newline => exact ⟨.escape 0x6E, rfl, rfl, hescape _ (by decide)⟩
  | carriageReturn => exact ⟨.escape 0x72, rfl, rfl, hescape _ (by decide)⟩
  | tab => exact ⟨.escape 0x74, rfl, rfl, hescape _ (by decide)⟩

theorem StringText.pieces {val t : List UInt8} (h : StringText val t) :
    ∃ ps : List Piece, ps.flatMap Piece.text = t ∧ ps.map Piece.value = val ∧
      ∀ p ∈ ps, (Lexeme.piece p).Readable := by
  induction h with
  | nil => exact ⟨[], rfl, rfl, by simp⟩
  | cons hc _ ih =>
    obtain ⟨p, hptext, hpvalue, hp⟩ := hc.piece
    obtain ⟨ps, htext, hvalue, hps⟩ := ih
    exact ⟨p :: ps, by simp [hptext, htext], by simp [hpvalue, hvalue],
      List.forall_mem_cons.mpr ⟨hp, hps⟩⟩

/-- The number in the range of `long long` that is next to an integer. -/
def clamp (x : Int) : Int := max (-2 ^ 63) (min (2 ^ 63 - 1) x)

/-- `atoll` reads the integer that a literal writes, up to its range. -/
theorem atoll_numeral {n : Numeral} (h : (Lexeme.numeral n).Readable) (hf : n.fraction = none)
    (hx : n.exponent = none) : (atoll n.text).toInt = clamp n.value := by
  obtain ⟨-, hfits⟩ := Numeral.read_iff.mp h.2
  have htext : n.text = (if n.minus then [0x2D] else []) ++ n.digits := by
    simp [Numeral.text, hf, hx, Numeral.fractionText, Numeral.exponentText]
  have hofInt : ∀ x : Int, -2 ^ 63 ≤ x → x < 2 ^ 63 → (Int64.ofInt x).toInt = x := fun x hlow hhigh =>
    Int64.toInt_ofInt_of_le hlow hhigh
  have hnonneg : (0 : Int) ≤ decimal n.digits := Int.natCast_nonneg _
  rw [htext, atoll.eq_def, Numeral.value, clamp]
  cases n.minus with
  | true =>
    simp only [if_true, List.singleton_append]
    rw [hofInt _ (by omega) (by omega)]
    omega
  | false =>
    simp only [Bool.false_eq_true, if_false, List.nil_append]
    split
    · next digits heq =>
      have hhead := hfits.digits.1 0x2D (by rw [heq]; exact List.mem_cons_self)
      exact absurd hhead (by decide)
    · rw [hofInt _ (by omega) (by omega)]
      omega

/-- An integer that is written is converted back. -/
theorem atoll_text {v : Int64} {n : Numeral} (hjson : n.IsJson) (hf : n.fraction = none)
    (hx : n.exponent = none) (hvalue : n.value = v.toInt) : atoll n.text = v := by
  have hlow := v.le_toInt
  have hhigh := v.toInt_lt
  rw [← Int64.toInt_inj, atoll_numeral (@Lexeme.IsJson.readable (.numeral n) hjson) hf hx, hvalue,
    clamp]
  omega

/-- Values that follow others are shaped as the first are. -/
theorem Items.Shaped.next {isObject : Bool} {items : Items} (h : items.Shaped isObject false true)
    (hne : items.members ≠ []) : items.Shaped isObject false false := by
  cases items with
  | close w => exact absurd rfl hne
  | cut w => exact absurd h.1 (by decide)
  | last label w v w' => exact h
  | more label w v w' items => exact h

mutual

/-- Every text of a tree has a syntax that stands for it. -/
theorem Text.syntactic {t : Tree} {v : List UInt8} : Text t v → ∃ c : Cst, c.Writes t v
  | .null => ⟨.null, rfl, trivial, by simp [Cst.lexemes], rfl⟩
  | .true => ⟨.bool true, rfl, trivial, by simp [Cst.lexemes], rfl⟩
  | .false => ⟨.bool false, rfl, trivial, by simp [Cst.lexemes], rfl⟩
  | .int h => by
    obtain ⟨n, hjson, hf, hx, hvalue, rfl⟩ := h
    refine ⟨.number n, rfl, trivial, ?_, ?_⟩
    · simpa only [Cst.lexemes, List.forall_mem_singleton] using
        @Lexeme.IsJson.readable (.numeral n) hjson
    · rw [Cst.node, Numeral.node, hf, hx, atoll_text hjson hf hx hvalue]
      rfl
  | .string h => by
    obtain ⟨ps, rfl, rfl, hps⟩ := h.pieces
    exact ⟨.string ps, rfl, trivial, by simpa [Cst.lexemes] using hps, rfl⟩
  | .array h => by
    obtain ⟨items, htext, hshaped, hlexemes, hnodes⟩ := h.syntactic
    refine ⟨.container false items, ?_, hshaped, hlexemes, ?_⟩
    · rw [Cst.text, htext]
      rfl
    · rw [Cst.node, hnodes, Tree.node]
  | .object h => by
    obtain ⟨items, htext, hshaped, hlexemes, hnodes⟩ := h.syntactic
    refine ⟨.container true items, ?_, hshaped, hlexemes, ?_⟩
    · rw [Cst.text, htext]
      rfl
    · rw [Cst.node, hnodes, Tree.node]

theorem ElementsText.syntactic {ts : List Tree} {u : List UInt8} : ElementsText ts u →
    ∃ items : Items, items.text false = u ++ [0x5D] ∧ items.Shaped false false true ∧
      (∀ x ∈ items.lexemes, x.Readable) ∧ items.members.map Prod.snd = Tree.nodes ts
  | @ElementsText.nil w hw =>
    ⟨.close w, rfl, rfl, by simpa only [Items.lexemes, List.forall_mem_singleton] using hw.readable,
      rfl⟩
  | @ElementsText.last t w v w' hw h hw' => by
    obtain ⟨c, rfl, hshaped, hlexemes, hnode⟩ := h.syntactic
    refine ⟨.last none w c w', ?_, ⟨rfl, hshaped⟩, ?_, ?_⟩
    · simp [Items.text, labelText, closing]
    · simp only [Items.lexemes, labelLexemes, List.nil_append, List.forall_mem_cons]
      exact ⟨hw.readable, hw'.readable, hlexemes⟩
    · simp [Items.members, Tree.nodes, hnode]
  | @ElementsText.more t t' ts w v w' u hw h hw' hrest => by
    obtain ⟨c, rfl, hshaped, hlexemes, hnode⟩ := h.syntactic
    obtain ⟨items, htext, hitems, hrestLexemes, hnodes⟩ := hrest.syntactic
    have hne : items.members ≠ [] := by
      intro hnil
      simp [hnil, Tree.nodes] at hnodes
    refine ⟨.more none w c w' items, ?_, ⟨rfl, hshaped, hitems.next hne⟩, ?_, ?_⟩
    · simp [Items.text, labelText, htext]
    · simp only [Items.lexemes, labelLexemes, List.nil_append, List.forall_mem_cons,
        List.forall_mem_append]
      exact ⟨hw.readable, hw'.readable, hlexemes, hrestLexemes⟩
    · rw [Items.members, List.map_cons, hnodes, hnode]
      rfl

theorem MembersText.syntactic {ms : List (List UInt8 × Tree)} {u : List UInt8} :
    MembersText ms u →
    ∃ items : Items, items.text true = u ++ [0x7D] ∧ items.Shaped true false true ∧
      (∀ x ∈ items.lexemes, x.Readable) ∧ items.members = Tree.memberNodes ms
  | @MembersText.nil w hw =>
    ⟨.close w, rfl, rfl, by simpa only [Items.lexemes, List.forall_mem_singleton] using hw.readable,
      rfl⟩
  | @MembersText.last k t w key w₁ w₂ v w' hw hk hw₁ hw₂ h hw' => by
    obtain ⟨c, rfl, hshaped, hlexemes, hnode⟩ := h.syntactic
    obtain ⟨ps, rfl, rfl, hps⟩ := hk.pieces
    refine ⟨.last (some ⟨w, ps, w₁⟩) w₂ c w', ?_, ⟨rfl, hshaped⟩, ?_, ?_⟩
    · simp [Items.text, labelText, Label.text, stringText, closing]
    · simp only [Items.lexemes, labelLexemes, List.cons_append, List.forall_mem_cons,
        List.forall_mem_append, List.forall_mem_map]
      exact ⟨hw.readable, hw₁.readable, hps, hw₂.readable, hw'.readable, hlexemes⟩
    · simp [Items.members, labelKey, Tree.memberNodes, hnode]
  | @MembersText.more k t m ms w key w₁ w₂ v w' u hw hk hw₁ hw₂ h hw' hrest => by
    obtain ⟨c, rfl, hshaped, hlexemes, hnode⟩ := h.syntactic
    obtain ⟨ps, rfl, rfl, hps⟩ := hk.pieces
    obtain ⟨items, htext, hitems, hrestLexemes, hnodes⟩ := hrest.syntactic
    have hne : items.members ≠ [] := by
      intro hnil
      simp [hnil, Tree.memberNodes] at hnodes
    refine ⟨.more (some ⟨w, ps, w₁⟩) w₂ c w' items, ?_, ⟨rfl, hshaped, hitems.next hne⟩, ?_, ?_⟩
    · simp [Items.text, labelText, Label.text, stringText, htext]
    · simp only [Items.lexemes, labelLexemes, List.cons_append, List.forall_mem_cons,
        List.forall_mem_append, List.forall_mem_map]
      exact ⟨hw.readable, hw₁.readable, hps, hw₂.readable, hw'.readable, hlexemes, hrestLexemes⟩
    · simp [Items.members, labelKey, Tree.memberNodes, hnode, hnodes]

end

/-- A text of a tree is decoded, with blanks before it and after it. -/
theorem parse_text {t : Tree} {v w w' : List UInt8} (h : Text t v) (hw : Spaces w)
    (hw' : Spaces w') (err : String) : parse (w ++ (v ++ w')) err = (t.node, err) := by
  obtain ⟨c, rfl, hshaped, hlexemes, hnode⟩ := h.syntactic
  obtain ⟨d, u, hhead, hspace, -⟩ := text_head hlexemes
  have hskip : skip (w ++ (c.text ++ w')) = c.text ++ w' := by
    rw [hhead]
    exact (blanks_append hw.readable (stops_cons.mpr hspace)).2
  have hreads : c.Reads (skip (w ++ (c.text ++ w'))) w' := by
    refine ⟨hskip, hshaped.open, hlexemes, ?_, Or.inl hshaped⟩
    rintro n rfl
    exact numeral_append (hlexemes _ List.mem_cons_self) (blank_stops hw'.readable)
  rw [parse_reads hreads, hnode]

/-- Two members with one key, the second of them with an escape. -/
def repeatedKey : Tree := .object [([0x61], .int (-1)), ([0x61], .string [0x22, 0x2F])]

theorem repeatedKey_text : Text repeatedKey
    [0x7B, 0x22, 0x61, 0x22, 0x3A, 0x2D, 0x31, 0x2C, 0x20, 0x22, 0x61, 0x22, 0x3A, 0x22, 0x5C, 0x22,
      0x2F, 0x22, 0x7D] := by
  have hnone : Spaces [] := by simp [Spaces]
  have hkey : StringText [0x61] [0x61] := .cons (.raw (by decide) (by decide)) .nil
  have hval : StringText [0x22, 0x2F] [0x5C, 0x22, 0x2F] :=
    .cons .quote (.cons (.raw (by decide) (by decide)) .nil)
  have hint : IntText (-1) [0x2D, 0x31] := by
    refine ⟨⟨true, [0x31], none, none⟩, ⟨?_, nofun, nofun⟩, rfl, rfl, by decide, rfl⟩
    exact Or.inr ⟨0x31, [], rfl, by decide, by simp [isdigit]⟩
  exact .object (.more hnone hkey hnone hnone (.int hint) hnone
    (@MembersText.last _ _ [0x20] _ _ _ _ _ (by decide) hkey hnone hnone (.string hval) hnone))

/-- The last member of the two stays. -/
theorem parse_text_repeated :
    parse [0x0A, 0x7B, 0x22, 0x61, 0x22, 0x3A, 0x2D, 0x31, 0x2C, 0x20, 0x22, 0x61, 0x22, 0x3A, 0x22,
      0x5C, 0x22, 0x2F, 0x22, 0x7D, 0x0D, 0x0A] "" =
      (.object [([0x61], .string [0x22, 0x2F])], "") :=
  @parse_text _ _ [0x0A] [0x0D, 0x0A] repeatedKey_text (by decide) (by decide) ""

end Patrol.Json
