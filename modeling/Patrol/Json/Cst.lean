import Patrol.Json.JsonHelper

/-! The concrete syntax of JSON texts: a value with the blanks, escapes and digits that stand in the
text.  It has room for what the parser lets pass and JSON does not. -/

namespace Patrol.Json

open ProofKit

/-! ### Lexemes -/

/-- A piece of a string: a character, an escape, or an escape `u` with four characters. -/
inductive Piece
  | plain (c : UInt8)
  | escape (e : UInt8)
  | unicode (a b c d : UInt8)
deriving DecidableEq, Repr

namespace Piece

def text : Piece → List UInt8
  | plain c => [c]
  | escape e => [0x5C, e]
  | unicode a b c d => [0x5C, 0x75, a, b, c, d]

/-- The character that the parser makes of a piece. -/
def value : Piece → UInt8
  | plain c => c
  | escape e => unescape e
  | unicode _ _ _ _ => 0x3F

end Piece

/-- A number: its sign, its digits, those of its fraction, and the letter, the sign and the digits of
its exponent. -/
structure Numeral where
  minus : Bool
  digits : List UInt8
  fraction : Option (List UInt8)
  exponent : Option (UInt8 × List UInt8 × List UInt8)
deriving DecidableEq, Repr

namespace Numeral

def fractionText : Option (List UInt8) → List UInt8
  | none => []
  | some digits => 0x2E :: digits

def exponentText : Option (UInt8 × List UInt8 × List UInt8) → List UInt8
  | none => []
  | some (e, sign, digits) => e :: (sign ++ digits)

def text (n : Numeral) : List UInt8 :=
  (if n.minus then [0x2D] else []) ++
    (n.digits ++ (fractionText n.fraction ++ exponentText n.exponent))

def node (n : Numeral) : JsonNode :=
  if n.fraction.isSome || n.exponent.isSome then .double n.text else .int (atoll n.text)

def readFraction (i : List UInt8) : Option (List UInt8) × List UInt8 :=
  if i.head? = some 0x2E then (some (i.tail.takeWhile isdigit), i.tail.dropWhile isdigit)
  else (none, i)

def readExponent (i : List UInt8) : Option (UInt8 × List UInt8 × List UInt8) × List UInt8 :=
  match i with
  | [] => (none, [])
  | e :: i =>
    if e = 0x65 ∨ e = 0x45 then
      if i.head? = some 0x2B ∨ i.head? = some 0x2D then
        (some (e, i.take 1, i.tail.takeWhile isdigit), i.tail.dropWhile isdigit)
      else (some (e, [], i.takeWhile isdigit), i.dropWhile isdigit)
    else (none, e :: i)

/-- The longest number that a text begins with, and what comes after it. -/
def read (i : List UInt8) : Numeral × List UInt8 :=
  let minus := decide (i.head? = some 0x2D)
  let i := if minus then i.tail else i
  let digits := i.takeWhile isdigit
  let (fraction, i) := readFraction (i.dropWhile isdigit)
  let (exponent, i) := readExponent i
  (⟨minus, digits, fraction, exponent⟩, i)

end Numeral

/-- What JSON has between its tokens. -/
def isBlank (c : UInt8) : Bool := c == 0x20 || c == 0x09 || c == 0x0A || c == 0x0D

def isxdigit (c : UInt8) : Bool := isdigit c || (0x41 ≤ c && c ≤ 0x46) || (0x61 ≤ c && c ≤ 0x66)

/-- The parts of a text in which the parser is more liberal than JSON. -/
inductive Lexeme
  | blank (w : List UInt8)
  | piece (p : Piece)
  | numeral (n : Numeral)

/-- A lexeme that the parser takes. -/
def Lexeme.Readable : Lexeme → Prop
  | blank w => ∀ c ∈ w, isspace c = true
  | piece (.plain c) => c ≠ 0x22 ∧ c ≠ 0x5C
  | piece (.escape e) => e ≠ 0x75
  | piece (.unicode _ _ _ _) => True
  | numeral n => (n.minus = true ∨ n.digits ≠ []) ∧ Numeral.read n.text = (n, [])

/-- A number as JSON has it: no zero before other digits, and a digit wherever there must be one. -/
structure Numeral.IsJson (n : Numeral) : Prop where
  digits : n.digits = [0x30] ∨ ∃ d ds, n.digits = d :: ds ∧ d ≠ 0x30 ∧ ∀ c ∈ d :: ds, isdigit c = true
  fraction : ∀ ds ∈ n.fraction, ds ≠ [] ∧ ∀ c ∈ ds, isdigit c = true
  exponent : ∀ x ∈ n.exponent, (x.1 = 0x65 ∨ x.1 = 0x45) ∧
    (x.2.1 = [] ∨ x.2.1 = [0x2B] ∨ x.2.1 = [0x2D]) ∧ x.2.2 ≠ [] ∧ ∀ c ∈ x.2.2, isdigit c = true

/-- A lexeme of JSON. -/
def Lexeme.IsJson : Lexeme → Prop
  | blank w => ∀ c ∈ w, isBlank c = true
  | piece (.plain c) => 0x20 ≤ c ∧ c ≠ 0x22 ∧ c ≠ 0x5C
  | piece (.escape e) => e ∈ [0x22, 0x5C, 0x2F, 0x62, 0x66, 0x6E, 0x72, 0x74]
  | piece (.unicode a b c d) => ∀ x ∈ [a, b, c, d], isxdigit x = true
  | numeral n => n.IsJson

/-! ### Values -/

/-- The key of a member, with the blanks before it and before its colon. -/
structure Label where
  before : List UInt8
  key : List Piece
  after : List UInt8

mutual

inductive Cst
  | null
  | bool (b : Bool)
  | number (n : Numeral)
  | string (ps : List Piece)
  | container (isObject : Bool) (items : Items)

/-- What stands after an opening bracket: the closing one, or the end of the text, or values with the
blanks around them, those of an object with a label. -/
inductive Items
  | close (w : List UInt8)
  | cut (w : List UInt8)
  | last (label : Option Label) (w : List UInt8) (v : Cst) (w' : List UInt8)
  | more (label : Option Label) (w : List UInt8) (v : Cst) (w' : List UInt8) (items : Items)

end

def stringText (ps : List Piece) : List UInt8 := 0x22 :: (ps.flatMap Piece.text ++ [0x22])

def Label.text (l : Label) : List UInt8 := l.before ++ (stringText l.key ++ (l.after ++ [0x3A]))

def labelText : Option Label → List UInt8
  | none => []
  | some l => l.text

def labelKey : Option Label → List UInt8
  | none => []
  | some l => l.key.map Piece.value

def labelLexemes : Option Label → List Lexeme
  | none => []
  | some l => .blank l.before :: .blank l.after :: l.key.map .piece

def opening (isObject : Bool) : UInt8 := if isObject then 0x7B else 0x5B

def closing (isObject : Bool) : UInt8 := if isObject then 0x7D else 0x5D

mutual

def Cst.text : Cst → List UInt8
  | .null => [0x6E, 0x75, 0x6C, 0x6C]
  | .bool true => [0x74, 0x72, 0x75, 0x65]
  | .bool false => [0x66, 0x61, 0x6C, 0x73, 0x65]
  | .number n => n.text
  | .string ps => stringText ps
  | .container isObject items => opening isObject :: items.text isObject

def Items.text (isObject : Bool) : Items → List UInt8
  | .close w => w ++ [closing isObject]
  | .cut w => w
  | .last label w v w' => labelText label ++ (w ++ (v.text ++ (w' ++ [closing isObject])))
  | .more label w v w' items =>
    labelText label ++ (w ++ (v.text ++ (w' ++ 0x2C :: items.text isObject)))

end

/-- The entries of an object, of which the last for a key stays. -/
def entriesOf (members : List (List UInt8 × JsonNode)) : List (List UInt8 × JsonNode) :=
  members.foldl (fun entries m => OrderedMap.insert m.1 m.2 entries) []

mutual

def Cst.node : Cst → JsonNode
  | .null => .null
  | .bool b => .bool b
  | .number n => n.node
  | .string ps => .string (ps.map Piece.value)
  | .container true items => .object (entriesOf items.members)
  | .container false items => .array (items.members.map Prod.snd)

/-- The keys and the nodes of the values, in their order. -/
def Items.members : Items → List (List UInt8 × JsonNode)
  | .close _ => []
  | .cut _ => []
  | .last label _ v _ => [(labelKey label, v.node)]
  | .more label _ v _ items => (labelKey label, v.node) :: items.members

end

mutual

def Cst.lexemes : Cst → List Lexeme
  | .null => []
  | .bool _ => []
  | .number n => [.numeral n]
  | .string ps => ps.map .piece
  | .container _ items => items.lexemes

def Items.lexemes : Items → List Lexeme
  | .close w => [.blank w]
  | .cut w => [.blank w]
  | .last label w v w' => labelLexemes label ++ (.blank w :: .blank w' :: v.lexemes)
  | .more label w v w' items =>
    labelLexemes label ++ (.blank w :: .blank w' :: (v.lexemes ++ items.lexemes))

end

mutual

/-- The values of an object are those with a label, the closing bracket does not follow a comma, and
no bracket is left open.  With `cut` the text may end right after the opening bracket, where blanks
may follow it, or right after a comma of the outermost value. -/
def Cst.Shaped (cut : Bool) : Cst → Prop
  | .container isObject items => items.Shaped isObject cut true
  | _ => True

def Items.Shaped (isObject cut first : Bool) : Items → Prop
  | .close _ => first = true
  | .cut w => cut = true ∧ (first = true ∨ w = [])
  | .last label _ v _ => label.isSome = isObject ∧ v.Shaped false
  | .more label _ v _ items =>
    label.isSome = isObject ∧ v.Shaped false ∧ items.Shaped isObject cut false

end

end Patrol.Json
