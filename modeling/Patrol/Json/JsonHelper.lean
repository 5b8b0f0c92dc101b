import Mathlib.Data.UInt
import Patrol.ProofKit.OrderedMap

/-! The JSON parser: the nodes, and the methods of `Parser`.  Each method takes the text `s` and the
index `pos` into it, and returns the new index.  `isspace` and `isdigit` are those of the C locale. -/

namespace Patrol.Json

open ProofKit

/-- A node.  A number with a fraction or an exponent has the characters that `atof` converts. -/
inductive JsonNode
  | null
  | bool (val : Bool)
  | int (val : Int64)
  | double (num : List UInt8)
  | string (val : List UInt8)
  | object (val : List (List UInt8 × JsonNode))
  | array (val : List JsonNode)

namespace JsonNode

def isNull : JsonNode → Bool
  | null => true
  | _ => false

def isObject : JsonNode → Bool
  | object _ => true
  | _ => false

def stringOr (n : JsonNode) (fallback : List UInt8) : List UInt8 :=
  match n with
  | string val => val
  | _ => fallback

/-- `toLong` converts the characters of a number by way of a `double`. -/
def intOr (toLong : List UInt8 → Int64) (n : JsonNode) (fallback : Int64) : Int64 :=
  match n with
  | int val => val
  | double num => toLong num
  | _ => fallback

/-- `operator[]`. -/
def get (n : JsonNode) (key : List UInt8) : JsonNode :=
  match n with
  | object val => (val.lookup key).getD null
  | _ => null

end JsonNode

/-- What ends the parsing.  `outOfRange` comes from `substr`, `wrapped` marks a subtraction of sizes
that goes below zero, and `fuel` the end of the recursion's fuel. -/
inductive Throw
  | runtimeError (what : String)
  | outOfRange
  | wrapped
  | fuel
deriving DecidableEq, Repr

def Throw.what : Throw → String
  | runtimeError what => what
  | outOfRange => "basic_string::substr"
  | wrapped => "wrapped"
  | fuel => "fuel"

def isspace (c : UInt8) : Bool := c == 0x20 || (0x09 ≤ c && c ≤ 0x0D)

def isdigit (c : UInt8) : Bool := 0x30 ≤ c && c ≤ 0x39

/-- `a - b` of sizes. -/
def sizeSub (a b : Nat) : Except Throw Nat :=
  if b ≤ a then .ok (a - b) else .error .wrapped

def substr (s : List UInt8) (pos n : Nat) : Except Throw (List UInt8) :=
  if pos ≤ s.length then .ok ((s.drop pos).take n) else .error .outOfRange

/-- The number that decimal digits write. -/
def decimal (digits : List UInt8) : Nat :=
  digits.foldl (fun n c => 10 * n + (c.toNat - 48)) 0

/-- `atoll` on a minus sign or none and digits; it stops at the ends of its range. -/
def atoll (num : List UInt8) : Int64 :=
  match num with
  | 0x2D :: digits => Int64.ofInt (max (-2 ^ 63) (-decimal digits))
  | digits => Int64.ofInt (min (2 ^ 63 - 1) (decimal digits))

/-- The character that an escape stands for. -/
def unescape (e : UInt8) : UInt8 :=
  if e == 0x6E then 0x0A
  else if e == 0x72 then 0x0D
  else if e == 0x74 then 0x09
  else e

namespace Parser

variable (s : List UInt8)

/-- `while (pos_ < s_.size() && p(s_[pos_])) ++pos_`, with `left` characters from `pos_` on. -/
def skipWhile (p : UInt8 → Bool) : (left pos : Nat) → Nat
  | 0, pos => pos
  | left + 1, pos => if p (s.getD pos 0) then skipWhile p left (pos + 1) else pos

def skipWs (pos : Nat) : Nat := skipWhile s isspace (s.length - pos) pos

def skipDigits (pos : Nat) : Nat := skipWhile s isdigit (s.length - pos) pos

def peek (pos : Nat) : UInt8 := if pos < s.length then s.getD pos 0 else 0

def consume (pos : Nat) : UInt8 × Nat := if pos < s.length then (s.getD pos 0, pos + 1) else (0, pos)

def expect (c : UInt8) (pos : Nat) : Except Throw Nat :=
  let pos := skipWs s pos
  if peek s pos != c then
    .error (.runtimeError ("expected " ++ String.singleton (Char.ofNat c.toNat)))
  else .ok (pos + 1)

/-- The loop of an escape `u`. -/
def consumeUpTo : Nat → Nat → Nat
  | 0, pos => pos
  | n + 1, pos => if pos < s.length then consumeUpTo n (consume s pos).2 else pos

/-- The loop of `parseString`, with at most `left` characters from `pos` on. -/
def stringLoop : (left pos : Nat) → List UInt8 → List UInt8 × Nat
  | 0, pos, r => (r, pos)
  | left + 1, pos, r =>
    if pos < s.length && peek s pos != 0x22 then
      let (c, pos) := consume s pos
      if c == 0x5C then
        let (e, pos) := consume s pos
        if e == 0x75 then stringLoop left (consumeUpTo s 4 pos) (r ++ [0x3F])
        else stringLoop left pos (r ++ [unescape e])
      else stringLoop left pos (r ++ [c])
    else (r, pos)

def parseString (pos : Nat) : Except Throw (List UInt8 × Nat) := do
  let pos ← expect s 0x22 pos
  let (r, pos) := stringLoop s (s.length - pos) pos []
  let pos ← expect s 0x22 pos
  .ok (r, pos)

def parseNumber (pos : Nat) : Except Throw (JsonNode × Nat) := do
  let start := pos
  let pos := if peek s pos == 0x2D then pos + 1 else pos
  let pos := skipDigits s pos
  let (flt, pos) := if peek s pos == 0x2E then (true, skipDigits s (pos + 1)) else (false, pos)
  let (flt, pos) :=
    if peek s pos == 0x65 || peek s pos == 0x45 then
      let pos := pos + 1
      let pos := if peek s pos == 0x2B || peek s pos == 0x2D then pos + 1 else pos
      (true, skipDigits s pos)
    else (flt, pos)
  let num ← substr s start (← sizeSub pos start)
  .ok (if flt then .double num else .int (atoll num), pos)

/-- `s_.size()-pos_>=n && s_.substr(pos_,n)==word` for a word of `n` characters. -/
def isWord (word : List UInt8) (pos : Nat) : Except Throw Bool := do
  if word.length ≤ (← sizeSub s.length pos) then
    .ok ((← substr s pos word.length) == word)
  else .ok false

def parseBool (pos : Nat) : Except Throw (JsonNode × Nat) := do
  if ← isWord s [0x74, 0x72, 0x75, 0x65] pos then .ok (.bool true, pos + 4)
  else if ← isWord s [0x66, 0x61, 0x6C, 0x73, 0x65] pos then .ok (.bool false, pos + 5)
  else .error (.runtimeError "expected bool")

def parseNull (pos : Nat) : Except Throw Nat := do
  if ← isWord s [0x6E, 0x75, 0x6C, 0x6C] pos then .ok (pos + 4)
  else .error (.runtimeError "expected null")

mutual

def parseValue : (fuel pos : Nat) → Except Throw (JsonNode × Nat)
  | 0, _ => .error .fuel
  | fuel + 1, pos =>
    let pos := skipWs s pos
    let c := peek s pos
    if c == 0x22 then do
      let (r, pos) ← parseString s pos
      .ok (.string r, pos)
    else if c == 0x7B then parseObject fuel pos
    else if c == 0x5B then parseArray fuel pos
    else if c == 0x74 || c == 0x66 then parseBool s pos
    else if c == 0x6E then do
      let pos ← parseNull s pos
      .ok (.null, pos)
    else if c == 0x2D || isdigit c then parseNumber s pos
    else .error (.runtimeError "unexpected char")
termination_by structural fuel => fuel

def parseObject : (fuel pos : Nat) → Except Throw (JsonNode × Nat)
  | 0, _ => .error .fuel
  | fuel + 1, pos => do
    let pos ← expect s 0x7B pos
    let pos := skipWs s pos
    if peek s pos == 0x7D then .ok (.object [], pos + 1)
    else objectLoop fuel pos []
termination_by structural fuel => fuel

/-- The loop of `parseObject`, with the entries so far. -/
def objectLoop : (fuel pos : Nat) → List (List UInt8 × JsonNode) → Except Throw (JsonNode × Nat)
  | 0, _, _ => .error .fuel
  | fuel + 1, pos, entries =>
    if pos < s.length then do
      let pos := skipWs s pos
      if peek s pos != 0x22 then .error (.runtimeError "expected key")
      else
        let (k, pos) ← parseString s pos
        let pos ← expect s 0x3A pos
        let (v, pos) ← parseValue fuel pos
        let entries := OrderedMap.insert k v entries
        let pos := skipWs s pos
        if peek s pos == 0x2C then objectLoop fuel (pos + 1) entries
        else if peek s pos == 0x7D then .ok (.object entries, pos + 1)
        else .error (.runtimeError "expected , or \x7d")
    else .ok (.object entries, pos)
termination_by structural fuel => fuel

def parseArray : (fuel pos : Nat) → Except Throw (JsonNode × Nat)
  | 0, _ => .error .fuel
  | fuel + 1, pos => do
    let pos ← expect s 0x5B pos
    let pos := skipWs s pos
    if peek s pos == 0x5D then .ok (.array [], pos + 1)
    else arrayLoop fuel pos []
termination_by structural fuel => fuel

/-- The loop of `parseArray`, with the elements so far. -/
def arrayLoop : (fuel pos : Nat) → List JsonNode → Except Throw (JsonNode × Nat)
  | 0, _, _ => .error .fuel
  | fuel + 1, pos, elements =>
    if pos < s.length then do
      let (v, pos) ← parseValue fuel pos
      let elements := elements ++ [v]
      let pos := skipWs s pos
      if peek s pos == 0x2C then arrayLoop fuel (pos + 1) elements
      else if peek s pos == 0x5D then .ok (.array elements, pos + 1)
      else .error (.runtimeError "expected , or ]")
    else .ok (.array elements, pos)
termination_by structural fuel => fuel

end

/-- `Parser::parse`.  The fuel is enough for every text. -/
def parse : Except Throw JsonNode := do
  let pos := skipWs s 0
  let (n, _) ← parseValue s (3 * s.length + 1) pos
  .ok n

end Parser

/-- `json::parse`: the node, and the text of the error. -/
def parse (input : List UInt8) (err : String) : JsonNode × String :=
  match Parser.parse input with
  | .ok n => (n, err)
  | .error e => (.null, e.what)

end Patrol.Json
