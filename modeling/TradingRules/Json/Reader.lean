import TradingRules.Number.Numeral
import TradingRules.Text.Surrogate
import TradingRules.Value.Fault

/-!
# Reading JSON

A recursive descent over the characters of a text. Beyond the standard, the words for NaN and the
infinities are numbers. Whole numbers are read exactly, unless they have too many digits; a number
with a point or an exponent is the nearest double. Of two fields with one name the later value takes
the earlier place. Half of a surrogate pair that is escaped on its own is kept as it is. An error
names what was expected and where; a text whose lists and objects are nested too deeply is given up.
-/

namespace TradingRules.Json

/-- The characters that are left, and how many are before them. -/
structure Cursor where
  rest : List Char
  offset : Nat

inductive Complaint where
  | expected (detail : String) (offset : Nat)
  /-- A whole number has more digits than are read. -/
  | tooLong (digits : Nat)
  | tooDeep (container : String)

namespace Cursor

def advance (c : Cursor) (n : Nat) : Cursor :=
  ⟨c.rest.drop n, c.offset + n⟩

def skipBlanks (c : Cursor) : Cursor :=
  c.advance (c.rest.takeWhile fun x => x == ' ' || x == '\t' || x == '\n' || x == '\r').length

def startsWith (c : Cursor) (word : String) : Bool :=
  word.toList.isPrefixOf c.rest

def complain {α : Type} (c : Cursor) (detail : String) : Except Complaint α :=
  .error (.expected detail c.offset)

end Cursor

def hexValue? (c : Char) : Option Nat :=
  if c.isDigit then some (c.toNat - '0'.toNat)
  else if 'a' ≤ c && c ≤ 'f' then some (c.toNat - 'a'.toNat + 10)
  else if 'A' ≤ c && c ≤ 'F' then some (c.toNat - 'A'.toNat + 10)
  else none

def hexUnit? (s : List Char) : Option Nat :=
  if s.length < 4 then none
  else (s.take 4).foldl (fun acc c => do return 16 * (← acc) + (← hexValue? c)) (some 0)

def escapeLetter? : Char → Option Char
  | '"' => some '"'
  | '\\' => some '\\'
  | '/' => some '/'
  | 'b' => some '\x08'
  | 'f' => some '\x0c'
  | 'n' => some '\n'
  | 'r' => some '\r'
  | 't' => some '\t'
  | _ => none

/-- An escape of four digits after its letter, perhaps followed by the other half of a pair: the
character and the number of characters read. The cursor stands at the letter. -/
def readUnit (c : Cursor) : Except Complaint (Char × Nat) :=
  let digits := c.rest.drop 1
  if digits.length ≤ 4 then c.complain "Invalid \\uXXXX escape"
  else
    match hexUnit? digits with
    | none => c.complain "Invalid \\uXXXX escape"
    | some high =>
      let after := digits.drop 4
      if 0xd800 ≤ high ∧ high < 0xdc00 ∧ 6 < after.length ∧ after.take 2 = ['\\', 'u'] then
        match hexUnit? (after.drop 2) with
        | none => (c.advance 6).complain "Invalid \\uXXXX escape"
        | some low =>
          if 0xdc00 ≤ low ∧ low < 0xe000 then .ok (Text.joinPair high low, 11)
          else .ok (Text.unitChar high, 5)
      else .ok (Text.unitChar high, 5)

/-- The characters of a text up to its closing quote; `start` is the offset of the opening one and
`acc` holds what was read, last first. -/
def readChars (start : Nat) : Nat → Cursor → List Char → Except Complaint (List Char × Cursor)
  | 0, _, _ => .error (.expected "Unterminated string starting at" start)
  | fuel + 1, c, acc =>
    match c.rest with
    | [] => .error (.expected "Unterminated string starting at" start)
    | '"' :: _ => .ok (acc.reverse, c.advance 1)
    | '\\' :: [] => .error (.expected "Unterminated string starting at" start)
    | '\\' :: 'u' :: _ => do
      let (x, n) ← readUnit (c.advance 1)
      readChars start fuel (c.advance (1 + n)) (x :: acc)
    | '\\' :: x :: _ =>
      match escapeLetter? x with
      | some y => readChars start fuel (c.advance 2) (y :: acc)
      | none => c.complain "Invalid \\escape"
    | x :: _ =>
      if x.toNat ≤ 0x1f then c.complain "Invalid control character at"
      else readChars start fuel (c.advance 1) (x :: acc)

/-- A text; the cursor stands behind its opening quote. -/
def readText (c : Cursor) : Except Complaint (String × Cursor) := do
  let (chars, c) ← readChars (c.offset - 1) (c.rest.length + 1) c []
  return (String.ofList chars, c)

def digitsOf (s : List Char) : List Char :=
  s.takeWhile Char.isDigit

/-- The fraction at the front, with its point, if digits follow it. -/
def fractionOf : List Char → List Char
  | '.' :: rest => if (digitsOf rest).isEmpty then [] else '.' :: digitsOf rest
  | _ => []

/-- The exponent at the front, with its mark and sign, if digits follow them. -/
def exponentOf : List Char → List Char
  | mark :: rest =>
    if mark = 'e' || mark = 'E' then
      let sign := rest.takeWhile (fun c => c == '+' || c == '-') |>.take 1
      let digits := digitsOf (rest.drop sign.length)
      if digits.isEmpty then [] else mark :: sign ++ digits
    else []
  | [] => []

def readNumber? (c : Cursor) : Except Complaint (Option (Value × Cursor)) :=
  let sign := c.rest.takeWhile (· == '-') |>.take 1
  let body := c.rest.drop sign.length
  let whole := if body.head? = some '0' then ['0'] else digitsOf body
  let fraction := fractionOf (body.drop whole.length)
  let exponent := exponentOf (body.drop (whole.length + fraction.length))
  let text := sign ++ whole ++ fraction ++ exponent
  let after := c.advance text.length
  if whole.isEmpty then .ok none
  else if !(fraction.isEmpty && exponent.isEmpty) then
    .ok (some (.real ((Number.readFloat? (String.ofList text)).getD nan), after))
  else if whole.length > Number.maxWholeDigits then .error (.tooLong whole.length)
  else
    let n : Int := Number.ofDigits whole
    .ok (some (.int (if sign.isEmpty then n else -n), after))

/-- How deep containers may be nested. The bound is what the calls around the reader leave of the
recursion limit, so the number holds for one depth of these calls only; no other depth is
modelled. -/
def maxNesting : Nat := 985

def words : List (String × Value) :=
  [("null", .null), ("true", .bool true), ("false", .bool false), ("NaN", .undefined 0),
    ("Infinity", .real (1.0 / 0.0)), ("-Infinity", .real (-1.0 / 0.0))]

def readScalar (c : Cursor) : Except Complaint (Value × Cursor) :=
  match words.find? fun w => c.startsWith w.1 with
  | some (word, value) => .ok (value, c.advance word.length)
  | none => do match ← readNumber? c with
    | some result => return result
    | none => c.complain "Expecting value"

mutual

/-- A value at the cursor, in which containers may be nested as deep as the second number says. -/
def readValue : Nat → Nat → Cursor → Except Complaint (Value × Cursor)
  | 0, _, c => c.complain "Expecting value"
  | fuel + 1, depth, c =>
    match c.rest, depth with
    | '"' :: _, _ => do
      let (s, c) ← readText (c.advance 1)
      return (.text s, c)
    | '\x7b' :: _, 0 => .error (.tooDeep "object")
    | '[' :: _, 0 => .error (.tooDeep "array")
    | '\x7b' :: _, depth + 1 => do
      let c := (c.advance 1).skipBlanks
      if c.rest.head? = some '\x7d' then return (.object [], c.advance 1)
      let (fields, c) ← readFields fuel depth c []
      return (.object fields, c)
    | '[' :: _, depth + 1 => do
      let c := (c.advance 1).skipBlanks
      if c.rest.head? = some ']' then return (.list [], c.advance 1)
      let (items, c) ← readItems fuel depth c []
      return (.list items, c)
    | _, _ => readScalar c

/-- The items of a list up to its bracket; `acc` holds those read, last first. -/
def readItems : Nat → Nat → Cursor → List Value → Except Complaint (List Value × Cursor)
  | 0, _, c, _ => c.complain "Expecting value"
  | fuel + 1, depth, c, acc => do
    let (x, c) ← readValue fuel depth c
    let c := c.skipBlanks
    match c.rest with
    | ']' :: _ => return ((x :: acc).reverse, c.advance 1)
    | ',' :: _ => readItems fuel depth (c.advance 1).skipBlanks (x :: acc)
    | _ => c.complain "Expecting ',' delimiter"

/-- The fields of an object up to its brace, added to those read before. -/
def readFields : Nat → Nat → Cursor → Fields → Except Complaint (Fields × Cursor)
  | 0, _, c, _ => c.complain "Expecting value"
  | fuel + 1, depth, c, acc => do
    if c.rest.head? ≠ some '"' then
      c.complain "Expecting property name enclosed in double quotes"
    let (key, c) ← readText (c.advance 1)
    let c := c.skipBlanks
    if c.rest.head? ≠ some ':' then c.complain "Expecting ':' delimiter"
    let (x, c) ← readValue fuel depth (c.advance 1).skipBlanks
    let c := c.skipBlanks
    let acc := acc.set key x
    match c.rest with
    | '\x7d' :: _ => return (acc, c.advance 1)
    | ',' :: _ => readFields fuel depth (c.advance 1).skipBlanks acc
    | _ => c.complain "Expecting ',' delimiter"

end

def Complaint.locate (text : List Char) : Complaint → JsonError
  | expected detail offset =>
    let before := text.take offset
    .malformed detail ((before.filter (· == '\n')).length + 1)
      ((before.reverse.takeWhile (· != '\n')).length + 1) offset
  | tooLong digits => .tooLong digits
  | tooDeep container => .tooDeep container

/-- Reads a text that holds one value and nothing else but blanks. -/
def readChecked (chars : List Char) : Except Complaint Value := do
  if chars.head? = some (Char.ofNat 0xfeff) then
    .error (.expected "Unexpected UTF-8 BOM (decode using utf-8-sig)" 0)
  let (value, c) ← readValue (2 * chars.length + 2) maxNesting (Cursor.mk chars 0).skipBlanks
  let c := c.skipBlanks
  if c.rest.isEmpty then return value else c.complain "Extra data"

def read (s : String) : Except JsonError Value :=
  (readChecked s.toList).mapError (Complaint.locate s.toList)

end TradingRules.Json
