import TradingRules.Number.Binary
import TradingRules.Text.Character

/-!
# Reading numerals

The grammar of whole and decimal numerals typed by people: white space around them, a sign, digits
of any script, single underscores between digits, and for decimal numerals a point, an exponent or
one of the words for infinity and NaN. A decimal numeral denotes the nearest double.
-/

namespace TradingRules.Number

/-- The digits of every script in ASCII form, blanks of every script as a space. A character with
no place in a numeral becomes a question mark. -/
def normalizeNumeral (s : List Char) : List Char :=
  s.map fun c =>
    if c.toNat < 0x7f then c
    else if Text.isBlank c then ' '
    else match Text.decimalValue? c with
      | some d => Char.ofNat ('0'.toNat + d)
      | none => '?'

def trimNumeral (s : List Char) : List Char :=
  Text.trimWhere Text.isNumeralBlank (normalizeNumeral s)

/-- Removes underscores; each must stand between two digits. `prior` is the character before. -/
def dropUnderscores (prior : Char) : List Char → Option (List Char)
  | [] => if prior = '_' then none else some []
  | c :: rest =>
    if c = '_' then if prior.isDigit then dropUnderscores c rest else none
    else if prior = '_' && !c.isDigit then none
    else (dropUnderscores c rest).map (c :: ·)

/-- Splits an optional sign off; `true` stands for minus. -/
def splitSign : List Char → Bool × List Char
  | '-' :: rest => (true, rest)
  | '+' :: rest => (false, rest)
  | rest => (false, rest)

def ofDigits (digits : List Char) : Nat :=
  digits.foldl (fun n c => 10 * n + (c.toNat - '0'.toNat)) 0

def maxWholeDigits : Nat := 4300

inductive WholeError
  | malformed
  | tooLong (digits : Nat)
  deriving DecidableEq, Repr

def tooLongMessage (digits : Nat) : String :=
  s!"Exceeds the limit ({maxWholeDigits} digits) for integer string conversion: " ++
    s!"value has {digits} digits; use sys.set_int_max_str_digits() to increase the limit"

def readWhole (s : String) : Except WholeError Int :=
  let (negative, body) := splitSign (trimNumeral s.toList)
  match dropUnderscores ' ' body with
  | some digits =>
    if digits.isEmpty || !digits.all Char.isDigit then .error .malformed
    else if digits.length > maxWholeDigits then .error (.tooLong digits.length)
    else
      let n : Int := ofDigits digits
      .ok (if negative then -n else n)
  | none => .error .malformed

/-- The double nearest to `± digits * 10 ^ exponent`. -/
def nearestDecimal (negative : Bool) (digits : Nat) (exponent : Int) : Float :=
  let point : Int := (Nat.toDigits 10 digits).length + exponent
  if digits = 0 ∨ point < -330 then nearestFloat negative 0 1
  else if point > 330 then nearestFloat negative (Nat.pow 10 400) 1
  else nearestFloat negative (digits * Nat.pow 10 exponent.toNat) (Nat.pow 10 (-exponent).toNat)

/-- Reads an exponent after its mark: a sign and at least one digit, up to the end. -/
def readExponent (s : List Char) : Option Int :=
  let (negative, digits) := splitSign s
  if digits.isEmpty || !digits.all Char.isDigit then none
  else some (if negative then -(ofDigits digits : Int) else ofDigits digits)

/-- Reads digits with an optional point and exponent, without sign and underscores. -/
def readUnsigned (negative : Bool) (s : List Char) : Option Float :=
  let (whole, rest) := s.span Char.isDigit
  let (fraction, rest) := match rest with
    | '.' :: rest => rest.span Char.isDigit
    | rest => ([], rest)
  if whole.isEmpty && fraction.isEmpty then none
  else
    let digits := ofDigits (whole ++ fraction)
    let value (e : Int) := nearestDecimal negative digits (e - fraction.length)
    match rest with
    | [] => some (value 0)
    | c :: rest => if c = 'e' || c = 'E' then (readExponent rest).map value else none

def readFloat? (s : String) : Option Float :=
  (dropUnderscores ' ' (trimNumeral s.toList)).bind fun body =>
    let (negative, magnitude) := splitSign body
    let word := String.ofList (magnitude.map Char.toLower)
    if word = "inf" || word = "infinity" then some (nearestFloat negative (Nat.pow 10 400) 1)
    else if word = "nan" then some (0.0 / 0.0)
    else readUnsigned negative magnitude

end TradingRules.Number
