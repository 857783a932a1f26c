import TradingRules.Number.Numeral
import TradingRules.Value.Fault

/-!
# Arithmetic on values

Whole numbers are added, subtracted and multiplied exactly. As soon as a double takes part, both
operands are doubles; a quotient is always a double. Texts that are read as numbers follow the
grammar of `Number.Numeral`.
-/

namespace TradingRules.Value

def Numeric.toFloat : Numeric → Outcome Float
  | .whole n => match Number.floatOfInt? n with
    | some x => .ok x
    | none => .error .tooLargeForFloat
  | .double x => .ok x

/-- A whole number, a double, or a text that is read as a decimal numeral. -/
def toFloat (v : Value) : Outcome Float :=
  match v.numeric?, v with
  | some n, _ => n.toFloat
  | none, text s => match Number.readFloat? s with
    | some x => .ok x
    | none => .error (.badValue s!"could not convert string to float: {Text.quoted s}")
  | none, v => .error (.wrongKind
      s!"float() argument must be a string or a real number, not '{v.kindName}'")

def clip (n : Nat) (s : String) : String :=
  String.ofList (s.toList.take n)

def wholeFault (s : String) : Number.WholeError → Fault
  | .malformed => .badValue
      s!"invalid literal for int() with base 10: {clip 200 (Text.quoted s)}"
  | .tooLong digits => .badValue (Number.tooLongMessage digits)

def nanToInt : Fault :=
  .badValue "cannot convert float NaN to integer"

/-- A whole number, a double without its fraction, or a text that is read as a whole numeral. -/
def toInt (v : Value) : Outcome Int :=
  match v with
  | undefined _ => .error nanToInt
  | int n => .ok n
  | bool b => .ok (if b then 1 else 0)
  | real x => match Number.truncate? x with
    | some n => .ok n
    | none =>
      if x.isNaN then .error nanToInt
      else .error (.overflow "cannot convert float infinity to integer")
  | text s => match Number.readWhole s with
    | .ok n => .ok n
    | .error e => .error (wholeFault s e)
  | v => .error (.wrongKind ("int() argument must be a string, a bytes-like object " ++
      s!"or a real number, not '{v.kindName}'"))

/-- The least number that does not fit into a signed word of 64 bits. -/
def wordBound : Int := 0x8000000000000000

/-- A value as the bound of a buffer, which has to fit into a signed word. -/
def toBound (v : Value) : Outcome Nat :=
  match v with
  | bool b => .ok (if b then 1 else 0)
  | int n =>
    if n < -wordBound ∨ wordBound ≤ n then
      .error (.overflow "Python int too large to convert to C ssize_t")
    else if n < 0 then .error (.badValue "maxlen must be non-negative")
    else .ok n.toNat
  | _ => .error (.wrongKind "an integer is required")

inductive Comparison where
  | less | lessEqual | greater | greaterEqual
  deriving DecidableEq, Repr

namespace Comparison

def sign : Comparison → String
  | less => "<"
  | lessEqual => "<="
  | greater => ">"
  | greaterEqual => ">="

def holds : Comparison → Ordering → Bool
  | less, o => o == .lt
  | lessEqual, o => o != .gt
  | greater, o => o == .gt
  | greaterEqual, o => o != .lt

end Comparison

mutual

/-- Compares numbers by value, texts by code points and lists at the first items that differ. -/
def compareBy (c : Comparison) : Value → Value → Outcome Bool
  | list xs, b => match b with
    | list ys => compareLists c xs ys
    | b => .error (.notComparable c.sign (list xs) b)
  | text s, b => match b with
    | text t => .ok (c.holds (Text.compareTexts s t))
    | b => .error (.notComparable c.sign (text s) b)
  | a, b => match a.numeric?, b.numeric? with
    | some x, some y => .ok (match x.compare y with
      | some o => c.holds o
      | none => false)
    | _, _ => .error (.notComparable c.sign a b)

/-- Compares lists at the first items that differ, else by length. -/
def compareLists (c : Comparison) : List Value → List Value → Outcome Bool
  | [], ys => .ok (c.holds (if ys.isEmpty then .eq else .lt))
  | x :: xs, ys => match ys with
    | [] => .ok (c.holds .gt)
    | y :: rest => if isSame x y then compareLists c xs rest else compareBy c x y

end

/-- An operation on numbers: exact on whole numbers, on doubles otherwise. -/
def operate (sign : String) (exact : Int → Int → Int) (inexact : Float → Float → Float)
    (a b : Value) : Outcome Value :=
  match a.numeric?, b.numeric? with
  | some (.whole m), some (.whole n) => .ok (int (exact m n))
  | some x, some y => do
    let x ← x.toFloat
    let y ← y.toFloat
    return real (inexact x y)
  | _, _ => .error (.notOperable sign a b)

def add : Value → Value → Outcome Value :=
  operate "+" (· + ·) (· + ·)

def sub : Value → Value → Outcome Value :=
  operate "-" (· - ·) (· - ·)

def mul : Value → Value → Outcome Value :=
  operate "*" (· * ·) (· * ·)

def div (a b : Value) : Outcome Value :=
  match a.numeric?, b.numeric? with
  | some (.whole m), some (.whole n) =>
    match Number.floatOfQuotient? m n with
    | some x => .ok (real x)
    | none => .error (.overflow "integer division result too large for a float")
  | some x, some y => do
    let x ← x.toFloat
    let y ← y.toFloat
    return real (x / y)
  | _, _ => .error (.notOperable "/" a b)

def magnitude : Value → Outcome Value
  | real x => .ok (real x.abs)
  | undefined _ => .ok (real nan)
  | bool b => .ok (int (if b then 1 else 0))
  | int n => .ok (int n.natAbs)
  | v => .error (.wrongKind s!"bad operand type for abs(): '{v.kindName}'")

def forNotation (code : String) (v : Value) : Outcome Float :=
  match v.numeric?, v with
  | some n, _ => n.toFloat
  | none, text _ => .error (.badValue
      s!"Unknown format code '{code}' for object of type 'str'")
  | none, v => .error (.wrongKind
      s!"unsupported format string passed to {v.kindName}.__format__")

def twoPlaces (v : Value) : Outcome String :=
  (forNotation "f" v).map (Number.fixedText 2)

/-- A number with at most six significant digits. -/
def sixDigits (v : Value) : Outcome String :=
  (forNotation "g" v).map (Number.generalText 6)

end TradingRules.Value
