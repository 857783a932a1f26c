/-!
# Doubles as exact binary fractions

A finite double is `± significand * 2 ^ exponent` with whole numbers on the right. The functions
below move between doubles and such fractions without loss: decoding, rounding a quotient of whole
numbers to the nearest double (a tie goes to the even significand), and comparing a whole number
with a double. Schedules are written once over the arithmetic of a *clock*; running programs have
one of doubles, which count seconds.
-/

namespace TradingRules.Number

structure Binary where
  negative : Bool
  significand : Nat
  exponent : Int
  deriving DecidableEq, Repr

/-- The exact form of a double; infinities and NaN have none. -/
def Binary.ofFloat? (x : Float) : Option Binary :=
  let bits : Nat := x.toBits.toNat
  let negative := bits / Nat.pow 2 63 == 1
  let biased : Nat := bits / Nat.pow 2 52 % Nat.pow 2 11
  let fraction : Nat := bits % Nat.pow 2 52
  if biased = 2047 then none
  else if biased = 0 then some ⟨negative, fraction, -1074⟩
  else some ⟨negative, fraction + Nat.pow 2 52, (biased : Int) - 1075⟩

/-- Numerator of the magnitude, over `Binary.denominator`. -/
def Binary.numerator (b : Binary) : Nat :=
  b.significand * Nat.pow 2 b.exponent.toNat

def Binary.denominator (b : Binary) : Nat :=
  Nat.pow 2 (-b.exponent).toNat

theorem Binary.denominator_pos (b : Binary) : 0 < b.denominator :=
  Nat.two_pow_pos _

/-- The whole quotient nearest to `num / den`; a tie goes to the even one. -/
def roundHalfEven (num den : Nat) : Nat :=
  let q := num / den
  let r := num % den
  if 2 * r < den then q
  else if 2 * r > den then q + 1
  else if q % 2 = 0 then q else q + 1

/-- `2 ^ e * num` compared with `den`, for any sign of `e`. -/
def scaledLe (den num : Nat) (e : Int) : Bool :=
  decide (den * Nat.pow 2 e.toNat ≤ num * Nat.pow 2 (-e).toNat)

/-- The binary exponent `k` with `2 ^ k ≤ num / den < 2 ^ (k + 1)`, for positive arguments. -/
def binaryExponent (num den : Nat) : Int :=
  let k := (num.log2 : Int) - den.log2
  if scaledLe den num k then k else k - 1

/-- The double with the given sign bit, significand below `2 ^ 54` and exponent, where the
significand has 53 bits unless the exponent is the least one. -/
def packFloat (negative : Bool) (significand : Nat) (exponent : Int) : Float :=
  let sign := if negative then Nat.pow 2 63 else 0
  let bits :=
    if significand < Nat.pow 2 52 then significand
    else
      let carried := significand = Nat.pow 2 53
      let fraction := if carried then 0 else significand - Nat.pow 2 52
      let biased := (exponent + 1075).toNat + (if carried then 1 else 0)
      if biased ≥ 2047 then 2047 * Nat.pow 2 52 else biased * Nat.pow 2 52 + fraction
  Float.ofBits (UInt64.ofNat (sign + bits))

/-- The double nearest to `± num / den`; too large a quotient gives an infinity. -/
def nearestFloat (negative : Bool) (num den : Nat) : Float :=
  if num = 0 then packFloat negative 0 0
  else
    let e := max (binaryExponent num den - 52) (-1074)
    let m := roundHalfEven (num * Nat.pow 2 (-e).toNat) (den * Nat.pow 2 e.toNat)
    packFloat negative m e

/-- The double nearest to a whole number, if the number is in range. -/
def floatOfInt? (n : Int) : Option Float :=
  let x := nearestFloat (n < 0) n.natAbs 1
  if x.isInf then none else some x

/-- The double nearest to the quotient of two whole numbers, if it is in range. -/
def floatOfQuotient? (a b : Int) : Option Float :=
  if b = 0 then none
  else
    let x := nearestFloat (decide (a < 0) != decide (b < 0)) a.natAbs b.natAbs
    if x.isInf then none else some x

def truncate? (x : Float) : Option Int :=
  (Binary.ofFloat? x).map fun b =>
    let q : Int := b.numerator / b.denominator
    if b.negative then -q else q

/-- A finite double without fractional part, as a whole number. -/
def wholeFloat? (x : Float) : Option Int :=
  match Binary.ofFloat? x with
  | some b => if b.numerator % b.denominator = 0 then truncate? x else none
  | none => none

/-- What is left of a finite double when another one is taken away as often as it fits; the sign is
that of the first. It is exact. -/
def remainder? (x y : Float) : Option Float :=
  match Binary.ofFloat? x, Binary.ofFloat? y with
  | some a, some b =>
    let divisor := b.numerator * a.denominator
    if divisor = 0 then none
    else some (nearestFloat a.negative (a.numerator * b.denominator % divisor)
      (a.denominator * b.denominator))
  | some _, none => if y.isNaN then none else some x
  | none, _ => none

/-- How often a double fits into another one: the quotient without what is left, in the arithmetic
of doubles, taken as the whole number that it is close to. An infinite quotient is none. -/
def floorQuotient? (x y : Float) : Option Int := do
  let rest ← remainder? x y
  let quotient := (x - rest) / y
  let quotient := if rest != 0.0 && (decide (y < 0.0) != decide (rest < 0.0)) then quotient - 1.0
    else quotient
  let whole := quotient.floor
  truncate? (if quotient - whole > 0.5 then whole + 1.0 else whole)

/-- A whole number compared with a double by exact value; nothing compares with NaN. -/
def compareIntFloat (n : Int) (x : Float) : Option Ordering :=
  match Binary.ofFloat? x with
  | some b =>
    let num : Int := if b.negative then -(b.numerator : Int) else b.numerator
    some (compare (n * b.denominator) num)
  | none => if x.isNaN then none else some (if x > 0 then .lt else .gt)

/-- Two doubles compared; nothing compares with NaN. -/
def compareFloats (x y : Float) : Option Ordering :=
  if x < y then some .lt else if x > y then some .gt else if x == y then some .eq else none

end TradingRules.Number

namespace TradingRules

structure Clock (α : Type) where
  zero : α
  add : α → α → α
  sub : α → α → α
  less : α → α → Bool
  scale : Int → α → α
  /-- The whole number of times that the second value fits into the first, if there is one. -/
  fits : α → α → Option Int

def seconds : Clock Float where
  zero := 0.0
  add := (· + ·)
  sub := (· - ·)
  less x y := decide (x < y)
  scale n x := (Number.floatOfInt? n).getD (0.0 / 0.0) * x
  fits := Number.floorQuotient?

end TradingRules
