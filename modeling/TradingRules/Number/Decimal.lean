import TradingRules.Number.Binary

/-!
# Decimal texts of doubles

Three forms of the same value. The *shortest* form has the fewest significant digits that read
back as the same double. The *fixed* form has a given number of places, and the *general* form a
given number of significant digits; both round the exact value, a tie going to the even digit.
-/

namespace TradingRules.Number

/-- A positive decimal number `digits * 10 ^ exponent`. -/
structure Decimal where
  digits : Nat
  exponent : Int
  deriving DecidableEq, Repr

/-- Drops trailing zeros of the digits; `fuel` bounds how many. -/
def Decimal.dropZeros : Nat → Decimal → Decimal
  | 0, d => d
  | fuel + 1, d =>
    if d.digits % 10 = 0 ∧ d.digits ≠ 0 then dropZeros fuel ⟨d.digits / 10, d.exponent + 1⟩ else d

def digitText (n : Nat) : List Char :=
  Nat.toDigits 10 n

/-- Position of the point relative to the first digit: `0.d₁d₂… * 10 ^ point`. -/
def Decimal.point (d : Decimal) : Int :=
  (digitText d.digits).length + d.exponent

/-- Smallest `t ≥ start` with `num * 10 ^ t ≥ den`, searched for at most `fuel` steps. -/
def leadingZeros (num den : Nat) : Nat → Nat → Nat
  | 0, t => t
  | fuel + 1, t => if num * Nat.pow 10 t ≥ den then t else leadingZeros num den fuel (t + 1)

/-- The decimal exponent `k` with `10 ^ (k - 1) ≤ num / den < 10 ^ k`, for positive arguments. -/
def decimalExponent (num den : Nat) : Int :=
  if num ≥ den then ((digitText (num / den)).length : Int)
  else
    let start := (den.log2 - num.log2 - 1) * 30102 / 100000
    1 - (leadingZeros num den 400 start : Int)

/-- `num / den` in units of `10 ^ unit`, as a quotient of whole numbers. -/
def inUnits (num den : Nat) (unit : Int) : Nat × Nat :=
  (num * Nat.pow 10 (-unit).toNat, den * Nat.pow 10 unit.toNat)

/-- The set of reals that round to a double, scaled by four to keep its ends whole. -/
structure RoundingInterval where
  low : Nat
  value : Nat
  high : Nat
  scale : Nat
  closed : Bool

def Binary.interval (b : Binary) : RoundingInterval :=
  let up := Nat.pow 2 b.exponent.toNat
  let narrow := b.significand = Nat.pow 2 52 ∧ b.exponent > -1074
  { low := (4 * b.significand - (if narrow then 1 else 2)) * up
    value := 4 * b.significand * up
    high := (4 * b.significand + 2) * up
    scale := 4 * b.denominator
    closed := b.significand % 2 = 0 }

/-- Does `digits * 10 ^ unit` round to the double of the interval? -/
def RoundingInterval.admits (i : RoundingInterval) (digits : Nat) (unit : Int) : Bool :=
  let x := digits * Nat.pow 10 unit.toNat * i.scale
  let s := Nat.pow 10 (-unit).toNat
  if i.closed then decide (i.low * s ≤ x ∧ x ≤ i.high * s)
  else decide (i.low * s < x ∧ x < i.high * s)

/-- The admitted one of the two neighbours of the value on the grid of `10 ^ unit`; of two the
nearer, of two equally near the even one. -/
def RoundingInterval.onGrid? (i : RoundingInterval) (unit : Int) : Option Nat :=
  let (num, den) := inUnits i.value i.scale unit
  let below := num / den
  let above := below + 1
  match i.admits below unit, i.admits above unit with
  | true, true => some (roundHalfEven num den)
  | true, false => some below
  | false, true => some above
  | false, false => none

/-- The first grid with a hit, from `count` digits on; `fuel` bounds the number of grids. -/
def RoundingInterval.shortest (i : RoundingInterval) (point : Int) : Nat → Nat → Decimal
  | 0, count => ⟨roundHalfEven (inUnits i.value i.scale (point - count)).1
      (inUnits i.value i.scale (point - count)).2, point - count⟩
  | fuel + 1, count =>
    match i.onGrid? (point - count) with
    | some d => ⟨d, point - count⟩
    | none => shortest i point fuel (count + 1)

/-- The fewest digits that read back as the positive double `b`. -/
def Binary.shortest (b : Binary) : Decimal :=
  let point := decimalExponent b.numerator b.denominator
  (b.interval.shortest point 16 1).dropZeros 20

def zeros (n : Nat) : List Char :=
  List.replicate n '0'

/-- An exponent mark with a sign and at least two digits. -/
def exponentText (e : Int) : List Char :=
  let digits := digitText e.natAbs
  'e' :: (if e < 0 then '-' else '+') :: (if digits.length < 2 then '0' :: digits else digits)

/-- Positional notation of `0.digits * 10 ^ point`, without a point when there is no fraction. -/
def positional (digits : List Char) (point : Int) : List Char :=
  if point ≤ 0 then '0' :: '.' :: (zeros (-point).toNat ++ digits)
  else if digits.length ≤ point.toNat then digits ++ zeros (point.toNat - digits.length)
  else digits.take point.toNat ++ '.' :: digits.drop point.toNat

def scientific (digits : List Char) (point : Int) : List Char :=
  match digits with
  | [] => []
  | [d] => d :: exponentText (point - 1)
  | d :: rest => d :: '.' :: rest ++ exponentText (point - 1)

def notFiniteText (x : Float) : String :=
  if x.isNaN then "nan" else if x < 0 then "-inf" else "inf"

def signed (negative : Bool) (magnitude : List Char) : String :=
  String.ofList (if negative then '-' :: magnitude else magnitude)

/-- The shortest text that reads back as `x`: positional from `1e-4` up to below `1e16`, where a
whole number keeps a fraction of zero, and scientific elsewhere. -/
def shortestText (x : Float) : String :=
  match Binary.ofFloat? x with
  | none => notFiniteText x
  | some b =>
    if b.significand = 0 then signed b.negative "0.0".toList
    else
      let d := b.shortest
      let digits := digitText d.digits
      let point := d.point
      if -4 < point ∧ point ≤ 16 then
        let text := positional digits point
        signed b.negative (if text.contains '.' then text else text ++ ".0".toList)
      else signed b.negative (scientific digits point)

/-- The magnitude of a finite double with `places` digits behind the point. -/
def Binary.fixed (b : Binary) (places : Nat) : List Char :=
  let scaled := roundHalfEven (b.numerator * Nat.pow 10 places) b.denominator
  let digits := digitText scaled
  let padded := zeros (places + 1 - digits.length) ++ digits
  if places = 0 then padded
  else padded.take (padded.length - places) ++ '.' :: padded.drop (padded.length - places)

/-- The value rounded to `places` digits behind the point. -/
def fixedText (places : Nat) (x : Float) : String :=
  match Binary.ofFloat? x with
  | none => notFiniteText x
  | some b => signed b.negative (b.fixed places)

/-- The magnitude of a nonzero finite double rounded to `count` significant digits. -/
def Binary.significant (b : Binary) (count : Nat) : Decimal :=
  let point := decimalExponent b.numerator b.denominator
  let unit := point - count
  let (num, den) := inUnits b.numerator b.denominator unit
  (Decimal.mk (roundHalfEven num den) unit).dropZeros (count + 1)

/-- The value rounded to `count` significant digits without trailing zeros: positional from `1e-4`
up to below `10 ^ count`, scientific elsewhere. -/
def generalText (count : Nat) (x : Float) : String :=
  match Binary.ofFloat? x with
  | none => notFiniteText x
  | some b =>
    if b.significand = 0 then signed b.negative ['0']
    else
      let d := b.significant count
      let digits := digitText d.digits
      if -4 < d.point ∧ d.point ≤ count then signed b.negative (positional digits d.point)
      else signed b.negative (scientific digits d.point)

end TradingRules.Number
