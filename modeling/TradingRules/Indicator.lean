import TradingRules.Value.Arithmetic
import TradingRules.Value.Item

/-!
# Technical indicators

The moving average, the relative strength index with Wilder's smoothing, and the highest value of a
series, all over closing prices with the oldest first. The formulas are written once over an
arithmetic. It is instantiated with values, where an operation can fail, and with doubles.
-/

namespace TradingRules.Indicator

structure Arithmetic (m : Type → Type) (α : Type) where
  zero : α
  level : α
  ofNat : Nat → α
  add : α → α → m α
  sub : α → α → m α
  mul : α → α → m α
  div : α → α → m α
  less : α → α → m Bool
  equal : α → α → m Bool
  magnitude : α → m α

def doubles : Arithmetic Id Float where
  zero := 0.0
  level := 0.0
  ofNat n := n.toFloat
  add := (· + ·)
  sub := (· - ·)
  mul := (· * ·)
  div := (· / ·)
  less x y := decide (x < y)
  equal x y := x == y
  magnitude := Float.abs

/-- Values, where an operation fails on anything but numbers. -/
def values : Arithmetic Outcome Value where
  zero := .int 0
  level := .real 0.0
  ofNat n := .int n
  add := Value.add
  sub := Value.sub
  mul := Value.mul
  div := Value.div
  less := Value.compareBy .less
  equal x y := .ok (x == y)
  magnitude := Value.magnitude

section

variable {m : Type → Type} [Monad m] {α : Type} (A : Arithmetic m α)

def total (xs : List α) : m α :=
  xs.foldlM A.add A.zero

def average (xs : List α) (count : Nat) : m α := do
  A.div (← total A xs) (A.ofNat count)

def lastItems (n : Nat) (xs : List α) : List α :=
  xs.drop (xs.length - n)

/-- The average of the last `period` prices; nothing when there are fewer, or no period. -/
def movingAverage? (period : Int) (prices : List α) : m (Option α) :=
  if period ≤ 0 ∨ (prices.length : Int) < period then pure none
  else some <$> average A (lastItems period.toNat prices) period.toNat

def changes : List α → m (List α)
  | x :: y :: rest => do
    let d ← A.sub y x
    return d :: (← changes (y :: rest))
  | _ => pure []

def gain (change : α) : m α := do
  return if ← A.less change A.level then A.level else change

def loss (change : α) : m α := do
  A.magnitude (if ← A.less A.level change then A.level else change)

/-- Wilder's smoothing: the average counts for all but one of the periods. -/
def smooth (period : Nat) (avg next : α) : m α := do
  A.div (← A.add (← A.mul avg (A.ofNat (period - 1))) next) (A.ofNat period)

def smoothBoth (period : Nat) : List (α × α) → α × α → m (α × α)
  | [], avg => pure avg
  | (g, l) :: rest, (avgGain, avgLoss) => do
    let avgGain ← smooth A period avgGain g
    let avgLoss ← smooth A period avgLoss l
    smoothBoth period rest (avgGain, avgLoss)

/-- The index on a scale from 0 to 100 of an average gain and loss; `one`, `fifty` and `hundred`
are those numbers. -/
def strength (one fifty hundred avgGain avgLoss : α) : m α := do
  if ← A.equal avgLoss (A.ofNat 0) then
    return if ← A.less (A.ofNat 0) avgGain then hundred else fifty
  else
    let ratio ← A.div avgGain avgLoss
    A.sub hundred (← A.div hundred (← A.add one ratio))

/-- The relative strength index of more prices than the period has, which is found out last. -/
def strengthOver (one fifty hundred : α) (period : m Nat) (prices : List α) : m α := do
  let steps ← changes A prices
  let gains ← steps.mapM (gain A)
  let losses ← steps.mapM (loss A)
  let n ← period
  let avgGain ← average A (gains.take n) n
  let avgLoss ← average A (losses.take n) n
  let (avgGain, avgLoss) ← smoothBoth A n ((gains.zip losses).drop n) (avgGain, avgLoss)
  strength A one fifty hundred avgGain avgLoss

/-- The relative strength index over a period; nothing when there are not more prices than that,
or no period. -/
def relativeStrength? (one fifty hundred : α) (period : Int) (prices : List α) :
    m (Option α) :=
  if period ≤ 0 ∨ (prices.length : Int) < period + 1 then pure none
  else some <$> strengthOver A one fifty hundred (pure period.toNat) prices

end

/-- The moving average of prices, NaN when there are too few. -/
def movingAverage (period : Int) (prices : List Float) : Float :=
  (movingAverage? doubles period prices).getD nan

/-- The relative strength index of prices, NaN when there are too few. -/
def relativeStrength (period : Int) (prices : List Float) : Float :=
  (relativeStrength? doubles 1.0 50.0 100.0 period prices).getD nan

def periodOf (period : Value) : Outcome Nat := do
  return (← period.cut).toNat

/-- Are there at least as many prices as the period has, and one more on demand? No period has
enough prices, and no prices are enough. -/
def isCovered (period prices : Value) (oneMore : Bool) : Outcome Bool := do
  if ← Value.compareBy .lessEqual period (.int 0) then return false
  if !prices.isTruthy then return false
  let size ← prices.size
  let least ← if oneMore then period.add (.int 1) else pure period
  return !(← Value.compareBy .less (.int size) least)

def movingAverageOf (period prices : Value) : Outcome Value := do
  if ← isCovered period prices false then
    let items ← prices.items
    let n ← periodOf period
    average values (lastItems n items) n
  else return .real nan

/-- The relative strength index of prices over a period, both of any kind. -/
def relativeStrengthOf (period prices : Value) : Outcome Value := do
  if ← isCovered period prices true then
    strengthOver values (.real 1.0) (.real 50.0) (.real 100.0) (periodOf period) (← prices.items)
  else return .real nan

/-- The first greatest value of a series, null apart; NaN when there is none. -/
def highest (series : List Value) : Outcome Value :=
  match series.filter fun v => !v.isNull with
  | [] => .ok (.real nan)
  | v :: rest => rest.foldlM (fun best w => do
      return if ← Value.compareBy .greater w best then w else best) v

end TradingRules.Indicator
