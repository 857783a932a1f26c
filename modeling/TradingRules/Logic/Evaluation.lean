import TradingRules.Indicator
import TradingRules.Logic.Condition
import TradingRules.Market.Basic

/-!
# Evaluation of conditions

Conditions are evaluated against the data of a market. Both operands of a node are always
evaluated, the first one first. `Condition.account` evaluates too and writes one line for each node
on the way, a node after the nodes below it; the lines written before a failure are kept.
-/

namespace TradingRules

def strengthPeriod : Int := 14

def Value.operator? {α : Type} (ofText? : String → Option α) (operator : Value) : Outcome α :=
  match operator with
  | .text s => match ofText? s with
    | some op => .ok op
    | none => .error (.missingKey operator)
  | operator => .error (if operator.isKey then .missingKey operator else .unhashable operator)

def Value.compareWith (operator a b : Value) : Outcome Bool := do
  let op ← operator.operator? CompareOp.ofSign?
  return op.holds (← a.toFloat) (← b.toFloat)

def Value.joinWith (operator a b : Value) : Outcome Bool := do
  let op ← operator.operator? LogicOp.ofWord?
  return op.holds a.holds b.holds

namespace Condition

def supply (m : Market) : Condition → Outcome Value
  | const value => .ok value
  | currentPrice => .ok (.real m.latestPrice)
  | highestPrice unit length => (m.highestPrice unit length).map .real
  | rsi => .ok (.real (Indicator.relativeStrength strengthPeriod m.history.prices))
  | roi none => .ok (.real 0.0)
  | roi (some value) => value.toFloat.map .real
  | sma (.int n) => .ok (.real (Indicator.movingAverage n (m.history.lastPrices n)))
  | sma period => do
    let prices ← m.history.pricesBy period
    Indicator.movingAverageOf period (.list (prices.map .real))
  | compare _ _ _ => .ok .null
  | logicOp _ _ _ => .ok .null

def evaluate (m : Market) : Condition → Outcome Value
  | compare operator a b => do
    let x ← evaluate m a
    let y ← evaluate m b
    return .bool (← operator.compareWith x y)
  | logicOp operator a b => do
    let x ← evaluate m a
    let y ← evaluate m b
    return .bool (← operator.joinWith x y)
  | leaf => supply m leaf

def leafLine (leaf : Condition) (value : Value) : Outcome String := do
  let text ← value.accounted
  return s!"{leaf.label} value: {text}{leaf.remark}"

def compareLine (operator x y : Value) (result : Bool) : Outcome String := do
  let first ← x.accounted
  let second ← y.accounted
  return s!"Compare expr: {first} {operator.shown} {second} => {Value.boolWord result}"

def logicLine (operator x y : Value) (result : Bool) : Outcome String :=
  let first := Value.boolWord x.holds
  let second := Value.boolWord y.holds
  .ok s!"LogicOp expr: {first} {operator.shown} {second} => {Value.boolWord result}"

abbrev Account := List String × Outcome Value

/-- An account of one node: its value and its line, if there is one. -/
def Account.ofLine (result : Outcome (Value × String)) : Account :=
  match result with
  | .ok (value, line) => ([line], .ok value)
  | .error e => ([], .error e)

/-- Goes on with a value unless there is none. -/
def Account.followedBy (first : Account) (next : Value → Account) : Account :=
  match first.2 with
  | .ok value => (first.1 ++ (next value).1, (next value).2)
  | .error e => (first.1, .error e)

def account (m : Market) : Condition → Account
  | compare operator a b =>
    (account m a).followedBy fun x => (account m b).followedBy fun y => .ofLine do
      let result ← operator.compareWith x y
      return (.bool result, ← compareLine operator x y result)
  | logicOp operator a b =>
    (account m a).followedBy fun x => (account m b).followedBy fun y => .ofLine do
      let result ← operator.joinWith x y
      return (.bool result, ← logicLine operator x y result)
  | leaf => .ofLine do
    let value ← supply m leaf
    return (value, ← leafLine leaf value)

def readiness (m : Market) (c : Condition) : List (Outcome Bool) :=
  c.walk.filterMap fun node => match node with
    | highestPrice unit length => some (m.isHighestReady unit length)
    | _ => none

end Condition

end TradingRules
