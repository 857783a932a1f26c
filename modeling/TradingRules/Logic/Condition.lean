import TradingRules.Graph.Kind
import TradingRules.Logic.Operator
import TradingRules.Value.Arithmetic

/-!
# Conditions

The tree behind a graph. Leaves supply numbers from the market; inner nodes compare two numbers or
join two truth values. A tree that is put together by hand may hold any value as an operator, a
constant or a period; one that was compiled from a graph holds only what its node kind allows.
-/

namespace TradingRules

inductive Condition where
  | const (value : Value)
  | currentPrice
  | highestPrice (unit length : Value)
  | rsi
  /-- The return on investment; without a source it is a placeholder. -/
  | roi (source : Option Value)
  | sma (period : Value)
  | compare (operator : Value) (a b : Condition)
  | logicOp (operator : Value) (a b : Condition)
  deriving Inhabited

namespace Condition

def kind : Condition → NodeKind
  | const _ => .const
  | currentPrice => .currentPrice
  | highestPrice _ _ => .highestPrice
  | rsi => .rsi
  | roi _ => .roi
  | sma _ => .sma
  | compare _ _ _ => .compare
  | logicOp _ _ _ => .logicOp

/-- The operator at the root, if it has one. -/
def operator? : Condition → Option Value
  | compare operator _ _ => some operator
  | logicOp operator _ _ => some operator
  | _ => none

def walk : Condition → List Condition
  | compare operator a b => compare operator a b :: (walk a ++ walk b)
  | logicOp operator a b => logicOp operator a b :: (walk a ++ walk b)
  | leaf => [leaf]

@[simp] theorem walk_ne_nil (c : Condition) : c.walk ≠ [] := by
  cases c <;> simp [walk]

def outline (c : Condition) : List (NodeKind × Option Value) :=
  c.walk.map fun node => (node.kind, node.operator?)

def outlineValue (c : Condition) : Value :=
  .list (c.outline.map fun (kind, operator) =>
    .object [("kind", .text kind.name), ("operator", operator.getD .null)])

def label : Condition → String
  | const _ => "Const"
  | currentPrice => "CurrentPrice"
  | highestPrice unit length => s!"HighestPrice({unit.shown}-{length.shown})"
  | rsi => "RSI"
  | roi _ => "ROI"
  | sma period => s!"SMA({period.shown})"
  | compare _ _ _ => "Compare"
  | logicOp _ _ _ => "LogicOp"

def remark : Condition → String
  | roi none => " (placeholder)"
  | _ => ""

end Condition

namespace Value

/-- A value in the account of an evaluation: truth values as words, missing data as NaN, and
numbers with two digits behind the point. -/
def accounted : Value → Outcome String
  | .bool b => .ok (if b then "True" else "False")
  | .null => .ok "NaN"
  | .undefined _ => .ok "NaN"
  | .real x => if x.isNaN then .ok "NaN" else twoPlaces (.real x)
  | v => twoPlaces v

/-- Does a value count as true? NaN, which stands for missing data, does not. -/
def holds : Value → Bool
  | .undefined _ => false
  | .real x => if x.isNaN then false else (Value.real x).isTruthy
  | v => v.isTruthy

def boolWord (b : Bool) : String :=
  if b then "True" else "False"

end Value

end TradingRules
