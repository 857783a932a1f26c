import TradingRules.Graph.Basic
import TradingRules.Text.Lower
import TradingRules.Value.Arithmetic

/-!
# Controls of a node

Controls are raw values set in an editor. A whole-number control accepts whole numbers, texts that
read as one, and numbers without a fraction; a decimal control accepts finite numbers and texts that
read as one. Truth values are neither. The controls of a terminal make up the parameters of its
order.
-/

namespace TradingRules

def Fault.defect {α : Type} (graph : Option String) (d : Defect) : Outcome α :=
  .error (.compile ⟨graph, d⟩)

/-- The whole number that a text stands for, if it reads as a decimal numeral without fraction. -/
def wholeOfText? (s : String) : Option Int :=
  match Number.readWhole s with
  | .ok n => some n
  | .error _ => (Number.readFloat? s).bind Number.wholeFloat?

def Node.wholeControl (n : Node) (name : String) (default : Value) (graph : Option String) :
    Outcome Int := do
  let raw ← n.control name default
  let refuse := Fault.defect graph (.notInteger name raw n.id)
  match raw with
  | .null => refuse
  | .bool _ => refuse
  | .int k => return k
  | raw => match wholeOfText? (Text.strip raw.shown) with
    | some k => return k
    | none => refuse

def Node.decimalControl (n : Node) (name : String) (default : Value) (graph : Option String) :
    Outcome Float := do
  let raw ← n.control name default
  let refuse {α : Type} : Outcome α := Fault.defect graph (.notNumber name raw n.id)
  let x ← match raw with
    | .null => refuse
    | .bool _ => refuse
    | .int _ => raw.toFloat
    | .real x => pure x
    | .undefined _ => pure nan
    | raw => match Number.readFloat? (Text.strip raw.shown) with
      | some x => pure x
      | none => refuse
  if x.isFinite then return x else Fault.defect graph (.notFinite name raw n.id)

def orderTypes : List String := ["market", "limit"]

structure OrderData where
  orderType : Value := .text "market"
  limitPrice : Value := .real 0.0
  quantity : Value := .real 0.0
  deriving Inhabited

def OrderData.toValue (o : OrderData) : Value :=
  .object [("orderType", o.orderType), ("limitPrice", o.limitPrice), ("quantity", o.quantity)]

/-- The parameters of the order of a terminal. The quantity may stand under a second name. -/
def OrderData.ofNode (n : Node) (graph : Option String) : Outcome OrderData := do
  let orderType := Text.lower (Text.strip (← n.control "orderType" (.text "market")).shown)
  if !orderTypes.contains orderType then
    Fault.defect graph (.unsupportedOrderType orderType n.id)
  let limitPrice ← n.decimalControl "limitPrice" (.real 0.0) graph
  let key := if (← n.control "quantity" .null).isNull then "sellPercent" else "quantity"
  let quantity ← n.decimalControl key (.real 0.0) graph
  return ⟨.text orderType, .real limitPrice, .real quantity⟩

end TradingRules
