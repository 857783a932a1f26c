import TradingRules.Graph.Kind
import TradingRules.Value.Display

/-!
# Why a logic does not compile

A defect of a graph, with the name of the graph and the node it is about. The reason is the class
of the defect, and the message spells it out.
-/

namespace TradingRules

inductive Defect where
  | noTerminal (kind : NodeKind)
  | manyTerminals (kind : NodeKind) (ids : List Value)
  | noCondition (kind : NodeKind) (node : Value)
  | tooFewOperands (kind : Value) (node : Value) (count : Nat)
  | unknownKind (node kind : Value)
  | terminalInside (node : Value) (kind : NodeKind)
  | numericInput (kind node referrer : Value)
  | cycle (node : Value)
  | dangling (referrer node : Value)
  | notInteger (control : String) (raw node : Value)
  | notNumber (control : String) (raw node : Value)
  | notFinite (control : String) (raw node : Value)
  | periodTooLong (period : Int) (limit : Nat) (node : Value)
  | periodTooShort (period : Int) (node : Value)
  | lengthTooShort (length : Int) (node : Value)
  | unsupportedOperator (kind : NodeKind) (node raw : Value)
  | unsupportedUnit (unit : String) (node : Value)
  | unsupportedOrderType (orderType : String) (node : Value)
  deriving Inhabited

namespace Defect

def reason : Defect → String
  | noTerminal _ => "MissingTerminalNode"
  | manyTerminals _ _ => "MissingTerminalNode"
  | noCondition _ _ => "MissingCondition"
  | tooFewOperands _ _ _ => "InsufficientOperands"
  | unknownKind _ _ => "UnknownNodeKind"
  | terminalInside _ _ => "UnknownNodeKind"
  | numericInput _ _ _ => "NonBooleanInput"
  | cycle _ => "CyclicGraph"
  | dangling _ _ => "DanglingConnection"
  | notInteger _ _ _ => "InvalidNumericControl"
  | notNumber _ _ _ => "InvalidNumericControl"
  | notFinite _ _ _ => "InvalidNumericControl"
  | periodTooLong _ _ _ => "PeriodTooLarge"
  | periodTooShort _ _ => "InvalidNumericControl"
  | lengthTooShort _ _ => "InvalidNumericControl"
  | unsupportedOperator _ _ _ => "InvalidControlValue"
  | unsupportedUnit _ _ => "InvalidControlValue"
  | unsupportedOrderType _ _ => "InvalidControlValue"

/-- The node that a defect is about, null if it is about none. -/
def node : Defect → Value
  | noTerminal _ => .null
  | manyTerminals _ _ => .null
  | noCondition _ node => node
  | tooFewOperands _ node _ => node
  | unknownKind node _ => node
  | terminalInside node _ => node
  | numericInput _ node _ => node
  | cycle node => node
  | dangling _ node => node
  | notInteger _ _ node => node
  | notNumber _ _ node => node
  | notFinite _ _ node => node
  | periodTooLong _ _ node => node
  | periodTooShort _ node => node
  | lengthTooShort _ node => node
  | unsupportedOperator _ node _ => node
  | unsupportedUnit _ node => node
  | unsupportedOrderType _ node => node

def detail : Defect → String
  | noTerminal kind => s!"no '{kind.name}' node found"
  | manyTerminals kind ids =>
    let listed := Value.commaJoined (ids.map Value.shown)
    s!"expected exactly one '{kind.name}' node, found {ids.length} ({listed})"
  | noCondition kind node => s!"'{kind.name}' node {node.shown} has no incoming condition"
  | tooFewOperands kind node count =>
    s!"{kind.shown} node {node.shown} needs 2 operands, got {count}"
  | unknownKind node kind => s!"node {node.shown} has unknown kind {kind.written}"
  | terminalInside node kind =>
    s!"terminal node {node.shown} ({kind.name}) cannot be used as a condition"
  | numericInput kind node referrer =>
    s!"{kind.shown} node {node.shown} yields a number but {referrer.shown} expects a condition"
  | cycle node => s!"node {node.shown} is part of a cycle"
  | dangling referrer node =>
    s!"connection into {referrer.shown} references missing node {node.shown}"
  | notInteger control raw node =>
    s!"{control}={raw.written} on node {node.shown} is not an integer"
  | notNumber control raw node => s!"{control}={raw.written} on node {node.shown} is not a number"
  | notFinite control raw node => s!"{control}={raw.written} on node {node.shown} is not finite"
  | periodTooLong period limit node =>
    s!"SMA period {period} on node {node.shown} exceeds history size {limit}"
  | periodTooShort period node => s!"SMA period {period} on node {node.shown} must be >= 1"
  | lengthTooShort length node => s!"periodLength {length} on node {node.shown} must be >= 1"
  | unsupportedOperator kind node raw =>
    s!"{kind.name} node {node.shown} has unsupported operator {raw.written}"
  | unsupportedUnit unit node =>
    s!"periodUnit={Text.quoted unit} on node {node.shown} (expected day|week|month|year)"
  | unsupportedOrderType orderType node =>
    s!"orderType={Text.quoted orderType} on node {node.shown} (expected market|limit)"

end Defect

/-- A defect in a graph, which has a name unless a node is looked at on its own. -/
structure CompileError where
  graph : Option String
  defect : Defect
  deriving Inhabited

namespace CompileError

def message (e : CompileError) : String :=
  let place := match e.graph with
    | some g => if g.isEmpty then "" else s!"[{g}] "
    | none => ""
  s!"{place}{e.defect.reason}: {e.defect.detail}"

end CompileError

end TradingRules
