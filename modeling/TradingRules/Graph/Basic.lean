import TradingRules.Graph.Kind
import TradingRules.Value.Item

/-!
# Graphs of a logic

A graph has nodes, connections between them and a viewport. Reading keeps every field of a node, a
connection or a graph that the engine does not know, and writing puts it back, so that a graph
survives the round trip.
-/

namespace TradingRules

/-- A node as it was saved; a missing part is null. -/
structure Node where
  id : Value
  kind : Value
  label : Value
  position : Value
  controls : Value
  extra : Fields
  deriving Inhabited

/-- A connection as it was saved; a missing part is null. -/
structure Connection where
  id : Value
  source : Value
  target : Value
  sourceOutput : Value
  targetInput : Value
  extra : Fields
  deriving Inhabited

structure Graph where
  nodes : List Node
  connections : List Connection
  viewport : Value
  extra : Fields
  deriving Inhabited

namespace Node

def ofFields (f : Fields) : Node :=
  { id := f.get "id"
    kind := f.get "kind"
    label := f.get "label"
    position := f.get "position"
    controls := f.get "controls"
    extra := f.without ["id", "kind", "label", "position", "controls"] }

/-- Writes a node; a part that is null is left out, but not the id. -/
def toFields (n : Node) : Fields :=
  ((((Fields.put (Fields.set [] "id" n.id) "label" n.label).put "kind" n.kind).put "position"
    n.position).put "controls" n.controls).merge n.extra

def resolvedKind (n : Node) : Outcome Value :=
  if n.kind.isTruthy then .ok n.kind
  else if !n.label.isTruthy then .ok .null
  else match n.label with
    | .text s => .ok (match NodeKind.ofLabel? s with
      | some k => .text k.name
      | none => .null)
    | label => if label.isKey then .ok .null else .error (.unhashable label)

/-- The value of a control; null and the empty text give way to the default. -/
def control (n : Node) (name : String) (default : Value) : Outcome Value :=
  if !n.controls.isTruthy then .ok default
  else do
    let value := (← n.controls.asFields).get name
    return match value with
      | .null => default
      | .text "" => default
      | value => value

end Node

namespace Connection

def ofFields (f : Fields) : Connection :=
  { id := f.get "id"
    source := f.get "source"
    target := f.get "target"
    sourceOutput := f.get "sourceOutput"
    targetInput := f.get "targetInput"
    extra := f.without ["id", "source", "target", "sourceOutput", "targetInput"] }

/-- Writes a connection; a part that is null is left out, but not the ends. -/
def toFields (c : Connection) : Fields :=
  ((((Fields.put [] "id" c.id).set "source" c.source).set "target" c.target).put "sourceOutput"
    c.sourceOutput |>.put "targetInput" c.targetInput).merge c.extra

end Connection

namespace Value

/-- The objects among the items of a value that counts as true, else none. -/
def objectItems (v : Value) : Outcome (List Fields) :=
  if v.isTruthy then (Value.items v).map (·.filterMap Value.fields?) else .ok []

end Value

namespace Graph

def empty : Graph :=
  ⟨[], [], .null, []⟩

def ofValue (v : Value) : Outcome Graph :=
  if !v.isTruthy then .ok empty
  else do
    let f ← v.asFields
    let nodes ← (f.get "nodes").objectItems
    let connections ← (f.get "connections").objectItems
    return { nodes := nodes.map Node.ofFields
             connections := connections.map Connection.ofFields
             viewport := match f.get "viewport" with
               | .object viewport => .object viewport
               | _ => .null
             extra := f.without ["nodes", "connections", "viewport"] }

/-- Writes a graph; an empty viewport is left out. -/
def toValue (g : Graph) : Value :=
  let nodes := Value.list (g.nodes.map fun n => .object n.toFields)
  let connections := Value.list (g.connections.map fun c => .object c.toFields)
  let viewport := if g.viewport.isTruthy then g.viewport else .null
  .object ((Fields.put [("nodes", nodes), ("connections", connections)] "viewport" viewport).merge
    g.extra)

def nodesOfKind (g : Graph) (kind : NodeKind) : Outcome (List Node) :=
  g.nodes.filterM fun n => return (← n.resolvedKind) == .text kind.name

def buyNames : List String := ["buyGraph", "buy", "graphBuy"]

def sellNames : List String := ["sellGraph", "sell", "graphSell"]

/-- The first field of a logic that counts as true. -/
def pick (logic : Fields) (names : List String) : Value :=
  ((names.map logic.get).find? Value.isTruthy).getD .null

def ofLogic (logic : Value) : Outcome (Graph × Graph) :=
  if !logic.isTruthy then .ok (empty, empty)
  else do
    let f ← logic.asFields
    let buy ← ofValue (pick f buyNames)
    let sell ← ofValue (pick f sellNames)
    return (buy, sell)

end Graph

end TradingRules
