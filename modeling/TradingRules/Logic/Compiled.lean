import TradingRules.Logic.Condition
import TradingRules.Logic.Control
import TradingRules.Market.History

/-!
# Compiled logics

A graph compiles to the condition wired into its terminal, the parameters of the terminal's order,
and the periods whose highest price has to be looked up. Nodes are found by their ids, where the
last of several nodes counts; the operands of a node are the sources of the first two connections
into it, in the order of the connections. The first defect that is met is reported.
-/

namespace TradingRules

open Market (Period)

namespace Graph

def find? (g : Graph) (id : Value) : Option Node :=
  g.nodes.reverse.find? fun n => n.id.isSame id

/-- The sources of the connections into a node, in order. -/
def sources (g : Graph) (id : Value) : List Value :=
  (g.connections.filter fun c => !c.source.isNull && !c.target.isNull && c.target.isSame id).map
    (·.source)

/-- What nodes are looked up by: their ids and the targets of connections. -/
def keys (g : Graph) : List Value :=
  g.nodes.map (·.id) ++
    (g.connections.filter fun c => !c.source.isNull && !c.target.isNull).map (·.target)

def checkKeys (g : Graph) : Outcome Unit :=
  match g.keys.find? fun v => !v.isKey with
  | some v => .error (.unhashable v)
  | none => .ok ()

def withoutId (nodes : List Node) (id : Value) : List Node :=
  nodes.filter fun n => !n.id.isSame id

theorem length_withoutId_lt {nodes : List Node} {id : Value}
    (met : nodes.any (fun n => n.id.isSame id) = true) :
    (withoutId nodes id).length < nodes.length := by
  obtain ⟨n, hn, hid⟩ := List.any_eq_true.1 met
  exact List.length_filter_lt_length_iff_exists.2 ⟨n, hn, by simp [hid]⟩

end Graph

/-- The largest period of a moving average, which is the size of the history. -/
def maxAveragePeriod : Nat := 200

def periodUnits : List String := ["day", "week", "month", "year"]

/-- A condition and the periods that were met so far. -/
abbrev WithPeriods := Condition × List Period

/-- Adds a period unless it is there already. -/
def addPeriod (periods : List Period) (p : Period) : List Period :=
  if periods.contains p then periods else periods ++ [p]

def Node.averageCondition (n : Node) (graph : String) : Outcome Condition := do
  let period ← n.wholeControl "period" (.int 20) graph
  if period > maxAveragePeriod then Fault.defect graph (.periodTooLong period maxAveragePeriod n.id)
  else if period < 1 then Fault.defect graph (.periodTooShort period n.id)
  else return .sma (.int period)

def Node.highestPeriod (n : Node) (graph : String) : Outcome Period := do
  let length ← n.wholeControl "periodLength" (.int 1) graph
  if length < 1 then Fault.defect graph (.lengthTooShort length n.id)
  else
    let unit := Text.lower (Text.strip (← n.control "periodUnit" (.text "day")).shown)
    if periodUnits.contains unit then return ⟨.text unit, length⟩
    else Fault.defect graph (.unsupportedUnit unit n.id)

/-- Compiles a node that supplies a number; nothing for other kinds. -/
def Node.supplier (n : Node) (graph : String) (periods : List Period) :
    NodeKind → Outcome (Option WithPeriods)
  | .const => return some (.const (.real (← n.decimalControl "value" (.int 0) graph)), periods)
  | .currentPrice => return some (.currentPrice, periods)
  | .highestPrice => do
    let p ← n.highestPeriod graph
    return some (.highestPrice p.unit (.int p.length), addPeriod periods p)
  | .rsi => return some (.rsi, periods)
  | .roi => return some (.roi none, periods)
  | .sma => return some (← n.averageCondition graph, periods)
  | _ => return none

/-- The spelling under which the operator of a node is looked up in a condition. -/
def Node.operatorOf (n : Node) (graph : String) (kind : NodeKind) (id : Value) (default : String)
    (read? : String → Option String) : Outcome Value := do
  match read? (← n.control "operator" (.text default)).shown with
  | some sign => return .text sign
  | none => Fault.defect graph (.unsupportedOperator kind id (← n.control "operator" .null))

namespace Graph

section

variable (g : Graph) (name : String)

def resolve (id referrer : Value) : Outcome Node :=
  if !id.isKey then .error (.unhashable id)
  else match g.find? id with
    | some n => .ok n
    | none => Fault.defect name (.dangling referrer id)

/-- Refuses a node that supplies a number where a condition is expected. -/
def checkCondition (id referrer : Value) : Outcome Unit := do
  let n ← g.resolve name id referrer
  let kind ← n.resolvedKind
  match NodeKind.ofValue? kind with
  | some k => if k.isSupplier then Fault.defect name (.numericInput kind id referrer) else return
  | none => return

def operands (n : Node) : Outcome (Value × Value) :=
  match g.sources n.id with
  | a :: b :: _ => .ok (a, b)
  | few => do Fault.defect name (.tooFewOperands (← n.resolvedKind) n.id few.length)

/-- Compiles a node. The nodes on the way to it are not among the *unvisited* ones, so that a node
on a cycle is met as a visited one. Conditions may be nested to any depth: the limit that a running
program puts on the recursion is left out. -/
def compileNode (id referrer : Value) (unvisited : List Node) (periods : List Period) :
    Outcome WithPeriods := do
  let n ← g.resolve name id referrer
  if _met : unvisited.any fun m => m.id.isSame id then
    let rawKind ← n.resolvedKind
    match NodeKind.ofValue? rawKind with
    | none => Fault.defect name (.unknownKind id rawKind)
    | some kind =>
      let rest := withoutId unvisited id
      match kind with
      | .compare =>
        let operator ← n.operatorOf name kind id CompareOp.greater.sign fun s =>
          (CompareOp.read? s).map CompareOp.sign
        let (a, b) ← g.operands name n
        let (x, periods) ← compileNode a n.id rest periods
        let (y, periods) ← compileNode b n.id rest periods
        return (.compare operator x y, periods)
      | .logicOp =>
        let operator ← n.operatorOf name kind id LogicOp.and.word fun s =>
          (LogicOp.read? s).map LogicOp.word
        let (a, b) ← g.operands name n
        g.checkCondition name a n.id
        let (x, periods) ← compileNode a n.id rest periods
        g.checkCondition name b n.id
        let (y, periods) ← compileNode b n.id rest periods
        return (.logicOp operator x y, periods)
      | kind =>
        match ← n.supplier name periods kind with
        | some leaf => return leaf
        | none => Fault.defect name (.terminalInside id kind)
  else Fault.defect name (.cycle id)
termination_by unvisited.length
decreasing_by
  all_goals exact length_withoutId_lt _met

def terminal (kind : NodeKind) : Outcome Node := do
  match ← g.nodesOfKind kind with
  | [] => Fault.defect name (.noTerminal kind)
  | [n] => return n
  | many => Fault.defect name (.manyTerminals kind (many.map (·.id)))

def compile (kind : NodeKind) : Outcome (WithPeriods × OrderData) := do
  let n ← g.terminal name kind
  let order ← OrderData.ofNode n name
  match g.sources n.id with
  | [] => Fault.defect name (.noCondition kind n.id)
  | source :: _ =>
    g.checkCondition name source n.id
    return (← g.compileNode name source n.id g.nodes [], order)

end

end Graph

structure CompiledLogic where
  buy : Condition
  sell : Condition
  buyOrder : OrderData
  sellOrder : OrderData
  warmUps : List Period
  deriving Inhabited

namespace CompiledLogic

def ofGraphs (buy sell : Graph) : Outcome CompiledLogic := do
  buy.checkKeys
  sell.checkKeys
  let ((buyCondition, buyPeriods), buyOrder) ← buy.compile "buyGraph" .buy
  let ((sellCondition, sellPeriods), sellOrder) ← sell.compile "sellGraph" .sell
  return { buy := buyCondition
           sell := sellCondition
           buyOrder
           sellOrder
           warmUps := sellPeriods.foldl addPeriod buyPeriods }

def ofLogic (logic : Value) : Outcome CompiledLogic := do
  let (buy, sell) ← Graph.ofLogic logic
  ofGraphs buy sell

end CompiledLogic

end TradingRules
