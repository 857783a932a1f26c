import TradingRules.Logic.Compiled
import TradingRules.Logic.Evaluation
import TradingRules.Order.Dispatch

/-!
# Interpreter

An interpreter owns one compiled logic and the market data it is evaluated against. Parsing
compiles a logic; a run evaluates both of its conditions and dispatches an order for each that
holds. The executor of orders may call back into the interpreter in the middle of a run.
-/

namespace TradingRules

open Market (Source)

inductive Status where
  | uninitialized | parsed | running | idle | stopped
  deriving DecidableEq, Repr, Inhabited

def Status.name : Status → String
  | .uninitialized => "uninitialized"
  | .parsed => "parsed"
  | .running => "running"
  | .idle => "idle"
  | .stopped => "stopped"

structure Interpreter where
  stock : Value
  market : Market
  status : Status := .uninitialized
  compiled : Option CompiledLogic := none
  lastError : Option String := none
  locked : Bool := false

structure Decision where
  buy : Bool
  sell : Bool
  deriving DecidableEq, Repr, Inhabited

def Decision.toValue (d : Decision) : Value :=
  .object [("buy", .bool d.buy), ("sell", .bool d.sell)]

namespace Interpreter

/-- A call that an executor can make on the interpreter that runs it. -/
inductive Callback where
  | run (details : Bool)
  | parse (logic : Value)
  | dispose
  | wait
  deriving Inhabited

/-- What an executor does: it changes its surroundings, calls back, and in the end succeeds or
fails. -/
inductive Conduct (σ : Type) where
  | finish (act : σ → Outcome Unit × σ)
  | act (change : σ → σ) (next : Conduct σ)
  | call (callback : Callback) (next : Outcome Value → Conduct σ)

/-- Everything around an interpreter: market data, the log, and what executes orders. -/
structure Surroundings (σ : Type) where
  source : Source σ
  log : String → String → σ → σ
  executor : Option (Side → OrderData → Value → Conduct σ)

def new (stock : Value) (market : Market) : Interpreter :=
  { stock, market }

def isRunnable (i : Interpreter) : Bool :=
  i.compiled.isSome && (i.status == .parsed || i.status == .idle)

def dispose (i : Interpreter) : Interpreter :=
  { i with status := .stopped, compiled := none, market := i.market.dispose }

/-- Steps that change an interpreter and its surroundings and can fail half-way. -/
abbrev Step (σ α : Type) := ExceptT Fault (StateM (Interpreter × σ)) α

namespace Step

variable {σ : Type}

def change (f : Interpreter → Interpreter) : Step σ Unit :=
  modify fun (i, s) => (f i, s)

def surround (f : σ → σ) : Step σ Unit :=
  modify fun (i, s) => (i, f s)

def market : Step σ Market :=
  return (← get).1.market

def onMarket {α : Type} (f : Market → Outcome α × Market) : Step σ α := do
  let (i, s) ← get
  let (result, market) := f i.market
  set ({ i with market }, s)
  result

end Step

section

variable {σ : Type} (around : Surroundings σ)

def startLookups : List Market.Period → Step σ Unit
  | [] => pure ()
  | p :: rest => do
    let _ ← Step.onMarket (·.warmUp p.unit (.int p.length))
    startLookups rest

/-- Keeps a compiled logic, starts the market data and the lookups of highest prices. -/
def accept (logic : CompiledLogic) : Step σ Bool := do
  Step.change fun i => { i with compiled := some logic, lastError := none, status := .parsed }
  Step.onMarket (·.start)
  startLookups logic.warmUps
  return true

def reject (reason : String) : Step σ Bool := do
  Step.change fun i => { i with status := .uninitialized, lastError := some reason }
  Step.surround (around.log "Error" s!"Logic parse failed: {reason}")
  return false

/-- Parses a logic, giving up the one before it, and tells whether it compiled. -/
def parse (logic : Value) : Step σ Bool := do
  let status := (← get).1.status
  if status == .running || status == .stopped then
    throw (.interpreterState s!"cannot parse while {status.name}")
  Step.change fun i => { i with compiled := none }
  match CompiledLogic.ofLogic logic with
  | .error (.compile error) => reject around error.message
  | .error e => throw e
  | .ok compiled => accept compiled

/-- Waits for the data, if the first fetch was made: then all pending lookups are run. -/
def wait : Step σ Bool := do
  let (i, s) ← get
  if i.market.ready then
    let (market, s) := i.market.finishLookups around.source s
    set ({ i with market }, s)
    return true
  else return false

def fetch : Step σ Unit := do
  let (i, s) ← get
  let (market, s) := i.market.finishFetch around.source s
  set ({ i with market }, s)

/-- A callback during a run: there is no second run and no parsing then. -/
def respond : Callback → Step σ Value
  | .run _ => throw (.interpreterState "a run is already in progress")
  | .parse _ => do throw (.interpreterState s!"cannot parse while {(← get).1.status.name}")
  | .dispose => do
    Step.change dispose
    return .null
  | .wait => return .bool (← wait around)

def attempt {α : Type} (step : Step σ α) : Step σ (Outcome α) :=
  fun st => let (result, st) := step.run.run st; (.ok result, st)

def carryOut : Conduct σ → Step σ Unit
  | .finish act => do
    let (i, s) ← get
    let (result, s) := act s
    set (i, s)
    result
  | .act change next => do
    Step.surround change
    carryOut next
  | .call callback next => do
    carryOut (next (← attempt (respond around callback)))

def dispatch (side : Side) (order : OrderData) : Step σ Unit := do
  match around.executor with
  | none =>
    Step.surround (around.log side.title s!"{side.name} condition met (no order executor)")
  | some executor => carryOut around (executor side order (← get).1.stock)

def writeLines (title : String) : List String → Step σ Unit
  | [] => pure ()
  | line :: rest => do
    Step.surround (around.log title line)
    writeLines title rest

/-- Does a condition hold on the data as it stands? On demand the evaluation is accounted for. -/
def decideSide (side : Side) (condition : Condition) (details : Bool) : Step σ Bool := do
  let market ← Step.market
  if details then
    let (lines, result) := condition.account market
    writeLines around side.title lines
    return (← result).holds
  else
    return (← condition.evaluate market).holds

/-- Evaluates the condition of a side, and dispatches its order or logs that there is none. -/
def runSide (side : Side) (condition : Condition) (order : OrderData) (details : Bool) :
    Step σ Bool := do
  let holds ← decideSide around side condition details
  if holds then dispatch around side order
  else Step.surround (around.log side.title s!"{side.title} condition not met")
  return holds

/-- Starts the lookups again whose price is missing; those under way are left alone. -/
def retryLookups : List Market.Period → Step σ Unit
  | [] => pure ()
  | p :: rest => do
    if !(← (← Step.market).isHighestReady p.unit (.int p.length)) then
      startLookups [p]
    retryLookups rest

def runSides (logic : CompiledLogic) (details : Bool) : Step σ Decision := do
  retryLookups logic.warmUps
  let buy ← runSide around .buy logic.buy logic.buyOrder details
  let sell ← runSide around .sell logic.sell logic.sellOrder details
  return ⟨buy, sell⟩

/-- Ends a run, however it went. An interpreter that was stopped meanwhile stays so. -/
def release (i : Interpreter) : Interpreter :=
  { i with
    status := if i.status == .running then .idle else i.status
    locked := false }

def run (details : Bool) : Step σ Decision := do
  let (i, _) ← get
  if i.locked then throw (.interpreterState "a run is already in progress")
  match i.compiled, i.isRunnable with
  | some logic, true =>
    Step.change fun i => { i with status := .running, locked := true }
    let result ← attempt (runSides around logic details)
    Step.change release
    result
  | _, _ => throw (.interpreterState s!"cannot run while {i.status.name}")

end

end Interpreter

end TradingRules
