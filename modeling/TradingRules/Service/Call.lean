import TradingRules.Log.Center
import TradingRules.Store.Basic
import TradingRules.Supervisor.OneShot
import TradingRules.Supervisor.Session

/-!
# Calls of the service

The service has a store of logics, a supervisor that runs them, and a log centre. A call on one of
them is atomic: it reads and changes the state in one step, and answers with a value or a fault.
-/

namespace TradingRules.Service

open Market (Source)

/-- What the supervisor of the service reaches: the log centre and the world outside. -/
structure Outside (τ : Type) where
  logs : Log.Center
  outer : τ

structure State (τ : Type) where
  store : Store := {}
  supervisor : Supervisor.State (Outside τ) := {}
  outside : Outside τ

structure Setup (τ : Type) where
  source : Option (Source τ)
  broker : Option (Order.Broker τ)
  fresh : τ → String × τ
  now : τ → Float
  stamp : τ → String
  /-- Why no process can be started, if none can. -/
  obstacle : τ → Option Fault

inductive Call where
  | listLogics
  | createLogic (name stock data : Value)
  | loadLogic (id : String)
  | saveLogic (id : String) (name stock data : Value)
  | deleteLogic (id : String)
  | reorderLogics (ids : Value)
  | isRunning (id : Value)
  | runningLogics
  | runningLogic (id : String)
  | startLogic (id : String) (stock logic : Value) (details : Bool) (interval : Float)
  | stopLogic (id : String)
  | stopAll
  | runOnce (id : String) (stock logic : Value) (details : Bool)
  | readLog (id : String) (limit : Value)
  | clearLog (id : String)
  deriving Inhabited

/-- Steps of the service that can fail half-way. -/
abbrev Action (τ α : Type) := ExceptT Fault (StateM (State τ)) α

section

variable {τ : Type}

def sourceWithin (source : Source τ) : Source (Outside τ) where
  answer r o :=
    let (result, outer) := source.answer r o.outer
    (result, { o with outer })

def brokerWithin (broker : Order.Broker τ) : Order.Broker (Outside τ) where
  place p o :=
    let (result, outer) := broker.place p o.outer
    (result, { o with outer })

def onStore {α : Type} (step : Store.Action α) : Action τ α :=
  fun s =>
    let (result, store) := step.run.run s.store
    (result, { s with store })

def onSupervisor {α : Type} (step : Supervisor.Action (Outside τ) α) : Action τ α :=
  fun s =>
    let (result, supervisor, outside) := step.run.run (s.supervisor, s.outside)
    (result, { s with supervisor, outside })

namespace Setup

variable (setup : Setup τ)

def resources : Supervisor.Resources (Outside τ) where
  source := setup.source.map sourceWithin
  broker := setup.broker.map brokerWithin

def sink (id : String) : Supervisor.LogSink (Outside τ) :=
  fun title message o =>
    let (result, logs) := o.logs.log (setup.stamp o.outer) (.text id) title message
    (result, { o with logs })

def launch (id : String) (stock logic : Value) (details : Bool) (interval : Float)
    (o : Outside τ) : Supervisor.Launch (Outside τ) where
  id := .text id
  stock := stock
  logic := logic
  log := setup.sink id
  now := setup.now o.outer
  details := .bool details
  interval := .real interval
  obstacle := setup.obstacle o.outer

def scene (id : String) : Supervisor.Scene (Outside τ) where
  source := setup.source.map sourceWithin
  broker := setup.broker.map brokerWithin
  log title message o := (setup.sink id (.text title) (.text message) o).2

def freshName : Action τ String :=
  fun s =>
    let (name, outer) := setup.fresh s.outside.outer
    (.ok name, { s with outside := { s.outside with outer } })

/-- Runs a logic once; null if there is no decision. -/
def runOnce (id : String) (stock logic : Value) (details : Bool) : Action τ Value :=
  fun s =>
    let scene := setup.scene id
    let (decision, _, outside) := scene.runOnce scene.waitForAll stock logic details s.outside
    let result := match decision with
      | some d => d.toValue
      | none => .null
    (.ok result, { s with outside })

/-- The run of a running logic as a value, null if it is not running. -/
def runningValue (st : Supervisor.State (Outside τ)) (id : String) : Value :=
  match st.registered.find? fun p => p.2.id == .text id with
  | some (k, r) => r.toValue (k + 1)
  | none => .null

/-- Carries out a call. No name is used up for a new logic if the index cannot be read. -/
def perform : Call → Action τ Value
  | .listLogics => do
    return .list (← ((← get).store.list : Outcome (List Value)))
  | .createLogic name stock data => do
    let _ ← ((← get).store.index : Outcome (List Value))
    let fresh ← setup.freshName
    onStore (Store.create fresh name stock data)
  | .loadLogic id => do
    ((← get).store.load (.text id) : Outcome Value)
  | .saveLogic id name stock data => onStore (Store.save (.text id) name stock data)
  | .deleteLogic id => do
    return .bool (← onStore (Store.delete (.text id)))
  | .reorderLogics ids => do
    return .list (← onStore (Store.reorder ids))
  | .isRunning id => do
    return .bool (← (Supervisor.isRunning (← get).supervisor id : Outcome Bool))
  | .runningLogics => do
    return .list (← get).supervisor.runningValues
  | .runningLogic id => do
    return runningValue (← get).supervisor id
  | .startLogic id stock logic details interval => do
    let launch := setup.launch id stock logic details interval (← get).outside
    return .bool (← onSupervisor (Supervisor.start launch))
  | .stopLogic id => do
    return .bool (← onSupervisor (Supervisor.stop (.text id)))
  | .stopAll => do
    onSupervisor Supervisor.stopAll
    return .null
  | .runOnce id stock logic details => setup.runOnce id stock logic details
  | .readLog id limit => do
    let entries ← ((← get).outside.logs.latest (.text id) limit : Outcome (List Log.Entry))
    return .list (entries.map Log.Entry.toValue)
  | .clearLog id => fun s =>
    let (result, logs) := s.outside.logs.clear (.text id)
    (result.map fun _ => .null, { s with outside := { s.outside with logs } })

def settle : Action τ Unit :=
  onSupervisor (Supervisor.settle setup.resources)

end Setup

end

end TradingRules.Service
