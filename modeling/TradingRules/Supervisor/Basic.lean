import TradingRules.Order.Dispatch
import TradingRules.Worker.Basic

/-!
# Supervisor

A supervisor starts, stops and watches running logics. Each run has a worker process of its own and
two queues; the supervisor holds the market data and the broker, and serves the requests of the
workers. A run is torn down once: by a stop, or when its worker fails. From then on nothing is
logged and no order is placed for it.
-/

namespace TradingRules.Supervisor

open Market (Source Request)
open Worker (Peer Arrival)

abbrev LogSink (σ : Type) := Value → Value → σ → Outcome Unit × σ

inductive ProcessStatus where
  | running
  | exited (code : Int)
  | terminated
  | crashed (code : Value)
  deriving Inhabited

structure Process where
  name : String
  worker : Worker := {}
  status : ProcessStatus := .running
  stubborn : Bool := false

def Process.isAlive (p : Process) : Bool :=
  match p.status with
  | .running => true
  | _ => false

def Process.exitCode (p : Process) : Value :=
  match p.status with
  | .running => .null
  | .exited code => .int code
  | .terminated => .int (-15)
  | .crashed code => code

structure Run (σ : Type) where
  id : Value
  stock : Value
  startTime : Float
  interval : Float
  details : Value
  log : LogSink σ
  process : Process
  inbox : List Value := []
  registered : Bool := true
  stopping : Bool := false

/-- A run as a value; its process has the number that it was started with. -/
def Run.toValue {σ : Type} (r : Run σ) (number : Nat) : Value :=
  .object [("logicId", r.id), ("stock", r.stock), ("startTime", .real r.startTime),
    ("interval", .real r.interval), ("logDetails", r.details), ("pid", .int number)]

/-- All runs so far, the oldest first. -/
structure State (σ : Type) where
  runs : List (Run σ) := []

structure Resources (σ : Type) where
  source : Option (Source σ)
  broker : Option (Order.Broker σ)

namespace State

variable {σ : Type}

def registered (st : State σ) : List (Nat × Run σ) :=
  (st.runs.zipIdx.map fun (r, i) => (i, r)).filter fun p => p.2.registered

def runningValues (st : State σ) : List Value :=
  st.registered.map fun (k, r) => r.toValue (k + 1)

def find? (st : State σ) (id : Value) : Option Nat :=
  ((st.registered).find? fun p => p.2.id.isSame id).map (·.1)

/-- The number of the last run of a logic, whether it is running or not. -/
def last? (st : State σ) (id : Value) : Option Nat :=
  ((st.runs.zipIdx.map fun (r, i) => (i, r)).reverse.find? fun p => p.2.id.isSame id).map (·.1)

def change (st : State σ) (k : Nat) (f : Run σ → Run σ) : State σ :=
  { runs := st.runs.modify k f }

end State

/-- Steps that change the runs and their surroundings and can fail half-way. -/
abbrev Action (σ α : Type) := ExceptT Fault (StateM (State σ × σ)) α

section

variable {σ : Type}

def changeRun (k : Nat) (f : Run σ → Run σ) : Action σ Unit :=
  modify fun (st, s) => (st.change k f, s)

def run? (k : Nat) : Action σ (Option (Run σ)) :=
  return (← get).1.runs[k]?

def write (log : LogSink σ) (title message : Value) : Action σ Unit := do
  let (st, s) ← get
  let (result, s) := log title message s
  set (st, s)
  result

def quietly (step : Action σ Unit) : Action σ Unit :=
  fun st => (.ok (), (step.run.run st).2)

/-- Logs for a run, unless it is stopping. A log that refuses the entry is ignored. -/
def emit (k : Nat) (title message : Value) : Action σ Unit := do
  match ← run? k with
  | some r => if !r.stopping then quietly (write r.log title message)
  | none => return

def send (k : Nat) (message : Value) : Action σ Unit :=
  changeRun k fun r => { r with inbox := r.inbox ++ [message] }

/-- The end of a process that is told to stop: one that reads no messages is terminated. -/
def Process.stop (p : Process) : Process :=
  if p.isAlive then { p with status := if p.stubborn then .terminated else .exited 0, worker := {} }
  else p

def teardown (k : Nat) : Action σ Unit :=
  changeRun k fun r => { r with stopping := true, inbox := [], process := r.process.stop }

def unregister (k : Nat) : Action σ Unit :=
  changeRun k fun r => { r with registered := false }

/-- Tears down a run whose worker has failed, if it is still running. -/
def fail (k : Nat) (reason : String) : Action σ Unit := do
  match ← run? k with
  | none => return
  | some r =>
    if r.registered then
      unregister k
      emit k (.text "Error") (.text reason)
      teardown k
      write r.log (.text "System") (.text s!"Logic \"{r.id.shown}\" stopped after failure")

/-- Stops a running logic and tells whether it was running. An id that cannot be a key is refused,
unless no logic runs at all. -/
def stop (id : Value) : Action σ Bool := do
  if (← get).1.registered.isEmpty then return false
  if !id.isKey then throw (.unhashable id)
  match (← get).1.find? id with
  | none => return false
  | some k =>
    let log := (← run? k).map (·.log)
    unregister k
    teardown k
    match log with
    | some log =>
      write log (.text "System") (.text s!"Logic \"{id.shown}\" stopped")
      return true
    | none => return true

def stopEach : List Value → Action σ Unit
  | [] => return
  | id :: rest => do
    let _ ← stop id
    stopEach rest

def stopAll : Action σ Unit := do
  stopEach ((← get).1.registered.map fun p => p.2.id)

def isRunning (st : State σ) (id : Value) : Outcome Bool :=
  if id.isKey then .ok (st.find? id).isSome else .error (.unhashable id)

def secondsText (x : Float) : String :=
  Number.generalText 6 x

structure Launch (σ : Type) where
  id : Value
  stock : Value
  logic : Value
  log : LogSink σ
  now : Float
  details : Value := .bool false
  /-- The interval between ticks; null stands for the usual one. -/
  interval : Value := .null
  /-- Why the process cannot be started, if it cannot. -/
  obstacle : Option Fault := none
  stubborn : Bool := false

def Launch.seconds (l : Launch σ) : Action σ Float := do
  let x ← match l.interval with
    | .null => pure Worker.usualInterval
    | v => (v.toFloat : Outcome Float)
  if x < Worker.leastInterval then
    let least := secondsText Worker.leastInterval
    write l.log (.text "System") (.text s!"Interval {secondsText x}s raised to minimum {least}s")
  return Worker.raisedInterval x

def Launch.initMessage (l : Launch σ) : Value :=
  .object [("type", .text "init"), ("stock", l.stock), ("logic_data", l.logic)]

def Launch.newRun (l : Launch σ) (interval : Float) : Run σ :=
  { id := l.id
    stock := l.stock
    startTime := l.now
    interval
    details := l.details
    log := l.log
    process := { name := s!"logic-{l.id.shown}", stubborn := l.stubborn }
    inbox := [l.initMessage] }

def Launch.refuse (l : Launch σ) (reason : String) : Action σ Bool := do
  write l.log (.text "Error") (.text reason)
  return false

/-- Starts a worker process, unless the logic is running already. -/
def Launch.spawn (l : Launch σ) (interval : Float) : Action σ Bool := do
  if ← isRunning (← get).1 l.id then
    l.refuse s!"Logic \"{l.id.shown}\" is already running"
  else match l.obstacle with
    | some e => l.refuse s!"Failed to start logic: {e.message}"
    | none =>
      modify fun (st, s) => ({ runs := st.runs ++ [l.newRun interval] }, s)
      let seconds := secondsText interval
      write l.log (.text "System") (.text s!"Logic \"{l.id.shown}\" started ({seconds}s interval)")
      return true

/-- Starts a logic and tells whether it could be started. -/
def start (l : Launch σ) : Action σ Bool := do
  if !l.id.isTruthy then l.refuse "Logic id is required"
  else
    let interval ← l.seconds
    match CompiledLogic.ofLogic l.logic with
    | .error (.compile e) => l.refuse s!"Logic parse failed: {e.message}"
    | .error e => throw e
    | .ok _ => l.spawn interval

/-- Work that a message of a worker gives rise to. -/
inductive Task where
  | order (data : Fields)
  | request (data : Fields)
  | failure (reason : String)
  deriving Inhabited

def Run.startMessage (r : Run σ) : Value :=
  .object [("type", .text "start"), ("interval", .real r.interval), ("log_details", r.details)]

/-- A field, or a default when there is none. -/
def fieldOr (data : Fields) (key : String) (default : Value) : Value :=
  (data.get? key).getD default

def handleFields (k : Nat) (data : Fields) : Action σ (Option Task) := do
  match data.get "type" with
  | .text "log" =>
    emit k (fieldOr data "title" (.text "System")) (fieldOr data "msg" (.text ""))
    return none
  | .text "order" => return some (.order data)
  | .text "api-request" => return some (.request data)
  | .text "ready" =>
    if let some r ← run? k then send k r.startMessage
    return none
  | .text "init-failed" =>
    let reason := (data.get "message").shown
    return some (.failure s!"Logic parse failed: {reason}")
  | .text "started" =>
    let seconds ← ((data.get "interval").sixDigits : Outcome String)
    emit k (.text "System") (.text s!"Logic running ({seconds}s interval)")
    return none
  | .text "stopped" =>
    emit k (.text "System") (.text "Logic execution stopped")
    return none
  | .text "error" =>
    emit k (.text "Error") (fieldOr data "message" (.text "unknown error"))
    return none
  | _ => return none

def handle (k : Nat) (message : Value) : Action σ (Option Task) := do
  handleFields k (← (message.asFields : Outcome Fields))

end

def methods : List String := ["fetch_candles", "get_current_price", "get_highest_price"]

section

variable {σ : Type} (res : Resources σ)

def paramsOf (data : Fields) : Outcome (List Value) :=
  ((data.get "params").orElse (.list [])).items

def serve (data : Fields) (s : σ) : Outcome Value × σ :=
  match res.source with
  | none => (.error (.isolationBoundary "no market data provider configured"), s)
  | some source =>
    let method := data.get "method"
    let refused := (.error (.badValue s!"Unknown API method: {method.shown}"), s)
    match method with
    | .text method =>
      if methods.contains method then
        match paramsOf data with
        | .error e => (.error e, s)
        | .ok params => source.answer ⟨method, params⟩ s
      else refused
    | _ => refused

def responseMessage (data : Fields) (result : Outcome Value) : Value :=
  let base : Fields := [("type", .text "api-response"), ("request_id", data.get "request_id")]
  .object <| match result with
    | .ok value => base ++ [("success", .bool true), ("result", value)]
    | .error e => base ++ [("success", .bool false), ("error", .text e.message)]

/-- Serves a request; a run that is stopping gets no answer. -/
def handleRequest (k : Nat) (data : Fields) : Action σ Unit := do
  let (st, s) ← get
  let (result, s) := serve res data s
  set (st, s)
  match ← run? k with
  | some r => if !r.stopping then send k (responseMessage data result)
  | none => return

def orderOf (data : Fields) : Outcome OrderData := do
  let raw ← ((data.get "order").orElse (.object [])).asFields
  let limitPrice ← ((raw.get "limitPrice").orElse (.real 0.0)).toFloat
  let quantity ← ((raw.get "quantity").orElse (.real 0.0)).toFloat
  return ⟨fieldOr raw "orderType" (.text "market"), .real limitPrice, .real quantity⟩

def emitAll (k : Nat) : List Order.Entry → Action σ Unit
  | [] => return
  | e :: rest => do
    emit k (.text e.title) (.text e.message)
    emitAll k rest

/-- Places an order for a run, unless it is stopping. -/
def handleOrder (k : Nat) (data : Fields) : Action σ Unit := do
  let order ← (orderOf data : Outcome OrderData)
  match ← run? k with
  | none => return
  | some r =>
    if !r.stopping then
      let (st, s) ← get
      let stock := (data.get "stock").orElse r.stock
      let (report, s) := Order.execute res.broker (data.get "action") order stock s
      set (st, s)
      emitAll k report.entries
      let _ ← report.result

def perform (k : Nat) : Task → Action σ Unit
  | .order data => handleOrder res k data
  | .request data => handleRequest res k data
  | .failure reason => fail k reason

/-- Handles what came from a worker and does the work it gives rise to, whose failure is lost. -/
def receive (k : Nat) (message : Value) : Action σ Unit := do
  match ← handle k message with
  | some task => quietly (perform res k task)
  | none => return

/-- Handles a message as the listener of a run does: a failure becomes a log entry. -/
def listen (k : Nat) (message : Value) : Action σ Unit :=
  fun st => match (receive res k message).run.run st with
    | (.ok _, st) => (.ok (), st)
    | (.error e, st) =>
      (emit k (.text "Error") (.text s!"Supervisor error: {e.message}")).run.run st

end

end TradingRules.Supervisor
