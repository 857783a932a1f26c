import TradingRules.Interpreter
import TradingRules.Worker.Proxy
import TradingRules.Worker.Schedule

/-!
# Workers

A worker runs one logic apart from its supervisor. It reads messages from its inbox and posts
messages of its own; market data comes through the channel for requests. It has at most one
interpreter and at most one scheduler, which runs the interpreter it was started with.
-/

namespace TradingRules

open Interpreter (Surroundings Conduct Step)
open Market (Source Settings)

namespace Worker

inductive Notice where
  | log (title message : String)
  | order (side : Side) (stock : Value) (data : OrderData)
  | ready
  | initFailed (message : String)
  | started (interval : Float)
  | error (message : String)
  | stopped
  deriving Inhabited

def Notice.toValue : Notice → Value
  | log title message =>
    .object [("type", .text "log"), ("title", .text title), ("msg", .text message)]
  | order side stock data =>
    .object [("type", .text "order"), ("action", .text side.name), ("stock", stock),
      ("order", data.toValue)]
  | ready => .object [("type", .text "ready")]
  | initFailed message => .object [("type", .text "init-failed"), ("message", .text message)]
  | started interval => .object [("type", .text "started"), ("interval", .real interval)]
  | error message => .object [("type", .text "error"), ("message", .text message)]
  | stopped => .object [("type", .text "stopped")]

structure Scheduler where
  interval : Float
  details : Bool
  held : Option Interpreter := none

end Worker

open Worker in
structure Worker where
  interpreter : Option Interpreter := none
  scheduler : Option Scheduler := none
  proxy : Proxy := {}

namespace Worker

/-- What lies outside of the interpreter: the channel, the messages posted so far, and the other
side of the boundary. -/
structure Line (τ : Type) where
  proxy : Proxy
  posted : List Notice
  outer : τ

def Line.post {τ : Type} (line : Line τ) (notice : Notice) : Line τ :=
  { line with posted := line.posted ++ [notice] }

structure Desk (τ : Type) where
  interpreter : Option Interpreter
  scheduler : Option Scheduler
  line : Line τ

namespace Desk

variable {τ : Type}

def ofWorker (w : Worker) (outer : τ) : Desk τ :=
  ⟨w.interpreter, w.scheduler, ⟨w.proxy, [], outer⟩⟩

def worker (d : Desk τ) : Worker :=
  ⟨d.interpreter, d.scheduler, d.line.proxy⟩

def post (d : Desk τ) (notice : Notice) : Desk τ :=
  { d with line := d.line.post notice }

variable (peer : Peer τ)

def source : Source (Line τ) where
  answer request line :=
    let (result, proxy, outer) := line.proxy.ask peer request line.outer
    (result, { line with proxy, outer })

/-- What surrounds the interpreter of a worker: log entries and orders become messages. -/
def surroundings : Surroundings (Line τ) where
  source := source peer
  log title message line := line.post (.log title message)
  executor := some fun side order stock =>
    .finish fun line => (.ok (), line.post (.order side stock order))

def runStep {α : Type} (d : Desk τ) (i : Interpreter) (step : Step (Line τ) α) :
    Outcome α × Interpreter × Desk τ :=
  let (result, i, line) := step.run.run (i, d.line)
  (result, i, { d with line })

/-- A scheduler keeps the interpreter that it was started with when the worker gets a new one. -/
def keepHeld (old : Option Interpreter) (s : Scheduler) : Scheduler :=
  { s with held := s.held.or (old.map Interpreter.dispose) }

def parseNotice (i : Interpreter) (accepted : Bool) : Notice :=
  if accepted then .ready else .initFailed (i.lastError.getD "None")

/-- Takes up a logic: the old interpreter is disposed of, and a new one parses the logic. -/
def init (d : Desk τ) (f : Fields) : Outcome Unit × Desk τ :=
  let stock := (f.get "stock").orElse (.text "")
  let logic := (f.get "logic_data").orElse (.object [])
  let fresh := Interpreter.new stock (Market.new { stock } true)
  let d := { d with scheduler := d.scheduler.map (keepHeld d.interpreter) }
  match d.runStep fresh (Interpreter.parse (surroundings peer) logic) with
  | (.error e, i, d) => (.error e, { d with interpreter := some i })
  | (.ok accepted, i, d) => (.ok (), { d with interpreter := some i }.post (parseNotice i accepted))

/-- Starts a scheduler for the interpreter, in place of the one before. -/
def start (d : Desk τ) (f : Fields) : Outcome Unit × Desk τ :=
  if (d.interpreter.map Interpreter.isRunnable).getD false then
    match ((f.get "interval").orElse (.real usualInterval)).toFloat with
    | .error e => (.error e, d)
    | .ok x =>
      let scheduler := ⟨raisedInterval x, (f.get "log_details").isTruthy, none⟩
      (.ok (), { d with scheduler := some scheduler }.post (.started scheduler.interval))
  else (.ok (), d.post (.error "Interpreter not initialized"))

def shutdown (d : Desk τ) : Desk τ :=
  { interpreter := none
    scheduler := none
    line := { d.line with proxy := d.line.proxy.close } }

/-- Handles a message and tells whether the worker goes on. -/
def handle (d : Desk τ) (f : Fields) : Outcome Bool × Desk τ :=
  match f.get "type" with
  | .text "api-response" =>
    let (result, proxy) := d.line.proxy.resolve (.object f)
    (result.map fun _ => true, { d with line := { d.line with proxy } })
  | .text "init" =>
    let (result, d) := d.init peer f
    (result.map fun _ => true, d)
  | .text "start" =>
    let (result, d) := d.start f
    (result.map fun _ => true, d)
  | .text "stop" => (.ok false, d.shutdown.post .stopped)
  | _ => (.ok true, d)

/-- Does the first fetch and the lookups that the interpreter waits for. -/
def catchUp (d : Desk τ) : Desk τ :=
  match d.interpreter with
  | none => d
  | some i =>
    let around := surroundings peer
    let (_, i, d) := d.runStep i do
      Interpreter.fetch around
      let _ ← Interpreter.wait around
    { d with interpreter := some i }

/-- The message about a run that failed; one that succeeded needs none. -/
def reportRun (d : Desk τ) : Outcome Decision → Desk τ
  | .ok _ => d
  | .error e => d.post (.error s!"{e.kind}: {e.message}")

/-- One tick of a scheduler; a failed run is reported and does not end the schedule. -/
def tick (d : Desk τ) : Desk τ :=
  match d.scheduler with
  | none => d
  | some s =>
    let around := surroundings peer
    match s.held, d.interpreter with
    | some old, _ =>
      let (result, old, d) := d.runStep old (Interpreter.run around s.details)
      { d.reportRun result with scheduler := some { s with held := some old } }
    | none, some i =>
      let (result, i, d) := d.runStep i (Interpreter.run around s.details)
      { d.reportRun result with interpreter := some i }
    | none, none => d

end Desk

inductive Ending where
  | stopped
  | exhausted
  | failed (fault : Fault)
  deriving Inhabited

namespace Desk

variable {τ : Type} (peer : Peer τ)

/-- Handles one item of the inbox: what is no message is passed over. After a message to stop, or
one that cannot be handled, the worker has ended. -/
def receive (d : Desk τ) (item : Value) : Option Ending × Desk τ :=
  match item.fields? with
  | none => (none, d)
  | some f =>
    match d.handle peer f with
    | (.ok true, d) => (none, d.catchUp peer)
    | (.ok false, d) => (some .stopped, d.shutdown)
    | (.error e, d) => (some (.failed e), d)

/-- Handles the items of the inbox until the worker ends; the items left over are returned. -/
def serve (d : Desk τ) : List Value → Ending × List Value × Desk τ
  | [] => (.exhausted, [], d.shutdown)
  | item :: rest =>
    match d.receive peer item with
    | (none, d) => d.serve rest
    | (some ending, d) => (ending, rest, d)

end Desk

end Worker

end TradingRules
