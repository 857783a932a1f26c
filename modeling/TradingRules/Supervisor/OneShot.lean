import TradingRules.Interpreter

/-!
# One-shot runs

A logic is parsed and run once, on the data that have come in by the end of some wait for them.
Whatever goes wrong is logged; there is either a decision or nothing.
-/

namespace TradingRules.Supervisor

open Interpreter (Surroundings Conduct Step)
open Market (Source)

/-- What a run is made in: market data if there is any, a broker if there is one, and a log. -/
structure Scene (σ : Type) where
  source : Option (Source σ)
  broker : Option (Order.Broker σ)
  log : String → String → σ → σ

namespace Scene

variable {σ : Type} (scene : Scene σ)

/-- The source of a scene, which refuses everything if there is none. -/
def sourceOrNone : Source σ :=
  scene.source.getD ⟨fun r s => (.error (.noAttribute "NoneType" r.method), s)⟩

def logAll (entries : List Order.Entry) (s : σ) : σ :=
  entries.foldl (fun s e => scene.log e.title e.message s) s

def executor (side : Side) (order : OrderData) (stock : Value) : Conduct σ :=
  .finish fun s =>
    let (report, s) := Order.execute scene.broker (.text side.name) order stock s
    (report.result.map fun _ => (), scene.logAll report.entries s)

def surroundings : Surroundings σ where
  source := scene.sourceOrNone
  log := scene.log
  executor := some scene.executor

/-- The first fetch is awaited, and then all lookups that are pending. -/
def waitForAll : Step σ Bool := do
  Interpreter.fetch scene.surroundings
  Interpreter.wait scene.surroundings

def failureText (e : Fault) : String :=
  s!"Run failed: {e.kind}: {e.message}"

def interpreter (stock : Value) : Interpreter :=
  Interpreter.new stock (Market.new { stock } scene.source.isSome)

section

variable (waiting : Step σ Bool)

/-- Runs a logic that has compiled, once the data have been waited for. -/
def evaluate (details : Bool) : Step σ Decision := do
  if !(← waiting) then
    Step.surround
      (scene.log "System" "Market data warm-up timed out; evaluating with what is loaded")
  Interpreter.run scene.surroundings details

/-- Parses a logic, waits for the data and runs it; nothing if it does not compile. -/
def attempt (logic : Value) (details : Bool) : Step σ (Option Decision) := do
  if ← Interpreter.parse scene.surroundings logic then
    return some (← scene.evaluate waiting details)
  else return none

/-- Runs a logic once; the interpreter is disposed of in the end. -/
def runOnce (stock logic : Value) (details : Bool) (s : σ) :
    Option Decision × Interpreter × σ :=
  match (scene.attempt waiting logic details).run.run (scene.interpreter stock, s) with
  | (.ok decision, i, s) => (decision, i.dispose, s)
  | (.error e, i, s) => (none, i.dispose, scene.log "Error" (failureText e) s)

end

end Scene

end TradingRules.Supervisor
