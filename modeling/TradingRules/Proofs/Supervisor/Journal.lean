import TradingRules.Proofs.Value.Execution
import TradingRules.Supervisor.Session

/-!
# The journal of a supervisor

To say what is done for which run, every log and the broker are made to leave a mark in a journal,
with the number of the run that the entry or the placement belongs to. A supervisor lives through
events in any order: logics are started and stopped, messages of workers come in, tasks they gave
rise to are carried out, processes end, and failures are reported. Tasks need not have been queued,
so that whatever order a queue works them off in is covered.
-/

namespace TradingRules.Supervisor

variable {τ α : Type}

/-- What is done for a run: an entry in its log, or a placement of an order. -/
inductive Mark where
  | entry (run : Nat) (title message : Value)
  | placement (run : Nat) (placement : Order.Placement)

def Mark.run : Mark → Nat
  | entry k _ _ => k
  | placement k _ => k

abbrev World (τ : Type) := List Mark × τ

def unmarked (f : τ → α × τ) (w : World τ) : α × World τ :=
  ((f w.2).1, (w.1, (f w.2).2))

def marked (mark : Mark) (f : τ → α × τ) (w : World τ) : α × World τ :=
  ((f w.2).1, (w.1 ++ [mark], (f w.2).2))

/-- A log whose entries leave marks of a run, also those that it refuses. -/
def journaled (k : Nat) (log : LogSink τ) : LogSink (World τ) :=
  fun title message => marked (.entry k title message) (log title message)

def Resources.journaled (res : Resources τ) (k : Nat) : Resources (World τ) where
  source := res.source.map fun source => ⟨fun request => unmarked (source.answer request)⟩
  broker := res.broker.map fun broker => ⟨fun p => marked (.placement k p) (broker.place p)⟩

def Launch.journaled (l : Launch τ) (k : Nat) : Launch (World τ) where
  id := l.id
  stock := l.stock
  logic := l.logic
  log := Supervisor.journaled k l.log
  now := l.now
  details := l.details
  interval := l.interval
  obstacle := l.obstacle
  stubborn := l.stubborn

/-- What can happen to a supervisor. Runs are named by their numbers, which are never given out
again. -/
inductive Event (τ : Type) where
  | start (launch : Launch τ)
  | stop (id : Value)
  | message (run : Nat) (content : Value)
  | task (run : Nat) (task : Task)
  | ending (run : Nat) (status : ProcessStatus)
  /-- The listener of a run looks whether its process has ended. -/
  | report (run : Nat)
  | closed (run : Nat)

/-- The run that an event concerns from the outset. -/
def Event.run? : Event τ → Option Nat
  | start _ => none
  | stop _ => none
  | message k _ => some k
  | task k _ => some k
  | ending k _ => some k
  | report k => some k
  | closed k => some k

/-- Handles a message as a listener does, leaving the work it gives rise to for later. -/
def attend {σ : Type} (k : Nat) (message : Value) : Action σ Unit :=
  fun st => match (handle k message).exec st with
    | (.ok _, st) => (.ok (), st)
    | (.error e, st) =>
      (emit k (.text "Error") (.text s!"Supervisor error: {e.message}")).exec st

/-- What an event does. The answer is the one of a start or a stop. A launch logs under the number
of the run it leads to. -/
def act (res : Resources τ) : Event τ → Action (World τ) Bool
  | .start l => do start (l.journaled (← get).1.runs.length)
  | .stop id => stop id
  | .message k content => do
    attend k content
    return false
  | .task k task => do
    perform (res.journaled k) k task
    return false
  | .ending k status => do
    changeRun k fun r => { r with process := { r.process with status } }
    return false
  | .report k => do
    reportDeath k
    return false
  | .closed k => do
    fail k "Worker error: message channel closed"
    return false

abbrev System (τ : Type) := State (World τ) × World τ

structure Moment (τ : Type) where
  event : Event τ
  before : System τ
  answer : Outcome Bool
  after : System τ

def Moment.of (res : Resources τ) (before : System τ) (event : Event τ) : Moment τ :=
  let (answer, after) := (act res event).exec before
  { event, before, answer, after }

def trail (res : Resources τ) : System τ → List (Event τ) → List (Moment τ)
  | _, [] => []
  | a, event :: rest => .of res a event :: trail res (Moment.of res a event).after rest

namespace Moment

def marks (m : Moment τ) : List Mark :=
  m.after.2.1.drop m.before.2.1.length

def marksOf (m : Moment τ) (k : Nat) : List Mark :=
  m.marks.filter fun mark => mark.run == k

end Moment

def State.isUp {σ : Type} (st : State σ) (k : Nat) : Bool :=
  st.runs[k]?.any (·.registered)

/-- Does a moment tear down a run that was up? -/
def Moment.tearsDown (m : Moment τ) (k : Nat) : Bool :=
  m.before.1.isUp k && !m.after.1.isUp k

end TradingRules.Supervisor
