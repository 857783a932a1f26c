import TradingRules.Supervisor.Basic

/-!
# Sessions

A session runs a supervisor together with its workers. Messages travel in both directions until
none is left; a worker that has ended by itself is reported as a failure of its run. All of them
share one process here, so messages are handed over as they are; a queue between two processes
brings a copy (`Value.copy`).
-/

namespace TradingRules.Supervisor

open Worker (Peer Arrival Desk Ending Notice)

section

variable {σ : Type} (res : Resources σ)

/-- The supervisor as workers see it: it answers requests unless the run is stopping. -/
def counterpart (stopping : Bool) : Peer σ where
  respond message s :=
    if stopping then (.nothing, s)
    else match message.fields? with
      | none => (.nothing, s)
      | some data =>
        let (result, s) := serve res data s
        (.message (responseMessage data result), s)

def work {α : Type} (k : Nat) (f : Peer σ → Desk σ → α × Desk σ) :
    Action σ (Option α × List Notice) := do
  match ← run? k with
  | none => return (none, [])
  | some r =>
    if r.process.isAlive && !r.process.stubborn then
      let (st, s) ← get
      let (a, d) := f (counterpart res r.stopping) (Desk.ofWorker r.process.worker s)
      let st := st.change k fun r => { r with process := { r.process with worker := d.worker } }
      set (st, d.line.outer)
      return (some a, d.line.posted)
    else return (none, [])

def listenAll (k : Nat) : List Notice → Action σ Unit
  | [] => return
  | n :: rest => do
    listen res k n.toValue
    listenAll k rest

def statusAfter : Ending → ProcessStatus
  | .failed _ => .crashed (.int 1)
  | _ => .exited 0

/-- Reports a worker that has ended without being told to. -/
def reportDeath (k : Nat) : Action σ Unit := do
  match ← run? k with
  | none => return
  | some r =>
    if !r.process.isAlive && !r.stopping then
      let code := r.process.exitCode.shown
      quietly (fail k s!"Worker error: worker exited unexpectedly (exit code {code})")

/-- Hands an item of the inbox to a worker and handles what it posts. -/
def deliverItem (k : Nat) (item : Value) : Action σ Unit := do
  let (ending, notices) ← work res k fun peer d => d.receive peer item
  if let some (some ending) := ending then
    changeRun k fun r => { r with process := { r.process with status := statusAfter ending } }
  listenAll res k notices
  reportDeath k

def deliverItems (k : Nat) : List Value → Action σ Unit
  | [] => return
  | item :: rest => do
    deliverItem res k item
    deliverItems k rest

def deliverInbox (k : Nat) : Action σ Unit := do
  match ← run? k with
  | none => return
  | some r =>
    if r.process.isAlive && !r.process.stubborn then
      changeRun k fun r => { r with inbox := [] }
      deliverItems res k r.inbox

def deliverEach : List Nat → Action σ Unit
  | [] => return
  | k :: rest => do
    deliverInbox res k
    deliverEach rest

/-- Rounds of deliveries. A message to a worker causes at most two more, since only a first message
leads to a message that starts the ticks, and that one to none. -/
def settleRounds : Nat → Action σ Unit
  | 0 => return
  | n + 1 => do
    let runs := (← get).1.runs
    if runs.any fun r => r.process.isAlive && !r.process.stubborn && !r.inbox.isEmpty then
      deliverEach res (List.range runs.length)
      settleRounds n

def settle : Action σ Unit :=
  settleRounds res 4

/-- One scheduled run of a logic, and the lookups it leaves behind; false without a scheduler. -/
def tick (id : Value) : Action σ Bool := do
  if !id.isKey then throw (.unhashable id)
  match (← get).1.find? id with
  | none => return false
  | some k =>
    let (ticked, notices) ← work res k fun peer d =>
      if d.scheduler.isSome then (true, (d.tick peer).catchUp peer) else (false, d)
    listenAll res k notices
    return ticked.getD false

def runningNumber (id : Value) : Action σ Nat := do
  if !id.isKey then throw (.unhashable id)
  match (← get).1.find? id with
  | none => throw (.missingKey id)
  | some k => return k

/-- Polls the live price of a worker, which has to have an interpreter. -/
def pollWorker (peer : Peer σ) (d : Desk σ) : Outcome Unit × Desk σ :=
  match d.interpreter with
  | none => (.error (.noAttribute "NoneType" "market_data"), d)
  | some i =>
    let (market, line) := i.market.poll (Desk.source peer) d.line
    (.ok (), { d with interpreter := some { i with market }, line })

/-- One price poll in the worker of a running logic; a process that reads no messages has none. -/
def poll (id : Value) : Action σ Unit := do
  let k ← runningNumber id
  let (polled, notices) ← work res k fun peer d => pollWorker peer d
  listenAll res k notices
  match polled with
  | some result => result
  | none => throw (.noAttribute "NoneType" "interpreter")

/-- The worker of a logic dies with an exit code; without one only its channel breaks. False if the
logic is not running. -/
def crash (id code : Value) : Action σ Bool := do
  if !id.isKey then throw (.unhashable id)
  match (← get).1.find? id with
  | none => return false
  | some k =>
    match code with
    | .null => quietly (fail k "Worker error: message channel closed")
    | code =>
      changeRun k fun r =>
        { r with process := { r.process with status := .crashed code, worker := {} } }
      reportDeath k
    return true

end

end TradingRules.Supervisor
