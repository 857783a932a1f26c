import TradingRules.Market.Basic

/-!
# Threads of a market

Market data are used from any thread. The refresh loop has a thread of its own, and lookups of
highest prices are left to a pool of threads. A request to the source takes its time, and anything
may happen before it is answered; what an answer changes, it changes at one moment.

Disposal has three parts. First the market data are marked as disposed, and the pool is taken from
them. Then the loop is told to stop. At last, when the loop has ended or has been waited for long
enough, the lookups that this pool has not begun are cancelled.

Readings change nothing, nor does waiting for lookups, so they are not among what happens.
-/

namespace TradingRules.Market

/-- Gives the same answer to every request. -/
def Source.always (answer : Outcome Value) : Source Unit where
  answer _ s := (answer, s)

section

variable {σ : Type} (source : Source σ) (m : Market) (s : σ)

/-- All that a fetch takes from the source is the answer. -/
theorem refresh_always (count : Value) : (m.refresh source count s).1 =
    (m.refresh (.always (source.answer (m.candleRequest count) s).1) count ()).1 := by
  rcases hanswer : source.answer (m.candleRequest count) s with ⟨e | batch, s'⟩ <;>
    simp [refresh, hanswer, Source.always]

theorem poll_always : (m.poll source s).1 =
    (m.poll (.always (source.answer m.priceRequest s).1) ()).1 := by
  rcases hanswer : source.answer m.priceRequest s with ⟨e | price, s'⟩
  · simp [poll, hanswer, Source.always]
  · cases price <;> simp [poll, hanswer, Source.always]

theorem runLookup_always (p : Period) : (m.runLookup source p s).1 =
    (m.runLookup (.always (source.answer (m.highestRequest p) s).1) p ()).1 := by
  rcases hanswer : source.answer (m.highestRequest p) s with ⟨e | price, s'⟩
  · simp [runLookup, hanswer, Source.always]
  · cases hprice : price.toFloat <;> simp [runLookup, hanswer, hprice, Source.always]

end

/-- What the refresh loop asks for: candles in the first place, the live price, candles again. -/
inductive Chore where
  | firstCandles
  | price
  | candles

/-- What the source is asked for. -/
inductive Errand where
  | chore (chore : Chore)
  | highest (p : Period)

namespace Errand

def isFor (p : Period) : Errand → Bool
  | highest q => q == p
  | chore _ => false

def isLookup : Errand → Bool
  | highest _ => true
  | chore _ => false

end Errand

/-- Where the thread of the refresh loop stands. -/
inductive Stand where
  | absent
  | launched
  | asking (chore : Chore)
  /-- The price has been polled, and candles may be due. -/
  | polled
  | resting
  | ended

namespace Stand

/-- What the loop can ask for next; a rest ends with a poll unless the loop was told to stop. -/
def next? (stopped : Bool) : Stand → Option Chore
  | launched => some .firstCandles
  | polled => some .candles
  | resting => if stopped then none else some .price
  | absent | asking _ | ended => none

/-- Where an answer leads. -/
def after : Chore → Stand
  | .price => polled
  | .firstCandles | .candles => resting

end Stand

/-- How far a lookup has come that was left to a pool. -/
inductive Progress where
  | queued
  | asking
  | answered (answer : Outcome Value)
  /-- The market data have taken note of the answer. -/
  | landed (answer : Outcome Value)
  | cancelled

structure Job where
  period : Period
  /-- The number of the pool that it was left to. -/
  pool : Nat
  progress : Progress

namespace Job

def isFor (p : Period) (j : Job) : Bool :=
  j.period == p

def isOpen (j : Job) : Bool :=
  match j.progress with
  | .queued | .asking | .answered _ => true
  | .landed _ | .cancelled => false

def isQueued (j : Job) : Bool :=
  match j.progress with
  | .queued => true
  | _ => false

/-- Cancels what has not begun of the lookups that were left to a pool. -/
def shutDown (pool : Option Nat) (j : Job) : Job :=
  if pool == some j.pool && j.isQueued then { j with progress := .cancelled } else j

end Job

/-- Market data and what goes on around them. -/
structure Threads where
  market : Market
  loop : Stand := .absent
  jobs : List Job := []
  /-- The pool that lookups are left to, if there is one. -/
  pool : Option Nat := none
  /-- The pool that disposal has taken away. -/
  retired : Option Nat := none
  /-- Has the loop been told to stop? -/
  halted : Bool := false
  /-- Has disposal come to its end? -/
  closed : Bool := false
  /-- How many threads were launched for the loop, and how many pools were created. -/
  loops : Nat := 0
  pools : Nat := 0
  /-- The requests to the source, in the order in which they were begun. -/
  asked : List Errand := []
  answers : List (Errand × Outcome Value) := []

/-- What can happen at one moment. -/
inductive Happening where
  | start
  | warmUp (unit length : Value)
  | ingest (batch : Value)
  | setLive (price : Value)
  /-- The first part of disposal; later ones find nothing to do. -/
  | retire
  /-- The second and the third part of disposal. -/
  | halt
  | close
  /-- The loop begins its next request. -/
  | ask
  | reply (answer : Outcome Value)
  /-- Candles are not due yet. -/
  | rest
  | leave
  /-- A lookup begins, is answered, and lands. -/
  | lookUp (job : Nat)
  | answer (job : Nat) (answer : Outcome Value)
  | land (job : Nat)

namespace Threads

def new (settings : Settings) : Threads where
  market := .new settings true

variable (t : Threads)

def start : Threads :=
  let market := t.market.start.2
  if market.launched && !t.market.launched then
    { t with market, loop := .launched, loops := t.loops + 1 }
  else { t with market }

/-- Leaves a lookup to the pool, which is created if there is none. -/
def submit (p : Period) : Threads :=
  { t with
    jobs := t.jobs ++ [⟨p, t.pool.getD t.pools, .queued⟩]
    pool := some (t.pool.getD t.pools)
    pools := if t.pool.isSome then t.pools else t.pools + 1 }

/-- The period of the lookup that was started between two states, if it is to be carried out. -/
def started? (m m' : Market) : Option Period :=
  ((m'.lookups.drop m.lookups.length).find? (·.2 == .pending)).map (·.1)

def warmUp (unit length : Value) : Threads :=
  let market := (t.market.warmUp unit length).2
  match started? t.market market with
  | some p => { t with market }.submit p
  | none => { t with market }

def retire : Threads :=
  if t.market.disposed then t
  else { t with market := { t.market with disposed := true }, retired := t.pool, pool := none }

/-- Is the lookup of a period left to the retired pool, which has not begun it? -/
def abandons (p : Period) : Bool :=
  t.jobs.any fun j => t.retired == some j.pool && j.isQueued && j.isFor p

def close : Threads :=
  { t with
    jobs := t.jobs.map (Job.shutDown t.retired)
    market := { t.market with
      lookups := t.market.lookups.map fun l => if t.abandons l.1 then (l.1, .finished) else l }
    closed := true }

def ask (chore : Chore) : Threads :=
  { t with loop := .asking chore, asked := t.asked ++ [.chore chore] }

/-- The market data after an answer to the loop. -/
def told (m : Market) (answer : Outcome Value) : Chore → Market
  | .firstCandles => (m.fetchFirst (.always answer) ()).1
  | .price => (m.poll (.always answer) ()).1
  | .candles => (m.refresh (.always answer) refreshCount ()).1

def reply (chore : Chore) (answer : Outcome Value) : Threads :=
  { t with
    loop := .after chore
    market := told t.market answer chore
    answers := t.answers ++ [(.chore chore, answer)] }

def lookUp (i : Nat) (j : Job) : Threads :=
  { t with
    jobs := t.jobs.set i { j with progress := .asking }
    asked := t.asked ++ [.highest j.period] }

def answer (i : Nat) (j : Job) (answer : Outcome Value) : Threads :=
  { t with
    jobs := t.jobs.set i { j with progress := .answered answer }
    answers := t.answers ++ [(.highest j.period, answer)] }

def land (i : Nat) (j : Job) (answer : Outcome Value) : Threads :=
  { t with
    jobs := t.jobs.set i { j with progress := .landed answer }
    market := (t.market.runLookup (.always answer) j.period ()).1 }

/-- What happens, if it can happen. -/
def step? : Happening → Option Threads
  | .start => some t.start
  | .warmUp unit length => some (t.warmUp unit length)
  | .ingest batch => some { t with market := (t.market.ingest batch).2 }
  | .setLive price => some { t with market := (t.market.setLive price).2 }
  | .retire => some t.retire
  | .halt => if t.market.disposed then some { t with halted := true } else none
  | .close => if t.halted && !t.closed then some t.close else none
  | .ask => (t.loop.next? t.halted).map t.ask
  | .reply answer => match t.loop with
    | .asking chore => some (t.reply chore answer)
    | _ => none
  | .rest => match t.loop with
    | .polled => some { t with loop := .resting }
    | _ => none
  | .leave => match t.loop with
    | .resting => if t.halted then some { t with loop := .ended } else none
    | _ => none
  | .lookUp i => match t.jobs[i]? with
    | some j => if j.isQueued then some (t.lookUp i j) else none
    | none => none
  | .answer i answer => match t.jobs[i]? with
    | some j => match j.progress with
      | .asking => some (t.answer i j answer)
      | _ => none
    | none => none
  | .land i => match t.jobs[i]? with
    | some j => match j.progress with
      | .answered answer => some (t.land i j answer)
      | _ => none
    | none => none

/-- What happens one after the other, if it can happen. -/
def run? : List Happening → Threads → Option Threads
  | [], t => some t
  | h :: rest, t => (t.step? h).bind (run? rest)

end Threads

end TradingRules.Market
