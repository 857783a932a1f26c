import TradingRules.Market.History

/-!
# Market data of one symbol

The state behind a running logic: the candle history, the live price, the highest prices that were
looked up, and the lookups under way. A *source* answers requests for market data and keeps a state
of its own. Fetching swallows every failure of the source; the next attempt tries again.
-/

namespace TradingRules

namespace Market

structure Request where
  method : String
  params : List Value
  deriving Inhabited

/-- Answers requests for market data, changing its own state. -/
structure Source (σ : Type) where
  answer : Request → σ → Outcome Value × σ

/-- Where a lookup stands. A failed one is forgotten unless its answer was no number. -/
inductive LookupStatus where
  | pending | finished
  deriving DecidableEq, Repr

/-- Settings of the market data of one symbol. Only the size of the history has to be of the right
kind; the others are used as they are. -/
structure Settings where
  stock : Value
  historySize : Value := .int 200
  limit : Nat := 200
  pollInterval : Value := .real 1.0
  candleInterval : Value := .int 60
  refreshSeconds : Value := .real 60.0

/-- Settings by values, where one that counts as false stands for the usual setting. -/
def Settings.ofValues (stock size poll candle refresh : Value) : Outcome Settings := do
  let usual : Settings := { stock }
  let size := size.orElse usual.historySize
  return { stock
           historySize := size
           limit := ← size.toBound
           pollInterval := poll.orElse usual.pollInterval
           candleInterval := candle.orElse usual.candleInterval
           refreshSeconds := refresh.orElse usual.refreshSeconds }

def refreshCount : Value := .int 5

end Market

open Market in
structure Market where
  settings : Settings
  connected : Bool
  history : History
  live : Option Float := none
  highest : List (Period × Float) := []
  lookups : List (Period × LookupStatus) := []
  ready : Bool := false
  launched : Bool := false
  fetchDue : Bool := false
  disposed : Bool := false

namespace Market

def new (settings : Settings) (connected : Bool) : Market :=
  { settings, connected, history := { limit := settings.limit } }

def ingest (m : Market) (batch : Value) : Outcome Unit × Market :=
  let (result, history) := m.history.ingest batch
  (result, { m with history })

def setLive (m : Market) (price : Value) : Outcome Unit × Market :=
  match price with
  | .null => (.ok (), { m with live := none })
  | price => match price.toFloat with
    | .ok x => (.ok (), { m with live := some x })
    | .error e => (.error e, m)

/-- The live price, else the last close, else NaN. -/
def latestPrice (m : Market) : Float :=
  m.live.getD (m.history.prices.getLast?.getD nan)

/-- Launches the refresh loop, whose first fetch is then due; without a source there is nothing to
wait for. -/
def start (m : Market) : Outcome Unit × Market :=
  if m.disposed then (.error (.misuse "MarketDataManager already disposed"), m)
  else if m.launched then (.ok (), m)
  else if !m.connected then (.ok (), { m with ready := true })
  else (.ok (), { m with launched := true, fetchDue := true })

def dispose (m : Market) : Market :=
  if m.disposed then m
  else { m with
    disposed := true
    lookups := m.lookups.map fun l => (l.1, .finished) }

def candleRequest (m : Market) (count : Value) : Request :=
  ⟨"fetch_candles", [m.settings.stock, m.settings.candleInterval, count]⟩

def priceRequest (m : Market) : Request :=
  ⟨"get_current_price", [m.settings.stock]⟩

def highestRequest (m : Market) (p : Period) : Request :=
  ⟨"get_highest_price", [m.settings.stock, p.unit, .int p.length]⟩

section

variable {σ : Type} (source : Source σ)

/-- Fetches candles and merges them; a failure leaves what was merged before it. -/
def refresh (count : Value) (m : Market) (s : σ) : Market × σ :=
  match source.answer (m.candleRequest count) s with
  | (.ok batch, s) => ((m.ingest batch).2, s)
  | (.error _, s) => (m, s)

/-- The first fetch, after which the data counts as ready even if it failed. -/
def fetchFirst (m : Market) (s : σ) : Market × σ :=
  let (m, s) := m.refresh source m.settings.historySize s
  ({ m with ready := true, fetchDue := false }, s)

/-- Polls the live price; a failure or null leaves it as it is. -/
def poll (m : Market) (s : σ) : Market × σ :=
  match source.answer m.priceRequest s with
  | (.ok .null, s) => (m, s)
  | (.ok price, s) => ((m.setLive price).2, s)
  | (.error _, s) => (m, s)

def finishFetch (m : Market) (s : σ) : Market × σ :=
  if m.fetchDue then m.fetchFirst source s else (m, s)

/-- Asks for a highest price and keeps it. A failed request is forgotten, so that it can be made
again; an answer that is no number ends the lookup for good. -/
def runLookup (p : Period) (m : Market) (s : σ) : Market × σ :=
  match source.answer (m.highestRequest p) s with
  | (.error _, s) => ({ m with lookups := m.lookups.filter fun l => !(l.1 == p) }, s)
  | (.ok price, s) =>
    let m := { m with lookups := m.lookups.map fun l => if l.1 == p then (p, .finished) else l }
    match price.toFloat with
    | .error _ => (m, s)
    | .ok x => ({ m with highest := m.highest.filter (fun h => !(h.1 == p)) ++ [(p, x)] }, s)

def runLookups : List Period → Market → σ → Market × σ
  | [], m, s => (m, s)
  | p :: rest, m, s =>
    let (m, s) := m.runLookup source p s
    runLookups rest m s

/-- The periods of pending lookups, in the order in which they were started. -/
def pending (m : Market) : List Period :=
  (m.lookups.filter fun l => l.2 == .pending).map (·.1)

def finishLookups (m : Market) (s : σ) : Market × σ :=
  m.runLookups source m.pending s

end

/-- The period of a lookup; its unit must be able to be a key. -/
def periodOf (unit length : Value) : Outcome Period := do
  let n ← length.toInt
  if unit.isKey then return ⟨unit, n⟩ else .error (.unhashable unit)

/-- Starts the lookup of a highest price unless there is one already, and tells whether it has
finished. Without a source it has nothing to do. -/
def warmUp (unit length : Value) (m : Market) : Outcome Bool × Market :=
  match periodOf unit length with
  | .error e => (.error e, m)
  | .ok p =>
    match m.lookups.find? fun l => l.1 == p with
    | some l => (.ok (l.2 == .finished), m)
    | none =>
      let status := if m.connected then .pending else .finished
      (.ok (status == .finished), { m with lookups := m.lookups ++ [(p, status)] })

def highest? (m : Market) (p : Period) : Option Float :=
  (m.highest.find? fun h => h.1 == p).map (·.2)

def isHighestReady (m : Market) (unit length : Value) : Outcome Bool := do
  return (m.highest? (← periodOf unit length)).isSome

/-- The highest price of a period, if it has been looked up. -/
def highestPrice (m : Market) (unit length : Value) : Outcome Float := do
  match m.highest? (← periodOf unit length) with
  | some x => return x
  | none => .error (.dataNotReady unit.shown length.shown)

end Market

end TradingRules
