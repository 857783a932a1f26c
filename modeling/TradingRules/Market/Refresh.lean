import TradingRules.Market.Basic
import TradingRules.Number.Binary

/-!
# The refresh loop

After the first fetch the live price is polled once per interval, and candles are fetched again
when enough time has passed since the last fetch ended. Requests take time, and the next one waits
for the one before it.
-/

namespace TradingRules.Market

structure TimedSource (σ α : Type) where
  source : Source σ
  now : σ → α
  wait : α → σ → σ

/-- The intervals of the refresh loop, which can turn out to be none. -/
structure Pace (α : Type) where
  poll : Outcome α
  /-- Is it time to fetch candles again, when the last fetch is so long ago? -/
  isDue : α → Outcome Bool

def Settings.pace (settings : Settings) : Pace Float where
  poll := match settings.pollInterval.numeric? with
    | some n => n.toFloat
    | none => .error (.notOperable "+" (.real 0.0) settings.pollInterval)
  isDue elapsed := Value.compareBy .greaterEqual (.real elapsed) settings.refreshSeconds

structure Loop (σ α : Type) where
  market : Market
  fetched : α
  surroundings : σ

namespace Loop

variable {σ α : Type} (C : Clock α) (T : TimedSource σ α)

def start (m : Market) (s : σ) : Loop σ α :=
  let (m, s) := m.fetchFirst T.source s
  ⟨m, T.now s, s⟩

def poll (interval : α) (l : Loop σ α) : Loop σ α :=
  let (m, s) := l.market.poll T.source (T.wait interval l.surroundings)
  { l with market := m, surroundings := s }

def refresh (l : Loop σ α) : Loop σ α :=
  let (m, s) := l.market.refresh T.source refreshCount l.surroundings
  ⟨m, T.now s, s⟩

/-- A poll, and a fetch of candles if the last one is long enough ago. -/
def round (pace : Pace α) (l : Loop σ α) : Outcome Unit × Loop σ α :=
  match pace.poll with
  | .error e => (.error e, l)
  | .ok interval =>
    let l := l.poll T interval
    match pace.isDue (C.sub (T.now l.surroundings) l.fetched) with
    | .error e => (.error e, l)
    | .ok due => (.ok (), if due then l.refresh T else l)

/-- A number of rounds of the loop, up to the first that fails. -/
def rounds (pace : Pace α) : Nat → Loop σ α → Outcome Unit × Loop σ α
  | 0, l => (.ok (), l)
  | n + 1, l => match l.round C T pace with
    | (.ok (), l) => rounds pace n l
    | failed => failed

end Loop

def runLoop {σ α : Type} (C : Clock α) (T : TimedSource σ α) (pace : Pace α) (waits : Nat)
    (m : Market) (s : σ) : Outcome Unit × Market × σ :=
  match (Loop.start T m s).rounds C T pace waits, pace.poll with
  | (.error e, l), _ => (.error e, l.market, l.surroundings)
  | (.ok (), l), .error e => (.error e, l.market, l.surroundings)
  | (.ok (), l), .ok interval => (.ok (), l.market, T.wait interval l.surroundings)

end TradingRules.Market
