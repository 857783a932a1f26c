import TradingRules.Exchange.Client
import TradingRules.Indicator

/-!
# Quotations

Candles, current prices and highest prices as the public part of the exchange gives them.
-/

namespace TradingRules.Exchange

def minutePeriods : List Int := [1, 3, 5, 10, 15, 30, 60, 240]

def maxCandles : Int := 200

def unitPaths : List (String × String) :=
  [("day", "candles/days"), ("week", "candles/weeks"), ("month", "candles/months"),
    ("year", "candles/years")]

def candleCount (count : Value) : Outcome Int := do
  return max 1 (min (← count.toInt) maxCandles)

/-- A candle: its time in seconds, its closing price and its volume. -/
structure Candle where
  timestamp : Int
  price : Float
  volume : Float
  deriving Inhabited

namespace Candle

def toValue (c : Candle) : Value :=
  .object [("timestamp", .int c.timestamp), ("price", .real c.price), ("volume", .real c.volume)]

def ofValue (row : Value) : Outcome Candle := do
  let timestamp ← (← row.item "timestamp").toInt
  let price ← (← row.item "trade_price").toFloat
  let volume ← (((← row.asFields).get "candle_acc_trade_volume").orElse (.real 0.0)).toFloat
  return ⟨Int.fdiv timestamp 1000, price, volume⟩

end Candle

def tickerOf (row : Value) : Outcome (Value × Float) := do
  let market ← row.item "market"
  let price ← (← row.item "trade_price").toFloat
  if market.isKey then return (market, price) else throw (.unhashable market)

/-- Prices by market, in the order in which the markets appear; the last price of a market
counts. -/
def addTicker (prices : List (Value × Float)) (t : Value × Float) : List (Value × Float) :=
  if prices.any fun p => p.1.isSame t.1 then
    prices.map fun p => if p.1.isSame t.1 then (p.1, t.2) else p
  else prices ++ [t]

def textItems (items : List Value) : Outcome (List String) :=
  items.zipIdx.mapM fun (v, i) => match v with
    | .text s => .ok s
    | v => .error (.wrongKind s!"sequence item {i}: expected str instance, {v.kindName} found")

def marketList (markets : Value) : Outcome String := do
  match markets with
  | .null | .bool _ | .int _ | .real _ | .undefined _ =>
    .error (.wrongKind "can only join an iterable")
  | markets => return ",".intercalate (← textItems (← markets.items))

def pricesOf (raw : Value) : Outcome (List (Value × Float)) := do
  return ((← (← raw.items).mapM tickerOf).foldl addTicker [])

/-- The highest price of a candle, if it has one. -/
def highOf (row : Value) : Outcome (Option Float) := do
  match (← row.asFields).get "high_price" with
  | .null => return none
  | v => return some (← v.toFloat)

/-- The highest price in an answer, NaN when there is none. -/
def highestOf (raw : Value) : Outcome Float := do
  let highs ← (← raw.items).mapM highOf
  (← Indicator.highest (highs.filterMap fun h => h.map Value.real)).toFloat

namespace Client

variable {σ : Type} (c : Client) (link : Link σ)

def fetchCandles (market period count : Value) : Action σ (List Candle) := do
  if !(minutePeriods.any fun n => period == .int n) then
    let valid := (Value.list (minutePeriods.map .int)).written
    throw (.badValue s!"Unsupported candle period {period.shown}; valid: {valid}")
  let count ← (candleCount count : Outcome Int)
  let path := s!"candles/minutes/{period.shown}"
  let raw ← c.ask link path [("market", market), ("count", .int count)]
  let candles ← ((do (← raw.items).mapM Candle.ofValue) : Outcome (List Candle))
  return candles.mergeSort fun a b => a.timestamp ≤ b.timestamp

def currentPrices (markets : Value) : Action σ (List (Value × Float)) := do
  if markets.isTruthy then
    let list ← (marketList markets : Outcome String)
    let raw ← c.ask link "ticker" [("markets", .text list)]
    (pricesOf raw : Outcome (List (Value × Float)))
  else return []

def currentPrice (market : Value) : Action σ Float := do
  let prices ← c.currentPrices link (.list [market])
  match prices.find? fun p => p.1.isSame market with
  | some (_, price) => return price
  | none => throw (.exchange s!"No ticker returned for {market.shown}" .null .null)

def unitPath (unit : Value) : Outcome String := do
  if !unit.isKey then throw (.unhashable unit)
  match unitPaths.find? fun p => unit == .text p.1 with
  | some (_, path) => return path
  | none =>
    let units := (unitPaths.map (·.1)).mergeSort fun a b => a ≤ b
    let valid := (Value.list (units.map .text)).written
    throw (.badValue s!"Unsupported period unit '{unit.shown}'; valid: {valid}")

def highestPrice (market unit count : Value) : Action σ Float := do
  let path ← (unitPath unit : Outcome String)
  let count ← (candleCount count : Outcome Int)
  let raw ← c.ask link path [("market", market), ("count", .int count)]
  let highest ← (highestOf raw : Outcome Float)
  if highest.isNaN then
    throw (.exchange s!"No {unit.shown} candles returned for {market.shown}" .null .null)
  return highest

end Client

end TradingRules.Exchange
