import TradingRules.Exchange.Trading
import TradingRules.Market.Basic
import TradingRules.Order.Dispatch

/-!
# The exchange as a source and a broker

Market data and orders of running logics are served by a client of the exchange. Failures of the
exchange, and arguments it cannot take, are failures of market data.
-/

namespace TradingRules.Exchange

namespace Client

variable {σ : Type} (c : Client) (link : Link σ)

def asMarketData {α : Type} (caught : Fault → Bool) (step : Action σ α) : Action σ α :=
  tryCatch step fun e => throw (if caught e then .marketData e.message else e)

def isDataFault (e : Fault) : Bool :=
  e.isExchange || e.isBadValue

def candleData (market period count : Value) : Action σ Value :=
  asMarketData isDataFault
    (return .list ((← c.fetchCandles link market period count).map Candle.toValue))

def priceData (market : Value) : Action σ Value :=
  asMarketData Fault.isExchange (return .real (← c.currentPrice link market))

def highestData (market unit count : Value) : Action σ Value :=
  asMarketData isDataFault (return .real (← c.highestPrice link market unit count))

def marketData (r : Market.Request) : Action σ Value :=
  match r.method, r.params with
  | "fetch_candles", [market, period, count] => c.candleData link market period count
  | "get_current_price", [market] => c.priceData link market
  | "get_highest_price", [market, unit, count] => c.highestData link market unit count
  | method, _ => throw (.wrongKind s!"{method}() got other arguments than it takes")

def source : Market.Source σ where
  answer r s := (c.marketData link r).run.run s

def carryOut : Order.Placement → Action σ Value
  | .marketBuy stock amount => c.marketBuy link stock amount
  | .marketSell stock volume => c.marketSell link stock volume
  | .limitBuy stock price amount => c.limitBuyFor link stock price amount
  | .limitSell stock price amount => c.limitSellFor link stock price amount

def broker : Order.Broker σ where
  place p s := (c.carryOut link p).run.run s

end Client

end TradingRules.Exchange
