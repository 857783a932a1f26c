import TradingRules.Exchange.Provider

/-!
# Methods by name

The client, and the client as a source and a broker, can be called by the names of their methods.
Arguments are given by place or by name; a parameter without an argument has its usual value.
-/

namespace TradingRules.Exchange

/-- A parameter of a method, with its usual value if it has one. -/
structure Parameter where
  name : String
  usual : Option Value := none

def required (name : String) : Parameter :=
  { name }

def optional (name : String) (usual : Value) : Parameter :=
  { name, usual := some usual }

def clientMethods : List (String × List Parameter) :=
  [("create_token", [optional "params" .null]),
    ("fetch_candles", [required "market", optional "period" (.int 1),
      optional "count" (.int maxCandles)]),
    ("get_current_prices", [required "markets"]),
    ("get_current_price", [required "market"]),
    ("get_highest_price", [required "market", optional "unit" (.text "day"),
      optional "count" (.int 1)]),
    ("fetch_accounts", []),
    ("place_order", [required "market", required "side", required "order_type",
      optional "price" .null, optional "volume" .null]),
    ("market_buy", [required "market", required "krw_amount"]),
    ("market_sell", [required "market", required "volume"]),
    ("limit_buy", [required "market", required "price", required "volume"]),
    ("limit_sell", [required "market", required "price", required "volume"]),
    ("limit_buy_with_krw", [required "market", required "price", required "krw_amount"]),
    ("limit_sell_with_krw", [required "market", required "price", required "krw_amount"]),
    ("sell_all", [required "market", optional "order_type" (.text "market"),
      optional "limit_price" .null])]

def providerMethods : List (String × List Parameter) :=
  [("fetch_candles", [required "symbol", required "interval_minutes", required "count"]),
    ("get_current_price", [required "symbol"]),
    ("get_highest_price", [required "symbol", required "period_unit", required "period_count"]),
    ("market_buy", [required "symbol", required "krw_amount"]),
    ("market_sell", [required "symbol", required "volume"]),
    ("limit_buy_with_krw", [required "symbol", required "price", required "krw_amount"]),
    ("limit_sell_with_krw", [required "symbol", required "price", required "krw_amount"])]

def Parameter.value? (p : Parameter) (place : Nat) (args : List Value) (named : Fields) :
    Option Value :=
  match args[place]?, named.get? p.name with
  | some v, none => some v
  | none, some v => some v
  | none, none => p.usual
  | some _, some _ => none

/-- The values of parameters; none if an argument is missing, given twice or unknown. -/
def bindParameters (params : List Parameter) (args : List Value) (named : Fields) :
    Option (List Value) :=
  if params.length < args.length || named.any fun f => !params.any fun p => p.name == f.1 then none
  else params.zipIdx.mapM fun (p, i) => p.value? i args named

def pricesValue (prices : List (Value × Float)) : Value :=
  .object (prices.map fun p => (p.1.shown, .real p.2))

namespace Client

variable {σ : Type} (c : Client) (link : Link σ)

def call (method : String) (params : List Value) : Action σ Value :=
  match method, params with
  | "create_token", [params] => return .text (← c.createToken link params).text
  | "fetch_candles", [market, period, count] =>
    return .list ((← c.fetchCandles link market period count).map Candle.toValue)
  | "get_current_prices", [markets] => return pricesValue (← c.currentPrices link markets)
  | "get_current_price", [market] => return .real (← c.currentPrice link market)
  | "get_highest_price", [market, unit, count] =>
    return .real (← c.highestPrice link market unit count)
  | "fetch_accounts", [] => c.fetchAccounts link
  | "place_order", [market, side, kind, price, volume] =>
    c.placeOrder link market side kind price volume
  | "market_buy", [market, amount] => c.marketBuy link market amount
  | "market_sell", [market, volume] => c.marketSell link market volume
  | "limit_buy", [market, price, volume] => c.limitBuy link market price volume
  | "limit_sell", [market, price, volume] => c.limitSell link market price volume
  | "limit_buy_with_krw", [market, price, amount] => c.limitBuyFor link market price amount
  | "limit_sell_with_krw", [market, price, amount] => c.limitSellFor link market price amount
  | "sell_all", [market, kind, price] => c.sellAll link market kind price
  | method, _ => throw (.noAttribute "Client" method)

def callProvider (method : String) (params : List Value) : Action σ Value :=
  match method, params with
  | "market_buy", [stock, amount] => c.carryOut link (.marketBuy stock amount)
  | "market_sell", [stock, volume] => c.carryOut link (.marketSell stock volume)
  | "limit_buy_with_krw", [stock, price, amount] => c.carryOut link (.limitBuy stock price amount)
  | "limit_sell_with_krw", [stock, price, amount] => c.carryOut link (.limitSell stock price amount)
  | method, params => c.marketData link ⟨method, params⟩

def callNamed (asProvider : Bool) (method : String) (args : List Value) (named : Fields) :
    Action σ Value :=
  match (if asProvider then providerMethods else clientMethods).find? fun m => m.1 == method with
  | none => throw (.noAttribute "Client" method)
  | some (_, params) =>
    match bindParameters params args named with
    | none => throw (.wrongKind s!"{method}() got other arguments than it takes")
    | some values =>
      if asProvider then c.callProvider link method values else c.call link method values

end Client

end TradingRules.Exchange
