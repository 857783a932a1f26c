import TradingRules.Exchange.Quotation

/-!
# Trading

Orders at the exchange. Placing an order never fails: what goes wrong is part of the report. An
order at the market spends money or sells units; a limit order has a price and a volume.
-/

namespace TradingRules.Exchange

def accepted (data : Value) : Value :=
  .object [("success", .bool true), ("data", data)]

def refused (error : Value) : Value :=
  .object [("success", .bool false), ("error", error)]

/-- What a report says about a fault: what the exchange sent, or else the message. -/
def errorOf : Fault → Value
  | .exchange message _ payload => payload.orElse (.text message)
  | e => .text e.message

def orderBody (market side orderType price volume : Value) : Outcome Fields := do
  let base : Fields := [("market", market), ("side", side)]
  if orderType == .text "market" && side == .text "bid" then
    return base ++ [("ord_type", .text "price"), ("price", .text (← amountText price))]
  else if orderType == .text "market" && side == .text "ask" then
    return base ++ [("ord_type", .text "market"), ("volume", .text (← amountText volume))]
  else if orderType == .text "limit" then
    let price ← amountText price
    let volume ← amountText volume
    return base ++ [("ord_type", .text "limit"), ("price", .text price), ("volume", .text volume)]
  else throw (.badValue s!"Unsupported order type: {orderType.shown}")

def currencyOf : Value → Outcome String
  | .text s => .ok (String.ofList (s.toList.reverse.takeWhile (· != '-')).reverse)
  | v => .error (.noAttribute v.kindName "split")

def accountOf? (currency : String) : List Value → Outcome (Option Fields)
  | [] => .ok none
  | row :: rest => do
    let account ← row.asFields
    if account.get "currency" == .text currency then return some account
    else accountOf? currency rest

/-- The balance of a currency in an answer, zero without an account. -/
def balanceOf (currency : String) (accounts : Value) : Outcome Float := do
  match ← accountOf? currency (← accounts.items) with
  | some account => ((account.get "balance").orElse (.real 0.0)).toFloat
  | none => return 0.0

def isReportable (e : Fault) : Bool :=
  e.isExchange || e.isBadValue || e.isWrongKind

/-- The result of a step, or a report if the exchange let it fail. -/
def orReport {σ α : Type} (step : Action σ α) : Action σ (Except Value α) :=
  tryCatch (return .ok (← step)) fun e =>
    if e.isExchange then return .error (refused (.text e.message)) else throw e

/-- The report about a limit price that is no price, if it is none. -/
def priceComplaint? (price : Value) : Outcome (Option Value) := do
  if price.isTruthy then
    if !(← Value.compareBy .lessEqual price (.int 0)) then return none
  return some (refused (.text s!"Invalid limit price: {price.shown}"))

namespace Client

variable {σ : Type} (c : Client) (link : Link σ)

def placeOrder (market side orderType price volume : Value) : Action σ Value :=
  tryCatch (do
    let body ← (orderBody market side orderType price volume : Outcome Fields)
    return accepted (← c.sendOrder link body)) fun e =>
      if isReportable e then return refused (errorOf e) else throw e

def marketBuy (market amount : Value) : Action σ Value :=
  c.placeOrder link market (.text "bid") (.text "market") amount .null

def marketSell (market volume : Value) : Action σ Value :=
  c.placeOrder link market (.text "ask") (.text "market") .null volume

def limitBuy (market price volume : Value) : Action σ Value :=
  c.placeOrder link market (.text "bid") (.text "limit") price volume

def limitSell (market price volume : Value) : Action σ Value :=
  c.placeOrder link market (.text "ask") (.text "limit") price volume

def limitBuyFor (market price amount : Value) : Action σ Value := do
  match ← (priceComplaint? price : Outcome (Option Value)) with
  | some report => return report
  | none => c.limitBuy link market price (← (Value.div amount price : Outcome Value))

def limitSellFor (market price amount : Value) : Action σ Value := do
  match ← (priceComplaint? price : Outcome (Option Value)) with
  | some report => return report
  | none => c.limitSell link market price (← (Value.div amount price : Outcome Value))

def limitSellAll (market limitPrice : Value) (volume : Float) : Action σ Value := do
  if limitPrice.isTruthy then c.limitSell link market limitPrice (.real volume)
  else match ← orReport (c.currentPrice link market) with
    | .ok price => c.limitSell link market (.real price) (.real volume)
    | .error report => return report

def sellAll (market orderType limitPrice : Value) : Action σ Value := do
  let currency ← (currencyOf market : Outcome String)
  match ← orReport (c.fetchAccounts link) with
  | .error report => return report
  | .ok accounts =>
    let volume ← (balanceOf currency accounts : Outcome Float)
    if volume ≤ 0.0 then return refused (.text s!"No {currency} balance to sell")
    else if orderType == .text "market" then c.marketSell link market (.real volume)
    else if orderType == .text "limit" then c.limitSellAll link market limitPrice volume
    else return refused (.text s!"Unsupported order type: {orderType.shown}")

end Client

end TradingRules.Exchange
