import TradingRules.Logic.Control
import TradingRules.Text.Lower

/-!
# Dispatch of orders

An order is sent to a *broker* as one of four placements, sized in money or, for a sale at the
market, in units. What the broker reports is logged and handed on; a failure of the broker is
logged as an error and never passed on. Without a broker the order is only logged.
-/

namespace TradingRules

inductive Side where
  | buy | sell
  deriving DecidableEq, Repr

namespace Side

def name : Side → String
  | buy => "buy"
  | sell => "sell"

def title : Side → String
  | buy => "Buy"
  | sell => "Sell"

def ofValue? : Value → Option Side
  | .text "buy" => some buy
  | .text "sell" => some sell
  | _ => none

@[simp] theorem ofValue?_name (side : Side) : ofValue? (.text side.name) = some side := by
  cases side <;> rfl

end Side

namespace Order

structure Entry where
  title : String
  message : String
  deriving DecidableEq, Repr, Inhabited

inductive Placement where
  | marketBuy (stock amount : Value)
  | marketSell (stock volume : Value)
  | limitBuy (stock price amount : Value)
  | limitSell (stock price amount : Value)
  deriving Inhabited

namespace Placement

def method : Placement → String
  | marketBuy _ _ => "market_buy"
  | marketSell _ _ => "market_sell"
  | limitBuy _ _ _ => "limit_buy_with_krw"
  | limitSell _ _ _ => "limit_sell_with_krw"

def params : Placement → List Value
  | marketBuy stock amount => [stock, amount]
  | marketSell stock volume => [stock, volume]
  | limitBuy stock price amount => [stock, price, amount]
  | limitSell stock price amount => [stock, price, amount]

/-- The placement for an order; every type of order but `market` is a limit order. -/
def ofOrder (side : Side) (order : OrderData) (stock : Value) : Placement :=
  match side, order.orderType == .text "market" with
  | .buy, true => marketBuy stock order.quantity
  | .sell, true => marketSell stock order.quantity
  | .buy, false => limitBuy stock order.limitPrice order.quantity
  | .sell, false => limitSell stock order.limitPrice order.quantity

end Placement

structure Broker (σ : Type) where
  place : Placement → σ → Outcome Value × σ

def describe (action : Value) (order : OrderData) : Outcome String := do
  if order.orderType == .text "market" then
    if action == .text "sell" then
      return s!"market sell of {← order.quantity.sixDigits} units"
    else
      return s!"market {action.shown} of {← order.quantity.sixDigits} KRW"
  else
    let quantity ← order.quantity.sixDigits
    let price ← order.limitPrice.sixDigits
    return s!"limit {action.shown} of {quantity} KRW at {price} KRW"

def failure (reason : String) : Value :=
  .object [("success", .bool false), ("error", .text reason)]

/-- A report, where one that counts as false stands for an empty answer. -/
def answerOf (report : Value) : Value :=
  report.orElse (failure "empty response")

def closingEntry (title description : String) (stock answer : Value) : Outcome Entry := do
  let fields ← answer.asFields
  if (fields.get "success").isTruthy then
    return ⟨title, s!"Completed {description} on {stock.shown}"⟩
  else
    let reason := (fields.get "error").shown
    return ⟨"Error", s!"{Text.capitalize description} failed: {reason}"⟩

/-- The entries that the execution of an order logs, and its result. -/
structure Report where
  entries : List Entry
  result : Outcome Value

/-- The report on an order that a broker answered or that failed with a fault. -/
def settle (title description : String) (stock : Value) (opening : Entry) :
    Outcome Value → Report
  | .error e =>
    { entries := [opening, ⟨"Error", s!"Order processing error ({description}): {e.message}"⟩]
      result := .ok (failure e.message) }
  | .ok report =>
    match closingEntry title description stock (answerOf report) with
    | .ok entry => ⟨[opening, entry], .ok (answerOf report)⟩
    | .error e => ⟨[opening], .error e⟩

/-- Executes an order. An action that is neither side reaches no broker. -/
def execute {σ : Type} (broker : Option (Broker σ)) (action : Value) (order : OrderData)
    (stock : Value) (s : σ) : Report × σ :=
  let title := ((Side.ofValue? action).getD .sell).title
  match describe action order with
  | .error e => (⟨[], .error e⟩, s)
  | .ok description =>
    match broker with
    | none =>
      let entry := ⟨title, s!"Dry run: {description} on {stock.shown} (no order sink configured)"⟩
      (⟨[entry], .ok (failure "no order sink configured")⟩, s)
    | some broker =>
      let opening := ⟨title, s!"Placing {description} on {stock.shown}"⟩
      match Side.ofValue? action with
      | none =>
        let fault := .badValue s!"Unknown order action: {action.shown}"
        (settle title description stock opening (.error fault), s)
      | some side =>
        let (answer, s) := broker.place (.ofOrder side order stock) s
        (settle title description stock opening answer, s)

end Order

end TradingRules
