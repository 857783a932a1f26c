import TradingRules.Proofs.Exchange.Answers
import TradingRules.Proofs.Value.Readings

/-!
# Failures of market data

Whoever asks for market data is told of failures in one way: as failures of market data. That holds
for requests that fail, for responses that stand for a fault, and for prices that are no numerals.
What passes is a fault about the shape of an accepted response: rows that are none, fields that are
missing, and values that are no numbers or too large. For a current price a response that is no JSON
passes too, and for everything one that is nested too deeply.
-/

namespace TradingRules

open Exchange.Client (isDataFault)
open Value (Reading reading_toFloat reading_toInt)

namespace Exchange

/-! ### Translated faults -/

def isMarketData : Fault → Bool
  | .marketData _ => true
  | _ => false

theorem isMarketData_eq_false_iff (e : Fault) :
    isMarketData e = false ↔ ∀ message, e ≠ .marketData message := by
  cases e <;> simp [isMarketData]

/-- Faults that are told as failures of market data if some are caught. -/
def toldAsData (caught : Fault → Bool) (e : Fault) : Bool :=
  caught e || isMarketData e

theorem catches_isDataFault : Catches (toldAsData isDataFault) true where
  refusal _ _ _ := rfl
  garbled h := by simp [toldAsData, isDataFault, Fault.isBadValue, h]
  tooDeep _ := rfl

theorem catches_isExchange : Catches (toldAsData Fault.isExchange) false where
  refusal _ _ _ := rfl
  garbled _ := rfl
  tooDeep _ := rfl

theorem toldAsData_wrongKind (message : String) :
    toldAsData isDataFault (.wrongKind message) = false := rfl

theorem toldAsData_missingKey (key : Value) :
    toldAsData isDataFault (.missingKey key) = false := rfl

/-- What a value is passes, and what it says does not. -/
theorem escapes_of_reading {α : Type} {kind size : Prop} {x : Outcome α}
    (h : Reading kind size x) :
    Outcome.Escapes (toldAsData isDataFault) x ↔ kind ∨ size := by
  cases h with
  | number x hkind hsize => simp [hkind, hsize]
  | ofKind _ hkind => exact iff_of_true ((Outcome.escapes_error_iff _).mpr rfl) (.inl hkind)
  | ofSize _ _ hsize => exact iff_of_true ((Outcome.escapes_error_iff _).mpr rfl) (.inr hsize)
  | unreadable message hkind hsize =>
    have hcaught : toldAsData isDataFault (.badValue message) = true := rfl
    simp [hcaught, hkind, hsize]

/-- Where faults of the exchange are caught alone, every fault of a number passes. -/
theorem escapes_isExchange_of_reading {α : Type} {kind size : Prop} {x : Outcome α}
    (h : Reading kind size x) :
    Outcome.Escapes (toldAsData Fault.isExchange) x ↔ ∀ a, x ≠ .ok a := by
  cases h with
  | number x => exact iff_of_false (Outcome.not_escapes_ok x) fun h => h x rfl
  | ofKind | ofSize | unreadable => exact iff_of_true ((Outcome.escapes_error_iff _).mpr rfl) nofun

/-! ### Rows that are no candles, prices or high prices -/

/-- A row of which no candle is made for what it is: it is no object, or the first field that cannot
be read is missing or holds no number that fits. -/
def Candle.IsMisfit (row : Value) : Prop :=
  ∀ fields : Fields, row = .object fields → ∀ t, fields.get? "timestamp" = some t →
    (t.IsNoNumber ∨ t.ExceedsWholes) ∨ ∃ n, t.toInt = .ok n ∧
      ∀ p, fields.get? "trade_price" = some p →
      (p.IsNoNumber ∨ p.ExceedsDoubles) ∨ ∃ x, p.toFloat = .ok x ∧
        let volume := (fields.get "candle_acc_trade_volume").orElse (.real 0.0)
        volume.IsNoNumber ∨ volume.ExceedsDoubles

/-- A row that gives no price of a market. -/
def IsTickerMisfit (row : Value) : Prop :=
  ∀ fields : Fields, row = .object fields → ∀ market, fields.get? "market" = some market →
    ∀ p, fields.get? "trade_price" = some p →
      (∀ x, p.toFloat ≠ .ok x) ∨ market.isKey = false

/-- A row that is no object, or whose highest price is no number that fits. -/
def IsHighMisfit (row : Value) : Prop :=
  ∀ fields : Fields, row = .object fields → fields.get "high_price" ≠ .null ∧
    ((fields.get "high_price").IsNoNumber ∨ (fields.get "high_price").ExceedsDoubles)

/-- There are no rows, or the first of them that cannot be read is a misfit. -/
def Stumbles {α : Type} (reads : Value → Outcome α) (misfit : Value → Prop) (body : Value) : Prop :=
  (∀ rows, body.items ≠ .ok rows) ∨ ∃ before row after, body.items = .ok (before ++ row :: after) ∧
    (∀ r ∈ before, ∃ a, reads r = .ok a) ∧ misfit row

variable {caught : Fault → Bool}

theorem escapes_items (hcaught : ∀ message, caught (.wrongKind message) = false) (body : Value) :
    Outcome.Escapes caught body.items ↔ ∀ rows, body.items ≠ .ok rows := by
  cases body with
  | text | list | object => simp [Value.items]
  | null | bool | int | real | undefined => simp [Value.items, Fault.notIterable, hcaught]

theorem escapes_rows {α : Type} (hcaught : ∀ message, caught (.wrongKind message) = false)
    {reads : Value → Outcome α} {misfit : Value → Prop}
    (hreads : ∀ row, Outcome.Escapes caught (reads row) ↔ misfit row) (body : Value) :
    Outcome.Escapes caught (body.items >>= fun rows => rows.mapM reads) ↔
      Stumbles reads misfit body := by
  rw [Outcome.escapes_bind, escapes_items hcaught, Stumbles]
  simp only [Outcome.escapes_mapM, hreads]
  apply or_congr_right
  constructor
  · rintro ⟨_, hitems, before, row, after, rfl, hrest⟩
    exact ⟨before, row, after, hitems, hrest⟩
  · rintro ⟨before, row, after, hitems, hrest⟩
    exact ⟨_, hitems, before, row, after, rfl, hrest⟩

/-- A missing field is a fault that passes. -/
theorem escapes_item_bind {α : Type} (hkey : ∀ key, caught (.missingKey key) = false)
    (fields : Fields) (key : String) (f : Value → Outcome α) :
    Outcome.Escapes caught ((Value.object fields).item key >>= f) ↔
      ∀ v, fields.get? key = some v → Outcome.Escapes caught (f v) := by
  rw [Value.item]
  cases fields.get? key <;> simp [hkey]

theorem escapes_item_bind_of_not_object {α : Type}
    (hcaught : ∀ message, caught (.wrongKind message) = false) {row : Value}
    (h : ∀ fields, row ≠ .object fields) (key : String) (f : Value → Outcome α) :
    Outcome.Escapes caught (row.item key >>= f) := by
  cases row with
  | object fields => exact absurd rfl (h fields)
  | list | text | null | bool | int | real | undefined =>
    simp [Value.item, Value.listIndexFault, hcaught]

/-- A row that is no object escapes, and one that is escapes for its fields. -/
theorem iff_forall_object {row : Value} {escapes : Prop} {misfit : Fields → Prop}
    (hobject : ∀ fields, row = .object fields → (escapes ↔ misfit fields))
    (hother : (∀ fields, row ≠ .object fields) → escapes) :
    escapes ↔ ∀ fields, row = .object fields → misfit fields := by
  constructor
  · intro h fields hrow
    exact (hobject fields hrow).mp h
  · intro h
    by_cases hrow : ∃ fields, row = .object fields
    · obtain ⟨fields, hrow⟩ := hrow
      exact (hobject fields hrow).mpr (h fields hrow)
    · exact hother (not_exists.mp hrow)

theorem escapes_ofValue (row : Value) :
    Outcome.Escapes (toldAsData isDataFault) (Candle.ofValue row) ↔ Candle.IsMisfit row := by
  apply iff_forall_object
  · rintro fields rfl
    have hfields : (Value.object fields).asFields = .ok fields := rfl
    rw [Candle.ofValue, escapes_item_bind fun _ => toldAsData_missingKey _]
    apply forall₂_congr
    intro t _
    rw [Outcome.escapes_bind, escapes_of_reading (reading_toInt t)]
    apply or_congr_right
    apply exists_congr
    intro n
    apply and_congr_right
    intro _
    rw [escapes_item_bind fun _ => toldAsData_missingKey _]
    apply forall₂_congr
    intro p _
    rw [Outcome.escapes_bind, escapes_of_reading (reading_toFloat p)]
    apply or_congr_right
    apply exists_congr
    intro x
    apply and_congr_right
    intro _
    rw [hfields, Outcome.ok_bind, Outcome.escapes_bind_pure,
      escapes_of_reading (reading_toFloat _)]
  · intro hobject
    rw [Candle.ofValue]
    exact escapes_item_bind_of_not_object toldAsData_wrongKind hobject "timestamp" _

/-- Whatever goes wrong with the row of a current price passes. -/
theorem escapes_tickerOf (row : Value) :
    Outcome.Escapes (toldAsData Fault.isExchange) (tickerOf row) ↔ IsTickerMisfit row := by
  apply iff_forall_object
  · rintro fields rfl
    have hkey : ∀ key, toldAsData Fault.isExchange (.missingKey key) = false := fun _ => rfl
    rw [tickerOf, escapes_item_bind fun _ => hkey _]
    apply forall₂_congr
    intro market _
    rw [escapes_item_bind fun _ => hkey _]
    apply forall₂_congr
    intro p _
    rw [Outcome.escapes_bind, escapes_isExchange_of_reading (reading_toFloat p)]
    cases hmarket : market.isKey with
    | true => simp
    | false =>
      have hthrow : Outcome.Escapes (toldAsData Fault.isExchange)
          (throw (.unhashable market) : Outcome (Value × Float)) :=
        (Outcome.escapes_error_iff _).mpr rfl
      cases p.toFloat <;> simp [hthrow]
  · intro hobject
    rw [tickerOf]
    exact escapes_item_bind_of_not_object (fun _ => rfl) hobject "market" _

theorem escapes_highOf (row : Value) :
    Outcome.Escapes (toldAsData isDataFault) (highOf row) ↔ IsHighMisfit row := by
  apply iff_forall_object
  · rintro fields rfl
    have hfields : (Value.object fields).asFields = .ok fields := rfl
    rw [highOf, hfields, Outcome.ok_bind]
    cases Fields.get fields "high_price" with
    | null => simp
    | bool | int | real | undefined | text | list | object =>
      simp only [ne_eq, reduceCtorEq, not_false_eq_true, true_and]
      rw [Outcome.escapes_bind_pure, escapes_of_reading (reading_toFloat _)]
  · intro hobject
    have hfields : ∃ kind name, row.asFields = .error (.noAttribute kind name) := by
      cases row with
      | object fields => exact absurd rfl (hobject fields)
      | list | text | null | bool | int | real | undefined => exact ⟨_, _, rfl⟩
    obtain ⟨kind, name, hfields⟩ := hfields
    rw [highOf, hfields]
    exact (Outcome.escapes_error_iff _).mpr rfl

/-! ### Calls for market data -/

/-- A call for market data: the candles of a period of minutes, the current price, or the highest
price of a number of days, weeks, months or years. -/
inductive Inquiry where
  | candles (symbol : String) (period count : Int)
  | price (symbol : String)
  | highest (symbol unit : String) (count : Int)

namespace Inquiry

/-- Are the period and the count of those that can be asked for? -/
def IsValid : Inquiry → Prop
  | candles _ period count => period ∈ minutePeriods ∧ 1 ≤ count
  | price _ => True
  | highest _ unit count => unit ∈ periodUnits ∧ 1 ≤ count

def call : Inquiry → Market.Request
  | candles symbol period count => ⟨"fetch_candles", [.text symbol, .int period, .int count]⟩
  | price symbol => ⟨"get_current_price", [.text symbol]⟩
  | highest symbol unit count => ⟨"get_highest_price", [.text symbol, .text unit, .int count]⟩

/-- The answers that make a call fail in another way than as a failure of market data. -/
def IsMisled : Inquiry → Except String Response → Prop
  | candles _ _ _, answer =>
    IsTooDeep answer ∨ ∃ body, Holds answer body ∧ Stumbles Candle.ofValue Candle.IsMisfit body
  | price _, answer =>
    IsTooDeep answer ∨ IsGarbled answer ∨
      ∃ body, Holds answer body ∧ Stumbles tickerOf IsTickerMisfit body
  | highest _ _ _, answer =>
    IsTooDeep answer ∨ ∃ body, Holds answer body ∧ Stumbles highOf IsHighMisfit body

end Inquiry

namespace Client

variable {σ : Type} (c : Client) (link : Link σ) (s : σ)

/-- Faults that are caught are told as failures of market data. -/
def told {α : Type} (caught : Fault → Bool) (x : Outcome α) : Outcome α :=
  x.mapError fun e => if caught e then .marketData e.message else e

theorem exec_asMarketData {α : Type} (caught : Fault → Bool) (step : Action σ α) :
    (asMarketData caught step).exec s = (told caught (step.exec s).1, (step.exec s).2) := by
  rw [asMarketData, ExceptT.exec_tryCatch]
  rcases step.exec s with ⟨e | a, s'⟩ <;> rfl

/-- A call fails otherwise exactly if a fault passes. -/
theorem told_fails_otherwise_iff {α : Type} (caught : Fault → Bool) (x : Outcome α) :
    (∃ e, told caught x = .error e ∧ ∀ message, e ≠ .marketData message) ↔
      Outcome.Escapes (toldAsData caught) x := by
  cases x with
  | ok a => simp [told, Except.mapError]
  | error e =>
    have htold : told caught (.error e : Outcome α) =
        .error (if caught e then .marketData e.message else e) := rfl
    rw [htold, Outcome.escapes_error_iff, toldAsData]
    cases caught e <;> simp [isMarketData_eq_false_iff]

/-- A step that sends one request, without a body, and makes something of the answer. -/
def Asks {α : Type} (step : Action σ α) (make : Value → Outcome α) : Prop :=
  ∃ r : Request, r.verb = .get ∧ ∀ s, step.exec s =
    (received (link.send r s).1 >>= make, (link.send r s).2)

variable {link}

theorem Asks.map {α β : Type} {step : Action σ α} {make : Value → Outcome α}
    (h : Asks link step make) (f : α → β) :
    Asks link (do return f (← step)) fun raw => make raw >>= fun a => pure (f a) := by
  obtain ⟨r, hverb, hexec⟩ := h
  refine ⟨r, hverb, fun s => ?_⟩
  rw [ExceptT.exec_bind, hexec, ← bind_assoc]
  cases received (link.send r s).1 >>= make <;> rfl

variable (link)

theorem exec_ask_bind {α : Type} (path : String) (params : Fields) {next : Value → Action σ α}
    {make : Value → Outcome α} (hnext : ∀ raw s, (next raw).exec s = (make raw, s)) :
    (c.ask link path params >>= next).exec s =
      let sent := link.send
        { verb := .get, url := c.url path, params := .object params, timeout := c.timeout } s
      (received sent.1 >>= make, sent.2) := by
  rw [ExceptT.exec_bind, ask, exec_exchange]
  generalize link.send _ s = sent
  dsimp only
  cases received sent.1 with
  | error e => rfl
  | ok raw => exact hnext raw sent.2

theorem candleCount_of_pos {n : Int} (h : 1 ≤ n) :
    candleCount (.int n) = .ok (min n maxCandles) := by
  show Except.ok (max 1 (min n maxCandles)) = _
  rw [max_eq_right (le_min h (by decide))]

/-- The candles that are made of a body. -/
def candlesIn (raw : Value) : Outcome (List Candle) :=
  (raw.items >>= fun rows => rows.mapM Candle.ofValue) >>= fun candles =>
    pure (candles.mergeSort fun a b => a.timestamp ≤ b.timestamp)

theorem asks_fetchCandles (symbol : String) {period count : Int} (hperiod : period ∈ minutePeriods)
    (hcount : 1 ≤ count) :
    Asks link (c.fetchCandles link (.text symbol) (.int period) (.int count)) candlesIn := by
  have hknown : (minutePeriods.any fun n => Value.int period == .int n) = true := by
    revert period
    decide +kernel
  refine ⟨c.inquiry (.text symbol) s!"candles/minutes/{(Value.int period).shown}"
    (min count maxCandles), rfl, fun s => ?_⟩
  unfold fetchCandles
  rw [hknown, candleCount_of_pos hcount]
  simp only [Bool.not_true, Bool.false_eq_true, if_false]
  rw [ExceptT.exec_bind_ok (ExceptT.exec_liftM s _)]
  apply exec_ask_bind
  intro raw s
  rw [candlesIn, ExceptT.exec_bind, ExceptT.exec_liftM]
  cases raw.items >>= fun rows => rows.mapM Candle.ofValue <;> rfl

/-- The price of a market among those that are made of a body. -/
def priceIn (market raw : Value) : Outcome Float :=
  (raw.items >>= fun rows => rows.mapM tickerOf) >>= fun tickers =>
    match (tickers.foldl addTicker []).find? fun p => p.1.isSame market with
    | some (_, price) => pure price
    | none => .error (.exchange s!"No ticker returned for {market.shown}" .null .null)

theorem asks_currentPrice (symbol : String) :
    Asks link (c.currentPrice link (.text symbol)) (priceIn (.text symbol)) := by
  refine ⟨{ verb := .get, url := c.url "ticker", params := .object [("markets", .text symbol)],
            timeout := c.timeout }, rfl, fun s => ?_⟩
  have hlist : marketList (.list [.text symbol]) = .ok symbol := by
    show Except.ok (",".intercalate [symbol]) = _
    rw [String.intercalate_singleton]
  have hprices : c.currentPrices link (.list [.text symbol]) =
      (do
        let list ← (marketList (.list [.text symbol]) : Outcome String)
        let raw ← c.ask link "ticker" [("markets", .text list)]
        (pricesOf raw : Outcome (List (Value × Float)))) := rfl
  rw [currentPrice, hprices, bind_assoc, hlist, ExceptT.exec_bind_ok (ExceptT.exec_liftM s _),
    bind_assoc]
  apply exec_ask_bind
  intro raw s
  have hrows : pricesOf raw = (raw.items >>= fun rows => rows.mapM tickerOf) >>= fun tickers =>
      pure (tickers.foldl addTicker []) := by
    rw [pricesOf, bind_assoc]
  rw [priceIn, hrows, ExceptT.exec_bind, ExceptT.exec_liftM]
  cases raw.items >>= fun rows => rows.mapM tickerOf with
  | error e => rfl
  | ok tickers =>
    simp only [Outcome.ok_bind, Outcome.pure_eq_ok]
    cases (tickers.foldl addTicker []).find? fun p => p.1.isSame (.text symbol) <;> rfl

theorem asks_highestPrice (symbol : String) {unit : String} (hunit : unit ∈ periodUnits)
    {count : Int} (hcount : 1 ≤ count) :
    Asks link (c.highestPrice link (.text symbol) (.text unit) (.int count)) fun raw =>
      highsOf raw >>= verdict (.text symbol) unit := by
  obtain ⟨path, -, hpath⟩ := exists_unitPath hunit
  refine ⟨c.inquiry (.text symbol) path (min count maxCandles), rfl, fun s => ?_⟩
  rw [exec_highestPrice c link s hpath hcount, ← bind_assoc]
  rfl

/-! ### Which faults pass -/

theorem escapes_candlesIn (body : Value) :
    Outcome.Escapes (toldAsData isDataFault) (candlesIn body) ↔
      Stumbles Candle.ofValue Candle.IsMisfit body := by
  rw [candlesIn, Outcome.escapes_bind_pure]
  exact escapes_rows toldAsData_wrongKind escapes_ofValue body

theorem escapes_priceIn (market body : Value) :
    Outcome.Escapes (toldAsData Fault.isExchange) (priceIn market body) ↔
      Stumbles tickerOf IsTickerMisfit body := by
  rw [priceIn, Outcome.escapes_bind, escapes_rows (fun _ => rfl) escapes_tickerOf, or_iff_left]
  rintro ⟨tickers, -, hquote⟩
  have hmissing : ∀ message : String, toldAsData Fault.isExchange (.exchange message .null .null) =
      true := fun _ => rfl
  split at hquote
  · exact Outcome.not_escapes_ok _ hquote
  · rw [Outcome.escapes_error_iff, hmissing] at hquote
    cases hquote

theorem escapes_verdict (market : Value) (u : String) (body : Value) :
    Outcome.Escapes (toldAsData isDataFault) (highsOf body >>= verdict market u) ↔
      Stumbles highOf IsHighMisfit body := by
  have hhighs : highsOf body = (body.items >>= fun rows => rows.mapM highOf) >>= fun highs =>
      pure highs.reduceOption := by
    rw [highsOf, bind_assoc]
  rw [Outcome.escapes_bind, hhighs, Outcome.escapes_bind_pure,
    escapes_rows toldAsData_wrongKind escapes_highOf, or_iff_left]
  rintro ⟨highs, -, hverdict⟩
  have hmissing : ∀ message : String, toldAsData isDataFault (.exchange message .null .null) =
      true := fun _ => rfl
  rw [verdict] at hverdict
  split at hverdict
  · rw [Outcome.escapes_error_iff, hmissing] at hverdict
    cases hverdict
  · exact Outcome.not_escapes_ok _ hverdict

/-- A step that asks for data fails otherwise if its answer cannot be read for its depth, if it is
no JSON and that is not caught, or if what is made of its body fails with a fault that passes. -/
theorem Asks.fails_otherwise_iff {caught : Fault → Bool} {texts : Bool}
    (hcaught : Catches (toldAsData caught) texts) (hlink : link.SpeaksHttp) {step : Action σ Value}
    {make : Value → Outcome Value} (h : Asks link step make) :
    ∃ r : Request, r.verb = .get ∧ ∀ s,
      ((asMarketData caught step).exec s).2 = (link.send r s).2 ∧
        ((∃ e, ((asMarketData caught step).exec s).1 = .error e ∧
            ∀ message, e ≠ .marketData message) ↔
          IsTooDeep (link.send r s).1 ∨ texts = false ∧ IsGarbled (link.send r s).1 ∨
            ∃ body, Holds (link.send r s).1 body ∧
              Outcome.Escapes (toldAsData caught) (make body)) := by
  obtain ⟨r, hverb, hexec⟩ := h
  refine ⟨r, hverb, fun s => ?_⟩
  rw [exec_asMarketData, hexec, told_fails_otherwise_iff, Outcome.escapes_bind,
    escapes_received hcaught (hlink r s), or_assoc]
  simp only [received_eq_ok_iff (hlink r s), true_and]

/-- A valid call for market data sends one request. It fails in another way than as a failure of
market data exactly if the answer misleads it: JSON that is nested too deeply, for a current price
also what is no JSON, and an accepted body whose first row that cannot be read is none for its
shape. -/
theorem data_fails_alike_unless_misled (hlink : link.SpeaksHttp) {q : Inquiry} (hq : q.IsValid) :
    ∃ r : Request, r.verb = .get ∧ ∀ s,
      let answered := (c.source link).answer q.call s
      answered.2 = (link.send r s).2 ∧
        ((∃ e, answered.1 = .error e ∧ ∀ message, e ≠ .marketData message) ↔
          q.IsMisled (link.send r s).1) := by
  cases q with
  | candles symbol period count =>
    have hasks := (c.asks_fetchCandles link symbol hq.1 hq.2).map fun candles =>
      Value.list (candles.map Candle.toValue)
    obtain ⟨r, hverb, hfails⟩ := hasks.fails_otherwise_iff link catches_isDataFault hlink
    refine ⟨r, hverb, fun s => ⟨(hfails s).1, (hfails s).2.trans ?_⟩⟩
    simp only [Outcome.escapes_bind_pure, escapes_candlesIn, Bool.true_eq_false, false_and,
      false_or, Inquiry.IsMisled]
  | price symbol =>
    have hasks := (c.asks_currentPrice link symbol).map Value.real
    obtain ⟨r, hverb, hfails⟩ := hasks.fails_otherwise_iff link catches_isExchange hlink
    refine ⟨r, hverb, fun s => ⟨(hfails s).1, (hfails s).2.trans ?_⟩⟩
    simp only [Outcome.escapes_bind_pure, escapes_priceIn, true_and, Inquiry.IsMisled]
  | highest symbol unit count =>
    have hasks := (c.asks_highestPrice link symbol hq.1 hq.2).map Value.real
    obtain ⟨r, hverb, hfails⟩ := hasks.fails_otherwise_iff link catches_isDataFault hlink
    refine ⟨r, hverb, fun s => ⟨(hfails s).1, (hfails s).2.trans ?_⟩⟩
    simp only [Outcome.escapes_bind_pure, escapes_verdict, Bool.true_eq_false, false_and, false_or,
      Inquiry.IsMisled]

theorem read_oops : Json.read "oops" = .error (.malformed "Expecting value" 1 1 0) := by
  with_unfolding_all rfl

/-- Candles that are no JSON are a failure of market data. -/
theorem garbled_candles_are_data_failure :
    (Link.answering "oops").SpeaksHttp ∧ (Inquiry.candles "KRW-BTC" 60 200).IsValid ∧
      ¬∃ e, (((source {} (.answering "oops")).answer (Inquiry.candles "KRW-BTC" 60 200).call ()).1 =
        .error e ∧ ∀ message, e ≠ .marketData message) := by
  have hlink := Link.answering_speaksHttp "oops"
  have hvalid : (Inquiry.candles "KRW-BTC" 60 200).IsValid := ⟨by decide, by decide⟩
  obtain ⟨r, -, hfails⟩ := data_fails_alike_unless_misled {} (.answering "oops") hlink hvalid
  refine ⟨hlink, hvalid, fun hother => ?_⟩
  rcases (hfails ()).2.mp hother with ⟨_, container, ⟨⟩, hread⟩ | ⟨body, ⟨_, ⟨⟩, -, hread⟩, -⟩
  · cases read_oops.symm.trans hread
  · cases read_oops.symm.trans hread

/-- A current price that is no JSON is none, and so are candles that are an object. -/
theorem garbled_price_fails_otherwise :
    (Link.answering "oops").SpeaksHttp ∧ (Inquiry.price "KRW-BTC").IsValid ∧
      ((source {} (.answering "oops")).answer (Inquiry.price "KRW-BTC").call ()).1 =
        .error (.badJson (.malformed "Expecting value" 1 1 0)) ∧
      ((source {} (.answering "\x7b\"error\": 1\x7d")).answer
        (Inquiry.candles "KRW-BTC" 60 200).call ()).1 =
          .error (.wrongKind "string indices must be integers, not 'str'") := by
  refine ⟨Link.answering_speaksHttp "oops", trivial, ?_, ?_⟩ <;> with_unfolding_all rfl

end Client

end Exchange

end TradingRules
