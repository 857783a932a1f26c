import Mathlib.Data.List.ReduceOption
import TradingRules.Exchange.Provider
import TradingRules.Proofs.Logic.Account
import TradingRules.Proofs.Logic.Periods
import TradingRules.Proofs.Number.Doubles
import TradingRules.Proofs.Value.Execution

/-!
# Lookups of highest prices

The lookup of a highest price sends one request for the rows of its period and keeps the highest
price among the rows of the response. The request asks for as many rows as the period is long, but
for no more than the exchange gives at once.
-/

namespace TradingRules

/-! ### The highest of some prices -/

namespace Indicator

def higher (x y : Float) : Float :=
  if x < y then y else x

/-- One of the prices, and none of them is greater. -/
structure IsHighest (prices : List Float) (x : Float) : Prop where
  mem : x ∈ prices
  bound : ∀ y ∈ prices, ¬x < y

theorem IsHighest.singleton (x : Float) : IsHighest [x] x where
  mem := List.mem_singleton_self x
  bound y hy := by
    obtain rfl := List.mem_singleton.mp hy
    exact Number.lt_irrefl y

/-- A price that is not greater than the highest so far leaves it the highest; a greater one takes
its place. -/
theorem IsHighest.next {prices : List Float} {x : Float} (h : IsHighest prices x) (y : Float) :
    IsHighest (prices ++ [y]) (higher x y) := by
  unfold higher
  by_cases hlt : x < y
  · rw [if_pos hlt]
    refine ⟨List.mem_append_right _ List.mem_cons_self, fun z hz => ?_⟩
    rcases List.mem_append.mp hz with hz | hz
    · exact fun hyz => h.bound z hz (Number.lt_trans hlt hyz)
    · exact (singleton y).bound z hz
  · rw [if_neg hlt]
    refine ⟨List.mem_append_left _ h.mem, fun z hz => ?_⟩
    rcases List.mem_append.mp hz with hz | hz
    · exact h.bound z hz
    · exact List.mem_singleton.mp hz ▸ hlt

theorem IsHighest.foldl {prices : List Float} {x : Float} (h : IsHighest prices x)
    (more : List Float) : IsHighest (prices ++ more) (more.foldl higher x) := by
  induction more generalizing prices x with
  | nil => simpa using h
  | cons y rest ih => simpa using ih (h.next y)

theorem isNaN_foldl_higher (x : Float) (more : List Float) :
    (more.foldl higher x).isNaN = x.isNaN := by
  induction more generalizing x with
  | nil => rfl
  | cons y rest ih =>
    rw [List.foldl_cons, ih]
    unfold higher
    split
    · rename_i hlt
      have hx : x.isNaN = false :=
        Bool.eq_false_iff.mpr fun h => Number.not_lt_of_isNaN (.inl h) hlt
      have hy : y.isNaN = false :=
        Bool.eq_false_iff.mpr fun h => Number.not_lt_of_isNaN (.inr h) hlt
      rw [hx, hy]
    · rfl

theorem compareBy_greater (x y : Float) :
    Value.compareBy .greater (.real x) (.real y) = .ok (decide (y < x)) := by
  have hcompare : (Number.compareFloats x y == some .gt) = decide (y < x) := by
    unfold Number.compareFloats
    by_cases hxy : x < y
    · have hyx : ¬y < x := fun hyx => Number.lt_irrefl x (Number.lt_trans hxy hyx)
      simp [hxy, hyx]
    · by_cases hyx : y < x
      · simp [hxy, hyx]
      · rw [if_neg hxy, if_neg hyx]
        split <;> simp [hyx]
  rw [← hcompare]
  simp only [Value.compareBy, Value.numeric?, Value.Numeric.compare]
  cases Number.compareFloats x y with
  | none => rfl
  | some o => cases o <;> rfl

/-- The first greatest price, NaN if there is none. -/
def top : List Float → Float
  | [] => nan
  | x :: rest => rest.foldl higher x

theorem isHighest_top (x : Float) (rest : List Float) : IsHighest (x :: rest) (top (x :: rest)) :=
  (IsHighest.singleton x).foldl rest

/-- A price that is NaN hides all prices after it. -/
theorem isNaN_top (x : Float) (rest : List Float) : (top (x :: rest)).isNaN = x.isNaN :=
  isNaN_foldl_higher x rest

theorem foldlM_greater (x : Float) (rest : List Float) :
    (rest.map Value.real).foldlM (fun best w => do
      return if ← Value.compareBy .greater w best then w else best) (.real x) =
      (.ok (.real (rest.foldl higher x)) : Outcome Value) := by
  induction rest generalizing x with
  | nil => rfl
  | cons y rest ih =>
    rw [List.map_cons, List.foldlM_cons, compareBy_greater, List.foldl_cons, ← ih]
    unfold higher
    by_cases hlt : x < y <;> simp [hlt]

theorem highest_map_real (prices : List Float) :
    highest (prices.map .real) = .ok (.real (top prices)) := by
  have hfilter : (prices.map Value.real).filter (fun v => !v.isNull) = prices.map .real := by
    refine List.filter_eq_self.mpr fun v hv => ?_
    obtain ⟨y, -, rfl⟩ := List.mem_map.mp hv
    rfl
  rw [highest, hfilter]
  cases prices with
  | nil => rfl
  | cons x rest => exact foldlM_greater x rest

end Indicator

namespace Exchange

open Indicator (IsHighest top)

/-! ### One lookup -/

/-- The highest prices of the rows of an answer that have one. -/
def highsOf (raw : Value) : Outcome (List Float) := do
  return (← (← raw.items).mapM highOf).reduceOption

theorem highestOf_eq (raw : Value) : highestOf raw = (highsOf raw).map top := by
  unfold highestOf highsOf
  cases raw.items with
  | error e => rfl
  | ok rows =>
    cases hhighs : rows.mapM highOf with
    | error e => simp [hhighs, Except.map]
    | ok highs =>
      have hreal : highs.filterMap (fun h => h.map Value.real) = highs.reduceOption.map .real := by
        simp [List.reduceOption, List.map_filterMap]
      simp only [Outcome.ok_bind, hhighs, hreal, Outcome.pure_eq_ok, Indicator.highest_map_real]
      rfl

namespace Client

variable {σ : Type} (c : Client)

def inquiry (market : Value) (path : String) (count : Int) : Request :=
  { verb := .get
    url := c.url path
    params := .object [("market", market), ("count", .int count)]
    timeout := c.timeout }

def received : Except String Response → Outcome Value
  | .error reason => .error (.exchange s!"Upbit request failed: {reason}" .null .null)
  | .ok response => contents response

def highsIn (r : Except String Response) : Outcome (List Float) := do
  highsOf (← received r)

theorem exists_unitPath {u : String} (hu : u ∈ periodUnits) :
    ∃ path, (u, path) ∈ unitPaths ∧ unitPath (.text u) = .ok path := by
  simp only [periodUnits, List.mem_cons, List.not_mem_nil, or_false] at hu
  rcases hu with rfl | rfl | rfl | rfl
  · exact ⟨"candles/days", by decide, rfl⟩
  · exact ⟨"candles/weeks", by decide, rfl⟩
  · exact ⟨"candles/months", by decide, rfl⟩
  · exact ⟨"candles/years", by decide, rfl⟩

variable (link : Link σ) (s : σ)

theorem exec_exchange (r : Request) : (exchange link r).exec s =
    (received (link.send r s).1, (link.send r s).2) := by
  have hsend : (Action.ofStep (link.send r)).exec s = (.ok (link.send r s).1, (link.send r s).2) :=
    rfl
  rw [exchange, ExceptT.exec_bind_ok hsend]
  cases (link.send r s).1 with
  | error reason => rfl
  | ok response => exact ExceptT.exec_liftM _ _

def verdict (market : Value) (u : String) (highs : List Float) : Outcome Float :=
  if (top highs).isNaN then
    .error (.exchange s!"No {(Value.text u).shown} candles returned for {market.shown}" .null .null)
  else .ok (top highs)

theorem verdict_cons {x : Float} (hx : x.isNaN = false) (market : Value) (u : String)
    (rest : List Float) : verdict market u (x :: rest) = .ok (top (x :: rest)) :=
  if_neg (by rw [Indicator.isNaN_top, hx]; exact Bool.false_ne_true)

/-- A lookup fails if the prices cannot be read, and if there is none or the first is NaN. -/
theorem exists_fault {highs : Outcome (List Float)}
    (h : ∀ first rest, highs = .ok (first :: rest) → first.isNaN = true) (market : Value)
    (u : String) : ∃ e, highs >>= verdict market u = .error e := by
  cases highs with
  | error e => exact ⟨e, rfl⟩
  | ok prices =>
    have hnan : (top prices).isNaN = true := by
      cases prices with
      | nil => with_unfolding_all rfl
      | cons first rest => rw [Indicator.isNaN_top, h first rest rfl]
    exact ⟨_, by rw [Outcome.ok_bind, verdict, if_pos hnan]⟩

/-- A lookup sends one request and depends on nothing but the response. -/
theorem exec_highestPrice {u path : String} (hpath : unitPath (.text u) = .ok path) {n : Int}
    (hn : 1 ≤ n) (market : Value) :
    (c.highestPrice link market (.text u) (.int n)).exec s =
      let sent := link.send (c.inquiry market path (min n maxCandles)) s
      (highsIn sent.1 >>= verdict market u, sent.2) := by
  have hcount : candleCount (.int n) = .ok (min n maxCandles) := by
    show Except.ok (max 1 (min n maxCandles)) = _
    rw [max_eq_right (le_min hn (by decide))]
  unfold highestPrice
  rw [hpath, hcount, ExceptT.exec_bind_ok (ExceptT.exec_liftM s _),
    ExceptT.exec_bind_ok (ExceptT.exec_liftM s _)]
  have hask : (c.ask link path [("market", market), ("count", .int (min n maxCandles))]).exec s =
      _ := exec_exchange link s (c.inquiry market path (min n maxCandles))
  rw [ExceptT.exec_bind, hask]
  rcases link.send (c.inquiry market path (min n maxCandles)) s with ⟨r, s'⟩
  simp only [highsIn]
  cases received r with
  | error e => rfl
  | ok raw =>
    simp only [ExceptT.exec_bind, ExceptT.exec_liftM, highestOf_eq, Outcome.ok_bind]
    cases highsOf raw with
    | error e => rfl
    | ok highs =>
      simp only [Except.map, Outcome.ok_bind, verdict]
      cases (top highs).isNaN <;> rfl

theorem answer_highestRequest {u path : String} (hpath : unitPath (.text u) = .ok path) {n : Int}
    (hn : 1 ≤ n) (m : Market) :
    (c.source link).answer (m.highestRequest ⟨.text u, n⟩) s =
      let sent := link.send (c.inquiry m.settings.stock path (min n maxCandles)) s
      (match highsIn sent.1 >>= verdict m.settings.stock u with
        | .ok x => .ok (.real x)
        | .error e => .error (if isDataFault e then .marketData e.message else e), sent.2) := by
  show (asMarketData isDataFault (do
    return Value.real (← c.highestPrice link m.settings.stock (.text u) (.int n)))).exec s = _
  rw [asMarketData, ExceptT.exec_tryCatch, ExceptT.exec_bind,
    exec_highestPrice c link s hpath hn]
  dsimp only
  cases highsIn (link.send (c.inquiry m.settings.stock path (min n maxCandles)) s).1 >>=
    verdict m.settings.stock u <;> rfl

end Client

end Exchange

/-! ### One lookup of a market -/

namespace Market

variable {σ : Type} {source : Source σ} {m : Market} {s s' : σ}

theorem runLookup_of_error {p : Period} {e : Fault}
    (h : source.answer (m.highestRequest p) s = (.error e, s')) :
    (m.runLookup source p s).1.highest = m.highest ∧ (m.runLookup source p s).2 = s' := by
  simp [runLookup, h]

theorem runLookup_of_ok {u : String} {n : Int} {x : Float}
    (h : source.answer (m.highestRequest ⟨.text u, n⟩) s = (.ok (.real x), s')) :
    (m.runLookup source ⟨.text u, n⟩ s).1.highest? ⟨.text u, n⟩ = some x ∧
      (m.runLookup source ⟨.text u, n⟩ s).2 = s' := by
  have hx : (Value.real x).toFloat = .ok x := rfl
  have hself : ((⟨.text u, n⟩ : Period) == ⟨.text u, n⟩) = true := beq_textPeriod_iff.mpr rfl
  have hforgotten : (m.highest.filter fun h => !(h.1 == ⟨.text u, n⟩)).find?
      (fun h => h.1 == ⟨.text u, n⟩) = none := by
    refine List.find?_eq_none.mpr fun h hmem => ?_
    simpa using (List.mem_filter.mp hmem).2
  simp only [runLookup, h, hx, highest?]
  rw [List.find?_append, hforgotten]
  simp [hself]

end Market

/-! ### The lookups of a logic -/

namespace CompiledLogic

open Exchange (Client Link maxCandles unitPaths)
open Exchange.Client (highsIn)
open Indicator (IsHighest)
open Market (Period)

/-- The lookup of a highest price of an accepted logic sends one request for the rows of its period,
but never for more rows than the exchange gives at once. If the first price among the rows is a
number, then the node evaluates to the highest of them; otherwise nothing is kept. -/
theorem lookup_covers_at_most_maxCandles {logic : Value} {c : CompiledLogic}
    (h : ofLogic logic = .ok c) {unit length : Value}
    (hnode : .highestPrice unit length ∈ c.buy.walk ++ c.sell.walk) :
    ∃ u n path, unit = .text u ∧ length = .int n ∧ 1 ≤ n ∧ (u, path) ∈ unitPaths ∧
      ⟨.text u, n⟩ ∈ c.warmUps ∧
      ∀ (σ : Type) (client : Client) (link : Link σ) (m : Market) (s : σ),
        let sent := link.send (client.inquiry m.settings.stock path (min n maxCandles)) s
        let looked := m.runLookup (client.source link) ⟨.text u, n⟩ s
        looked.2 = sent.2 ∧
          (∀ first rest, highsIn sent.1 = .ok (first :: rest) → first.isNaN = false →
            ∃ x, IsHighest (first :: rest) x ∧ x.isNaN = false ∧
              (Condition.highestPrice unit length).evaluate looked.1 = .ok (.real x)) ∧
          ((∀ first rest, highsIn sent.1 = .ok (first :: rest) → first.isNaN = true) →
            looked.1.highest = m.highest) := by
  obtain ⟨u, n, rfl, rfl, hunit, hpos, hwarmUps⟩ := exists_period h hnode
  obtain ⟨path, hmem, hpath⟩ := Client.exists_unitPath hunit
  refine ⟨u, n, path, rfl, rfl, hpos, hmem, hwarmUps, ?_⟩
  intro σ client link m s sent looked
  have hanswer : (client.source link).answer (m.highestRequest ⟨.text u, n⟩) s =
      (match highsIn sent.1 >>= Client.verdict m.settings.stock u with
        | .ok x => .ok (.real x)
        | .error e => .error (if Client.isDataFault e then .marketData e.message else e), sent.2) :=
    client.answer_highestRequest link s hpath hpos m
  by_cases hnumber : ∀ first rest, highsIn sent.1 = .ok (first :: rest) → first.isNaN = true
  · obtain ⟨e, he⟩ := Client.exists_fault hnumber m.settings.stock u
    rw [he] at hanswer
    obtain ⟨hsame, hstate⟩ := Market.runLookup_of_error hanswer
    refine ⟨hstate, fun first rest hhighs hfirst => ?_, fun _ => hsame⟩
    exact absurd (hnumber first rest hhighs) (Bool.eq_false_iff.mp hfirst)
  · push Not at hnumber
    obtain ⟨first, rest, hhighs, hfirst⟩ := hnumber
    have hfirst : first.isNaN = false := Bool.eq_false_iff.mpr hfirst
    rw [hhighs, Outcome.ok_bind, Client.verdict_cons hfirst] at hanswer
    obtain ⟨hkept, hstate⟩ := Market.runLookup_of_ok hanswer
    refine ⟨hstate, fun first' rest' hhighs' _ => ?_, fun hnan => ?_⟩
    · obtain ⟨rfl, rfl⟩ := List.cons.inj (Except.ok.inj (hhighs.symm.trans hhighs'))
      refine ⟨_, Indicator.isHighest_top first rest, ?_, ?_⟩
      · rw [Indicator.isNaN_top, hfirst]
      · show (looked.1.highestPrice (.text u) (.int n)).map Value.real = _
        rw [Market.highestPrice_eq, hkept]
        rfl
    · exact absurd (hnan first rest hhighs) (Bool.eq_false_iff.mp hfirst)

/-- A graph that compares the price with the highest price of a year of days. -/
def yearGraph : Value :=
  .object [
    ("nodes", .list [
      .object [("id", .text "order"), ("kind", .text "buy")],
      .object [("id", .text "above"), ("kind", .text "compare")],
      .object [("id", .text "price"), ("kind", .text "currentPrice")],
      .object [("id", .text "high"), ("kind", .text "highestPrice"),
        ("controls", .object [("periodUnit", .text "day"), ("periodLength", .int 365)])]]),
    ("connections", .list [
      .object [("source", .text "above"), ("target", .text "order")],
      .object [("source", .text "price"), ("target", .text "above")],
      .object [("source", .text "high"), ("target", .text "above")]])]

def yearLogic : Value :=
  .object [("buyGraph", yearGraph), ("sellGraph", breakoutGraph "sell" "week")]

def year : CompiledLogic where
  buy := .compare (.text CompareOp.greater.sign) .currentPrice
    (.highestPrice (.text "day") (.int 365))
  sell := breakoutCondition "week"
  buyOrder := {}
  sellOrder := {}
  warmUps := [⟨.text "day", 365⟩, ⟨.text "week", 1⟩]

theorem ofLogic_yearLogic : ofLogic yearLogic = .ok year := by
  with_unfolding_all rfl

/-- A link that keeps all requests and answers each of them with one row. -/
def oneRow : Link (List Exchange.Request) where
  send r sent := (.ok ⟨.int 200, "[\x7b\"high_price\": 5\x7d]"⟩, sent ++ [r])
  nonce sent := ("", sent)

theorem year_lookup_keeps_price : ofLogic yearLogic = .ok year ∧
    .highestPrice (.text "day") (.int 365) ∈ year.buy.walk ++ year.sell.walk ∧
    ∃ x, IsHighest [5.0] x ∧ (Condition.highestPrice (.text "day") (.int 365)).evaluate
      ((Market.new { stock := .text "ABC" } true).runLookup (Client.source {} oneRow)
        ⟨.text "day", 365⟩ []).1 = .ok (.real x) := by
  have hnode : .highestPrice (.text "day") (.int 365) ∈ year.buy.walk ++ year.sell.walk := by
    simp [year, Condition.walk]
  refine ⟨ofLogic_yearLogic, hnode, ?_⟩
  obtain ⟨u, n, path, hu, hn, -, -, -, hlookup⟩ :=
    lookup_covers_at_most_maxCandles ofLogic_yearLogic hnode
  cases hu
  cases hn
  obtain ⟨-, hkept, -⟩ := hlookup _ {} oneRow (.new { stock := .text "ABC" } true) []
  obtain ⟨x, hhighest, -, heval⟩ := hkept 5.0 [] (by with_unfolding_all rfl)
    (by with_unfolding_all rfl)
  exact ⟨x, hhighest, heval⟩

/-- The lookup of a year of days asks for two hundred of them. -/
theorem year_lookup_asks_for_two_hundred : ofLogic yearLogic = .ok year ∧
    .highestPrice (.text "day") (.int 365) ∈ year.buy.walk ++ year.sell.walk ∧
    ((Market.new { stock := .text "ABC" } true).runLookup (Client.source {} oneRow)
      ⟨.text "day", 365⟩ []).2.map (·.params) =
      [.object [("market", .text "ABC"), ("count", .int 200)]] := by
  refine ⟨ofLogic_yearLogic, by simp [year, Condition.walk], ?_⟩
  with_unfolding_all rfl

end CompiledLogic

end TradingRules
