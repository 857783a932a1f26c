import TradingRules.Proofs.Logic.Account
import TradingRules.Proofs.Market.Consolidation

/-!
# Averages over a bounded history

A moving average looks at no more prices than its period, and the compiler admits no period longer
than the history. So the bound of the history does not show in any average of a compiled logic: it
is the average over all prices that were ever merged.
-/

namespace TradingRules

namespace Indicator

section

variable {m : Type → Type} [Monad m] {α : Type} (A : Arithmetic m α)

/-- Prices from before a window that covers the period do not matter. -/
theorem movingAverage?_rtake {period : Int} {size : Nat} (h : period ≤ size) (prices : List α) :
    movingAverage? A period (prices.rtake size) = movingAverage? A period prices := by
  have hlength : (prices.rtake size).length = min size prices.length := by
    rw [List.rtake, List.length_drop]
    omega
  have hlast : lastItems period.toNat (prices.rtake size) = lastItems period.toNat prices := by
    have hmin : min period.toNat size = period.toNat := by omega
    exact (List.rtake_rtake prices size period.toNat).trans (by rw [hmin]; rfl)
  have hshort : (period ≤ 0 ∨ ((prices.rtake size).length : Int) < period) ↔
      (period ≤ 0 ∨ (prices.length : Int) < period) := by
    rw [hlength]
    omega
  rw [movingAverage?, movingAverage?, hlast]
  exact if_congr hshort rfl rfl

end

/-- There is no average exactly if there are fewer prices than the period has. -/
theorem movingAverage?_eq_none_iff {period : Int} (h : 1 ≤ period) (prices : List Float) :
    movingAverage? doubles period prices = none ↔ (prices.length : Int) < period := by
  have hpos : ¬period ≤ 0 := by omega
  rw [movingAverage?]
  split
  · rename_i hshort
    exact iff_of_true rfl (hshort.resolve_left hpos)
  · rename_i hlong
    exact iff_of_false nofun fun hshort => hlong (.inr hshort)

end Indicator

namespace Market

namespace Bar

theorem acceptedAfter_sublist (before bars : List Bar) :
    (acceptedAfter before bars).Sublist bars := by
  induction bars generalizing before with
  | nil => exact List.Sublist.refl []
  | cons b rest ih =>
    rw [acceptedAfter]
    split
    · exact (ih _).cons_cons b
    · exact (ih _).cons b

theorem lastOfEach_sublist (bars : List Bar) : (lastOfEach bars).Sublist bars := by
  induction bars with
  | nil => exact List.Sublist.refl []
  | cons b rest ih =>
    rw [lastOfEach]
    split
    · exact ih.cons b
    · exact ih.cons_cons b

theorem settled_sublist (bars : List Bar) : (settled bars).Sublist bars :=
  (lastOfEach_sublist _).trans (acceptedAfter_sublist [] bars)

end Bar

/-- No more bars settle than there were candles. -/
theorem length_settled_le (batches : List (List Fields)) :
    (Bar.settled (batches.flatMap History.barsOf)).length ≤ batches.flatten.length := by
  have hbatch : ∀ batch : List Fields, (History.barsOf batch).length ≤ batch.length := fun batch =>
    calc (History.barsOf batch).length
        = (batch.filterMap Fields.bar?).length := (Sorting.sortBy_perm _ _).length_eq
      _ ≤ batch.length := List.length_filterMap_le _ _
  have hbars : (batches.flatMap History.barsOf).length ≤ batches.flatten.length := by
    induction batches with
    | nil => exact Nat.le_refl 0
    | cons batch rest ih =>
      rw [List.flatMap_cons, List.flatten_cons, List.length_append, List.length_append]
      exact Nat.add_le_add (hbatch batch) ih
  exact (Bar.settled_sublist _).length_le.trans hbars

end Market

namespace CompiledLogic

/-- A moving average in a compiled logic is the average, over the same period, of the prices that
market data of any larger size would hold, if that size is never reached; and it is missing exactly
if there are fewer of these prices than the period has. -/
theorem averages_see_whole_history {logic : Value} {compiled : CompiledLogic}
    (hcompiled : ofLogic logic = .ok compiled) {root : Condition}
    (hroot : root = compiled.buy ∨ root = compiled.sell) {period : Value}
    (hnode : .sma period ∈ root.walk) (settings : Market.Settings) (connected : Bool)
    (hsize : settings.limit = 200) (batches : List (List Fields))
    (hregular : ∀ batch ∈ batches, ∀ candle ∈ batch, Market.History.isRegular candle = true) :
    ∃ (n : Int) (m : Market) (whole : List Float), period = .int n ∧
      (Market.new settings connected).ingestBatches (batches.map Market.batchOf) = (.ok (), m) ∧
      (∀ wide : Market.Settings, batches.flatten.length < wide.limit → ∃ unbounded,
        (Market.new wide connected).ingestBatches (batches.map Market.batchOf) =
            (.ok (), unbounded) ∧
          unbounded.history.prices = whole) ∧
      (Condition.sma period).evaluate m = .ok (.real (Indicator.movingAverage n whole)) ∧
      (Indicator.movingAverage? Indicator.doubles n (m.history.lastPrices n) = none ↔
        (whole.length : Int) < n) := by
  have hsort : root.HasSort .truth := by
    obtain ⟨hbuy, hsell⟩ := hasSort_of_ofLogic hcompiled
    rcases hroot with rfl | rfl
    · exact hbuy
    · exact hsell
  obtain ⟨t, hleaf⟩ := hsort.of_mem_walk hnode
  cases hleaf with
  | @sma n hpos hmax =>
    have hcovered : n ≤ settings.limit := by
      rw [hsize]
      exact hmax
    have hrun := fun (wide : Market.Settings) (hwide : 0 < wide.limit) =>
      Market.exists_ingestBatches_new wide connected hwide hregular
    have hlength := Market.length_settled_le batches
    generalize Market.Bar.settled (batches.flatMap Market.History.barsOf) = bars at hrun hlength
    obtain ⟨m, hm, hhistory⟩ := hrun settings (by rw [hsize]; decide)
    have hheld : m.history.prices = (bars.map (·.price)).rtake settings.limit := by
      rw [hhistory]
      show (bars.rtake settings.limit).map (·.price) = _
      rw [List.rtake, List.rtake, List.map_drop, List.length_map]
    have hlast : m.history.lastPrices n = (bars.map (·.price)).rtake n.toNat := by
      have hwindow := List.rtake_rtake (bars.map (·.price)) settings.limit n.toNat
      rw [Market.History.lastPrices, hheld]
      refine hwindow.trans ?_
      rw [Nat.min_eq_left (by omega)]
    have haverage := Indicator.movingAverage?_rtake Indicator.doubles (Int.self_le_toNat n)
      (bars.map (·.price))
    refine ⟨n, m, bars.map (·.price), rfl, hm, fun wide hwide => ?_, ?_, ?_⟩
    · obtain ⟨unbounded, hunbounded, hall⟩ := hrun wide (Nat.zero_lt_of_lt hwide)
      refine ⟨unbounded, hunbounded, ?_⟩
      rw [hall, Market.History.ofBars, List.rtake,
        Nat.sub_eq_zero_of_le (hlength.trans hwide.le), List.drop_zero]
    · rw [Condition.evaluate, Condition.supply, hlast, Indicator.movingAverage, haverage,
        Indicator.movingAverage]
      all_goals
        intro operator a b hne
        cases hne
    · rw [hlast, haverage]
      exact Indicator.movingAverage?_eq_none_iff hpos _

/-- A graph that compares the price with its average over the longest period. -/
def trendGraph (terminal : String) : Value :=
  .object [
    ("nodes", .list [
      .object [("id", .text "order"), ("kind", .text terminal)],
      .object [("id", .text "above"), ("kind", .text "compare")],
      .object [("id", .text "price"), ("kind", .text "currentPrice")],
      .object [("id", .text "mean"), ("kind", .text "sma"),
        ("controls", .object [("period", .int 200)])]]),
    ("connections", .list [
      .object [("source", .text "above"), ("target", .text "order")],
      .object [("source", .text "price"), ("target", .text "above")],
      .object [("source", .text "mean"), ("target", .text "above")]])]

def trendLogic : Value :=
  .object [("buyGraph", trendGraph "buy"), ("sellGraph", trendGraph "sell")]

def trendCondition : Condition :=
  .compare (.text CompareOp.greater.sign) .currentPrice (.sma (.int 200))

def trend : CompiledLogic where
  buy := trendCondition
  sell := trendCondition
  buyOrder := {}
  sellOrder := {}
  warmUps := []

theorem ofLogic_trendLogic : ofLogic trendLogic = .ok trend := by
  with_unfolding_all rfl

/-- More candles than the history holds, newest first, and then one with the time of the newest. -/
def longSeries : List (List Fields) :=
  let candle (time price : Nat) : Fields := [("timestamp", .int time), ("price", .int price)]
  [(List.range 205).reverse.map fun n => candle n (n * n), [candle 204 7, candle 3 8]]

theorem trend_sees_whole_series : ofLogic trendLogic = .ok trend ∧
    ∃ (m : Market) (whole : List Float),
      (Market.new { stock := .text "KRW-BTC" } true).ingestBatches (longSeries.map Market.batchOf) =
        (.ok (), m) ∧
      (∃ unbounded,
        (Market.new { stock := .null, limit := 1000 } true).ingestBatches
            (longSeries.map Market.batchOf) = (.ok (), unbounded) ∧
          unbounded.history.prices = whole) ∧
      (Condition.sma (.int 200)).evaluate m = .ok (.real (Indicator.movingAverage 200 whole)) := by
  have hregular : ∀ batch ∈ longSeries, ∀ candle ∈ batch,
      Market.History.isRegular candle = true := by decide +kernel
  have hnode : .sma (.int 200) ∈ trend.buy.walk := by
    simp [trend, trendCondition, Condition.walk]
  obtain ⟨n, m, whole, hn, hm, hwide, heval, -⟩ :=
    averages_see_whole_history ofLogic_trendLogic (.inl rfl) hnode { stock := .text "KRW-BTC" }
      true rfl longSeries hregular
  obtain rfl := Value.int.inj hn
  exact ⟨ofLogic_trendLogic, m, whole, hm, hwide _ (by decide +kernel), heval⟩

end CompiledLogic

end TradingRules
