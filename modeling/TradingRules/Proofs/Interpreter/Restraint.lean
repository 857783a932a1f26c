import TradingRules.Proofs.Interpreter.Trading
import TradingRules.Proofs.Logic.Averages

/-!
# No data, no trade

Without prices, everything that is read off them is NaN. No comparison holds of NaN but that it is
unequal, and connectives join nothing true out of what does not hold. So conditions that read prices
in every comparison do not hold on market data that are still empty, and a run dispatches nothing.
-/

namespace TradingRules

/-- Nodes of these kinds supply NaN as long as there are no prices. -/
def NodeKind.readsPrices : NodeKind → Bool
  | .currentPrice | .sma | .rsi => true
  | _ => false

/-- Market data without a candle and without a live price. -/
structure Market.HasNoPrices (m : Market) : Prop where
  history : m.history.prices = []
  live : m.live = none

theorem Market.HasNoPrices.of_sameData {m n : Market} (h : n.HasNoPrices) (hsame : m.SameData n) :
    m.HasNoPrices where
  history := (congrArg (·.prices) hsame.history).trans h.history
  live := hsame.live.trans h.live

theorem isNaN_nan : nan.isNaN = true := by
  with_unfolding_all rfl

/-- Nothing holds of NaN but that it is unequal. -/
theorem CompareOp.holds_of_isNaN {op : CompareOp} (hop : op ≠ .unequal) {x y : Float}
    (h : x.isNaN = true ∨ y.isNaN = true) : op.holds x y = false := by
  cases op with
  | unequal => exact absurd rfl hop
  | less => exact decide_eq_false (Number.not_lt_of_isNaN h)
  | greater => exact decide_eq_false (Number.not_lt_of_isNaN h.symm)
  | lessEqual => exact decide_eq_false (Number.not_le_of_isNaN h)
  | greaterEqual => exact decide_eq_false (Number.not_le_of_isNaN h.symm)
  | equal =>
    refine Bool.eq_false_iff.mpr fun hequal => ?_
    obtain ⟨a, hx, hy⟩ := (Number.beq_iff x y).mp hequal
    rcases h with h | h
    · cases ((Number.exactValue?_eq_none_iff x).mpr h).symm.trans hx
    · cases ((Number.exactValue?_eq_none_iff y).mpr h).symm.trans hy

namespace Condition

/-- Every comparison reads prices on one side at least, and none holds of what is unequal. -/
def IsGuarded (c : Condition) : Prop :=
  ∀ operator a b, .compare operator a b ∈ c.walk → operator ≠ .text CompareOp.unequal.sign ∧
    (a.kind.readsPrices = true ∨ b.kind.readsPrices = true)

variable {m : Market} {c a b : Condition} {operator : Value} {s : ValueSort}

theorem IsGuarded.operands (h : (logicOp operator a b).IsGuarded) :
    a.IsGuarded ∧ b.IsGuarded := by
  refine ⟨fun o x y hmem => h o x y ?_, fun o x y hmem => h o x y ?_⟩
  · exact List.mem_cons_of_mem _ (List.mem_append_left _ hmem)
  · exact List.mem_cons_of_mem _ (List.mem_append_right _ hmem)

theorem HasSort.evaluate_of_readsPrices (h : c.HasSort s) (hreads : c.kind.readsPrices = true)
    (hm : m.HasNoPrices) : ∃ x, c.evaluate m = .ok (.real x) ∧ x.isNaN = true := by
  cases h with
  | const | highestPrice | roi | compare | logicOp => cases hreads
  | currentPrice =>
    have hlatest : m.latestPrice = nan := by
      rw [Market.latestPrice, hm.live, hm.history]
      rfl
    exact ⟨m.latestPrice, rfl, hlatest ▸ isNaN_nan⟩
  | rsi =>
    have hstrength : Indicator.relativeStrength strengthPeriod m.history.prices = nan := by
      rw [hm.history]
      rfl
    exact ⟨_, rfl, hstrength ▸ isNaN_nan⟩
  | @sma n hpos hmax =>
    have hlast : m.history.lastPrices n = [] := by
      rw [Market.History.lastPrices, hm.history, List.drop_nil]
    have hnone : Indicator.movingAverage? Indicator.doubles n (m.history.lastPrices n) = none :=
      (Indicator.movingAverage?_eq_none_iff hpos _).mpr (by rw [hlast]; exact hpos)
    have haverage : Indicator.movingAverage n (m.history.lastPrices n) = nan := by
      rw [Indicator.movingAverage, hnone]
      rfl
    exact ⟨_, rfl, haverage ▸ isNaN_nan⟩

/-- A guarded condition whose value is known is false without prices. -/
theorem HasSort.eq_false_of_ok (h : c.HasSort .truth) (hguarded : c.IsGuarded)
    (hm : m.HasNoPrices) {v : Value} (hv : c.evaluate m = .ok v) : v = .bool false := by
  generalize hs : ValueSort.truth = s at h
  induction h generalizing v with
  | const | currentPrice | highestPrice | rsi | roi | sma => cases hs
  | @compare op a b s t ha hb iha ihb =>
    obtain ⟨hoperator, hreads⟩ := hguarded _ a b List.mem_cons_self
    have hop : op ≠ .unequal := fun h => hoperator (by rw [h])
    obtain ⟨x, hx, hv⟩ := Outcome.bind_eq_ok.mp hv
    obtain ⟨y, hy, hv⟩ := Outcome.bind_eq_ok.mp hv
    obtain ⟨r, hr, hv⟩ := Outcome.bind_eq_ok.mp hv
    obtain rfl := Except.ok.inj hv
    rw [Value.compareWith, Value.operator?_sign, Outcome.ok_bind] at hr
    obtain ⟨p, hp, hr⟩ := Outcome.bind_eq_ok.mp hr
    obtain ⟨q, hq, hr⟩ := Outcome.bind_eq_ok.mp hr
    obtain rfl := Except.ok.inj hr
    have hnan : p.isNaN = true ∨ q.isNaN = true := by
      refine hreads.imp (fun hreads => ?_) fun hreads => ?_
      · obtain ⟨z, hz, hnan⟩ := ha.evaluate_of_readsPrices hreads hm
        obtain rfl := Except.ok.inj (hx.symm.trans hz)
        obtain rfl := Except.ok.inj hp
        exact hnan
      · obtain ⟨z, hz, hnan⟩ := hb.evaluate_of_readsPrices hreads hm
        obtain rfl := Except.ok.inj (hy.symm.trans hz)
        obtain rfl := Except.ok.inj hq
        exact hnan
    rw [CompareOp.holds_of_isNaN hop hnan]
  | logicOp op ha hb iha ihb =>
    obtain ⟨hguardedA, hguardedB⟩ := hguarded.operands
    obtain ⟨x, hx, hv⟩ := Outcome.bind_eq_ok.mp hv
    obtain ⟨y, hy, hv⟩ := Outcome.bind_eq_ok.mp hv
    obtain rfl := iha hguardedA hx rfl
    obtain rfl := ihb hguardedB hy rfl
    rw [Value.joinWith_word] at hv
    obtain rfl := Except.ok.inj hv
    cases op <;> rfl

theorem HasSort.false_or_unready (h : c.HasSort .truth) (hguarded : c.IsGuarded)
    (hm : m.HasNoPrices) : c.evaluate m = .ok (.bool false) ∨
      ∃ unit length, c.evaluate m = .error (.dataNotReady unit length) := by
  cases h.settles m with
  | value hready heval hsort => exact .inl (heval.trans (h.eq_false_of_ok hguarded hm heval ▸ rfl))
  | unready unit length hfirst heval => exact .inr ⟨_, _, heval⟩

end Condition

namespace Interpreter

variable {σ : Type} {around : Surroundings σ} {c : CompiledLogic} {details : Bool}

theorem filterMap_call?_entries (title : String) (lines : List String) :
    ((lines.map (Event.entry title)).map (Event.mark (σ := σ))).filterMap Mark.call? = [] := by
  rw [map_mark_entry]
  exact List.filterMap_eq_nil_iff.mpr (by simp [Mark.call?])

/-- A turn whose condition does not hold calls nobody and leaves the interpreter as it is. -/
theorem Turn.restrained {side : Side} {a z : Interpreter × σ} {events : List (Event σ)}
    {outcome : Outcome Bool} (h : Turn around c details side a events outcome z)
    (hfalse : ∀ v, (c.condition side).evaluate a.1.market = .ok v → v = .bool false) :
    calls events = [] ∧ z.1 = a.1 ∧ (outcome = .ok false ∨
      ∃ e, outcome = .error e ∧ (c.condition side).evaluate a.1.market = .error e) := by
  cases h with
  | @failed e heval => exact ⟨filterMap_call?_entries _ _, rfl, .inr ⟨e, rfl, heval⟩⟩
  | unmet heval hv => exact ⟨filterMap_call?_entries _ _, rfl, .inl rfl⟩
  | unheard heval hv hexecutor =>
    obtain rfl := hfalse _ heval
    cases hv
  | executed heval hv hexecutor hcarried =>
    obtain rfl := hfalse _ heval
    cases hv

/-- A course on which neither condition holds calls nobody. -/
theorem Course.restrained {a z : Interpreter × σ} {events : List (Event σ)}
    {outcome : Outcome Decision} (h : Course around c details a events outcome z)
    (hfalse : ∀ side v, (c.condition side).evaluate a.1.market = .ok v → v = .bool false) :
    calls events = [] ∧ z.1 = a.1 ∧ (outcome = .ok ⟨false, false⟩ ∨
      ∃ e side, outcome = .error e ∧ (c.condition side).evaluate a.1.market = .error e) := by
  have hcalls : ∀ {early late : List (Event σ)}, calls early = [] → calls late = [] →
      calls (early ++ late) = [] := by
    intro early late hearly hlate
    rw [calls, List.map_append, List.filterMap_append]
    exact List.append_eq_nil_iff.mpr ⟨hearly, hlate⟩
  cases h with
  | buyFailed hbuy =>
    obtain ⟨hnone, hsame, houtcome⟩ := hbuy.restrained (hfalse .buy)
    obtain ⟨e, he, heval⟩ := houtcome.resolve_left (by simp)
    exact ⟨hnone, hsame, .inr ⟨e, .buy, congrArg _ (Except.error.inj he), heval⟩⟩
  | @sellFailed bought sold buy e b z hbuy hsell =>
    obtain ⟨hbought, hsame, -⟩ := hbuy.restrained (hfalse .buy)
    rw [← hsame] at hfalse ⊢
    obtain ⟨hsold, hsame', houtcome⟩ := hsell.restrained (hfalse .sell)
    obtain ⟨e', he, heval⟩ := houtcome.resolve_left (by simp)
    exact ⟨hcalls hbought hsold, hsame', .inr ⟨e', .sell, congrArg _ (Except.error.inj he), heval⟩⟩
  | @decided bought sold buy sell b z hbuy hsell =>
    obtain ⟨hbought, hsame, hbuying⟩ := hbuy.restrained (hfalse .buy)
    rw [← hsame] at hfalse ⊢
    obtain ⟨hsold, hsame', hselling⟩ := hsell.restrained (hfalse .sell)
    obtain rfl := Except.ok.inj (hbuying.resolve_right (by simp))
    obtain rfl := Except.ok.inj (hselling.resolve_right (by simp))
    exact ⟨hcalls hbought hsold, hsame', .inl rfl⟩

/-- If every comparison of a logic reads prices and none holds of what is unequal, then no condition
of the logic holds without prices: it is false, or it lacks a highest price. So no run calls the
executor, whoever that is and whatever state the interpreter is in. A run that is not refused
decides against both sides, or reports the price that is missing. -/
theorem no_data_no_trade {logic : Value} (hcompiled : CompiledLogic.ofLogic logic = .ok c)
    (hguarded : ∀ side, (c.condition side).IsGuarded) :
    (∀ m : Market, m.HasNoPrices → ∀ side, (c.condition side).evaluate m = .ok (.bool false) ∨
      ∃ unit length, (c.condition side).evaluate m = .error (.dataNotReady unit length)) ∧
    ∀ (around : Surroundings σ) (i : Interpreter), i.compiled = some c → i.market.HasNoPrices →
      ∀ (details : Bool) (s : σ), ∃ outcome marks z,
        (run around details).exec (i, s) = (outcome, z) ∧
        (∀ l, (run around.journaled details).exec (i, (l, s)) =
          (outcome, (z.1, (l ++ marks, z.2)))) ∧
        marks.filterMap Mark.call? = [] ∧
        (outcome = .ok ⟨false, false⟩ ∨
          (∃ unit length, outcome = .error (.dataNotReady unit length)) ∨
          ∃ reason, outcome = .error (.interpreterState reason)) := by
  have hsettles : ∀ m : Market, m.HasNoPrices → ∀ side,
      (c.condition side).evaluate m = .ok (.bool false) ∨
        ∃ unit length, (c.condition side).evaluate m = .error (.dataNotReady unit length) :=
    fun m hm side => (c.hasSort_condition hcompiled side).false_or_unready (hguarded side) hm
  refine ⟨hsettles, fun around i hi hdata details s => ?_⟩
  cases hlocked : i.locked with
  | true =>
    refine ⟨_, [], _, exec_run_of_locked hlocked details s, fun l => ?_, rfl, .inr (.inr ⟨_, rfl⟩)⟩
    rw [List.append_nil, exec_run_of_locked hlocked]
  | false =>
    cases hrunnable : i.isRunnable with
    | false =>
      have hrefused : ∀ {τ : Type} (around : Surroundings τ) (s : τ),
          (run around details).exec (i, s) =
            (.error (.interpreterState s!"cannot run while {i.status.name}"), (i, s)) := by
        intro τ around s
        simp [run, ExceptT.exec_bind, hlocked, hrunnable]
      refine ⟨_, [], _, hrefused around s, fun l => ?_, rfl, .inr (.inr ⟨_, rfl⟩)⟩
      rw [List.append_nil, hrefused]
    | true =>
      obtain ⟨events, outcome, z, h⟩ := exists_course around c details (i.underway c, s)
      have hempty : (i.underway c).market.HasNoPrices :=
        hdata.of_sameData (.retried c.warmUps i.market)
      have hfalse : ∀ side v, (c.condition side).evaluate (i.underway c).market = .ok v →
          v = .bool false := fun side v hv =>
        (c.hasSort_condition hcompiled side).eq_false_of_ok (hguarded side) hempty hv
      obtain ⟨hcalls, -, houtcome⟩ := h.restrained hfalse
      refine ⟨outcome, events.map Event.mark, _, h.exec_run hcompiled hi hrunnable hlocked,
        h.exec_run_journaled hcompiled hi hrunnable hlocked, hcalls, ?_⟩
      rcases houtcome with hdecided | ⟨e, side, he, heval⟩
      · exact .inl hdecided
      · obtain ⟨unit, length, hmissing⟩ :=
          (hsettles _ hempty side).resolve_left (by simp [heval])
        refine .inr (.inl ⟨unit, length, ?_⟩)
        rw [he, Except.error.inj (heval.symm.trans hmissing)]

/-- An interpreter of the trend logic before the first candle. -/
def trendInterpreter : Interpreter :=
  { new (.text "ABC") (.new { stock := .text "ABC" } true) with
    compiled := some CompiledLogic.trend
    status := .parsed }

/-- The trend logic, which compares the price with its average, decides against both sides before
the first candle, and the executor is not called. -/
theorem trend_waits_for_prices :
    (∀ side, (CompiledLogic.trend.condition side).IsGuarded) ∧
      trendInterpreter.market.HasNoPrices ∧ ∃ marks z,
        (run reentrant.journaled true).exec (trendInterpreter, ([], ())) =
          (.ok ⟨false, false⟩, (z, (marks, ()))) ∧
        marks.filterMap Mark.call? = [] := by
  have hguarded : ∀ side, (CompiledLogic.trend.condition side).IsGuarded := by
    intro side operator a b hmem
    have hwalk : (CompiledLogic.trend.condition side).walk =
        [CompiledLogic.trendCondition, .currentPrice, .sma (.int 200)] := by cases side <;> rfl
    rw [hwalk] at hmem
    obtain ⟨rfl, rfl, -⟩ :=
      Condition.compare.inj ((List.mem_cons.mp hmem).resolve_right (by simp))
    exact ⟨fun h => absurd (Value.text.inj h) (by decide), .inl rfl⟩
  have hempty : trendInterpreter.market.HasNoPrices := ⟨rfl, rfl⟩
  obtain ⟨outcome, marks, z, -, hjournaled, hcalls, -⟩ :=
    (no_data_no_trade CompiledLogic.ofLogic_trendLogic hguarded).2 reentrant trendInterpreter rfl
      hempty true ()
  have houtcome : ((run reentrant.journaled true).exec (trendInterpreter, ([], ()))).1 =
      .ok ⟨false, false⟩ := by
    with_unfolding_all rfl
  rw [hjournaled] at houtcome
  obtain rfl : outcome = .ok ⟨false, false⟩ := houtcome
  exact ⟨hguarded, hempty, marks, z.1, hjournaled [], hcalls⟩

end Interpreter

end TradingRules
