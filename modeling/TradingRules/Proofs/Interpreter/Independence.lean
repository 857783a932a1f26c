import TradingRules.Proofs.Interpreter.Trading

/-!
# Independence of the sides

As long as the executor leaves the market data as it is, nothing that the buying side comes to has a
part in whether the selling order is handed over, with one exception: a buying side that fails ends
the run, and the selling side has no turn then.
-/

namespace TradingRules

namespace CompiledLogic

/-- The selling side of a logic is compiled from its sell graph alone. -/
theorem selling_eq_of_sellGraph {logic logic' : Value} {buy buy' sell : Graph}
    {c c' : CompiledLogic} (hgraphs : Graph.ofLogic logic = .ok (buy, sell))
    (hgraphs' : Graph.ofLogic logic' = .ok (buy', sell)) (hc : ofLogic logic = .ok c)
    (hc' : ofLogic logic' = .ok c') :
    c.condition .sell = c'.condition .sell ∧ c.order .sell = c'.order .sell := by
  obtain ⟨-, periods, -, hsell, -⟩ := exists_compile_of_graphs hgraphs hc
  obtain ⟨-, periods', -, hsell', -⟩ := exists_compile_of_graphs hgraphs' hc'
  have heq : ((c.sell, periods), c.sellOrder) = ((c'.sell, periods'), c'.sellOrder) :=
    Except.ok.inj (hsell.symm.trans hsell')
  exact ⟨congrArg (·.1.1) heq, congrArg (·.2) heq⟩

end CompiledLogic

namespace Interpreter

variable {σ τ : Type}

/-- The orders that a run hands over to the executor. -/
def handedOver (around : Surroundings σ) (details : Bool) (i : Interpreter) (s : σ) : List Call :=
  ((run around.journaled details).exec (i, ([], s))).2.2.1.filterMap Mark.call?

/-- The executor leaves the market data as it is, whatever else it does. -/
def Surroundings.KeepsData (around : Surroundings σ) : Prop :=
  ∀ executor ∈ around.executor, ∀ side order stock (a : Interpreter × σ),
    ((carryOut around (executor side order stock)).exec a).2.1.market.SameData a.1.market

/-- The buying side fails: its condition lacks data, or it holds and the executor fails. -/
def BuyingFails (around : Surroundings σ) (c : CompiledLogic) (details : Bool)
    (a : Interpreter × σ) : Prop :=
  (∃ e, (c.condition .buy).evaluate a.1.market = .error e) ∨
    c.isMet .buy a.1.market = true ∧ ∃ executor ∈ around.executor, ∃ e,
      ((carryOut around (executor .buy (c.order .buy) a.1.stock)).exec
        (noted around .buy (c.lines details .buy a.1.market) a)).1 = .error e

/-- An interpreter about to run a logic, with an executor that leaves the market data as it is. -/
structure Primed (around : Surroundings σ) (logic : Value) (c : CompiledLogic)
    (i : Interpreter) : Prop where
  accepted : CompiledLogic.ofLogic logic = .ok c
  loaded : i.compiled = some c
  runnable : i.isRunnable = true
  free : i.locked = false
  executor : around.executor.isSome = true
  keeps : around.KeepsData

section

variable {around : Surroundings σ} {c : CompiledLogic} {details : Bool} {a z : Interpreter × σ}
  {events : List (Event σ)} {outcome : Outcome Bool}

theorem Turn.sameData {side : Side} (h : Turn around c details side a events outcome z)
    (hkeeps : around.KeepsData) : z.1.market.SameData a.1.market := by
  cases h with
  | failed heval => exact .refl _
  | unmet heval hv => exact .refl _
  | unheard heval hv hnone => exact .refl _
  | @executed v executor result z heval hv hexecutor hcarried =>
    have hkept := hkeeps executor hexecutor side (c.order side) a.1.stock
      (noted around side (c.lines details side a.1.market) a)
    rw [hcarried] at hkept
    exact hkept

theorem Turn.error_iff_buyingFails (h : Turn around c details .buy a events outcome z) :
    (∃ e, outcome = .error e) ↔ BuyingFails around c details a := by
  cases h with
  | failed heval => exact ⟨fun _ => .inl ⟨_, heval⟩, fun _ => ⟨_, rfl⟩⟩
  | unmet heval hv =>
    simp [BuyingFails, CompiledLogic.isMet, heval, hv]
  | unheard heval hv hnone =>
    simp [BuyingFails, heval, hnone]
  | @executed v executor result z heval hv hexecutor hcarried =>
    cases result <;>
      simp [BuyingFails, CompiledLogic.isMet, heval, hv, hexecutor, hcarried, Except.map]

end

/-- One run: its selling order is handed over exactly if the buying side does not fail and the
selling condition holds on the data that the run starts with. -/
theorem Primed.sells_iff {around : Surroundings σ} {logic : Value} {c : CompiledLogic}
    {i : Interpreter} (h : Primed around logic c i) (details : Bool) (s : σ) :
    c.call .sell i.stock ∈ handedOver around details i s ↔
      ¬ BuyingFails around c details (i.underway c, s) ∧ c.isMet .sell i.market = true := by
  obtain ⟨events, outcome, z, hcourse⟩ := exists_course around c details (i.underway c, s)
  obtain ⟨bought, bides, b, hturn⟩ := exists_turn around c details .buy (i.underway c, s)
  have hcalls : handedOver around details i s = calls events := by
    rw [handedOver, hcourse.exec_run_journaled h.accepted h.loaded h.runnable h.free, calls]
    rfl
  have hmem := hcourse.sell_mem_calls_iff h.accepted h.executor
  have hdata : b.1.market.SameData i.market :=
    (hturn.sameData h.keeps).trans (.retried c.warmUps i.market)
  rw [hturn.buying_eq h.accepted] at hmem
  rw [hcalls, ← hturn.error_iff_buyingFails]
  refine hmem.trans ?_
  cases bides with
  | error e => simp
  | ok buy =>
    rw [← CompiledLogic.isMet_congr hdata]
    constructor
    · rintro ⟨buy', b', hb, hmet⟩
      obtain rfl := (Prod.mk.inj hb).2
      exact ⟨by simp, hmet⟩
    · rintro ⟨-, hmet⟩
      exact ⟨buy, b, rfl, hmet⟩

/-- Take two logics with the same sell graph, and a run of each on the same market data. Both would
hand over the same selling order, and each does so exactly if its condition holds and its own buying
side does not fail. So unless a buying side fails, one of the runs sells if and only if the other
one does, whatever their buy graphs and executors are. -/
theorem sides_are_independent_unless_buying_fails {logic logic' : Value} {buy buy' sell : Graph}
    {c c' : CompiledLogic} (hgraphs : Graph.ofLogic logic = .ok (buy, sell))
    (hgraphs' : Graph.ofLogic logic' = .ok (buy', sell)) {around : Surroundings σ}
    {around' : Surroundings τ} {i i' : Interpreter} (h : Primed around logic c i)
    (h' : Primed around' logic' c' i') (hdata : i.market.SameData i'.market)
    (details details' : Bool) (s : σ) (t : τ) :
    let sells := c.call .sell i.stock ∈ handedOver around details i s
    let sells' := c'.call .sell i'.stock ∈ handedOver around' details' i' t
    let fails := BuyingFails around c details (i.underway c, s)
    let fails' := BuyingFails around' c' details' (i'.underway c', t)
    c.order .sell = c'.order .sell ∧
      (sells ↔ ¬ fails ∧ c.isMet .sell i.market = true) ∧
      (sells' ↔ ¬ fails' ∧ c.isMet .sell i.market = true) ∧
      (¬ fails → ¬ fails' → (sells ↔ sells')) := by
  intro sells sells' fails fails'
  obtain ⟨hcondition, horder⟩ :=
    CompiledLogic.selling_eq_of_sellGraph hgraphs hgraphs' h.accepted h'.accepted
  have hmet : c'.isMet .sell i'.market = c.isMet .sell i.market := by
    rw [CompiledLogic.isMet, ← hcondition, ← hdata.evaluate, ← CompiledLogic.isMet]
  have hsells : sells ↔ ¬ fails ∧ c.isMet .sell i.market = true := h.sells_iff details s
  have hsells' : sells' ↔ ¬ fails' ∧ c.isMet .sell i.market = true := by
    rw [← hmet]
    exact h'.sells_iff details' t
  refine ⟨horder, hsells, hsells', ?_⟩
  intro hok hok'
  rw [hsells, hsells', and_iff_right hok, and_iff_right hok']

end Interpreter

/-! ### Selling on a weekly breakout -/

namespace CompiledLogic

theorem exists_breakout_graphs : ∃ daily weekly sell : Graph,
    Graph.ofLogic breakoutLogic = .ok (daily, sell) ∧
      Graph.ofLogic weeklyLogic = .ok (weekly, sell) := by
  refine ⟨?daily, ?weekly, ?sell, ?hdaily, ?hweekly⟩
  case hdaily => with_unfolding_all rfl
  case hweekly => with_unfolding_all rfl

end CompiledLogic

namespace Interpreter

open CompiledLogic (breakoutLogic breakout weeklyLogic weekly)

def climbing (c : CompiledLogic) (highest : List (Market.Period × Float)) : Interpreter where
  stock := .text "ABC"
  market := { Market.new { stock := .text "ABC" } true with live := some 11.0, highest }
  status := .parsed
  compiled := some c

theorem climbing_primed {around : Surroundings σ} (hexecutor : around.executor.isSome = true)
    (hkeeps : around.KeepsData) {logic : Value} {c : CompiledLogic}
    (h : CompiledLogic.ofLogic logic = .ok c) (highest : List (Market.Period × Float)) :
    Primed around logic c (climbing c highest) :=
  ⟨h, rfl, rfl, rfl, hexecutor, hkeeps⟩

theorem quiet_keepsData : quiet.KeepsData := by
  intro executor hexecutor side order stock a
  cases hexecutor
  exact .refl _

theorem not_buyingFails_quiet {c : CompiledLogic} {details : Bool}
    {a : Interpreter × (List (String × String) × (List Call × Unit))} {v : Value}
    (heval : (c.condition .buy).evaluate a.1.market = .ok v) :
    ¬ BuyingFails quiet c details a := by
  rintro (⟨e, he⟩ | ⟨-, executor, hexecutor, e, he⟩)
  · rw [heval] at he
    cases he
  · cases hexecutor
    cases he

def highestOfDayAndWeek : List (Market.Period × Float) :=
  [(⟨.text "day", 1⟩, 20.0), (⟨.text "week", 1⟩, 10.0)]

/-- Below the highest price of the day and above that of the week, only the weekly logic buys. It
sells all the same, because the breakout logic does. -/
theorem weekly_sells_as_daily : CompiledLogic.ofLogic breakoutLogic = .ok breakout ∧
    CompiledLogic.ofLogic weeklyLogic = .ok weekly ∧
    weekly.call .sell (.text "ABC") ∈
      handedOver quiet false (climbing weekly highestOfDayAndWeek) ([], ([], ())) := by
  have hbreakout := CompiledLogic.ofLogic_breakoutLogic
  have hweekly := CompiledLogic.ofLogic_weeklyLogic
  obtain ⟨_, _, _, hdaily', hweekly'⟩ := CompiledLogic.exists_breakout_graphs
  obtain ⟨-, -, -, halike⟩ := sides_are_independent_unless_buying_fails hdaily' hweekly'
    (climbing_primed rfl quiet_keepsData hbreakout highestOfDayAndWeek)
    (climbing_primed rfl quiet_keepsData hweekly highestOfDayAndWeek) (.refl _) false false
    ([], ([], ())) ([], ([], ()))
  have hsells : handedOver quiet false (climbing breakout highestOfDayAndWeek) ([], ([], ())) =
      [breakout.call .sell (.text "ABC")] := by
    with_unfolding_all rfl
  refine ⟨hbreakout, hweekly, (halike ?_ ?_).mp ?_⟩
  · apply not_buyingFails_quiet (v := .bool false)
    with_unfolding_all rfl
  · apply not_buyingFails_quiet (v := .bool true)
    with_unfolding_all rfl
  · rw [hsells]
    exact List.mem_singleton_self _

/-- An executor that fails with every order to buy. -/
def clumsy : Surroundings Unit where
  source := { answer := fun request s => (.error (.missingKey (.text request.method)), s) }
  log _ _ s := s
  executor := some fun side _ _ => .finish fun s =>
    (if side = .buy then .error (.reported "ConnectionError" "refused") else .ok (), s)

theorem clumsy_keepsData : clumsy.KeepsData := by
  intro executor hexecutor side order stock a
  cases hexecutor
  exact .refl _

def highestOfWeek : List (Market.Period × Float) :=
  [(⟨.text "week", 1⟩, 10.0)]

/-- The selling condition of both logics holds. The weekly logic sells. The breakout logic does not,
as its buying side lacks the highest price of the day; and neither does the weekly one with an
executor that fails to buy. -/
theorem failed_buying_keeps_from_selling : ∃ daily' weekly' sell : Graph,
    Graph.ofLogic breakoutLogic = .ok (daily', sell) ∧
    Graph.ofLogic weeklyLogic = .ok (weekly', sell) ∧
    Primed quiet breakoutLogic breakout (climbing breakout highestOfWeek) ∧
    Primed quiet weeklyLogic weekly (climbing weekly highestOfWeek) ∧
    Primed clumsy weeklyLogic weekly (climbing weekly highestOfWeek) ∧
    breakout.isMet .sell (climbing breakout highestOfWeek).market = true ∧
    handedOver quiet false (climbing weekly highestOfWeek) ([], ([], ())) =
      [weekly.call .buy (.text "ABC"), weekly.call .sell (.text "ABC")] ∧
    handedOver quiet false (climbing breakout highestOfWeek) ([], ([], ())) = [] ∧
    handedOver clumsy false (climbing weekly highestOfWeek) () =
      [weekly.call .buy (.text "ABC")] := by
  obtain ⟨daily', weekly', sell, hdaily', hweekly'⟩ := CompiledLogic.exists_breakout_graphs
  refine ⟨daily', weekly', sell, hdaily', hweekly',
    climbing_primed rfl quiet_keepsData CompiledLogic.ofLogic_breakoutLogic _,
    climbing_primed rfl quiet_keepsData CompiledLogic.ofLogic_weeklyLogic _,
    climbing_primed rfl clumsy_keepsData CompiledLogic.ofLogic_weeklyLogic _, ?_, ?_, ?_, ?_⟩
  all_goals with_unfolding_all rfl

end Interpreter

end TradingRules
