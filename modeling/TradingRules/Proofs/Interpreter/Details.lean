import TradingRules.Proofs.Interpreter.Blindness
import TradingRules.Proofs.Logic.Account
import TradingRules.Proofs.Logic.Periods

/-!
# Runs with details

With details, a run accounts for the evaluation of each side in lines of its own. Nothing else
depends on them: both kinds of run evaluate the same conditions on the same data, call the executor
in the same way and end in the same state, and without the detail lines their logs are the same.
-/

namespace TradingRules

open Market (Period)

/-- The market data after the lookups of missing highest prices were started again. -/
def Market.retried : List Period → Market → Market
  | [], m => m
  | p :: rest, m =>
    retried rest (if (m.highest? p).isSome then m else (m.warmUp p.unit (.int p.length)).2)

namespace Interpreter

variable {ε τ : Type} {around : Surroundings (List ε × τ)} {entry : String → String → ε}

theorem exec_startLookups_singleton {σ : Type} {p : Period} (hp : p.unit.isKey = true)
    (i : Interpreter) (s : σ) : (startLookups [p]).exec (i, s) =
      (.ok (), ({ i with market := (i.market.warmUp p.unit (.int p.length)).2 }, s)) := by
  have hwarm : ∃ b, (i.market.warmUp p.unit (.int p.length)).1 = .ok b := by
    have hperiod : Market.periodOf p.unit (.int p.length) = .ok p := by
      simp [Market.periodOf, Value.toInt, hp]
    simp only [Market.warmUp, hperiod]
    split <;> exact ⟨_, rfl⟩
  obtain ⟨b, hb⟩ := hwarm
  simp only [startLookups, ExceptT.exec_bind, Step.exec_onMarket, hb, ExceptT.exec_pure]

theorem exec_retryLookups {σ : Type} {periods : List Period}
    (hperiods : ∀ p ∈ periods, p.unit.isKey = true) (i : Interpreter) (s : σ) :
    (retryLookups periods).exec (i, s) =
      (.ok (), ({ i with market := i.market.retried periods }, s)) := by
  induction periods generalizing i with
  | nil => rfl
  | cons p rest ih =>
    have hp := hperiods p List.mem_cons_self
    have hrest := ih fun q hq => hperiods q (List.mem_cons_of_mem p hq)
    have hready : i.market.isHighestReady p.unit (.int p.length) =
        .ok (i.market.highest? p).isSome := by
      simp [Market.isHighestReady, Market.periodOf, Value.toInt, hp]
    simp only [retryLookups, ExceptT.exec_bind, Step.exec_market, hready, ExceptT.exec_liftM]
    cases hfound : (i.market.highest? p).isSome with
    | true => simp [hrest, Market.retried, hfound]
    | false =>
      simp [ExceptT.exec_bind_ok (exec_startLookups_singleton hp i s), hrest, Market.retried,
        hfound]

def details (entry : String → String → ε) (side : Side) (condition : Condition) (m : Market) :
    List ε :=
  (condition.account m).1.map (entry side.title)

theorem exec_writeLines (h : around.Blind entry) (title : String) (lines : List String)
    (i : Interpreter) (s : List ε × τ) : (writeLines around title lines).exec (i, s) =
      (.ok (), (i, (s.1 ++ lines.map (entry title), s.2))) := by
  induction lines generalizing s with
  | nil => simp [writeLines]
  | cons line rest ih => simp [writeLines, ExceptT.exec_bind, h.log, ih]

/-- A side that is decided with an account does what it does without one, once its detail lines
are in the log. -/
theorem exec_runSide_details (h : around.Blind entry) {condition : Condition} {sort : ValueSort}
    (hsort : condition.HasSort sort) (side : Side) (order : OrderData) (i : Interpreter)
    (l : List ε) (t : τ) : (runSide around side condition order true).exec (i, (l, t)) =
      (runSide around side condition order false).exec
        (i, (l ++ details entry side condition i.market, t)) := by
  have hvalue := (hsort.recounts i.market).value
  cases heval : condition.evaluate i.market with
  | error e =>
    simp [runSide, decideSide, ExceptT.exec_bind, exec_writeLines h, hvalue, heval, details]
  | ok v =>
    simp [runSide, decideSide, ExceptT.exec_bind, exec_writeLines h, hvalue, heval, details]

structure Call where
  side : Side
  order : OrderData
  stock : Value

/-- Surroundings that keep the calls of the executor in order. -/
def Surroundings.recording {ρ : Type} (around : Surroundings (List ε × (List Call × ρ))) :
    Surroundings (List ε × (List Call × ρ)) :=
  { around with
    executor := around.executor.map fun executor side order stock =>
      .act (fun s => (s.1, (s.2.1 ++ [⟨side, order, stock⟩], s.2.2))) (executor side order stock) }

theorem Surroundings.Blind.recording {ρ : Type} {around : Surroundings (List ε × (List Call × ρ))}
    (h : around.Blind entry) : around.recording.Blind entry where
  log := h.log
  source := h.source
  executor := by
    intro executor hexecutor side order stock
    obtain ⟨inner, hinner, rfl⟩ := Option.map_eq_some_iff.mp hexecutor
    exact .act (fun _ _ => rfl) (h.executor inner hinner side order stock)

/-- An interpreter whose run is in progress, with the lookups of missing prices started again. -/
def underway (i : Interpreter) (logic : CompiledLogic) : Interpreter :=
  { i with
    status := .running
    locked := true
    market := i.market.retried logic.warmUps }

/-- The detail lines of the selling side, if the buying side does not end the run. -/
def sellDetails {σ : Type} (entry : String → String → ε) (condition : Condition) :
    Outcome Bool × (Interpreter × σ) → List ε
  | (.ok _, (i, _)) => details entry .sell condition i.market
  | (.error _, _) => []

/-- The two sides of a run, where the log of the buying side alone is `bought`. -/
theorem exec_runSides (h : around.Blind entry) {logic : Value} {c : CompiledLogic}
    (hcompiled : CompiledLogic.ofLogic logic = .ok c) (i : Interpreter) (l : List ε) (t : τ) :
    let start := { i with market := i.market.retried c.warmUps }
    let buying := (runSide around .buy c.buy c.buyOrder false).exec (start, ([], t))
    ∃ outcome i' rest t',
      (runSides around c false).exec (i, (l, t)) =
        (outcome, (i', (l ++ buying.2.2.1 ++ rest, t'))) ∧
      (runSides around c true).exec (i, (l, t)) =
        (outcome, (i', (l ++ details entry .buy c.buy start.market ++ buying.2.2.1 ++
          sellDetails entry c.sell buying ++ rest, t'))) := by
  intro start buying
  obtain ⟨hsortBuy, hsortSell⟩ := CompiledLogic.hasSort_of_ofLogic hcompiled
  have hretry : ∀ s : List ε × τ, (retryLookups c.warmUps).exec (i, s) = (.ok (), (start, s)) :=
    exec_retryLookups (fun p hp => (CompiledLogic.knownUnits_warmUps hcompiled).isKey hp) i
  -- The buying side, from any log.
  have hbuy : ∀ front : List ε, (runSide around .buy c.buy c.buyOrder false).exec
      (start, (front, t)) = (buying.1, (buying.2.1, (front ++ buying.2.2.1, buying.2.2.2))) := by
    intro front
    simpa [before] using h.runSide .buy c.buy c.buyOrder front start ([], t)
  have hbuyDetails := exec_runSide_details h hsortBuy .buy c.buyOrder start l t
  rw [hbuy] at hbuyDetails
  have hbuyPlain := hbuy l
  generalize buying = bought at *
  obtain ⟨e | buy, i₁, bought, t₁⟩ := bought
  · refine ⟨.error e, i₁, [], t₁, ?_, ?_⟩
    · simp [runSides, ExceptT.exec_bind, hretry, hbuyPlain]
    · simp [runSides, ExceptT.exec_bind, hretry, hbuyDetails, sellDetails]
  · -- The selling side takes up where the buying side stopped.
    let selling := (runSide around .sell c.sell c.sellOrder false).exec (i₁, ([], t₁))
    have hsell : ∀ front : List ε,
        (runSide around .sell c.sell c.sellOrder false).exec (i₁, (front, t₁)) =
          (selling.1, (selling.2.1, (front ++ selling.2.2.1, selling.2.2.2))) := by
      intro front
      simpa [before] using h.runSide .sell c.sell c.sellOrder front i₁ ([], t₁)
    have hsellDetails := fun front =>
      exec_runSide_details h hsortSell .sell c.sellOrder i₁ front t₁
    generalize selling = sold at *
    obtain ⟨outcome, i₂, sold, t₂⟩ := sold
    refine ⟨outcome.map (Decision.mk buy), i₂, sold, t₂, ?_, ?_⟩
    · cases outcome <;>
        simp [runSides, ExceptT.exec_bind, hretry, hbuyPlain, hsell, Except.map]
    · cases outcome <;>
        simp [runSides, ExceptT.exec_bind, hretry, hbuyDetails, hsellDetails, hsell, sellDetails,
          Except.map]

theorem exec_run {σ : Type} {around : Surroundings σ} {c : CompiledLogic} {i : Interpreter}
    (hi : i.compiled = some c) (hrunnable : i.isRunnable = true) (hfree : i.locked = false)
    (withDetails : Bool) (s : σ) :
    (run around withDetails).exec (i, s) =
      let ended := (runSides around c withDetails).exec
        ({ i with status := .running, locked := true }, s)
      (ended.1, (release ended.2.1, ended.2.2)) := by
  simp [run, ExceptT.exec_bind, hi, hrunnable, hfree]

theorem exec_run_of_locked {σ : Type} {around : Surroundings σ} {i : Interpreter}
    (hlocked : i.locked = true) (withDetails : Bool) (s : σ) :
    (run around withDetails).exec (i, s) =
      (.error (.interpreterState "a run is already in progress"), (i, s)) := by
  simp [run, ExceptT.exec_bind, hlocked]

/-- Details never change trading. The account of a compiled condition comes to what its evaluation
comes to, with the lines of the nodes that are completed; and a run with details comes to what the
run without them comes to, with the same calls of the executor and the same state in the end, while
its log has the detail lines of each side in front of what that side logs. -/
theorem details_never_change_trading {logic : Value} {c : CompiledLogic}
    (hcompiled : CompiledLogic.ofLogic logic = .ok c) :
    (∀ m, ∀ tree ∈ c.buy.walk ++ c.sell.walk,
      (tree.account m).2 = tree.evaluate m ∧
      (tree.account m).1.map .ok = (tree.completed m).map (Condition.line m) ∧
      (∀ v, tree.evaluate m = .ok v →
        tree.completed m = tree.postorder ∧ tree.postorder.Perm tree.walk) ∧
      (∀ e, tree.evaluate m = .error e → ∃ unit length rest,
        e = .dataNotReady unit (Value.int length).shown ∧
        m.highest? ⟨.text unit, length⟩ = none ∧
        tree.postorder = tree.completed m ++
          .highestPrice (.text unit) (.int length) :: rest)) ∧
    ∀ (ε ρ : Type) (around : Surroundings (List ε × (List Call × ρ))) (entry : String → String → ε),
      around.Blind entry → ∀ i : Interpreter, i.compiled = some c → i.isRunnable = true →
      ∀ (l : List ε) (s : List Call × ρ),
        (i.locked = true → (run around.recording true).exec (i, (l, s)) =
          (run around.recording false).exec (i, (l, s))) ∧
        (i.locked = false →
          let buying := (runSide around.recording .buy c.buy c.buyOrder false).exec
            (i.underway c, ([], s))
          ∃ outcome i' rest s',
            (run around.recording false).exec (i, (l, s)) =
              (outcome, (i', (l ++ buying.2.2.1 ++ rest, s'))) ∧
            (run around.recording true).exec (i, (l, s)) =
              (outcome, (i', (l ++ details entry .buy c.buy (i.underway c).market ++
                buying.2.2.1 ++ sellDetails entry c.sell buying ++ rest, s')))) := by
  constructor
  · intro m tree htree
    obtain ⟨hsortBuy, hsortSell⟩ := CompiledLogic.hasSort_of_ofLogic hcompiled
    obtain ⟨sort, hsort⟩ : ∃ sort, tree.HasSort sort := by
      rcases List.mem_append.mp htree with htree | htree
      · exact hsortBuy.of_mem_walk htree
      · exact hsortSell.of_mem_walk htree
    obtain ⟨hvalue, hlines⟩ := hsort.recounts m
    refine ⟨hvalue, hlines, fun v hv => ?_, fun e he => ?_⟩
    · exact ⟨Condition.completed_eq_postorder (hsort.firstUnready?_of_ok hv),
        tree.postorder_perm_walk⟩
    · obtain ⟨unit, length, hfirst, rfl⟩ := hsort.firstUnready?_of_error he
      obtain ⟨rest, hpost⟩ := Condition.exists_postorder_eq hfirst
      exact ⟨unit, length, rest, rfl, Condition.highest?_of_firstUnready? hfirst, hpost⟩
  · intro ε ρ around entry haround i hi hrunnable l s
    constructor
    · intro hlocked
      rw [exec_run_of_locked hlocked, exec_run_of_locked hlocked]
    · intro hfree
      obtain ⟨outcome, i', rest, s', hplain, hdetailed⟩ := exec_runSides haround.recording
        hcompiled { i with status := .running, locked := true } l s
      refine ⟨outcome, release i', rest, s', ?_, ?_⟩
      · rw [exec_run hi hrunnable hfree, hplain]
        rfl
      · rw [exec_run hi hrunnable hfree, hdetailed]
        rfl

def quiet : Surroundings (List (String × String) × (List Call × Unit)) where
  source := { answer := fun request s => (.error (.missingKey (.text request.method)), s) }
  log title message s := (s.1 ++ [(title, message)], s.2)
  executor := some fun _ _ _ => .finish fun s => (.ok (), s)

theorem quiet_blind : quiet.Blind Prod.mk where
  log _ _ _ := rfl
  source _ _ _ := rfl
  executor := by
    intro executor hexecutor side order stock
    cases hexecutor
    exact .finish fun _ _ => rfl

def breakoutInterpreter : Interpreter where
  stock := .text "ABC"
  market := { Market.new { stock := .text "ABC" } true with
    live := some 11.0
    highest := [(⟨.text "day", 1⟩, 10.0)] }
  status := .parsed
  compiled := some CompiledLogic.breakout

/-- With details too, the breakout logic buys once and then fails for want of the highest price of
the week. -/
theorem breakout_details : breakoutInterpreter.isRunnable = true ∧
    ((run quiet.recording true).exec (breakoutInterpreter, ([], ([], ())))).1 =
      .error (.dataNotReady "week" "1") ∧
    ((run quiet.recording true).exec (breakoutInterpreter, ([], ([], ())))).2.2.2.1.length = 1 := by
  obtain ⟨outcome, i', rest, s', hplain, hdetailed⟩ :=
    ((details_never_change_trading CompiledLogic.ofLogic_breakoutLogic).2 _ _ quiet Prod.mk
      quiet_blind breakoutInterpreter rfl rfl [] ([], ())).2 rfl
  have hfails : ((run quiet.recording false).exec (breakoutInterpreter, ([], ([], ())))).1 =
      .error (.dataNotReady "week" "1") := by
    with_unfolding_all rfl
  have hcalls : ((run quiet.recording false).exec
      (breakoutInterpreter, ([], ([], ())))).2.2.2.1.length = 1 := by
    with_unfolding_all rfl
  rw [hplain] at hfails hcalls
  exact ⟨rfl, by rw [hdetailed, hfails], by rw [hdetailed, hcalls]⟩

end Interpreter

end TradingRules
