import TradingRules.Proofs.Interpreter.Parsing

/-!
# Warm-ups

The highest prices of a logic are looked up for the periods that its two conditions name, each once
and no others. A parse that succeeds starts the lookups that there are not yet, so that afterwards
there is one for every highest price that an evaluation can ask for.
-/

namespace TradingRules.Interpreter

open Market (Period)
open CompiledLogic (weeklyLogic weekly ofLogic_weeklyLogic)

variable {σ : Type}

/-- A parse that succeeds has compiled its logic, and it leaves the market data as after a start and
the lookups of the logic. -/
theorem exists_accepted {around : Surroundings σ} {logic : Value} {i i' : Interpreter} {s s' : σ}
    (h : (parse around logic).exec (i, s) = (.ok true, (i', s'))) :
    ∃ c, CompiledLogic.ofLogic logic = .ok c ∧ i'.compiled = some c ∧
      i'.market = i.market.start.2.warmedUp c.warmUps := by
  by_cases hfree : i.status = .running ∨ i.status = .stopped
  · rw [exec_parse_of_refused around (i, s) logic hfree] at h
    cases h
  · rw [exec_parse_of_free around (i, s) logic hfree] at h
    cases hlogic : CompiledLogic.ofLogic logic with
    | error e =>
      rw [hlogic] at h
      cases e <;> cases h
    | ok c =>
      rw [hlogic] at h
      obtain ⟨m, hm, haccept⟩ := exec_accept_of_ofLogic hlogic { i with compiled := none } s
      have hafter := haccept.symm.trans h
      cases hdisposed : i.market.disposed with
      | true =>
        simp only [hdisposed, if_true] at hafter
        cases hafter
      | false =>
        simp only [hdisposed, Bool.false_eq_true, if_false] at hafter
        cases hafter
        exact ⟨c, rfl, rfl, hm hdisposed⟩

open Classical in
/-- The periods that a logic looks up are exact. They are those of the highest prices in the walk of
its buying condition and then of its selling one, without later duplicates: none is missing, none is
extra, and none occurs twice. With a source, a parse that succeeds starts one lookup for each of
them that has none, and then there is a lookup for all of them. -/
theorem warm_ups_are_exact (around : Surroundings σ) (logic : Value) :
    (∀ c, CompiledLogic.ofLogic logic = .ok c →
      c.warmUps = (c.buy.periods ++ c.sell.periods).eraseDups ∧ c.warmUps.Nodup ∧
      ∀ unit length, .highestPrice unit length ∈ c.buy.walk ++ c.sell.walk ↔
        ∃ n, length = .int n ∧ ⟨unit, n⟩ ∈ c.warmUps) ∧
    ∀ (i i' : Interpreter) (s s' : σ), i.market.connected = true →
      (parse around logic).exec (i, s) = (.ok true, (i', s')) →
      ∃ c, CompiledLogic.ofLogic logic = .ok c ∧ i'.compiled = some c ∧
        i'.market.lookups = i.market.lookups ++
          (c.warmUps.filter fun p => decide (i.market.IsUntried p)).map (fun p => (p, .pending)) ∧
        ∀ p ∈ c.warmUps, ∃ status, (p, status) ∈ i'.market.lookups := by
  constructor
  · intro c hc
    refine ⟨CompiledLogic.warmUps_eq hc, CompiledLogic.nodup_warmUps hc, fun unit length => ?_⟩
    constructor
    · intro hnode
      obtain ⟨u, n, rfl, rfl, -, -, hmem⟩ := CompiledLogic.exists_period hc hnode
      exact ⟨n, rfl, hmem⟩
    · rintro ⟨n, rfl, hmem⟩
      exact (CompiledLogic.mem_warmUps_iff hc).mp hmem
  · intro i i' s s' hconnected hparse
    obtain ⟨c, hc, hcompiled, hmarket⟩ := exists_accepted hparse
    have hstart := Market.unaffected_start i.market
    have hunits : ∀ p ∈ c.warmUps, ∃ unit, p.unit = .text unit := by
      intro p hp
      obtain ⟨u, -, hunit⟩ := CompiledLogic.knownUnits_warmUps hc p hp
      exact ⟨u, hunit⟩
    have hlookups := Market.lookups_warmedUp (hstart.connected.trans hconnected) hunits
      (CompiledLogic.nodup_warmUps hc)
    have hsame (p : Period) : i.market.start.2.IsUntried p = i.market.IsUntried p := by
      rw [Market.IsUntried, Market.IsUntried, hstart.lookups]
    simp only [← hmarket, hsame, hstart.lookups] at hlookups
    refine ⟨c, hc, hcompiled, hlookups, fun p hp => ?_⟩
    by_cases huntried : i.market.IsUntried p
    · refine ⟨.pending, hlookups ▸ List.mem_append_right _ (List.mem_map.mpr ⟨p, ?_, rfl⟩)⟩
      exact List.mem_filter.mpr ⟨hp, decide_eq_true huntried⟩
    · simp only [Market.IsUntried, not_forall, not_not] at huntried
      obtain ⟨⟨q, status⟩, hl, rfl⟩ := huntried
      exact ⟨status, hlookups ▸ List.mem_append_left _ hl⟩

/-- The week that two sides ask for is looked up once. -/
theorem weekly_looks_up_once : CompiledLogic.ofLogic weeklyLogic = .ok weekly ∧
    weekly.warmUps = (weekly.buy.periods ++ weekly.sell.periods).eraseDups ∧
    ∃ i' : Interpreter,
      (parse noting weeklyLogic).exec (parsedInterpreter, []) = (.ok true, (i', [])) ∧
      i'.market.lookups = [(⟨.text "week", 1⟩, .pending)] := by
  obtain ⟨m, -, haccept⟩ :=
    exec_accept_of_ofLogic ofLogic_weeklyLogic { parsedInterpreter with compiled := none }
      ([] : List (String × String))
  have hparse : (parse noting weeklyLogic).exec (parsedInterpreter, []) =
      (.ok true, ({ parsedInterpreter with compiled := some weekly, market := m }, [])) := by
    rw [exec_parse_of_free _ _ _ (by decide), ofLogic_weeklyLogic]
    exact haccept
  obtain ⟨hexact, hregistered⟩ := warm_ups_are_exact noting weeklyLogic
  obtain ⟨c, hc, -, hlookups, -⟩ := hregistered _ _ _ _ rfl hparse
  obtain rfl : weekly = c := Except.ok.inj (ofLogic_weeklyLogic.symm.trans hc)
  refine ⟨ofLogic_weeklyLogic, (hexact weekly ofLogic_weeklyLogic).1, _, hparse, ?_⟩
  rw [hlookups]
  simp [parsedInterpreter, Market.new, weekly, Market.IsUntried]

end TradingRules.Interpreter
