import TradingRules.Proofs.Graph.Unfolding
import TradingRules.Proofs.Logic.Readiness
import Mathlib.Data.List.Nodup
import Mathlib.Data.List.Induction

/-!
# Periods of a logic

The periods that a compiled logic looks up are those of the highest prices in its two conditions,
each of them once.
-/

namespace TradingRules

open Market (Period)

section

variable {periods added : List Period} {p q : Period}

/-- Units that are texts or null are found where they are. -/
theorem contains_period_iff (hp : p.unit.IsName) : periods.contains p = true ↔ p ∈ periods := by
  rw [List.contains_iff_exists_mem_beq]
  constructor
  · rintro ⟨q, hq, hsame⟩
    obtain ⟨hunit, hlength⟩ := Bool.and_eq_true_iff.mp hsame
    have hunit := (Value.isSame_iff_of_isName_left hp).mp hunit
    have hlength := beq_iff_eq.mp hlength
    obtain ⟨unit, length⟩ := p
    cases hunit
    cases hlength
    exact hq
  · intro hmem
    refine ⟨p, hmem, Bool.and_eq_true_iff.mpr ⟨?_, beq_self_eq_true _⟩⟩
    exact (Value.isSame_iff_of_isName_left hp).mpr rfl

theorem mem_addPeriod_iff (hq : q.unit.IsName) : p ∈ addPeriod periods q ↔ p ∈ periods ∨ p = q := by
  unfold addPeriod
  split
  · rename_i hcontains
    refine ⟨.inl, ?_⟩
    rintro (hmem | rfl)
    · exact hmem
    · exact (contains_period_iff hq).mp hcontains
  · rw [List.mem_append, List.mem_singleton]

theorem mem_foldl_addPeriod_iff (hadded : ∀ q ∈ added, q.unit.IsName) :
    p ∈ added.foldl addPeriod periods ↔ p ∈ periods ∨ p ∈ added := by
  induction added generalizing periods with
  | nil => simp
  | cons q rest ih =>
    have hrest : ∀ q' ∈ rest, q'.unit.IsName := fun q' hq' => hadded q' (List.mem_cons_of_mem q hq')
    rw [List.foldl_cons, ih hrest, mem_addPeriod_iff (hadded q List.mem_cons_self), List.mem_cons,
      or_assoc]

theorem nodup_foldl_addPeriod (hadded : ∀ p ∈ added, p.unit.IsName) (h : periods.Nodup) :
    (added.foldl addPeriod periods).Nodup := by
  induction added generalizing periods with
  | nil => exact h
  | cons q rest ih =>
    apply ih
    · intro p hp
      exact hadded p (List.mem_cons_of_mem q hp)
    · unfold addPeriod
      split
      · exact h
      · rename_i hcontains
        have hnew := mt (contains_period_iff (hadded q List.mem_cons_self)).mpr hcontains
        rw [← List.concat_eq_append]
        exact h.concat hnew

/-- Adding periods one by one is dropping later duplicates. -/
theorem foldl_addPeriod_nil (l : List Period) : l.foldl addPeriod [] = l.eraseDups := by
  have hloop : ∀ met : List Period,
      List.eraseDupsBy.loop (· == ·) l met = l.foldl addPeriod met.reverse := by
    induction l with
    | nil => exact fun met => rfl
    | cons p rest ih =>
      intro met
      have hcontains : met.reverse.contains p = met.any (p == ·) := by
        rw [List.contains_eq_any_beq, List.any_reverse]
      rw [List.eraseDupsBy.loop, List.foldl_cons, addPeriod, hcontains]
      cases met.any (p == ·) with
      | true => exact ih met
      | false => simpa using ih (p :: met)
  exact (hloop []).symm

/-- What was collected on its own is added like all that it was collected from. -/
theorem foldl_addPeriod_foldl (hadded : ∀ p ∈ added, p.unit.IsName) :
    (added.foldl addPeriod []).foldl addPeriod periods = added.foldl addPeriod periods := by
  induction added using List.reverseRecOn with
  | nil => rfl
  | append_singleton rest p ih =>
    have hp := hadded p (List.mem_append_right _ List.mem_cons_self)
    have hrest : ∀ q ∈ rest, q.unit.IsName := fun q hq => hadded q (List.mem_append_left _ hq)
    rw [List.foldl_append, List.foldl_append, List.foldl_cons, List.foldl_nil, List.foldl_cons,
      List.foldl_nil]
    by_cases hmem : p ∈ rest
    · -- The last period has been met, in both of the lists.
      have hmet (start : List Period) :
          addPeriod (rest.foldl addPeriod start) p = rest.foldl addPeriod start :=
        if_pos ((contains_period_iff hp).mpr ((mem_foldl_addPeriod_iff hrest).mpr (.inr hmem)))
      rw [hmet, hmet, ih hrest]
    · have hnew : addPeriod (rest.foldl addPeriod []) p = rest.foldl addPeriod [] ++ [p] := by
        refine if_neg fun hcontains => hmem ?_
        simpa using (mem_foldl_addPeriod_iff hrest).mp ((contains_period_iff hp).mp hcontains)
      rw [hnew, List.foldl_append, ih hrest, List.foldl_cons, List.foldl_nil]

end

theorem Node.periods_of_supplier {n : Node} {graph : String} {periods : List Period}
    {kind : NodeKind} {leaf : WithPeriods} (h : n.supplier graph periods kind = .ok (some leaf)) :
    leaf.2 = leaf.1.periods.foldl addPeriod periods := by
  cases kind with
  | compare | logicOp | buy | sell => simp [supplier] at h
  | currentPrice | rsi | roi =>
    cases h
    rfl
  | const =>
    obtain ⟨x, -, h⟩ := Outcome.bind_eq_ok.mp h
    cases h
    rfl
  | highestPrice =>
    obtain ⟨p, -, h⟩ := Outcome.bind_eq_ok.mp h
    cases h
    rfl
  | sma =>
    obtain ⟨c, hc, h⟩ := Outcome.bind_eq_ok.mp h
    cases h
    obtain ⟨k, -, -, -, rfl⟩ := averageCondition_eq_ok_iff.mp hc
    rfl

/-- Compiling a node adds the periods of the condition that it gives. -/
theorem Graph.Compiles.periods_eq {g : Graph} {name : String} {id referrer : Value}
    {unvisited : List Node} {periods : List Period} {result : WithPeriods}
    (h : g.Compiles name id referrer unvisited periods result) :
    result.2 = result.1.periods.foldl addPeriod periods := by
  induction h with
  | leaf hnode hmet hkind hof hleaf => exact Node.periods_of_supplier hleaf
  | compare hnode hmet hkind hof hoperator hoperands hx hy ihx ihy =>
    simp only at ihx ihy ⊢
    rw [ihy, ihx, Condition.periods_compare, List.foldl_append]
  | logicOp hnode hmet hkind hof hoperator hoperands hcheckA hx hcheckB hy ihx ihy =>
    simp only at ihx ihy ⊢
    rw [ihy, ihx, Condition.periods_logicOp, List.foldl_append]

theorem Graph.periods_of_compile {g : Graph} {name : String} {kind : NodeKind}
    {result : WithPeriods} {order : OrderData} (h : g.compile name kind = .ok (result, order)) :
    result.2 = result.1.periods.foldl addPeriod [] := by
  obtain ⟨source, terminal, -, hderived⟩ := exists_compiles_of_compile h
  exact hderived.periods_eq

theorem KnownUnits.isName {periods : List Period} (h : KnownUnits periods) {p : Period}
    (hp : p ∈ periods) : p.unit.IsName := by
  obtain ⟨u, -, hunit⟩ := h p hp
  exact .inr ⟨u, hunit⟩

theorem Condition.mem_periods_iff {c : Condition} {p : Period} :
    p ∈ c.periods ↔ .highestPrice p.unit (.int p.length) ∈ c.walk := by
  rw [periods, List.mem_filterMap]
  constructor
  · rintro ⟨node, hnode, hp⟩
    cases node with
    | highestPrice unit length =>
      cases length <;> cases hp
      exact hnode
    | _ => cases hp
  · exact fun h => ⟨_, h, rfl⟩

namespace CompiledLogic

variable {logic : Value} {c : CompiledLogic}

/-- Every highest price of an accepted logic has a known unit and a positive length. -/
theorem exists_unit (h : ofLogic logic = .ok c) {unit length : Value}
    (hnode : .highestPrice unit length ∈ c.buy.walk ++ c.sell.walk) :
    ∃ u n, unit = .text u ∧ length = .int n ∧ u ∈ periodUnits ∧ 1 ≤ n := by
  obtain ⟨hbuySort, hsellSort⟩ := hasSort_of_ofLogic h
  obtain ⟨t, hsort⟩ : ∃ t, (Condition.highestPrice unit length).HasSort t :=
    (List.mem_append.mp hnode).elim hbuySort.of_mem_walk hsellSort.of_mem_walk
  cases hsort with
  | @highestPrice u n hunit hpos => exact ⟨u, n, rfl, rfl, hunit, hpos⟩

theorem knownUnits_periods (h : ofLogic logic = .ok c) :
    KnownUnits (c.buy.periods ++ c.sell.periods) := by
  intro p hp
  have hnode : .highestPrice p.unit (.int p.length) ∈ c.buy.walk ++ c.sell.walk := by
    simpa [Condition.mem_periods_iff] using hp
  obtain ⟨u, n, hunit, -, hknown, -⟩ := exists_unit h hnode
  exact ⟨u, hknown, hunit⟩

/-- The periods of both conditions are looked up, in the order of the walks and without later
duplicates. -/
theorem warmUps_eq (h : ofLogic logic = .ok c) :
    c.warmUps = (c.buy.periods ++ c.sell.periods).eraseDups := by
  obtain ⟨buy, sell, buyPeriods, sellPeriods, hbuy, hsell, hwarmUps⟩ := exists_compile_of_ofLogic h
  have hbuyPeriods : buyPeriods = c.buy.periods.foldl addPeriod [] := Graph.periods_of_compile hbuy
  have hsellPeriods : sellPeriods = c.sell.periods.foldl addPeriod [] :=
    Graph.periods_of_compile hsell
  have hsellNames : ∀ p ∈ c.sell.periods, p.unit.IsName := fun p hp =>
    (knownUnits_periods h).isName (List.mem_append_right _ hp)
  rw [hwarmUps, hbuyPeriods, hsellPeriods, foldl_addPeriod_foldl hsellNames, ← List.foldl_append,
    foldl_addPeriod_nil]

theorem nodup_warmUps (h : ofLogic logic = .ok c) : c.warmUps.Nodup := by
  rw [warmUps_eq h, ← foldl_addPeriod_nil]
  exact nodup_foldl_addPeriod (fun p => (knownUnits_periods h).isName) List.nodup_nil

/-- The periods that are looked up are those of the highest prices in the two conditions. -/
theorem mem_warmUps_iff (h : ofLogic logic = .ok c) {p : Period} :
    p ∈ c.warmUps ↔ .highestPrice p.unit (.int p.length) ∈ c.buy.walk ++ c.sell.walk := by
  have hwalk : p ∈ c.buy.periods ++ c.sell.periods ↔
      .highestPrice p.unit (.int p.length) ∈ c.buy.walk ++ c.sell.walk := by
    rw [List.mem_append, List.mem_append, Condition.mem_periods_iff, Condition.mem_periods_iff]
  rw [warmUps_eq h, ← foldl_addPeriod_nil, ← hwalk,
    mem_foldl_addPeriod_iff fun p => (knownUnits_periods h).isName]
  simp

theorem knownUnits_warmUps (h : ofLogic logic = .ok c) : KnownUnits c.warmUps := by
  intro p hp
  obtain ⟨u, n, hunit, -, hknown, -⟩ := exists_unit h ((mem_warmUps_iff h).mp hp)
  exact ⟨u, hknown, hunit⟩

/-- Every highest price of an accepted logic has a known unit and a positive length, and its period
is looked up. -/
theorem exists_period (h : ofLogic logic = .ok c) {unit length : Value}
    (hnode : .highestPrice unit length ∈ c.buy.walk ++ c.sell.walk) :
    ∃ u n, unit = .text u ∧ length = .int n ∧ u ∈ periodUnits ∧ 1 ≤ n ∧
      ⟨.text u, n⟩ ∈ c.warmUps := by
  obtain ⟨u, n, rfl, rfl, hunit, hpos⟩ := exists_unit h hnode
  exact ⟨u, n, rfl, rfl, hunit, hpos, (mem_warmUps_iff h).mpr hnode⟩

end CompiledLogic

end TradingRules
