import TradingRules.Proofs.Graph.Unfolding
import Mathlib.Logic.Relation

/-!
# Which graphs compile

A well-named graph compiles exactly when it has one terminal, the order of the terminal is valid,
and the first source of the terminal has a finite unfolding that is not a number. The compiled
condition is that unfolding, and the periods to be looked up are those of its highest prices.
-/

namespace TradingRules

open Market (Period)

namespace Graph

variable {g : Graph} {name : String} {kind : NodeKind}

open Classical in
theorem nodesOfKind_eq_of_named (hg : ∀ n ∈ g.nodes, n.Named) :
    g.nodesOfKind kind = .ok (g.nodes.filter fun n => decide (n.IsOf kind)) := by
  refine Outcome.filterM_eq_ok fun n hn => ?_
  obtain ⟨v, hv, hof⟩ := (hg n hn).exists_resolvedKind
  have hsame : (v == .text kind.name) = decide (n.IsOf kind) := by
    rw [Bool.eq_iff_iff, Value.beq_text_iff, hof, decide_eq_true_iff]
  simp [hv, hsame]

open Classical in
theorem nodesOfKind_eq (hg : g.WellNamed) :
    g.nodesOfKind kind = .ok (g.nodes.filter fun n => decide (n.IsOf kind)) :=
  nodesOfKind_eq_of_named fun n hn => (hg.nodes n hn).named

theorem OnlyOf.wellNamed (hg : g.WellNamed) {n : Node} (h : g.OnlyOf kind n) : n.WellNamed := by
  obtain ⟨before, after, hnodes, -⟩ := h
  exact hg.nodes n (by simp [hnodes])

theorem OnlyOf.unique {n m : Node} (hn : g.OnlyOf kind n) (hm : g.OnlyOf kind m) : n = m := by
  obtain ⟨before, after, hnodes, hof, -⟩ := hn
  obtain ⟨before', after', hnodes', -, hother⟩ := hm
  have hmem : n ∈ before' ++ m :: after' := hnodes' ▸ hnodes ▸ (by simp)
  rcases List.mem_append.mp hmem with h | h
  · exact absurd hof (hother n (List.mem_append_left _ h))
  · rcases List.mem_cons.mp h with h | h
    · exact h
    · exact absurd hof (hother n (List.mem_append_right _ h))

theorem terminal_eq_ok_iff (hg : g.WellNamed) {n : Node} :
    g.terminal name kind = .ok n ↔ g.OnlyOf kind n := by
  classical
  have hone : (g.nodes.filter fun n => decide (n.IsOf kind)) = [n] ↔ g.OnlyOf kind n := by
    simp only [List.filter_eq_cons_iff, OnlyOf, List.filter_eq_nil_iff, decide_eq_true_eq,
      List.mem_append]
    constructor
    · rintro ⟨before, after, hnodes, hbefore, hn, hafter⟩
      exact ⟨before, after, hnodes, hn, fun m hm => hm.elim (hbefore m) (hafter m)⟩
    · rintro ⟨before, after, hnodes, hn, hother⟩
      exact ⟨before, after, hnodes, fun m hm => hother m (.inl hm), hn,
        fun m hm => hother m (.inr hm)⟩
  rw [← hone, terminal, nodesOfKind_eq hg, Outcome.ok_bind]
  generalize g.nodes.filter (fun n => decide (n.IsOf kind)) = found
  rcases found with _ | ⟨m, _ | ⟨m', rest⟩⟩ <;> simp

/-- A graph compiles to the unfolding of the first source of its terminal, with the order of the
terminal and the periods of the unfolding. -/
theorem compile_eq_ok_iff (hg : g.WellNamed) {root : Condition} {periods : List Period}
    {order : OrderData} :
    g.compile name kind = .ok ((root, periods), order) ↔
      ∃ terminal source rest, g.OnlyOf kind terminal ∧ terminal.Orders order ∧
        g.sources terminal.id = source :: rest ∧ ¬ g.IsSupplier source ∧
        g.Unfolds source root ∧ periods = root.periods.foldl addPeriod [] := by
  simp only [compile, Outcome.bind_eq_ok, terminal_eq_ok_iff hg]
  constructor
  · rintro ⟨terminal, hterminal, order', horder, hok⟩
    have hwell := hterminal.wellNamed hg
    cases hs : g.sources terminal.id with
    | nil => simp [hs] at hok
    | cons source rest =>
      simp only [hs, Outcome.bind_eq_ok, compileNode_eq_ok_iff] at hok
      obtain ⟨⟨⟩, hcheck, result, hderived, hresult⟩ := hok
      cases hresult
      have hname : source.IsName := isName_of_mem_sources hg (hs.symm ▸ List.mem_cons_self)
      obtain ⟨hunfolds, hperiods⟩ := hderived.unfolds hg hname
      exact ⟨terminal, source, rest, hterminal, (Node.ofNode_eq_ok_iff hwell).mp horder, hs,
        ((checkCondition_eq_ok_iff hg hname).mp hcheck).2, hunfolds, hperiods⟩
  · rintro ⟨terminal, source, rest, hterminal, horder, hs, hnot, hunfolds, rfl⟩
    have hname : source.IsName := isName_of_mem_sources hg (hs.symm ▸ List.mem_cons_self)
    refine ⟨terminal, hterminal, order,
      (Node.ofNode_eq_ok_iff (hterminal.wellNamed hg)).mpr horder, ?_⟩
    simp only [hs, (checkCondition_eq_ok_iff hg hname).mpr ⟨hunfolds.exists_find?, hnot⟩,
      Outcome.ok_bind, compileNode_of_compiles (hunfolds.compiles hg (reserves_nodes _)),
      Outcome.pure_eq_ok]

/-! ## Cycles -/

/-- The node with an id has another one as one of its two operands. -/
def Operand (g : Graph) (id a : Value) : Prop :=
  ∃ n x y rest, g.find? id = some n ∧ (n.IsOf .compare ∨ n.IsOf .logicOp) ∧
    g.sources id = x :: y :: rest ∧ (a = x ∨ a = y)

/-- The operands of a node with an unfolding have smaller ones. -/
theorem Unfolds.operand (hg : g.WellNamed) {id a : Value} {c : Condition} (h : g.Unfolds id c)
    (ha : g.Operand id a) : ∃ x, g.Unfolds a x ∧ x.walk.length < c.walk.length := by
  obtain ⟨n, a', b', rest, hn, hk, hs, hab⟩ := ha
  cases h with
  | leaf hn' hk' hc =>
    rcases hk with hk | hk
    · obtain ⟨-, rfl⟩ := find?_isOf_unique hg hn' hk' hn hk
      exact absurd hc.isSupplier (by decide)
    · obtain ⟨-, rfl⟩ := find?_isOf_unique hg hn' hk' hn hk
      exact absurd hc.isSupplier (by decide)
  | compare hn' hk' hop hs' hx hy =>
    obtain ⟨rfl, rfl, rfl⟩ : _ ∧ _ ∧ _ := by simpa using hs.symm.trans hs'
    rcases hab with rfl | rfl
    · exact ⟨_, hx, (Condition.length_walk_compare_lt _ _ _).1⟩
    · exact ⟨_, hy, (Condition.length_walk_compare_lt _ _ _).2⟩
  | logicOp hn' hk' hop hs' hna hnb hx hy =>
    obtain ⟨rfl, rfl, rfl⟩ : _ ∧ _ ∧ _ := by simpa using hs.symm.trans hs'
    rcases hab with rfl | rfl
    · exact ⟨_, hx, (Condition.length_walk_logicOp_lt _ _ _).1⟩
    · exact ⟨_, hy, (Condition.length_walk_logicOp_lt _ _ _).2⟩

theorem Unfolds.reached (hg : g.WellNamed) {id a : Value} {c : Condition} (h : g.Unfolds id c)
    (ha : Relation.ReflTransGen g.Operand id a) :
    ∃ x, g.Unfolds a x ∧ x.walk.length ≤ c.walk.length := by
  induction ha with
  | refl => exact ⟨c, h, Nat.le_refl _⟩
  | tail _ hstep ih =>
    obtain ⟨x, hx, hle⟩ := ih
    obtain ⟨y, hy, hlt⟩ := hx.operand hg hstep
    exact ⟨y, hy, by omega⟩

theorem not_unfolds_of_cycle (hg : g.WellNamed) {id : Value}
    (hcycle : Relation.TransGen g.Operand id id) (c : Condition) : ¬ g.Unfolds id c := by
  -- Going round the cycle would lead to a smaller unfolding of the same node.
  intro h
  obtain ⟨a, hstep, hback⟩ := Relation.TransGen.head'_iff.mp hcycle
  obtain ⟨x, hx, hlt⟩ := h.operand hg hstep
  obtain ⟨y, hy, hle⟩ := hx.reached hg hback
  obtain rfl := h.unique hg hy
  omega

/-! ## Exact acceptance -/

/-- A well-named graph compiles to a condition and an order exactly when it has one terminal, the
controls of the terminal describe that order, and the first source of the terminal supplies no
number and unfolds to that condition. Compiling a node never fails when the node has an unfolding,
however often a node is shared, and a graph fails to compile when a cycle is reached from the
source of its terminal. -/
theorem compile_accepts_exactly_unfoldings (hg : g.WellNamed) (name : String) (kind : NodeKind) :
    (∀ root order, (∃ periods, g.compile name kind = .ok ((root, periods), order)) ↔
      ∃ terminal source rest, g.OnlyOf kind terminal ∧ terminal.Orders order ∧
        g.sources terminal.id = source :: rest ∧ ¬ g.IsSupplier source ∧ g.Unfolds source root) ∧
    (∀ id referrer c, g.Unfolds id c →
      ∃ periods, g.compileNode name id referrer g.nodes [] = .ok (c, periods)) ∧
    (∀ terminal source rest id, g.OnlyOf kind terminal → g.sources terminal.id = source :: rest →
      Relation.ReflTransGen g.Operand source id → Relation.TransGen g.Operand id id →
      ∃ e, g.compile name kind = .error e) := by
  refine ⟨fun root order => ?_, fun id referrer c h => ?_, ?_⟩
  · constructor
    · rintro ⟨periods, hok⟩
      obtain ⟨terminal, source, rest, hterminal, horder, hs, hnot, hunfolds, -⟩ :=
        (compile_eq_ok_iff hg).mp hok
      exact ⟨terminal, source, rest, hterminal, horder, hs, hnot, hunfolds⟩
    · rintro ⟨terminal, source, rest, hterminal, horder, hs, hnot, hunfolds⟩
      exact ⟨_, (compile_eq_ok_iff hg).mpr
        ⟨terminal, source, rest, hterminal, horder, hs, hnot, hunfolds, rfl⟩⟩
  · exact ⟨_, compileNode_of_compiles (h.compiles hg (reserves_nodes _))⟩
  · intro terminal source rest id hterminal hs hreached hcycle
    cases hok : g.compile name kind with
    | error e => exact ⟨e, rfl⟩
    | ok result =>
      obtain ⟨terminal', source', rest', hterminal', -, hs', -, hunfolds, -⟩ :=
        (compile_eq_ok_iff hg).mp hok
      obtain rfl : terminal = terminal' := hterminal.unique hterminal'
      obtain ⟨rfl, rfl⟩ : _ ∧ _ := by simpa using hs.symm.trans hs'
      obtain ⟨c, hc, -⟩ := hunfolds.reached hg hreached
      exact absurd hc (not_unfolds_of_cycle hg hcycle c)

def plainNode (id kind : String) : Node :=
  ⟨.text id, .text kind, .null, .null, .null, []⟩

def plainConnection (source target : String) : Connection :=
  ⟨.null, .text source, .text target, .null, .null, []⟩

/-- A connective that joins one comparison with itself, beside a comparison that is its own
operand. -/
def sharedGraph : Graph where
  nodes := [plainNode "order" "buy", plainNode "both" "logicOp", plainNode "above" "compare",
    plainNode "price" "currentPrice", plainNode "mean" "sma", plainNode "loop" "compare"]
  connections := [plainConnection "both" "order", plainConnection "above" "both",
    plainConnection "above" "both", plainConnection "price" "above",
    plainConnection "mean" "above", plainConnection "loop" "loop", plainConnection "loop" "loop"]
  viewport := .null
  extra := []

def sharedCondition : Condition :=
  let above := .compare (.text CompareOp.greater.sign) .currentPrice (.sma (.int 20))
  .logicOp (.text LogicOp.and.word) above above

theorem compile_sharedGraph :
    sharedGraph.compile "buyGraph" .buy = .ok ((sharedCondition, []), {}) := by
  with_unfolding_all rfl

theorem plainNode_wellNamed (id kind : String) : (plainNode id kind).WellNamed :=
  ⟨.inr ⟨id, rfl⟩, .inr ⟨kind, rfl⟩, .inl rfl, .inl rfl⟩

theorem sharedGraph_wellNamed : sharedGraph.WellNamed := by
  constructor
  · intro n hn
    simp only [sharedGraph, List.mem_cons, List.not_mem_nil, or_false] at hn
    rcases hn with rfl | rfl | rfl | rfl | rfl | rfl <;> exact plainNode_wellNamed _ _
  · simp [sharedGraph, plainConnection, Value.IsName]
  · simp [sharedGraph, plainConnection, Value.IsName]

theorem sharedGraph_unfolds : sharedGraph.Unfolds (.text "both") sharedCondition := by
  have hprice : sharedGraph.Unfolds (.text "price") .currentPrice :=
    .leaf rfl (.inl rfl) .currentPrice
  have hmean : sharedGraph.Unfolds (.text "mean") (.sma (.int 20)) :=
    .leaf rfl (.inl rfl) (.sma rfl (by decide) (by decide))
  have habove : sharedGraph.Unfolds (.text "above")
      (.compare (.text CompareOp.greater.sign) .currentPrice (.sma (.int 20))) :=
    .compare rfl (.inl rfl) rfl rfl hprice hmean
  have hnot : ¬ sharedGraph.IsSupplier (.text "above") :=
    not_isSupplier_of_isOf sharedGraph_wellNamed rfl (.inl rfl : Node.IsOf _ .compare) rfl
  exact .logicOp rfl (.inl rfl) rfl rfl hnot hnot habove habove

theorem sharedGraph_onlyOf : sharedGraph.OnlyOf .buy (plainNode "order" "buy") := by
  refine ⟨[], _, rfl, .inl rfl, fun m hm => ?_⟩
  simp only [List.nil_append, List.mem_cons, List.not_mem_nil, or_false] at hm
  rcases hm with rfl | rfl | rfl | rfl | rfl <;> simp [plainNode, Node.IsOf, NodeKind.name]

/-- The comparison that is shared compiles twice, and the cycle beside it is never met. -/
theorem sharedGraph_compiles : sharedGraph.WellNamed ∧ ∃ periods,
    sharedGraph.compile "buyGraph" .buy = .ok ((sharedCondition, periods), {}) := by
  have hnot : ¬ sharedGraph.IsSupplier (.text "both") :=
    not_isSupplier_of_isOf sharedGraph_wellNamed rfl (.inl rfl : Node.IsOf _ .logicOp) rfl
  refine ⟨sharedGraph_wellNamed,
    ((compile_accepts_exactly_unfoldings sharedGraph_wellNamed "buyGraph" .buy).1 _ _).mpr
      ⟨_, _, _, sharedGraph_onlyOf, ?_, rfl, hnot, sharedGraph_unfolds⟩⟩
  exact ⟨"market", 0.0, 0.0, by decide, by decide, ⟨by decide, rfl⟩, ⟨by decide, rfl⟩, rfl⟩

end Graph

end TradingRules
