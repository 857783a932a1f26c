import TradingRules.Proofs.Graph.Derivation
import TradingRules.Proofs.Graph.Reading

/-!
# Finite unfoldings of graphs

A node of a graph may unfold to a finite condition: a supplier to its leaf, a comparison or a
connective to the unfoldings of its first two sources. Connections may form cycles, so that a node
need not have an unfolding, but it never has two. The compiler accepts a graph exactly when the
source of its only terminal unfolds, and what it returns is that unfolding: the nodes that it has
visited on the way never keep it from one that exists.
-/

namespace TradingRules

open Market (Period)

namespace Condition

/-- The periods of the highest prices in a condition, in the order of the walk. -/
def periods (c : Condition) : List Period :=
  c.walk.filterMap fun node => match node with
    | highestPrice unit (.int length) => some ⟨unit, length⟩
    | _ => none

@[simp] theorem periods_compare (operator : Value) (a b : Condition) :
    (compare operator a b).periods = a.periods ++ b.periods := by
  simp [periods, walk]

@[simp] theorem periods_logicOp (operator : Value) (a b : Condition) :
    (logicOp operator a b).periods = a.periods ++ b.periods := by
  simp [periods, walk]

theorem length_walk_compare_lt (operator : Value) (a b : Condition) :
    a.walk.length < (compare operator a b).walk.length ∧
      b.walk.length < (compare operator a b).walk.length := by
  simp only [walk, List.length_cons, List.length_append]
  omega

theorem length_walk_logicOp_lt (operator : Value) (a b : Condition) :
    a.walk.length < (logicOp operator a b).walk.length ∧
      b.walk.length < (logicOp operator a b).walk.length := by
  simp only [walk, List.length_cons, List.length_append]
  omega

end Condition

/-- The leaf of a node that supplies a number, when its controls are valid. -/
inductive Node.Supplies (n : Node) : NodeKind → Condition → Prop
  | const {x : Float} (hx : (n.setting "value" (.int 0)).ReadsNumber x) :
      Supplies n .const (.const (.real x))
  | currentPrice : Supplies n .currentPrice .currentPrice
  | highestPrice {k : Int} {unit : String}
      (hk : (n.setting "periodLength" (.int 1)).ReadsWhole k) (hpos : 1 ≤ k)
      (hunit : unit = Text.lower (Text.strip (n.setting "periodUnit" (.text "day")).shown))
      (hknown : unit ∈ periodUnits) :
      Supplies n .highestPrice (.highestPrice (.text unit) (.int k))
  | rsi : Supplies n .rsi .rsi
  | roi : Supplies n .roi (.roi none)
  | sma {k : Int} (hk : (n.setting "period" (.int 20)).ReadsWhole k) (hpos : 1 ≤ k)
      (hmax : k ≤ maxAveragePeriod) :
      Supplies n .sma (.sma (.int k))

namespace Graph

variable (g : Graph)

def IsSupplier (id : Value) : Prop :=
  ∃ n k, g.find? id = some n ∧ n.IsOf k ∧ k.isSupplier = true

/-- The finite unfolding of the node with an id. -/
inductive Unfolds : Value → Condition → Prop
  | leaf {id : Value} {n : Node} {k : NodeKind} {c : Condition} (hn : g.find? id = some n)
      (hk : n.IsOf k) (hc : n.Supplies k c) : Unfolds id c
  | compare {id a b : Value} {rest : List Value} {n : Node} {op : CompareOp} {x y : Condition}
      (hn : g.find? id = some n) (hk : n.IsOf .compare)
      (hop : CompareOp.read? (n.setting "operator" (.text ">")).shown = some op)
      (hs : g.sources id = a :: b :: rest) (hx : Unfolds a x) (hy : Unfolds b y) :
      Unfolds id (.compare (.text op.sign) x y)
  | logicOp {id a b : Value} {rest : List Value} {n : Node} {op : LogicOp} {x y : Condition}
      (hn : g.find? id = some n) (hk : n.IsOf .logicOp)
      (hop : LogicOp.read? (n.setting "operator" (.text "and")).shown = some op)
      (hs : g.sources id = a :: b :: rest) (ha : ¬ g.IsSupplier a) (hb : ¬ g.IsSupplier b)
      (hx : Unfolds a x) (hy : Unfolds b y) :
      Unfolds id (.logicOp (.text op.word) x y)

def OnlyOf (kind : NodeKind) (n : Node) : Prop :=
  ∃ before after, g.nodes = before ++ n :: after ∧ n.IsOf kind ∧
    ∀ m ∈ before ++ after, ¬ m.IsOf kind

end Graph

/-! ## The parts of a well-named graph -/

namespace Node

variable {n : Node}

theorem Supplies.isSupplier {k : NodeKind} {c : Condition} (h : n.Supplies k c) :
    k.isSupplier = true := by
  cases h <;> rfl

theorem Supplies.unique {k : NodeKind} {c c' : Condition} (h : n.Supplies k c)
    (h' : n.Supplies k c') : c = c' := by
  cases h with
  | const hx => cases h' with | const hx' => rw [hx.unique hx']
  | highestPrice hk hpos hunit hknown =>
    cases h' with
    | highestPrice hk' hpos' hunit' hknown' => rw [hk.unique hk', hunit, hunit']
  | sma hk hpos hmax => cases h' with | sma hk' hpos' hmax' => rw [hk.unique hk']
  | currentPrice | rsi | roi => cases h'; rfl

theorem averageCondition_eq_ok_iff_supplies (h : n.WellNamed) {graph : String} {c : Condition} :
    n.averageCondition graph = .ok c ↔ n.Supplies .sma c := by
  simp only [averageCondition_eq_ok_iff, wholeControl_eq_ok_iff h]
  constructor
  · rintro ⟨k, hk, hpos, hmax, rfl⟩
    exact .sma hk hpos hmax
  · intro hc
    cases hc with
    | sma hk hpos hmax => exact ⟨_, hk, hpos, hmax, rfl⟩

theorem highestPeriod_eq_ok_iff_supplies (h : n.WellNamed) {graph : String} {p : Period} :
    n.highestPeriod graph = .ok p ↔
      n.Supplies .highestPrice (.highestPrice p.unit (.int p.length)) := by
  simp only [highestPeriod_eq_ok_iff, wholeControl_eq_ok_iff h, control_eq h.controls]
  constructor
  · rintro ⟨k, raw, hk, hpos, hraw, hknown, rfl⟩
    obtain rfl := Except.ok.inj hraw
    exact .highestPrice hk hpos rfl hknown
  · obtain ⟨unit, length⟩ := p
    intro hc
    cases hc with
    | highestPrice hk hpos hunit hknown =>
      subst hunit
      exact ⟨_, _, hk, hpos, rfl, hknown, rfl⟩

/-- A supplier yields its leaf exactly when its controls are valid, and adds its period. -/
theorem supplier_eq_ok_iff (h : n.WellNamed) {graph : String} {k : NodeKind} {c : Condition}
    {periods rest : List Period} :
    n.supplier graph periods k = .ok (some (c, rest)) ↔
      n.Supplies k c ∧ rest = c.periods.foldl addPeriod periods := by
  cases k with
  | compare | logicOp | buy | sell =>
    simp only [supplier, Outcome.pure_eq_ok, Except.ok.injEq, reduceCtorEq, false_iff, not_and]
    exact fun hc => absurd hc.isSupplier (by decide)
  | currentPrice | rsi | roi =>
    simp only [supplier, Outcome.pure_eq_ok, Except.ok.injEq, Option.some.injEq, Prod.mk.injEq]
    constructor
    · rintro ⟨rfl, rfl⟩
      exact ⟨by constructor, rfl⟩
    · rintro ⟨hc, rfl⟩
      cases hc
      exact ⟨rfl, rfl⟩
  | const =>
    simp only [supplier, Outcome.bind_eq_ok, decimalControl_eq_ok_iff h, Outcome.pure_eq_ok,
      Except.ok.injEq, Option.some.injEq, Prod.mk.injEq]
    constructor
    · rintro ⟨x, hx, rfl, rfl⟩
      exact ⟨.const hx, rfl⟩
    · rintro ⟨⟨hx⟩, rfl⟩
      exact ⟨_, hx, rfl, rfl⟩
  | sma =>
    simp only [supplier, Outcome.bind_eq_ok, averageCondition_eq_ok_iff_supplies h,
      Outcome.pure_eq_ok, Except.ok.injEq, Option.some.injEq, Prod.mk.injEq]
    constructor
    · rintro ⟨leaf, hleaf, rfl, rfl⟩
      refine ⟨hleaf, ?_⟩
      cases hleaf
      rfl
    · rintro ⟨hc, rfl⟩
      refine ⟨c, hc, rfl, ?_⟩
      cases hc
      rfl
  | highestPrice =>
    simp only [supplier, Outcome.bind_eq_ok, highestPeriod_eq_ok_iff_supplies h, Outcome.pure_eq_ok,
      Except.ok.injEq, Option.some.injEq, Prod.mk.injEq]
    constructor
    · rintro ⟨p, hp, rfl, rfl⟩
      exact ⟨hp, rfl⟩
    · rintro ⟨hc, rfl⟩
      cases hc with
      | @highestPrice k unit hk hpos hunit hknown =>
        exact ⟨⟨.text unit, k⟩, .highestPrice hk hpos hunit hknown, rfl, rfl⟩

theorem operatorOf_eq_ok_iff (h : n.WellNamed) {graph : String} {kind : NodeKind} {id v : Value}
    {default : String} {read? : String → Option String} :
    n.operatorOf graph kind id default read? = .ok v ↔
      ∃ sign, read? (n.setting "operator" (.text default)).shown = some sign ∧ v = .text sign := by
  simp only [operatorOf, control_eq h.controls, Outcome.ok_bind]
  cases read? (n.setting "operator" (.text default)).shown with
  | none => simp
  | some sign => simp [eq_comm]

end Node

namespace Graph

variable {g : Graph} {name : String}

theorem find?_eq_some (hg : g.WellNamed) {id : Value} {n : Node} (h : g.find? id = some n) :
    n.WellNamed ∧ n.id = id := by
  obtain ⟨hmem, hsame⟩ := find?_some h
  exact ⟨hg.nodes n hmem, (Value.isSame_iff_of_isName_left (hg.nodes n hmem).id).mp hsame⟩

theorem find?_isOf_unique (hg : g.WellNamed) {id : Value} {n n' : Node} {k k' : NodeKind}
    (hn : g.find? id = some n) (hk : n.IsOf k) (hn' : g.find? id = some n') (hk' : n'.IsOf k') :
    n = n' ∧ k = k' := by
  obtain rfl : n = n' := Option.some.inj (hn.symm.trans hn')
  exact ⟨rfl, hk.unique (find?_eq_some hg hn).1 hk'⟩

theorem not_isSupplier_of_isOf (hg : g.WellNamed) {id : Value} {n : Node} {k : NodeKind}
    (hn : g.find? id = some n) (hk : n.IsOf k) (hnot : k.isSupplier = false) :
    ¬ g.IsSupplier id := by
  rintro ⟨m, k', hm, hk', hsup⟩
  obtain ⟨-, rfl⟩ := find?_isOf_unique hg hm hk' hn hk
  simp [hnot] at hsup

theorem isName_of_mem_sources (hg : g.WellNamed) {id a : Value} (h : a ∈ g.sources id) :
    a.IsName := by
  obtain ⟨c, hc, rfl⟩ := List.mem_map.mp h
  exact hg.sources c ((List.mem_filter.mp hc).1)

theorem isName_of_sources_eq (hg : g.WellNamed) {id a b : Value} {rest : List Value}
    (hs : g.sources id = a :: b :: rest) : a.IsName ∧ b.IsName :=
  ⟨isName_of_mem_sources hg (hs.symm ▸ List.mem_cons_self : a ∈ g.sources id),
    isName_of_mem_sources hg (hs.symm ▸ by simp : b ∈ g.sources id)⟩

theorem resolve_eq_ok_iff {id referrer : Value} (hid : id.IsName) {n : Node} :
    g.resolve name id referrer = .ok n ↔ g.find? id = some n := by
  simp [resolve_eq_ok, Value.isKey_of_isName hid]

theorem checkCondition_eq_ok_iff (hg : g.WellNamed) {id referrer : Value} (hid : id.IsName) :
    g.checkCondition name id referrer = .ok () ↔
      (∃ n, g.find? id = some n) ∧ ¬ g.IsSupplier id := by
  simp only [checkCondition, Outcome.bind_eq_ok, resolve_eq_ok_iff hid]
  constructor
  · rintro ⟨n, hn, v, hv, hok⟩
    refine ⟨⟨n, hn⟩, ?_⟩
    rintro ⟨m, k, hm, hk, hsup⟩
    obtain rfl : m = n := Option.some.inj (hm.symm.trans hn)
    obtain ⟨w, hw, hof⟩ := (Node.resolvedKind_iff (find?_eq_some hg hn).1 k).mpr hk
    obtain rfl : w = v := Except.ok.inj (hw.symm.trans hv)
    simp [hof, hsup] at hok
  · rintro ⟨⟨n, hn⟩, hnot⟩
    obtain ⟨v, hv, hof⟩ := Node.exists_resolvedKind (find?_eq_some hg hn).1
    refine ⟨n, hn, v, hv, ?_⟩
    cases hkind : NodeKind.ofValue? v with
    | none => rfl
    | some k =>
      have hk : n.IsOf k := (hof k).mp (NodeKind.ofValue?_eq_some_iff.mp hkind)
      have hsup : k.isSupplier = false := by
        simpa using fun hsup => hnot ⟨n, k, hn, hk, hsup⟩
      simp [hsup]

/-! ## Uniqueness -/

theorem Unfolds.unique (hg : g.WellNamed) {id : Value} {c c' : Condition} (h : g.Unfolds id c)
    (h' : g.Unfolds id c') : c = c' := by
  induction h generalizing c' with
  | @leaf id n k c hn hk hc =>
    cases h' with
    | leaf hn' hk' hc' =>
      obtain ⟨rfl, rfl⟩ := find?_isOf_unique hg hn hk hn' hk'
      exact hc.unique hc'
    | compare hn' hk' | logicOp hn' hk' =>
      obtain ⟨-, rfl⟩ := find?_isOf_unique hg hn hk hn' hk'
      exact absurd hc.isSupplier (by decide)
  | @compare id a b rest n op x y hn hk hop hs hx hy ihx ihy =>
    cases h' with
    | leaf hn' hk' hc' =>
      obtain ⟨-, rfl⟩ := find?_isOf_unique hg hn' hk' hn hk
      exact absurd hc'.isSupplier (by decide)
    | compare hn' hk' hop' hs' hx' hy' =>
      obtain ⟨rfl, -⟩ := find?_isOf_unique hg hn hk hn' hk'
      obtain rfl := Option.some.inj (hop.symm.trans hop')
      obtain ⟨rfl, rfl, rfl⟩ : _ ∧ _ ∧ _ := by simpa using hs.symm.trans hs'
      rw [ihx hx', ihy hy']
    | logicOp hn' hk' =>
      exact absurd (find?_isOf_unique hg hn hk hn' hk').2 (by decide)
  | @logicOp id a b rest n op x y hn hk hop hs ha hb hx hy ihx ihy =>
    cases h' with
    | leaf hn' hk' hc' =>
      obtain ⟨-, rfl⟩ := find?_isOf_unique hg hn' hk' hn hk
      exact absurd hc'.isSupplier (by decide)
    | compare hn' hk' =>
      exact absurd (find?_isOf_unique hg hn hk hn' hk').2 (by decide)
    | logicOp hn' hk' hop' hs' ha' hb' hx' hy' =>
      obtain ⟨rfl, -⟩ := find?_isOf_unique hg hn hk hn' hk'
      obtain rfl := Option.some.inj (hop.symm.trans hop')
      obtain ⟨rfl, rfl, rfl⟩ : _ ∧ _ ∧ _ := by simpa using hs.symm.trans hs'
      rw [ihx hx', ihy hy']

/-! ## Derivations and unfoldings -/

/-- What the compiler reads of a node with two operands. -/
theorem exists_sources_of_operands (hg : g.WellNamed) {id referrer v a b : Value} {n : Node}
    {kind : NodeKind} (hid : id.IsName) (hnode : g.resolve name id referrer = .ok n)
    (hkind : n.resolvedKind = .ok v) (hof : NodeKind.ofValue? v = some kind)
    (hoperands : g.operands name n = .ok (a, b)) :
    g.find? id = some n ∧ n.IsOf kind ∧ (a.IsName ∧ b.IsName) ∧
      ∃ rest, g.sources id = a :: b :: rest := by
  have hn := (resolve_eq_ok_iff hid).mp hnode
  obtain ⟨hwell, rfl⟩ := find?_eq_some hg hn
  obtain ⟨rest, hs⟩ := operands_eq_ok_iff.mp hoperands
  exact ⟨hn, (Node.resolvedKind_iff hwell kind).mp ⟨v, hkind, hof⟩, isName_of_sources_eq hg hs,
    rest, hs⟩

/-- What is derived of a node is its unfolding, and the periods that it adds. -/
theorem Compiles.unfolds (hg : g.WellNamed) {id referrer : Value} {unvisited : List Node}
    {periods : List Period} {result : WithPeriods}
    (h : g.Compiles name id referrer unvisited periods result) (hid : id.IsName) :
    g.Unfolds id result.1 ∧ result.2 = result.1.periods.foldl addPeriod periods := by
  induction h with
  | @leaf id referrer unvisited periods n v kind leaf hnode hmet hkind hof hleaf =>
    have hn := (resolve_eq_ok_iff hid).mp hnode
    obtain ⟨hwell, -⟩ := find?_eq_some hg hn
    obtain ⟨hc, hrest⟩ := (Node.supplier_eq_ok_iff hwell).mp hleaf
    exact ⟨.leaf hn ((Node.resolvedKind_iff hwell kind).mp ⟨v, hkind, hof⟩) hc, hrest⟩
  | @compare id referrer unvisited periods between rest n v operator a b x y hnode hmet hkind hof
      hoperator hoperands hx hy ihx ihy =>
    obtain ⟨hn, hk, ⟨hida, hidb⟩, more, hs⟩ :=
      exists_sources_of_operands hg hid hnode hkind hof hoperands
    obtain ⟨sign, hsign, rfl⟩ := (Node.operatorOf_eq_ok_iff (find?_eq_some hg hn).1).mp hoperator
    obtain ⟨op, hop, rfl⟩ := Option.map_eq_some_iff.mp hsign
    obtain ⟨hux, hbetween⟩ := ihx hida
    obtain ⟨huy, hrest⟩ := ihy hidb
    refine ⟨.compare hn hk hop hs hux huy, ?_⟩
    simp only at hbetween hrest ⊢
    rw [hrest, hbetween, Condition.periods_compare, List.foldl_append]
  | @logicOp id referrer unvisited periods between rest n v operator a b x y hnode hmet hkind hof
      hoperator hoperands hcheckA hx hcheckB hy ihx ihy =>
    obtain ⟨hn, hk, ⟨hida, hidb⟩, more, hs⟩ :=
      exists_sources_of_operands hg hid hnode hkind hof hoperands
    obtain ⟨sign, hsign, rfl⟩ := (Node.operatorOf_eq_ok_iff (find?_eq_some hg hn).1).mp hoperator
    obtain ⟨op, hop, rfl⟩ := Option.map_eq_some_iff.mp hsign
    obtain ⟨hux, hbetween⟩ := ihx hida
    obtain ⟨huy, hrest⟩ := ihy hidb
    refine ⟨.logicOp hn hk hop hs ((checkCondition_eq_ok_iff hg hida).mp hcheckA).2
      ((checkCondition_eq_ok_iff hg hidb).mp hcheckB).2 hux huy, ?_⟩
    simp only at hbetween hrest ⊢
    rw [hrest, hbetween, Condition.periods_logicOp, List.foldl_append]

/-- Every node with an unfolding of at most some size is still unvisited. -/
def Reserves (g : Graph) (unvisited : List Node) (size : Nat) : Prop :=
  ∀ id c, g.Unfolds id c → c.walk.length ≤ size →
    unvisited.any (fun m => m.id.isSame id) = true

theorem Unfolds.exists_find? {id : Value} {c : Condition} (h : g.Unfolds id c) :
    ∃ n, g.find? id = some n := by
  cases h with
  | leaf hn | compare hn | logicOp hn => exact ⟨_, hn⟩

theorem reserves_nodes (size : Nat) : g.Reserves g.nodes size := by
  intro id c h _
  obtain ⟨n, hn⟩ := h.exists_find?
  obtain ⟨hmem, hsame⟩ := find?_some hn
  exact List.any_eq_true.mpr ⟨n, hmem, hsame⟩

/-- A visit to a node leaves all nodes with smaller unfoldings unvisited: the node itself has no
other unfolding, so that it is none of them. -/
theorem Reserves.withoutId (hg : g.WellNamed) {unvisited : List Node} {id : Value}
    {c : Condition} (hfree : g.Reserves unvisited c.walk.length) (h : g.Unfolds id c) {size : Nat}
    (hsize : size < c.walk.length) : g.Reserves (withoutId unvisited id) size := by
  intro id' c' h' hle
  obtain ⟨m, hm, hsame⟩ := List.any_eq_true.mp (hfree id' c' h' (by omega))
  obtain ⟨n, hn⟩ := h.exists_find?
  obtain ⟨n', hn'⟩ := h'.exists_find?
  have hid : id.IsName := (find?_eq_some hg hn).2 ▸ (find?_eq_some hg hn).1.id
  have hid' : id'.IsName := (find?_eq_some hg hn').2 ▸ (find?_eq_some hg hn').1.id
  have hother : m.id.isSame id = false := by
    rw [Bool.eq_false_iff]
    intro hagain
    obtain rfl : id = id' :=
      ((Value.isSame_iff_of_isName hid).mp hagain).symm.trans
        ((Value.isSame_iff_of_isName hid').mp hsame)
    obtain rfl := h.unique hg h'
    omega
  exact List.any_eq_true.mpr ⟨m, List.mem_filter.mpr ⟨hm, by simp [hother]⟩, hsame⟩

/-- An unfolding is derived as long as all nodes that can be met below its node are unvisited. -/
theorem Unfolds.compiles (hg : g.WellNamed) {id : Value} {c : Condition} (h : g.Unfolds id c)
    {referrer : Value} {unvisited : List Node} {periods : List Period}
    (hfree : g.Reserves unvisited c.walk.length) :
    g.Compiles name id referrer unvisited periods (c, c.periods.foldl addPeriod periods) := by
  -- Both operands are derived after the same visit, so a node that they share is met twice.
  induction h generalizing referrer unvisited periods with
  | @leaf id n k c hn hk hc =>
    obtain ⟨hwell, rfl⟩ := find?_eq_some hg hn
    obtain ⟨v, hv, hof⟩ := (Node.resolvedKind_iff hwell k).mpr hk
    exact .leaf ((resolve_eq_ok_iff hwell.id).mpr hn)
      (hfree _ c (.leaf hn hk hc) (Nat.le_refl _)) hv hof
      ((Node.supplier_eq_ok_iff hwell).mpr ⟨hc, rfl⟩)
  | @compare id a b rest n op x y hn hk hop hs hx hy ihx ihy =>
    have hself : g.Unfolds id (.compare (.text op.sign) x y) := .compare hn hk hop hs hx hy
    obtain ⟨hwell, rfl⟩ := find?_eq_some hg hn
    obtain ⟨v, hv, hof⟩ := (Node.resolvedKind_iff hwell _).mpr hk
    rw [Condition.periods_compare, List.foldl_append]
    refine .compare ((resolve_eq_ok_iff hwell.id).mpr hn) (hfree _ _ hself (Nat.le_refl _)) hv hof
      ((Node.operatorOf_eq_ok_iff hwell).mpr
        ⟨op.sign, Option.map_eq_some_iff.mpr ⟨op, hop, rfl⟩, rfl⟩)
      (operands_eq_ok_iff.mpr ⟨rest, hs⟩) (ihx ?_) (ihy ?_)
    · exact hfree.withoutId hg hself (Condition.length_walk_compare_lt _ _ _).1
    · exact hfree.withoutId hg hself (Condition.length_walk_compare_lt _ _ _).2
  | @logicOp id a b rest n op x y hn hk hop hs ha hb hx hy ihx ihy =>
    have hself : g.Unfolds id (.logicOp (.text op.word) x y) :=
      .logicOp hn hk hop hs ha hb hx hy
    obtain ⟨hwell, rfl⟩ := find?_eq_some hg hn
    obtain ⟨v, hv, hof⟩ := (Node.resolvedKind_iff hwell _).mpr hk
    obtain ⟨hida, hidb⟩ := isName_of_sources_eq hg hs
    rw [Condition.periods_logicOp, List.foldl_append]
    refine .logicOp ((resolve_eq_ok_iff hwell.id).mpr hn) (hfree _ _ hself (Nat.le_refl _)) hv hof
      ((Node.operatorOf_eq_ok_iff hwell).mpr
        ⟨op.word, Option.map_eq_some_iff.mpr ⟨op, hop, rfl⟩, rfl⟩)
      (operands_eq_ok_iff.mpr ⟨rest, hs⟩)
      ((checkCondition_eq_ok_iff hg hida).mpr ⟨hx.exists_find?, ha⟩) (ihx ?_)
      ((checkCondition_eq_ok_iff hg hidb).mpr ⟨hy.exists_find?, hb⟩) (ihy ?_)
    · exact hfree.withoutId hg hself (Condition.length_walk_logicOp_lt _ _ _).1
    · exact hfree.withoutId hg hself (Condition.length_walk_logicOp_lt _ _ _).2

end Graph

end TradingRules
