import TradingRules.Proofs.Graph.Derivation

/-!
# Sorts of conditions

A condition yields a number or a truth value. The rules below say which trees have a sort: constants
are finite, periods are within their bounds, operators are among the known ones, and connectives
join truth values only. Every tree that the compiler returns has a sort, and the two roots of a
compiled logic yield truth values.
-/

namespace TradingRules

open Market (Period)

inductive ValueSort where
  | number | truth
  deriving DecidableEq, Repr

/-- Numbers are doubles; truth values are themselves. -/
inductive Value.HasSort : Value → ValueSort → Prop
  | number (x : Float) : HasSort (.real x) .number
  | truth (b : Bool) : HasSort (.bool b) .truth

/-- The sort of a condition as the compiler builds it. -/
inductive Condition.HasSort : Condition → ValueSort → Prop
  | const {x : Float} (hx : x.isFinite = true) : HasSort (.const (.real x)) .number
  | currentPrice : HasSort .currentPrice .number
  | highestPrice {unit : String} {length : Int} (hunit : unit ∈ periodUnits) (hpos : 1 ≤ length) :
      HasSort (.highestPrice (.text unit) (.int length)) .number
  | rsi : HasSort .rsi .number
  | roi : HasSort (.roi none) .number
  | sma {period : Int} (hpos : 1 ≤ period) (hmax : period ≤ maxAveragePeriod) :
      HasSort (.sma (.int period)) .number
  | compare (op : CompareOp) {a b : Condition} {s t : ValueSort} (ha : HasSort a s)
      (hb : HasSort b t) : HasSort (.compare (.text op.sign) a b) .truth
  | logicOp (op : LogicOp) {a b : Condition} (ha : HasSort a .truth) (hb : HasSort b .truth) :
      HasSort (.logicOp (.text op.word) a b) .truth

namespace Node

variable {n : Node} {graph : Option String}

theorem isFinite_of_guarded {step : Outcome Float} {d : Defect} {x : Float}
    (h : (step >>= fun y => if y.isFinite then .ok y else Fault.defect graph d) = .ok x) :
    x.isFinite = true := by
  obtain ⟨y, -, h⟩ := Outcome.bind_eq_ok.mp h
  obtain ⟨hfinite, rfl⟩ := Fault.guarded_eq_ok_iff.mp h
  exact hfinite

theorem isFinite_of_decimalControl {name : String} {default : Value} {x : Float}
    (h : n.decimalControl name default graph = .ok x) : x.isFinite = true := by
  obtain ⟨raw, -, h⟩ := Outcome.bind_eq_ok.mp h
  simp only [] at h
  split at h
  · exact isFinite_of_guarded h
  · exact isFinite_of_guarded h
  · exact isFinite_of_guarded h
  · exact isFinite_of_guarded h
  · exact isFinite_of_guarded h
  · split at h <;> exact isFinite_of_guarded h

theorem hasSort_of_supplier {graph : String} {periods : List Period} {kind : NodeKind}
    {leaf : WithPeriods} (h : n.supplier graph periods kind = .ok (some leaf)) :
    leaf.1.HasSort .number ∧ kind.isSupplier = true := by
  cases kind with
  | compare | logicOp | buy | sell => simp [supplier] at h
  | currentPrice | rsi | roi =>
    cases h
    exact ⟨by constructor, rfl⟩
  | const =>
    obtain ⟨x, hx, h⟩ := Outcome.bind_eq_ok.mp h
    cases h
    exact ⟨.const (isFinite_of_decimalControl hx), rfl⟩
  | highestPrice =>
    obtain ⟨p, hp, h⟩ := Outcome.bind_eq_ok.mp h
    cases h
    obtain ⟨k, raw, -, hpos, -, hknown, rfl⟩ := highestPeriod_eq_ok_iff.mp hp
    exact ⟨.highestPrice hknown hpos, rfl⟩
  | sma =>
    obtain ⟨c, hc, h⟩ := Outcome.bind_eq_ok.mp h
    cases h
    obtain ⟨k, -, hpos, hmax, rfl⟩ := averageCondition_eq_ok_iff.mp hc
    exact ⟨.sma hpos hmax, rfl⟩

theorem operatorOf_eq_ok {graph : String} {kind : NodeKind} {id v : Value} {default : String}
    {read? : String → Option String} (h : n.operatorOf graph kind id default read? = .ok v) :
    ∃ s sign, read? s = some sign ∧ v = .text sign := by
  obtain ⟨raw, -, h⟩ := Outcome.bind_eq_ok.mp h
  split at h
  · rename_i sign hsign
    exact ⟨_, sign, hsign, (Except.ok.inj h).symm⟩
  · obtain ⟨raw', -, h⟩ := Outcome.bind_eq_ok.mp h
    simp at h

end Node

namespace Graph

variable {g : Graph} {name : String}

theorem resolve_of_resolve {id referrer : Value} {n : Node}
    (h : g.resolve name id referrer = .ok n) (r : Value) : g.resolve name id r = .ok n := by
  unfold resolve at h ⊢
  cases hkey : id.isKey <;> cases hfound : g.find? id <;> simp_all

/-- What is refused as a condition are the suppliers, so that a derivation of a node that is not
refused yields a truth value. -/
theorem Compiles.hasSort {id referrer : Value} {unvisited : List Node} {periods : List Period}
    {result : WithPeriods} (h : g.Compiles name id referrer unvisited periods result) :
    ∃ s, result.1.HasSort s ∧ ∀ r, g.checkCondition name id r = .ok () → s = .truth := by
  induction h with
  | @leaf id referrer unvisited periods n v kind leaf hnode hmet hkind hof hleaf =>
    obtain ⟨hsort, hsup⟩ := Node.hasSort_of_supplier hleaf
    refine ⟨.number, hsort, fun r hcheck => ?_⟩
    simp [checkCondition, resolve_of_resolve hnode, hkind, hof, hsup] at hcheck
  | compare hnode hmet hkind hof hoperator hoperands hx hy ihx ihy =>
    obtain ⟨s, sign, hsign, rfl⟩ := Node.operatorOf_eq_ok hoperator
    obtain ⟨op, -, rfl⟩ := Option.map_eq_some_iff.mp hsign
    obtain ⟨_, hsx, -⟩ := ihx
    obtain ⟨_, hsy, -⟩ := ihy
    exact ⟨.truth, .compare op hsx hsy, fun _ _ => rfl⟩
  | logicOp hnode hmet hkind hof hoperator hoperands hcheckA hx hcheckB hy ihx ihy =>
    obtain ⟨s, sign, hsign, rfl⟩ := Node.operatorOf_eq_ok hoperator
    obtain ⟨op, -, rfl⟩ := Option.map_eq_some_iff.mp hsign
    obtain ⟨_, hsx, hx⟩ := ihx
    obtain ⟨_, hsy, hy⟩ := ihy
    obtain rfl := hx _ hcheckA
    obtain rfl := hy _ hcheckB
    exact ⟨.truth, .logicOp op hsx hsy, fun _ _ => rfl⟩

theorem exists_compiles_of_compile {kind : NodeKind} {result : WithPeriods} {order : OrderData}
    (h : g.compile name kind = .ok (result, order)) :
    ∃ source terminal, g.checkCondition name source terminal = .ok () ∧
      g.Compiles name source terminal g.nodes [] result := by
  obtain ⟨n, -, h⟩ := Outcome.bind_eq_ok.mp h
  obtain ⟨order', -, h⟩ := Outcome.bind_eq_ok.mp h
  split at h
  · simp at h
  · obtain ⟨⟨⟩, hcheck, h⟩ := Outcome.bind_eq_ok.mp h
    obtain ⟨result', hresult, h⟩ := Outcome.bind_eq_ok.mp h
    cases h
    exact ⟨_, _, hcheck, compiles_of_compileNode hresult⟩

theorem hasSort_of_compile {kind : NodeKind} {result : WithPeriods} {order : OrderData}
    (h : g.compile name kind = .ok (result, order)) : result.1.HasSort .truth := by
  obtain ⟨source, terminal, hcheck, hderived⟩ := exists_compiles_of_compile h
  obtain ⟨s, hsort, htruth⟩ := hderived.hasSort
  exact htruth _ hcheck ▸ hsort

end Graph

namespace CompiledLogic

variable {logic : Value} {c : CompiledLogic}

theorem exists_compile_of_graphs {buy sell : Graph}
    (hgraphs : Graph.ofLogic logic = .ok (buy, sell)) (h : ofLogic logic = .ok c) :
    ∃ buyPeriods sellPeriods : List Period,
      buy.compile "buyGraph" .buy = .ok ((c.buy, buyPeriods), c.buyOrder) ∧
      sell.compile "sellGraph" .sell = .ok ((c.sell, sellPeriods), c.sellOrder) ∧
      c.warmUps = sellPeriods.foldl addPeriod buyPeriods := by
  rw [ofLogic, hgraphs, Outcome.ok_bind] at h
  obtain ⟨⟨⟩, -, h⟩ := Outcome.bind_eq_ok.mp h
  obtain ⟨⟨⟩, -, h⟩ := Outcome.bind_eq_ok.mp h
  obtain ⟨⟨⟨buyCondition, buyPeriods⟩, buyOrder⟩, hbuy, h⟩ := Outcome.bind_eq_ok.mp h
  obtain ⟨⟨⟨sellCondition, sellPeriods⟩, sellOrder⟩, hsell, h⟩ := Outcome.bind_eq_ok.mp h
  cases h
  exact ⟨buyPeriods, sellPeriods, hbuy, hsell, rfl⟩

theorem exists_compile_of_ofLogic (h : ofLogic logic = .ok c) :
    ∃ (buy sell : Graph) (buyPeriods sellPeriods : List Period),
      buy.compile "buyGraph" .buy = .ok ((c.buy, buyPeriods), c.buyOrder) ∧
      sell.compile "sellGraph" .sell = .ok ((c.sell, sellPeriods), c.sellOrder) ∧
      c.warmUps = sellPeriods.foldl addPeriod buyPeriods := by
  obtain ⟨⟨buy, sell⟩, hgraphs, -⟩ := Outcome.bind_eq_ok.mp h
  exact ⟨buy, sell, exists_compile_of_graphs hgraphs h⟩

/-- Both roots of a compiled logic yield truth values. -/
theorem hasSort_of_ofLogic (h : ofLogic logic = .ok c) :
    c.buy.HasSort .truth ∧ c.sell.HasSort .truth := by
  obtain ⟨buy, sell, buyPeriods, sellPeriods, hbuy, hsell, -⟩ := exists_compile_of_ofLogic h
  exact ⟨Graph.hasSort_of_compile hbuy, Graph.hasSort_of_compile hsell⟩

end CompiledLogic

def KnownUnits (periods : List Period) : Prop :=
  ∀ p ∈ periods, ∃ unit ∈ periodUnits, p.unit = .text unit

namespace KnownUnits

variable {periods : List Period}

theorem isKey (h : KnownUnits periods) {p : Period} (hp : p ∈ periods) :
    p.unit.isKey = true := by
  obtain ⟨unit, -, hunit⟩ := h p hp
  rw [hunit]
  rfl

end KnownUnits

end TradingRules
