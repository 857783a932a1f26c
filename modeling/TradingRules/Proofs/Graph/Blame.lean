import TradingRules.Proofs.Graph.Acceptance

/-!
# Blame

A graph that does not compile is reported with a defect, a class of defects and a node. The blame is
just: the terminal, or a node that is reached from it, has that defect. A node is said to be on a
cycle when it was visited before on the way to it, and then the way from it leads back to it.
-/

namespace TradingRules

open Market (Period)

namespace Outcome

variable {α β : Type} {name : String} {P Q : Defect → Prop}

/-- Each defect that a step reports is in the graph of that name, and of a certain sort. -/
def Charges (name : String) (P : Defect → Prop) (x : Outcome α) : Prop :=
  ∀ error, x = .error (.compile error) → error.graph = some name ∧ P error.defect

namespace Charges

theorem ok (a : α) : Charges name P (.ok a : Outcome α) := by
  intro error herror
  cases herror

theorem defect {d : Defect} (h : P d) : Charges name P (Fault.defect name d : Outcome α) := by
  intro error herror
  cases herror
  exact ⟨rfl, h⟩

theorem bind {x : Outcome α} {f : α → Outcome β} (hx : Charges name P x)
    (hf : ∀ a, x = .ok a → Charges name P (f a)) : Charges name P (x >>= f) := by
  cases x with
  | error e =>
    intro error herror
    cases herror
    exact hx error rfl
  | ok a => exact hf a rfl

theorem mono {x : Outcome α} (h : Charges name P x) (hPQ : ∀ d, P d → Q d) :
    Charges name Q x := by
  intro error herror
  exact (h error herror).imp_right (hPQ error.defect)

theorem guarded {p : Prop} [Decidable p] {d : Defect} (a : α) (h : ¬ p → P d) :
    Charges name P (if p then .ok a else Fault.defect name d) := by
  split
  · exact ok a
  · rename_i hp
    exact defect (h hp)

end Charges

end Outcome

open Outcome (Charges)

/-! ### Controls -/

namespace Node

/-- A control is to be a whole number, and does not read as one. -/
def WholeFlaw (n : Node) (control : String) (default : Value) (d : Defect) : Prop :=
  d = .notInteger control (n.setting control default) n.id ∧
    ∀ k, ¬ (n.setting control default).ReadsWhole k

/-- A control is to be a finite number, and does not read as one. -/
def NumberFlaw (n : Node) (control : String) (default : Value) (d : Defect) : Prop :=
  (d = .notNumber control (n.setting control default) n.id ∨
    d = .notFinite control (n.setting control default) n.id) ∧
      ∀ x, ¬ (n.setting control default).ReadsNumber x

/-- What is wrong with a control that the compiler reads of a node of a kind. -/
inductive Flaw (n : Node) : NodeKind → Defect → Prop
  | value {d : Defect} (h : n.NumberFlaw "value" (.int 0) d) : Flaw n .const d
  | period {d : Defect} (h : n.WholeFlaw "period" (.int 20) d) : Flaw n .sma d
  | periodTooLong {k : Int} (hk : (n.setting "period" (.int 20)).ReadsWhole k)
      (hlong : maxAveragePeriod < k) : Flaw n .sma (.periodTooLong k maxAveragePeriod n.id)
  | periodTooShort {k : Int} (hk : (n.setting "period" (.int 20)).ReadsWhole k) (hshort : k < 1) :
      Flaw n .sma (.periodTooShort k n.id)
  | length {d : Defect} (h : n.WholeFlaw "periodLength" (.int 1) d) : Flaw n .highestPrice d
  | lengthTooShort {k : Int} (hk : (n.setting "periodLength" (.int 1)).ReadsWhole k)
      (hshort : k < 1) : Flaw n .highestPrice (.lengthTooShort k n.id)
  | unit {unit : String}
      (hunit : unit = Text.lower (Text.strip (n.setting "periodUnit" (.text "day")).shown))
      (hunknown : unit ∉ periodUnits) : Flaw n .highestPrice (.unsupportedUnit unit n.id)
  | compareOperator (h : CompareOp.read? (n.setting "operator" (.text ">")).shown = none) :
      Flaw n .compare (.unsupportedOperator .compare n.id (n.setting "operator" .null))
  | logicOperator (h : LogicOp.read? (n.setting "operator" (.text "and")).shown = none) :
      Flaw n .logicOp (.unsupportedOperator .logicOp n.id (n.setting "operator" .null))

/-- What is wrong with the order of a terminal. -/
inductive OrderFlaw (n : Node) : Defect → Prop
  | orderType {orderType : String}
      (htype : orderType = Text.lower (Text.strip (n.setting "orderType" (.text "market")).shown))
      (hunknown : orderType ∉ orderTypes) : OrderFlaw n (.unsupportedOrderType orderType n.id)
  | limitPrice {d : Defect} (h : n.NumberFlaw "limitPrice" (.real 0.0) d) : OrderFlaw n d
  | quantity {d : Defect} (h : n.NumberFlaw n.quantityName (.real 0.0) d) : OrderFlaw n d

theorem isSupplier_of_supplier_eq_none {n : Node} {graph : String} {periods : List Period}
    {kind : NodeKind} (h : n.supplier graph periods kind = .ok none) : kind.isSupplier = false := by
  cases kind with
  | compare | logicOp | buy | sell => rfl
  | currentPrice | rsi | roi => cases h
  | const | highestPrice | sma =>
    obtain ⟨leaf, -, h⟩ := Outcome.bind_eq_ok.mp h
    cases h

theorem Flaw.node_eq {n : Node} {kind : NodeKind} {d : Defect} (h : n.Flaw kind d) :
    d.node = n.id := by
  cases h with
  | value h => rcases h.1 with rfl | rfl <;> rfl
  | period h | length h => rw [h.1, Defect.node]
  | _ => rfl

theorem OrderFlaw.node_eq {n : Node} {d : Defect} (h : n.OrderFlaw d) : d.node = n.id := by
  cases h with
  | orderType => rfl
  | limitPrice h | quantity h => rcases h.1 with rfl | rfl <;> rfl

section

variable {n : Node} (h : n.WellNamed) (name : String)
include h

theorem wholeControl_cases (control : String) (default : Value) :
    (∃ k, n.wholeControl control default name = .ok k) ∨
      n.wholeControl control default name =
        Fault.defect name (.notInteger control (n.setting control default) n.id) := by
  rw [wholeControl, control_eq h.controls, Outcome.ok_bind]
  cases n.setting control default with
  | int k => exact .inl ⟨k, rfl⟩
  | null | bool => exact .inr rfl
  | text | list | object | real | undefined =>
    dsimp only
    split
    · exact .inl ⟨_, rfl⟩
    · exact .inr rfl

theorem charges_wholeControl (control : String) (default : Value) :
    Charges name (n.WholeFlaw control default) (n.wholeControl control default name) := by
  rcases wholeControl_cases h name control default with ⟨k, hok⟩ | hdefect
  · rw [hok]
    exact .ok k
  · rw [hdefect]
    apply Charges.defect
    refine ⟨rfl, fun k hk => ?_⟩
    rw [(wholeControl_eq_ok_iff h).mpr hk] at hdefect
    cases hdefect

theorem charges_decimalControl (control : String) (default : Value) :
    Charges name (n.NumberFlaw control default) (n.decimalControl control default name) := by
  have hrefused : Charges name (fun d => d = .notNumber control (n.setting control default) n.id ∨
      d = .notFinite control (n.setting control default) n.id)
      (n.decimalControl control default name) := by
    rw [decimalControl, control_eq h.controls, Outcome.ok_bind]
    generalize n.setting control default = raw
    have hfinite {step : Outcome Float} (hstep : Charges name
        (fun d => d = .notNumber control raw n.id ∨ d = .notFinite control raw n.id) step) :
        Charges name (fun d => d = .notNumber control raw n.id ∨ d = .notFinite control raw n.id)
          (step >>= fun x => if x.isFinite then .ok x else
            Fault.defect name (.notFinite control raw n.id)) :=
      hstep.bind fun x _ => .guarded x fun _ => .inr rfl
    cases raw with
    | null | bool => exact hfinite (.defect (.inl rfl))
    | int k =>
      apply hfinite
      simp only [Value.toFloat, Value.numeric?, Value.Numeric.toFloat]
      cases Number.floatOfInt? k with
      | some x => exact .ok x
      | none =>
        intro error herror
        cases herror
    | real x => exact hfinite (.ok x)
    | undefined => exact hfinite (.ok nan)
    | text | list | object =>
      dsimp only
      split
      · exact hfinite (.ok _)
      · exact hfinite (.defect (.inl rfl))
  intro error herror
  obtain ⟨hgraph, hdefect⟩ := hrefused error herror
  refine ⟨hgraph, hdefect, fun x hx => ?_⟩
  rw [(decimalControl_eq_ok_iff h).mpr hx] at herror
  cases herror

theorem charges_averageCondition : Charges name (n.Flaw .sma) (n.averageCondition name) := by
  have hwhole := charges_wholeControl h name "period" (.int 20)
  refine (hwhole.mono fun d => Flaw.period).bind fun k hk => ?_
  have hreads := (wholeControl_eq_ok_iff h).mp hk
  split
  · rename_i hlong
    exact .defect (.periodTooLong hreads hlong)
  · split
    · rename_i hshort
      exact .defect (.periodTooShort hreads hshort)
    · exact .ok _

theorem charges_highestPeriod : Charges name (n.Flaw .highestPrice) (n.highestPeriod name) := by
  refine ((charges_wholeControl h name "periodLength" (.int 1)).mono fun d => .length).bind
    fun k hk => ?_
  have hreads := (wholeControl_eq_ok_iff h).mp hk
  split
  · rename_i hshort
    exact .defect (.lengthTooShort hreads hshort)
  · rw [control_eq h.controls, Outcome.ok_bind]
    apply Charges.guarded
    intro hunknown
    exact .unit rfl (by simpa using hunknown)

theorem charges_supplier (periods : List Period) (kind : NodeKind) :
    Charges name (n.Flaw kind) (n.supplier name periods kind) := by
  cases kind with
  | const =>
    have hvalue := charges_decimalControl h name "value" (.int 0)
    exact (hvalue.mono fun d => Flaw.value).bind fun x _ => .ok _
  | highestPrice => exact (charges_highestPeriod h name).bind fun p _ => .ok _
  | sma => exact (charges_averageCondition h name).bind fun c _ => .ok _
  | currentPrice | rsi | roi | compare | logicOp | buy | sell => exact .ok _

theorem charges_operatorOf (kind : NodeKind) (id : Value) (default : String)
    (read? : String → Option String) :
    Charges name (fun d => d = .unsupportedOperator kind id (n.setting "operator" .null) ∧
      read? (n.setting "operator" (.text default)).shown = none)
      (n.operatorOf name kind id default read?) := by
  rw [operatorOf, control_eq h.controls, control_eq h.controls, Outcome.ok_bind]
  cases hread : read? (n.setting "operator" (.text default)).shown with
  | some sign => exact .ok _
  | none => exact .defect ⟨rfl, rfl⟩

theorem charges_ofNode : Charges name n.OrderFlaw (OrderData.ofNode n name) := by
  have hquantity : (if (n.setting "quantity" .null).isNull = true then "sellPercent"
      else "quantity") = n.quantityName := rfl
  have hnumbers (orderType : String) : Charges name n.OrderFlaw (do
      let limitPrice ← n.decimalControl "limitPrice" (.real 0.0) name
      let quantity ← n.decimalControl n.quantityName (.real 0.0) name
      return ⟨.text orderType, .real limitPrice, .real quantity⟩ : Outcome OrderData) := by
    have hnumber := charges_decimalControl h name
    refine ((hnumber _ _).mono fun d => .limitPrice).bind fun limitPrice _ => ?_
    exact ((hnumber _ _).mono fun d => .quantity).bind fun quantity _ => .ok _
  simp only [OrderData.ofNode, control_eq h.controls, Outcome.ok_bind, hquantity]
  split
  · rename_i hunknown
    exact (Charges.defect (.orderType rfl (by simpa using hunknown))).bind fun _ _ => hnumbers _
  · exact hnumbers _

end

end Node

/-! ### Graphs -/

namespace Graph

variable {g : Graph} {kind : NodeKind} {name : String}

open Classical in
/-- All nodes of the kind of a terminal, in order. -/
noncomputable def terminals (g : Graph) (kind : NodeKind) : List Node :=
  g.nodes.filter fun n => decide (n.IsOf kind)

/-- The compiler comes to a node through a connection into its referrer: from the terminal to its
first source, and from a comparison or a connective to its first two sources. -/
inductive Reached (g : Graph) (kind : NodeKind) : Value → Value → Prop
  | source {terminal : Node} {id : Value} {rest : List Value} (hterminal : g.OnlyOf kind terminal)
      (hs : g.sources terminal.id = id :: rest) : Reached g kind id terminal.id
  | operand {id referrer a : Value} (h : Reached g kind id referrer) (ha : g.Operand id a) :
      Reached g kind a id

/-- A node stands where a condition is expected: at the terminal, or as an operand of a connective
that is reached. -/
inductive AsCondition (g : Graph) (kind : NodeKind) : Value → Value → Prop
  | source {terminal : Node} {id : Value} {rest : List Value} (hterminal : g.OnlyOf kind terminal)
      (hs : g.sources terminal.id = id :: rest) : AsCondition g kind id terminal.id
  | operand {id referrer a : Value} {n : Node} (h : g.Reached kind id referrer)
      (hn : g.find? id = some n) (hk : n.IsOf .logicOp) (ha : g.Operand id a) :
      AsCondition g kind a id

theorem AsCondition.reached {id referrer : Value} (h : g.AsCondition kind id referrer) :
    g.Reached kind id referrer := by
  cases h with
  | source hterminal hs => exact .source hterminal hs
  | operand h hn hk ha => exact h.operand ha

/-- What is wrong with a graph whose terminal is to be of a kind. -/
inductive Flaw (g : Graph) (kind : NodeKind) : Defect → Prop
  | noTerminal (h : g.terminals kind = []) : Flaw g kind (.noTerminal kind)
  | manyTerminals (h : 2 ≤ (g.terminals kind).length) :
      Flaw g kind (.manyTerminals kind ((g.terminals kind).map (·.id)))
  | order {terminal : Node} {d : Defect} (hterminal : g.OnlyOf kind terminal)
      (h : terminal.OrderFlaw d) : Flaw g kind d
  | noCondition {terminal : Node} (hterminal : g.OnlyOf kind terminal)
      (h : g.sources terminal.id = []) : Flaw g kind (.noCondition kind terminal.id)
  | dangling {id referrer : Value} (hreached : g.Reached kind id referrer)
      (h : ∀ n ∈ g.nodes, n.id ≠ id) : Flaw g kind (.dangling referrer id)
  | numericInput {id referrer : Value} {n : Node} {k : NodeKind}
      (hcondition : g.AsCondition kind id referrer) (hn : g.find? id = some n) (hk : n.IsOf k)
      (h : k.isSupplier = true) : Flaw g kind (.numericInput (.text k.name) id referrer)
  | cycle {id referrer : Value} (hreached : g.Reached kind id referrer)
      (h : Relation.TransGen g.Operand id id) : Flaw g kind (.cycle id)
  | unknownKind {id referrer v : Value} {n : Node} (hreached : g.Reached kind id referrer)
      (hn : g.find? id = some n) (hv : n.resolvedKind = .ok v) (h : ∀ k, ¬ n.IsOf k) :
      Flaw g kind (.unknownKind id v)
  | terminalInside {id referrer : Value} {n : Node} {k : NodeKind}
      (hreached : g.Reached kind id referrer) (hn : g.find? id = some n) (hk : n.IsOf k)
      (h : k = .buy ∨ k = .sell) : Flaw g kind (.terminalInside id k)
  | tooFewOperands {id referrer : Value} {n : Node} {k : NodeKind}
      (hreached : g.Reached kind id referrer) (hn : g.find? id = some n) (hk : n.IsOf k)
      (hjoins : k = .compare ∨ k = .logicOp) (h : (g.sources id).length < 2) :
      Flaw g kind (.tooFewOperands (.text k.name) id (g.sources id).length)
  | control {id referrer : Value} {n : Node} {k : NodeKind} {d : Defect}
      (hreached : g.Reached kind id referrer) (hn : g.find? id = some n) (hk : n.IsOf k)
      (h : n.Flaw k d) : Flaw g kind d

/-- The nodes that were visited before lead to the one that the compiler comes to. -/
def Behind (g : Graph) (unvisited : List Node) (id : Value) : Prop :=
  ∀ before n, g.find? before = some n → unvisited.any (fun m => m.id.isSame before) = false →
    Relation.TransGen g.Operand before id

theorem behind_nodes (id : Value) : g.Behind g.nodes id := by
  intro before n hn hnone
  obtain ⟨hmem, hsame⟩ := find?_some hn
  rw [List.any_eq_false] at hnone
  exact absurd hsame (hnone n hmem)

theorem operand_of_operands {n : Node} (hn : g.find? n.id = some n)
    (hk : n.IsOf .compare ∨ n.IsOf .logicOp) {a b : Value}
    (hoperands : g.operands name n = .ok (a, b)) : g.Operand n.id a ∧ g.Operand n.id b := by
  obtain ⟨rest, hs⟩ := operands_eq_ok_iff.mp hoperands
  exact ⟨⟨n, a, b, rest, hn, hk, hs, .inl rfl⟩, ⟨n, a, b, rest, hn, hk, hs, .inr rfl⟩⟩

section

variable (hg : g.WellNamed)
include hg

theorem Reached.isName {id referrer : Value} (h : g.Reached kind id referrer) : id.IsName := by
  cases h with
  | source hterminal hs => exact isName_of_mem_sources hg (hs.symm ▸ List.mem_cons_self)
  | operand h ha =>
    obtain ⟨n, a, b, rest, -, -, hs, rfl | rfl⟩ := ha
    · exact (isName_of_sources_eq hg hs).1
    · exact (isName_of_sources_eq hg hs).2

theorem charges_resolve {id referrer : Value} (h : g.Reached kind id referrer) :
    Charges name (g.Flaw kind) (g.resolve name id referrer) := by
  have hname := h.isName hg
  rw [resolve, Value.isKey_of_isName hname]
  cases hfind : g.find? id with
  | some n => exact .ok n
  | none =>
    apply Charges.defect
    refine .dangling h fun n hn hid => ?_
    have hother := List.find?_eq_none.mp hfind n (List.mem_reverse.mpr hn)
    exact hother ((Value.isSame_iff_of_isName hname).mpr hid)

/-- A node that the compiler finds, with the kind that it reads of it. -/
theorem exists_kind {id referrer : Value} (h : g.Reached kind id referrer) {n : Node}
    (hresolved : g.resolve name id referrer = .ok n) :
    g.find? id = some n ∧ n.WellNamed ∧ n.id = id ∧ ∃ v, n.resolvedKind = .ok v ∧
      (NodeKind.ofValue? v = none → ∀ k, ¬ n.IsOf k) ∧
      ∀ k, NodeKind.ofValue? v = some k → v = .text k.name ∧ n.IsOf k := by
  have hn := (resolve_eq_ok_iff (h.isName hg)).mp hresolved
  obtain ⟨hwell, hid⟩ := find?_eq_some hg hn
  obtain ⟨v, hv, hof⟩ := Node.exists_resolvedKind hwell
  refine ⟨hn, hwell, hid, v, hv, ?_, ?_⟩
  · intro hnone k hk
    rw [NodeKind.ofValue?_eq_some_iff.mpr ((hof k).mpr hk)] at hnone
    cases hnone
  · intro k hk
    have hname := NodeKind.ofValue?_eq_some_iff.mp hk
    exact ⟨hname, (hof k).mp hname⟩

theorem charges_checkCondition {id referrer : Value} (h : g.AsCondition kind id referrer) :
    Charges name (g.Flaw kind) (g.checkCondition name id referrer) := by
  refine (charges_resolve hg h.reached).bind fun n hresolved => ?_
  obtain ⟨hn, -, -, v, hv, -, hkind⟩ := exists_kind hg h.reached hresolved
  rw [hv, Outcome.ok_bind]
  split
  · rename_i k hk
    obtain ⟨rfl, hof⟩ := hkind k hk
    split
    · rename_i hsupplier
      exact .defect (.numericInput h hn hof hsupplier)
    · exact .ok ()
  · exact .ok ()

theorem charges_operands {id referrer : Value} (h : g.Reached kind id referrer) {n : Node}
    {k : NodeKind} (hn : g.find? id = some n) (hk : n.IsOf k)
    (hjoins : k = .compare ∨ k = .logicOp) :
    Charges name (g.Flaw kind) (g.operands name n) := by
  obtain ⟨hwell, rfl⟩ := find?_eq_some hg hn
  obtain ⟨v, hv, hof⟩ := Node.exists_resolvedKind hwell
  obtain rfl := (hof k).mpr hk
  rw [operands]
  split
  · exact .ok _
  · rename_i few hfew
    rw [hv, Outcome.ok_bind]
    apply Charges.defect
    refine .tooFewOperands h hn hk hjoins ?_
    rcases hs : g.sources n.id with _ | ⟨a, _ | ⟨b, rest⟩⟩
    · exact Nat.zero_lt_two
    · exact Nat.one_lt_two
    · exact absurd hs (hfew a b rest)

/-- On the way from a node to one of its operands, the node itself is behind, too. -/
theorem Behind.withoutId {unvisited : List Node} {id a : Value} (h : g.Behind unvisited id)
    (hid : id.IsName) (ha : g.Operand id a) : g.Behind (withoutId unvisited id) a := by
  intro before n hn hnone
  by_cases hbefore : before = id
  · subst hbefore
    exact .single ha
  · refine (h before n hn ?_).tail ha
    rw [List.any_eq_false] at hnone ⊢
    intro m hm hsame
    obtain ⟨hwell, hnid⟩ := find?_eq_some hg hn
    have hmid : m.id = before := (Value.isSame_iff_of_isName (hnid ▸ hwell.id)).mp hsame
    have hother : m.id.isSame id = false := by
      rw [Bool.eq_false_iff]
      intro hagain
      exact hbefore (hmid.symm.trans ((Value.isSame_iff_of_isName hid).mp hagain))
    exact hnone m (List.mem_filter.mpr ⟨hm, by simp [hother]⟩) hsame

theorem charges_compileNode {id referrer : Value} (h : g.Reached kind id referrer)
    {unvisited : List Node} (hbehind : g.Behind unvisited id) (periods : List Period) :
    Charges name (g.Flaw kind) (g.compileNode name id referrer unvisited periods) := by
  -- Every visit takes a node away, so the induction is on the number of those that are left.
  induction hlen : unvisited.length using Nat.strongRecOn
    generalizing id referrer unvisited periods with
  | _ len ih =>
    rw [compileNode]
    refine (charges_resolve hg h).bind fun n hresolved => ?_
    obtain ⟨hn, hwell, rfl, v, hv, hunknown, hkind⟩ := exists_kind hg h hresolved
    split
    · rename_i hmet
      have hless : (withoutId unvisited n.id).length < len := hlen ▸ length_withoutId_lt hmet
      rw [hv, Outcome.ok_bind]
      split
      · rename_i hnone
        exact .defect (.unknownKind h hn hv (hunknown hnone))
      · rename_i k hk
        obtain ⟨rfl, hof⟩ := hkind k hk
        have hvisit {a : Value} (ha : g.Operand n.id a) (periods : List Period) :
            Charges name (g.Flaw kind)
              (g.compileNode name a n.id (withoutId unvisited n.id) periods) :=
          ih _ hless (h.operand ha) (hbehind.withoutId hg hwell.id ha) periods rfl
        cases k with
        | compare =>
          have hoperator := (Node.charges_operatorOf hwell name .compare n.id
            CompareOp.greater.sign fun s => (CompareOp.read? s).map CompareOp.sign).mono
              (Q := g.Flaw kind) fun d ⟨hd, hnone⟩ => hd ▸
                .control h hn hof (.compareOperator (Option.map_eq_none_iff.mp hnone))
          refine hoperator.bind fun operator _ => ?_
          refine (charges_operands hg h hn hof (.inl rfl)).bind fun ⟨a, b⟩ hoperands => ?_
          obtain ⟨ha, hb⟩ := operand_of_operands hn (.inl hof) hoperands
          refine (hvisit ha periods).bind fun ⟨x, between⟩ _ => ?_
          exact (hvisit hb between).bind fun ⟨y, rest⟩ _ => .ok _
        | logicOp =>
          have hoperator := (Node.charges_operatorOf hwell name .logicOp n.id
            LogicOp.and.word fun s => (LogicOp.read? s).map LogicOp.word).mono
              (Q := g.Flaw kind) fun d ⟨hd, hnone⟩ => hd ▸
                .control h hn hof (.logicOperator (Option.map_eq_none_iff.mp hnone))
          refine hoperator.bind fun operator _ => ?_
          refine (charges_operands hg h hn hof (.inr rfl)).bind fun ⟨a, b⟩ hoperands => ?_
          obtain ⟨ha, hb⟩ := operand_of_operands hn (.inr hof) hoperands
          refine (charges_checkCondition hg (.operand h hn hof ha)).bind fun _ _ => ?_
          refine (hvisit ha periods).bind fun ⟨x, between⟩ _ => ?_
          refine (charges_checkCondition hg (.operand h hn hof hb)).bind fun _ _ => ?_
          exact (hvisit hb between).bind fun ⟨y, rest⟩ _ => .ok _
        | buy => exact .defect (.terminalInside h hn hof (.inl rfl))
        | sell => exact .defect (.terminalInside h hn hof (.inr rfl))
        | const | currentPrice | highestPrice | rsi | roi | sma =>
          refine ((Node.charges_supplier hwell name periods _).mono fun d =>
            .control h hn hof).bind fun found hfound => ?_
          cases found with
          | none => exact absurd (Node.isSupplier_of_supplier_eq_none hfound) (by decide)
          | some leaf => exact .ok leaf
    · rename_i hmet
      exact .defect (.cycle h (hbehind n.id n hn (by simpa using hmet)))

theorem charges_terminal : Charges name (g.Flaw kind) (g.terminal name kind) := by
  have hfound : g.nodesOfKind kind = .ok (g.terminals kind) := nodesOfKind_eq hg
  rw [terminal, hfound, Outcome.ok_bind]
  rcases hterminals : g.terminals kind with _ | ⟨n, _ | ⟨m, rest⟩⟩
  · exact .defect (.noTerminal hterminals)
  · exact .ok n
  · apply Charges.defect
    rw [← hterminals]
    apply Flaw.manyTerminals
    rw [hterminals, List.length_cons, List.length_cons]
    omega

theorem charges_compile : Charges name (g.Flaw kind) (g.compile name kind) := by
  refine (charges_terminal hg).bind fun terminal hok => ?_
  have hterminal := (terminal_eq_ok_iff hg).mp hok
  have horder := (Node.charges_ofNode (hterminal.wellNamed hg) name).mono
    fun d => Flaw.order hterminal
  refine horder.bind fun order _ => ?_
  cases hs : g.sources terminal.id with
  | nil => exact .defect (.noCondition hterminal hs)
  | cons source rest =>
    have hreached : g.Reached kind source terminal.id := .source hterminal hs
    refine (charges_checkCondition hg (.source hterminal hs)).bind fun _ _ => ?_
    exact (charges_compileNode hg hreached (behind_nodes source) []).bind fun result _ => .ok _

/-- A defect is about the terminal or a node that is reached, unless there is not one terminal. -/
theorem Flaw.located {d : Defect} (h : g.Flaw kind d) :
    d.reason = "MissingTerminalNode" ∨ (∃ terminal, g.OnlyOf kind terminal ∧ d.node = terminal.id ∧
        (g.sources terminal.id = [] ∨ terminal.OrderFlaw d)) ∨
      ∃ referrer, g.Reached kind d.node referrer := by
  cases h with
  | noTerminal | manyTerminals => exact .inl rfl
  | noCondition hterminal h => exact .inr (.inl ⟨_, hterminal, rfl, .inl h⟩)
  | order hterminal h => exact .inr (.inl ⟨_, hterminal, h.node_eq, .inr h⟩)
  | numericInput hcondition => exact .inr (.inr ⟨_, hcondition.reached⟩)
  | control hreached hn hk h =>
    rw [h.node_eq, (find?_eq_some hg hn).2]
    exact .inr (.inr ⟨_, hreached⟩)
  | dangling hreached | cycle hreached | unknownKind hreached | terminalInside hreached
  | tooFewOperands hreached => exact .inr (.inr ⟨_, hreached⟩)

/-- Reported defects are real. When a well-named graph is refused with a defect, the error names the
graph, and the defect is there: it is a flaw of the graph, of its terminal, or of a node that is
reached from there, and the node that the error names is just that one. -/
theorem reported_defects_are_real {error : CompileError}
    (h : g.compile name kind = .error (.compile error)) :
    error.graph = some name ∧ g.Flaw kind error.defect ∧
      (error.defect.reason = "MissingTerminalNode" ∨
        (∃ terminal, g.OnlyOf kind terminal ∧ error.defect.node = terminal.id ∧
          (g.sources terminal.id = [] ∨ terminal.OrderFlaw error.defect)) ∨
        ∃ referrer, g.Reached kind error.defect.node referrer) := by
  obtain ⟨hgraph, hflaw⟩ := charges_compile hg error h
  exact ⟨hgraph, hflaw, hflaw.located hg⟩

end

/-- A comparison that is its own operand. -/
def loopGraph : Graph where
  nodes := [plainNode "order" "buy", plainNode "loop" "compare"]
  connections := [plainConnection "loop" "order", plainConnection "loop" "loop",
    plainConnection "loop" "loop"]
  viewport := .null
  extra := []

theorem loop_is_real : loopGraph.WellNamed ∧
    loopGraph.compile "buyGraph" .buy =
      .error (.compile ⟨some "buyGraph", .cycle (.text "loop")⟩) ∧
    Relation.TransGen loopGraph.Operand (.text "loop") (.text "loop") := by
  have hwell : loopGraph.WellNamed := by
    constructor
    · intro n hn
      simp only [loopGraph, List.mem_cons, List.not_mem_nil, or_false] at hn
      rcases hn with rfl | rfl <;> exact plainNode_wellNamed _ _
    · simp [loopGraph, plainConnection, Value.IsName]
    · simp [loopGraph, plainConnection, Value.IsName]
  have hrefused : loopGraph.compile "buyGraph" .buy =
      .error (.compile ⟨some "buyGraph", .cycle (.text "loop")⟩) := by
    with_unfolding_all rfl
  refine ⟨hwell, hrefused, ?_⟩
  obtain ⟨-, hflaw, -⟩ := reported_defects_are_real hwell hrefused
  cases hflaw with
  | cycle hreached h => exact h
  | order hterminal h =>
    cases h with
    | limitPrice h | quantity h => rcases h.1 with h | h <;> cases h
  | control hreached hn hk h =>
    cases h with
    | value h => rcases h.1 with h | h <;> cases h
    | period h | length h => cases h.1

end Graph

end TradingRules
