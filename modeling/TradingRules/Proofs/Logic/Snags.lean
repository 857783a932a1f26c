import TradingRules.Proofs.Graph.Derivation

/-!
# Snags

A logic that does not compile is reported with a defect, unless something in it cannot even be read:
a graph that is no object, nodes that are no collection, an id that cannot be a key, a label or
controls of the wrong shape, a whole number beyond the doubles. Such a snag is no defect, and the
fault that it leads to is not one that is reported.
-/

namespace TradingRules

open Market (Period)

namespace Outcome

variable {α β : Type} {S T : Fault → Prop}

/-- A step fails only with a defect, or with a fault of a certain kind. -/
def Reports (S : Fault → Prop) (x : Outcome α) : Prop :=
  ∀ e, x = .error e → (∃ error, e = .compile error) ∨ S e

namespace Reports

theorem ok (a : α) : Reports S (.ok a : Outcome α) := by
  simp [Reports]

theorem defect (graph : Option String) (d : Defect) :
    Reports S (Fault.defect graph d : Outcome α) := by
  rintro e ⟨⟩
  exact .inl ⟨_, rfl⟩

theorem fault {e : Fault} (h : S e) : Reports S (.error e : Outcome α) := by
  rintro _ ⟨⟩
  exact .inr h

theorem bind {x : Outcome α} {f : α → Outcome β} (hx : Reports S x)
    (hf : ∀ a, x = .ok a → Reports S (f a)) : Reports S (x >>= f) := by
  cases x with
  | error e =>
    rintro _ ⟨⟩
    exact hx e rfl
  | ok a => exact hf a rfl

theorem mono {x : Outcome α} (h : Reports S x) (hST : ∀ e, S e → T e) : Reports T x :=
  fun e he => (h e he).imp_right (hST e)

theorem guarded {p : Prop} [Decidable p] (graph : Option String) (d : Defect) (a : α) :
    Reports S (if p then .ok a else Fault.defect graph d) := by
  split
  · exact ok a
  · exact defect graph d

theorem filterM {p : α → Outcome Bool} {l : List α} (h : ∀ a ∈ l, Reports S (p a)) :
    Reports S (l.filterM p) := by
  rcases filterM_cases p l with ⟨q, -, hok⟩ | ⟨a, ha, e, he, hstop⟩
  · exact hok ▸ ok _
  · intro e' he'
    obtain rfl := Except.error.inj (hstop.symm.trans he')
    exact h a ha e he

end Reports

end Outcome

open Outcome (Reports)

/-! ### Nodes -/

namespace Node

def decimalControls : List String := ["value", "limitPrice", "quantity", "sellPercent"]

/-- What keeps a part of a node from being read, and the fault it leads to. -/
inductive Snag (n : Node) : Fault → Prop
  | label (hkind : n.kind.isTruthy = false) (hlabel : n.label.isTruthy = true)
      (h : n.label.isKey = false) : Snag n (.unhashable n.label)
  | controls (htruthy : n.controls.isTruthy = true) (h : n.controls.fields? = none) :
      Snag n (.fieldsOf n.controls)
  | number {f : Fields} {name : String} {k : Int} (hcontrols : n.controls = .object f)
      (hname : name ∈ decimalControls) (hk : f.get name = .int k)
      (hlarge : Number.floatOfInt? k = none) : Snag n .tooLargeForFloat

variable {n : Node} {graph : Option String}

theorem reports_resolvedKind : Reports n.Snag n.resolvedKind := by
  unfold resolvedKind
  split
  · exact .ok _
  · rename_i hkind
    split
    · exact .ok _
    · rename_i hlabel
      split
      · exact .ok _
      · split
        · exact .ok _
        · rename_i hkey
          exact .fault (.label (by simpa using hkind) (by simpa using hlabel) (by simpa using hkey))

/-- A control is read as its default or as the field of that name. -/
theorem control_cases (n : Node) (name : String) (default : Value) :
    (∃ e, n.control name default = .error e ∧ n.Snag e) ∨
      n.control name default = .ok default ∨
      ∃ f : Fields, n.controls = .object f ∧ n.control name default = .ok (f.get name) := by
  unfold control
  cases htruthy : n.controls.isTruthy with
  | false => exact .inr (.inl rfl)
  | true =>
    cases hcontrols : n.controls with
    | object f =>
      right
      simp only [Bool.not_true, Bool.false_eq_true, if_false, Value.asFields, Outcome.ok_bind]
      split
      · exact .inl rfl
      · exact .inl rfl
      · exact .inr ⟨f, rfl, rfl⟩
    | _ =>
      refine .inl ⟨_, rfl, ?_⟩
      rw [← hcontrols]
      exact .controls htruthy (by rw [hcontrols]; rfl)

theorem reports_control (name : String) (default : Value) :
    Reports n.Snag (n.control name default) := by
  rcases control_cases n name default with
    ⟨e, he, hsnag⟩ | hdefault | ⟨f, -, hfield⟩
  · rw [he]
    exact .fault hsnag
  · rw [hdefault]
    exact .ok _
  · rw [hfield]
    exact .ok _

theorem reports_wholeControl (name : String) (default : Value) :
    Reports n.Snag (n.wholeControl name default graph) := by
  refine (reports_control name default).bind fun raw _ => ?_
  simp only []
  split
  · exact .defect _ _
  · exact .defect _ _
  · exact .ok _
  · split
    · exact .ok _
    · exact .defect _ _

/-- A number that is read is finite or reported. -/
theorem reports_finite {step : Outcome Float} {d : Defect} (h : Reports n.Snag step) :
    Reports n.Snag (step >>= fun x => if x.isFinite then .ok x else Fault.defect graph d) :=
  h.bind fun _ _ => .guarded _ _ _

theorem reports_decimalControl {name : String} (hname : name ∈ decimalControls) {default : Value}
    (hdefault : ∀ k, default = .int k → Number.floatOfInt? k ≠ none) :
    Reports n.Snag (n.decimalControl name default graph) := by
  refine (reports_control name default).bind fun raw hraw => ?_
  simp only []
  split
  · exact reports_finite (.defect _ _)
  · exact reports_finite (.defect _ _)
  · rename_i k
    refine reports_finite ?_
    simp only [Value.toFloat, Value.numeric?, Value.Numeric.toFloat]
    cases hlarge : Number.floatOfInt? k with
    | some x => exact .ok x
    | none =>
      -- The default is no such number, so the control itself is.
      rcases control_cases n name default with
        ⟨e, he, -⟩ | hread | ⟨f, hcontrols, hread⟩
      · rw [hraw] at he
        cases he
      · exact absurd hlarge (hdefault k (Except.ok.inj (hread.symm.trans hraw)))
      · exact .fault (.number hcontrols hname (Except.ok.inj (hread.symm.trans hraw)) hlarge)
  · exact reports_finite (.ok _)
  · exact reports_finite (.ok _)
  · split
    · exact reports_finite (.ok _)
    · exact reports_finite (.defect _ _)

theorem reports_averageCondition {graph : String} : Reports n.Snag (n.averageCondition graph) := by
  refine (reports_wholeControl _ _).bind fun k _ => ?_
  split
  · exact .defect _ _
  · split
    · exact .defect _ _
    · exact .ok _

theorem reports_highestPeriod {graph : String} : Reports n.Snag (n.highestPeriod graph) := by
  refine (reports_wholeControl _ _).bind fun k _ => ?_
  split
  · exact .defect _ _
  · exact (reports_control _ _).bind fun raw _ => .guarded _ _ _

theorem reports_supplier {graph : String} (periods : List Period) (kind : NodeKind) :
    Reports n.Snag (n.supplier graph periods kind) := by
  cases kind with
  | const =>
    refine (reports_decimalControl (by decide) ?_).bind fun x _ => .ok _
    rintro k ⟨⟩
    decide
  | highestPrice => exact reports_highestPeriod.bind fun p _ => .ok _
  | sma => exact reports_averageCondition.bind fun c _ => .ok _
  | currentPrice | rsi | roi | compare | logicOp | buy | sell => exact .ok _

theorem reports_operatorOf {graph : String} (kind : NodeKind) (id : Value) (default : String)
    (read? : String → Option String) :
    Reports n.Snag (n.operatorOf graph kind id default read?) := by
  refine (reports_control _ _).bind fun raw _ => ?_
  split
  · exact .ok _
  · exact (reports_control _ _).bind fun raw _ => .defect _ _

theorem reports_ofNode : Reports n.Snag (OrderData.ofNode n graph) := by
  have hzero : ∀ k, Value.real 0.0 = .int k → Number.floatOfInt? k ≠ none := by
    rintro k ⟨⟩
  have hrest : ∀ orderType : String, Reports n.Snag (do
      let limitPrice ← n.decimalControl "limitPrice" (.real 0.0) graph
      let key := if (← n.control "quantity" .null).isNull then "sellPercent" else "quantity"
      let quantity ← n.decimalControl key (.real 0.0) graph
      return ⟨.text orderType, .real limitPrice, .real quantity⟩ : Outcome OrderData) := by
    intro orderType
    refine (reports_decimalControl (by decide) hzero).bind fun limitPrice _ => ?_
    refine (reports_control _ _).bind fun raw _ => ?_
    refine (reports_decimalControl ?_ hzero).bind fun quantity _ => .ok _
    split <;> decide
  refine (reports_control _ _).bind fun raw _ => ?_
  simp only []
  split
  · exact (Reports.defect _ _).bind fun _ _ => hrest _
  · exact hrest _

end Node

/-! ### Graphs -/

namespace Graph

/-- What keeps a value from being read as a graph. -/
inductive Misread (v : Value) : Fault → Prop
  | graph (htruthy : v.isTruthy = true) (h : v.fields? = none) : Misread v (.fieldsOf v)
  | items {f : Fields} {key : String} {e : Fault} (hv : v = .object f)
      (hkey : key ∈ ["nodes", "connections"]) (htruthy : (f.get key).isTruthy = true)
      (h : (f.get key).items = .error e) : Misread v e

/-- A snag in a graph that was read: in one of its nodes, or in what nodes are looked up by. -/
inductive Snag (g : Graph) : Fault → Prop
  | node {n : Node} {e : Fault} (hn : n ∈ g.nodes) (h : n.Snag e) : Snag g e
  | key {v : Value} (hv : v ∈ g.keys) (h : v.isKey = false) : Snag g (.unhashable v)
  | source {target v : Value} (hv : v ∈ g.sources target) (h : v.isKey = false) :
      Snag g (.unhashable v)

variable {g : Graph} {name : String}

theorem objectItems_eq_error_iff {v : Value} {e : Fault} :
    v.objectItems = .error e ↔ v.isTruthy = true ∧ v.items = .error e := by
  unfold Value.objectItems
  cases v.isTruthy <;> cases v.items <;> simp [Except.map]

/-- A value that cannot be read as a graph is misread with the fault of the reading. -/
theorem misread_of_ofValue {v : Value} {e : Fault} (h : ofValue v = .error e) : Misread v e := by
  unfold ofValue at h
  split at h
  · cases h
  · rename_i hnot
    have htruthy : v.isTruthy = true := by simpa using hnot
    cases hv : v with
    | object f =>
      rw [hv, Value.asFields, Outcome.ok_bind] at h
      cases hnodes : (Fields.get f "nodes").objectItems with
      | error e' =>
        rw [hnodes] at h
        cases h
        obtain ⟨hlist, hitems⟩ := objectItems_eq_error_iff.mp hnodes
        exact .items rfl (by simp) hlist hitems
      | ok nodes =>
        cases hconnections : (Fields.get f "connections").objectItems with
        | error e' =>
          rw [hnodes, Outcome.ok_bind, hconnections] at h
          cases h
          obtain ⟨hlist, hitems⟩ := objectItems_eq_error_iff.mp hconnections
          exact .items rfl (by simp) hlist hitems
        | ok connections =>
          rw [hnodes, hconnections] at h
          cases h
    | _ =>
      rw [hv] at h htruthy
      cases h
      exact .graph htruthy rfl

theorem exists_fault_of_misread {v : Value} {e : Fault} (h : Misread v e) :
    ∃ e', ofValue v = .error e' := by
  unfold ofValue
  cases h with
  | graph htruthy h => cases v <;> simp_all [Value.asFields, Value.fields?]
  | @items f key _ hv hkey htruthy h =>
    subst hv
    have hlist := objectItems_eq_error_iff.mpr ⟨htruthy, h⟩
    have hfields : (Value.object f).isTruthy = true := by
      cases f with
      | nil => cases htruthy
      | cons p rest => rfl
    simp only [hfields, Bool.not_true, Bool.false_eq_true, if_false, Value.asFields,
      Outcome.ok_bind]
    simp only [List.mem_cons, List.not_mem_nil, or_false] at hkey
    rcases hkey with rfl | rfl
    · exact ⟨e, by rw [hlist, Outcome.error_bind]⟩
    · cases (Fields.get f "nodes").objectItems with
      | error e' => exact ⟨e', rfl⟩
      | ok nodes => exact ⟨e, by rw [hlist, Outcome.ok_bind, Outcome.error_bind]⟩

theorem checkKeys_eq_ok_iff :
    g.checkKeys = .ok () ↔ ∀ v ∈ g.keys, v.isKey = true := by
  rw [checkKeys]
  cases hfound : g.keys.find? fun v => !v.isKey with
  | none => simpa using hfound
  | some v =>
    simp only [reduceCtorEq, false_iff]
    intro hall
    have hkey := hall v (List.mem_of_find?_eq_some hfound)
    have hnot := List.find?_some hfound
    simp [hkey] at hnot

theorem checkKeys_eq_error_iff {e : Fault} :
    g.checkKeys = .error e ↔ ∃ v, g.keys.find? (fun v => !v.isKey) = some v ∧
      e = .unhashable v := by
  unfold checkKeys
  cases g.keys.find? fun v => !v.isKey <;> simp [eq_comm]

theorem snag_of_checkKeys {e : Fault} (h : g.checkKeys = .error e) : g.Snag e := by
  obtain ⟨v, hv, rfl⟩ := checkKeys_eq_error_iff.mp h
  exact .key (List.mem_of_find?_eq_some hv) (by simpa using List.find?_some hv)

theorem exists_fault_of_not_isKey {v : Value} (hv : v ∈ g.keys) (h : v.isKey = false) :
    ∃ e, g.checkKeys = .error e := by
  cases hfound : g.keys.find? fun v => !v.isKey with
  | some w => exact ⟨_, checkKeys_eq_error_iff.mpr ⟨w, hfound, rfl⟩⟩
  | none =>
    have := List.find?_eq_none.mp hfound v hv
    simp [h] at this

theorem mem_nodes_of_resolve {id referrer : Value} {n : Node}
    (h : g.resolve name id referrer = .ok n) : n ∈ g.nodes := by
  unfold resolve at h
  split at h
  · cases h
  · split at h
    · rename_i hfound
      cases h
      exact (find?_some hfound).1
    · cases h

theorem reports_node {α : Type} {n : Node} (hn : n ∈ g.nodes) {x : Outcome α}
    (h : Reports n.Snag x) : Reports g.Snag x :=
  h.mono fun _ => .node hn

section

variable {id target : Value} (hid : id ∈ g.sources target)

include hid

theorem reports_resolve (referrer : Value) : Reports g.Snag (g.resolve name id referrer) := by
  unfold resolve
  split
  · rename_i hkey
    exact .fault (.source hid (by simpa using hkey))
  · split
    · exact .ok _
    · exact .defect _ _

theorem reports_checkCondition (referrer : Value) :
    Reports g.Snag (g.checkCondition name id referrer) := by
  refine (reports_resolve hid referrer).bind fun n hn => ?_
  refine (reports_node (mem_nodes_of_resolve hn) n.reports_resolvedKind).bind fun kind _ => ?_
  split
  · split
    · exact .defect _ _
    · exact .ok _
  · exact .ok _

end

theorem reports_operands {n : Node} (hn : n ∈ g.nodes) : Reports g.Snag (g.operands name n) := by
  unfold operands
  split
  · exact .ok _
  · exact (reports_node hn n.reports_resolvedKind).bind fun kind _ => .defect _ _

theorem mem_sources_of_operands {n : Node} {a b : Value} (h : g.operands name n = .ok (a, b)) :
    a ∈ g.sources n.id ∧ b ∈ g.sources n.id := by
  obtain ⟨rest, hs⟩ := operands_eq_ok_iff.mp h
  simp [hs]

theorem reports_compileNode {id target : Value} (hid : id ∈ g.sources target) (referrer : Value)
    (unvisited : List Node) (periods : List Period) :
    Reports g.Snag (g.compileNode name id referrer unvisited periods) := by
  -- Every visit takes a node away, so the induction is on the number of those that are left.
  induction hlen : unvisited.length using Nat.strongRecOn
    generalizing id target referrer unvisited periods with
  | _ len ih =>
    rw [compileNode]
    refine (reports_resolve hid referrer).bind fun n hresolved => ?_
    have hn := mem_nodes_of_resolve hresolved
    split
    · rename_i hmet
      have hless : (withoutId unvisited id).length < len := hlen ▸ length_withoutId_lt hmet
      refine (reports_node hn n.reports_resolvedKind).bind fun v _ => ?_
      split
      · exact .defect _ _
      · rename_i kind _
        cases kind with
        | compare =>
          refine (reports_node hn (n.reports_operatorOf _ _ _ _)).bind fun operator _ => ?_
          refine (reports_operands hn).bind fun ⟨a, b⟩ hoperands => ?_
          obtain ⟨ha, hb⟩ := mem_sources_of_operands hoperands
          refine (ih _ hless ha _ _ _ rfl).bind fun ⟨x, between⟩ _ => ?_
          exact (ih _ hless hb _ _ _ rfl).bind fun ⟨y, rest⟩ _ => .ok _
        | logicOp =>
          refine (reports_node hn (n.reports_operatorOf _ _ _ _)).bind fun operator _ => ?_
          refine (reports_operands hn).bind fun ⟨a, b⟩ hoperands => ?_
          obtain ⟨ha, hb⟩ := mem_sources_of_operands hoperands
          refine (reports_checkCondition ha _).bind fun _ _ => ?_
          refine (ih _ hless ha _ _ _ rfl).bind fun ⟨x, between⟩ _ => ?_
          refine (reports_checkCondition hb _).bind fun _ _ => ?_
          exact (ih _ hless hb _ _ _ rfl).bind fun ⟨y, rest⟩ _ => .ok _
        | const | currentPrice | highestPrice | rsi | roi | sma | buy | sell =>
          refine (reports_node hn (n.reports_supplier _ _)).bind fun found _ => ?_
          cases found with
          | none => exact .defect _ _
          | some leaf => exact .ok leaf
    · exact .defect _ _

theorem reports_terminal (kind : NodeKind) : Reports g.Snag (g.terminal name kind) := by
  refine Reports.bind (Reports.filterM fun n hn => ?_) fun found _ => ?_
  · exact (reports_node hn n.reports_resolvedKind).bind fun v _ => .ok _
  · split
    · exact .defect _ _
    · exact .ok _
    · exact .defect _ _

theorem mem_nodes_of_terminal {kind : NodeKind} {n : Node} (h : g.terminal name kind = .ok n) :
    n ∈ g.nodes := by
  obtain ⟨found, hfound, h⟩ := Outcome.bind_eq_ok.mp h
  split at h
  · simp at h
  · cases h
    exact (Outcome.of_mem_filterM hfound List.mem_cons_self).1
  · simp at h

theorem reports_compile (kind : NodeKind) : Reports g.Snag (g.compile name kind) := by
  refine (reports_terminal kind).bind fun n hterminal => ?_
  refine (reports_node (mem_nodes_of_terminal hterminal) n.reports_ofNode).bind fun order _ => ?_
  split
  · exact .defect _ _
  · rename_i hsources
    have hsource : _ ∈ g.sources n.id := hsources ▸ List.mem_cons_self
    refine (reports_checkCondition hsource _).bind fun _ _ => ?_
    exact (reports_compileNode hsource _ _ _).bind fun result _ => .ok _

end Graph

/-! ### Logics -/

namespace CompiledLogic

/-- The values that the two graphs of a logic are read from. -/
def graphValues (logic : Fields) : List Value :=
  [Graph.pick logic Graph.buyNames, Graph.pick logic Graph.sellNames]

/-- A snag in a logic: a graph that cannot be read, or a snag in one that can. -/
inductive Snag (logic : Fields) : Fault → Prop
  | graph {v : Value} {e : Fault} (hv : v ∈ graphValues logic) (h : Graph.Misread v e) :
      Snag logic e
  | within {v : Value} {g : Graph} {e : Fault} (hv : v ∈ graphValues logic)
      (hg : Graph.ofValue v = .ok g) (h : g.Snag e) : Snag logic e

/-- A graph that cannot be read, or nodes that cannot be looked up in it. -/
def Misshapen (logic : Fields) : Prop :=
  ∃ v ∈ graphValues logic, (∃ e, Graph.Misread v e) ∨
    ∃ g, Graph.ofValue v = .ok g ∧ ∃ key ∈ g.keys, key.isKey = false

variable {logic : Fields}

theorem ofLogic_object (logic : Fields) : ofLogic (.object logic) = (do
    let buy ← Graph.ofValue (Graph.pick logic Graph.buyNames)
    let sell ← Graph.ofValue (Graph.pick logic Graph.sellNames)
    ofGraphs buy sell) := by
  cases logic with
  | nil => rfl
  | cons p rest =>
    have htruthy : (Value.object (p :: rest)).isTruthy = true := rfl
    simp only [ofLogic, Graph.ofLogic, htruthy, Bool.not_true, Bool.false_eq_true, if_false,
      Value.asFields, Outcome.ok_bind, bind_assoc, pure_bind]

theorem reports_ofLogic (logic : Fields) : Reports (Snag logic) (ofLogic (.object logic)) := by
  rw [ofLogic_object]
  have hread : ∀ v ∈ graphValues logic, Reports (Snag logic) (Graph.ofValue v) :=
    fun v hv e he => .inr (.graph hv (Graph.misread_of_ofValue he))
  have hbuy : Graph.pick logic Graph.buyNames ∈ graphValues logic := by simp [graphValues]
  have hsell : Graph.pick logic Graph.sellNames ∈ graphValues logic := by simp [graphValues]
  refine (hread _ hbuy).bind fun buy hb => ?_
  refine (hread _ hsell).bind fun sell hs => ?_
  have hinBuy : ∀ e, buy.Snag e → Snag logic e := fun _ => .within hbuy hb
  have hinSell : ∀ e, sell.Snag e → Snag logic e := fun _ => .within hsell hs
  refine Reports.bind (fun e he => .inr (hinBuy e (Graph.snag_of_checkKeys he))) fun _ _ => ?_
  refine Reports.bind (fun e he => .inr (hinSell e (Graph.snag_of_checkKeys he))) fun _ _ => ?_
  refine ((Graph.reports_compile .buy).mono hinBuy).bind fun ⟨⟨c, periods⟩, order⟩ _ => ?_
  refine ((Graph.reports_compile .sell).mono hinSell).bind fun ⟨⟨c', periods'⟩, order'⟩ _ => ?_
  exact .ok _

/-- A logic that is misshapen never compiles and is never reported: it hits a snag first. -/
theorem exists_snag_of_misshapen (h : Misshapen logic) :
    ∃ e, ofLogic (.object logic) = .error e ∧ Snag logic e := by
  rw [ofLogic_object]
  have hbuy : Graph.pick logic Graph.buyNames ∈ graphValues logic := by simp [graphValues]
  have hsell : Graph.pick logic Graph.sellNames ∈ graphValues logic := by simp [graphValues]
  cases hb : Graph.ofValue (Graph.pick logic Graph.buyNames) with
  | error e => exact ⟨e, rfl, .graph hbuy (Graph.misread_of_ofValue hb)⟩
  | ok buy =>
    cases hs : Graph.ofValue (Graph.pick logic Graph.sellNames) with
    | error e => exact ⟨e, rfl, .graph hsell (Graph.misread_of_ofValue hs)⟩
    | ok sell =>
      -- Both graphs were read, so it is a key that is wrong.
      have hkeys : (∃ e, buy.checkKeys = .error e) ∨ ∃ e, sell.checkKeys = .error e := by
        obtain ⟨v, hv, ⟨e, hmisread⟩ | ⟨g, hg, key, hkey, hwrong⟩⟩ := h
        · obtain ⟨e', he'⟩ := Graph.exists_fault_of_misread hmisread
          simp only [graphValues, List.mem_cons, List.not_mem_nil, or_false] at hv
          rcases hv with rfl | rfl
          · rw [hb] at he'
            cases he'
          · rw [hs] at he'
            cases he'
        · have hfault := Graph.exists_fault_of_not_isKey hkey hwrong
          simp only [graphValues, List.mem_cons, List.not_mem_nil, or_false] at hv
          rcases hv with rfl | rfl
          · obtain rfl := Except.ok.inj (hb.symm.trans hg)
            exact .inl hfault
          · obtain rfl := Except.ok.inj (hs.symm.trans hg)
            exact .inr hfault
      rw [Outcome.ok_bind, Outcome.ok_bind, ofGraphs]
      cases hbuyKeys : buy.checkKeys with
      | error e => exact ⟨e, rfl, .within hbuy hb (Graph.snag_of_checkKeys hbuyKeys)⟩
      | ok u =>
        obtain ⟨e, he⟩ | ⟨e, he⟩ := hkeys
        · rw [hbuyKeys] at he
          cases he
        · exact ⟨e, by rw [he]; rfl, .within hsell hs (Graph.snag_of_checkKeys he)⟩

/-- A snag is never one of the defects that are reported. -/
theorem Snag.ne_compile {e : Fault} (h : Snag logic e) (error : CompileError) :
    e ≠ .compile error := by
  cases h with
  | graph hv h =>
    cases h with
    | graph htruthy h => simp [Fault.fieldsOf]
    | @items f key _ hv' hkey htruthy h =>
      cases hvalue : f.get key <;> rw [hvalue] at h <;> cases h <;> simp [Fault.notIterable]
  | within hv hg h =>
    cases h with
    | node hn h =>
      cases h with
      | label hkind hlabel h => simp [Fault.unhashable]
      | controls htruthy h => simp [Fault.fieldsOf]
      | number hcontrols hname hk hlarge => simp [Fault.tooLargeForFloat]
    | key hv h => simp [Fault.unhashable]
    | source hv h => simp [Fault.unhashable]

end CompiledLogic

end TradingRules
