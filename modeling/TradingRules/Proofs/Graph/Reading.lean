import TradingRules.Logic.Compiled
import TradingRules.Proofs.Value.Names
import TradingRules.Proofs.Value.Outcome
import TradingRules.Proofs.Value.Readings

/-!
# What the parts of a node say

A graph is well named when its ids, kinds and labels are texts or missing, and its controls are
objects or missing. The kind of such a node, the value of a control that is in effect, the numbers
that controls read as, and the order of a terminal are described here by rules, and the functions
that read them are shown to succeed exactly where a rule applies.
-/

namespace TradingRules

namespace Value

/-- A value reads as a whole number when it is one, or when its text is a numeral of one. Null and
truth values never do. -/
def ReadsWhole (k : Int) : Value → Prop
  | .null | .bool _ => False
  | .int n => n = k
  | v => wholeOfText? (Text.strip v.shown) = some k

/-- A value reads as a finite double when it is a number whose nearest double that is, or when its
text is a numeral of it. Null, truth values and NaN never do. -/
def ReadsNumber (x : Float) (v : Value) : Prop :=
  x.isFinite = true ∧ match v with
    | .null | .bool _ | .undefined _ => False
    | .int n => Number.floatOfInt? n = some x
    | .real y => y = x
    | v => Number.readFloat? (Text.strip v.shown) = some x

theorem ReadsWhole.unique {v : Value} {k k' : Int} (h : v.ReadsWhole k) (h' : v.ReadsWhole k') :
    k = k' := by
  cases v <;> simp_all [ReadsWhole]

theorem ReadsNumber.unique {v : Value} {x y : Float} (h : v.ReadsNumber x)
    (h' : v.ReadsNumber y) : x = y := by
  cases v <;> simp_all [ReadsNumber]

end Value

namespace Node

/-- The kind of a node is the one it names, or the one behind its label if it names none. -/
def IsOf (n : Node) (k : NodeKind) : Prop :=
  n.kind = .text k.name ∨
    (n.kind = .null ∨ n.kind = .text "") ∧ ∃ s, n.label = .text s ∧ (s, k) ∈ NodeKind.labels

/-- The value of a control that is in effect: null and the empty text give way to the default. -/
def setting (n : Node) (name : String) (default : Value) : Value :=
  match n.controls with
  | .object f => match Fields.get f name with
    | .null | .text "" => default
    | v => v
  | _ => default

def quantityName (n : Node) : String :=
  if (n.setting "quantity" .null).isNull then "sellPercent" else "quantity"

/-- The order of a terminal: a known type of order, and finite numbers for price and quantity. -/
def Orders (n : Node) (order : OrderData) : Prop :=
  ∃ (orderType : String) (price quantity : Float),
    orderType = Text.lower (Text.strip (n.setting "orderType" (.text "market")).shown) ∧
    orderType ∈ orderTypes ∧
    (n.setting "limitPrice" (.real 0.0)).ReadsNumber price ∧
    (n.setting n.quantityName (.real 0.0)).ReadsNumber quantity ∧
    order = ⟨.text orderType, .real price, .real quantity⟩

structure WellNamed (n : Node) : Prop where
  id : n.id.IsName
  kind : n.kind.IsName
  label : n.label.IsName
  controls : n.controls = .null ∨ ∃ f, n.controls = .object f

/-- The id, the kind and the label of a node are texts or null, whatever its controls are. -/
structure Named (n : Node) : Prop where
  id : n.id.IsName
  kind : n.kind.IsName
  label : n.label.IsName

end Node

/-- The ids, kinds and labels of a graph are texts or null, and its controls objects or null. -/
structure Graph.WellNamed (g : Graph) : Prop where
  nodes : ∀ n ∈ g.nodes, n.WellNamed
  sources : ∀ c ∈ g.connections, c.source.IsName
  targets : ∀ c ∈ g.connections, c.target.IsName


/-! ## Reading as the rules say -/

namespace NodeKind

theorem ofName?_eq_some_iff {s : String} {k : NodeKind} : ofName? s = some k ↔ s = k.name := by
  constructor
  · intro h
    have hs : k.name = s := by simpa using List.find?_some h
    exact hs.symm
  · rintro rfl
    exact ofName?_name k

theorem ofLabel?_eq_some_iff {s : String} {k : NodeKind} :
    ofLabel? s = some k ↔ (s, k) ∈ labels := by
  constructor
  · intro h
    obtain ⟨⟨t, k'⟩, hfound, rfl⟩ := Option.map_eq_some_iff.mp h
    have hs : t = s := by simpa using List.find?_some hfound
    exact hs ▸ List.mem_of_find?_eq_some hfound
  · intro h
    simp only [labels, List.mem_cons, Prod.mk.injEq, List.not_mem_nil, or_false] at h
    rcases h with ⟨rfl, rfl⟩ | ⟨rfl, rfl⟩ | ⟨rfl, rfl⟩ | ⟨rfl, rfl⟩ | ⟨rfl, rfl⟩ | ⟨rfl, rfl⟩ |
      ⟨rfl, rfl⟩ | ⟨rfl, rfl⟩ | ⟨rfl, rfl⟩ | ⟨rfl, rfl⟩ | ⟨rfl, rfl⟩ <;> decide

theorem ofValue?_eq_some_iff {v : Value} {k : NodeKind} :
    ofValue? v = some k ↔ v = .text k.name := by
  cases v <;> simp [ofValue?, ofName?_eq_some_iff]

theorem name_ne_empty (k : NodeKind) : k.name ≠ "" := by
  cases k <;> decide

end NodeKind

namespace Node

variable {n : Node}

theorem WellNamed.named (h : n.WellNamed) : n.Named :=
  ⟨h.id, h.kind, h.label⟩

theorem Named.exists_resolvedKind (h : n.Named) :
    ∃ v, n.resolvedKind = .ok v ∧ ∀ k, v = .text k.name ↔ n.IsOf k := by
  obtain ⟨-, hkind, hlabel⟩ := h
  have hfallback : n.kind = .null ∨ n.kind = .text "" →
      ∃ v, n.resolvedKind = .ok v ∧ ∀ k, v = .text k.name ↔ n.IsOf k := by
    intro hk
    have hnot : n.kind.isTruthy = false := by rcases hk with hk | hk <;> simp [hk]
    have hne : ∀ k : NodeKind, n.kind ≠ .text k.name := by
      intro k
      rcases hk with hk | hk <;> simp [hk, (NodeKind.name_ne_empty k).symm]
    rcases hlabel with hl | ⟨s, hl⟩
    · refine ⟨.null, by simp [resolvedKind, hnot, hl], fun k => ?_⟩
      simp [IsOf, hne k, hl]
    · have hresolved : n.resolvedKind =
          .ok ((NodeKind.ofLabel? s).elim .null fun k => .text k.name) := by
        by_cases hs : s = ""
        · subst hs
          simp only [resolvedKind, hnot, hl, Value.isTruthy_text]
          rfl
        · have htext : (Value.text s).isTruthy = true := by simp [hs]
          simp only [resolvedKind, hnot, hl, htext]
          cases NodeKind.ofLabel? s <;> rfl
      refine ⟨_, hresolved, fun k => ?_⟩
      have hlab : n.IsOf k ↔ NodeKind.ofLabel? s = some k := by
        simp [IsOf, hne k, hl, hk, NodeKind.ofLabel?_eq_some_iff]
      rw [hlab]
      cases hof : NodeKind.ofLabel? s with
      | none => simp
      | some k' => simp [NodeKind.name_injective.eq_iff]
  rcases hkind with hk | ⟨s, hk⟩
  · exact hfallback (.inl hk)
  · by_cases hs : s = ""
    · exact hfallback (.inr (hs ▸ hk))
    · refine ⟨.text s, by simp [resolvedKind, hk, hs], fun k => ?_⟩
      simp [IsOf, hk, hs]

theorem exists_resolvedKind (h : n.WellNamed) :
    ∃ v, n.resolvedKind = .ok v ∧ ∀ k, v = .text k.name ↔ n.IsOf k :=
  h.named.exists_resolvedKind

theorem resolvedKind_iff (h : n.WellNamed) (k : NodeKind) :
    (∃ v, n.resolvedKind = .ok v ∧ NodeKind.ofValue? v = some k) ↔ n.IsOf k := by
  obtain ⟨v, hv, hk⟩ := exists_resolvedKind h
  simp [hv, NodeKind.ofValue?_eq_some_iff, hk]

theorem IsOf.unique (h : n.WellNamed) {k k' : NodeKind} (hk : n.IsOf k) (hk' : n.IsOf k') :
    k = k' := by
  obtain ⟨v, -, hv⟩ := exists_resolvedKind h
  have hname : k.name = k'.name := Value.text.inj (((hv k).mpr hk).symm.trans ((hv k').mpr hk'))
  exact NodeKind.name_injective hname

theorem control_eq (h : n.controls = .null ∨ ∃ f, n.controls = .object f) (name : String)
    (default : Value) : n.control name default = .ok (n.setting name default) := by
  rcases h with hc | ⟨f, hc⟩
  · simp [control, setting, hc, Value.isTruthy]
  · cases f with
    | nil => simp [control, setting, hc, Value.isTruthy, Fields.get, Fields.get?]
    | cons x f =>
      simp only [control, setting, hc, Value.isTruthy, Value.asFields]
      rfl

/-- A whole number is read off a control exactly if its value reads as one. -/
theorem wholeControl_eq_ok {name : String} {default : Value} {graph : Option String} {k : Int} :
    n.wholeControl name default graph = .ok k ↔
      ∃ raw, n.control name default = .ok raw ∧ raw.ReadsWhole k := by
  rw [wholeControl, Outcome.bind_eq_ok]
  refine exists_congr fun raw => and_congr_right fun _ => ?_
  cases raw <;> simp [Value.ReadsWhole] <;> split <;> simp_all

theorem wholeControl_eq_ok_iff (h : n.WellNamed) {name : String} {default : Value}
    {graph : Option String} {k : Int} :
    n.wholeControl name default graph = .ok k ↔ (n.setting name default).ReadsWhole k := by
  simp [wholeControl_eq_ok, control_eq h.controls]

theorem finite_or_defect_eq_ok_iff {graph : Option String} {d : Defect} {x y : Float} :
    (if y.isFinite then .ok y else Fault.defect graph d : Outcome Float) = .ok x ↔
      x.isFinite = true ∧ y = x := by
  rw [Fault.guarded_eq_ok_iff]
  constructor <;> rintro ⟨h, rfl⟩ <;> exact ⟨h, rfl⟩

/-- A double is read off a control exactly if its value reads as one. -/
theorem decimalControl_eq_ok {name : String} {default : Value} {graph : Option String}
    {x : Float} : n.decimalControl name default graph = .ok x ↔
      ∃ raw, n.control name default = .ok raw ∧ raw.ReadsNumber x := by
  rw [decimalControl, Outcome.bind_eq_ok]
  refine exists_congr fun raw => and_congr_right fun _ => ?_
  cases raw with
  | null | bool b => simp [Value.ReadsNumber]
  | int k => simp [Value.ReadsNumber, Outcome.bind_eq_ok, Value.toFloat_int_eq_ok_iff, and_comm]
  | real y => exact finite_or_defect_eq_ok_iff
  | undefined mark => simp [Value.ReadsNumber, isFinite_nan]
  | text s | list items | object fields =>
    simp only [Value.ReadsNumber]
    cases Number.readFloat? (Text.strip _) with
    | none => simp
    | some y =>
      rw [Option.some.injEq]
      exact finite_or_defect_eq_ok_iff

theorem decimalControl_eq_ok_iff (h : n.WellNamed) {name : String} {default : Value}
    {graph : Option String} {x : Float} :
    n.decimalControl name default graph = .ok x ↔ (n.setting name default).ReadsNumber x := by
  simp [decimalControl_eq_ok, control_eq h.controls]

/-- The order of a terminal is read exactly when its controls describe one. -/
theorem ofNode_eq_ok_iff (h : n.WellNamed) {graph : Option String} {order : OrderData} :
    OrderData.ofNode n graph = .ok order ↔ n.Orders order := by
  have hname : (if (n.setting "quantity" .null).isNull = true then "sellPercent" else "quantity") =
      n.quantityName := rfl
  simp only [OrderData.ofNode, control_eq h.controls, Outcome.ok_bind, hname, Outcome.pure_eq_ok]
  constructor
  · intro hok
    split at hok
    · simp at hok
    · rename_i htype
      obtain ⟨price, hprice, hok⟩ := Outcome.bind_eq_ok.mp hok
      obtain ⟨quantity, hquantity, hok⟩ := Outcome.bind_eq_ok.mp hok
      exact ⟨_, price, quantity, rfl, by simpa using htype, (decimalControl_eq_ok_iff h).mp hprice,
        (decimalControl_eq_ok_iff h).mp hquantity, (Except.ok.inj hok).symm⟩
  · rintro ⟨orderType, price, quantity, rfl, htype, hprice, hquantity, rfl⟩
    rw [if_neg (by simpa using htype), (decimalControl_eq_ok_iff h).mpr hprice, Outcome.ok_bind,
      (decimalControl_eq_ok_iff h).mpr hquantity, Outcome.ok_bind]

end Node

end TradingRules
