import TradingRules.Proofs.Graph.Unfolding
import TradingRules.Proofs.Lists
import TradingRules.Proofs.Logic.Snags
import TradingRules.Proofs.Value.Marks

/-!
# Copies of a logic

A copy of a logic differs from it in the marks of NaNs only, and almost everything that is read of a
logic is the same for every mark. But nodes are looked up by their ids, and a NaN that stands for a
node at several places is told apart at each of them in the copy. So a logic that compiles has a
copy that compiles to the same, unless one of the ids that lead to a terminal is NaN.
-/

namespace TradingRules

open Market (Period)

namespace Value

variable {v w : Value}

theorem Alike.readsWhole_iff (h : v.Alike w) {k : Int} : v.ReadsWhole k ↔ w.ReadsWhole k := by
  have hshown := h.shown_eq
  obtain rfl | ⟨m, n, rfl, rfl⟩ | ⟨items, others, rfl, rfl, -⟩ | ⟨f, g, rfl, rfl, -⟩ := h.cases
  · rfl
  all_goals simp only [ReadsWhole, hshown]

theorem Alike.readsNumber_iff (h : v.Alike w) {x : Float} :
    v.ReadsNumber x ↔ w.ReadsNumber x := by
  have hshown := h.shown_eq
  obtain rfl | ⟨m, n, rfl, rfl⟩ | ⟨items, others, rfl, rfl, -⟩ | ⟨f, g, rfl, rfl, -⟩ := h.cases
  · rfl
  · rfl
  all_goals simp only [ReadsNumber, hshown]

theorem Alike.ofValue?_eq (h : v.Alike w) : NodeKind.ofValue? v = NodeKind.ofValue? w := by
  obtain rfl | ⟨m, n, rfl, rfl⟩ | ⟨items, others, rfl, rfl, -⟩ | ⟨f, g, rfl, rfl, -⟩ := h.cases <;>
    rfl

end Value

namespace Node

/-- Two nodes differ in marks at most, as far as they are read. -/
structure Resembles (n m : Node) : Prop where
  id : n.id.Alike m.id
  kind : n.kind.Alike m.kind
  label : n.label.Alike m.label
  controls : n.controls.Alike m.controls

namespace Resembles

variable {n m : Node} (h : n.Resembles m)

include h

theorem exists_resolvedKind {v : Value} (hv : n.resolvedKind = .ok v) :
    ∃ w, m.resolvedKind = .ok w ∧ v.Alike w := by
  rw [resolvedKind] at hv ⊢
  rw [← h.kind.isTruthy_eq, ← h.label.isTruthy_eq]
  by_cases hkind : n.kind.isTruthy = true
  · rw [if_pos hkind] at hv ⊢
    exact ⟨m.kind, rfl, Except.ok.inj hv ▸ h.kind⟩
  · rw [if_neg hkind] at hv ⊢
    by_cases hlabel : (!n.label.isTruthy) = true
    · rw [if_pos hlabel] at hv ⊢
      exact ⟨v, hv, rfl⟩
    · rw [if_neg hlabel] at hv ⊢
      obtain hsame | ⟨k, l, hn, hm⟩ | ⟨items, others, hn, -⟩ | ⟨f, g, hn, -⟩ := h.label.cases
      · rw [← hsame]
        exact ⟨v, hv, rfl⟩
      · rw [hn] at hv
        rw [hm]
        exact ⟨v, hv, rfl⟩
      · rw [hn] at hv
        cases hv
      · rw [hn] at hv
        cases hv

theorem exists_control {name : String} {default v : Value} (hv : n.control name default = .ok v) :
    ∃ w, m.control name default = .ok w ∧ v.Alike w := by
  rw [control] at hv ⊢
  rw [← h.controls.isTruthy_eq]
  by_cases hcontrols : (!n.controls.isTruthy) = true
  · rw [if_pos hcontrols] at hv ⊢
    exact ⟨v, hv, rfl⟩
  · rw [if_neg hcontrols] at hv ⊢
    obtain ⟨f, hf, hv⟩ := Outcome.bind_eq_ok.mp hv
    obtain ⟨g, hg, hfields⟩ := h.controls.exists_asFields hf
    have hgiven := Value.alike_get hfields name
    rw [hg, Outcome.ok_bind]
    generalize f.get name = a at hv hgiven
    generalize g.get name = b at hgiven
    obtain rfl | ⟨k, l, rfl, rfl⟩ | ⟨items, others, rfl, rfl, -⟩ | ⟨f, g, rfl, rfl, -⟩ :=
      hgiven.cases
    · exact ⟨v, hv, rfl⟩
    all_goals exact ⟨_, rfl, Except.ok.inj hv ▸ hgiven⟩

theorem wholeControl_eq {name : String} {default : Value} {graph : Option String} {k : Int}
    (hk : n.wholeControl name default graph = .ok k) :
    m.wholeControl name default graph = .ok k := by
  obtain ⟨raw, hraw, hreads⟩ := wholeControl_eq_ok.mp hk
  obtain ⟨other, hother, halike⟩ := h.exists_control hraw
  exact wholeControl_eq_ok.mpr ⟨other, hother, halike.readsWhole_iff.mp hreads⟩

theorem decimalControl_eq {name : String} {default : Value} {graph : Option String} {x : Float}
    (hx : n.decimalControl name default graph = .ok x) :
    m.decimalControl name default graph = .ok x := by
  obtain ⟨raw, hraw, hreads⟩ := decimalControl_eq_ok.mp hx
  obtain ⟨other, hother, halike⟩ := h.exists_control hraw
  exact decimalControl_eq_ok.mpr ⟨other, hother, halike.readsNumber_iff.mp hreads⟩

theorem operatorOf_eq {graph default : String} {kind : NodeKind} {id operator : Value}
    {read? : String → Option String}
    (hoperator : n.operatorOf graph kind id default read? = .ok operator) :
    m.operatorOf graph kind id default read? = .ok operator := by
  obtain ⟨raw, hraw, hread⟩ := Outcome.bind_eq_ok.mp hoperator
  obtain ⟨other, hother, halike⟩ := h.exists_control hraw
  rw [operatorOf, hother, Outcome.ok_bind, ← halike.shown_eq]
  split at hread
  · exact hread
  · obtain ⟨given, -, hread⟩ := Outcome.bind_eq_ok.mp hread
    exact absurd hread (Fault.defect_ne_ok _ _ _)

theorem supplier_eq {graph : String} {periods : List Period} {kind : NodeKind} {leaf : WithPeriods}
    (hleaf : n.supplier graph periods kind = .ok (some leaf)) :
    m.supplier graph periods kind = .ok (some leaf) := by
  cases kind with
  | const =>
    obtain ⟨x, hx, hleaf⟩ := Outcome.bind_eq_ok.mp hleaf
    rw [supplier, h.decimalControl_eq hx]
    exact hleaf
  | highestPrice =>
    obtain ⟨p, hp, hleaf⟩ := Outcome.bind_eq_ok.mp hleaf
    obtain ⟨k, raw, hk, hpos, hraw, hunit, rfl⟩ := highestPeriod_eq_ok_iff.mp hp
    obtain ⟨other, hother, halike⟩ := h.exists_control hraw
    rw [halike.shown_eq] at hunit hleaf
    rw [supplier, highestPeriod_eq_ok_iff.mpr
      ⟨k, other, h.wholeControl_eq hk, hpos, hother, hunit, rfl⟩]
    exact hleaf
  | sma =>
    obtain ⟨c, hc, hleaf⟩ := Outcome.bind_eq_ok.mp hleaf
    obtain ⟨k, hk, hfrom, hto, rfl⟩ := averageCondition_eq_ok_iff.mp hc
    rw [supplier, averageCondition_eq_ok_iff.mpr ⟨k, h.wholeControl_eq hk, hfrom, hto, rfl⟩]
    exact hleaf
  | currentPrice | rsi | roi | compare | logicOp | buy | sell => exact hleaf

theorem ofNode_eq {graph : Option String} {order : OrderData}
    (horder : OrderData.ofNode n graph = .ok order) : OrderData.ofNode m graph = .ok order := by
  obtain ⟨kind, hkind, horder⟩ := Outcome.bind_eq_ok.mp horder
  obtain ⟨kind', hkind', hshown⟩ := h.exists_control hkind
  rw [OrderData.ofNode, hkind', Outcome.ok_bind, ← hshown.shown_eq]
  dsimp only at horder ⊢
  split at horder
  · simp at horder
  · rename_i hknown
    obtain ⟨price, hprice, horder⟩ := Outcome.bind_eq_ok.mp horder
    obtain ⟨quantity, hquantity, horder⟩ := Outcome.bind_eq_ok.mp horder
    obtain ⟨quantity', hquantity', hnull⟩ := h.exists_control hquantity
    obtain ⟨x, hx, horder⟩ := Outcome.bind_eq_ok.mp horder
    rw [if_neg hknown, h.decimalControl_eq hprice, Outcome.ok_bind, hquantity', Outcome.ok_bind,
      ← hnull.isNull_eq, h.decimalControl_eq hx]
    exact horder

end Resembles

end Node

/-- Two connections lead from and to ends that differ in marks at most. -/
structure Connection.Resembles (c d : Connection) : Prop where
  source : c.source.Alike d.source
  target : c.target.Alike d.target

namespace Graph

/-! ### Ids that lead to a node -/

/-- The id of a node, and the sources of whatever leads to it. -/
inductive LeadsTo (g : Graph) (n : Node) : Value → Prop
  | self : LeadsTo g n n.id
  | source {id v : Value} (h : LeadsTo g n id) (hv : v ∈ g.sources id) : LeadsTo g n v

/-- A NaN leads to a terminal of the graph. -/
def UsesNaN (g : Graph) (kind : NodeKind) : Prop :=
  ∃ n ∈ g.nodes, n.resolvedKind = .ok (.text kind.name) ∧ ∃ v, g.LeadsTo n v ∧ v.IsMarked

variable {g g' : Graph} {name : String} {id referrer : Value} {n m : Node}

theorem not_usesNaN_of_wellNamed (hg : g.WellNamed) (kind : NodeKind) : ¬g.UsesNaN kind := by
  rintro ⟨n, hn, -, v, hv, hmark⟩
  have hname : v.IsName := by
    cases hv with
    | self => exact (hg.nodes n hn).id
    | source _ hv => exact isName_of_mem_sources hg hv
  rcases hname with rfl | ⟨s, rfl⟩ <;> exact hmark

theorem isSame_of_resolve (hn : g.resolve name id referrer = .ok n) :
    id.isKey = true ∧ n.id.isSame id = true := by
  obtain ⟨hkey, hfound⟩ := resolve_eq_ok.mp hn
  exact ⟨hkey, (find?_some hfound).2⟩

theorem isKey_of_resolve (hn : g.resolve name id referrer = .ok n) : n.id.isKey = true := by
  obtain ⟨hkey, hsame⟩ := isSame_of_resolve hn
  by_contra hnot
  rw [Value.isSame_of_not_isKey (by simpa using hnot) hkey] at hsame
  cases hsame

/-- A node has the sources of the id that it is found by. -/
theorem sources_of_resolve (hn : g.resolve name id referrer = .ok n) :
    g.sources n.id = g.sources id := by
  obtain ⟨hkey, hsame⟩ := isSame_of_resolve hn
  simp only [sources, Value.isSame_congr_right (isKey_of_resolve hn) hkey hsame]

theorem Compiles.isKey {unvisited : List Node} {periods : List Period} {result : WithPeriods}
    (h : g.Compiles name id referrer unvisited periods result) : id.isKey = true := by
  cases h with
  | leaf hnode | compare hnode | logicOp hnode => exact (resolve_eq_ok.mp hnode).1

/-! ### Graphs that resemble each other -/

/-- Two graphs differ in marks at most, as far as they are read. -/
structure Resembles (g g' : Graph) : Prop where
  nodes : List.Forall₂ Node.Resembles g.nodes g'.nodes
  connections : List.Forall₂ Connection.Resembles g.connections g'.connections

namespace Resembles

variable (h : g.Resembles g')

include h

theorem forall₂_keys : List.Forall₂ Value.Alike g.keys g'.keys := by
  refine List.rel_append ?_ ?_
  · rw [List.forall₂_map_left_iff, List.forall₂_map_right_iff]
    exact h.nodes.imp fun _ _ hnm => hnm.id
  · rw [List.forall₂_map_left_iff, List.forall₂_map_right_iff]
    refine (List.Forall₂.filter (fun c d hcd => ?_) h.connections).imp fun _ _ hcd => hcd.target
    rw [hcd.source.isNull_eq, hcd.target.isNull_eq]

theorem checkKeys_eq (hkeys : g.checkKeys = .ok ()) : g'.checkKeys = .ok () := by
  rw [checkKeys_eq_ok_iff] at hkeys ⊢
  intro w hw
  obtain ⟨v, hv, halike⟩ := h.forall₂_keys.exists_of_mem hw
  rw [← halike.isKey_eq, hkeys v hv]

section

variable (hkey : id.isKey = true) (hmark : ¬id.IsMarked)

include hkey hmark

theorem forall₂_sources : List.Forall₂ Value.Alike (g.sources id) (g'.sources id) := by
  rw [sources, sources, List.forall₂_map_left_iff, List.forall₂_map_right_iff]
  refine (List.Forall₂.filter (fun c d hcd => ?_) h.connections).imp fun _ _ hcd => hcd.source
  rw [hcd.source.isNull_eq, hcd.target.isNull_eq, hcd.target.isSame_eq hkey hmark]

omit h in
theorem isSame_id_eq (n m : Node) (hnm : n.Resembles m) : n.id.isSame id = m.id.isSame id :=
  hnm.id.isSame_eq hkey hmark

/-- A node that is found is found in the other graph, too, under the same id. -/
theorem exists_resolve (hn : g.resolve name id referrer = .ok n) :
    ∃ m, g'.resolve name id referrer = .ok m ∧ n.Resembles m ∧ m.id = n.id := by
  obtain ⟨-, hfound⟩ := resolve_eq_ok.mp hn
  obtain ⟨m, hm, hnm⟩ := List.Forall₂.exists_find? (isSame_id_eq hkey hmark)
    (List.forall₂_reverse_iff.mpr h.nodes) hfound
  exact ⟨m, resolve_eq_ok.mpr ⟨hkey, hm⟩, hnm, hnm.id.eq_of_isKey (isKey_of_resolve hn)
    (Value.not_isMarked_of_isSame hkey (isSame_of_resolve hn).2 hmark)⟩

end

theorem checkCondition_eq (hmark : ¬id.IsMarked)
    (hcheck : g.checkCondition name id referrer = .ok ()) :
    g'.checkCondition name id referrer = .ok () := by
  obtain ⟨n, hn, hcheck⟩ := Outcome.bind_eq_ok.mp hcheck
  obtain ⟨v, hv, hcheck⟩ := Outcome.bind_eq_ok.mp hcheck
  obtain ⟨m, hm, hnm, -⟩ := h.exists_resolve (resolve_eq_ok.mp hn).1 hmark hn
  obtain ⟨w, hw, halike⟩ := hnm.exists_resolvedKind hv
  rw [checkCondition, hm, Outcome.ok_bind, hw, Outcome.ok_bind, ← halike.ofValue?_eq]
  cases hkind : NodeKind.ofValue? v with
  | none => rfl
  | some k =>
    rw [hkind] at hcheck
    dsimp only at hcheck ⊢
    split at hcheck
    · exact absurd hcheck (Fault.defect_ne_ok _ _ _)
    · rename_i hsupplier
      exact if_neg hsupplier

/-- The operands of a node are those of the node in the other graph, if they can be looked up and
bear no marks. -/
theorem operands_eq (hmark : ¬id.IsMarked) (hn : g.resolve name id referrer = .ok n)
    (hid : m.id = n.id) {a b : Value} (hoperands : g.operands name n = .ok (a, b))
    (ha : a.isKey = true ∧ ¬a.IsMarked) (hb : b.isKey = true ∧ ¬b.IsMarked) :
    g'.operands name m = .ok (a, b) := by
  obtain ⟨hkey, hsame⟩ := isSame_of_resolve hn
  obtain ⟨rest, hs⟩ := operands_eq_ok_iff.mp hoperands
  have hsources := h.forall₂_sources (isKey_of_resolve hn)
    (Value.not_isMarked_of_isSame hkey hsame hmark)
  rw [hs, List.forall₂_cons_left_iff] at hsources
  obtain ⟨a', more, hfirst, hmore, hs'⟩ := hsources
  obtain ⟨b', others, hsecond, -, rfl⟩ := List.forall₂_cons_left_iff.mp hmore
  refine operands_eq_ok_iff.mpr ⟨others, ?_⟩
  rw [hid, hs', hfirst.eq_of_isKey ha.1 ha.2, hsecond.eq_of_isKey hb.1 hb.2]

/-- A node that is met in one graph is met in the other, and is of the same kind there. -/
theorem exists_met (hmark : ¬id.IsMarked) (hn : g.resolve name id referrer = .ok n)
    {unvisited unvisited' : List Node}
    (hunvisited : List.Forall₂ Node.Resembles unvisited unvisited')
    (hmet : unvisited.any (fun m => m.id.isSame id) = true) {v : Value}
    (hkind : n.resolvedKind = .ok v) :
    ∃ m w, g'.resolve name id referrer = .ok m ∧ n.Resembles m ∧ m.id = n.id ∧
      unvisited'.any (fun m => m.id.isSame id) = true ∧ m.resolvedKind = .ok w ∧
      NodeKind.ofValue? w = NodeKind.ofValue? v ∧
      List.Forall₂ Node.Resembles (withoutId unvisited id) (withoutId unvisited' id) := by
  have hkey := (resolve_eq_ok.mp hn).1
  have hsame := isSame_id_eq hkey hmark
  obtain ⟨m, hm, hnm, hid⟩ := h.exists_resolve hkey hmark hn
  obtain ⟨w, hw, halike⟩ := hnm.exists_resolvedKind hkind
  refine ⟨m, w, hm, hnm, hid, ?_, hw, halike.ofValue?_eq.symm, ?_⟩
  · rw [← List.Forall₂.any_eq hsame hunvisited, hmet]
  · exact List.Forall₂.filter (fun n m hnm => congrArg not (hsame n m hnm)) hunvisited

/-- What is derived in a graph is derived in the other one, too, unless a NaN leads there. -/
theorem compiles {terminal : Node} (hmarks : ∀ v, g.LeadsTo terminal v → ¬v.IsMarked)
    {unvisited unvisited' : List Node} {periods : List Period} {result : WithPeriods}
    (hderived : g.Compiles name id referrer unvisited periods result)
    (hleads : g.LeadsTo terminal id)
    (hunvisited : List.Forall₂ Node.Resembles unvisited unvisited') :
    g'.Compiles name id referrer unvisited' periods result := by
  have hoperand : ∀ {id referrer n a b}, g.resolve name id referrer = .ok n →
      g.LeadsTo terminal id → g.operands name n = .ok (a, b) →
      g.LeadsTo terminal a ∧ g.LeadsTo terminal b := by
    intro id referrer n a b hn hleads hoperands
    obtain ⟨rest, hs⟩ := operands_eq_ok_iff.mp hoperands
    rw [sources_of_resolve hn] at hs
    exact ⟨.source hleads (by simp [hs]), .source hleads (by simp [hs])⟩
  induction hderived generalizing unvisited' with
  | leaf hnode hmet hkind hof hleaf =>
    obtain ⟨m, w, hm, hnm, -, hmet', hw, hsame, -⟩ :=
      h.exists_met (hmarks _ hleads) hnode hunvisited hmet hkind
    exact .leaf hm hmet' hw (hsame.trans hof) (hnm.supplier_eq hleaf)
  | compare hnode hmet hkind hof hoperator hoperands hx hy ihx ihy =>
    obtain ⟨m, w, hm, hnm, hid, hmet', hw, hsame, hrest⟩ :=
      h.exists_met (hmarks _ hleads) hnode hunvisited hmet hkind
    obtain ⟨ha, hb⟩ := hoperand hnode hleads hoperands
    have hoperands' := h.operands_eq (hmarks _ hleads) hnode hid hoperands
      ⟨hx.isKey, hmarks _ ha⟩ ⟨hy.isKey, hmarks _ hb⟩
    exact .compare hm hmet' hw (hsame.trans hof) (hnm.operatorOf_eq hoperator) hoperands'
      (hid ▸ ihx ha hrest) (hid ▸ ihy hb hrest)
  | logicOp hnode hmet hkind hof hoperator hoperands hcheckA hx hcheckB hy ihx ihy =>
    obtain ⟨m, w, hm, hnm, hid, hmet', hw, hsame, hrest⟩ :=
      h.exists_met (hmarks _ hleads) hnode hunvisited hmet hkind
    obtain ⟨ha, hb⟩ := hoperand hnode hleads hoperands
    have hoperands' := h.operands_eq (hmarks _ hleads) hnode hid hoperands
      ⟨hx.isKey, hmarks _ ha⟩ ⟨hy.isKey, hmarks _ hb⟩
    exact .logicOp hm hmet' hw (hsame.trans hof) (hnm.operatorOf_eq hoperator) hoperands'
      (hid ▸ h.checkCondition_eq (hmarks _ ha) hcheckA) (hid ▸ ihx ha hrest)
      (hid ▸ h.checkCondition_eq (hmarks _ hb) hcheckB) (hid ▸ ihy hb hrest)

theorem exists_terminal {kind : NodeKind} (hn : g.terminal name kind = .ok n) :
    ∃ m, g'.terminal name kind = .ok m ∧ n.Resembles m := by
  obtain ⟨found, hfound, hn⟩ := Outcome.bind_eq_ok.mp hn
  have hkind : ∀ (n m : Node) (t : Bool), n.Resembles m →
      (do return (← n.resolvedKind) == .text kind.name : Outcome Bool) = .ok t →
      (do return (← m.resolvedKind) == .text kind.name : Outcome Bool) = .ok t := by
    intro n m t hnm ht
    obtain ⟨v, hv, ht⟩ := Outcome.bind_eq_ok.mp ht
    obtain ⟨w, hw, halike⟩ := hnm.exists_resolvedKind hv
    rw [hw, Outcome.ok_bind, ← halike.beq_text_eq]
    exact ht
  obtain ⟨found', hfound', hrelated⟩ := Outcome.exists_filterM hkind h.nodes hfound
  rw [terminal, nodesOfKind, hfound', Outcome.ok_bind]
  cases hrelated with
  | nil => exact absurd hn (Fault.defect_ne_ok _ _ _)
  | @cons n' m _ _ hnm hrest =>
    cases hrest with
    | nil => exact ⟨m, rfl, Except.ok.inj hn ▸ hnm⟩
    | cons => exact absurd hn (Fault.defect_ne_ok _ _ _)

omit h in
theorem resolvedKind_of_terminal {kind : NodeKind} (hn : g.terminal name kind = .ok n) :
    n.resolvedKind = .ok (.text kind.name) := by
  obtain ⟨found, hfound, hn⟩ := Outcome.bind_eq_ok.mp hn
  split at hn
  · exact absurd hn (Fault.defect_ne_ok _ _ _)
  · obtain rfl := Except.ok.inj hn
    obtain ⟨v, hv, htext⟩ :=
      Outcome.bind_eq_ok.mp (Outcome.of_mem_filterM hfound List.mem_cons_self).2
    rw [hv, Value.beq_text_iff.mp (Except.ok.inj htext)]
  · exact absurd hn (Fault.defect_ne_ok _ _ _)

/-- A graph compiles to the same as one that it resembles, unless a NaN leads to its terminal. -/
theorem compile_eq {kind : NodeKind} (hkeys : g.checkKeys = .ok ()) (hunused : ¬g.UsesNaN kind)
    {result : WithPeriods × OrderData} (hok : g.compile name kind = .ok result) :
    g'.compile name kind = .ok result := by
  obtain ⟨n, hn, hok⟩ := Outcome.bind_eq_ok.mp hok
  obtain ⟨order, horder, hok⟩ := Outcome.bind_eq_ok.mp hok
  obtain ⟨m, hm, hnm⟩ := h.exists_terminal hn
  have hmem := mem_nodes_of_terminal hn
  have hmarks : ∀ v, g.LeadsTo n v → ¬v.IsMarked := fun v hv hmark =>
    hunused ⟨n, hmem, resolvedKind_of_terminal hn, v, hv, hmark⟩
  have hkey : n.id.isKey = true :=
    checkKeys_eq_ok_iff.mp hkeys _ (List.mem_append_left _ (List.mem_map_of_mem hmem))
  have hid : m.id = n.id := hnm.id.eq_of_isKey hkey (hmarks _ .self)
  have hsources := h.forall₂_sources hkey (hmarks _ .self)
  rw [compile, hm, Outcome.ok_bind, hnm.ofNode_eq horder, Outcome.ok_bind, hid]
  cases hs : g.sources n.id with
  | nil =>
    rw [hs] at hok
    exact absurd hok (Fault.defect_ne_ok _ _ _)
  | cons source rest =>
    rw [hs] at hok hsources
    obtain ⟨⟨⟩, hcheck, hok⟩ := Outcome.bind_eq_ok.mp hok
    obtain ⟨compiled, hcompiled, hok⟩ := Outcome.bind_eq_ok.mp hok
    have hderived := compiles_of_compileNode hcompiled
    have hleads : g.LeadsTo n source := .source .self (hs ▸ List.mem_cons_self)
    obtain ⟨source', rest', hsame, -, hs'⟩ := List.forall₂_cons_left_iff.mp hsources
    rw [hs', hsame.eq_of_isKey hderived.isKey (hmarks _ hleads)]
    simp only [h.checkCondition_eq (hmarks _ hleads) hcheck, Outcome.ok_bind,
      compileNode_of_compiles (h.compiles hmarks hderived hleads h.nodes)]
    exact hok

end Resembles

/-! ### Reading a copy -/

section

variable {v w : Value}

theorem exists_objectItems (h : v.Alike w) {fs : List Fields} (hfs : v.objectItems = .ok fs) :
    ∃ gs, w.objectItems = .ok gs ∧
      List.Forall₂ (fun f g => Value.unmarkedFields f = Value.unmarkedFields g) fs gs := by
  obtain rfl | ⟨m, n, rfl, rfl⟩ | ⟨items, others, rfl, rfl, hitems⟩ | ⟨f, g, rfl, rfl, -⟩ := h.cases
  · exact ⟨fs, hfs, List.forall₂_same.mpr fun _ _ => rfl⟩
  · cases hfs
  · have hlist : ∀ items, (Value.list items).objectItems = .ok (items.filterMap Value.fields?) :=
      fun items => by cases items <;> rfl
    rw [hlist] at hfs ⊢
    refine ⟨_, rfl, ?_⟩
    obtain rfl := Except.ok.inj hfs
    exact List.rel_filterMap (R := Value.Alike) (fun _ _ => Value.Alike.rel_fields?)
      (Value.forall₂_of_unmarkedItems hitems)
  · have hnames : ∀ f : Fields, (f.map fun p => Value.text p.1).filterMap Value.fields? = [] := by
      intro f
      induction f with
      | nil => rfl
      | cons p rest ih => exact ih
    have hobject : ∀ f, (Value.object f).objectItems = .ok [] := by
      intro f
      cases f with
      | nil => rfl
      | cons p rest => exact congrArg Except.ok (hnames (p :: rest))
    rw [hobject] at hfs ⊢
    obtain rfl := Except.ok.inj hfs
    exact ⟨[], rfl, .nil⟩

theorem exists_ofValue (h : v.Alike w) (hg : ofValue v = .ok g) :
    ∃ g', ofValue w = .ok g' ∧ g.Resembles g' := by
  rw [ofValue] at hg ⊢
  rw [← h.isTruthy_eq]
  by_cases hfalse : (!v.isTruthy) = true
  · rw [if_pos hfalse] at hg ⊢
    obtain rfl := Except.ok.inj hg
    exact ⟨empty, rfl, .nil, .nil⟩
  · rw [if_neg hfalse] at hg ⊢
    obtain ⟨f, hf, hg⟩ := Outcome.bind_eq_ok.mp hg
    obtain ⟨nodes, hnodes, hg⟩ := Outcome.bind_eq_ok.mp hg
    obtain ⟨connections, hconnections, hg⟩ := Outcome.bind_eq_ok.mp hg
    obtain rfl := Except.ok.inj hg
    obtain ⟨f', hf', hfields⟩ := h.exists_asFields hf
    obtain ⟨nodes', hnodes', hlike⟩ := exists_objectItems (Value.alike_get hfields "nodes") hnodes
    obtain ⟨connections', hconnections', hlike'⟩ :=
      exists_objectItems (Value.alike_get hfields "connections") hconnections
    rw [hf', Outcome.ok_bind, hnodes', Outcome.ok_bind, hconnections', Outcome.ok_bind]
    refine ⟨_, rfl, ?_, ?_⟩
    · rw [List.forall₂_map_left_iff, List.forall₂_map_right_iff]
      refine hlike.imp fun f g hfg => ⟨?_, ?_, ?_, ?_⟩ <;> exact Value.alike_get hfg _
    · rw [List.forall₂_map_left_iff, List.forall₂_map_right_iff]
      refine hlike'.imp fun f g hfg => ⟨?_, ?_⟩ <;> exact Value.alike_get hfg _

theorem alike_pick {f g : Fields} (h : Value.unmarkedFields f = Value.unmarkedFields g)
    (names : List String) : (pick f names).Alike (pick g names) := by
  induction names with
  | nil => rfl
  | cons name rest ih =>
    have hfirst := Value.alike_get h name
    have hpick : ∀ f : Fields, pick f (name :: rest) =
        if (f.get name).isTruthy then f.get name else pick f rest := by
      intro f
      simp only [pick, List.map_cons, List.find?_cons]
      split <;> simp_all
    rw [hpick, hpick, hfirst.isTruthy_eq]
    split
    · exact hfirst
    · exact ih

theorem exists_ofLogic (h : v.Alike w) {buy sell : Graph} (hread : ofLogic v = .ok (buy, sell)) :
    ∃ buy' sell', ofLogic w = .ok (buy', sell') ∧ buy.Resembles buy' ∧ sell.Resembles sell' := by
  rw [ofLogic] at hread ⊢
  rw [← h.isTruthy_eq]
  by_cases hfalse : (!v.isTruthy) = true
  · rw [if_pos hfalse] at hread ⊢
    obtain ⟨rfl, rfl⟩ := Prod.mk.inj (Except.ok.inj hread)
    exact ⟨empty, empty, rfl, ⟨.nil, .nil⟩, ⟨.nil, .nil⟩⟩
  · rw [if_neg hfalse] at hread ⊢
    obtain ⟨f, hf, hread⟩ := Outcome.bind_eq_ok.mp hread
    obtain ⟨buy, hbuy, hread⟩ := Outcome.bind_eq_ok.mp hread
    obtain ⟨sell, hsell, hread⟩ := Outcome.bind_eq_ok.mp hread
    obtain ⟨rfl, rfl⟩ := Prod.mk.inj (Except.ok.inj hread)
    obtain ⟨f', hf', hfields⟩ := h.exists_asFields hf
    obtain ⟨buy', hbuy', hlike⟩ := exists_ofValue (alike_pick hfields buyNames) hbuy
    obtain ⟨sell', hsell', hlike'⟩ := exists_ofValue (alike_pick hfields sellNames) hsell
    rw [hf', Outcome.ok_bind, hbuy', Outcome.ok_bind, hsell', Outcome.ok_bind]
    exact ⟨buy', sell', rfl, hlike, hlike'⟩

end

end Graph

namespace CompiledLogic

/-- A NaN leads to a terminal of the logic. -/
def UsesNaN (logic : Value) : Prop :=
  ∃ buy sell, Graph.ofLogic logic = .ok (buy, sell) ∧ (buy.UsesNaN .buy ∨ sell.UsesNaN .sell)

/-- What is like a logic that compiles compiles to the same, unless a NaN leads to a terminal. -/
theorem ofLogic_of_alike {logic copy : Value} (h : logic.Alike copy) {c : CompiledLogic}
    (hcompiled : ofLogic logic = .ok c) (hunused : ¬UsesNaN logic) : ofLogic copy = .ok c := by
  obtain ⟨⟨buy, sell⟩, hread, hcompiled⟩ := Outcome.bind_eq_ok.mp hcompiled
  obtain ⟨buy', sell', hread', hbuy, hsell⟩ := Graph.exists_ofLogic h hread
  obtain ⟨⟨⟩, hbuyKeys, hcompiled⟩ := Outcome.bind_eq_ok.mp hcompiled
  obtain ⟨⟨⟩, hsellKeys, hcompiled⟩ := Outcome.bind_eq_ok.mp hcompiled
  obtain ⟨⟨⟨buyCondition, buyPeriods⟩, buyOrder⟩, hbuyOk, hcompiled⟩ :=
    Outcome.bind_eq_ok.mp hcompiled
  obtain ⟨⟨⟨sellCondition, sellPeriods⟩, sellOrder⟩, hsellOk, hcompiled⟩ :=
    Outcome.bind_eq_ok.mp hcompiled
  have hbuyUnused : ¬buy.UsesNaN .buy := fun hused => hunused ⟨buy, sell, hread, .inl hused⟩
  have hsellUnused : ¬sell.UsesNaN .sell := fun hused => hunused ⟨buy, sell, hread, .inr hused⟩
  rw [ofLogic, hread', Outcome.ok_bind]
  dsimp only
  rw [ofGraphs, hbuy.checkKeys_eq hbuyKeys, Outcome.ok_bind, hsell.checkKeys_eq hsellKeys,
    Outcome.ok_bind, hbuy.compile_eq hbuyKeys hbuyUnused hbuyOk, Outcome.ok_bind]
  dsimp only
  rw [hsell.compile_eq hsellKeys hsellUnused hsellOk]
  exact hcompiled

end CompiledLogic

end TradingRules
