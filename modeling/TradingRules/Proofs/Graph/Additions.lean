import TradingRules.Proofs.Graph.Acceptance
import TradingRules.Proofs.Lists
import TradingRules.Proofs.Logic.Snags

/-!
# Stray additions

What the compiler reads of a graph it accepts are the terminal with its first source, and the nodes
reached from there with the first two sources of each that joins two operands. Whatever else is
added changes nothing: nodes whose ids are not used and that are no terminals, wherever they are
put, and connections behind the others, whatever they connect.
-/

namespace TradingRules

theorem Value.isKey_of_isNull {v : Value} (h : v.isNull = true) : v.isKey = true := by
  cases v <;> simp_all [isNull, isKey]

namespace Graph

open Market (Period)

/-- A graph with stray additions. The nodes that were there keep their order, and the new ones stand
anywhere among them; the new connections come last. -/
structure Adds (kind : NodeKind) (g g' : Graph) (nodes : List Node)
    (connections : List Connection) : Prop where
  kept : g.nodes.Sublist g'.nodes
  perm : g'.nodes.Perm (g.nodes ++ nodes)
  named : ∀ n ∈ nodes, n.Named
  unused : ∀ n ∈ nodes, ∀ m ∈ g.nodes, n.id ≠ m.id
  noTerminal : ∀ n ∈ nodes, ¬ n.IsOf kind
  connections_eq : g'.connections = g.connections ++ connections

theorem any_isSame_of_subset {some more : List Node} (h : some ⊆ more) {id : Value}
    (hmet : some.any (fun n => n.id.isSame id) = true) :
    more.any (fun n => n.id.isSame id) = true := by
  obtain ⟨n, hn, hsame⟩ := List.any_eq_true.mp hmet
  exact List.any_eq_true.mpr ⟨n, h hn, hsame⟩

/-- The last node with an id is the one that is found. -/
theorem find?_eq_getLast? (g : Graph) (id : Value) :
    g.find? id = (g.nodes.filter fun n => n.id.isSame id).getLast? := by
  rw [find?, ← List.head?_filter, List.filter_reverse, List.head?_reverse]

namespace Adds

variable {kind : NodeKind} {g g' : Graph} {nodes : List Node} {connections : List Connection}
  {name : String}

theorem named_nodes (h : g.Adds kind g' nodes connections) (hg : ∀ n ∈ g.nodes, n.Named) :
    ∀ n ∈ g'.nodes, n.Named := by
  intro n hn
  rcases List.mem_append.mp (h.perm.mem_iff.mp hn) with hold | hnew
  · exact hg n hold
  · exact h.named n hnew

theorem find?_eq (h : g.Adds kind g' nodes connections) (hg : ∀ n ∈ g.nodes, n.Named) {id : Value}
    {n : Node} (hn : g.find? id = some n) : g'.find? id = some n := by
  obtain ⟨hmem, hsame⟩ := find?_some hn
  have hid : n.id = id := (Value.isSame_iff_of_isName_left (hg n hmem).id).mp hsame
  have hadded : ∀ m ∈ nodes, m.id.isSame id = false := by
    intro m hm
    rw [Bool.eq_false_iff]
    intro hagain
    have hmid := (Value.isSame_iff_of_isName_left (h.named m hm).id).mp hagain
    exact h.unused m hm n hmem (hmid.trans hid.symm)
  rw [find?_eq_getLast?, List.filter_eq_of_added h.kept h.perm hadded, ← find?_eq_getLast?, hn]

/-- The sources that a node had come first. -/
theorem sources_eq (h : g.Adds kind g' nodes connections) (id : Value) :
    ∃ more, g'.sources id = g.sources id ++ more := by
  simp only [sources, h.connections_eq, List.filter_append, List.map_append]
  exact ⟨_, rfl⟩

theorem resolve_eq (h : g.Adds kind g' nodes connections) (hg : ∀ n ∈ g.nodes, n.Named)
    {id referrer : Value} {n : Node} (hn : g.resolve name id referrer = .ok n) :
    g'.resolve name id referrer = .ok n := by
  obtain ⟨hkey, hfound⟩ := resolve_eq_ok.mp hn
  exact resolve_eq_ok.mpr ⟨hkey, h.find?_eq hg hfound⟩

theorem operands_eq (h : g.Adds kind g' nodes connections) {n : Node} {a b : Value}
    (hoperands : g.operands name n = .ok (a, b)) : g'.operands name n = .ok (a, b) := by
  obtain ⟨rest, hs⟩ := operands_eq_ok_iff.mp hoperands
  obtain ⟨more, hmore⟩ := h.sources_eq n.id
  apply operands_eq_ok_iff.mpr
  exact ⟨rest ++ more, by rw [hmore, hs]; rfl⟩

theorem checkCondition_eq (h : g.Adds kind g' nodes connections) (hg : ∀ n ∈ g.nodes, n.Named)
    {id referrer : Value} (hcheck : g.checkCondition name id referrer = .ok ()) :
    g'.checkCondition name id referrer = .ok () := by
  obtain ⟨n, hn, hcheck⟩ := Outcome.bind_eq_ok.mp hcheck
  rw [checkCondition, h.resolve_eq hg hn]
  exact hcheck

/-- What is derived in a graph is derived with stray additions, too, where there may be more nodes
to visit. -/
theorem compiles (h : g.Adds kind g' nodes connections) (hg : ∀ n ∈ g.nodes, n.Named)
    {id referrer : Value} {unvisited unvisited' : List Node} {periods : List Period}
    {result : WithPeriods} (hderived : g.Compiles name id referrer unvisited periods result)
    (hmore : unvisited ⊆ unvisited') :
    g'.Compiles name id referrer unvisited' periods result := by
  induction hderived generalizing unvisited' with
  | leaf hnode hmet hkind hof hleaf =>
    exact .leaf (h.resolve_eq hg hnode) (any_isSame_of_subset hmore hmet) hkind hof hleaf
  | compare hnode hmet hkind hof hoperator hoperands hx hy ihx ihy =>
    exact .compare (h.resolve_eq hg hnode) (any_isSame_of_subset hmore hmet) hkind hof hoperator
      (h.operands_eq hoperands) (ihx (List.filter_subset _ hmore))
      (ihy (List.filter_subset _ hmore))
  | logicOp hnode hmet hkind hof hoperator hoperands hcheckA hx hcheckB hy ihx ihy =>
    exact .logicOp (h.resolve_eq hg hnode) (any_isSame_of_subset hmore hmet) hkind hof hoperator
      (h.operands_eq hoperands) (h.checkCondition_eq hg hcheckA) (ihx (List.filter_subset _ hmore))
      (h.checkCondition_eq hg hcheckB) (ihy (List.filter_subset _ hmore))

theorem terminal_eq (h : g.Adds kind g' nodes connections) (hg : ∀ n ∈ g.nodes, n.Named) :
    g'.terminal name kind = g.terminal name kind := by
  classical
  have hfilter := List.filter_eq_of_added h.kept h.perm (p := fun n => decide (n.IsOf kind))
    fun n hn => decide_eq_false (h.noTerminal n hn)
  rw [terminal, terminal, nodesOfKind_eq_of_named (h.named_nodes hg), nodesOfKind_eq_of_named hg,
    hfilter]

/-- All nodes and connections can be looked up when that holds of the new connections. -/
theorem checkKeys_eq_ok_iff (h : g.Adds kind g' nodes connections)
    (hkeys : g.checkKeys = .ok ()) :
    g'.checkKeys = .ok () ↔
      ∀ c ∈ connections, c.source.isNull = false → c.target.isKey = true := by
  rw [Graph.checkKeys_eq_ok_iff] at hkeys ⊢
  constructor
  · intro hall c hc hsource
    by_cases htarget : c.target.isNull = true
    · exact Value.isKey_of_isNull htarget
    · apply hall
      refine List.mem_append_right _ (List.mem_map_of_mem (List.mem_filter.mpr ⟨?_, ?_⟩))
      · exact h.connections_eq ▸ List.mem_append_right _ hc
      · simp [hsource, htarget]
  · intro hall v hv
    rw [keys, h.connections_eq, List.filter_append, List.map_append] at hv
    rcases List.mem_append.mp hv with hv | hv
    · obtain ⟨n, hn, rfl⟩ := List.mem_map.mp hv
      rcases List.mem_append.mp (h.perm.mem_iff.mp hn) with hold | hnew
      · exact hkeys _ (List.mem_append_left _ (List.mem_map_of_mem hold))
      · exact Value.isKey_of_isName (h.named n hnew).id
    · rcases List.mem_append.mp hv with hold | hnew
      · exact hkeys v (List.mem_append_right _ hold)
      · obtain ⟨c, hc, rfl⟩ := List.mem_map.mp hnew
        obtain ⟨hc, hends⟩ := List.mem_filter.mp hc
        exact hall c hc (by simp_all)

end Adds

/-- Stray additions change nothing. A graph that compiles, and whose ids, kinds and labels are texts
or null, compiles with them to the same condition, the same periods and the same order, whatever the
new connections are. They only have to be ones that can be looked up. -/
theorem stray_additions_change_nothing {kind : NodeKind} {g g' : Graph} {nodes : List Node}
    {connections : List Connection} {name : String} {result : WithPeriods} {order : OrderData}
    (hg : ∀ n ∈ g.nodes, n.Named) (hadds : g.Adds kind g' nodes connections)
    (hkeys : g.checkKeys = .ok ()) (hok : g.compile name kind = .ok (result, order)) :
    g'.compile name kind = .ok (result, order) ∧
      (g'.checkKeys = .ok () ↔
        ∀ c ∈ connections, c.source.isNull = false → c.target.isKey = true) := by
  refine ⟨?_, hadds.checkKeys_eq_ok_iff hkeys⟩
  obtain ⟨terminal, hterminal, hok⟩ := Outcome.bind_eq_ok.mp hok
  obtain ⟨order', horder, hok⟩ := Outcome.bind_eq_ok.mp hok
  rw [compile, hadds.terminal_eq hg, hterminal, Outcome.ok_bind, horder, Outcome.ok_bind]
  cases hs : g.sources terminal.id with
  | nil => simp [hs] at hok
  | cons source rest =>
    rw [hs] at hok
    obtain ⟨⟨⟩, hcheck, hok⟩ := Outcome.bind_eq_ok.mp hok
    obtain ⟨result', hresult, hok⟩ := Outcome.bind_eq_ok.mp hok
    have hderived := hadds.compiles hg (compiles_of_compileNode hresult) hadds.kept.subset
    obtain ⟨more, hmore⟩ := hadds.sources_eq terminal.id
    rw [hmore, hs, List.cons_append]
    simp only [hadds.checkCondition_eq hg hcheck, Outcome.ok_bind, compileNode_of_compiles hderived]
    exact hok

/-- A seller in front, a node of no known kind with odd controls, and a connective of its own. -/
def strayNodes : List Node :=
  [plainNode "sale" "sell", { plainNode "odd" "ratio" with controls := .int 5 },
    plainNode "spare" "logicOp"]

/-- A second source of the terminal, a third one of a comparison that no node has, a cycle, and a
connection out of the terminal. -/
def strayConnections : List Connection :=
  [plainConnection "spare" "order", plainConnection "gone" "above",
    plainConnection "spare" "spare", plainConnection "order" "price"]

def busyGraph : Graph :=
  { sharedGraph with
    nodes := strayNodes.take 2 ++ sharedGraph.nodes ++ strayNodes.drop 2
    connections := sharedGraph.connections ++ strayConnections }

theorem busyGraph_adds : sharedGraph.Adds .buy busyGraph strayNodes strayConnections where
  kept := (List.sublist_append_right _ _).trans (List.sublist_append_left _ _)
  perm := by
    have hswap : (strayNodes.take 2 ++ sharedGraph.nodes).Perm
        (sharedGraph.nodes ++ strayNodes.take 2) := List.perm_append_comm
    exact (hswap.append_right _).trans (by rw [List.append_assoc, List.take_append_drop])
  named := by
    intro n hn
    simp only [strayNodes, List.mem_cons, List.not_mem_nil, or_false] at hn
    rcases hn with rfl | rfl | rfl <;> exact ⟨.inr ⟨_, rfl⟩, .inr ⟨_, rfl⟩, .inl rfl⟩
  unused := by simp [strayNodes, sharedGraph, plainNode]
  noTerminal := by simp [strayNodes, plainNode, Node.IsOf, NodeKind.name]
  connections_eq := rfl

/-- The additions to the graph with the shared comparison leave its condition as it was. -/
theorem busyGraph_compiles : (∀ n ∈ sharedGraph.nodes, n.Named) ∧ sharedGraph.checkKeys = .ok () ∧
    sharedGraph.compile "buyGraph" .buy = .ok ((sharedCondition, []), {}) ∧
    busyGraph.compile "buyGraph" .buy = .ok ((sharedCondition, []), {}) := by
  have hnamed : ∀ n ∈ sharedGraph.nodes, n.Named :=
    fun n hn => (sharedGraph_wellNamed.nodes n hn).named
  have hkeys : sharedGraph.checkKeys = .ok () := rfl
  exact ⟨hnamed, hkeys, compile_sharedGraph,
    (stray_additions_change_nothing hnamed busyGraph_adds hkeys compile_sharedGraph).1⟩

end Graph

end TradingRules
