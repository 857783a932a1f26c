import TradingRules.Proofs.Graph.Acceptance
import TradingRules.Proofs.Logic.Snags
import Mathlib.Data.List.Nodup

/-!
# Reordered graphs

Where the ids of the nodes are distinct texts, the order in which nodes and connections were saved
counts for nothing but the order of operands. A graph and a reordering of it, which keeps the order
of the connections into each node, compile to the same, or they fail in the same way at the same
node. Only the message may differ, which lists what was found in the order of the nodes.
-/

namespace TradingRules

open Market (Period)

/-- The node that a defect is about, null if it is about none; other faults are about no node. -/
def Fault.node? : Fault → Option Value
  | .compile error => some error.defect.node
  | _ => none

namespace Outcome

variable {α β : Type}

/-- Two outcomes with the same value, or two failures of the same kind that are about the same
node. -/
inductive Alike : Outcome α → Outcome α → Prop
  | ok (a : α) : Alike (.ok a) (.ok a)
  | error {e e' : Fault} (hkind : e.kind = e'.kind) (hnode : e.node? = e'.node?) :
      Alike (.error e) (.error e')

namespace Alike

theorem refl (x : Outcome α) : Alike x x := by
  cases x with
  | ok a => exact .ok a
  | error e => exact .error rfl rfl

theorem bind {x y : Outcome α} {f f' : α → Outcome β} (h : Alike x y)
    (hf : ∀ a, x = .ok a → Alike (f a) (f' a)) : Alike (x >>= f) (y >>= f') := by
  cases h with
  | ok a => exact hf a rfl
  | error hkind hnode => exact .error hkind hnode

theorem bind_refl (x : Outcome α) {f f' : α → Outcome β}
    (hf : ∀ a, x = .ok a → Alike (f a) (f' a)) : Alike (x >>= f) (x >>= f') :=
  (refl x).bind hf

theorem eq_ok {a : α} {y : Outcome α} (h : Alike (.ok a) y) : y = .ok a := by
  cases h
  rfl

theorem unhashable (v w : Value) :
    Alike (.error (.unhashable v) : Outcome α) (.error (.unhashable w)) :=
  .error rfl rfl

end Alike

/-- Filters of a list in two orders keep the same, or each stops at some item. -/
theorem filterM_perm {p : α → Outcome Bool} {l l' : List α} (hperm : l'.Perm l) :
    (∃ out out', l.filterM p = .ok out ∧ l'.filterM p = .ok out' ∧ out'.Perm out) ∨
      ∃ a e a' e', p a = .error e ∧ p a' = .error e' ∧ l.filterM p = .error e ∧
        l'.filterM p = .error e' := by
  rcases filterM_cases p l with ⟨q, hq, hout⟩ | ⟨a, ha, e, he, hstop⟩
  · have hq' : ∀ a ∈ l', p a = .ok (q a) := fun a ha => hq a (hperm.mem_iff.mp ha)
    exact .inl ⟨_, _, hout, filterM_eq_ok hq', hperm.filter q⟩
  · rcases filterM_cases p l' with ⟨q, hq, -⟩ | ⟨a', -, e', he', hstop'⟩
    · rw [hq a (hperm.mem_iff.mpr ha)] at he
      cases he
    · exact .inr ⟨a, e, a', e', he, he', hstop, hstop'⟩

end Outcome

open Outcome (Alike)

theorem Node.exists_unhashable_of_resolvedKind {n : Node} {e : Fault}
    (h : n.resolvedKind = .error e) : ∃ v, e = .unhashable v := by
  unfold resolvedKind at h
  split at h
  · cases h
  · split at h
    · cases h
    · split at h
      · cases h
      · split at h
        · cases h
        · exact ⟨_, (Except.error.inj h).symm⟩

namespace Graph

/-- The ids of the nodes are texts, and no two of them are the same. -/
structure Distinct (g : Graph) : Prop where
  texts : ∀ n ∈ g.nodes, ∃ s, n.id = .text s
  nodup : (g.nodes.map (·.id)).Nodup

/-- A graph with its nodes and its connections in another order, where the connections into one node
follow each other as before. -/
structure Reordered (g g' : Graph) : Prop where
  nodes : g'.nodes.Perm g.nodes
  connections : g'.connections.Perm g.connections
  order : ∀ id : String, g'.connections.filter (fun c => c.target.isSame (.text id)) =
    g.connections.filter fun c => c.target.isSame (.text id)

variable {g g' : Graph} {name : String}

theorem Distinct.find?_eq_some_iff (hg : g.Distinct) {id : Value} {n : Node} :
    g.find? id = some n ↔ n ∈ g.nodes ∧ n.id = id := by
  have hsame : ∀ m ∈ g.nodes, m.id.isSame id = true ↔ m.id = id :=
    fun m hm => Value.isSame_iff_of_isName_left (.inr (hg.texts m hm))
  constructor
  · intro h
    obtain ⟨hn, hid⟩ := find?_some h
    exact ⟨hn, (hsame n hn).mp hid⟩
  · rintro ⟨hn, hid⟩
    cases hfound : g.find? id with
    | none =>
      have hnot := List.find?_eq_none.mp hfound n (List.mem_reverse.mpr hn)
      exact absurd ((hsame n hn).mpr hid) hnot
    | some m =>
      obtain ⟨hm, hmid⟩ := find?_some hfound
      rw [List.inj_on_of_nodup_map hg.nodup hm hn (((hsame m hm).mp hmid).trans hid.symm)]

namespace Reordered

theorem distinct (h : g.Reordered g') (hg : g.Distinct) : g'.Distinct where
  texts n hn := hg.texts n (h.nodes.mem_iff.mp hn)
  nodup := (h.nodes.map _).nodup_iff.mpr hg.nodup

theorem find?_eq (h : g.Reordered g') (hg : g.Distinct) (id : Value) :
    g'.find? id = g.find? id := by
  apply Option.ext
  intro n
  rw [(h.distinct hg).find?_eq_some_iff, hg.find?_eq_some_iff, h.nodes.mem_iff]

theorem sources_eq (h : g.Reordered g') (hg : g.Distinct) {n : Node} (hn : n ∈ g.nodes) :
    g'.sources n.id = g.sources n.id := by
  obtain ⟨s, hs⟩ := hg.texts n hn
  have hfilter (k : Graph) : k.sources n.id =
      ((k.connections.filter fun c => c.target.isSame (.text s)).filter
        fun c => !c.source.isNull && !c.target.isNull).map (·.source) := by
    simp only [sources, hs, List.filter_filter]
  rw [hfilter, hfilter, h.order]

theorem resolve_eq (h : g.Reordered g') (hg : g.Distinct) (id referrer : Value) :
    g'.resolve name id referrer = g.resolve name id referrer := by
  rw [resolve, resolve, h.find?_eq hg]

theorem checkCondition_eq (h : g.Reordered g') (hg : g.Distinct) (id referrer : Value) :
    g'.checkCondition name id referrer = g.checkCondition name id referrer := by
  rw [checkCondition, checkCondition, h.resolve_eq hg]

theorem operands_eq (h : g.Reordered g') (hg : g.Distinct) {n : Node} (hn : n ∈ g.nodes) :
    g'.operands name n = g.operands name n := by
  rw [operands, operands, h.sources_eq hg hn]

/-- A node compiles alike in the two graphs, since the nodes that are left to visit only count as a
set. -/
theorem compileNode_alike (h : g.Reordered g') (hg : g.Distinct) {id referrer : Value}
    {unvisited unvisited' : List Node} (hperm : unvisited'.Perm unvisited) (periods : List Period) :
    Alike (g.compileNode name id referrer unvisited periods)
      (g'.compileNode name id referrer unvisited' periods) := by
  -- Every visit takes a node away, so the induction is on the number of those that are left.
  induction hlen : unvisited.length using Nat.strongRecOn
    generalizing id referrer unvisited unvisited' periods with
  | _ len ih =>
    rw [compileNode, compileNode, h.resolve_eq hg]
    refine Alike.bind_refl _ fun n hresolved => ?_
    have hn := mem_nodes_of_resolve hresolved
    have hany : unvisited'.any (fun m => m.id.isSame id) =
        unvisited.any fun m => m.id.isSame id := hperm.any_eq
    by_cases hmet : unvisited.any (fun m => m.id.isSame id) = true
    · rw [dif_pos hmet, dif_pos (hany.trans hmet)]
      have hless : (withoutId unvisited id).length < len := hlen ▸ length_withoutId_lt hmet
      have hrest : (withoutId unvisited' id).Perm (withoutId unvisited id) := hperm.filter _
      refine Alike.bind_refl _ fun v _ => ?_
      cases NodeKind.ofValue? v with
      | none => exact .refl _
      | some kind =>
        cases kind with
        | compare =>
          simp only [h.operands_eq hg hn]
          refine Alike.bind_refl _ fun operator _ => Alike.bind_refl _ ?_
          rintro ⟨a, b⟩ -
          apply Alike.bind (ih _ hless hrest _ rfl)
          rintro ⟨x, between⟩ -
          apply Alike.bind (ih _ hless hrest _ rfl)
          rintro ⟨y, rest⟩ -
          exact .ok _
        | logicOp =>
          simp only [h.operands_eq hg hn, h.checkCondition_eq hg]
          refine Alike.bind_refl _ fun operator _ => Alike.bind_refl _ ?_
          rintro ⟨a, b⟩ -
          refine Alike.bind_refl _ fun _ _ => ?_
          apply Alike.bind (ih _ hless hrest _ rfl)
          rintro ⟨x, between⟩ -
          refine Alike.bind_refl _ fun _ _ => ?_
          apply Alike.bind (ih _ hless hrest _ rfl)
          rintro ⟨y, rest⟩ -
          exact .ok _
        | const | currentPrice | highestPrice | rsi | roi | sma | buy | sell => exact .refl _
    · rw [dif_neg hmet, dif_neg (by rw [hany]; exact hmet)]
      exact .refl _

theorem checkKeys_alike (h : g.Reordered g') : Alike g.checkKeys g'.checkKeys := by
  have hkeys : g'.keys.Perm g.keys :=
    (h.nodes.map _).append ((h.connections.filter _).map _)
  cases hchecked : g.checkKeys with
  | ok u =>
    have hchecked' : g'.checkKeys = .ok () := checkKeys_eq_ok_iff.mpr fun v hv =>
      checkKeys_eq_ok_iff.mp hchecked v (hkeys.mem_iff.mp hv)
    rw [hchecked']
    exact .ok u
  | error e =>
    obtain ⟨v, hv, rfl⟩ := checkKeys_eq_error_iff.mp hchecked
    have hmem := hkeys.mem_iff.mpr (List.mem_of_find?_eq_some hv)
    obtain ⟨e', he'⟩ := exists_fault_of_not_isKey hmem (by simpa using List.find?_some hv)
    obtain ⟨w, -, rfl⟩ := checkKeys_eq_error_iff.mp he'
    rw [he']
    exact .unhashable v w

theorem terminal_alike (h : g.Reordered g') (kind : NodeKind) :
    Alike (g.terminal name kind) (g'.terminal name kind) := by
  rcases Outcome.filterM_perm h.nodes with
    ⟨out, out', hout, hout', hperm⟩ | ⟨n, e, n', e', hn, hn', hstop, hstop'⟩
  · rw [terminal, terminal, nodesOfKind, nodesOfKind, hout, hout', Outcome.ok_bind, Outcome.ok_bind]
    have hlength := hperm.length_eq
    rcases out with _ | ⟨n, _ | ⟨m, rest⟩⟩
    · rw [List.perm_nil.mp hperm]
      exact .refl _
    · rw [List.perm_singleton.mp hperm]
      exact .refl _
    · rcases out' with _ | ⟨n', _ | ⟨m', rest'⟩⟩
      · simp at hlength
      · simp at hlength
      · exact .error rfl rfl
  · have hlabel {n : Node} {e : Fault}
        (he : (do return (← n.resolvedKind) == .text kind.name : Outcome Bool) = .error e) :
        ∃ v, e = .unhashable v := by
      cases hkind : n.resolvedKind with
      | ok v =>
        rw [hkind] at he
        cases he
      | error e' =>
        rw [hkind] at he
        cases he
        exact Node.exists_unhashable_of_resolvedKind hkind
    obtain ⟨v, rfl⟩ := hlabel hn
    obtain ⟨v', rfl⟩ := hlabel hn'
    rw [terminal, terminal, nodesOfKind, nodesOfKind, hstop, hstop', Outcome.error_bind,
      Outcome.error_bind]
    exact .unhashable v v'

end Reordered

/-- The order in which a graph was saved does not matter, but for the order of operands. Where the
ids are distinct texts, a reordering that keeps the order of the connections into each node compiles
to the same condition with the same periods and the same order, or it fails with the same kind of
fault about the same node. -/
theorem reordering_changes_nothing {kind : NodeKind} (hg : g.Distinct) (h : g.Reordered g') :
    Alike g.checkKeys g'.checkKeys ∧ Alike (g.compile name kind) (g'.compile name kind) := by
  refine ⟨h.checkKeys_alike, (h.terminal_alike kind).bind fun n hterminal => ?_⟩
  refine Alike.bind_refl _ fun order _ => ?_
  rw [h.sources_eq hg (mem_nodes_of_terminal hterminal)]
  cases g.sources n.id with
  | nil => exact .refl _
  | cons source rest =>
    simp only [h.checkCondition_eq hg]
    refine Alike.bind_refl _ fun _ _ => ?_
    exact (h.compileNode_alike hg h.nodes []).bind fun result _ => .ok _

/-- The graph with the shared comparison, with its nodes saved backwards and the connections into
the comparisons before the others. -/
def backwardGraph : Graph :=
  { sharedGraph with
    nodes := sharedGraph.nodes.reverse
    connections := sharedGraph.connections.drop 3 ++ sharedGraph.connections.take 3 }

theorem sharedGraph_distinct : sharedGraph.Distinct where
  texts := by simp [sharedGraph, plainNode]
  nodup := by simp [sharedGraph, plainNode]

theorem backwardGraph_reordered : sharedGraph.Reordered backwardGraph where
  nodes := List.reverse_perm _
  connections := by
    have hswap : (sharedGraph.connections.drop 3 ++ sharedGraph.connections.take 3).Perm
        (sharedGraph.connections.take 3 ++ sharedGraph.connections.drop 3) := List.perm_append_comm
    rwa [List.take_append_drop] at hswap
  order := by
    intro id
    have hall : sharedGraph.connections.filter (fun c => c.target.isSame (.text id)) =
        (sharedGraph.connections.take 3).filter (fun c => c.target.isSame (.text id)) ++
          (sharedGraph.connections.drop 3).filter fun c => c.target.isSame (.text id) := by
      rw [← List.filter_append, List.take_append_drop]
    rw [hall, backwardGraph, List.filter_append]
    -- The connections into one node all stand before the cut, or all behind it.
    by_cases hid : id = "order" ∨ id = "both"
    · have hnone : (sharedGraph.connections.drop 3).filter
          (fun c => c.target.isSame (.text id)) = [] := by
        rcases hid with rfl | rfl <;> simp [Value.isSame_text_iff, sharedGraph, plainConnection]
      rw [hnone, List.append_nil, List.nil_append]
    · have hnone : (sharedGraph.connections.take 3).filter
          (fun c => c.target.isSame (.text id)) = [] := by
        obtain ⟨horder, hboth⟩ := not_or.mp hid
        simp [Value.isSame_text_iff, sharedGraph, plainConnection, Ne.symm horder, Ne.symm hboth]
      rw [hnone, List.append_nil, List.nil_append]

/-- The graph that was saved backwards compiles to the same condition. -/
theorem backwardGraph_compiles : sharedGraph.Distinct ∧ sharedGraph.Reordered backwardGraph ∧
    backwardGraph.compile "buyGraph" .buy = .ok ((sharedCondition, []), {}) := by
  have hsame : Alike (sharedGraph.compile "buyGraph" .buy)
      (backwardGraph.compile "buyGraph" .buy) :=
    (reordering_changes_nothing sharedGraph_distinct backwardGraph_reordered).2
  exact ⟨sharedGraph_distinct, backwardGraph_reordered, (compile_sharedGraph ▸ hsame).eq_ok⟩

end Graph

end TradingRules
