import TradingRules.Logic.Compiled
import TradingRules.Proofs.Value.Outcome

/-!
# Derivations of compiled conditions

A node that compiles has a derivation: a finite tree with one rule for a node that supplies a
number, one for a comparison and one for a connective. What holds of all compiled conditions is
proved by induction on derivations, for graphs of any kind.
-/

namespace TradingRules

open Market (Period)

namespace Node

variable {n : Node} {graph : String}

theorem averageCondition_eq_ok_iff {c : Condition} :
    n.averageCondition graph = .ok c ↔
      ∃ k : Int, n.wholeControl "period" (.int 20) graph = .ok k ∧ 1 ≤ k ∧ k ≤ maxAveragePeriod ∧
        c = .sma (.int k) := by
  simp only [averageCondition, Outcome.bind_eq_ok]
  refine exists_congr fun k => and_congr_right fun _ => ?_
  split
  · simp
    omega
  · split
    · simp
      omega
    · simp only [Outcome.pure_eq_ok, Except.ok.injEq]
      constructor
      · rintro rfl
        exact ⟨by omega, by omega, rfl⟩
      · rintro ⟨-, -, rfl⟩
        rfl

theorem highestPeriod_eq_ok_iff {p : Period} :
    n.highestPeriod graph = .ok p ↔
      ∃ (k : Int) (raw : Value), n.wholeControl "periodLength" (.int 1) graph = .ok k ∧ 1 ≤ k ∧
        n.control "periodUnit" (.text "day") = .ok raw ∧
        Text.lower (Text.strip raw.shown) ∈ periodUnits ∧
        p = ⟨.text (Text.lower (Text.strip raw.shown)), k⟩ := by
  simp only [highestPeriod, Outcome.bind_eq_ok]
  constructor
  · rintro ⟨k, hk, hok⟩
    split at hok
    · simp at hok
    · rename_i hpos
      obtain ⟨raw, hraw, hok⟩ := Outcome.bind_eq_ok.mp hok
      simp only [Outcome.pure_eq_ok, Fault.guarded_eq_ok_iff] at hok
      exact ⟨k, raw, hk, Int.not_lt.mp hpos, hraw, by simpa using hok.1, hok.2.symm⟩
  · rintro ⟨k, raw, hk, hpos, hraw, hknown, rfl⟩
    refine ⟨k, hk, ?_⟩
    rw [if_neg (by omega), hraw]
    simpa using hknown

end Node

namespace Graph

variable (g : Graph) (name : String)

/-- The derivation of a condition and the periods met so far, for a node that was not visited. -/
inductive Compiles : Value → Value → List Node → List Period → WithPeriods → Prop
  | leaf {id referrer : Value} {unvisited : List Node} {periods : List Period} {n : Node}
      {v : Value} {kind : NodeKind} {leaf : WithPeriods}
      (hnode : g.resolve name id referrer = .ok n)
      (hmet : unvisited.any (fun m => m.id.isSame id) = true)
      (hkind : n.resolvedKind = .ok v) (hof : NodeKind.ofValue? v = some kind)
      (hleaf : n.supplier name periods kind = .ok (some leaf)) :
      Compiles id referrer unvisited periods leaf
  | compare {id referrer : Value} {unvisited : List Node} {periods between rest : List Period}
      {n : Node} {v operator a b : Value} {x y : Condition}
      (hnode : g.resolve name id referrer = .ok n)
      (hmet : unvisited.any (fun m => m.id.isSame id) = true)
      (hkind : n.resolvedKind = .ok v) (hof : NodeKind.ofValue? v = some .compare)
      (hoperator : n.operatorOf name .compare id CompareOp.greater.sign
        (fun s => (CompareOp.read? s).map CompareOp.sign) = .ok operator)
      (hoperands : g.operands name n = .ok (a, b))
      (hx : Compiles a n.id (withoutId unvisited id) periods (x, between))
      (hy : Compiles b n.id (withoutId unvisited id) between (y, rest)) :
      Compiles id referrer unvisited periods (.compare operator x y, rest)
  | logicOp {id referrer : Value} {unvisited : List Node} {periods between rest : List Period}
      {n : Node} {v operator a b : Value} {x y : Condition}
      (hnode : g.resolve name id referrer = .ok n)
      (hmet : unvisited.any (fun m => m.id.isSame id) = true)
      (hkind : n.resolvedKind = .ok v) (hof : NodeKind.ofValue? v = some .logicOp)
      (hoperator : n.operatorOf name .logicOp id LogicOp.and.word
        (fun s => (LogicOp.read? s).map LogicOp.word) = .ok operator)
      (hoperands : g.operands name n = .ok (a, b))
      (hcheckA : g.checkCondition name a n.id = .ok ())
      (hx : Compiles a n.id (withoutId unvisited id) periods (x, between))
      (hcheckB : g.checkCondition name b n.id = .ok ())
      (hy : Compiles b n.id (withoutId unvisited id) between (y, rest)) :
      Compiles id referrer unvisited periods (.logicOp operator x y, rest)

variable {g name}

theorem find?_some {id : Value} {n : Node} (h : g.find? id = some n) :
    n ∈ g.nodes ∧ n.id.isSame id = true :=
  ⟨List.mem_reverse.mp (List.mem_of_find?_eq_some h), by simpa using List.find?_some h⟩

theorem resolve_eq_ok {id referrer : Value} {n : Node} :
    g.resolve name id referrer = .ok n ↔ id.isKey = true ∧ g.find? id = some n := by
  rw [resolve]
  cases id.isKey with
  | false => simp
  | true => cases g.find? id <;> simp

theorem operands_eq_ok_iff {n : Node} {a b : Value} :
    g.operands name n = .ok (a, b) ↔ ∃ rest, g.sources n.id = a :: b :: rest := by
  rw [operands]
  split
  · rename_i a' b' rest hs
    simp [hs]
  · rename_i few hfew
    constructor
    · intro h
      obtain ⟨v, -, h⟩ := Outcome.bind_eq_ok.mp h
      exact absurd h (Fault.defect_ne_ok _ _ _)
    · rintro ⟨rest, hs⟩
      exact absurd hs (hfew a b rest)

theorem compileNode_of_compiles {id referrer : Value} {unvisited : List Node}
    {periods : List Period} {result : WithPeriods}
    (h : g.Compiles name id referrer unvisited periods result) :
    g.compileNode name id referrer unvisited periods = .ok result := by
  induction h with
  | @leaf id referrer unvisited periods n v kind leaf hnode hmet hkind hof hleaf =>
    rw [compileNode]
    simp only [hnode, Outcome.ok_bind, hmet, dite_true, hkind, hof]
    cases kind with
    | compare | logicOp | buy | sell => simp [Node.supplier] at hleaf
    | const | currentPrice | highestPrice | rsi | roi | sma =>
      simp only [hleaf, Outcome.ok_bind, Outcome.pure_eq_ok]
  | compare hnode hmet hkind hof hoperator hoperands hx hy ihx ihy =>
    rw [compileNode]
    simp only [hnode, Outcome.ok_bind, hmet, dite_true, hkind, hof, hoperator, hoperands, ihx, ihy,
      Outcome.pure_eq_ok]
  | logicOp hnode hmet hkind hof hoperator hoperands hcheckA hx hcheckB hy ihx ihy =>
    rw [compileNode]
    simp only [hnode, Outcome.ok_bind, hmet, dite_true, hkind, hof, hoperator, hoperands, hcheckA,
      ihx, hcheckB, ihy, Outcome.pure_eq_ok]

theorem compiles_of_compileNode {id referrer : Value} {unvisited : List Node}
    {periods : List Period} {result : WithPeriods}
    (h : g.compileNode name id referrer unvisited periods = .ok result) :
    g.Compiles name id referrer unvisited periods result := by
  -- Every visit takes a node away, so the induction is on the number of those that are left.
  induction hlen : unvisited.length using Nat.strongRecOn
    generalizing id referrer unvisited periods result with
  | _ len ih =>
    rw [compileNode] at h
    obtain ⟨n, hnode, h⟩ := Outcome.bind_eq_ok.mp h
    split at h
    · rename_i hmet
      have hless : (withoutId unvisited id).length < len := hlen ▸ length_withoutId_lt hmet
      obtain ⟨v, hkind, h⟩ := Outcome.bind_eq_ok.mp h
      split at h
      · simp at h
      · rename_i kind hof
        cases kind with
        | compare =>
          obtain ⟨operator, hoperator, h⟩ := Outcome.bind_eq_ok.mp h
          obtain ⟨⟨a, b⟩, hoperands, h⟩ := Outcome.bind_eq_ok.mp h
          obtain ⟨⟨x, between⟩, hx, h⟩ := Outcome.bind_eq_ok.mp h
          obtain ⟨⟨y, rest⟩, hy, h⟩ := Outcome.bind_eq_ok.mp h
          cases h
          exact .compare hnode hmet hkind hof hoperator hoperands (ih _ hless hx rfl)
            (ih _ hless hy rfl)
        | logicOp =>
          obtain ⟨operator, hoperator, h⟩ := Outcome.bind_eq_ok.mp h
          obtain ⟨⟨a, b⟩, hoperands, h⟩ := Outcome.bind_eq_ok.mp h
          obtain ⟨⟨⟩, hcheckA, h⟩ := Outcome.bind_eq_ok.mp h
          obtain ⟨⟨x, between⟩, hx, h⟩ := Outcome.bind_eq_ok.mp h
          obtain ⟨⟨⟩, hcheckB, h⟩ := Outcome.bind_eq_ok.mp h
          obtain ⟨⟨y, rest⟩, hy, h⟩ := Outcome.bind_eq_ok.mp h
          cases h
          exact .logicOp hnode hmet hkind hof hoperator hoperands hcheckA (ih _ hless hx rfl)
            hcheckB (ih _ hless hy rfl)
        | const | currentPrice | highestPrice | rsi | roi | sma | buy | sell =>
          obtain ⟨found, hleaf, h⟩ := Outcome.bind_eq_ok.mp h
          cases found with
          | none => simp at h
          | some leaf =>
            cases h
            exact .leaf hnode hmet hkind hof hleaf
    · simp at h

/-- A node compiles to a condition exactly when there is a derivation of it. -/
theorem compileNode_eq_ok_iff {id referrer : Value} {unvisited : List Node}
    {periods : List Period} {result : WithPeriods} :
    g.compileNode name id referrer unvisited periods = .ok result ↔
      g.Compiles name id referrer unvisited periods result :=
  ⟨compiles_of_compileNode, compileNode_of_compiles⟩

end Graph

end TradingRules
