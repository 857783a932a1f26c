import TradingRules.Logic.Evaluation
import TradingRules.Proofs.Logic.Sorts
import TradingRules.Proofs.Value.Names

/-!
# Evaluation and readiness

The only thing that can keep a compiled condition from its value is a highest price that has not
been looked up. A condition all of whose nodes are ready evaluates to a value of its sort, and any
other one fails at its first node that is not ready, in the order in which nodes are completed.
-/

namespace TradingRules

open Market (Period)

namespace Market

variable {m : Market} {unit : String} {length : Int}

theorem beq_textPeriod_iff {p : Period} : (p == ⟨.text unit, length⟩) = true ↔
    p = ⟨.text unit, length⟩ := by
  obtain ⟨u, n⟩ := p
  simp [BEq.beq, Value.isSame_text_iff]

theorem exists_highest?_iff :
    (m.highest? ⟨.text unit, length⟩).isSome = true ↔
      ∃ x, ((⟨.text unit, length⟩ : Period), x) ∈ m.highest := by
  simp only [highest?, Option.isSome_map, List.find?_isSome, beq_textPeriod_iff]
  constructor
  · rintro ⟨⟨p, x⟩, hmem, rfl⟩
    exact ⟨x, hmem⟩
  · rintro ⟨x, hmem⟩
    exact ⟨_, hmem, rfl⟩

theorem highestPrice_eq (m : Market) (unit : String) (length : Int) :
    m.highestPrice (.text unit) (.int length) = match m.highest? ⟨.text unit, length⟩ with
      | some x => .ok x
      | none => .error (.dataNotReady unit (Value.int length).shown) := rfl

end Market

namespace Condition

/-- All nodes, each after the nodes below it: the order in which they are completed. -/
def postorder : Condition → List Condition
  | compare operator a b => postorder a ++ postorder b ++ [compare operator a b]
  | logicOp operator a b => postorder a ++ postorder b ++ [logicOp operator a b]
  | leaf => [leaf]

theorem postorder_perm_walk (c : Condition) : c.postorder.Perm c.walk := by
  induction c with
  | compare operator a b iha ihb | logicOp operator a b iha ihb =>
    simp only [postorder, walk]
    exact List.perm_append_comm.trans ((iha.append ihb).cons _)
  | _ => exact .refl _

/-- A node is ready unless it is a highest price that has not been looked up. -/
def isReady (m : Market) : Condition → Bool
  | highestPrice (.text unit) (.int length) => (m.highest? ⟨.text unit, length⟩).isSome
  | _ => true

def firstUnready? (m : Market) (c : Condition) : Option Condition :=
  c.postorder.find? fun node => !node.isReady m

end Condition

namespace Value.HasSort

variable {v : Value} {s : ValueSort}

theorem exists_toFloat (h : v.HasSort s) : ∃ x, v.toFloat = .ok x := by
  cases h with
  | number x => exact ⟨x, rfl⟩
  | truth b =>
    have hwhole : (Number.floatOfInt? (if b then 1 else 0)).isSome = true := by
      cases b <;> decide +kernel
    obtain ⟨x, hx⟩ := Option.isSome_iff_exists.mp hwhole
    exact ⟨x, by simp [toFloat, numeric?, Numeric.toFloat, hx]⟩

theorem exists_accounted (h : v.HasSort s) : ∃ text, v.accounted = .ok text := by
  cases h with
  | number x =>
    unfold accounted
    dsimp only
    split
    · exact ⟨"NaN", rfl⟩
    · exact ⟨Number.fixedText 2 x, rfl⟩
  | truth b => exact ⟨_, rfl⟩

end Value.HasSort

namespace Value

theorem operator?_sign (op : CompareOp) :
    (Value.text op.sign).operator? CompareOp.ofSign? = .ok op := by
  simp [operator?, CompareOp.ofSign?_sign]

theorem operator?_word (op : LogicOp) :
    (Value.text op.word).operator? LogicOp.ofWord? = .ok op := by
  simp [operator?, LogicOp.ofWord?_word]

theorem exists_compareWith (op : CompareOp) {x y : Value} {s t : ValueSort} (hx : x.HasSort s)
    (hy : y.HasSort t) : ∃ r, (Value.text op.sign).compareWith x y = .ok r := by
  obtain ⟨p, hp⟩ := hx.exists_toFloat
  obtain ⟨q, hq⟩ := hy.exists_toFloat
  exact ⟨op.holds p q, by simp [compareWith, operator?_sign, hp, hq]⟩

theorem joinWith_word (op : LogicOp) (x y : Value) :
    (Value.text op.word).joinWith x y = .ok (op.holds x.holds y.holds) := by
  simp [joinWith, operator?_word]

end Value

namespace Condition

variable {m : Market} {c a b : Condition} {s t : ValueSort}

theorem firstUnready?_eq_none : c.firstUnready? m = none ↔
    ∀ node ∈ c.postorder, node.isReady m = true := by
  simp [firstUnready?]

/-- What the evaluation of a condition of a sort comes to: a value of the sort if all nodes are
ready, else the failure of the first node that is not. -/
inductive Settles (m : Market) (c : Condition) (s : ValueSort) : Prop
  | value {v : Value} (hready : c.firstUnready? m = none) (heval : c.evaluate m = .ok v)
      (hsort : v.HasSort s)
  | unready (unit : String) (length : Int)
      (hfirst : c.firstUnready? m = some (.highestPrice (.text unit) (.int length)))
      (heval : c.evaluate m = .error (.dataNotReady unit (Value.int length).shown))

theorem Settles.leaf {v : Value} (hpost : c.postorder = [c]) (hready : c.isReady m = true)
    (heval : c.evaluate m = .ok v) (hsort : v.HasSort s) : c.Settles m s :=
  .value (by simp [firstUnready?, hpost, hready]) heval hsort

/-- An inner node settles when both operands do, because both are always evaluated. -/
theorem Settles.inner {combine : Value → Value → Outcome Bool}
    (hpost : c.postorder = a.postorder ++ b.postorder ++ [c]) (hready : c.isReady m = true)
    (heval : c.evaluate m = do
      let x ← a.evaluate m
      let y ← b.evaluate m
      return .bool (← combine x y))
    (hcombine : ∀ x y, x.HasSort s → y.HasSort t → ∃ r, combine x y = .ok r)
    (ha : a.Settles m s) (hb : b.Settles m t) : c.Settles m .truth := by
  have hfind : c.firstUnready? m = (a.firstUnready? m).or (b.firstUnready? m) := by
    simp [firstUnready?, hpost, hready]
  cases ha with
  | unready unit length hfirst hx =>
    exact .unready unit length (by simp [hfind, hfirst]) (by simp [heval, hx])
  | @value x hreadyA hx hsortX =>
    cases hb with
    | unready unit length hfirst hy =>
      exact .unready unit length (by simp [hfind, hreadyA, hfirst]) (by simp [heval, hx, hy])
    | @value y hreadyB hy hsortY =>
      obtain ⟨r, hr⟩ := hcombine x y hsortX hsortY
      exact .value (by simp [hfind, hreadyA, hreadyB]) (by simp [heval, hx, hy, hr]) (.truth r)

theorem HasSort.settles (m : Market) (h : c.HasSort s) : c.Settles m s := by
  induction h with
  | @const x hx => exact .leaf rfl rfl rfl (.number x)
  | currentPrice | rsi | roi | sma => exact .leaf rfl rfl rfl (.number _)
  | @highestPrice unit length hunit hpos =>
    cases hx : m.highest? ⟨.text unit, length⟩ with
    | some x =>
      exact .leaf rfl (by simp [isReady, hx])
        (by simp [evaluate, supply, Market.highestPrice_eq, hx, Except.map]) (.number x)
    | none =>
      exact .unready unit length (by simp [firstUnready?, postorder, isReady, hx])
        (by simp [evaluate, supply, Market.highestPrice_eq, hx, Except.map])
  | compare op ha hb iha ihb =>
    exact .inner rfl rfl rfl (fun x y hx hy => Value.exists_compareWith op hx hy) iha ihb
  | logicOp op ha hb iha ihb =>
    exact .inner rfl rfl rfl (fun x y _ _ => ⟨_, Value.joinWith_word op x y⟩) iha ihb

theorem HasSort.firstUnready?_of_ok (h : c.HasSort s) {v : Value}
    (hv : c.evaluate m = .ok v) : c.firstUnready? m = none := by
  cases h.settles m with
  | value hready heval hsort => exact hready
  | unready unit length hfirst heval => simp [heval] at hv

theorem HasSort.firstUnready?_of_error (h : c.HasSort s) {e : Fault}
    (he : c.evaluate m = .error e) : ∃ unit length,
      c.firstUnready? m = some (.highestPrice (.text unit) (.int length)) ∧
      e = .dataNotReady unit (Value.int length).shown := by
  cases h.settles m with
  | value hready heval hsort => simp [heval] at he
  | unready unit length hfirst heval =>
    exact ⟨unit, length, hfirst, by simpa [heval, eq_comm] using he⟩

theorem HasSort.of_mem_leaf (h : c.HasSort s) {node : Condition} (hwalk : c.walk = [c])
    (hmem : node ∈ c.walk) : ∃ t, node.HasSort t := by
  obtain rfl : node = c := by simpa [hwalk] using hmem
  exact ⟨s, h⟩

theorem HasSort.of_mem_walk (h : c.HasSort s) {node : Condition} (hmem : node ∈ c.walk) :
    ∃ t, node.HasSort t := by
  induction h with
  | compare op ha hb iha ihb =>
    simp only [walk, List.mem_cons, List.mem_append] at hmem
    rcases hmem with rfl | hmem | hmem
    · exact ⟨_, .compare op ha hb⟩
    · exact iha hmem
    · exact ihb hmem
  | logicOp op ha hb iha ihb =>
    simp only [walk, List.mem_cons, List.mem_append] at hmem
    rcases hmem with rfl | hmem | hmem
    · exact ⟨_, .logicOp op ha hb⟩
    · exact iha hmem
    · exact ihb hmem
  | const hx => exact (HasSort.const hx).of_mem_leaf rfl hmem
  | currentPrice => exact HasSort.currentPrice.of_mem_leaf rfl hmem
  | highestPrice hunit hpos => exact (HasSort.highestPrice hunit hpos).of_mem_leaf rfl hmem
  | rsi => exact HasSort.rsi.of_mem_leaf rfl hmem
  | roi => exact HasSort.roi.of_mem_leaf rfl hmem
  | sma hpos hmax => exact (HasSort.sma hpos hmax).of_mem_leaf rfl hmem

theorem HasSort.exists_highest_of_ready (h : c.HasSort s) (hready : c.firstUnready? m = none)
    {unit length : Value} (hmem : .highestPrice unit length ∈ c.walk) :
    ∃ key x, Market.periodOf unit length = .ok key ∧ (key, x) ∈ m.highest := by
  obtain ⟨t, hsort⟩ := h.of_mem_walk hmem
  have hnode := firstUnready?_eq_none.mp hready _ (c.postorder_perm_walk.mem_iff.mpr hmem)
  cases hsort with
  | @highestPrice u n hunit hpos =>
    obtain ⟨x, hx⟩ := Market.exists_highest?_iff.mp hnode
    exact ⟨⟨.text u, n⟩, x, rfl, hx⟩

theorem highest?_of_firstUnready? {unit : String} {length : Int}
    (h : c.firstUnready? m = some (.highestPrice (.text unit) (.int length))) :
    m.highest? ⟨.text unit, length⟩ = none := by
  simpa [isReady] using List.find?_some h

theorem highest_missing_of_firstUnready? {unit : String} {length : Int}
    (h : c.firstUnready? m = some (.highestPrice (.text unit) (.int length))) :
    .highestPrice (.text unit) (.int length) ∈ c.walk ∧
      ∀ x, (⟨.text unit, length⟩, x) ∉ m.highest := by
  refine ⟨c.postorder_perm_walk.mem_iff.mp (List.mem_of_find?_eq_some h), fun x hx => ?_⟩
  have hready := Market.exists_highest?_iff.mpr ⟨x, hx⟩
  simp [highest?_of_firstUnready? h] at hready

end Condition

end TradingRules
