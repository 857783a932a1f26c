import TradingRules.Proofs.Logic.Readiness

/-!
# Accounts of evaluations

The account of an evaluation is written by rules of its own. On conditions that have a sort it comes
to the same value or failure as the plain evaluation, and its lines are those of the nodes that were
completed before the first one that is not ready.
-/

namespace TradingRules

namespace Condition

/-- The line of a node: for a leaf what it supplies, for an inner node the values of its operands
and its own. -/
def line (m : Market) : Condition → Outcome String
  | compare operator a b => do
    let x ← a.evaluate m
    let y ← b.evaluate m
    compareLine operator x y (← operator.compareWith x y)
  | logicOp operator a b => do
    let x ← a.evaluate m
    let y ← b.evaluate m
    logicLine operator x y (← operator.joinWith x y)
  | leaf => do leafLine leaf (← supply m leaf)

def completed (m : Market) (c : Condition) : List Condition :=
  c.postorder.takeWhile (isReady m)

variable {m : Market} {c a b : Condition} {s t : ValueSort}

theorem completed_eq_postorder (h : c.firstUnready? m = none) : c.completed m = c.postorder := by
  have hall := firstUnready?_eq_none.mp h
  simpa [completed] using @List.takeWhile_append_of_pos _ _ c.postorder [] hall

theorem takeWhile_append_of_find? {xs ys : List Condition} {node : Condition}
    (h : (xs.find? fun node => !node.isReady m) = some node) :
    (xs ++ ys).takeWhile (isReady m) = xs.takeWhile (isReady m) := by
  induction xs with
  | nil => simp at h
  | cons x xs ih =>
    cases hx : x.isReady m with
    | false => simp [List.takeWhile, hx]
    | true => simp [List.takeWhile, hx, ih (by simpa [hx] using h)]

/-- What is not completed starts with the first node that is not ready. -/
theorem exists_postorder_eq {node : Condition} (h : c.firstUnready? m = some node) :
    ∃ rest, c.postorder = c.completed m ++ node :: rest := by
  obtain ⟨hnode, first, rest, hpost, hfirst⟩ := List.find?_eq_some_iff_append.mp h
  have hunready : node.isReady m = false := by simpa using hnode
  refine ⟨rest, ?_⟩
  rw [completed, hpost, List.takeWhile_append_of_pos (by simpa using hfirst)]
  simp [List.takeWhile, hunready]

/-- The account agrees with the evaluation and has the lines of the completed nodes. -/
structure Recounts (m : Market) (c : Condition) : Prop where
  value : (c.account m).2 = c.evaluate m
  lines : (c.account m).1.map .ok = (c.completed m).map (line m)

theorem exists_leafLine {v : Value} (hv : v.HasSort s) : ∃ text, leafLine c v = .ok text := by
  obtain ⟨text, htext⟩ := hv.exists_accounted
  exact ⟨_, by simp [leafLine, htext]; rfl⟩

theorem exists_compareLine {operator x y : Value} (hx : x.HasSort s) (hy : y.HasSort t)
    (r : Bool) : ∃ text, compareLine operator x y r = .ok text := by
  obtain ⟨first, hfirst⟩ := hx.exists_accounted
  obtain ⟨second, hsecond⟩ := hy.exists_accounted
  exact ⟨_, by simp [compareLine, hfirst, hsecond]; rfl⟩

theorem Recounts.leaf (h : c.Settles m s) (hpost : c.postorder = [c])
    (haccount : c.account m = .ofLine do
      let v ← c.evaluate m
      return (v, ← leafLine c v))
    (hline : c.line m = do leafLine c (← c.evaluate m)) : c.Recounts m := by
  cases h with
  | @value v hready heval hv =>
    obtain ⟨text, htext⟩ := exists_leafLine (c := c) hv
    constructor
    · simp [haccount, heval, htext, Account.ofLine]
    · rw [completed_eq_postorder hready, hpost]
      simp [haccount, heval, htext, hline, Account.ofLine]
  | unready unit length hfirst heval =>
    have hnode : highestPrice (.text unit) (.int length) = c := by
      simpa [hpost] using List.mem_of_find?_eq_some hfirst
    have hready : c.isReady m = false := by
      simpa [hnode] using List.find?_some hfirst
    constructor
    · simp [haccount, heval, Account.ofLine]
    · simp [haccount, heval, completed, hpost, hready, Account.ofLine]

theorem Recounts.inner {combine : Value → Value → Outcome Bool}
    {tell : Value → Value → Bool → Outcome String}
    (hsettlesA : a.Settles m s) (hsettlesB : b.Settles m t)
    (hpost : c.postorder = a.postorder ++ b.postorder ++ [c]) (hready : c.isReady m = true)
    (heval : c.evaluate m = do
      let x ← a.evaluate m
      let y ← b.evaluate m
      return .bool (← combine x y))
    (haccount : c.account m =
      (a.account m).followedBy fun x => (b.account m).followedBy fun y => .ofLine do
        let r ← combine x y
        return (.bool r, ← tell x y r))
    (hline : c.line m = do
      let x ← a.evaluate m
      let y ← b.evaluate m
      tell x y (← combine x y))
    (hcombine : ∀ x y, x.HasSort s → y.HasSort t → ∃ r, combine x y = .ok r)
    (htell : ∀ x y r, x.HasSort s → y.HasSort t → ∃ text, tell x y r = .ok text)
    (ha : a.Recounts m) (hb : b.Recounts m) : c.Recounts m := by
  obtain ⟨hvalueA, hlinesA⟩ := ha
  obtain ⟨hvalueB, hlinesB⟩ := hb
  cases hsettlesA with
  | unready unit length hfirst hx =>
    rw [hx] at hvalueA
    -- Neither the second operand nor the node itself comes to be completed.
    have hcompleted : c.completed m = a.completed m := by
      rw [completed, hpost, List.append_assoc, takeWhile_append_of_find? hfirst]
      rfl
    constructor
    · simp [haccount, heval, hx, hvalueA, Account.followedBy]
    · simp [haccount, hvalueA, hlinesA, hcompleted, Account.followedBy]
  | @value x hreadyA hx hsortX =>
    rw [hx] at hvalueA
    rw [completed_eq_postorder hreadyA] at hlinesA
    cases hsettlesB with
    | unready unit length hfirst hy =>
      rw [hy] at hvalueB
      have hcompleted : c.completed m = a.postorder ++ b.completed m := by
        rw [completed, hpost, List.append_assoc,
          List.takeWhile_append_of_pos (firstUnready?_eq_none.mp hreadyA),
          takeWhile_append_of_find? hfirst]
        rfl
      constructor
      · simp [haccount, heval, hx, hy, hvalueA, hvalueB, Account.followedBy]
      · simp [haccount, hvalueA, hvalueB, hlinesA, hlinesB, hcompleted, Account.followedBy]
    | @value y hreadyB hy hsortY =>
      rw [hy] at hvalueB
      rw [completed_eq_postorder hreadyB] at hlinesB
      obtain ⟨r, hr⟩ := hcombine x y hsortX hsortY
      obtain ⟨text, htext⟩ := htell x y r hsortX hsortY
      have hcompleted : c.completed m = a.postorder ++ b.postorder ++ [c] := by
        rw [completed, hpost, List.append_assoc,
          List.takeWhile_append_of_pos (firstUnready?_eq_none.mp hreadyA),
          List.takeWhile_append_of_pos (firstUnready?_eq_none.mp hreadyB)]
        simp [hready]
      constructor
      · simp [haccount, heval, hx, hy, hr, htext, hvalueA, hvalueB, Account.followedBy,
          Account.ofLine]
      · simp [haccount, hline, hx, hy, hr, htext, hvalueA, hvalueB, hlinesA, hlinesB, hcompleted,
          Account.followedBy, Account.ofLine]

theorem HasSort.recounts (m : Market) (h : c.HasSort s) : c.Recounts m := by
  induction h with
  | const hx => exact .leaf ((HasSort.const hx).settles m) rfl rfl rfl
  | currentPrice => exact .leaf (HasSort.currentPrice.settles m) rfl rfl rfl
  | rsi => exact .leaf (HasSort.rsi.settles m) rfl rfl rfl
  | roi => exact .leaf (HasSort.roi.settles m) rfl rfl rfl
  | sma hpos hmax => exact .leaf ((HasSort.sma hpos hmax).settles m) rfl rfl rfl
  | highestPrice hunit hpos => exact .leaf ((HasSort.highestPrice hunit hpos).settles m) rfl rfl rfl
  | compare op ha hb iha ihb =>
    exact .inner (ha.settles m) (hb.settles m) rfl rfl rfl rfl rfl
      (fun x y hx hy => Value.exists_compareWith op hx hy)
      (fun x y r hx hy => exists_compareLine hx hy r) iha ihb
  | logicOp op ha hb iha ihb =>
    exact .inner (ha.settles m) (hb.settles m) rfl rfl rfl rfl rfl
      (fun x y _ _ => ⟨_, Value.joinWith_word op x y⟩)
      (fun x y r _ _ => ⟨_, rfl⟩) iha ihb

end Condition

namespace CompiledLogic

/-- An accepted logic cannot go wrong: with or without an account, a root yields a truth value or
lacks data, and it lacks data exactly when some highest price in it has a key that is not among the
ones looked up. -/
theorem root_yields_truth_or_lacks_price {logic : Value} {compiled : CompiledLogic}
    (hcompiled : ofLogic logic = .ok compiled) (m : Market) {root : Condition}
    (hroot : root = compiled.buy ∨ root = compiled.sell) {outcome : Outcome Value}
    (houtcome : outcome = root.evaluate m ∨ outcome = (root.account m).2) :
    ((∃ b, outcome = .ok (.bool b)) ∨
      ∃ unit length, outcome = .error (.dataNotReady unit length)) ∧
    ((∃ unit length, outcome = .error (.dataNotReady unit length)) ↔
      ∃ unit length, .highestPrice unit length ∈ root.walk ∧
        ∀ key x, Market.periodOf unit length = .ok key → (key, x) ∉ m.highest) := by
  have hsort : root.HasSort .truth := by
    obtain ⟨hbuy, hsell⟩ := hasSort_of_ofLogic hcompiled
    rcases hroot with rfl | rfl
    · exact hbuy
    · exact hsell
  obtain rfl : outcome = root.evaluate m := by
    rcases houtcome with rfl | rfl
    · rfl
    · exact (hsort.recounts m).value
  cases hsort.settles m with
  | @value v hready heval hv =>
    cases hv with
    | truth b =>
      refine ⟨.inl ⟨b, heval⟩, ?_, ?_⟩
      · rintro ⟨unit, length, herror⟩
        simp [heval] at herror
      · rintro ⟨unit, length, hmem, hmissing⟩
        obtain ⟨key, x, hkey, hx⟩ := hsort.exists_highest_of_ready hready hmem
        exact absurd hx (hmissing key x hkey)
  | unready unit length hfirst heval =>
    refine ⟨.inr ⟨_, _, heval⟩, fun _ => ?_, fun _ => ⟨_, _, heval⟩⟩
    obtain ⟨hmem, hmissing⟩ := Condition.highest_missing_of_firstUnready? hfirst
    refine ⟨_, _, hmem, fun key x hkey => ?_⟩
    cases hkey
    exact hmissing x

/-- A graph that compares the price with the highest price of a day, week, month or year. -/
def breakoutGraph (terminal unit : String) : Value :=
  .object [
    ("nodes", .list [
      .object [("id", .text "order"), ("kind", .text terminal)],
      .object [("id", .text "above"), ("kind", .text "compare")],
      .object [("id", .text "price"), ("kind", .text "currentPrice")],
      .object [("id", .text "high"), ("kind", .text "highestPrice"),
        ("controls", .object [("periodUnit", .text unit)])]]),
    ("connections", .list [
      .object [("source", .text "above"), ("target", .text "order")],
      .object [("source", .text "price"), ("target", .text "above")],
      .object [("source", .text "high"), ("target", .text "above")]])]

def breakoutLogic : Value :=
  .object [("buyGraph", breakoutGraph "buy" "day"), ("sellGraph", breakoutGraph "sell" "week")]

def breakoutCondition (unit : String) : Condition :=
  .compare (.text CompareOp.greater.sign) .currentPrice (.highestPrice (.text unit) (.int 1))

def breakout : CompiledLogic where
  buy := breakoutCondition "day"
  sell := breakoutCondition "week"
  buyOrder := {}
  sellOrder := {}
  warmUps := [⟨.text "day", 1⟩, ⟨.text "week", 1⟩]

theorem ofLogic_breakoutLogic : ofLogic breakoutLogic = .ok breakout := by
  with_unfolding_all rfl

/-- The logic that buys on a breakout from the week, and sells as the breakout logic does. -/
def weeklyLogic : Value :=
  .object [("buyGraph", breakoutGraph "buy" "week"), ("sellGraph", breakoutGraph "sell" "week")]

def weekly : CompiledLogic :=
  { breakout with buy := breakoutCondition "week", warmUps := [⟨.text "week", 1⟩] }

theorem ofLogic_weeklyLogic : ofLogic weeklyLogic = .ok weekly := by
  with_unfolding_all rfl

/-- With no highest price looked up, the breakout logic lacks data. -/
theorem breakout_lacks_price : ofLogic breakoutLogic = .ok breakout ∧
    ∃ unit length, breakout.sell.evaluate (.new { stock := .text "ABC" } true) =
      .error (.dataNotReady unit length) := by
  refine ⟨ofLogic_breakoutLogic, (root_yields_truth_or_lacks_price ofLogic_breakoutLogic _
    (.inr rfl) (.inl rfl)).2.mpr ⟨.text "week", .int 1, ?_, fun _ _ _ => List.not_mem_nil⟩⟩
  simp [breakout, breakoutCondition, Condition.walk]

end CompiledLogic

end TradingRules
