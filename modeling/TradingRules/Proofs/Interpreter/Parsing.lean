import TradingRules.Proofs.Interpreter.Lifecycle
import TradingRules.Proofs.Logic.Snags
import TradingRules.Proofs.Market.Lookups

/-!
# What parsing comes to

A logic that compiles is taken up, and one with a defect is reported: the interpreter is then
uninitialized, without a compiled logic and with the error kept. A logic that hits a snag is
neither. It leaves the interpreter without a compiled logic, but with the status and the last error
that it had before.
-/

namespace TradingRules.Interpreter

open CompiledLogic (Snag Misshapen)
open Outcome (Reports)

variable {σ : Type}

theorem exec_startLookups {periods : List Market.Period}
    (hperiods : ∀ p ∈ periods, p.unit.isKey = true) (i : Interpreter) (s : σ) :
    (startLookups periods).exec (i, s) =
      (.ok (), ({ i with market := i.market.warmedUp periods }, s)) := by
  induction periods generalizing i with
  | nil => rfl
  | cons p rest ih =>
    have hfirst := exec_startLookups_singleton (hperiods p List.mem_cons_self) i s
    have hrest := ih fun q hq => hperiods q (List.mem_cons_of_mem p hq)
    have hsplit : (startLookups (p :: rest) : Step σ Unit) =
        startLookups [p] >>= fun _ => startLookups rest := by
      simp only [startLookups, bind_assoc, pure_bind]
    rw [hsplit, ExceptT.exec_bind_ok hfirst, hrest]
    rfl

/-- Only market data that was disposed of cannot be started. -/
theorem exists_start (m : Market) :
    ∃ m', m.start = (if m.disposed then .error (.misuse "MarketDataManager already disposed")
      else .ok (), m') := by
  unfold Market.start
  cases m.disposed with
  | true => exact ⟨m, rfl⟩
  | false =>
    simp only [Bool.false_eq_true, if_false]
    split
    · exact ⟨_, rfl⟩
    · split <;> exact ⟨_, rfl⟩

theorem exec_accept_of_ofLogic {logic : Value} {c : CompiledLogic}
    (h : CompiledLogic.ofLogic logic = .ok c) (i : Interpreter) (s : σ) :
    ∃ m, (i.market.disposed = false → m = i.market.start.2.warmedUp c.warmUps) ∧
      (accept c).exec (i, s) =
        (if i.market.disposed then .error (.misuse "MarketDataManager already disposed")
          else .ok true,
          ({ i with
            compiled := some c, lastError := none, status := .parsed, market := m }, s)) := by
  have hunits := CompiledLogic.knownUnits_warmUps h
  obtain ⟨started, hstart⟩ := exists_start i.market
  rw [accept, ExceptT.exec_bind_ok (Step.exec_change _ _), ExceptT.exec_bind, Step.exec_onMarket,
    hstart]
  cases i.market.disposed with
  | true => exact ⟨started, fun h => Bool.noConfusion h, rfl⟩
  | false =>
    simp only [Bool.false_eq_true, if_false]
    refine ⟨_, fun _ => rfl, ?_⟩
    rw [ExceptT.exec_bind_ok (exec_startLookups (fun p hp => hunits.isKey hp) _ s),
      ExceptT.exec_pure]

/-- What a parse of an object comes to when it is not refused. -/
inductive Parses (around : Surroundings σ) (logic : Fields) (i : Interpreter) (s : σ) :
    Outcome Bool × (Interpreter × σ) → Prop
  | accepted {c : CompiledLogic} (m : Market)
      (h : CompiledLogic.ofLogic (.object logic) = .ok c) :
      Parses around logic i s
        (if i.market.disposed then .error (.misuse "MarketDataManager already disposed")
          else .ok true,
          ({ i with compiled := some c, lastError := none, status := .parsed, market := m }, s))
  | reported {error : CompileError}
      (h : CompiledLogic.ofLogic (.object logic) = .error (.compile error)) :
      Parses around logic i s (.ok false,
        ({ i with compiled := none, lastError := some error.message, status := .uninitialized },
          around.log "Error" s!"Logic parse failed: {error.message}" s))
  | snagged {e : Fault} (h : CompiledLogic.ofLogic (.object logic) = .error e)
      (hsnag : Snag logic e) :
      Parses around logic i s (.error e, ({ i with compiled := none }, s))

theorem parses (around : Surroundings σ) (logic : Fields) {i : Interpreter} (s : σ)
    (hfree : ¬(i.status = .running ∨ i.status = .stopped)) :
    Parses around logic i s ((parse around (.object logic)).exec (i, s)) := by
  rw [exec_parse_of_free around (i, s) _ hfree]
  cases hlogic : CompiledLogic.ofLogic (.object logic) with
  | ok c =>
    obtain ⟨m, -, hm⟩ := exec_accept_of_ofLogic hlogic { i with compiled := none } s
    rw [hm]
    exact .accepted m hlogic
  | error e =>
    rcases CompiledLogic.reports_ofLogic logic e hlogic with ⟨error, rfl⟩ | hsnag
    · exact .reported hlogic
    · cases e with
      | compile error => exact absurd rfl (hsnag.ne_compile error)
      | _ => exact .snagged hlogic hsnag

/-- An object compiles or is reported with a defect unless it hits a snag, and a misshapen one always
does. Outside of a run, an interpreter that is not stopped answers a parse of it accordingly: true
with the logic kept, or false with no logic, the error kept and the status uninitialized. After a
snag there is no answer, and only the compiled logic is given up. -/
theorem parse_reports_unless_snagged (around : Surroundings σ) (logic : Fields) (i : Interpreter)
    (s : σ) (hfree : ¬(i.status = .running ∨ i.status = .stopped)) :
    ((∃ c, CompiledLogic.ofLogic (.object logic) = .ok c) ∨
      (∃ error, CompiledLogic.ofLogic (.object logic) = .error (.compile error)) ∨
      ∃ e, CompiledLogic.ofLogic (.object logic) = .error e ∧ Snag logic e) ∧
    (Misshapen logic → ∃ e, CompiledLogic.ofLogic (.object logic) = .error e ∧ Snag logic e) ∧
    (∀ e, Snag logic e → ∀ error, e ≠ .compile error) ∧
    Parses around logic i s ((parse around (.object logic)).exec (i, s)) := by
  refine ⟨?_, CompiledLogic.exists_snag_of_misshapen, fun e h => h.ne_compile,
    parses around logic s hfree⟩
  cases hlogic : CompiledLogic.ofLogic (.object logic) with
  | ok c => exact .inl ⟨c, rfl⟩
  | error e =>
    right
    rcases CompiledLogic.reports_ofLogic logic e hlogic with ⟨error, rfl⟩ | hsnag
    · exact .inl ⟨error, rfl⟩
    · exact .inr ⟨e, rfl, hsnag⟩

/-! ### A quantity beyond the doubles -/

def quantityNode (k : Int) : Node :=
  ⟨.text "order", .text "buy", .null, .null, .object [("quantity", .int k)], []⟩

def quantityGraph (k : Int) : Graph :=
  { Graph.empty with nodes := [quantityNode k] }

def quantityLogic (k : Int) : Fields :=
  [("buyGraph", .object [("nodes", .list [.object (quantityNode k).toFields])])]

theorem ofNode_quantityNode {k : Int} (h : Number.floatOfInt? k = none) (graph : Option String) :
    OrderData.ofNode (quantityNode k) graph = .error .tooLargeForFloat := by
  have hquantity : (quantityNode k).decimalControl "quantity" (.real 0.0) graph =
      .error .tooLargeForFloat := by
    have hcontrol : (quantityNode k).control "quantity" (.real 0.0) = .ok (.int k) := rfl
    simp only [Node.decimalControl, hcontrol, Outcome.ok_bind, Value.toFloat, Value.numeric?,
      Value.Numeric.toFloat, h, Outcome.error_bind]
  have htype : (quantityNode k).control "orderType" (.text "market") = .ok (.text "market") := rfl
  have hmarket : Text.lower (Text.strip (Value.text "market").shown) ∈ orderTypes := by decide
  have hprice : (quantityNode k).decimalControl "limitPrice" (.real 0.0) graph = .ok 0.0 := rfl
  have hgiven : (quantityNode k).control "quantity" .null = .ok (.int k) := rfl
  simp [OrderData.ofNode, htype, hprice, hgiven, hmarket, hquantity, Value.isNull]

theorem ofLogic_quantityLogic {k : Int} (h : Number.floatOfInt? k = none) :
    CompiledLogic.ofLogic (.object (quantityLogic k)) = .error .tooLargeForFloat := by
  have hbuy : Graph.ofValue (Graph.pick (quantityLogic k) Graph.buyNames) =
      .ok (quantityGraph k) := rfl
  have hsell : Graph.ofValue (Graph.pick (quantityLogic k) Graph.sellNames) = .ok .empty := rfl
  have hterminal : (quantityGraph k).terminal "buyGraph" .buy = .ok (quantityNode k) := rfl
  have hcompile : (quantityGraph k).compile "buyGraph" .buy = .error .tooLargeForFloat := by
    rw [Graph.compile, hterminal, Outcome.ok_bind, ofNode_quantityNode h, Outcome.error_bind]
  have hkeys : (quantityGraph k).checkKeys = .ok () := rfl
  have hnoKeys : Graph.empty.checkKeys = .ok () := rfl
  rw [CompiledLogic.ofLogic_object, hbuy, hsell, Outcome.ok_bind, Outcome.ok_bind,
    CompiledLogic.ofGraphs, hkeys, hnoKeys, Outcome.ok_bind, Outcome.ok_bind, hcompile]
  rfl

def excessiveQuantity : Int :=
  Nat.pow 10 400

theorem floatOfInt?_excessiveQuantity : Number.floatOfInt? excessiveQuantity = none := by
  decide +kernel

/-- Surroundings whose log is kept and in which no order is executed. -/
def noting : Surroundings (List (String × String)) where
  source := { answer := fun _ s => (.ok .null, s) }
  log title message s := s ++ [(title, message)]
  executor := none

def parsedInterpreter : Interpreter where
  stock := .text "ABC"
  market := .new { stock := .text "ABC" } true
  status := .parsed
  compiled := some CompiledLogic.breakout

/-- An interpreter that is parsed gives up its logic for one with an excessive quantity, which hits
a snag. -/
theorem excessive_quantity_is_snag :
    ¬(parsedInterpreter.status = .running ∨ parsedInterpreter.status = .stopped) ∧
    (∃ e, CompiledLogic.ofLogic (.object (quantityLogic excessiveQuantity)) = .error e ∧
      Snag (quantityLogic excessiveQuantity) e) ∧
    ((parse noting (.object (quantityLogic excessiveQuantity))).exec
      (parsedInterpreter, [])).2.1.compiled = none := by
  have hfree : ¬(parsedInterpreter.status = .running ∨ parsedInterpreter.status = .stopped) := by
    decide
  have hfault := ofLogic_quantityLogic floatOfInt?_excessiveQuantity
  obtain ⟨-, -, -, hparse⟩ := parse_reports_unless_snagged noting
    (quantityLogic excessiveQuantity) parsedInterpreter [] hfree
  generalize (parse noting (.object (quantityLogic excessiveQuantity))).exec
    (parsedInterpreter, []) = after at hparse
  cases hparse with
  | accepted m h => cases h.symm.trans hfault
  | reported h => cases h.symm.trans hfault
  | @snagged e h hsnag => exact ⟨hfree, ⟨e, h, hsnag⟩, rfl⟩

/-- An excessive quantity is no defect: the parse gives no answer and logs nothing, and the status
and the last error are those of the logic before it. -/
theorem excessive_quantity_is_not_reported :
    CompiledLogic.ofLogic (.object (quantityLogic excessiveQuantity)) = .error .tooLargeForFloat ∧
    (parse noting (.object (quantityLogic excessiveQuantity))).exec (parsedInterpreter, []) =
      (.error .tooLargeForFloat, ({ parsedInterpreter with compiled := none }, [])) ∧
    parsedInterpreter.status = .parsed ∧ parsedInterpreter.lastError = none := by
  have hfault := ofLogic_quantityLogic floatOfInt?_excessiveQuantity
  refine ⟨hfault, ?_, rfl, rfl⟩
  rw [exec_parse_of_free _ _ _ (by decide), hfault]
  rfl

end TradingRules.Interpreter
