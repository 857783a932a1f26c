import TradingRules.Proofs.Interpreter.Dispatch

/-!
# What a run trades

As long as the executor only acts on its surroundings and succeeds, what a run decides and which
orders it hands over depend on nothing but its logic and the data of its market: both sides are
decided on the same data, and the selling side has no turn if the buying side fails. So runs with
different executors trade alike.
-/

namespace TradingRules

/-! ### Data that conditions read -/

/-- Two markets have the same data to evaluate conditions on, whatever else is under way in them. -/
structure Market.SameData (m n : Market) : Prop where
  history : m.history = n.history
  live : m.live = n.live
  highest : m.highest = n.highest

namespace Market.SameData

variable {m n : Market}

theorem refl (m : Market) : m.SameData m := ⟨rfl, rfl, rfl⟩

theorem trans {k : Market} (hm : m.SameData n) (hn : n.SameData k) : m.SameData k :=
  ⟨hm.history.trans hn.history, hm.live.trans hn.live, hm.highest.trans hn.highest⟩

theorem warmUp (m : Market) (unit length : Value) : (m.warmUp unit length).2.SameData m := by
  rw [Market.warmUp]
  split
  · exact refl m
  · split
    · exact refl m
    · exact ⟨rfl, rfl, rfl⟩

theorem retried (periods : List Market.Period) (m : Market) :
    (m.retried periods).SameData m := by
  induction periods generalizing m with
  | nil => exact refl m
  | cons p rest ih =>
    rw [Market.retried]
    split
    · exact ih m
    · exact (ih _).trans (warmUp m _ _)

theorem supply (h : m.SameData n) (leaf : Condition) : leaf.supply m = leaf.supply n := by
  have hlatest : m.latestPrice = n.latestPrice := by
    rw [Market.latestPrice, Market.latestPrice, h.live, h.history]
  have hhighest : ∀ unit length, m.highestPrice unit length = n.highestPrice unit length := by
    intro unit length
    simp only [Market.highestPrice, Market.highest?, h.highest]
  cases leaf <;> simp only [Condition.supply, hlatest, hhighest, h.history]

theorem evaluate (h : m.SameData n) (condition : Condition) :
    condition.evaluate m = condition.evaluate n := by
  induction condition with
  | compare operator a b iha ihb | logicOp operator a b iha ihb =>
    simp only [Condition.evaluate, iha, ihb]
  | _ => exact h.supply _

end Market.SameData

/-! ### Decisions and orders by the data alone -/

namespace CompiledLogic

variable (c : CompiledLogic)

def decision (m : Market) : Outcome Decision := do
  let buy ← (c.condition .buy).evaluate m
  let sell ← (c.condition .sell).evaluate m
  return ⟨buy.holds, sell.holds⟩

/-- The sides that a logic trades on, in the order of their turns. -/
def traded (m : Market) : List Side :=
  match (c.condition .buy).evaluate m with
  | .ok _ => [Side.buy, .sell].filter (c.isMet · m)
  | .error _ => []

variable {c} {m n : Market}

theorem isMet_congr (h : m.SameData n) (side : Side) : c.isMet side m = c.isMet side n := by
  rw [isMet, isMet, h.evaluate]

theorem decision_congr (h : m.SameData n) : c.decision m = c.decision n := by
  simp only [decision, h.evaluate]

theorem traded_congr (h : m.SameData n) : c.traded m = c.traded n := by
  simp only [traded, h.evaluate, isMet_congr h]

theorem flatMap_traded {α : Type} (sight : Side → List α) {v : Value}
    (hbuy : (c.condition .buy).evaluate m = .ok v) : (c.traded m).flatMap sight =
      (if c.isMet .buy m then sight .buy else []) ++
        if c.isMet .sell m then sight .sell else [] := by
  rw [traded, hbuy]
  cases hmet : c.isMet .buy m <;> cases hmet' : c.isMet .sell m <;> simp [hmet, hmet']

end CompiledLogic

namespace Interpreter

variable {σ α : Type}

/-- Surroundings in which the orders of a logic can be *seen*: an executed order adds to what is
seen, and an entry of the log does not. The executor always succeeds and never calls back. -/
structure Surroundings.Shows (around : Surroundings σ) (c : CompiledLogic) (seen : σ → List α)
    (sight : Side → Value → List α) : Prop where
  log : ∀ title message s, seen (around.log title message s) = seen s
  executor : ∃ executor, around.executor = some executor ∧ ∀ side stock, ∃ act,
    executor side (c.order side) stock = .finish act ∧
      ∀ s, (act s).1 = .ok () ∧ seen (act s).2 = seen s ++ sight side stock

variable {around : Surroundings σ} {c : CompiledLogic} {details : Bool} {seen : σ → List α}
  {sight : Side → Value → List α}

theorem Surroundings.Shows.noted (h : around.Shows c seen sight) (side : Side)
    (lines : List String) (a : Interpreter × σ) :
    seen (noted around side lines a).2 = seen a.2 := by
  show seen (lines.foldl _ a.2) = seen a.2
  induction lines generalizing a with
  | nil => rfl
  | cons line rest ih =>
    rw [List.foldl_cons]
    exact (ih (a.1, around.log side.title line a.2)).trans (h.log _ _ _)

/-- A turn comes to what its condition comes to, and leaves the interpreter as it is. -/
theorem Turn.shown {side : Side} {a z : Interpreter × σ} {events : List (Event σ)}
    {outcome : Outcome Bool} (hturn : Turn around c details side a events outcome z)
    (h : around.Shows c seen sight) :
    ((c.condition side).evaluate a.1.market).map Value.holds = outcome ∧ z.1 = a.1 ∧
      seen z.2 = seen a.2 ++ if c.isMet side a.1.market then sight side a.1.stock else [] := by
  cases hturn with
  | failed heval =>
    exact ⟨by rw [heval]; rfl, rfl, by simp [CompiledLogic.isMet, heval, h.noted]⟩
  | unmet heval hv =>
    exact ⟨by rw [heval, ← hv]; rfl, rfl, by simp [CompiledLogic.isMet, heval, hv, h.noted]⟩
  | unheard heval hv hnone =>
    obtain ⟨executor, hsome, -⟩ := h.executor
    rw [hnone] at hsome
    cases hsome
  | @executed v executor result z heval hv hexecutor hcarried =>
    obtain ⟨executor', hsome, hact⟩ := h.executor
    obtain rfl : executor' = executor := Option.some.inj (hsome.symm.trans hexecutor)
    obtain ⟨act, hfinish, hseen⟩ := hact side a.1.stock
    obtain ⟨hok, hadds⟩ := hseen (noted around side (c.lines details side a.1.market) a).2
    rw [hfinish] at hcarried
    simp only [carryOut, ExceptT.exec_bind, ExceptT.exec_get, ExceptT.exec_set,
      ExceptT.exec_liftM, hok] at hcarried
    cases hcarried
    refine ⟨by rw [heval, ← hv]; rfl, rfl, ?_⟩
    simp only [hadds, h.noted, CompiledLogic.isMet, heval, hv, if_true]

/-- The selling side has its turn in the state that the buying side has left, on the same data. -/
theorem Course.shown {a z : Interpreter × σ} {events : List (Event σ)} {outcome : Outcome Decision}
    (hcourse : Course around c details a events outcome z) (h : around.Shows c seen sight) :
    outcome = c.decision a.1.market ∧
      seen z.2 = seen a.2 ++ (c.traded a.1.market).flatMap (sight · a.1.stock) := by
  cases hcourse with
  | buyFailed hbuy =>
    obtain ⟨hvalue, -, hseen⟩ := hbuy.shown h
    have heval := Outcome.map_eq_error.mp hvalue
    simpa [CompiledLogic.decision, CompiledLogic.traded, CompiledLogic.isMet, heval] using hseen
  | sellFailed hbuy hsell =>
    obtain ⟨hvalue, hsame, hseen⟩ := hbuy.shown h
    obtain ⟨hvalue', -, hseen'⟩ := hsell.shown h
    rw [hsame] at hvalue' hseen'
    obtain ⟨v, heval, -⟩ := Outcome.map_eq_ok.mp hvalue
    have heval' := Outcome.map_eq_error.mp hvalue'
    exact ⟨by simp [CompiledLogic.decision, heval, heval'],
      by rw [CompiledLogic.flatMap_traded _ heval, hseen', hseen, List.append_assoc]⟩
  | decided hbuy hsell =>
    obtain ⟨hvalue, hsame, hseen⟩ := hbuy.shown h
    obtain ⟨hvalue', -, hseen'⟩ := hsell.shown h
    rw [hsame] at hvalue' hseen'
    obtain ⟨v, heval, hv⟩ := Outcome.map_eq_ok.mp hvalue
    obtain ⟨w, heval', hw⟩ := Outcome.map_eq_ok.mp hvalue'
    exact ⟨by simp [CompiledLogic.decision, heval, heval', hv, hw],
      by rw [CompiledLogic.flatMap_traded _ heval, hseen', hseen, List.append_assoc]⟩

/-- A run decides and trades by the data of its market. -/
theorem exec_run_shown {logic : Value} (hcompiled : CompiledLogic.ofLogic logic = .ok c)
    (h : around.Shows c seen sight) {i : Interpreter} (hi : i.compiled = some c)
    (hrunnable : i.isRunnable = true) (hfree : i.locked = false) (details : Bool) (s : σ) :
    ((run around details).exec (i, s)).1 = c.decision i.market ∧
      seen ((run around details).exec (i, s)).2.2 =
        seen s ++ (c.traded i.market).flatMap (sight · i.stock) := by
  obtain ⟨events, outcome, z, hcourse⟩ := exists_course around c details (i.underway c, s)
  have hdata : (i.underway c).market.SameData i.market := .retried _ _
  rw [hcourse.exec_run hcompiled hi hrunnable hfree, ← CompiledLogic.decision_congr hdata,
    ← CompiledLogic.traded_congr hdata]
  exact hcourse.shown h

end Interpreter

end TradingRules
