import TradingRules.Interpreter
import TradingRules.Proofs.Value.Execution

/-!
# Steps that do not read the log

Around an interpreter there is a log that entries are appended to. A step is blind if it does not
depend on the entries that are there already: with more entries in front it does the same, and its
own entries come after them. Every step of a run is blind as long as the market data and the
executor around it are.
-/

namespace TradingRules.Interpreter

namespace Step

variable {σ α : Type} (st : Interpreter × σ)

@[simp] theorem exec_change (f : Interpreter → Interpreter) :
    (change f : Step σ Unit).exec st = (.ok (), (f st.1, st.2)) := rfl

@[simp] theorem exec_surround (f : σ → σ) :
    (surround f : Step σ Unit).exec st = (.ok (), (st.1, f st.2)) := rfl

@[simp] theorem exec_market : (market : Step σ Market).exec st = (.ok st.1.market, st) := rfl

@[simp] theorem exec_onMarket (f : Market → Outcome α × Market) :
    (onMarket f : Step σ α).exec st =
      ((f st.1.market).1, ({ st.1 with market := (f st.1.market).2 }, st.2)) := by
  simp [onMarket, ExceptT.exec_bind]

@[simp] theorem exec_attempt (x : Step σ α) :
    (attempt x).exec st = (.ok (x.exec st).1, (x.exec st).2) := rfl

end Step

variable {ε τ α β : Type}

def before (l : List ε) (s : List ε × τ) : List ε × τ :=
  (l ++ s.1, s.2)

/-- A change of the surroundings that can append to the log but not read it. -/
def IsBlind (f : List ε × τ → α × (List ε × τ)) : Prop :=
  ∀ l s, f (before l s) = ((f s).1, before l (f s).2)

/-- What an executor does without reading the log. -/
inductive Conduct.Blind : Conduct (List ε × τ) → Prop
  | finish {act : List ε × τ → Outcome Unit × (List ε × τ)} (hact : IsBlind act) :
      Blind (.finish act)
  | act {change : List ε × τ → List ε × τ} {next : Conduct (List ε × τ)}
      (hchange : ∀ l s, change (before l s) = before l (change s)) (hnext : Blind next) :
      Blind (.act change next)
  | call {callback : Callback} {next : Outcome Value → Conduct (List ε × τ)}
      (hnext : ∀ result, Blind (next result)) : Blind (.call callback next)

/-- Surroundings with a log that nothing in them reads. -/
structure Surroundings.Blind (around : Surroundings (List ε × τ))
    (entry : String → String → ε) : Prop where
  log : ∀ title message s, around.log title message s = (s.1 ++ [entry title message], s.2)
  source : ∀ request, IsBlind (around.source.answer request)
  executor : ∀ executor ∈ around.executor, ∀ side order stock, (executor side order stock).Blind

def Step.Blind (x : Step (List ε × τ) α) : Prop :=
  ∀ l i s, x.exec (i, before l s) =
    ((x.exec (i, s)).1, ((x.exec (i, s)).2.1, before l (x.exec (i, s)).2.2))

namespace Step.Blind

theorem pure (a : α) : (pure a : Step (List ε × τ) α).Blind := fun _ _ _ => rfl

theorem throw (e : Fault) : (throw e : Step (List ε × τ) α).Blind := fun _ _ _ => rfl

theorem liftM (result : Outcome α) : (liftM result : Step (List ε × τ) α).Blind := fun _ _ _ => by
  simp

theorem bind {x : Step (List ε × τ) α} {f : α → Step (List ε × τ) β} (hx : x.Blind)
    (hf : ∀ a, (f a).Blind) : (x >>= f).Blind := by
  intro l i s
  rw [ExceptT.exec_bind, ExceptT.exec_bind, hx l i s]
  rcases x.exec (i, s) with ⟨e | a, i', s'⟩
  · rfl
  · exact hf a l i' s'

theorem change (f : Interpreter → Interpreter) : (change f : Step (List ε × τ) Unit).Blind :=
  fun _ _ _ => rfl

theorem market : (market : Step (List ε × τ) Market).Blind := fun _ _ _ => rfl

theorem surround {f : List ε × τ → List ε × τ} (hf : ∀ l s, f (before l s) = before l (f s)) :
    (surround f).Blind := fun l i s => by
  simp [hf]

theorem attempt {x : Step (List ε × τ) α} (hx : x.Blind) : (attempt x).Blind := fun l i s => by
  simp [hx l i s]

end Step.Blind

variable {around : Surroundings (List ε × τ)} {entry : String → String → ε}

namespace Surroundings.Blind

theorem log_before (h : around.Blind entry) (title message : String) (l : List ε)
    (s : List ε × τ) :
    around.log title message (before l s) = before l (around.log title message s) := by
  simp [h.log, before]

theorem runLookups (h : around.Blind entry) (periods : List Market.Period) (m : Market) :
    IsBlind (m.runLookups around.source periods) := by
  induction periods generalizing m with
  | nil => exact fun _ _ => rfl
  | cons p rest ih =>
    intro l s
    have hanswer := h.source (m.highestRequest p) l s
    simp only [Market.runLookups, Market.runLookup, hanswer]
    rcases around.source.answer (m.highestRequest p) s with ⟨e | price, s'⟩
    · exact ih _ l s'
    · dsimp only
      cases price.toFloat with
      | error e => exact ih _ l s'
      | ok x => exact ih _ l s'

theorem wait (h : around.Blind entry) : (wait around).Blind := by
  intro l i s
  simp only [Interpreter.wait, ExceptT.exec_bind, ExceptT.exec_get]
  cases i.market.ready with
  | false => rfl
  | true =>
    simp only [Market.finishLookups, h.runLookups i.market.pending i.market l s]
    rfl

theorem respond (h : around.Blind entry) (callback : Callback) :
    (respond around callback).Blind := by
  cases callback with
  | run details => exact .throw _
  | parse logic => exact fun _ _ _ => rfl
  | dispose => exact (Step.Blind.change _).bind fun _ => .pure _
  | wait => exact h.wait.bind fun _ => .pure _

theorem carryOut (h : around.Blind entry) {conduct : Conduct (List ε × τ)}
    (hconduct : conduct.Blind) : (carryOut around conduct).Blind := by
  induction hconduct with
  | finish hact =>
    intro l i s
    simp [Interpreter.carryOut, ExceptT.exec_bind, hact l s]
  | act hchange hnext ih => exact (Step.Blind.surround hchange).bind fun _ => ih
  | call hnext ih => exact (h.respond _).attempt.bind ih

theorem dispatch (h : around.Blind entry) (side : Side) (order : OrderData) :
    (dispatch around side order).Blind := by
  unfold Interpreter.dispatch
  cases hexecutor : around.executor with
  | none => exact .surround (h.log_before _ _)
  | some executor =>
    intro l i s
    have hcarried := h.carryOut (h.executor executor hexecutor side order i.stock) l i s
    simpa [ExceptT.exec_bind] using hcarried

theorem runSide (h : around.Blind entry) (side : Side) (condition : Condition)
    (order : OrderData) : (runSide around side condition order false).Blind := by
  have hdecide : (decideSide around side condition false).Blind :=
    Step.Blind.market.bind fun m => (Step.Blind.liftM _).bind fun _ => .pure _
  refine hdecide.bind fun holds => ?_
  cases holds with
  | false => exact (Step.Blind.surround (h.log_before _ _)).bind fun _ => .pure _
  | true => exact (h.dispatch side order).bind fun _ => .pure _

end Surroundings.Blind

end TradingRules.Interpreter
