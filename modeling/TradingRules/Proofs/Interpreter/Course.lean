import TradingRules.Proofs.Interpreter.Details

/-!
# The course of a run

A run takes the turns of both sides. On its turn the condition of a side is evaluated on the data as
it stands; then the side fails, logs that its condition is not met, or hands its order to the
executor, which may call back into the interpreter. `Turn` and `Course` say which events come of
this, in which order and in which states, without reference to the steps of a run.

To compare with the steps, the surroundings are made to keep a journal in which every entry of the
log, every call of the executor and every callback leaves a mark. A run does the same with and
without a journal, and its marks are those of the events of its course.
-/

namespace TradingRules

variable {σ α β : Type}

namespace Interpreter

/-! ### Operations -/

inductive Operation where
  | parse (logic : Value)
  | run (details : Bool)
  | dispose
  | wait
  /-- The first fetch of candles. -/
  | fetch
  | ingest (batch : Value)
  | setLive (price : Value)

def operate (around : Surroundings σ) : Operation → Step σ Value
  | .parse logic => return .bool (← parse around logic)
  | .run details => return (← run around details).toValue
  | .dispose => do
    Step.change Interpreter.dispose
    return .null
  | .wait => return .bool (← wait around)
  | .fetch => do
    fetch around
    return .null
  | .ingest batch => do
    Step.onMarket (·.ingest batch)
    return .null
  | .setLive price => do
    Step.onMarket (·.setLive price)
    return .null

/-- Does an operation start something that an interpreter can refuse? -/
def Operation.IsRequest (operation : Operation) : Prop :=
  (∃ details, operation = .run details) ∨ ∃ logic, operation = .parse logic

def Callback.operation : Callback → Operation
  | run details => .run details
  | parse logic => .parse logic
  | dispose => .dispose
  | wait => .wait

structure Moment (σ : Type) where
  operation : Operation
  before : Interpreter × σ
  answer : Outcome Value
  after : Interpreter × σ

def Moment.of (around : Surroundings σ) (before : Interpreter × σ) (operation : Operation) :
    Moment σ :=
  let (answer, after) := (operate around operation).exec before
  { operation, before, answer, after }

def trail (around : Surroundings σ) : Interpreter × σ → List Operation → List (Moment σ)
  | _, [] => []
  | a, operation :: rest =>
    .of around a operation :: trail around (Moment.of around a operation).after rest

def Moment.ofCallback (around : Surroundings σ) (before : Interpreter × σ) (callback : Callback) :
    Moment σ :=
  let (answer, after) := (respond around callback).exec before
  { operation := callback.operation, before, answer, after }

/-- The callbacks that an executor makes. -/
def Conduct.callbacks (around : Surroundings σ) : Conduct σ → Interpreter × σ → List (Moment σ)
  | .finish _, _ => []
  | .act change next, a => next.callbacks around (a.1, change a.2)
  | .call callback next, a =>
    let moment := Moment.ofCallback around a callback
    moment :: (next moment.answer).callbacks around moment.after

/-! ### Turns -/

end Interpreter

namespace CompiledLogic

def condition (c : CompiledLogic) : Side → Condition
  | .buy => c.buy
  | .sell => c.sell

def order (c : CompiledLogic) : Side → OrderData
  | .buy => c.buyOrder
  | .sell => c.sellOrder

theorem hasSort_condition {logic : Value} (c : CompiledLogic) (h : ofLogic logic = .ok c)
    (side : Side) : (c.condition side).HasSort .truth := by
  obtain ⟨hbuy, hsell⟩ := hasSort_of_ofLogic h
  cases side
  · exact hbuy
  · exact hsell

/-- Does the condition of a side hold on the data as it stands? -/
def isMet (c : CompiledLogic) (side : Side) (m : Market) : Bool :=
  match (c.condition side).evaluate m with
  | .ok v => v.holds
  | .error _ => false

/-- The lines of the account of a side, if details are asked for. -/
def lines (c : CompiledLogic) (details : Bool) (side : Side) (m : Market) : List String :=
  if details then ((c.condition side).account m).1 else []

end CompiledLogic

namespace Interpreter

inductive Event (σ : Type) where
  | entry (title message : String)
  | call (call : Call)
  | callback (moment : Moment σ)

def notMet (side : Side) : String :=
  s!"{side.title} condition not met"

def unheard (side : Side) : String :=
  s!"{side.name} condition met (no order executor)"

/-- Logs lines under the title of a side. -/
def noted (around : Surroundings σ) (side : Side) (lines : List String) (a : Interpreter × σ) :
    Interpreter × σ :=
  (a.1, lines.foldl (fun s line => around.log side.title line s) a.2)

/-- The turn of a side from a state: its events, what it comes to and the state in the end. The
condition is evaluated once, on the data of the state that the turn starts from. -/
inductive Turn (around : Surroundings σ) (c : CompiledLogic) (details : Bool) (side : Side)
    (a : Interpreter × σ) : List (Event σ) → Outcome Bool → Interpreter × σ → Prop
  | failed {e : Fault} (heval : (c.condition side).evaluate a.1.market = .error e) :
      Turn around c details side a
        ((c.lines details side a.1.market).map (.entry side.title)) (.error e)
        (noted around side (c.lines details side a.1.market) a)
  | unmet {v : Value} (heval : (c.condition side).evaluate a.1.market = .ok v)
      (hv : v.holds = false) :
      Turn around c details side a
        ((c.lines details side a.1.market ++ [notMet side]).map (.entry side.title)) (.ok false)
        (noted around side (c.lines details side a.1.market ++ [notMet side]) a)
  | unheard {v : Value} (heval : (c.condition side).evaluate a.1.market = .ok v)
      (hv : v.holds = true) (hexecutor : around.executor = none) :
      Turn around c details side a
        ((c.lines details side a.1.market ++ [unheard side]).map (.entry side.title)) (.ok true)
        (noted around side (c.lines details side a.1.market ++ [unheard side]) a)
  | executed {v : Value} {executor : Side → OrderData → Value → Conduct σ} {result : Outcome Unit}
      {z : Interpreter × σ} (heval : (c.condition side).evaluate a.1.market = .ok v)
      (hv : v.holds = true) (hexecutor : around.executor = some executor)
      (hcarried : (carryOut around (executor side (c.order side) a.1.stock)).exec
        (noted around side (c.lines details side a.1.market) a) = (result, z)) :
      Turn around c details side a
        ((c.lines details side a.1.market).map (.entry side.title) ++
          .call ⟨side, c.order side, a.1.stock⟩ ::
            ((executor side (c.order side) a.1.stock).callbacks around
              (noted around side (c.lines details side a.1.market) a)).map .callback)
        (result.map fun _ => true) z

/-- The course of both turns. The turn of the selling side comes only if the buying side did not
fail. -/
inductive Course (around : Surroundings σ) (c : CompiledLogic) (details : Bool)
    (a : Interpreter × σ) : List (Event σ) → Outcome Decision → Interpreter × σ → Prop
  | buyFailed {events : List (Event σ)} {e : Fault} {z : Interpreter × σ}
      (hbuy : Turn around c details .buy a events (.error e) z) :
      Course around c details a events (.error e) z
  | sellFailed {bought sold : List (Event σ)} {buy : Bool} {e : Fault} {b z : Interpreter × σ}
      (hbuy : Turn around c details .buy a bought (.ok buy) b)
      (hsell : Turn around c details .sell b sold (.error e) z) :
      Course around c details a (bought ++ sold) (.error e) z
  | decided {bought sold : List (Event σ)} {buy sell : Bool} {b z : Interpreter × σ}
      (hbuy : Turn around c details .buy a bought (.ok buy) b)
      (hsell : Turn around c details .sell b sold (.ok sell) z) :
      Course around c details a (bought ++ sold) (.ok ⟨buy, sell⟩) z

/-! ### The journal -/

inductive Mark where
  | entry (title message : String)
  | call (call : Call)
  | callback (operation : Operation) (answer : Outcome Value)

def Moment.mark (m : Moment σ) : Mark :=
  .callback m.operation m.answer

def Event.mark : Event σ → Mark
  | entry title message => .entry title message
  | call c => .call c
  | callback moment => moment.mark

abbrev World (σ : Type) := List Mark × σ

def unmarked (f : σ → α × σ) (w : World σ) : α × World σ :=
  ((f w.2).1, (w.1, (f w.2).2))

def marking (mark : Mark) (w : World σ) : World σ :=
  (w.1 ++ [mark], w.2)

def Conduct.journaled : Conduct σ → Conduct (World σ)
  | .finish last => .finish (unmarked last)
  | .act change next => .act (fun w => (w.1, change w.2)) next.journaled
  | .call callback next => .call callback fun answer =>
    .act (marking (.callback callback.operation answer)) (next answer).journaled

/-- Surroundings that do what they did and keep a journal besides. -/
def Surroundings.journaled (around : Surroundings σ) : Surroundings (World σ) where
  source := ⟨fun request => unmarked (around.source.answer request)⟩
  log title message w := marking (.entry title message) (w.1, around.log title message w.2)
  executor := around.executor.map fun executor side order stock =>
    .act (marking (.call ⟨side, order, stock⟩)) (executor side order stock).journaled

variable (around : Surroundings σ)

theorem refresh_journaled (count : Value) (m : Market) (l : List Mark) (s : σ) :
    m.refresh around.journaled.source count (l, s) =
      ((m.refresh around.source count s).1, (l, (m.refresh around.source count s).2)) := by
  simp only [Market.refresh, Surroundings.journaled, unmarked]
  rcases around.source.answer (m.candleRequest count) s with ⟨e | batch, s'⟩ <;> rfl

theorem runLookups_journaled (periods : List Market.Period) (m : Market) (l : List Mark) (s : σ) :
    m.runLookups around.journaled.source periods (l, s) =
      ((m.runLookups around.source periods s).1,
        (l, (m.runLookups around.source periods s).2)) := by
  induction periods generalizing m s with
  | nil => rfl
  | cons p rest ih =>
    have hlookup : m.runLookup around.journaled.source p (l, s) =
        ((m.runLookup around.source p s).1, (l, (m.runLookup around.source p s).2)) := by
      simp only [Market.runLookup, Surroundings.journaled, unmarked]
      rcases around.source.answer (m.highestRequest p) s with ⟨e | price, s'⟩
      · rfl
      · dsimp only
        cases price.toFloat <;> rfl
    simp only [Market.runLookups, hlookup, ih]

/-- A step that leaves no marks: with a journal it does what it does without. -/
def Step.Unmarked (x : Step σ α) (y : Step (World σ) α) : Prop :=
  ∀ i l s, y.exec (i, (l, s)) = ((x.exec (i, s)).1, ((x.exec (i, s)).2.1, (l, (x.exec (i, s)).2.2)))

theorem Step.Unmarked.bind_pure {x : Step σ α} {y : Step (World σ) α} (h : Step.Unmarked x y)
    (f : α → β) : Step.Unmarked (x >>= fun a => pure (f a)) (y >>= fun a => pure (f a)) := by
  intro i l s
  rw [ExceptT.exec_bind, ExceptT.exec_bind, h i l s]
  rcases x.exec (i, s) with ⟨e | a, i', s'⟩ <;> rfl

theorem unmarked_wait : Step.Unmarked (wait around) (wait around.journaled) := by
  intro i l s
  simp only [wait, ExceptT.exec_bind, ExceptT.exec_get]
  cases i.market.ready with
  | false => rfl
  | true =>
    simp only [Market.finishLookups, runLookups_journaled]
    rfl

theorem unmarked_fetch : Step.Unmarked (fetch around) (fetch around.journaled) := by
  intro i l s
  simp only [fetch, ExceptT.exec_bind, ExceptT.exec_get, Market.finishFetch, Market.fetchFirst]
  cases i.market.fetchDue with
  | false => rfl
  | true =>
    simp only [refresh_journaled]
    rfl

theorem unmarked_respond (callback : Callback) :
    Step.Unmarked (respond around callback) (respond around.journaled callback) := by
  cases callback with
  | run details => exact fun _ _ _ => rfl
  | parse logic => exact fun _ _ _ => rfl
  | dispose => exact fun _ _ _ => rfl
  | wait => exact (unmarked_wait around).bind_pure _

theorem exec_carryOut_journaled (conduct : Conduct σ) (i : Interpreter) (l : List Mark) (s : σ) :
    (carryOut around.journaled conduct.journaled).exec (i, (l, s)) =
      let carried := (carryOut around conduct).exec (i, s)
      (carried.1, (carried.2.1, (l ++ (conduct.callbacks around (i, s)).map Moment.mark,
        carried.2.2))) := by
  induction conduct generalizing i l s with
  | finish act =>
    simp [carryOut, Conduct.journaled, Conduct.callbacks, ExceptT.exec_bind, unmarked]
  | act change next ih =>
    simp [carryOut, Conduct.journaled, Conduct.callbacks, ExceptT.exec_bind, ih]
  | call callback next ih =>
    simp [carryOut, Conduct.journaled, Conduct.callbacks, ExceptT.exec_bind, ih,
      unmarked_respond around callback i l s, marking, Moment.ofCallback, Moment.mark]

/-! ### What the steps of a run come to -/

theorem exec_writeLines_noted (side : Side) (lines : List String) (a : Interpreter × σ) :
    (writeLines around side.title lines).exec a = (.ok (), noted around side lines a) := by
  induction lines generalizing a with
  | nil => rfl
  | cons line rest ih => simp [writeLines, ExceptT.exec_bind, ih, noted]

theorem noted_journaled (side : Side) (lines : List String) (i : Interpreter) (l : List Mark)
    (s : σ) : noted around.journaled side lines (i, (l, s)) =
      (i, (l ++ lines.map (.entry side.title), (noted around side lines (i, s)).2)) := by
  induction lines generalizing l s with
  | nil => simp [noted]
  | cons line rest ih =>
    have hrest := ih (l ++ [.entry side.title line]) (around.log side.title line s)
    simp only [List.append_assoc, List.singleton_append] at hrest
    exact hrest

section

variable {around} {c : CompiledLogic} {details : Bool} {side : Side} {a z : Interpreter × σ}
  {events : List (Event σ)} {outcome : Outcome Bool}

theorem exec_decideSide {sort : ValueSort} (hsort : (c.condition side).HasSort sort)
    (a : Interpreter × σ) : (decideSide around side (c.condition side) details).exec a =
      (((c.condition side).evaluate a.1.market).map Value.holds,
        noted around side (c.lines details side a.1.market) a) := by
  have hvalue := (hsort.recounts a.1.market).value
  cases details with
  | false =>
    cases heval : (c.condition side).evaluate a.1.market <;>
      simp [decideSide, ExceptT.exec_bind, heval, CompiledLogic.lines, noted, Except.map]
  | true =>
    cases heval : (c.condition side).evaluate a.1.market <;>
      simp [decideSide, ExceptT.exec_bind, heval, hvalue, exec_writeLines_noted,
        CompiledLogic.lines, Except.map]

/-- A turn is what the steps of a side come to. -/
theorem Turn.exec {sort : ValueSort} (hsort : (c.condition side).HasSort sort)
    (h : Turn around c details side a events outcome z) :
    (runSide around side (c.condition side) (c.order side) details).exec a = (outcome, z) := by
  cases h with
  | failed heval => simp [runSide, ExceptT.exec_bind, exec_decideSide hsort, heval, Except.map]
  | unmet heval hv =>
    simp [runSide, ExceptT.exec_bind, exec_decideSide hsort, heval, hv, Except.map, notMet, noted]
  | unheard heval hv hexecutor =>
    simp [runSide, ExceptT.exec_bind, exec_decideSide hsort, heval, hv, Except.map, dispatch,
      hexecutor, Interpreter.unheard, noted]
  | @executed v executor result z heval hv hexecutor hcarried =>
    have hstock : (noted around side (c.lines details side a.1.market) a).1.stock = a.1.stock := rfl
    cases result <;>
      simp [runSide, ExceptT.exec_bind, exec_decideSide hsort, heval, hv, Except.map, dispatch,
        hexecutor, hstock, hcarried]

theorem map_mark_entry (title : String) (lines : List String) :
    (lines.map (.entry title)).map (Event.mark (σ := σ)) = lines.map (.entry title) := by
  simp [Event.mark]

/-- With a journal a turn takes the same course, and its events leave their marks. -/
theorem Turn.journaled (h : Turn around c details side a events outcome z) (l : List Mark) :
    ∃ events', Turn around.journaled c details side (a.1, (l, a.2)) events' outcome
      (z.1, (l ++ events.map Event.mark, z.2)) := by
  obtain ⟨i, s⟩ := a
  cases h with
  | failed heval =>
    have hturn : Turn around.journaled c details side (i, (l, s)) _ _ _ := .failed heval
    rw [noted_journaled] at hturn
    exact ⟨_, map_mark_entry (σ := σ) side.title _ ▸ hturn⟩
  | unmet heval hv =>
    have hturn : Turn around.journaled c details side (i, (l, s)) _ _ _ := .unmet heval hv
    rw [noted_journaled] at hturn
    exact ⟨_, map_mark_entry (σ := σ) side.title _ ▸ hturn⟩
  | unheard heval hv hexecutor =>
    have hnone : around.journaled.executor = none := by
      simp [Surroundings.journaled, hexecutor]
    have hturn : Turn around.journaled c details side (i, (l, s)) _ _ _ :=
      .unheard heval hv hnone
    rw [noted_journaled] at hturn
    exact ⟨_, map_mark_entry (σ := σ) side.title _ ▸ hturn⟩
  | @executed v executor result z heval hv hexecutor hcarried =>
    have hsome : around.journaled.executor = some fun side order stock =>
        .act (marking (.call ⟨side, order, stock⟩)) (executor side order stock).journaled := by
      simp [Surroundings.journaled, hexecutor]
    have hcallbacks := exec_carryOut_journaled around (executor side (c.order side) i.stock) i
      (l ++ (c.lines details side i.market).map (.entry side.title) ++
        [.call ⟨side, c.order side, i.stock⟩])
      (noted around side (c.lines details side i.market) (i, s)).2
    have hfirst : noted around side (c.lines details side i.market) (i, s) =
        (i, (noted around side (c.lines details side i.market) (i, s)).2) := rfl
    rw [← hfirst, hcarried] at hcallbacks
    refine ⟨_, .executed heval hv hsome ?_⟩
    simp only [carryOut, ExceptT.exec_bind, Step.exec_surround, noted_journaled, marking,
      hcallbacks, List.map_append, map_mark_entry]
    simp [Event.mark]

theorem exists_turn (around : Surroundings σ) (c : CompiledLogic) (details : Bool) (side : Side)
    (a : Interpreter × σ) : ∃ events outcome z, Turn around c details side a events outcome z := by
  cases heval : (c.condition side).evaluate a.1.market with
  | error e => exact ⟨_, _, _, .failed heval⟩
  | ok v =>
    cases hv : v.holds with
    | false => exact ⟨_, _, _, .unmet heval hv⟩
    | true =>
      cases hexecutor : around.executor with
      | none => exact ⟨_, _, _, .unheard heval hv hexecutor⟩
      | some executor => exact ⟨_, _, _, .executed heval hv hexecutor rfl⟩

end

theorem exists_course (around : Surroundings σ) (c : CompiledLogic) (details : Bool)
    (a : Interpreter × σ) : ∃ events outcome z, Course around c details a events outcome z := by
  obtain ⟨bought, buying, b, hbuy⟩ := exists_turn around c details .buy a
  cases buying with
  | error e => exact ⟨_, _, _, .buyFailed hbuy⟩
  | ok buy =>
    obtain ⟨sold, selling, z, hsell⟩ := exists_turn around c details .sell b
    cases selling with
    | error e => exact ⟨_, _, _, .sellFailed hbuy hsell⟩
    | ok sell => exact ⟨_, _, _, .decided hbuy hsell⟩

namespace Course

variable {around} {c : CompiledLogic} {details : Bool} {a z : Interpreter × σ}
  {events : List (Event σ)} {outcome : Outcome Decision}

theorem journaled (h : Course around c details a events outcome z) (l : List Mark) :
    ∃ events', Course around.journaled c details (a.1, (l, a.2)) events' outcome
      (z.1, (l ++ events.map Event.mark, z.2)) := by
  cases h with
  | buyFailed hbuy =>
    obtain ⟨events', hbuy⟩ := hbuy.journaled l
    exact ⟨_, .buyFailed hbuy⟩
  | @sellFailed bought sold buy e b z hbuy hsell =>
    obtain ⟨bought', hbuy⟩ := hbuy.journaled l
    obtain ⟨sold', hsell⟩ := hsell.journaled (l ++ bought.map Event.mark)
    rw [List.append_assoc, ← List.map_append] at hsell
    exact ⟨_, .sellFailed hbuy hsell⟩
  | @decided bought sold buy sell b z hbuy hsell =>
    obtain ⟨bought', hbuy⟩ := hbuy.journaled l
    obtain ⟨sold', hsell⟩ := hsell.journaled (l ++ bought.map Event.mark)
    rw [List.append_assoc, ← List.map_append] at hsell
    exact ⟨_, .decided hbuy hsell⟩

variable {logic : Value} {i : Interpreter} {s : σ}

/-- A course is what a run comes to once it is underway. -/
theorem exec_run (hcompiled : CompiledLogic.ofLogic logic = .ok c) (hi : i.compiled = some c)
    (hrunnable : i.isRunnable = true) (hfree : i.locked = false)
    (h : Course around c details (i.underway c, s) events outcome z) :
    (run around details).exec (i, s) = (outcome, (release z.1, z.2)) := by
  have hbuying : ∀ {a z : Interpreter × σ} {events outcome},
      Turn around c details .buy a events outcome z →
        (runSide around .buy c.buy c.buyOrder details).exec a = (outcome, z) :=
    fun h => h.exec (c.hasSort_condition hcompiled .buy)
  have hselling : ∀ {a z : Interpreter × σ} {events outcome},
      Turn around c details .sell a events outcome z →
        (runSide around .sell c.sell c.sellOrder details).exec a = (outcome, z) :=
    fun h => h.exec (c.hasSort_condition hcompiled .sell)
  have hretry : (retryLookups c.warmUps).exec ({ i with status := .running, locked := true }, s) =
      (.ok (), (i.underway c, s)) :=
    exec_retryLookups (fun p hp => (CompiledLogic.knownUnits_warmUps hcompiled).isKey hp) _ s
  have hsides : (runSides around c details).exec
      ({ i with status := .running, locked := true }, s) = (outcome, z) := by
    rw [runSides, ExceptT.exec_bind_ok hretry]
    cases h with
    | buyFailed hbuy => simp [ExceptT.exec_bind, hbuying hbuy]
    | sellFailed hbuy hsell => simp [ExceptT.exec_bind, hbuying hbuy, hselling hsell, Except.map]
    | decided hbuy hsell => simp [ExceptT.exec_bind, hbuying hbuy, hselling hsell, Except.map]
  rw [Interpreter.exec_run hi hrunnable hfree, hsides]

theorem exec_run_journaled (hcompiled : CompiledLogic.ofLogic logic = .ok c)
    (hi : i.compiled = some c) (hrunnable : i.isRunnable = true) (hfree : i.locked = false)
    (h : Course around c details (i.underway c, s) events outcome z) (l : List Mark) :
    (run around.journaled details).exec (i, (l, s)) =
      (outcome, (release z.1, (l ++ events.map Event.mark, z.2))) := by
  obtain ⟨events', hjournaled⟩ := h.journaled l
  exact hjournaled.exec_run hcompiled hi hrunnable hfree

end Course

end Interpreter

end TradingRules
