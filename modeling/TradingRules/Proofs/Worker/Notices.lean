import TradingRules.Proofs.Interpreter.Parsing
import TradingRules.Proofs.Worker.Pacing
import TradingRules.Worker.Basic

/-!
# What a worker posts

A worker answers a logic that compiles by the message that it is ready, and a message to start by
the interval of its scheduler, once its interpreter can run. The ticks of the scheduler post entries
of the log, orders, and the faults of failed runs; they are never taken for anything else.
-/

namespace TradingRules

open ExceptT (Within Steady)

/-! ### What a run does to its surroundings -/

namespace Interpreter

variable {σ α β : Type} {around : Surroundings σ} {R : σ → σ → Prop}

/-- Surroundings that are changed in one way only, by the log and by an executor that does not call
back. -/
structure Surroundings.Respects (around : Surroundings σ) (R : σ → σ → Prop) : Prop where
  log : ∀ title message s, R s (around.log title message s)
  executor : ∀ executor ∈ around.executor, ∀ side order stock,
    ∃ act, executor side order stock = .finish act ∧ ∀ s, R s (act s).2

/-- Whatever becomes of a step, it changes the surroundings in one way only. -/
def Step.Respects (R : σ → σ → Prop) (x : Step σ α) : Prop :=
  Within (fun a b : Interpreter × σ => R a.2 b.2) (fun _ => True) x

section

variable (hR : Steady R)

include hR

theorem steady_outer : Steady fun a b : Interpreter × σ => R a.2 b.2 where
  refl a := hR.refl a.2
  trans := hR.trans

namespace Step.Respects

theorem pure (a : α) : Respects R (pure a) := (steady_outer hR).within_pure a

theorem liftM (result : Outcome α) : Respects R (liftM result) :=
  (steady_outer hR).within_liftM fun _ _ => trivial

theorem bind {x : Step σ α} {f : α → Step σ β} (hx : Respects R x) (hf : ∀ a, Respects R (f a)) :
    Respects R (x >>= f) :=
  (steady_outer hR).within_bind hx hf

theorem market : Respects R market := fun a => ⟨hR.refl a.2, fun _ _ => trivial⟩

theorem onMarket (f : Market → Outcome α × Market) : Respects R (onMarket f) := fun a => by
  rw [exec_onMarket]
  exact ⟨hR.refl a.2, fun _ _ => trivial⟩

end Step.Respects

open Step.Respects (bind liftM onMarket)

theorem respects_startLookups (periods : List Market.Period) :
    Step.Respects R (startLookups periods) := by
  induction periods with
  | nil => exact .pure hR ()
  | cons p rest ih => exact bind hR (onMarket hR _) fun _ => ih

theorem respects_retryLookups (periods : List Market.Period) :
    Step.Respects R (retryLookups periods) := by
  induction periods with
  | nil => exact .pure hR ()
  | cons p rest ih =>
    refine bind hR (.market hR) fun m => bind hR (liftM hR _) fun ready => ?_
    split
    · exact bind hR (respects_startLookups hR [p]) fun _ => ih
    · exact ih

end

namespace Surroundings.Respects

variable (h : around.Respects R) (hR : Steady R)

include h

theorem surround_log (title message : String) :
    Step.Respects R (Step.surround (around.log title message)) := fun a =>
  ⟨h.log title message a.2, fun _ _ => trivial⟩

theorem dispatch (side : Side) (order : OrderData) :
    Step.Respects R (dispatch around side order) := by
  unfold Interpreter.dispatch
  cases hexecutor : around.executor with
  | none => exact h.surround_log _ _
  | some executor =>
    intro a
    obtain ⟨act, hact, hrespects⟩ := h.executor executor hexecutor side order a.1.stock
    rw [ExceptT.exec_bind_ok (ExceptT.exec_get a), hact]
    simp only [carryOut, ExceptT.exec_bind, ExceptT.exec_get, ExceptT.exec_set,
      ExceptT.exec_liftM]
    exact ⟨hrespects a.2, fun _ _ => trivial⟩

include hR

open Step.Respects (bind liftM)

theorem writeLines (title : String) (lines : List String) :
    Step.Respects R (writeLines around title lines) := by
  induction lines with
  | nil => exact .pure hR ()
  | cons line rest ih => exact bind hR (h.surround_log _ _) fun _ => ih

theorem decideSide (side : Side) (condition : Condition) (details : Bool) :
    Step.Respects R (decideSide around side condition details) := by
  refine bind hR (.market hR) fun m => ?_
  split
  · exact bind hR (h.writeLines hR _ _) fun _ => bind hR (liftM hR _) fun _ => .pure hR _
  · exact bind hR (liftM hR _) fun _ => .pure hR _

theorem runSide (side : Side) (condition : Condition) (order : OrderData) (details : Bool) :
    Step.Respects R (runSide around side condition order details) := by
  refine bind hR (h.decideSide hR _ _ _) fun holds => ?_
  split
  · exact bind hR (h.dispatch side order) fun _ => .pure hR _
  · exact bind hR (h.surround_log _ _) fun _ => .pure hR _

theorem runSides (c : CompiledLogic) (details : Bool) :
    Step.Respects R (runSides around c details) :=
  bind hR (respects_retryLookups hR _) fun _ => bind hR (h.runSide hR _ _ _ _) fun _ =>
    bind hR (h.runSide hR _ _ _ _) fun _ => .pure hR _

theorem run (details : Bool) : Step.Respects R (run around details) := by
  intro a
  obtain ⟨i, s⟩ := a
  cases hlocked : i.locked with
  | true =>
    rw [exec_run_of_locked hlocked]
    exact ⟨hR.refl s, fun _ _ => trivial⟩
  | false =>
    by_cases hready : ∃ c, i.compiled = some c ∧ i.isRunnable = true
    · obtain ⟨c, hcompiled, hrunnable⟩ := hready
      rw [exec_run hcompiled hrunnable hlocked]
      have hsides := h.runSides hR c details ({ i with status := .running, locked := true }, s)
      exact ⟨hsides.1, fun _ _ => trivial⟩
    · have hrefused : (Interpreter.run around details).exec (i, s) =
          (.error (.interpreterState s!"cannot run while {i.status.name}"), (i, s)) := by
        cases hcompiled : i.compiled with
        | none => simp [Interpreter.run, ExceptT.exec_bind, hlocked, hcompiled]
        | some c =>
          have hidle : i.isRunnable = false := by simpa [hcompiled] using hready
          simp [Interpreter.run, ExceptT.exec_bind, hlocked, hcompiled, hidle]
      rw [hrefused]
      exact ⟨hR.refl s, fun _ _ => trivial⟩

end Surroundings.Respects

end Interpreter

/-- A logic that compiles does not count as false. -/
theorem CompiledLogic.isTruthy_of_ofLogic {logic : Value} {c : CompiledLogic}
    (h : ofLogic logic = .ok c) : logic.isTruthy = true := by
  by_contra htruthy
  have hfalse : logic.isTruthy = false := by simpa using htruthy
  have hempty : ∃ e, ofGraphs Graph.empty Graph.empty = .error e :=
    ⟨_, by with_unfolding_all rfl⟩
  obtain ⟨e, hempty⟩ := hempty
  have hlogic : ofLogic logic = ofGraphs Graph.empty Graph.empty := by
    simp [ofLogic, Graph.ofLogic, hfalse]
  rw [hlogic, hempty] at h
  cases h

/-! ### Notices -/

namespace Worker

def Notice.isReady : Notice → Bool
  | ready => true
  | _ => false

def Notice.isStarted : Notice → Bool
  | started _ => true
  | _ => false

/-- What ticks post: entries of the log, orders, and the faults of failed runs. -/
inductive Notice.OfTick : Notice → Prop
  | log (title message : String) : OfTick (.log title message)
  | order (side : Side) (stock : Value) (data : OrderData) : OfTick (.order side stock data)
  | fault (e : Fault) : OfTick (.error s!"{e.kind}: {e.message}")

/-- The fault of a run is told from a message that there is nothing to start. -/
theorem Notice.OfTick.ne_error {n : Notice} (h : n.OfTick) :
    n ≠ .error "Interpreter not initialized" := by
  rintro rfl
  generalize htext : "Interpreter not initialized" = text at h
  cases h with
  | fault e =>
    have hcolon : ':' ∈ (s!"{e.kind}: {e.message}").toList := by
      simp only [String.toList_append, List.mem_append]
      exact .inl (.inr (by decide))
    rw [← htext] at hcolon
    exact absurd hcolon (by decide)

/-- Some notices were posted, all of them such as ticks post. -/
def Posts {τ : Type} (line line' : Line τ) : Prop :=
  ∃ notices, line'.posted = line.posted ++ notices ∧ ∀ n ∈ notices, n.OfTick

/-- The logic that a message asks to take up. -/
def logicOf (f : Fields) : Value :=
  (Fields.get f "logic_data").orElse (.object [])

variable {τ : Type}

theorem steady_posts : Steady (Posts (τ := τ)) where
  refl line := ⟨[], by simp⟩
  trans := by
    rintro a b c ⟨first, hfirst, hall⟩ ⟨second, hsecond, hall'⟩
    refine ⟨first ++ second, by simp [hsecond, hfirst], fun n hn => ?_⟩
    exact (List.mem_append.mp hn).elim (hall n) (hall' n)

theorem posts_post (line : Line τ) {n : Notice} (hn : n.OfTick) : Posts line (line.post n) :=
  ⟨[n], rfl, by simpa using hn⟩

namespace Desk

variable (peer : Peer τ) (d : Desk τ)

theorem respects_posts : (surroundings peer).Respects Posts where
  log title message line := posts_post line (.log title message)
  executor := by
    intro executor hexecutor side order stock
    obtain rfl := Option.some.inj hexecutor
    exact ⟨_, rfl, fun line => posts_post line (.order side stock order)⟩

theorem posts_runStep (i : Interpreter) (details : Bool) :
    Posts d.line (d.runStep i (Interpreter.run (surroundings peer) details)).2.2.line :=
  ((respects_posts peer).run steady_posts details (i, d.line)).1

theorem posts_reportRun (outcome : Outcome Decision) : Posts d.line (d.reportRun outcome).line := by
  cases outcome with
  | ok decision => exact steady_posts.refl d.line
  | error e => exact posts_post d.line (.fault e)

theorem posts_tick : Posts d.line (d.tick peer).line := by
  unfold tick
  split
  · exact steady_posts.refl d.line
  · dsimp only
    split
    · exact steady_posts.trans (posts_runStep peer d _ _) (posts_reportRun _ _)
    · exact steady_posts.trans (posts_runStep peer d _ _) (posts_reportRun _ _)
    · exact steady_posts.refl d.line

/-! ### Taking up a logic -/

def replace (d : Desk τ) (i : Interpreter) (line : Line τ) : Desk τ :=
  ⟨some i, d.scheduler.map (keepHeld d.interpreter), line⟩

/-- The interpreter that is to take up the logic of a message. -/
def fresh (f : Fields) : Interpreter :=
  let stock := (Fields.get f "stock").orElse (.text "")
  .new stock (.new { stock } true)

theorem not_busy_fresh (f : Fields) :
    ¬((fresh f).status = .running ∨ (fresh f).status = .stopped) := by
  simp [fresh, Interpreter.new]

/-- What a worker makes of a parse: the interpreter is its own from then on, whatever it says. -/
def adopt (d : Desk τ) : Outcome Bool × (Interpreter × Line τ) → Outcome Unit × Desk τ
  | (.ok accepted, i, line) => (.ok (), d.replace i (line.post (parseNotice i accepted)))
  | (.error fault, i, line) => (.error fault, d.replace i line)

theorem init_eq (f : Fields) :
    d.init peer f =
      d.adopt ((Interpreter.parse (surroundings peer) (logicOf f)).exec (fresh f, d.line)) := by
  unfold init runStep
  show _ = d.adopt ((Interpreter.parse (surroundings peer) (logicOf f)).run.run (fresh f, d.line))
  dsimp only [fresh, logicOf]
  generalize (Interpreter.parse (surroundings peer) _).run.run _ = parsed
  rcases parsed with ⟨fault | accepted, i, line⟩ <;> rfl

section

variable {f : Fields}

/-- A worker takes up a logic that compiles, and is ready. -/
theorem init_of_ok {c : CompiledLogic} (hcompiled : CompiledLogic.ofLogic (logicOf f) = .ok c) :
    ∃ m, d.init peer f = (.ok (), d.replace { fresh f with
      compiled := some c, status := .parsed, market := m } (d.line.post .ready)) := by
  obtain ⟨m, -, hm⟩ := Interpreter.exec_accept_of_ofLogic hcompiled
    { fresh f with compiled := none } d.line
  have hparse := Interpreter.exec_parse_of_free (surroundings peer) (fresh f, d.line) (logicOf f)
    (not_busy_fresh f)
  rw [hcompiled] at hparse
  rw [init_eq, hparse.trans hm]
  exact ⟨m, rfl⟩

/-- The interpreter says itself what is wrong with a logic, before the worker does. -/
theorem init_of_defect {error : CompileError}
    (hcompiled : CompiledLogic.ofLogic (logicOf f) = .error (.compile error)) :
    d.init peer f = (.ok (), d.replace { fresh f with
      compiled := none, status := .uninitialized, lastError := some error.message }
      ((d.line.post (.log "Error" s!"Logic parse failed: {error.message}")).post
        (.initFailed error.message))) := by
  have hparse := Interpreter.exec_parse_of_free (surroundings peer) (fresh f, d.line) (logicOf f)
    (not_busy_fresh f)
  rw [hcompiled] at hparse
  rw [init_eq, hparse]
  rfl

/-- A worker that meets a fault that is no defect of the logic fails. -/
theorem init_of_snag {fault : Fault}
    (hcompiled : CompiledLogic.ofLogic (logicOf f) = .error fault)
    (hsnag : ∀ error, fault ≠ .compile error) :
    d.init peer f = (.error fault, d.replace { fresh f with compiled := none } d.line) := by
  have hparse := Interpreter.exec_parse_of_free (surroundings peer) (fresh f, d.line) (logicOf f)
    (not_busy_fresh f)
  rw [hcompiled] at hparse
  rw [init_eq, hparse]
  cases fault with
  | compile error => exact absurd rfl (hsnag error)
  | _ => rfl

/-- A worker that is given a logic that does not compile posts nothing but that. -/
theorem init_of_fault {fault : Fault}
    (hcompiled : CompiledLogic.ofLogic (logicOf f) = .error fault) :
    ∃ (result : Outcome Unit) (i : Interpreter) (line : Line τ) (notices : List Notice),
      d.init peer f = (result, d.replace i line) ∧ line.posted = d.line.posted ++ notices ∧
      ∀ n ∈ notices, n.OfTick ∨ ∃ reason, n = .initFailed reason := by
  by_cases hdefect : ∃ error, fault = .compile error
  · obtain ⟨error, rfl⟩ := hdefect
    refine ⟨_, _, _, _, init_of_defect peer d hcompiled, List.append_assoc _ _ _, ?_⟩
    simp [Notice.OfTick.log]
  · exact ⟨_, _, _, [], init_of_snag peer d hcompiled (not_exists.mp hdefect),
      (List.append_nil _).symm, nofun⟩

end

variable {d}

/-- A message to start with an interval that was raised already is answered with that interval. -/
theorem start_of_raised {x y : Float} (hraised : x = raisedInterval y) {f : Fields}
    (hinterval : Fields.get f "interval" = .real x)
    (hrunnable : (d.interpreter.map Interpreter.isRunnable).getD false = true) :
    d.start f = (.ok (), ⟨d.interpreter, some ⟨x, (Fields.get f "log_details").isTruthy, none⟩,
      d.line.post (.started x)⟩) := by
  have hgiven : ((Fields.get f "interval").orElse (.real usualInterval)).toFloat = .ok x := by
    have htruthy : (Value.real x).isTruthy = true := hraised ▸ raisedInterval_bne_zero y
    rw [hinterval, Value.orElse, if_pos htruthy]
    rfl
  have hkept : raisedInterval x = x := by
    rw [hraised, raisedInterval_raisedInterval]
  rw [start, if_pos hrunnable, hgiven]
  simp only [hkept]
  rfl

theorem handle_of_init {f : Fields} (htype : Fields.get f "type" = .text "init") {d' : Desk τ}
    (h : d.init peer f = (.ok (), d')) : d.handle peer f = (.ok true, d') := by
  simp only [handle, htype, h]
  rfl

theorem handle_of_start {f : Fields} (htype : Fields.get f "type" = .text "start") {d' : Desk τ}
    (h : d.start f = (.ok (), d')) : d.handle peer f = (.ok true, d') := by
  simp only [handle, htype, h]
  rfl

end Desk

/-! ### Orderly workers -/

/-- Every notice of a start comes after one that the worker is ready. -/
def Ordered (posted : List Notice) : Prop :=
  ∀ (i : Nat) (y : Float), posted[i]? = some (.started y) → ∃ j < i, posted[j]? = some .ready

theorem Ordered.append {posted notices : List Notice} (h : Ordered posted)
    (hready : ∀ y, Notice.started y ∈ notices → Notice.ready ∈ posted) :
    Ordered (posted ++ notices) := by
  intro i y hi
  by_cases hlt : i < posted.length
  · rw [List.getElem?_append_left hlt] at hi
    obtain ⟨j, hj, hposted⟩ := h i y hi
    exact ⟨j, hj, by rw [List.getElem?_append_left (hj.trans hlt), hposted]⟩
  · rw [List.getElem?_append_right (Nat.le_of_not_lt hlt)] at hi
    obtain ⟨j, hj, hposted⟩ :=
      List.mem_iff_getElem.mp (hready y (List.mem_of_getElem? hi))
    refine ⟨j, by omega, ?_⟩
    rw [List.getElem?_append_left hj, List.getElem?_eq_getElem hj, hposted]

/-- Notices that have no part in the start of a run. That the logic is refused is one of them, if it
can be. -/
inductive Notice.IsAside (refusable : Prop) : Notice → Prop
  | tick {n : Notice} (h : n.OfTick) : IsAside refusable n
  | stopped : IsAside refusable .stopped
  | refusal (h : refusable) (reason : String) : IsAside refusable (.initFailed reason)

section

variable {refusable : Prop} {n : Notice}

theorem Notice.IsAside.not_isReady (h : n.IsAside refusable) : n.isReady = false := by
  cases h with
  | tick h => cases h <;> rfl
  | stopped | refusal => rfl

theorem Notice.IsAside.not_isStarted (h : n.IsAside refusable) : n.isStarted = false := by
  cases h with
  | tick h => cases h <;> rfl
  | stopped | refusal => rfl

theorem countP_asides {notices : List Notice} (h : ∀ n ∈ notices, n.IsAside refusable) :
    notices.countP Notice.isReady = 0 ∧ notices.countP Notice.isStarted = 0 := by
  simp only [List.countP_eq_zero, Bool.not_eq_true]
  exact ⟨fun n hn => (h n hn).not_isReady, fun n hn => (h n hn).not_isStarted⟩

/-- What a worker posts that is to start at an interval. -/
inductive Notice.Expected (x : Float) (refusable : Prop) : Notice → Prop
  | ready : Expected x refusable .ready
  | started : Expected x refusable (.started x)
  | aside {n : Notice} (h : n.IsAside refusable) : Expected x refusable n

namespace Notice.Expected

variable {x y : Float}

theorem of_initFailed {reason : String} (h : (Notice.initFailed reason).Expected x refusable) :
    refusable := by
  cases h with
  | aside h =>
    cases h with
    | tick h => cases h
    | refusal h => exact h

theorem ne_error (h : n.Expected x refusable) : n ≠ .error "Interpreter not initialized" := by
  cases h with
  | ready | started => exact Notice.noConfusion
  | aside h =>
    cases h with
    | tick h => exact h.ne_error
    | stopped | refusal => exact Notice.noConfusion

theorem eq_of_started (h : (Notice.started y).Expected x refusable) : y = x := by
  cases h with
  | started => rfl
  | aside h =>
    cases h with
    | tick h => cases h

end Notice.Expected

end

namespace Desk

variable {x : Float} {refusable : Prop} {d d' : Desk τ} {serving serving' : Bool}

/-- How often a worker has said that it is ready. -/
def readies (d : Desk τ) : Nat :=
  d.line.posted.countP Notice.isReady

/-- How often a worker has said that it has started. -/
def starts (d : Desk τ) : Nat :=
  d.line.posted.countP Notice.isStarted

theorem readies_eq (notices : List Notice) (h : d'.line.posted = d.line.posted ++ notices) :
    d'.readies = d.readies + notices.countP Notice.isReady := by
  rw [readies, h, List.countP_append, readies]

theorem starts_eq (notices : List Notice) (h : d'.line.posted = d.line.posted ++ notices) :
    d'.starts = d.starts + notices.countP Notice.isStarted := by
  rw [starts, h, List.countP_append, starts]

theorem ready_mem_posted (h : 0 < d.readies) : .ready ∈ d.line.posted := by
  obtain ⟨n, hn, hready⟩ := List.countP_pos_iff.mp h
  cases n <;> first | exact hn | cases hready

def canRun (d : Desk τ) : Bool :=
  (d.interpreter.map Interpreter.isRunnable).getD false

/-- A worker that has posted nothing but what is expected of one that is to start at an interval.
Its ticks have not begun before it said so; until then its interpreter stays as it was when it
became ready, since nothing else runs it. -/
structure Conforms (x : Float) (refusable : Prop) (d : Desk τ) (serving : Bool) : Prop where
  expected : ∀ n ∈ d.line.posted, n.Expected x refusable
  ordered : Ordered d.line.posted
  unscheduled : d.starts = 0 → d.scheduler = none
  canRun : serving = true → d.starts = 0 → 0 < d.readies → d.canRun = true

namespace Conforms

theorem fresh (x : Float) (refusable : Prop) (outer : τ) :
    (Desk.ofWorker {} outer).Conforms x refusable true where
  expected n hn := nomatch hn
  ordered _ _ hi := nomatch hi
  unscheduled _ := rfl
  canRun _ _ hready := by simp [readies, Desk.ofWorker] at hready

/-- A worker stays orderly when it posts asides, if what has become ready still can run. -/
theorem asides (h : d.Conforms x refusable serving) (notices : List Notice)
    (hposted : d'.line.posted = d.line.posted ++ notices)
    (hasides : ∀ n ∈ notices, n.IsAside refusable)
    (hscheduler : d.scheduler = none → d'.scheduler = none)
    (hrun : serving' = true → d.scheduler = none → 0 < d.readies →
      serving = true ∧ d'.interpreter.map Interpreter.isRunnable =
        d.interpreter.map Interpreter.isRunnable) :
    d'.Conforms x refusable serving' := by
  have hreadies : d'.readies = d.readies := by
    rw [readies_eq notices hposted, (countP_asides hasides).1, Nat.add_zero]
  have hstarts : d'.starts = d.starts := by
    rw [starts_eq notices hposted, (countP_asides hasides).2, Nat.add_zero]
  refine ⟨?_, ?_, fun hnone => ?_, fun hserving hnone hready => ?_⟩
  · rw [hposted]
    intro n hn
    exact (List.mem_append.mp hn).elim (h.expected n) fun hn => .aside (hasides n hn)
  · rw [hposted]
    exact h.ordered.append fun y hy => absurd (hasides _ hy).not_isStarted Bool.noConfusion
  · exact hscheduler (h.unscheduled (hstarts ▸ hnone))
  · obtain ⟨hwas, hsame⟩ :=
      hrun hserving (h.unscheduled (hstarts ▸ hnone)) (hreadies ▸ hready)
    rw [Desk.canRun, hsame]
    exact h.canRun hwas (hstarts ▸ hnone) (hreadies ▸ hready)

theorem tick (h : d.Conforms x refusable serving) (peer : Peer τ) :
    (d.tick peer).Conforms x refusable serving := by
  have hidle : d.scheduler = none → d.tick peer = d := fun hnone => by rw [Desk.tick, hnone]
  obtain ⟨notices, hposted, hticks⟩ := posts_tick peer d
  refine h.asides notices hposted (fun n hn => .tick (hticks n hn)) (fun hnone => ?_)
    fun hserving hnone _ => ⟨hserving, ?_⟩
  · rw [hidle hnone, hnone]
  · rw [hidle hnone]

theorem ready (h : d.Conforms x refusable serving) {i : Interpreter}
    (hrunnable : i.isRunnable = true) :
    (⟨some i, none, d.line.post .ready⟩ : Desk τ).Conforms x refusable true where
  expected n hn := by
    rcases List.mem_append.mp hn with hn | hn
    · exact h.expected n hn
    · exact List.mem_singleton.mp hn ▸ .ready
  ordered := h.ordered.append fun y hy => by simp at hy
  unscheduled _ := rfl
  canRun _ _ _ := hrunnable

theorem started (h : d.Conforms x refusable serving) (hready : 0 < d.readies) (details : Bool) :
    (⟨d.interpreter, some ⟨x, details, none⟩, d.line.post (.started x)⟩ : Desk τ).Conforms x
      refusable true := by
  have hstarts : (⟨d.interpreter, some ⟨x, details, none⟩, d.line.post (.started x)⟩ :
      Desk τ).starts = d.starts + 1 := starts_eq [.started x] rfl
  refine ⟨fun n hn => ?_, h.ordered.append fun _ _ => ready_mem_posted hready, ?_, ?_⟩
  · rcases List.mem_append.mp hn with hn | hn
    · exact h.expected n hn
    · exact List.mem_singleton.mp hn ▸ .started
  · omega
  · omega

end Conforms

end Desk

end Worker

end TradingRules
