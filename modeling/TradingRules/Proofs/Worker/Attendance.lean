import TradingRules.Proofs.Logic.Account
import TradingRules.Proofs.Worker.Phases

/-!
# The interpreter that is ticked

A scheduler ticks the interpreter of the worker as long as that one is the interpreter it was
started for. When the worker takes up another logic, the scheduler is left with an interpreter that
was disposed of: every tick from then on is a failed run, until the worker is told to start again.
-/

namespace TradingRules.Worker

open Event (told)

namespace Desk

variable {τ : Type} {p : Phase} {d : Desk τ} {events : List Event}

/-- The events that a worker gets to before it ends. -/
def heard (peer : Peer τ) (d : Desk τ) : List Event → List Event
  | [] => []
  | e :: rest => e :: match d.advance peer e with
    | (none, d) => d.heard peer rest
    | (some _, _) => []

/-- The phase of a worker follows from the events that it got to, whether it has ended or not. -/
theorem InPhase.pass_heard (h : d.InPhase p) (peer : Peer τ) (events : List Event) :
    (d.pass peer events).2.InPhase ((d.heard peer events).foldl Phase.after p) := by
  induction events generalizing d p with
  | nil => exact h
  | cons e rest ih =>
    have hphase := (h.obeys peer e).phase
    rw [pass, heard]
    generalize d.advance peer e = advanced at hphase
    obtain ⟨ending | ending, d'⟩ := advanced
    · exact ih hphase
    · exact hphase

/-- A worker that can handle whatever comes and is not told to stop gets to all events. -/
theorem InPhase.heard_eq (h : d.InPhase p) (peer : Peer τ)
    (hregular : ∀ e ∈ events, e.IsRegular ∧ ¬e.IsStop) : d.heard peer events = events := by
  induction events generalizing d p with
  | nil => rfl
  | cons e rest ih =>
    obtain ⟨hfirst, hgoing⟩ := hregular e List.mem_cons_self
    have hobeys := h.obeys peer e
    have hphase := hobeys.phase
    -- Only a stop, or an event that cannot be handled, would keep the worker from the rest.
    have hnone : (d.advance peer e).1 = none := by
      rcases hobeys.ending with ⟨hstop, -⟩ | ⟨-, hnone | ⟨hirregular, -⟩⟩
      · exact absurd hstop hgoing
      · exact hnone
      · exact absurd hfirst hirregular
    rw [heard]
    generalize d.advance peer e = advanced at hphase hnone
    obtain ⟨ending, d'⟩ := advanced
    obtain rfl : ending = none := hnone
    exact congrArg (e :: ·) (ih hphase fun e he => hregular e (List.mem_cons_of_mem _ he))

/-- The scheduler of a worker ticks the interpreter of the worker. -/
def Attends (peer : Peer τ) (d : Desk τ) (s : Scheduler) : Prop :=
  s.held = none ∧ ∃ i, d.interpreter = some i ∧ i.isRunnable = true ∧ i.status ≠ .stopped ∧
    let ran := (Interpreter.run (surroundings peer) s.details).exec (i, d.line)
    d.tick peer = { reportRun { d with line := ran.2.2 } ran.1 with interpreter := some ran.2.1 }

/-- The scheduler of a worker ticks an interpreter that was disposed of, to no avail. -/
def Misses (peer : Peer τ) (d : Desk τ) (s : Scheduler) : Prop :=
  ∃ old, s.held = some old ∧ old.status = .stopped ∧
    d.tick peer = d.post (.error "InterpreterStateError: cannot run while stopped")

theorem InPhase.attends (h : d.InPhase p) (hcurrent : p.current = some true) (peer : Peer τ) :
    ∃ s, d.scheduler = some s ∧ d.Attends peer s := by
  obtain ⟨haccepted, s, hscheduler, hheld⟩ := h.current hcurrent
  have hrunnable := h.accepted
  rw [canRun, haccepted] at hrunnable
  cases hi : d.interpreter with
  | none => simp [hi] at hrunnable
  | some i =>
    have hrun : i.isRunnable = true := by simpa [hi] using hrunnable
    refine ⟨s, hscheduler, hheld, i, hi, hrun, fun hstopped => ?_,
      tick_of_current hscheduler hheld hi peer⟩
    simp [Interpreter.isRunnable, hstopped] at hrun

theorem InPhase.misses (h : d.InPhase p) (hcurrent : p.current = some false) (peer : Peer τ) :
    ∃ s, d.scheduler = some s ∧ d.Misses peer s := by
  obtain ⟨s, old, hscheduler, hheld, hold, hstopped⟩ := h.superseded hcurrent
  exact ⟨s, hscheduler, old, hheld, hstopped, tick_of_held hscheduler hheld hold hstopped peer⟩

/-- Whatever a worker gets to, its scheduler ticks the interpreter of the worker, which is not
disposed of, unless the worker has taken up a logic since it was started last. From then on each
tick fails, since the interpreter that is ticked was disposed of. -/
theorem scheduler_attends_unless_superseded (peer : Peer τ) (outer : τ) (events : List Event) :
    let d := ((ofWorker {} outer).pass peer events).2
    let p := Phase.of ((ofWorker {} outer).heard peer events)
    (p.current = none → d.scheduler = none) ∧
      (p.current = some true → ∃ s, d.scheduler = some s ∧ d.Attends peer s) ∧
      (p.current = some false → ∃ s, d.scheduler = some s ∧ d.Misses peer s) := by
  have hphase := (inPhase_bare ⟨{}, [], outer⟩).pass_heard peer events
  exact ⟨hphase.unscheduled, fun hcurrent => hphase.attends hcurrent peer,
    fun hcurrent => hphase.misses hcurrent peer⟩

/-- A worker takes up a logic, is started, and takes up a logic again. -/
def renewal : List Event :=
  [told "init" [("logic_data", CompiledLogic.breakoutLogic)], told "start" [],
    told "init" [("logic_data", CompiledLogic.breakoutLogic)]]

/-- A logic that is taken up while the scheduler ticks can run, and is never run. -/
theorem renewed_logic_is_missed :
    let silent : Peer Unit := ⟨fun _ _ => (.nothing, ())⟩
    let d := ((ofWorker {} ()).pass silent renewal).2
    d.canRun = true ∧ ∃ s, d.scheduler = some s ∧ d.Misses silent s := by
  intro silent d
  let breakout : Fields := [("type", .text "init"), ("logic_data", CompiledLogic.breakoutLogic)]
  have hinit : (told "init" [("logic_data", CompiledLogic.breakoutLogic)]).message =
      .init breakout := rfl
  have hlogic : CompiledLogic.ofLogic (logicOf breakout) = .ok CompiledLogic.breakout :=
    CompiledLogic.ofLogic_breakoutLogic
  have hstart : (told "start" []).message = .start [("type", .text "start")] := rfl
  have hinterval : intervalOf [("type", .text "start")] = .ok usualInterval := rfl
  have hregular : ∀ e ∈ renewal, e.IsRegular ∧ ¬e.IsStop := by
    simp only [renewal, List.forall_mem_cons, Event.IsStop, hinit, hstart,
      Event.isRegular_of_init hinit hlogic, Event.isRegular_of_start hstart hinterval]
    simp
  have hafter : renewal.foldl Phase.after {} = ⟨true, some false⟩ := by
    simp [renewal, Phase.after, hinit, hlogic, hstart, hinterval, Except.isOk, Except.toBool]
  have hphase : d.InPhase ⟨true, some false⟩ := by
    have hpassed := (inPhase_bare ⟨{}, [], ()⟩).pass_heard silent renewal
    rwa [(inPhase_bare ⟨{}, [], ()⟩).heard_eq silent hregular, hafter] at hpassed
  exact ⟨hphase.accepted, hphase.misses rfl silent⟩

end Desk

end TradingRules.Worker
