import TradingRules.Proofs.Supervisor.Finality
import TradingRules.Proofs.Worker.Pacing

/-!
# The intervals of runs

A start raises the interval that it is asked for, and the worker of the run schedules its ticks at
the interval that the run has. The pace of the ticks follows: they are at least a second apart,
unless the interval that was asked for is NaN.
-/

namespace TradingRules.Supervisor

open Worker (Desk KeepsPace NeverPauses Schedule raisedInterval)

section

variable {σ : Type} (l : Launch σ)

/-- The interval that a launch asks for. -/
def Launch.requested : Outcome Float :=
  match l.interval with
  | .null => .ok Worker.usualInterval
  | v => v.toFloat

theorem Launch.exec_seconds_eq_ok {a b : State σ × σ} {interval : Float}
    (h : l.seconds.exec a = (.ok interval, b)) :
    ∃ x, l.requested = .ok x ∧ interval = raisedInterval x := by
  have hseconds : l.seconds = liftM l.requested >>= fun x => do
      if x < Worker.leastInterval then
        let least := secondsText Worker.leastInterval
        write l.log (.text "System")
          (.text s!"Interval {secondsText x}s raised to minimum {least}s")
      return raisedInterval x := by
    unfold seconds requested
    cases l.interval <;> rfl
  rw [hseconds, ExceptT.exec_bind, ExceptT.exec_liftM] at h
  cases hx : l.requested with
  | error e => simp [hx] at h
  | ok x =>
    refine ⟨x, rfl, ?_⟩
    simp only [hx] at h
    split at h
    · rw [ExceptT.exec_bind] at h
      split at h
      · exact (Except.ok.inj (Prod.mk.inj h).1).symm
      · cases h
    · exact (Except.ok.inj (Prod.mk.inj h).1).symm

theorem Launch.runs_refuse (reason : String) (a : State σ × σ) :
    ((l.refuse reason).exec a).2.1 = a.1 := by
  rw [refuse, ExceptT.exec_bind_pure_snd, exec_write]

theorem Launch.runs_spawn (interval : Float) (a : State σ × σ) :
    ((l.spawn interval).exec a).2.1 = a.1 ∨
      ((l.spawn interval).exec a).2.1 = { runs := a.1.runs ++ [l.newRun interval] } := by
  simp only [spawn, ExceptT.exec_bind, ExceptT.exec_get, ExceptT.exec_liftM]
  cases isRunning a.1 l.id with
  | error e => exact .inl rfl
  | ok running =>
    cases running with
    | true => exact .inl (l.runs_refuse _ a)
    | false =>
      simp only [Bool.false_eq_true, if_false]
      cases l.obstacle with
      | some e => exact .inl (l.runs_refuse _ a)
      | none =>
        right
        simp only [ExceptT.exec_bind_ok (ExceptT.exec_modify a _), ExceptT.exec_bind_pure_snd,
          exec_write]

/-- A start adds a run at the interval asked for, raised if need be, or it adds none. -/
theorem Launch.runs_start (a : State σ × σ) :
    ((start l).exec a).2.1 = a.1 ∨ ∃ x, l.requested = .ok x ∧
      ((start l).exec a).2.1 = { runs := a.1.runs ++ [l.newRun (raisedInterval x)] } := by
  unfold start
  split
  · exact .inl (l.runs_refuse _ a)
  · have hruns : (l.seconds.exec a).2.1 = a.1 := (Spares.seconds (l := l) a).1
    rw [ExceptT.exec_bind]
    rcases hseconds : l.seconds.exec a with ⟨e | interval, b⟩
    · rw [hseconds] at hruns
      exact .inl hruns
    · obtain ⟨x, hx, rfl⟩ := l.exec_seconds_eq_ok hseconds
      rw [hseconds] at hruns
      rw [← hruns]
      dsimp only
      split
      · exact .inl (l.runs_refuse _ b)
      · exact .inl rfl
      · rcases l.runs_spawn (raisedInterval x) b with hspawn | hspawn
        · exact .inl hspawn
        · exact .inr ⟨x, hx, hspawn⟩

end

/-- The scheduler that a worker is told to start has the interval of the run. -/
theorem scheduler_of_startMessage {σ τ : Type} {r : Run σ} {x : Float}
    (hinterval : r.interval = raisedInterval x) {f : Fields} (hf : r.startMessage = .object f)
    {d : Desk τ} (hrunnable : (d.interpreter.map Interpreter.isRunnable).getD false = true) :
    (d.start f).2.scheduler.map (·.interval) = some r.interval := by
  obtain rfl := Value.object.inj hf
  have hgiven : ((Fields.get [("type", .text "start"), ("interval", .real r.interval),
      ("log_details", r.details)] "interval").orElse (.real Worker.usualInterval)).toFloat =
      .ok r.interval := by
    have htruthy : (Value.real r.interval).isTruthy = true := by
      rw [hinterval]
      exact Worker.raisedInterval_bne_zero x
    show ((Value.real r.interval).orElse _).toFloat = _
    rw [Value.orElse, if_pos htruthy]
    rfl
  rw [Desk.start, if_pos hrunnable, hgiven, hinterval]
  simp [Desk.post, Worker.raisedInterval_raisedInterval]

/-- A run that is started has the interval that was asked for, raised if need be, and so has the
scheduler of its worker. The ticks keep their pace, unless the interval asked for is NaN: then they
follow each other without any pause. -/
theorem ticks_keep_pace_unless_nan {σ : Type} (l : Launch σ) (a : State σ × σ) :
    ((start l).exec a).2.1 = a.1 ∨ ∃ x, l.requested = .ok x ∧
      ((start l).exec a).2.1 = { runs := a.1.runs ++ [l.newRun (raisedInterval x)] } ∧
      (∀ (τ : Type) (d : Desk τ) (f : Fields),
        (l.newRun (raisedInterval x)).startMessage = .object f →
        (d.interpreter.map Interpreter.isRunnable).getD false = true →
          (d.start f).2.scheduler.map (·.interval) = some (raisedInterval x)) ∧
      (x.isNaN = false → KeepsPace (raisedInterval x)) ∧
      (x.isNaN = true → NeverPauses (raisedInterval x)) := by
  rcases l.runs_start a with hsame | ⟨x, hx, hruns⟩
  · exact .inl hsame
  · refine .inr ⟨x, hx, hruns, ?_, Worker.keepsPace_raisedInterval,
      Worker.neverPauses_raisedInterval⟩
    intro τ d f hf hrunnable
    exact scheduler_of_startMessage (x := x) rfl hf hrunnable

/-- A text that is read as NaN is an interval that a start accepts. -/
theorem nan_launch_never_pauses :
    let l := { breakoutLaunch with interval := .text "nan" }
    ((start l).exec ({}, ())).2.1.runs.map (fun r =>
      (Schedule.run seconds r.interval (.start 0.0) [0.0, 0.0, 0.0]).starts) =
      [[0.0, 0.0, 0.0]] := by
  with_unfolding_all rfl

end TradingRules.Supervisor
