import TradingRules.Proofs.Exchange.HighestPrice

/-!
# Traces of steps

What a step sends over a link, and the answers to that, are kept by a link that records them. A step
emits what its parts emit, one after the other.
-/

namespace TradingRules

namespace Exchange

variable {σ α β : Type}

/-- A request and its answer. -/
abbrev Exchanged := Request × Except String Response

/-- A link that keeps the requests that it sent, with their answers. -/
def Link.recording (link : Link σ) : Link (List Exchanged × σ) where
  send r w := ((link.send r w.2).1, w.1 ++ [(r, (link.send r w.2).1)], (link.send r w.2).2)
  nonce w := ((link.nonce w.2).1, w.1, (link.nonce w.2).2)

/-- What a step over such a link comes to, and what was sent in its course. -/
def traced (step : Action (List Exchanged × σ) α) (s : σ) : Outcome α × List Exchanged :=
  ((step.exec ([], s)).1, (step.exec ([], s)).2.1)

/-- Wherever a step starts, what it comes to and what it sends are related in a certain way. -/
def Emits (step : Action (List Exchanged × σ) α) (P : Outcome α → List Exchanged → Prop) : Prop :=
  ∀ w, ∃ log, (step.exec w).2.1 = w.1 ++ log ∧ P (step.exec w).1 log

namespace Emits

variable {P : Outcome α → List Exchanged → Prop} {Q : Outcome β → List Exchanged → Prop}
  {step : Action (List Exchanged × σ) α}

theorem traced (h : Emits step P) (s : σ) : P (traced step s).1 (traced step s).2 := by
  obtain ⟨log, hlog, hP⟩ := h ([], s)
  rw [List.nil_append] at hlog
  rw [Exchange.traced, hlog]
  exact hP

theorem mono {P' : Outcome α → List Exchanged → Prop} (h : Emits step P)
    (himp : ∀ x log, P x log → P' x log) : Emits step P' := by
  intro w
  obtain ⟨log, hlog, hP⟩ := h w
  exact ⟨log, hlog, himp _ _ hP⟩

theorem pure {a : α} (h : P (.ok a) []) :
    Emits (pure a : Action (List Exchanged × σ) α) P := fun w => ⟨[], by simp, h⟩

theorem throw {e : Fault} (h : P (.error e) []) :
    Emits (throw e : Action (List Exchanged × σ) α) P := fun w => ⟨[], by simp, h⟩

theorem liftM {x : Outcome α} (h : P x []) :
    Emits (liftM x : Action (List Exchanged × σ) α) P := by
  intro w
  rw [ExceptT.exec_liftM]
  exact ⟨[], by simp, h⟩

/-- What comes after a step sees what the step came to, and what it sent comes first. -/
theorem bind {next : α → Action (List Exchanged × σ) β} (h : Emits step P)
    (herror : ∀ e log, P (.error e) log → Q (.error e) log)
    (hnext : ∀ a log, P (.ok a) log → Emits (next a) fun y more => Q y (log ++ more)) :
    Emits (step >>= next) Q := by
  intro w
  obtain ⟨log, hlog, hP⟩ := h w
  rw [ExceptT.exec_bind]
  rcases hstep : step.exec w with ⟨e | a, w'⟩
  · rw [hstep] at hlog hP
    exact ⟨log, hlog, herror e log hP⟩
  · rw [hstep] at hlog hP
    obtain ⟨more, hmore, hQ⟩ := hnext a log hP w'
    refine ⟨log ++ more, ?_, hQ⟩
    rw [hmore, ← List.append_assoc]
    exact congrArg (· ++ more) hlog

/-- A fault that is dealt with leaves what was sent before it. -/
theorem tryCatch {P' : Outcome α → List Exchanged → Prop}
    {handle : Fault → Action (List Exchanged × σ) α} (h : Emits step P)
    (hok : ∀ a log, P (.ok a) log → P' (.ok a) log)
    (hhandle : ∀ e log, P (.error e) log → Emits (handle e) fun y more => P' y (log ++ more)) :
    Emits (tryCatch step handle) P' := by
  intro w
  obtain ⟨log, hlog, hP⟩ := h w
  rw [ExceptT.exec_tryCatch]
  rcases hstep : step.exec w with ⟨e | a, w'⟩
  · rw [hstep] at hlog hP
    obtain ⟨more, hmore, hQ⟩ := hhandle e log hP w'
    refine ⟨log ++ more, ?_, hQ⟩
    rw [hmore, ← List.append_assoc]
    exact congrArg (· ++ more) hlog
  · rw [hstep] at hlog hP
    exact ⟨log, hlog, hok a log hP⟩

end Emits

variable (link : Link σ)

theorem emits_nonce : Emits (Action.ofStep link.recording.nonce) fun x log =>
    log = [] ∧ ∃ nonce, x = .ok nonce := by
  intro w
  exact ⟨[], (List.append_nil _).symm, rfl, _, rfl⟩

/-- An exchange sends its request and takes the answer to that. -/
theorem emits_exchange (r : Request) : Emits (Client.exchange link.recording r) fun x log =>
    ∃ s, log = [(r, (link.send r s).1)] ∧ x = Client.received (link.send r s).1 := by
  intro w
  rw [Client.exec_exchange]
  exact ⟨_, rfl, w.2, rfl, rfl⟩

end Exchange

end TradingRules
