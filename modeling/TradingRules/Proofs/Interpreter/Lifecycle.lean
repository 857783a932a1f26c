import TradingRules.Proofs.Interpreter.Continuity

/-!
# The life of an interpreter

Whatever is done with an interpreter, and whatever its executor does in the middle of a run, between
operations it is at rest: no run is in progress, and it has a compiled logic only if it can run it.
What one operation can come to from there is said once, by `Moment.Effect`; what holds along a
history follows from it.
-/

namespace TradingRules.Interpreter

open ExceptT (Within Steady)

variable {σ : Type}

namespace Moment

/-- The marks that an operation leaves, whatever was in the journal before. -/
def Leaves (around : Surroundings σ) (m : Moment σ) (marks : List Mark) : Prop :=
  ∀ l, (operate around.journaled m.operation).exec (m.before.1, (l, m.before.2)) =
    (m.answer, (m.after.1, (l ++ marks, m.after.2)))

/-- An operation that is refused because of the state of the interpreter changes nothing. -/
structure Refused (m : Moment σ) : Prop where
  answer : ∃ message, m.answer = .error (.interpreterState message)
  after : m.after = m.before

/-- A run that evaluates a compiled logic, with the events of its course. -/
structure Evaluates (around : Surroundings σ) (m : Moment σ) (details : Bool) (c : CompiledLogic)
    (events : List (Event σ)) : Prop where
  operation : m.operation = .run details
  compiled : m.before.1.compiled = some c
  course : ∃ outcome z,
    Course around c details (m.before.1.underway c, m.before.2) events outcome z ∧
      m.answer = outcome.map Decision.toValue ∧ m.after = (release z.1, z.2)
  marks : m.Leaves around (events.map Event.mark)

end Moment

/-- The state of an interpreter between operations. -/
structure Resting (i : Interpreter) : Prop where
  free : i.locked = false
  still : i.status ≠ .running
  bare : i.status = .uninitialized ∨ i.status = .stopped → i.compiled = none
  accepted : ∀ c, i.compiled = some c → ∃ logic, CompiledLogic.ofLogic logic = .ok c

theorem resting_new (stock : Value) (market : Market) : Resting (new stock market) where
  free := rfl
  still := by simp [new]
  bare _ := rfl
  accepted c h := by simp [new] at h

namespace Resting

variable {i : Interpreter} {c : CompiledLogic}

theorem status_of_compiled (h : Resting i) (hi : i.compiled = some c) :
    i.status = .parsed ∨ i.status = .idle := by
  have hbare := h.bare
  have hstill := h.still
  cases hstatus : i.status <;> simp_all

theorem isRunnable (h : Resting i) (hi : i.compiled = some c) : i.isRunnable = true := by
  rcases h.status_of_compiled hi with hstatus | hstatus <;>
    simp [Interpreter.isRunnable, hi, hstatus]

end Resting

/-! ### What one operation comes to -/

/-- What an operation can come to from a resting interpreter. -/
inductive Moment.Effect (around : Surroundings σ) (m : Moment σ) : Prop
  | evaluated {details : Bool} {c : CompiledLogic} {events : List (Event σ)}
      (h : m.Evaluates around details c events)
  | refused (hrequest : m.operation.IsRequest) (h : m.Refused) (hmarks : m.Leaves around [])
      (hstatus : ∀ details, m.operation = .run details → m.before.1.compiled = none)
  | accepted {logic : Value} {c : CompiledLogic} (hparse : m.operation = .parse logic)
      (hbefore : m.before.1.status ≠ .stopped) (hcompiled : CompiledLogic.ofLogic logic = .ok c)
      (hlocked : m.after.1.locked = m.before.1.locked) (hstatus : m.after.1.status = .parsed)
      (hafter : m.after.1.compiled = some c)
  | rejected {logic : Value} (hparse : m.operation = .parse logic)
      (hbefore : m.before.1.status ≠ .stopped)
      (hlocked : m.after.1.locked = m.before.1.locked)
      (hstatus : m.after.1.status = .uninitialized ∨ m.after.1.status = m.before.1.status)
      (hafter : m.after.1.compiled = none)
  | kept (hrequest : ¬m.operation.IsRequest) (h : Kept m.before.1 m.after.1)
      (hdispose : m.operation = .dispose → m.after.1.status = .stopped)
      (hmarks : m.Leaves around [])

section

variable (around : Surroundings σ) (a : Interpreter × σ)

theorem unmarked_operate {operation : Operation} (h : ¬operation.IsRequest) :
    Step.Unmarked (operate around operation) (operate around.journaled operation) := by
  cases operation with
  | parse logic => exact absurd (.inr ⟨logic, rfl⟩) h
  | run details => exact absurd (.inl ⟨details, rfl⟩) h
  | dispose => exact fun _ _ _ => rfl
  | wait => exact (unmarked_wait around).bind_pure _
  | fetch => exact (unmarked_fetch around).bind_pure _
  | ingest batch =>
    refine Step.Unmarked.bind_pure (fun i l s => ?_) _
    simp
  | setLive price =>
    refine Step.Unmarked.bind_pure (fun i l s => ?_) _
    simp

theorem leaves_nothing {operation : Operation} (h : ¬operation.IsRequest) :
    (Moment.of around a operation).Leaves around [] := by
  intro l
  rw [List.append_nil]
  exact unmarked_operate around h a.1 l a.2

theorem kept_of_not_isRequest {operation : Operation} (h : ¬operation.IsRequest) :
    Kept a.1 (Moment.of around a operation).after.1 ∧
      (operation = .dispose → (Moment.of around a operation).after.1.status = .stopped) := by
  cases operation with
  | parse logic => exact absurd (.inr ⟨logic, rfl⟩) h
  | run details => exact absurd (.inl ⟨details, rfl⟩) h
  | dispose => exact ⟨.dispose _, fun _ => rfl⟩
  | wait =>
    refine ⟨?_, by simp⟩
    simp only [Moment.of, operate, bind_pure_comp, ExceptT.exec_map]
    exact kept_wait around a
  | fetch =>
    refine ⟨?_, by simp⟩
    simp only [Moment.of, operate, bind_pure_comp, ExceptT.exec_map]
    exact .market _ _
  | ingest batch =>
    refine ⟨?_, by simp⟩
    simp only [Moment.of, operate, bind_pure_comp, ExceptT.exec_map, Step.exec_onMarket]
    exact .market _ _
  | setLive price =>
    refine ⟨?_, by simp⟩
    simp only [Moment.of, operate, bind_pure_comp, ExceptT.exec_map, Step.exec_onMarket]
    exact .market _ _

theorem exec_operate_run (details : Bool) :
    (operate around (.run details)).exec a =
      (((run around details).exec a).1.map Decision.toValue, ((run around details).exec a).2) := by
  simp [operate]

/-- A request that is refused in the same words under all surroundings changes nothing and leaves no
marks. -/
theorem effect_of_refused {operation : Operation} (message : String)
    (hrequest : operation.IsRequest)
    (hrefused : ∀ {τ : Type} (around : Surroundings τ) (s : τ), (operate around operation).exec
      (a.1, s) = (.error (.interpreterState message), (a.1, s)))
    (hstatus : ∀ details, operation = .run details → a.1.compiled = none) :
    (Moment.of around a operation).Effect around := by
  have hof : Moment.of around a operation =
      ⟨operation, a, .error (.interpreterState message), a⟩ := by
    rw [Moment.of, hrefused around a.2]
  rw [hof]
  exact .refused hrequest ⟨⟨_, rfl⟩, rfl⟩ (fun l => by rw [List.append_nil, hrefused]) hstatus

/-- A run of a resting interpreter evaluates the compiled logic if there is one. -/
theorem effect_of_run (h : Resting a.1) (details : Bool) :
    (Moment.of around a (.run details)).Effect around := by
  cases hi : a.1.compiled with
  | none =>
    refine effect_of_refused around a s!"cannot run while {a.1.status.name}"
      (.inl ⟨details, rfl⟩) ?_ fun _ _ => hi
    intro τ around s
    simp [operate, run, ExceptT.exec_bind, hi, h.free]
  | some c =>
    obtain ⟨logic, hcompiled⟩ := h.accepted c hi
    obtain ⟨events, outcome, z, hcourse⟩ :=
      exists_course around c details (a.1.underway c, a.2)
    have hrun := hcourse.exec_run hcompiled hi (h.isRunnable hi) h.free
    have hjournaled := hcourse.exec_run_journaled hcompiled hi (h.isRunnable hi) h.free
    have hof : Moment.of around a (.run details) =
        ⟨.run details, a, outcome.map Decision.toValue, (release z.1, z.2)⟩ := by
      rw [Moment.of, exec_operate_run, hrun]
    rw [hof]
    exact .evaluated ⟨rfl, hi, ⟨outcome, z, hcourse, rfl, rfl⟩, fun l => by
      rw [exec_operate_run, hjournaled]⟩

/-- What steps on the market data alone can change. -/
def Feeds (a b : Interpreter × σ) : Prop :=
  ∃ m, b.1 = { a.1 with market := m }

theorem feeds_steady : Steady (Feeds (σ := σ)) where
  refl a := ⟨a.1.market, rfl⟩
  trans := by
    rintro a b c ⟨m, hb⟩ ⟨n, hc⟩
    exact ⟨n, by rw [hc, hb]⟩

theorem within_onMarket {α : Type} (f : Market → Outcome α × Market) :
    Within Feeds (fun _ => True) (Step.onMarket f : Step σ α) := fun a => by
  rw [Step.exec_onMarket]
  exact ⟨⟨_, rfl⟩, fun _ _ => trivial⟩

theorem within_startLookups (periods : List Market.Period) :
    Within Feeds (fun _ => True) (startLookups periods : Step σ Unit) := by
  induction periods with
  | nil => exact feeds_steady.within_pure ()
  | cons p rest ih => exact feeds_steady.within_bind (within_onMarket _) fun _ => ih

/-- A logic that is accepted is kept, even if the market data or a lookup cannot be started. -/
theorem exec_accept (c : CompiledLogic) :
    Feeds ({ a.1 with compiled := some c, lastError := none, status := .parsed }, a.2)
      ((accept c).exec a).2 := by
  have hlookups : Within Feeds (fun _ => True) (do
      Step.onMarket (·.start)
      startLookups c.warmUps
      return true : Step σ Bool) :=
    feeds_steady.within_bind (within_onMarket _) fun _ =>
      feeds_steady.within_bind (within_startLookups _) fun _ => feeds_steady.within_pure true
  rw [accept, ExceptT.exec_bind]
  exact (hlookups _).1

theorem exec_operate_parse (logic : Value) :
    (operate around (.parse logic)).exec a =
      (((parse around logic).exec a).1.map .bool, ((parse around logic).exec a).2) := by
  simp [operate]

theorem exec_parse_of_refused (logic : Value)
    (h : a.1.status = .running ∨ a.1.status = .stopped) : (parse around logic).exec a =
      (.error (.interpreterState s!"cannot parse while {a.1.status.name}"), a) := by
  simp [parse, ExceptT.exec_bind, h]

theorem exec_parse_of_free (logic : Value)
    (h : ¬(a.1.status = .running ∨ a.1.status = .stopped)) : (parse around logic).exec a =
      (match CompiledLogic.ofLogic logic with
        | .error (.compile error) => reject around error.message
        | .error e => throw e
        | .ok c => accept c : Step σ Bool).exec ({ a.1 with compiled := none }, a.2) := by
  have hfree : (a.1.status == .running || a.1.status == .stopped) = false := by simpa using h
  rw [parse, ExceptT.exec_bind_ok (ExceptT.exec_get a)]
  simp only [hfree, Bool.false_eq_true, if_false]
  exact ExceptT.exec_bind_ok (Step.exec_change a _) _

/-- A parse is refused by an interpreter that is stopped; else it gives up the logic before it. -/
theorem effect_of_parse (h : Resting a.1) (logic : Value) :
    (Moment.of around a (.parse logic)).Effect around := by
  have hafter : (Moment.of around a (.parse logic)).after = ((parse around logic).exec a).2 := by
    rw [Moment.of, exec_operate_parse]
  by_cases hstopped : a.1.status = .stopped
  · refine effect_of_refused around a s!"cannot parse while {a.1.status.name}"
      (.inr ⟨logic, rfl⟩) ?_ fun details hrun => by cases hrun
    intro τ around s
    rw [exec_operate_parse, exec_parse_of_refused around (a.1, s) logic (.inr hstopped)]
    rfl
  · rw [exec_parse_of_free around a logic (by simp [h.still, hstopped])] at hafter
    cases hcompiled : CompiledLogic.ofLogic logic with
    | error e =>
      rw [hcompiled] at hafter
      -- Only a logic that does not compile makes the interpreter uninitialized again.
      cases e with
      | compile error =>
        simp only [reject, ExceptT.exec_bind, Step.exec_change, Step.exec_surround,
          ExceptT.exec_pure] at hafter
        exact .rejected rfl hstopped (by rw [hafter]; rfl) (.inl (by rw [hafter])) (by rw [hafter])
      | _ =>
        simp only [ExceptT.exec_throw] at hafter
        exact .rejected rfl hstopped (by rw [hafter]; rfl) (.inr (by rw [hafter]; rfl))
          (by rw [hafter])
    | ok c =>
      rw [hcompiled] at hafter
      obtain ⟨m, haccepted⟩ := exec_accept ({ a.1 with compiled := none }, a.2) c
      rw [← hafter] at haccepted
      exact .accepted rfl hstopped hcompiled (by rw [haccepted]; rfl) (by rw [haccepted])
        (by rw [haccepted])

theorem Moment.effect (h : Resting a.1) (operation : Operation) :
    (Moment.of around a operation).Effect around := by
  by_cases hrequest : operation.IsRequest
  · obtain ⟨details, rfl⟩ | ⟨logic, rfl⟩ := hrequest
    · exact effect_of_run around a h details
    · exact effect_of_parse around a h logic
  · obtain ⟨hkept, hdispose⟩ := kept_of_not_isRequest around a hrequest
    exact .kept hrequest hkept hdispose (leaves_nothing around a hrequest)

end

/-! ### Along a history -/

section

variable {around : Surroundings σ} {m : Moment σ} {details : Bool} {c : CompiledLogic}
  {events : List (Event σ)}

/-- During a run the interpreter has the logic that is run, until it is stopped. -/
theorem Moment.Evaluates.exists_kept (h : m.Evaluates around details c events) :
    ∃ z, Linked around z (m.before.1.underway c) events ∧ m.after.1 = release z := by
  obtain ⟨outcome, z, hcourse, -, hafter⟩ := h.course
  exact ⟨z.1, hcourse.linked, by rw [hafter]⟩

theorem Moment.Effect.resting (h : m.Effect around) (hbefore : Resting m.before.1) :
    Resting m.after.1 := by
  cases h with
  | @evaluated details c events h =>
    obtain ⟨z, hlinked, hafter⟩ := h.exists_kept
    have hcompiled := h.compiled
    rcases hlinked.kept.phase with ⟨hstatus, hz⟩ | ⟨hstatus, hz⟩
    · have hrunning : z.status = .running := hstatus
      have hlogic : z.compiled = some c := hz.trans hcompiled
      rw [hafter]
      constructor
      · rfl
      · simp [release, hrunning]
      · simp [release, hrunning]
      · intro c' hc'
        exact hbefore.accepted c' (by rw [hcompiled, ← hlogic]; exact hc')
    · rw [hafter]
      constructor
      · rfl
      · simp [release, hstatus]
      · exact fun _ => hz
      · intro c' hc'
        rw [show (release z).compiled = none from hz] at hc'
        cases hc'
  | refused hrequest h hmarks hstatus => rw [h.after]; exact hbefore
  | @accepted logic c hparse hstopped hcompiled hlocked hstatus hafter =>
    constructor
    · rw [hlocked, hbefore.free]
    · simp [hstatus]
    · simp [hstatus]
    · intro c' hc'
      obtain rfl : c = c' := by simpa [hafter] using hc'
      exact ⟨logic, hcompiled⟩
  | rejected hparse hstopped hlocked hstatus hafter =>
    constructor
    · rw [hlocked, hbefore.free]
    · rcases hstatus with hstatus | hstatus
      · simp [hstatus]
      · rw [hstatus]; exact hbefore.still
    · exact fun _ => hafter
    · simp [hafter]
  | kept hrequest h hdispose hmarks =>
    rcases h.phase with ⟨hstatus, hcompiled⟩ | ⟨hstatus, hcompiled⟩
    · constructor
      · rw [h.locked, hbefore.free]
      · rw [hstatus]; exact hbefore.still
      · rw [hstatus, hcompiled]; exact hbefore.bare
      · rw [hcompiled]; exact hbefore.accepted
    · constructor
      · rw [h.locked, hbefore.free]
      · simp [hstatus]
      · exact fun _ => hcompiled
      · simp [hcompiled]

variable {a : Interpreter × σ} {operations : List Operation}

theorem exists_trail_of_append {early late : List (Moment σ)}
    (h : trail around a operations = early ++ m :: late) :
    ∃ rest, late = trail around m.after rest := by
  induction operations generalizing a early with
  | nil => simp [trail] at h
  | cons operation rest ih =>
    cases early with
    | nil =>
      obtain ⟨rfl, rfl⟩ := List.cons.inj h
      exact ⟨rest, rfl⟩
    | cons first early => exact ih (List.cons.inj h).2

end

/-- An executor that disposes of the interpreter when it is called, with a source that knows the
highest price of every period. -/
def disposing : Surroundings Unit where
  source := { answer := fun _ s => (.ok (.real 20.0), s) }
  log _ _ s := s
  executor := some fun _ _ _ => .call .dispose fun _ => .finish fun s => (.ok (), s)

/-- The breakout logic is run twice, and the first run is stopped by its own executor. -/
def disposingHistory : List (Moment Unit) :=
  trail disposing (new (.text "ABC") (.new { stock := .text "ABC" } true), ())
    [.parse CompiledLogic.breakoutLogic, .fetch, .wait, .setLive (.real 30.0), .run false,
      .run false]

example : disposingHistory.map (fun m => (m.after.1.status, m.answer.isOk)) =
    [(.parsed, true), (.parsed, true), (.parsed, true), (.parsed, true), (.stopped, true),
      (.stopped, false)] := by
  decide +kernel

end TradingRules.Interpreter
