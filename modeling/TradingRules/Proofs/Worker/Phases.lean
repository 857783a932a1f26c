import TradingRules.Proofs.Interpreter.Undisturbed
import TradingRules.Proofs.Worker.Notices

/-!
# Phases of a worker

What a worker can do next hangs on two things: whether the logic that it took up last was accepted,
and whether it has a scheduler, which may have been started for a logic before that one. Both can be
told from the messages alone, whatever is ticked and looked up in between. `InPhase` says what they
mean for a worker, and each event takes it from one phase to the next.
-/

namespace TradingRules.Worker

open Interpreter (Resting)

/-! ### Messages and events -/

/-- What an item of the inbox is to a worker. -/
inductive Message where
  | init (content : Fields)
  | start (content : Fields)
  | stop
  | answer (content : Fields)
  | unknown

namespace Message

def ofFields (f : Fields) : Message :=
  match Fields.get f "type" with
  | .text "api-response" => answer f
  | .text "init" => init f
  | .text "start" => start f
  | .text "stop" => stop
  | _ => unknown

def of (v : Value) : Message :=
  (v.fields?.map ofFields).getD unknown

end Message

/-- The interval that a message asks to tick at. -/
def intervalOf (f : Fields) : Outcome Float :=
  ((Fields.get f "interval").orElse (.real usualInterval)).toFloat

/-- What can happen to a worker: an item of its inbox is next, its scheduler ticks, or market data
comes in. -/
inductive Event where
  | item (v : Value)
  | tick
  | gather (m : Market)

namespace Event

/-- A message of some type. -/
def told (type : String) (content : Fields) : Event :=
  .item (.object (("type", .text type) :: content))

def message : Event → Message
  | item v => .of v
  | _ => .unknown

def IsStop (e : Event) : Prop :=
  e.message = .stop

instance (e : Event) : Decidable e.IsStop :=
  match h : e.message with
  | .stop => .isTrue h
  | .init _ | .start _ | .answer _ | .unknown => .isFalse (by simp [IsStop, h])

/-- A worker can handle an event if the logic to be taken up compiles or has a defect, the interval
to start at is a number of seconds, and the number of the answered request can be a key. -/
def IsRegular (e : Event) : Prop :=
  match e.message with
  | .init f => ∀ fault, CompiledLogic.ofLogic (logicOf f) = .error fault →
      ∃ error, fault = .compile error
  | .start f => ∃ x, intervalOf f = .ok x
  | .answer f => (Fields.get f "request_id").isKey = true
  | .stop | .unknown => True

variable {e : Event} {f : Fields}

theorem isRegular_of_init {c : CompiledLogic} (h : e.message = .init f)
    (hcompiled : CompiledLogic.ofLogic (logicOf f) = .ok c) : e.IsRegular := by
  rw [IsRegular, h]
  intro fault hfault
  cases hcompiled.symm.trans hfault

theorem isRegular_of_start {x : Float} (h : e.message = .start f) (hx : intervalOf f = .ok x) :
    e.IsRegular := by
  rw [IsRegular, h]
  exact ⟨x, hx⟩

end Event

namespace Desk

variable {τ : Type} (peer : Peer τ)

/-- One event. A worker may end by it; the first fetch and the lookups that are pending are done
before the next one. -/
def advance (d : Desk τ) : Event → Option Ending × Desk τ
  | .item v => d.receive peer v
  | .tick => (none, (d.tick peer).catchUp peer)
  | .gather m =>
    (none, { d with interpreter := d.interpreter.map fun i => { i with market := m } })

/-- One event after the other, until the worker ends. -/
def pass (d : Desk τ) : List Event → Option Ending × Desk τ
  | [] => (none, d)
  | e :: rest =>
    match d.advance peer e with
    | (none, d) => d.pass rest
    | (some ending, d) => (some ending, d)

/-- A worker serves its inbox while its scheduler ticks, and shuts down when the inbox is at its
end. -/
def work (d : Desk τ) (events : List Event) : Ending × Desk τ :=
  match d.pass peer events with
  | (none, d) => (.exhausted, d.shutdown)
  | (some ending, d) => (ending, d)

theorem work_map_item (d : Desk τ) (items : List Value) :
    d.work peer (items.map .item) = ((d.serve peer items).1, (d.serve peer items).2.2) := by
  induction items generalizing d with
  | nil => rfl
  | cons item rest ih =>
    rw [serve, List.map_cons, work, pass, advance]
    rcases d.receive peer item with ⟨ending | ending, d'⟩
    · exact ih d'
    · rfl

end Desk

/-- A message is looked at if its number can be a key. -/
theorem Proxy.exists_resolve (proxy : Proxy) {f : Fields}
    (hkey : (Fields.get f "request_id").isKey = true) :
    ∃ answered, (proxy.resolve (.object f)).1 = .ok answered := by
  simp only [resolve, Value.asFields, hkey]
  cases proxy.pending.isEmpty
  · cases proxy.pending.find? fun (id : Nat) => Value.int id == Fields.get f "request_id" <;>
      exact ⟨_, rfl⟩
  · exact ⟨_, rfl⟩

/-! ### Phases -/

/-- What the messages so far have made of a worker. -/
structure Phase where
  /-- Was the logic that was taken up last accepted? -/
  accepted : Bool := false
  /-- If there is a scheduler, was it started for the logic that was taken up last? -/
  current : Option Bool := none

namespace Phase

def after (p : Phase) (e : Event) : Phase :=
  match e.message with
  | .init f => ⟨(CompiledLogic.ofLogic (logicOf f)).isOk, p.current.map fun _ => false⟩
  | .start f => if p.accepted && (intervalOf f).isOk then { p with current := some true } else p
  | .stop => {}
  | .answer _ | .unknown => p

def of (events : List Event) : Phase :=
  events.foldl after {}

/-- The answer to a message; none to one that cannot be handled. -/
def reply? (p : Phase) (e : Event) : Option Notice :=
  match e.message with
  | .init f => match CompiledLogic.ofLogic (logicOf f) with
    | .ok _ => some .ready
    | .error (.compile error) => some (.initFailed error.message)
    | .error _ => none
  | .start f =>
    if p.accepted then (intervalOf f).toOption.map fun x => .started (raisedInterval x)
    else some (.error "Interpreter not initialized")
  | .stop => some .stopped
  | .answer _ | .unknown => none

@[simp] theorem of_concat (events : List Event) (e : Event) :
    of (events ++ [e]) = (of events).after e := by
  simp [of]

end Phase

variable {τ : Type}

/-- A scheduler ticks the interpreter of the worker if it is current, and else one that was disposed
of. -/
structure Desk.InPhase (p : Phase) (d : Desk τ) : Prop where
  resting : ∀ i, d.interpreter = some i → Resting i
  accepted : d.canRun = p.accepted
  unscheduled : p.current = none → d.scheduler = none
  current : p.current = some true →
    p.accepted = true ∧ ∃ s, d.scheduler = some s ∧ s.held = none
  superseded : p.current = some false → ∃ s old, d.scheduler = some s ∧ s.held = some old ∧
    Resting old ∧ old.status = .stopped

/-- What an event comes to: the next phase, and notices of which the last one is the answer. -/
structure Desk.Obeys (p : Phase) (e : Event) (d : Desk τ) (r : Option Ending × Desk τ) : Prop where
  phase : r.2.InPhase (p.after e)
  posted : ∃ asides, r.2.line.posted = d.line.posted ++ asides ++ (p.reply? e).toList ∧
    ∀ n ∈ asides, n.OfTick
  ending : e.IsStop ∧ r = (some .stopped, (d.shutdown.post .stopped).shutdown) ∨
    ¬e.IsStop ∧ (r.1 = none ∨ ¬e.IsRegular ∧ ∃ fault, r.1 = some (.failed fault))

namespace Desk

variable {d d' : Desk τ} {p : Phase} {peer : Peer τ} {e : Event}

theorem discreet (peer : Peer τ) : (surroundings peer).Discreet := by
  intro executor hexecutor side order stock
  obtain ⟨act, hact, -⟩ := (respects_posts peer).executor executor hexecutor side order stock
  exact ⟨act, hact⟩

theorem inPhase_bare (line : Line τ) : InPhase {} ⟨none, none, line⟩ where
  resting _ h := nomatch h
  accepted := rfl
  unscheduled _ := rfl
  current h := nomatch h
  superseded h := nomatch h

namespace InPhase

/-- All that matters is the scheduler and whether there is something that can run. -/
theorem congr (h : d.InPhase p) (hresting : ∀ i, d'.interpreter = some i → Resting i)
    (hrunnable : d'.canRun = d.canRun) (hscheduler : d'.scheduler = d.scheduler) :
    d'.InPhase p where
  resting := hresting
  accepted := hrunnable.trans h.accepted
  unscheduled hcurrent := hscheduler.trans (h.unscheduled hcurrent)
  current := hscheduler ▸ h.current
  superseded := hscheduler ▸ h.superseded

theorem line (h : d.InPhase p) (line : Line τ) : InPhase p { d with line } :=
  h.congr h.resting rfl rfl

theorem gather (h : d.InPhase p) (feed : Market → Market) (line : Line τ) : InPhase p
    ⟨d.interpreter.map fun i => { i with market := feed i.market }, d.scheduler, line⟩ := by
  refine h.congr (fun i hi => ?_) ?_ rfl
  · obtain ⟨j, hj, rfl⟩ := Option.map_eq_some_iff.mp hi
    exact ⟨(h.resting j hj).free, (h.resting j hj).still, (h.resting j hj).bare,
      (h.resting j hj).accepted⟩
  · rw [canRun, canRun, Option.map_map]
    rfl

/-- An interpreter that a scheduler keeps was disposed of. -/
theorem of_held (h : d.InPhase p) {s : Scheduler} (hscheduler : d.scheduler = some s)
    {old : Interpreter} (hheld : s.held = some old) : Resting old ∧ old.status = .stopped := by
  cases hcurrent : p.current with
  | none => cases hscheduler.symm.trans (h.unscheduled hcurrent)
  | some current =>
    cases current with
    | true =>
      obtain ⟨-, s', hs', hnone⟩ := h.current hcurrent
      obtain rfl := Option.some.inj (hscheduler.symm.trans hs')
      cases hheld.symm.trans hnone
    | false =>
      obtain ⟨s', old', hs', hheld', hold⟩ := h.superseded hcurrent
      obtain rfl := Option.some.inj (hscheduler.symm.trans hs')
      obtain rfl := Option.some.inj (hheld.symm.trans hheld')
      exact hold

theorem started (h : d.InPhase p) (haccepted : p.accepted = true) {s : Scheduler}
    (hheld : s.held = none) (line : Line τ) :
    InPhase { p with current := some true } { d with scheduler := some s, line } where
  resting := h.resting
  accepted := h.accepted
  unscheduled hcurrent := nomatch hcurrent
  current _ := ⟨haccepted, s, rfl, hheld⟩
  superseded hcurrent := nomatch hcurrent

/-- A new interpreter takes the place of the one before, which is disposed of; a scheduler keeps
the one it was started with. -/
theorem replaced (h : d.InPhase p) {i : Interpreter} (hi : Resting i) (line : Line τ) :
    InPhase ⟨i.isRunnable, p.current.map fun _ => false⟩
      ⟨some i, d.scheduler.map (keepHeld d.interpreter), line⟩ where
  resting j hj := Option.some.inj hj ▸ hi
  accepted := rfl
  unscheduled hcurrent := by rw [h.unscheduled (by simpa using hcurrent), Option.map_none]
  current hcurrent := by simp at hcurrent
  superseded hcurrent := by
    obtain ⟨current, hcurrent, -⟩ := Option.map_eq_some_iff.mp hcurrent
    cases current with
    | false =>
      obtain ⟨s, old, hs, hheld, hold⟩ := h.superseded hcurrent
      exact ⟨keepHeld d.interpreter s, old, by rw [hs, Option.map_some], by simp [keepHeld, hheld],
        hold⟩
    | true =>
      -- The scheduler had none of its own so far. It keeps the one that is disposed of now.
      obtain ⟨haccepted, s, hs, hheld⟩ := h.current hcurrent
      obtain ⟨j, hj⟩ : ∃ j, d.interpreter = some j := by
        rw [← h.accepted, canRun] at haccepted
        cases hinterpreter : d.interpreter with
        | none => simp [hinterpreter] at haccepted
        | some j => exact ⟨j, rfl⟩
      refine ⟨keepHeld d.interpreter s, j.dispose, by rw [hs, Option.map_some],
        by simp [keepHeld, hheld, hj], ?_, rfl⟩
      exact ⟨(h.resting j hj).free, by simp [Interpreter.dispose], fun _ => rfl,
        fun c hc => by cases hc⟩

end InPhase

/-! ### What each event comes to -/

/-- The first fetch and the lookups change market data, and post nothing. -/
theorem catchUp_eq (peer : Peer τ) (d : Desk τ) :
    ∃ (feed : Market → Market) (line : Line τ), line.posted = d.line.posted ∧ d.catchUp peer =
      ⟨d.interpreter.map fun i => { i with market := feed i.market }, d.scheduler, line⟩ := by
  obtain ⟨interpreter, scheduler, line⟩ := d
  cases interpreter with
  | none => exact ⟨id, line, rfl, rfl⟩
  | some i =>
    have hsteady : ExceptT.Steady fun a b : Line τ => b.posted = a.posted :=
      ⟨fun _ => rfl, fun hab hbc => hbc.trans hab⟩
    obtain ⟨result, m, line', hexec, hposted⟩ := Interpreter.exec_fetch_wait
      (surroundings peer) hsteady (fun _ _ => rfl) i line
    refine ⟨fun _ => m, line', hposted, ?_⟩
    unfold catchUp runStep
    exact congrArg (fun r => (⟨some r.2.1, scheduler, r.2.2⟩ : Desk τ)) hexec

theorem InPhase.catchUp (h : d.InPhase p) (peer : Peer τ) : (d.catchUp peer).InPhase p := by
  obtain ⟨feed, line, -, hcaught⟩ := catchUp_eq peer d
  rw [hcaught]
  exact h.gather feed line

theorem posted_catchUp (peer : Peer τ) (d : Desk τ) :
    (d.catchUp peer).line.posted = d.line.posted := by
  obtain ⟨feed, line, hposted, hcaught⟩ := catchUp_eq peer d
  rw [hcaught, hposted]

/-- A worker that has handled a message catches up, and one that could not handle it has ended. -/
def proceed {α : Type} (peer : Peer τ) : Outcome α × Desk τ → Option Ending × Desk τ
  | (.ok _, d) => (none, d.catchUp peer)
  | (.error fault, d) => (some (.failed fault), d)

/-- The requests that a message answers, and the channel after it. -/
def resolve (d : Desk τ) (f : Fields) : Outcome (Option (Nat × Answer)) × Desk τ :=
  let (result, proxy) := d.line.proxy.resolve (.object f)
  (result, { d with line := { d.line with proxy } })

theorem handle_eq (peer : Peer τ) (d : Desk τ) (f : Fields) :
    d.handle peer f = match Message.ofFields f with
      | .init f => ((d.init peer f).1.map fun _ => true, (d.init peer f).2)
      | .start f => ((d.start f).1.map fun _ => true, (d.start f).2)
      | .stop => (.ok false, d.shutdown.post .stopped)
      | .answer f => ((d.resolve f).1.map fun _ => true, (d.resolve f).2)
      | .unknown => (.ok true, d) := by
  unfold handle Message.ofFields
  generalize Fields.get f "type" = type
  split
  · rfl
  · rfl
  · rfl
  · rfl
  · simp_all only [imp_false]

theorem receive_eq (peer : Peer τ) (d : Desk τ) (v : Value) :
    d.receive peer v = match Message.of v with
      | .init f => proceed peer (d.init peer f)
      | .start f => proceed peer (d.start f)
      | .stop => (some .stopped, (d.shutdown.post .stopped).shutdown)
      | .answer f => proceed peer (d.resolve f)
      | .unknown => (none, if v.fields?.isSome then d.catchUp peer else d) := by
  rw [receive, Message.of]
  cases v.fields? with
  | none => rfl
  | some f =>
    simp only [handle_eq, Option.map_some, Option.getD_some]
    cases Message.ofFields f <;> dsimp only
    case init f => rcases d.init peer f with ⟨fault | done, d'⟩ <;> rfl
    case start f => rcases d.start f with ⟨fault | done, d'⟩ <;> rfl
    case answer f => rcases d.resolve f with ⟨fault | done, d'⟩ <;> rfl
    case unknown => rfl

/-- What is posted while a worker handles a message, and the phase it leaves the worker in. -/
theorem obeys_proceed {α : Type} {result : Outcome α} (hphase : d'.InPhase (p.after e))
    (hposted : ∃ asides, d'.line.posted = d.line.posted ++ asides ++ (p.reply? e).toList ∧
      ∀ n ∈ asides, n.OfTick)
    (hstop : ¬e.IsStop) (hregular : ∀ fault, result = .error fault → ¬e.IsRegular) :
    d.Obeys p e (proceed peer (result, d')) := by
  cases result with
  | ok a =>
    exact ⟨hphase.catchUp peer, by simpa only [proceed, posted_catchUp] using hposted,
      .inr ⟨hstop, .inl rfl⟩⟩
  | error fault => exact ⟨hphase, hposted, .inr ⟨hstop, .inr ⟨hregular fault rfl, fault, rfl⟩⟩⟩

section

variable {f : Fields} (h : d.InPhase p)

include h

/-- The logic that was taken up is the current one, whether it was accepted or not. -/
theorem InPhase.after_init (hmessage : e.message = .init f) {i : Interpreter} (hi : Resting i)
    (hrunnable : i.isRunnable = (CompiledLogic.ofLogic (logicOf f)).isOk) (line : Line τ) :
    (d.replace i line).InPhase (p.after e) := by
  have hafter : p.after e = ⟨i.isRunnable, p.current.map fun _ => false⟩ := by
    rw [Phase.after, hmessage, hrunnable]
  rw [hafter]
  exact h.replaced hi line

theorem InPhase.obeys_init_of_ok (hmessage : e.message = .init f) {c : CompiledLogic}
    (hcompiled : CompiledLogic.ofLogic (logicOf f) = .ok c) :
    d.Obeys p e (proceed peer (d.init peer f)) := by
  have hstop : ¬e.IsStop := by simp [Event.IsStop, hmessage]
  obtain ⟨m, hinit⟩ := init_of_ok peer d hcompiled
  rw [hinit]
  refine obeys_proceed (h.after_init hmessage ?_ ?_ _) ⟨[], ?_, by simp⟩ hstop
    (fun _ hfault => by cases hfault)
  · exact ⟨rfl, by simp, by simp, fun c' hc' => ⟨_, Option.some.inj hc' ▸ hcompiled⟩⟩
  · rw [hcompiled]
    rfl
  · rw [List.append_nil, Phase.reply?, hmessage]
    simp only [hcompiled]
    rfl

/-- The interpreter says itself what is wrong with a logic, before the worker answers. -/
theorem InPhase.obeys_init_of_defect (hmessage : e.message = .init f) {error : CompileError}
    (hcompiled : CompiledLogic.ofLogic (logicOf f) = .error (.compile error)) :
    d.Obeys p e (proceed peer (d.init peer f)) := by
  have hstop : ¬e.IsStop := by simp [Event.IsStop, hmessage]
  rw [init_of_defect peer d hcompiled]
  refine obeys_proceed (h.after_init hmessage ?_ ?_ _)
    ⟨[.log "Error" s!"Logic parse failed: {error.message}"], ?_, ?_⟩ hstop
    (fun _ hfault => by cases hfault)
  · exact ⟨rfl, by simp, by simp, by simp⟩
  · rw [hcompiled]
    rfl
  · rw [Phase.reply?, hmessage]
    simp only [hcompiled]
    rfl
  · simpa using Notice.OfTick.log _ _

/-- A fault that is no defect of the logic ends the worker without an answer. -/
theorem InPhase.obeys_init_of_snag (hmessage : e.message = .init f) {fault : Fault}
    (hcompiled : CompiledLogic.ofLogic (logicOf f) = .error fault)
    (hsnag : ∀ error, fault ≠ .compile error) :
    d.Obeys p e (proceed peer (d.init peer f)) := by
  have hstop : ¬e.IsStop := by simp [Event.IsStop, hmessage]
  have hreply : p.reply? e = none := by
    rw [Phase.reply?, hmessage]
    simp only [hcompiled]
  rw [init_of_snag peer d hcompiled hsnag]
  refine obeys_proceed (h.after_init hmessage ?_ ?_ _) ⟨[], ?_, by simp⟩ hstop
    fun _ _ hregular => ?_
  · exact ⟨rfl, by simp [fresh, Interpreter.new], by simp, by simp⟩
  · rw [hcompiled]
    rfl
  · rw [hreply]
    simp [replace]
  · rw [Event.IsRegular, hmessage] at hregular
    obtain ⟨error, hdefect⟩ := hregular fault hcompiled
    exact hsnag error hdefect

theorem InPhase.obeys_init (hmessage : e.message = .init f) :
    d.Obeys p e (proceed peer (d.init peer f)) := by
  cases hcompiled : CompiledLogic.ofLogic (logicOf f) with
  | ok c => exact h.obeys_init_of_ok hmessage hcompiled
  | error fault =>
    by_cases hdefect : ∃ error, fault = .compile error
    · obtain ⟨error, rfl⟩ := hdefect
      exact h.obeys_init_of_defect hmessage hcompiled
    · exact h.obeys_init_of_snag hmessage hcompiled (not_exists.mp hdefect)

/-- A worker starts a scheduler for the logic that it took up last, if that one was accepted. -/
theorem InPhase.obeys_start (hmessage : e.message = .start f) :
    d.Obeys p e (proceed peer (d.start f)) := by
  have hstop : ¬e.IsStop := by simp [Event.IsStop, hmessage]
  have haccepted := h.accepted
  rw [canRun] at haccepted
  rw [start, haccepted]
  cases hp : p.accepted with
  | false =>
    have hafter : p.after e = p := by simp [Phase.after, hmessage, hp]
    have hreply : p.reply? e = some (.error "Interpreter not initialized") := by
      simp [Phase.reply?, hmessage, hp]
    rw [if_neg Bool.false_ne_true]
    refine obeys_proceed ?_ ⟨[], ?_, by simp⟩ hstop (fun _ hfault => by cases hfault)
    · rw [hafter]
      exact h.line _
    · simp [hreply, Desk.post, Line.post]
  | true =>
    rw [if_pos rfl]
    cases hinterval : intervalOf f with
    | error fault =>
      have hafter : p.after e = p := by
        simp [Phase.after, hmessage, hinterval, Except.isOk, Except.toBool]
      have hreply : p.reply? e = none := by
        simp [Phase.reply?, hmessage, hinterval, hp, Except.toOption]
      rw [intervalOf] at hinterval
      rw [hinterval]
      refine obeys_proceed (by rwa [hafter]) ⟨[], by simp [hreply], by simp⟩ hstop
        fun _ _ hregular => ?_
      rw [Event.IsRegular, hmessage] at hregular
      obtain ⟨x, hx⟩ := hregular
      cases hinterval.symm.trans hx
    | ok x =>
      have hafter : p.after e = { p with current := some true } := by
        simp [Phase.after, hmessage, hinterval, hp, Except.isOk, Except.toBool]
      have hreply : p.reply? e = some (.started (raisedInterval x)) := by
        simp [Phase.reply?, hmessage, hinterval, hp, Except.toOption]
      rw [intervalOf] at hinterval
      rw [hinterval]
      refine obeys_proceed ?_ ⟨[], ?_, by simp⟩ hstop (fun _ hfault => by cases hfault)
      · rw [hafter]
        exact h.started hp rfl _
      · simp [hreply, Desk.post, Line.post]

omit h in
theorem obeys_stop (hmessage : e.message = .stop) :
    d.Obeys p e (some .stopped, (d.shutdown.post .stopped).shutdown) where
  phase := by
    rw [Phase.after, hmessage]
    exact inPhase_bare _
  posted := ⟨[], by rw [Phase.reply?, hmessage]; simp [shutdown, Desk.post, Line.post], by simp⟩
  ending := .inl ⟨hmessage, rfl⟩

theorem InPhase.obeys_answer (hmessage : e.message = .answer f) :
    d.Obeys p e (proceed peer (d.resolve f)) := by
  have hstop : ¬e.IsStop := by simp [Event.IsStop, hmessage]
  refine obeys_proceed ?_ ⟨[], ?_, by simp⟩ hstop fun fault hfault hregular => ?_
  · rw [Phase.after, hmessage]
    exact h.line _
  · rw [Phase.reply?, hmessage]
    simp
  · rw [Event.IsRegular, hmessage] at hregular
    obtain ⟨answered, hanswered⟩ := Proxy.exists_resolve d.line.proxy hregular
    cases hfault.symm.trans hanswered

end

/-! ### Ticks -/

section

variable {s : Scheduler} (hscheduler : d.scheduler = some s)

include hscheduler

/-- A tick of a scheduler whose interpreter was disposed of is a run that fails. -/
theorem tick_of_held {old : Interpreter} (hheld : s.held = some old) (hold : Resting old)
    (hstopped : old.status = .stopped) (peer : Peer τ) :
    d.tick peer = d.post (.error "InterpreterStateError: cannot run while stopped") := by
  have hrun := hold.exec_run_of_bare (surroundings peer) (hold.bare (.inr hstopped))
    s.details d.line
  rw [hstopped] at hrun
  obtain ⟨interval, details, held⟩ := s
  obtain ⟨interpreter, scheduler, line⟩ := d
  obtain rfl : held = some old := hheld
  obtain rfl : scheduler = _ := hscheduler
  unfold tick runStep
  exact congrArg (fun r => ({ reportRun ⟨interpreter, _, r.2.2⟩ r.1 with
    scheduler := some ⟨interval, details, some r.2.1⟩ } : Desk τ)) hrun

theorem tick_of_current {i : Interpreter} (hheld : s.held = none) (hi : d.interpreter = some i)
    (peer : Peer τ) :
    let ran := (Interpreter.run (surroundings peer) s.details).exec (i, d.line)
    d.tick peer =
      { reportRun { d with line := ran.2.2 } ran.1 with interpreter := some ran.2.1 } := by
  unfold tick runStep
  simp only [hscheduler, hheld, hi]
  rfl

end

/-- A tick leaves the phase as it is. -/
theorem InPhase.tick (h : d.InPhase p) (peer : Peer τ) : (d.tick peer).InPhase p := by
  cases hscheduler : d.scheduler with
  | none =>
    rw [Desk.tick, hscheduler]
    exact h
  | some s =>
    cases hheld : s.held with
    | some old =>
      -- The run fails before it touches the interpreter that is held.
      obtain ⟨hold, hstopped⟩ := h.of_held hscheduler hheld
      rw [tick_of_held hscheduler hheld hold hstopped]
      exact h.line _
    | none =>
      cases hi : d.interpreter with
      | none =>
        rw [Desk.tick, hscheduler]
        simp only [hheld, hi]
        exact h
      | some i =>
        obtain ⟨hrested, hrunnable⟩ :=
          (h.resting i hi).after_run (discreet peer) s.details d.line
        have hreported : ∀ (d : Desk τ) (result : Outcome Decision),
            (d.reportRun result).scheduler = d.scheduler := by
          rintro d (e | decision) <;> rfl
        rw [tick_of_current hscheduler hheld hi]
        refine h.congr (fun j hj => Option.some.inj hj ▸ hrested) ?_ (hreported _ _)
        simp only [canRun, hi, Option.map_some, Option.getD_some]
        exact hrunnable

/-- What each event comes to. -/
theorem InPhase.obeys (h : d.InPhase p) (peer : Peer τ) (e : Event) :
    d.Obeys p e (d.advance peer e) := by
  -- Ticks and market data are no messages, so they count as unknown ones.
  have hignored : ∀ {e : Event} (d' : Desk τ), e.message = .unknown → d'.InPhase p →
      Posts d.line d'.line → d.Obeys p e (none, d') := by
    intro e d' hmessage hphase hposts
    obtain ⟨asides, hposted, hasides⟩ := hposts
    refine ⟨?_, ⟨asides, ?_, hasides⟩, .inr ⟨?_, .inl rfl⟩⟩
    · rwa [Phase.after, hmessage]
    · rw [Phase.reply?, hmessage, hposted]
      simp
    · simp [Event.IsStop, hmessage]
  cases e with
  | tick =>
    refine hignored _ rfl ((h.tick peer).catchUp peer) ?_
    rw [Posts, posted_catchUp]
    exact posts_tick peer d
  | gather m => exact hignored _ rfl (h.gather (fun _ => m) d.line) (steady_posts.refl d.line)
  | item v =>
    rw [advance, receive_eq]
    cases hmessage : Message.of v with
    | init f => exact h.obeys_init hmessage
    | start f => exact h.obeys_start hmessage
    | stop => exact obeys_stop hmessage
    | answer f => exact h.obeys_answer hmessage
    | unknown =>
      refine hignored _ hmessage ?_ ?_
      · split
        · exact h.catchUp peer
        · exact h
      · split
        · exact ⟨[], by rw [posted_catchUp, List.append_nil], nofun⟩
        · exact steady_posts.refl d.line

end Desk

end TradingRules.Worker
