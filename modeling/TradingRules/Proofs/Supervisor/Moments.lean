import TradingRules.Proofs.Supervisor.Upkeep

/-!
# What one event does

There are few things that an event can come to. It is upkeep of one run; it tears one run down, by a
stop or by a failure; it adds a run; or it leaves all runs as they are.
-/

namespace TradingRules.Supervisor

open ExceptT (Within Steady)

/-! ### Runs by their ids -/

section

variable {σ : Type} {st : State σ} {id : Value} {k : Nat} {r : Run σ}

theorem State.mem_registered_iff :
    (k, r) ∈ st.registered ↔ st.runs[k]? = some r ∧ r.registered = true := by
  simp only [registered, List.mem_filter, List.mem_map, Prod.mk.injEq, Prod.exists,
    List.mem_zipIdx_iff_getElem?]
  constructor
  · rintro ⟨⟨r', k', hrun, rfl, rfl⟩, hup⟩
    exact ⟨hrun, hup⟩
  · rintro ⟨hrun, hup⟩
    exact ⟨⟨r, k, hrun, rfl, rfl⟩, hup⟩

theorem State.exists_of_find? (h : st.find? id = some k) :
    ∃ r, st.runs[k]? = some r ∧ r.registered = true ∧ r.id.isSame id = true := by
  obtain ⟨⟨j, r⟩, hfound, hj⟩ := Option.map_eq_some_iff.mp h
  obtain ⟨hrun, hup⟩ := mem_registered_iff.mp (List.mem_of_find?_eq_some hfound)
  have hsame := List.find?_some hfound
  cases hj
  exact ⟨r, hrun, hup, hsame⟩

theorem State.not_isSame_of_find? (h : st.find? id = none) (hrun : st.runs[k]? = some r)
    (hup : r.registered = true) : r.id.isSame id = false := by
  have hnone := List.find?_eq_none.mp (Option.map_eq_none_iff.mp h) (k, r)
    (mem_registered_iff.mpr ⟨hrun, hup⟩)
  simpa using hnone

end

/-! ### Teardown -/

def Run.stopped {σ : Type} (r : Run σ) : Run σ :=
  { r with
    registered := false
    stopping := true
    inbox := []
    process := r.process.stop }

def stopMessage (id : Value) : Value :=
  .text s!"Logic \"{id.shown}\" stopped"

def failureMessage (id : Value) : Value :=
  .text s!"Logic \"{id.shown}\" stopped after failure"

section

variable {σ : Type} {k : Nat} {r : Run σ} {a : State σ × σ}

theorem exec_changeRun (k : Nat) (f : Run σ → Run σ) (a : State σ × σ) :
    (changeRun k f : Action σ Unit).exec a = (.ok (), (a.1.change k f, a.2)) := rfl

theorem State.change_change (st : State σ) (k : Nat) (f g : Run σ → Run σ) :
    (st.change k f).change k g = st.change k (g ∘ f) := by
  simp [State.change, List.modify_modify_eq]

theorem unregister_teardown (st : State σ) (k : Nat) :
    (st.change k fun r => { r with registered := false }).change k (fun r =>
      { r with stopping := true, inbox := [], process := r.process.stop }) =
    st.change k Run.stopped := by
  rw [State.change_change]
  rfl

theorem exec_fail_of_down (hdown : ∀ r, a.1.runs[k]? = some r → r.registered = false)
    (reason : String) : (fail k reason).exec a = (.ok (), a) := by
  rw [fail, ExceptT.exec_bind_ok (exec_run? k a)]
  cases hr : a.1.runs[k]? with
  | none => rfl
  | some r => simp [hdown r hr]

/-- A failure of a run that is up tears it down, with two entries in its log. -/
theorem exec_fail_of_up (hr : a.1.runs[k]? = some r) (hup : r.registered = true)
    (hlive : r.stopping = false) (reason : String) :
    (fail k reason).exec a =
      let told := r.log (.text "Error") (.text reason) a.2
      let closed := r.log (.text "System") (failureMessage r.id) told.2
      (closed.1, (a.1.change k Run.stopped, closed.2)) := by
  have hfound : (a.1.change k fun r => { r with registered := false }).runs[k]? =
      some { r with registered := false } := by
    simp [State.change, hr]
  have htold : (emit k (.text "Error") (.text reason)).exec
      (a.1.change k (fun r => { r with registered := false }), a.2) =
      (.ok (), (a.1.change k (fun r => { r with registered := false }),
        (r.log (.text "Error") (.text reason) a.2).2)) := by
    rw [exec_emit, hfound]
    simp [hlive]
  rw [fail, ExceptT.exec_bind_ok (exec_run? k a)]
  simp only [hr, hup, if_true, unregister, teardown]
  rw [ExceptT.exec_bind_ok (exec_changeRun k _ a), ExceptT.exec_bind_ok htold,
    ExceptT.exec_bind_ok (exec_changeRun k _ _), exec_write, unregister_teardown]
  rfl

theorem State.registered_ne_nil {st : State σ} {id : Value} (h : st.find? id = some k) :
    st.registered.isEmpty = false := by
  obtain ⟨r, hr, hup, -⟩ := State.exists_of_find? h
  have hmem := State.mem_registered_iff.mpr ⟨hr, hup⟩
  cases hregistered : st.registered with
  | nil => simp [hregistered] at hmem
  | cons p rest => rfl

/-- A stop of a logic that is not running, or of an id that can be no key, does nothing. -/
theorem exec_stop_of_not_found {id : Value} (h : id.isKey = false ∨ a.1.find? id = none) :
    ((stop id).exec a).2 = a ∧ ((stop id).exec a).1 ≠ .ok true := by
  simp only [stop, ExceptT.exec_bind, ExceptT.exec_get]
  cases hempty : a.1.registered.isEmpty with
  | true => simp
  | false =>
    cases hkey : id.isKey with
    | false => simp
    | true =>
      have hnone : a.1.find? id = none := by simpa [hkey] using h
      simp [ExceptT.exec_bind, hnone]

theorem exec_stop_of_found {id : Value} (hkey : id.isKey = true) (h : a.1.find? id = some k)
    (hr : a.1.runs[k]? = some r) :
    (stop id).exec a =
      let closed := r.log (.text "System") (stopMessage id) a.2
      (closed.1.map fun _ => true, (a.1.change k Run.stopped, closed.2)) := by
  simp only [stop, ExceptT.exec_bind, ExceptT.exec_get, ExceptT.exec_pure,
    State.registered_ne_nil h, hkey, Bool.not_true, Bool.false_eq_true, if_false, h, exec_run?, hr,
    Option.map_some, unregister, teardown, exec_changeRun, unregister_teardown, exec_write]
  rcases hclosed : r.log (.text "System") (stopMessage id) a.2 with ⟨e | u, s⟩ <;>
  · rw [stopMessage] at hclosed
    simp only [hclosed]
    rfl

end

/-! ### Start -/

section

variable {σ : Type}

/-- Why a start can fail where it should give an answer: what it is handed is not what it has to be,
or its log refuses an entry. -/
inductive Launch.Raises (l : Launch σ) : Fault → Prop
  | log {title message : Value} {s : σ} {e : Fault} (h : (l.log title message s).1 = .error e) :
      Raises l e
  | interval {e : Fault} (hgiven : l.interval ≠ .null) (h : l.interval.toFloat = .error e) :
      Raises l e
  | logic {e : Fault} (h : CompiledLogic.ofLogic l.logic = .error e)
      (hcrash : ∀ c, e ≠ .compile c) : Raises l e
  | id (h : l.id.isKey = false) : Raises l (.unhashable l.id)

/-- What a start answers and does to the runs: nothing, or it adds a run of an id that is free. -/
inductive Launch.Starts (l : Launch σ) (st : State σ) : Outcome Bool → State σ → Prop
  | refused : Starts l st (.ok false) st
  | raised {e : Fault} (h : l.Raises e) : Starts l st (.error e) st
  | started (interval : Float) {answer : Outcome Bool} (hfree : st.find? l.id = none)
      (hanswer : answer = .ok true ∨ ∃ e, answer = .error e ∧ l.Raises e) :
      Starts l st answer { runs := st.runs ++ [l.newRun interval] }

theorem Launch.Starts.runs_cases {l : Launch σ} {st st' : State σ} {answer : Outcome Bool}
    (h : l.Starts st answer st') : st' = st ∨ ∃ interval, st.find? l.id = none ∧
      st' = { runs := st.runs ++ [l.newRun interval] } := by
  cases h with
  | refused => exact .inl rfl
  | raised h => exact .inl rfl
  | started interval hfree hanswer => exact .inr ⟨interval, hfree, rfl⟩

theorem Launch.Starts.of_taken {l : Launch σ} {st st' : State σ} {answer : Outcome Bool}
    (h : l.Starts st answer st') (htaken : st.find? l.id ≠ none) :
    st' = st ∧ (answer = .ok false ∨ ∃ e, answer = .error e ∧ l.Raises e) := by
  cases h with
  | refused => exact ⟨rfl, .inl rfl⟩
  | raised h => exact ⟨rfl, .inr ⟨_, rfl, h⟩⟩
  | started interval hfree hanswer => exact absurd hfree htaken

variable (l : Launch σ) (a : State σ × σ)

/-- A part of a start that leaves the runs as they are and fails only as a start can. -/
def Launch.Spares {α : Type} (x : Action σ α) : Prop :=
  Within (fun a b : State σ × σ => b.1 = a.1) l.Raises x

theorem sameRuns_steady : Steady fun a b : State σ × σ => b.1 = a.1 where
  refl _ := rfl
  trans hab hbc := hbc.trans hab

namespace Launch.Spares

variable {l}

theorem write (title message : Value) : l.Spares (write l.log title message) := fun a => by
  rw [exec_write]
  exact ⟨rfl, fun e h => .log h⟩

theorem seconds : l.Spares l.seconds := by
  have htold : ∀ x : Float, l.Spares (if x < Worker.leastInterval then do
      Supervisor.write l.log (.text "System") (.text
        s!"Interval {secondsText x}s raised to minimum {secondsText Worker.leastInterval}s")
      return Worker.raisedInterval x
      else return Worker.raisedInterval x) := by
    intro x
    split
    · exact sameRuns_steady.within_bind (write _ _) fun _ => sameRuns_steady.within_pure _
    · exact sameRuns_steady.within_pure _
  simp only [Launch.seconds]
  split
  · exact sameRuns_steady.within_bind (sameRuns_steady.within_pure _) htold
  · rename_i hgiven
    exact sameRuns_steady.within_bind
      (sameRuns_steady.within_liftM fun e h => .interval hgiven h) htold

end Launch.Spares

theorem Launch.starts_refuse (reason : String) :
    l.Starts a.1 ((l.refuse reason).exec a).1 ((l.refuse reason).exec a).2.1 := by
  simp only [refuse, ExceptT.exec_bind, exec_write]
  cases hlog : (l.log (.text "Error") (.text reason) a.2).1 with
  | error e => exact .raised (.log hlog)
  | ok u => exact .refused

theorem Launch.starts_spawn (interval : Float) :
    l.Starts a.1 ((l.spawn interval).exec a).1 ((l.spawn interval).exec a).2.1 := by
  simp only [spawn, ExceptT.exec_bind, ExceptT.exec_get]
  unfold isRunning
  cases hkey : l.id.isKey with
  | false => exact .raised (.id hkey)
  | true =>
    simp only [if_true, ExceptT.exec_liftM]
    cases hfound : a.1.find? l.id with
    | some k => exact l.starts_refuse a _
    | none =>
      simp only [Option.isSome_none, Bool.false_eq_true, if_false]
      cases hobstacle : l.obstacle with
      | some e => exact l.starts_refuse a _
      | none =>
        simp only [ExceptT.exec_bind, ExceptT.exec_modify, exec_write]
        cases hlog : (l.log (.text "System") (.text
            s!"Logic \"{l.id.shown}\" started ({secondsText interval}s interval)") a.2).1 with
        | error e => exact .started interval hfound (.inr ⟨e, rfl, .log hlog⟩)
        | ok u => exact .started interval hfound (.inl rfl)

theorem Launch.starts : l.Starts a.1 ((start l).exec a).1 ((start l).exec a).2.1 := by
  unfold start
  cases hid : l.id.isTruthy with
  | false => exact l.starts_refuse a _
  | true =>
    obtain ⟨hruns, hraises⟩ := Spares.seconds (l := l) a
    simp only [Bool.not_true, Bool.false_eq_true, if_false, ExceptT.exec_bind]
    generalize l.seconds.exec a = read at hruns hraises ⊢
    obtain ⟨e | interval, b⟩ := read
    · exact hruns ▸ .raised (hraises e rfl)
    · rw [← hruns]
      dsimp only
      split
      · exact l.starts_refuse b _
      · rename_i e hcrash hlogic
        exact .raised (.logic hlogic fun c h => hcrash c h)
      · exact l.starts_spawn b interval

end

section

variable {τ α β : Type} {n : Nat}

def MarksOf (n : Nat) (a b : System τ) : Prop :=
  ∃ marks, b.2.1 = a.2.1 ++ marks ∧ ∀ mark ∈ marks, mark.run = n

theorem marksOf_steady (n : Nat) : Steady (MarksOf (τ := τ) n) where
  refl _ := ⟨[], by simp⟩
  trans := by
    rintro a b c ⟨first, hfirst, hrunFirst⟩ ⟨second, hsecond, hrunSecond⟩
    refine ⟨first ++ second, by simp [hsecond, hfirst], fun mark hmark => ?_⟩
    rcases List.mem_append.mp hmark with hmark | hmark
    · exact hrunFirst mark hmark
    · exact hrunSecond mark hmark

/-- An action all of whose marks belong to one number. -/
def Marks (n : Nat) (x : Action (World τ) α) : Prop :=
  Within (MarksOf n) (fun _ => True) x

namespace Marks

theorem of_journal {x : Action (World τ) α} (h : ∀ a : System τ, (x.exec a).2.2.1 = a.2.1) :
    Marks n x :=
  fun a => ⟨⟨[], by simp [h a]⟩, fun _ _ => trivial⟩

theorem bind {x : Action (World τ) α} {f : α → Action (World τ) β} (hx : Marks n x)
    (hf : ∀ v, Marks n (f v)) : Marks n (x >>= f) :=
  (marksOf_steady n).within_bind hx hf

theorem pure (v : α) : Marks n (pure v : Action (World τ) α) :=
  (marksOf_steady n).within_pure v

theorem liftM (result : Outcome α) : Marks n (liftM result : Action (World τ) α) :=
  (marksOf_steady n).within_liftM fun _ _ => trivial

theorem write (log : LogSink τ) (title message : Value) :
    Marks n (write (journaled n log) title message) := fun a =>
  ⟨⟨[.entry n title message], by simp [exec_write, journaled, marked], by simp [Mark.run]⟩,
    fun _ _ => trivial⟩

variable (l : Launch τ)

theorem refuse (reason : String) : Marks n ((l.journaled n).refuse reason) :=
  (write l.log _ _).bind fun _ => .pure _

theorem seconds : Marks n (l.journaled n).seconds := by
  have htold : ∀ x : Float, Marks n (if x < Worker.leastInterval then do
      Supervisor.write (l.journaled n).log (.text "System") (.text
        s!"Interval {secondsText x}s raised to minimum {secondsText Worker.leastInterval}s")
      return Worker.raisedInterval x
      else return Worker.raisedInterval x) := by
    intro x
    split
    · exact (write l.log _ _).bind fun _ => .pure _
    · exact .pure _
  simp only [Launch.seconds]
  split
  · exact (pure _).bind htold
  · exact (liftM _).bind htold

theorem spawn (interval : Float) : Marks n ((l.journaled n).spawn interval) := by
  refine bind (of_journal fun _ => rfl) fun st => bind (liftM _) fun running => ?_
  split
  · exact refuse l _
  · split
    · exact refuse l _
    · exact bind (of_journal fun _ => rfl) fun _ => bind (write l.log _ _) fun _ => .pure _

/-- All that a start logs is logged under the number of its launch. -/
theorem start : Marks n (start (l.journaled n)) := by
  unfold Supervisor.start
  split
  · exact refuse l _
  · refine (seconds l).bind fun interval => ?_
    split
    · exact refuse l _
    · exact .of_journal fun _ => rfl
    · exact spawn l interval

end Marks

end

/-! ### The effect of an event -/

variable {τ : Type}

/-- What holds of the runs at all times: each logs under its own number, it is stopping exactly when
it is no longer registered, and no two registered runs have the same id. -/
structure State.Sound (st : State (World τ)) : Prop where
  owned : st.Owned
  flags : ∀ (k : Nat) (r : Run (World τ)), st.runs[k]? = some r → r.stopping = !r.registered
  distinct : ∀ (j k : Nat) (r s : Run (World τ)), j < k → st.runs[j]? = some r →
    st.runs[k]? = some s → r.registered = true → s.registered = true → r.id.isSame s.id = false

/-- A run that was registered is torn down, with these marks. -/
structure Teardown (k : Nat) (r : Run (World τ)) (closing : List Mark) (a b : System τ) : Prop where
  run : a.1.runs[k]? = some r
  registered : r.registered = true
  runs : b.1 = a.1.change k Run.stopped
  marks : b.2.1 = a.2.1 ++ closing

def Event.Fails : Event τ → Nat → Prop
  | .task j (.failure _), k => j = k
  | .report j, k => j = k
  | .closed j, k => j = k
  | _, _ => False

/-- What an event can come to. -/
inductive Moment.Effect (m : Moment τ) : Prop
  | upkeep (k : Nat) (hevent : m.event.run? = some k) (h : Upkeep k m.before m.after)
  | idle (id : Value) (hevent : m.event = .stop id) (hafter : m.after = m.before)
      (hanswer : m.answer ≠ .ok true)
  | stopped (k : Nat) (r : Run (World τ)) (id : Value) (hevent : m.event = .stop id)
      (hsame : r.id.isSame id = true)
      (h : Teardown k r [.entry k (.text "System") (stopMessage id)] m.before m.after)
      (hanswer : m.answer =
        (r.log (.text "System") (stopMessage id) m.before.2).1.map fun _ => true)
  | failed (k : Nat) (r : Run (World τ)) (reason : String) (hrun : m.event.run? = some k)
      (hevent : m.event.Fails k)
      (h : Teardown k r [.entry k (.text "Error") (.text reason),
        .entry k (.text "System") (failureMessage r.id)] m.before m.after)
  | start (l : Launch τ) (hevent : m.event = .start l)
      (hstarts : (l.journaled m.before.1.runs.length).Starts m.before.1 m.answer m.after.1)
      (hmarks : MarksOf m.before.1.runs.length m.before m.after)

theorem Moment.effect_of_fail {m : Moment τ} {k : Nat} {reason : String}
    (hsound : m.before.1.Sound) (hrun : m.event.run? = some k) (hevent : m.event.Fails k)
    (hafter : m.after = ((fail k reason).exec m.before).2) : m.Effect := by
  cases hr : m.before.1.runs[k]? with
  | none =>
    rw [exec_fail_of_down (by simp [hr])] at hafter
    exact .upkeep k hrun (hafter ▸ .refl k m.before)
  | some r =>
    cases hup : r.registered with
    | false =>
      rw [exec_fail_of_down (by simp [hr, hup])] at hafter
      exact .upkeep k hrun (hafter ▸ .refl k m.before)
    | true =>
      -- A run that is up is not stopping, so the reason of the failure is still emitted.
      have hlive : r.stopping = false := by simp [hsound.flags k r hr, hup]
      obtain ⟨log, hlog⟩ := hsound.owned k r hr
      rw [exec_fail_of_up hr hup hlive] at hafter
      refine .failed k r reason hrun hevent ⟨hr, hup, ?_, ?_⟩
      · rw [hafter]
      · simp [hafter, hlog, journaled, marked]

theorem exec_reportDeath {σ : Type} (k : Nat) (a : State σ × σ) :
    (reportDeath k).exec a = (.ok (), a) ∨ ∃ reason,
      ((reportDeath k).exec a).2 = ((fail k reason).exec a).2 := by
  rw [reportDeath, ExceptT.exec_bind_ok (exec_run? k a)]
  cases a.1.runs[k]? with
  | none => exact .inl rfl
  | some r =>
    dsimp only
    split
    · exact .inr ⟨_, rfl⟩
    · exact .inl rfl

/-- In a sound state every event comes to one of its effects. -/
theorem Moment.effect (res : Resources τ) {a : System τ} (hsound : a.1.Sound) (event : Event τ) :
    (Moment.of res a event).Effect := by
  cases event with
  | start l =>
    exact .start l rfl ((l.journaled a.1.runs.length).starts a)
      ((Marks.start l : Marks a.1.runs.length _) a).1
  | stop id =>
    by_cases hfree : id.isKey = false ∨ a.1.find? id = none
    · obtain ⟨hafter, hanswer⟩ := exec_stop_of_not_found hfree
      exact .idle id rfl hafter hanswer
    · simp only [not_or, Bool.not_eq_false] at hfree
      obtain ⟨hkey, hfound⟩ := hfree
      obtain ⟨k, hk⟩ := Option.ne_none_iff_exists'.mp hfound
      obtain ⟨r, hr, hup, hsame⟩ := State.exists_of_find? hk
      obtain ⟨log, hlog⟩ := hsound.owned k r hr
      have hexec := exec_stop_of_found hkey hk hr
      refine .stopped k r id rfl hsame ⟨hr, hup, ?_, ?_⟩ ?_
      · exact congrArg (·.2.1) hexec
      · refine (congrArg (·.2.2.1) hexec).trans ?_
        simp [hlog, journaled, marked, Moment.of]
      · exact congrArg (·.1) hexec
  | message k content =>
    exact .upkeep k rfl (((Keeps.attend content).bind fun _ => .pure _).upkeep hsound.owned)
  | task k task =>
    cases task with
    | order data =>
      exact .upkeep k rfl (((Keeps.handleOrder res data).bind fun _ => .pure _).upkeep hsound.owned)
    | request data =>
      exact .upkeep k rfl
        (((Keeps.handleRequest res data).bind fun _ => .pure _).upkeep hsound.owned)
    | failure reason => exact effect_of_fail hsound rfl rfl (ExceptT.exec_bind_pure_snd _ _ a)
  | ending k status =>
    have hchange : Keeps k (changeRun k fun r : Run (World τ) =>
        { r with process := { r.process with status } }) := .changeRun fun _ => rfl
    exact .upkeep k rfl ((hchange.bind fun _ => .pure false).upkeep hsound.owned)
  | report k =>
    rcases exec_reportDeath k a with hnothing | ⟨reason, hfailed⟩
    · have hafter : (Moment.of res a (.report k)).after = a :=
        (ExceptT.exec_bind_pure_snd _ _ a).trans (congrArg (·.2) hnothing)
      refine .upkeep k rfl ?_
      rw [hafter]
      exact .refl k a
    · exact effect_of_fail hsound rfl rfl ((ExceptT.exec_bind_pure_snd _ _ a).trans hfailed)
  | closed k => exact effect_of_fail hsound rfl rfl (ExceptT.exec_bind_pure_snd _ _ a)

end TradingRules.Supervisor
