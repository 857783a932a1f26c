import TradingRules.Proofs.Service.Calls
import TradingRules.Service.Routes

/-!
# What a routine may call

Only the route that starts a logic makes a call to start one, and before that it loads the logic.
Only the route that deletes a logic makes a call to delete one, and before that it stops the logic.
If the first call fails, the second is not made.
-/

namespace TradingRules.Service

variable {α β : Type} {P Q : Call → Prop}

namespace Routine

/-- All calls that a routine can come to are of a kind, whatever it is answered. -/
inductive Only (P : Call → Prop) : Routine α → Prop
  | done (a : α) : Only P (done a)
  | call {c : Call} {next : Outcome Value → Routine α} (hc : P c)
      (hnext : ∀ answer, Only P (next answer)) : Only P (call c next)

/-- A routine that makes calls of a kind only after its first call was answered without a fault. All
its other calls neither start nor delete a logic. -/
inductive Guarded (guard : Call) (P : Call → Prop) : Routine α → Prop
  | done (a : α) : Guarded guard P (done a)
  | call {next : Outcome Value → Routine α} (hok : ∀ v, (next (.ok v)).Only fun c => c.Mild ∨ P c)
      (herror : ∀ e, (next (.error e)).Only Call.Mild) : Guarded guard P (call guard next)

theorem Only.mono (hPQ : ∀ c, P c → Q c) {r : Routine α} (h : r.Only P) : r.Only Q := by
  induction h with
  | done a => exact .done a
  | call hc hnext ih => exact .call (hPQ _ hc) ih

theorem Only.bind {r : Routine α} {f : α → Routine β} (h : r.Only P) (hf : ∀ a, (f a).Only P) :
    (r >>= f).Only P := by
  induction h with
  | done a => exact hf a
  | call hc hnext ih => exact .call hc ih

theorem Guarded.bind {guard : Call} {r : Routine α} {f : α → Routine β} (h : r.Guarded guard P)
    (hf : ∀ a, (f a).Only Call.Mild) (hdone : ∀ a, (f a).Guarded guard P) :
    (r >>= f).Guarded guard P := by
  cases h with
  | done a => exact hdone a
  | call hok herror =>
    exact .call (fun v => (hok v).bind fun a => (hf a).mono fun _ => .inl)
      fun e => (herror e).bind hf

end Routine

/-- All calls of a handler are of a kind. -/
def Handler.Only (P : Call → Prop) (h : Handler α) : Prop :=
  Routine.Only P h.run

namespace Handler.Only

theorem pure (a : α) : Only P (pure a : Handler α) := .done _

theorem throw (e : Fault) : Only P (throw e : Handler α) := .done _

theorem liftM (result : Outcome α) : Only P (liftM result : Handler α) := .done _

theorem ask {c : Call} (hc : P c) : Only P (ask c) := .call hc .done

theorem bind {x : Handler α} {f : α → Handler β} (hx : Only P x) (hf : ∀ a, Only P (f a)) :
    Only P (x >>= f) := by
  refine Routine.Only.bind hx fun result => ?_
  cases result with
  | error e => exact .done _
  | ok a => exact hf a

theorem attempt {x : Handler α} (hx : Only P x) : Only P (attempt x) :=
  Routine.Only.bind hx fun _ => .done _

theorem mapM {f : α → Handler β} (hf : ∀ a, Only P (f a)) (l : List α) : Only P (l.mapM f) := by
  -- Handlers obey no laws here that would unfold the loop from the front.
  have hloop : ∀ done, Only P (List.mapM.loop f l done) := by
    induction l with
    | nil => exact fun done => pure _
    | cons a l ih => exact fun done => (hf a).bind fun b => ih (b :: done)
  exact hloop []

theorem bodyField (body : Value) (key : String) : Only P (bodyField body key) :=
  (liftM _).bind fun _ => pure _

theorem detailsOf (body : Value) : Only P (detailsOf body) :=
  (bodyField body _).bind fun _ => pure _

theorem orNotFound {id : String} {missing : Fault → Bool} {step : Handler α}
    {next : α → Handler Response} (hstep : Only P step) (hnext : ∀ a, Only P (next a)) :
    Only P (orNotFound id missing step next) := by
  refine hstep.attempt.bind fun result => ?_
  cases result with
  | ok a => exact hnext a
  | error e =>
    dsimp only
    split
    · exact pure _
    · exact throw _

theorem orExplain {step : Handler Response} (hstep : Only P step) : Only P (orExplain step) := by
  refine hstep.attempt.bind fun result => ?_
  cases result <;> exact pure _

theorem payload {id : String} (hload : P (.loadLogic id)) (body : Value) :
    Only P (payload id body) :=
  (ask hload).bind fun _ => (liftM _).bind fun _ => (liftM _).bind fun _ => pure _

/-! ### Routes that neither start nor delete -/

theorem health : Only Call.Mild health :=
  (ask ⟨rfl, rfl⟩).bind fun _ => (liftM _).bind fun _ => pure _

theorem listLogics : Only Call.Mild listLogics := by
  have hmark : ∀ entry, Only Call.Mild (markRunning entry) := fun entry =>
    (bodyField entry _).bind fun _ => (ask ⟨rfl, rfl⟩).bind fun _ => liftM _
  exact orExplain ((ask ⟨rfl, rfl⟩).bind fun _ => (liftM _).bind fun _ =>
    (mapM hmark _).bind fun _ => pure _)

theorem createLogic (body : Outcome Value) : Only Call.Mild (createLogic body) :=
  orExplain ((liftM _).bind fun _ => (ask ⟨rfl, rfl⟩).bind fun _ => pure _)

theorem reorderLogics (body : Value) : Only Call.Mild (reorderLogics body) := by
  refine (bodyField body _).bind fun order => ?_
  split
  · exact orExplain ((ask ⟨rfl, rfl⟩).bind fun _ => pure _)
  · exact pure _

theorem runningLogics : Only Call.Mild runningLogics :=
  (ask ⟨rfl, rfl⟩).bind fun _ => pure _

theorem stopAll : Only Call.Mild stopAll :=
  (ask ⟨rfl, rfl⟩).bind fun _ => (liftM _).bind fun _ => (ask ⟨rfl, rfl⟩).bind fun _ => pure _

theorem getLogic (id : String) : Only Call.Mild (getLogic id) :=
  orNotFound (ask ⟨rfl, rfl⟩) fun _ => (ask ⟨rfl, rfl⟩).bind fun _ => (liftM _).bind fun _ =>
    pure _

theorem updateLogic (id : String) (body : Value) : Only Call.Mild (updateLogic id body) :=
  orExplain (orNotFound ((liftM _).bind fun _ => ask ⟨rfl, rfl⟩) fun _ => pure _)

theorem validate (id : String) (body : Value) : Only Call.Mild (validate id body) := by
  refine orNotFound (payload ⟨rfl, rfl⟩ body) fun given => ?_
  dsimp only
  split
  · exact pure _
  · exact pure _
  · exact throw _

theorem stopLogic (id : String) : Only Call.Mild (stopLogic id) := by
  refine (ask ⟨rfl, rfl⟩).bind fun stopped => ?_
  split
  · exact pure _
  · exact pure _

theorem runOnce (id : String) (body : Value) : Only Call.Mild (runOnce id body) := by
  refine orNotFound (payload ⟨rfl, rfl⟩ body) fun given => ?_
  dsimp only
  split
  · exact pure _
  · refine (detailsOf body).bind fun details => (ask ⟨rfl, rfl⟩).bind fun result =>
      (ask ⟨rfl, rfl⟩).bind fun logs => ?_
    split
    · exact pure _
    · exact pure _

theorem readLog (id : String) (limit : Option Int) : Only Call.Mild (readLog id limit) :=
  (ask ⟨rfl, rfl⟩).bind fun _ => pure _

end Handler.Only

/-! ### Starting and deleting -/

section

variable (id : String) (body : Value)

theorem guarded_ask {c : Call} {f : Value → Handler α}
    (hf : ∀ v, (f v).Only fun c => c.Mild ∨ P c) : (ask c >>= f).run.Guarded c P :=
  .call hf fun _ => .done _

theorem guarded_orNotFound {c : Call} {f : Value → Handler α} {missing : Fault → Bool}
    {next : α → Handler Response} (hf : ∀ v, (f v).Only fun c => c.Mild ∨ P c)
    (hnext : ∀ a, (next a).Only fun c => c.Mild ∨ P c) :
    (orNotFound id missing (ask c >>= f) next).run.Guarded c P := by
  refine .call (fun v => Handler.Only.orNotFound (hf v) hnext) fun e => ?_
  show (if missing e then pure (Response.notFound id) else throw e : Handler Response).Only _
  split
  · exact .pure _
  · exact .throw _

/-- A logic is started only after it was loaded. -/
theorem guarded_startLogic : (startLogic id body).run.Guarded (.loadLogic id)
    fun c => c.starts? = some id := by
  refine guarded_orNotFound id (fun v => (Handler.Only.liftM _).bind fun _ =>
    (Handler.Only.liftM _).bind fun _ => .pure _) fun given => ?_
  dsimp only
  split
  · exact .pure _
  · refine (Handler.Only.ask (.inl ⟨rfl, rfl⟩)).bind fun running => ?_
    split
    · exact .pure _
    · split
      · exact .pure _
      · exact .throw _
      · split
        · refine (Handler.Only.detailsOf body).bind fun details =>
            (Handler.Only.ask (.inr rfl)).bind fun started => ?_
          split
          · exact (Handler.Only.ask (.inl ⟨rfl, rfl⟩)).bind fun _ => .pure _
          · exact (Handler.Only.ask (.inl ⟨rfl, rfl⟩)).bind fun _ => .pure _
        · split
          · exact .pure _
          · exact .throw _

/-- A logic is deleted only after it was stopped. -/
theorem guarded_deleteLogic : (deleteLogic id).run.Guarded (.stopLogic id)
    fun c => c.deletes? = some id := by
  refine guarded_ask fun _ => Handler.Only.orNotFound (.ask (.inr rfl)) fun deleted => ?_
  split
  · exact (Handler.Only.ask (.inl ⟨rfl, rfl⟩)).bind fun _ => .pure _
  · exact .pure _

end

/-! ### The routine of a request -/

/-- The routine of a handler. A fault that is left becomes a response with status 500. -/
def Handler.routine (h : Handler Response) (headOnly : Bool) : Routine Response := do
  match ← h.run with
  | .error _ => return .bare 500
  | .ok response => return if headOnly then .bare response.status else response

theorem Handler.Only.routine {h : Handler Response} (hh : h.Only P) (headOnly : Bool) :
    (h.routine headOnly).Only P := by
  refine Routine.Only.bind hh ?_
  rintro (e | response) <;> exact .done _

theorem Routine.Guarded.routine {guard : Call} {h : Handler Response} (hh : h.run.Guarded guard P)
    (headOnly : Bool) : (h.routine headOnly).Guarded guard P := by
  refine hh.bind ?_ ?_ <;>
  · rintro (e | response) <;> exact .done _

namespace Request

variable (r : Request)

/-- Does a request lead to a route? -/
def Asks (route : Route) : Prop :=
  r.address.destination r.verb = .route route

instance (route : Route) : Decidable (r.Asks route) :=
  inferInstanceAs (Decidable (_ = _))

theorem only_handler {route : Route} (hstart : ∀ id, route ≠ .start id)
    (hdelete : ∀ id, route ≠ .delete id) : (r.handler route).Only Call.Mild := by
  cases route with
  | start id => exact (hstart id rfl).elim
  | delete id => exact (hdelete id rfl).elim
  | health => exact .health
  | list => exact .listLogics
  | create => exact .createLogic _
  | reorder => exact (Handler.Only.liftM _).bind fun body => .reorderLogics body
  | running => exact .runningLogics
  | stopAll => exact .stopAll
  | file => exact .pure _
  | get id => exact .getLogic id
  | update id => exact (Handler.Only.liftM _).bind fun body => .updateLogic id body
  | validate id => exact (Handler.Only.liftM _).bind fun body => .validate id body
  | stop id => exact .stopLogic id
  | runOnce id => exact (Handler.Only.liftM _).bind fun body => .runOnce id body
  | logs id => exact .readLog id _

theorem guarded_handler_start (id : String) :
    (r.handler (.start id)).run.Guarded (.loadLogic id) fun c => c.starts? = some id := by
  rw [handler]
  cases r.body with
  | error e => exact .done _
  | ok body => exact guarded_startLogic id body

variable {r} in
theorem routine_of_asks {route : Route} (h : r.Asks route) :
    r.routine = (r.handler route).routine (r.verb == "HEAD") := by
  rw [routine, h]
  rfl

/-- Whatever a request asks for, its routine neither starts nor deletes a logic, unless it asks for
just that; and then it first loads the logic, or stops it. -/
theorem routine_cases : r.routine.Only Call.Mild ∨
    (∃ id, r.Asks (.start id) ∧
      r.routine.Guarded (.loadLogic id) fun c => c.starts? = some id) ∨
    (∃ id, r.Asks (.delete id) ∧
      r.routine.Guarded (.stopLogic id) fun c => c.deletes? = some id) := by
  cases hdestination : r.address.destination r.verb with
  | unknown | wrongVerb | moved | options =>
    rw [routine, hdestination]
    exact .inl (.done _)
  | route route =>
    rw [routine_of_asks hdestination]
    by_cases hstart : ∃ id, route = .start id
    · obtain ⟨id, rfl⟩ := hstart
      exact .inr (.inl ⟨id, hdestination, (r.guarded_handler_start id).routine _⟩)
    by_cases hdelete : ∃ id, route = .delete id
    · obtain ⟨id, rfl⟩ := hdelete
      exact .inr (.inr ⟨id, hdestination, (guarded_deleteLogic id).routine _⟩)
    · have hmild : (r.handler route).Only Call.Mild :=
        r.only_handler (fun id h => hstart ⟨id, h⟩) fun id h => hdelete ⟨id, h⟩
      exact .inl (hmild.routine _)

end Request

end TradingRules.Service
