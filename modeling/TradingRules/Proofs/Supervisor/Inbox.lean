import TradingRules.Proofs.Supervisor.Interval

/-!
# What a supervisor sends to a run

All that joins the inbox of a run are answers to its requests, except when its worker says that it
is ready: then a message to start joins it, with the interval of the run, which never changes.
-/

namespace TradingRules

namespace Value

/-- Is a value a message of the type? -/
def isMessage (type : String) (v : Value) : Bool :=
  match v with
  | .object f => match Fields.get f "type" with
    | .text t => t == type
    | _ => false
  | _ => false

theorem isMessage_iff {type : String} {v : Value} :
    v.isMessage type = true ↔ ∃ f, v = .object f ∧ Fields.get f "type" = .text type := by
  cases v with
  | object f =>
    simp only [isMessage, object.injEq, exists_eq_left']
    split
    · rename_i t htype
      simp [htype]
    · rename_i hother
      simpa using fun htype => hother type htype
  | _ => simp [isMessage]

theorem not_isMessage_of_ne {s t : String} (h : s ≠ t) {v : Value} (hv : v.isMessage s = true) :
    v.isMessage t = false := by
  obtain ⟨f, rfl, htype⟩ := isMessage_iff.mp hv
  simp [isMessage, htype, h]

theorem eq_of_fields? {v : Value} {f : Fields} (h : v.fields? = some f) : v = .object f := by
  cases v <;> simp_all [fields?]

theorem countP_isMessage {t : String} {vs : List Value} (h : ∀ v ∈ vs, v.isMessage t = false) :
    vs.countP (·.isMessage t) = 0 := by
  simpa only [List.countP_eq_zero, Bool.not_eq_true] using h

end Value

namespace Supervisor

open ExceptT (Within Steady)

variable {σ τ α β : Type}

def IsAnswer (v : Value) : Prop :=
  v.isMessage "api-response" = true

/-- A run keeps its interval, and its inbox still holds answers only. -/
def AnswersOnly (k : Nat) (a b : State σ × σ) : Prop :=
  ∀ r, a.1.runs[k]? = some r → (∀ v ∈ r.inbox, IsAnswer v) →
    ∃ r', b.1.runs[k]? = some r' ∧ r'.interval = r.interval ∧ ∀ v ∈ r'.inbox, IsAnswer v

theorem steady_answersOnly (k : Nat) : Steady (AnswersOnly (σ := σ) k) where
  refl a r hr hanswers := ⟨r, hr, rfl, hanswers⟩
  trans := by
    intro a b c hab hbc r hr hanswers
    obtain ⟨r', hr', hinterval', hanswers'⟩ := hab r hr hanswers
    obtain ⟨r'', hr'', hinterval'', hanswers''⟩ := hbc r' hr' hanswers'
    exact ⟨r'', hr'', hinterval''.trans hinterval', hanswers''⟩

/-- An action that sends nothing but answers to a run, whatever it comes to. -/
def Answering (k : Nat) (x : Action σ α) : Prop :=
  Within (AnswersOnly k) (fun _ => True) x

namespace Answering

variable {k : Nat}

theorem pure (a : α) : Answering k (pure a : Action σ α) :=
  (steady_answersOnly k).within_pure a

theorem liftM (result : Outcome α) : Answering k (liftM result : Action σ α) :=
  (steady_answersOnly k).within_liftM fun _ _ => trivial

theorem bind {x : Action σ α} {f : α → Action σ β} (hx : Answering k x)
    (hf : ∀ a, Answering k (f a)) : Answering k (x >>= f) :=
  (steady_answersOnly k).within_bind hx hf

theorem of_runs {x : Action σ α} (h : ∀ a, (x.exec a).2.1 = a.1) : Answering k x := fun a =>
  ⟨fun r hr hanswers => ⟨r, h a ▸ hr, rfl, hanswers⟩, fun _ _ => trivial⟩

theorem changeRun (j : Nat) {f : Run σ → Run σ} (hinterval : ∀ r, (f r).interval = r.interval)
    (hinbox : ∀ r, (∀ v ∈ r.inbox, IsAnswer v) → ∀ v ∈ (f r).inbox, IsAnswer v) :
    Answering k (changeRun j f) := by
  refine fun a => ⟨fun r hr hanswers => ?_, fun _ _ => trivial⟩
  by_cases hj : j = k
  · subst hj
    exact ⟨f r, by simp [exec_changeRun, State.change, hr], hinterval r, hinbox r hanswers⟩
  · exact ⟨r, by simp [exec_changeRun, State.change, hr, hj], rfl, hanswers⟩

theorem changeOther {j : Nat} (hj : j ≠ k) (f : Run σ → Run σ) :
    Answering k (Supervisor.changeRun j f) := fun a =>
  ⟨fun r hr hanswers => ⟨r, by simp [exec_changeRun, State.change, hr, hj], rfl, hanswers⟩,
    fun _ _ => trivial⟩

theorem run? (j : Nat) : Answering k (run? j : Action σ (Option (Run σ))) := of_runs fun _ => rfl

theorem write (log : LogSink σ) (title message : Value) :
    Answering k (write log title message) := of_runs fun a => by rw [exec_write]

theorem quietly {x : Action σ Unit} (hx : Answering k x) : Answering k (quietly x) := fun a =>
  ⟨(hx a).1, fun _ _ => trivial⟩

theorem emit (j : Nat) (title message : Value) :
    Answering k (emit j title message : Action σ Unit) := by
  refine (run? j).bind fun found => ?_
  cases found with
  | none => exact .pure ()
  | some r =>
    dsimp only
    split
    · exact (write r.log title message).quietly
    · exact .pure ()

theorem emitAll (j : Nat) (entries : List Order.Entry) :
    Answering k (emitAll j entries : Action σ Unit) := by
  induction entries with
  | nil => exact .pure ()
  | cons e rest ih => exact (emit j _ _).bind fun _ => ih

theorem unregister (j : Nat) : Answering k (unregister j : Action σ Unit) :=
  changeRun j (fun _ => rfl) fun _ h => h

theorem teardown (j : Nat) : Answering k (teardown j : Action σ Unit) :=
  changeRun j (fun _ => rfl) fun _ _ => by simp

theorem fail (j : Nat) (reason : String) : Answering k (fail j reason : Action σ Unit) := by
  refine (run? j).bind fun found => ?_
  cases found with
  | none => exact .pure ()
  | some r =>
    dsimp only
    split
    · exact (unregister j).bind fun _ => (emit j _ _).bind fun _ => (teardown j).bind fun _ =>
        write r.log _ _
    · exact .pure ()

theorem stop (id : Value) : Answering k (stop id : Action σ Bool) := by
  intro a
  refine ⟨?_, fun _ _ => trivial⟩
  by_cases hfree : id.isKey = false ∨ a.1.find? id = none
  · rw [(exec_stop_of_not_found hfree).1]
    exact (steady_answersOnly k).refl a
  · simp only [not_or, Bool.not_eq_false] at hfree
    obtain ⟨j, hj⟩ := Option.ne_none_iff_exists'.mp hfree.2
    obtain ⟨r, hr, -, -⟩ := State.exists_of_find? hj
    rw [exec_stop_of_found hfree.1 hj hr]
    exact ((changeRun j (f := Run.stopped) (fun _ => rfl) fun _ _ => by simp [Run.stopped]) a).1

theorem start (l : Launch σ) : Answering k (start l) := by
  refine fun a => ⟨fun r hr hanswers => ⟨r, ?_, rfl, hanswers⟩, fun _ _ => trivial⟩
  rcases l.runs_start a with hsame | ⟨x, -, hadded⟩
  · rw [hsame, hr]
  · rw [hadded]
    exact (List.getElem?_append_left (List.getElem?_eq_some_iff.mp hr).1).trans hr

section

variable (res : Resources σ) (j : Nat)

theorem handleRequest (data : Fields) : Answering k (handleRequest res j data) := by
  intro a
  let served := serve res data a.2
  have hsend : Answering k (send j (responseMessage data served.1) : Action σ Unit) := by
    refine changeRun j (fun _ => rfl) fun r h v hv => ?_
    rcases List.mem_append.mp hv with hv | hv
    · exact h v hv
    · rw [List.mem_singleton.mp hv]
      cases served.1 <;> rfl
  simp only [Supervisor.handleRequest, ExceptT.exec_bind, ExceptT.exec_get, ExceptT.exec_set,
    exec_run?]
  refine ⟨?_, fun _ _ => trivial⟩
  cases a.1.runs[j]? with
  | none => exact (steady_answersOnly k).refl a
  | some r =>
    cases hstopping : r.stopping with
    | true =>
      simp only [hstopping, Bool.not_true, Bool.false_eq_true, if_false]
      exact (steady_answersOnly k).refl a
    | false =>
      simp only [hstopping, Bool.not_false, if_true]
      exact (hsend (a.1, served.2)).1

theorem handleOrder (data : Fields) : Answering k (handleOrder res j data) := by
  refine (liftM _).bind fun order => (run? j).bind fun found => ?_
  cases found with
  | none => exact .pure ()
  | some r =>
    dsimp only
    split
    · intro a
      let executed := Order.execute res.broker (data.get "action") order
        ((data.get "stock").orElse r.stock) a.2
      have hrest : Answering k (do
          Supervisor.emitAll j executed.1.entries
          let _ ← (executed.1.result : Outcome Value) : Action σ Unit) :=
        (emitAll j _).bind fun _ => (liftM _).bind fun _ => .pure ()
      exact hrest (a.1, executed.2)
    · exact .pure ()

theorem perform (task : Task) : Answering k (perform res j task) := by
  cases task with
  | order data => exact handleOrder res j data
  | request data => exact handleRequest res j data
  | failure reason => exact fail j reason

/-- Only the message of a worker that it is ready makes the supervisor send more than an answer. -/
theorem handleFields {j : Nat} {data : Fields}
    (hready : j = k → data.get "type" ≠ .text "ready") :
    Answering k (handleFields j data : Action σ (Option Task)) := by
  unfold Supervisor.handleFields
  split
  · exact (emit j _ _).bind fun _ => .pure _
  · exact .pure _
  · exact .pure _
  · rename_i htype
    have hj : j ≠ k := fun hj => hready hj htype
    refine (run? j).bind fun found => ?_
    cases found with
    | none => exact .pure _
    | some r => exact (changeOther hj _).bind fun _ => .pure _
  · exact .pure _
  · exact (liftM _).bind fun _ => (emit j _ _).bind fun _ => .pure _
  · exact (emit j _ _).bind fun _ => .pure _
  · exact (emit j _ _).bind fun _ => .pure _
  · exact .pure _

theorem attend {j : Nat} {message : Value} (hready : j = k → message.isMessage "ready" = false) :
    Answering k (attend j message : Action σ Unit) := by
  have hhandle : Answering k (Supervisor.handle j message : Action σ (Option Task)) := by
    cases message with
    | object f =>
      show Answering k (Supervisor.handleFields j f : Action σ (Option Task))
      refine handleFields fun hj htype => ?_
      have hother := hready hj
      simp [Value.isMessage, htype] at hother
    | _ => exact fun a => ⟨(steady_answersOnly k).refl a, fun _ _ => trivial⟩
  intro a
  rw [exec_attend]
  have hhandled := (hhandle a).1
  generalize (Supervisor.handle j message).exec a = result at hhandled ⊢
  obtain ⟨e | task, b⟩ := result
  · exact ⟨(steady_answersOnly k).trans hhandled (emit j _ _ b).1, fun _ _ => trivial⟩
  · exact ⟨hhandled, fun _ _ => trivial⟩

theorem reportDeath (j : Nat) : Answering k (reportDeath j : Action σ Unit) := by
  refine (run? j).bind fun found => ?_
  cases found with
  | none => exact .pure ()
  | some r =>
    dsimp only
    split
    · exact (fail j _).quietly
    · exact .pure ()

/-- An event that is no message of the worker of a run. -/
theorem act {τ : Type} {k : Nat} (res : Resources τ) {event : Event τ}
    (hevent : ∀ content, event ≠ .message k content) :
    Answering k (act res event) := by
  cases event with
  | start l => exact (of_runs fun _ => rfl).bind fun _ => start _
  | stop id => exact stop id
  | message j content =>
    exact (attend fun hj => absurd (hj ▸ rfl) (hevent content)).bind fun _ => .pure _
  | task j task => exact (perform _ j task).bind fun _ => .pure _
  | ending j status =>
    have hchange : Answering k (Supervisor.changeRun j fun r : Run (World τ) =>
        { r with process := { r.process with status } }) :=
      changeRun j (fun _ => rfl) fun _ h => h
    exact hchange.bind fun _ => .pure _
  | report j => exact (reportDeath j).bind fun _ => .pure _
  | closed j => exact (fail j _).bind fun _ => .pure _

end

end Answering

/-- A worker that is ready is told to start, at the interval of its run. -/
theorem exec_attend_ready {k : Nat} {a : State σ × σ} {r : Run σ} (hr : a.1.runs[k]? = some r)
    {message : Value} (hmessage : message.isMessage "ready" = true) :
    (attend k message).exec a =
      (.ok (), (a.1.change k fun s => { s with inbox := s.inbox ++ [r.startMessage] }, a.2)) := by
  obtain ⟨f, rfl, htype⟩ := Value.isMessage_iff.mp hmessage
  have hhandled : (handle k (.object f) : Action σ (Option Task)).exec a =
      (.ok none, (a.1.change k fun s => { s with inbox := s.inbox ++ [r.startMessage] }, a.2)) := by
    show (handleFields k f).exec a = _
    simp only [handleFields, htype, ExceptT.exec_bind_ok (exec_run? k a), hr]
    rfl
  rw [exec_attend, hhandled]

theorem exec_act_message (res : Resources τ) (k : Nat) (message : Value) (a : System τ) :
    ((act res (.message k message)).exec a).2 = ((attend k message).exec a).2 :=
  ExceptT.exec_bind_pure_snd _ _ _

theorem exec_act_start (res : Resources τ) (launch : Launch τ) (a : System τ) :
    (act res (.start launch)).exec a = (start (launch.journaled a.1.runs.length)).exec a :=
  ExceptT.exec_bind_ok (ExceptT.exec_get a) _

end Supervisor

end TradingRules
