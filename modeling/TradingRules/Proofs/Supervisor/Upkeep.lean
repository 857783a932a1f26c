import TradingRules.Proofs.Supervisor.Journal

/-!
# Upkeep of a run

Most of what a supervisor does for a run leaves it registered or torn down as it was: it emits
entries, places orders and answers requests. Such upkeep concerns no other run, all its marks are
of that run, and for a run that is stopping it leaves no mark at all. Upkeep is composed of upkeep.
-/

namespace TradingRules.Supervisor

open ExceptT (Within Steady)

variable {τ α β : Type}

/-- What upkeep leaves as it is. -/
def Run.core {σ : Type} (r : Run σ) : Value × LogSink σ × Bool × Bool :=
  (r.id, r.log, r.registered, r.stopping)

def State.Owned (st : State (World τ)) : Prop :=
  ∀ k r, st.runs[k]? = some r → ∃ log : LogSink τ, r.log = journaled k log

/-- Something was done for a run that does not tear it down. -/
structure Upkeep (k : Nat) (a b : System τ) : Prop where
  others : ∀ j, j ≠ k → b.1.runs[j]? = a.1.runs[j]?
  core : b.1.runs[k]?.map Run.core = a.1.runs[k]?.map Run.core
  marks : ∃ marks, b.2.1 = a.2.1 ++ marks ∧ (∀ mark ∈ marks, mark.run = k) ∧
    ((∀ r, a.1.runs[k]? = some r → r.stopping = true) → marks = [])

namespace Upkeep

variable {k : Nat} {a b c : System τ}

theorem refl (k : Nat) (a : System τ) : Upkeep k a a where
  others _ _ := rfl
  core := rfl
  marks := ⟨[], by simp⟩

theorem of_marks {marks : List Mark} (hmarks : ∀ mark ∈ marks, mark.run = k) (t : τ)
    {r : Run (World τ)} (hr : a.1.runs[k]? = some r) (hlive : r.stopping = false) :
    Upkeep k a (a.1, (a.2.1 ++ marks, t)) where
  others _ _ := rfl
  core := rfl
  marks := ⟨marks, rfl, hmarks, fun hstopping => by simp [hstopping r hr] at hlive⟩

theorem of_unmarked (t : τ) : Upkeep k a (a.1, (a.2.1, t)) where
  others _ _ := rfl
  core := rfl
  marks := ⟨[], by simp⟩

theorem of_change {f : Run (World τ) → Run (World τ)} (hf : ∀ r, (f r).core = r.core) :
    Upkeep k a (a.1.change k f, a.2) where
  others j hj := by simp [State.change, Ne.symm hj]
  core := by
    cases hr : a.1.runs[k]? with
    | none => simp [State.change, hr]
    | some r => simp [State.change, hr, hf]
  marks := ⟨[], by simp⟩

theorem exists_run (h : Upkeep k a b) {r' : Run (World τ)} (hr' : b.1.runs[k]? = some r') :
    ∃ r, a.1.runs[k]? = some r ∧ r.core = r'.core := by
  have hcore := h.core
  rw [hr'] at hcore
  simpa [eq_comm] using hcore

theorem trans (hab : Upkeep k a b) (hbc : Upkeep k b c) : Upkeep k a c where
  others j hj := (hbc.others j hj).trans (hab.others j hj)
  core := hbc.core.trans hab.core
  marks := by
    obtain ⟨first, hfirst, hrunFirst, hquietFirst⟩ := hab.marks
    obtain ⟨second, hsecond, hrunSecond, hquietSecond⟩ := hbc.marks
    refine ⟨first ++ second, by simp [hfirst, hsecond], ?_, fun hstopping => ?_⟩
    · intro mark hmark
      rcases List.mem_append.mp hmark with hmark | hmark
      · exact hrunFirst mark hmark
      · exact hrunSecond mark hmark
    · have hstoppingB : ∀ r, b.1.runs[k]? = some r → r.stopping = true := by
        intro r' hr'
        obtain ⟨r, hr, hcore⟩ := hab.exists_run hr'
        simp only [Run.core, Prod.mk.injEq] at hcore
        exact hcore.2.2.2 ▸ hstopping r hr
      simp [hquietFirst hstopping, hquietSecond hstoppingB]

theorem owned (h : Upkeep k a b) (howned : a.1.Owned) : b.1.Owned := by
  intro j r' hr'
  by_cases hj : j = k
  · subst hj
    obtain ⟨r, hr, hcore⟩ := h.exists_run hr'
    obtain ⟨log, hlog⟩ := howned j r hr
    simp only [Run.core, Prod.mk.injEq] at hcore
    exact ⟨log, hcore.2.1 ▸ hlog⟩
  · exact howned j r' (h.others j hj ▸ hr')

end Upkeep

def OwnedUpkeep (k : Nat) (a b : System τ) : Prop :=
  a.1.Owned → Upkeep k a b

theorem ownedUpkeep_steady (k : Nat) : Steady (OwnedUpkeep (τ := τ) k) where
  refl a _ := .refl k a
  trans hab hbc howned := (hab howned).trans (hbc ((hab howned).owned howned))

/-- An action that is upkeep of a run, whatever it comes to. -/
def Keeps (k : Nat) (x : Action (World τ) α) : Prop :=
  Within (OwnedUpkeep k) (fun _ => True) x

namespace Keeps

variable {k : Nat}

theorem upkeep {x : Action (World τ) α} (h : Keeps k x) {a : System τ} (howned : a.1.Owned) :
    Upkeep k a (x.exec a).2 :=
  (h a).1 howned

theorem of_upkeep {x : Action (World τ) α}
    (h : ∀ a : System τ, a.1.Owned → Upkeep k a (x.exec a).2) : Keeps k x :=
  fun a => ⟨h a, fun _ _ => trivial⟩

theorem pure (a : α) : Keeps k (pure a : Action (World τ) α) :=
  (ownedUpkeep_steady k).within_pure a

theorem liftM (result : Outcome α) : Keeps k (liftM result : Action (World τ) α) :=
  (ownedUpkeep_steady k).within_liftM fun _ _ => trivial

theorem bind {x : Action (World τ) α} {f : α → Action (World τ) β} (hx : Keeps k x)
    (hf : ∀ a, Keeps k (f a)) : Keeps k (x >>= f) :=
  (ownedUpkeep_steady k).within_bind hx hf

theorem run? : Keeps k (run? k : Action (World τ) (Option (Run (World τ)))) :=
  of_upkeep fun a _ => .refl k a

theorem changeRun {f : Run (World τ) → Run (World τ)} (hf : ∀ r, (f r).core = r.core) :
    Keeps k (changeRun k f) :=
  of_upkeep fun _ _ => .of_change hf

theorem send (message : Value) : Keeps k (send k message : Action (World τ) Unit) :=
  .changeRun fun _ => rfl

end Keeps

section

variable (k : Nat) (title message : Value)

theorem exec_run? {σ : Type} (a : State σ × σ) :
    (run? k : Action σ (Option (Run σ))).exec a = (.ok a.1.runs[k]?, a) := rfl

theorem exec_write {σ : Type} (log : LogSink σ) (a : State σ × σ) :
    (write log title message).exec a =
      ((log title message a.2).1, (a.1, (log title message a.2).2)) := by
  simp [write, ExceptT.exec_bind]

theorem exec_quietly {σ : Type} (step : Action σ Unit) (a : State σ × σ) :
    (quietly step).exec a = (.ok (), (step.exec a).2) := rfl

theorem exec_emit {σ : Type} (a : State σ × σ) : (emit k title message : Action σ Unit).exec a =
    match a.1.runs[k]? with
    | some r => if r.stopping then (.ok (), a) else (.ok (), (a.1, (r.log title message a.2).2))
    | none => (.ok (), a) := by
  rw [emit, ExceptT.exec_bind_ok (exec_run? k a)]
  cases a.1.runs[k]? with
  | none => rfl
  | some r =>
    cases hstopping : r.stopping with
    | true => simp [hstopping]
    | false => simp [hstopping, exec_quietly, exec_write]

theorem exec_attend {σ : Type} (a : State σ × σ) : (attend k message : Action σ Unit).exec a =
    match (handle k message : Action σ (Option Task)).exec a with
    | (.ok _, b) => (.ok (), b)
    | (.error e, b) => (emit k (.text "Error") (.text s!"Supervisor error: {e.message}")).exec b :=
  rfl

theorem exec_listen {σ : Type} (res : Resources σ) (a : State σ × σ) :
    (listen res k message).exec a =
    match (receive res k message).exec a with
    | (.ok _, b) => (.ok (), b)
    | (.error e, b) => (emit k (.text "Error") (.text s!"Supervisor error: {e.message}")).exec b :=
  rfl

theorem exec_listen_of_handled {σ : Type} (res : Resources σ) {a b : State σ × σ}
    (h : (handle k message : Action σ (Option Task)).exec a = (.ok none, b)) :
    (listen res k message).exec a = (.ok (), b) := by
  rw [exec_listen, receive, ExceptT.exec_bind_ok h]
  rfl

/-- The work that a message gives rise to may fail without a trace. -/
theorem exec_listen_of_task {σ : Type} (res : Resources σ) {a b : State σ × σ} {task : Task}
    (h : (handle k message : Action σ (Option Task)).exec a = (.ok (some task), b)) :
    (listen res k message).exec a = (.ok (), ((perform res k task).exec b).2) := by
  rw [exec_listen, receive, ExceptT.exec_bind_ok h]
  rfl

end

namespace Keeps

variable {k : Nat}

theorem emit (title message : Value) : Keeps k (emit k title message : Action (World τ) Unit) := by
  refine of_upkeep fun a howned => ?_
  rw [exec_emit]
  cases hr : a.1.runs[k]? with
  | none => exact .refl k a
  | some r =>
    obtain ⟨log, hlog⟩ := howned k r hr
    cases hstopping : r.stopping with
    | true => simpa [hstopping] using Upkeep.refl k a
    | false =>
      simp only [hstopping, hlog]
      have hmarks : ∀ mark ∈ [Mark.entry k title message], mark.run = k := by simp [Mark.run]
      exact .of_marks hmarks _ hr hstopping

theorem handleFields (data : Fields) :
    Keeps k (handleFields k data : Action (World τ) (Option Task)) := by
  unfold Supervisor.handleFields
  split
  · exact (Keeps.emit _ _).bind fun _ => .pure _
  · exact .pure _
  · exact .pure _
  · refine Keeps.run?.bind fun found => ?_
    cases found with
    | none => exact .pure _
    | some r => exact (Keeps.send _).bind fun _ => .pure _
  · exact .pure _
  · exact (Keeps.liftM _).bind fun _ => (Keeps.emit _ _).bind fun _ => .pure _
  · exact (Keeps.emit _ _).bind fun _ => .pure _
  · exact (Keeps.emit _ _).bind fun _ => .pure _
  · exact .pure _

theorem handle (k : Nat) (message : Value) :
    Keeps k (handle k message : Action (World τ) (Option Task)) :=
  (Keeps.liftM _).bind fun data => .handleFields data

theorem attend (message : Value) : Keeps k (attend k message : Action (World τ) Unit) := by
  refine of_upkeep fun a howned => ?_
  have hhandled := (Keeps.handle k message).upkeep howned
  rw [exec_attend]
  generalize (Supervisor.handle k message).exec a = result at hhandled ⊢
  obtain ⟨e | task, b⟩ := result
  · exact hhandled.trans ((Keeps.emit _ _).upkeep (hhandled.owned howned))
  · exact hhandled

theorem emitAll (entries : List Order.Entry) :
    Keeps k (emitAll k entries : Action (World τ) Unit) := by
  induction entries with
  | nil => exact .pure _
  | cons e rest ih => exact (Keeps.emit _ _).bind fun _ => ih

end Keeps

section

variable (res : Resources τ)

theorem serve_journal (k : Nat) (data : Fields) (w : World τ) :
    (serve (res.journaled k) data w).2.1 = w.1 := by
  cases hsource : res.source with
  | none => simp [serve, Resources.journaled, hsource]
  | some source =>
    simp only [serve, Resources.journaled, hsource, Option.map_some]
    split
    · split
      · split
        · rfl
        · rfl
      · rfl
    · rfl

/-- Executing an order leaves at most the mark of its placement. -/
theorem execute_journal (k : Nat) (action : Value) (order : OrderData) (stock : Value)
    (w : World τ) : ∃ marks, (∀ mark ∈ marks, mark.run = k) ∧
      (Order.execute (res.journaled k).broker action order stock w).2.1 = w.1 ++ marks := by
  have hnone : w.1 = w.1 ++ ([] : List Mark) := (List.append_nil _).symm
  unfold Order.execute
  split
  · exact ⟨[], by simp, hnone⟩
  · cases hbroker : res.broker with
    | none => exact ⟨[], by simp, by simp [Resources.journaled, hbroker]⟩
    | some broker =>
      simp only [Resources.journaled, hbroker, Option.map_some]
      split
      · exact ⟨[], by simp, hnone⟩
      · rename_i side hside
        exact ⟨[.placement k (.ofOrder side order stock)], by simp [Mark.run], rfl⟩

namespace Keeps

variable {k : Nat}

theorem handleRequest (data : Fields) : Keeps k (handleRequest (res.journaled k) k data) := by
  refine of_upkeep fun a howned => ?_
  have hjournal := serve_journal res k data a.2
  have hserved : Upkeep k a (a.1, (serve (res.journaled k) data a.2).2) := by
    have hunmarked := @Upkeep.of_unmarked _ k a (serve (res.journaled k) data a.2).2.2
    rwa [← hjournal] at hunmarked
  refine hserved.trans ?_
  simp only [Supervisor.handleRequest, ExceptT.exec_bind, ExceptT.exec_get, ExceptT.exec_set,
    exec_run?]
  cases a.1.runs[k]? with
  | none => exact .refl k _
  | some r =>
    cases hstopping : r.stopping with
    | true => simpa [hstopping] using Upkeep.refl k _
    | false =>
      simp only [hstopping, Bool.not_false, if_true]
      exact .of_change fun _ => rfl

theorem handleOrder (data : Fields) : Keeps k (handleOrder (res.journaled k) k data) := by
  refine (Keeps.liftM _).bind fun order => of_upkeep fun a howned => ?_
  rw [ExceptT.exec_bind_ok (exec_run? k a)]
  cases hr : a.1.runs[k]? with
  | none => exact .refl k a
  | some r =>
    cases hstopping : r.stopping with
    | true => simpa [hstopping] using Upkeep.refl k a
    | false =>
      -- The order is placed while the run is not stopping, and its entries are emitted then.
      let executed := Order.execute (res.journaled k).broker (data.get "action") order
        ((data.get "stock").orElse r.stock) a.2
      obtain ⟨marks, hmarks, hjournal⟩ := execute_journal res k (data.get "action") order
        ((data.get "stock").orElse r.stock) a.2
      have hplaced : Upkeep k a (a.1, executed.2) := by
        have hmarked := Upkeep.of_marks hmarks executed.2.2 hr hstopping
        rwa [← hjournal] at hmarked
      have hentries : Keeps k (do
          Supervisor.emitAll k executed.1.entries
          let _ ← (executed.1.result : Outcome Value) : Action (World τ) Unit) :=
        (Keeps.emitAll _).bind fun _ => (Keeps.liftM _).bind fun _ => .pure _
      have hemitted := hentries.upkeep (show State.Owned (a.1, executed.2).1 from howned)
      simp only [hstopping, Bool.not_false, if_true]
      exact hplaced.trans hemitted

end Keeps

end

end TradingRules.Supervisor
