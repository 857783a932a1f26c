import TradingRules.Proofs.Lists
import TradingRules.Proofs.Logic.Account
import TradingRules.Proofs.Supervisor.Moments

/-!
# Stops are final

A run is torn down at most once, by a stop of its logic or by a failure, and its log is closed with
one entry then. Whatever happens later, nothing more is logged or ordered for it, and what its
worker left behind does not touch a later run of the same logic.
-/

namespace TradingRules.Supervisor

variable {τ : Type}

section

variable {σ : Type} {st : State σ} {k : Nat}

def State.IsDown (st : State σ) (k : Nat) : Prop :=
  ∃ r, st.runs[k]? = some r ∧ r.registered = false

theorem State.isUp_eq_true_iff :
    st.isUp k = true ↔ ∃ r, st.runs[k]? = some r ∧ r.registered = true := by
  cases hr : st.runs[k]? <;> simp [isUp, hr]

theorem State.IsDown.isUp_eq_false (h : st.IsDown k) : st.isUp k = false := by
  obtain ⟨r, hr, hdown⟩ := h
  simp [isUp, hr, hdown]

theorem State.getElem?_change_stopped (j : Nat) :
    (st.change k Run.stopped).runs[j]? =
      if j = k then st.runs[j]?.map Run.stopped else st.runs[j]? := by
  by_cases hj : j = k
  · subst hj
    simp [change]
  · simp [change, hj, Ne.symm hj]

end

/-! ### What every event preserves -/

/-- A run as an event may leave it: the same, or torn down. -/
structure Run.Follows (r r' : Run (World τ)) : Prop where
  id : r'.id = r.id
  log : r'.log = r.log
  registered : r'.registered = true → r.registered = true
  flags : r.stopping = !r.registered → r'.stopping = !r'.registered

theorem State.Sound.of_follows {st st' : State (World τ)} (hsound : st.Sound)
    (h : ∀ (j : Nat) (r' : Run (World τ)), st'.runs[j]? = some r' →
      ∃ r, st.runs[j]? = some r ∧ r.Follows r') : st'.Sound where
  owned j r' hr' := by
    obtain ⟨r, hr, hfollows⟩ := h j r' hr'
    obtain ⟨log, hlog⟩ := hsound.owned j r hr
    exact ⟨log, hfollows.log.trans hlog⟩
  flags j r' hr' := by
    obtain ⟨r, hr, hfollows⟩ := h j r' hr'
    exact hfollows.flags (hsound.flags j r hr)
  distinct j k r' s' hjk hr' hs' hupR hupS := by
    obtain ⟨r, hr, hfollowsR⟩ := h j r' hr'
    obtain ⟨s, hs, hfollowsS⟩ := h k s' hs'
    rw [hfollowsR.id, hfollowsS.id]
    exact hsound.distinct j k r s hjk hr hs (hfollowsR.registered hupR)
      (hfollowsS.registered hupS)

theorem Upkeep.follows {k : Nat} {a b : System τ} (h : Upkeep k a b) {j : Nat}
    {r' : Run (World τ)} (hr' : b.1.runs[j]? = some r') :
    ∃ r, a.1.runs[j]? = some r ∧ r.Follows r' := by
  by_cases hj : j = k
  · subst hj
    obtain ⟨r, hr, hcore⟩ := h.exists_run hr'
    simp only [Run.core, Prod.mk.injEq] at hcore
    obtain ⟨hid, hlog, hregistered, hstopping⟩ := hcore
    exact ⟨r, hr, hid.symm, hlog.symm, by rw [hregistered]; exact fun h => h,
      by rw [hregistered, hstopping]; exact fun h => h⟩
  · exact ⟨r', h.others j hj ▸ hr', rfl, rfl, fun h => h, fun h => h⟩

theorem Teardown.follows {k : Nat} {r₀ : Run (World τ)} {closing : List Mark} {a b : System τ}
    (h : Teardown k r₀ closing a b) {j : Nat} {r' : Run (World τ)}
    (hr' : b.1.runs[j]? = some r') : ∃ r, a.1.runs[j]? = some r ∧ r.Follows r' := by
  rw [h.runs, State.getElem?_change_stopped] at hr'
  split at hr'
  · obtain ⟨r, hr, rfl⟩ := Option.map_eq_some_iff.mp hr'
    exact ⟨r, hr, rfl, rfl, fun h => by simp [Run.stopped] at h, fun _ => rfl⟩
  · exact ⟨r', hr', rfl, rfl, fun h => h, fun h => h⟩

/-- A run that is added logs under its number, and its id was free. -/
theorem State.Sound.append {st : State (World τ)} (hsound : st.Sound) (l : Launch τ)
    (interval : Float) (hfree : st.find? l.id = none) :
    State.Sound { runs := st.runs ++ [(l.journaled st.runs.length).newRun interval] } where
  owned j r hr := by
    rcases List.exists_of_getElem?_concat hr with ⟨-, hr⟩ | ⟨rfl, rfl⟩
    · exact hsound.owned j r hr
    · exact ⟨l.log, rfl⟩
  flags j r hr := by
    rcases List.exists_of_getElem?_concat hr with ⟨-, hr⟩ | ⟨rfl, rfl⟩
    · exact hsound.flags j r hr
    · rfl
  distinct j k r s hjk hr hs hupR hupS := by
    rcases List.exists_of_getElem?_concat hs with ⟨hk, hs⟩ | ⟨rfl, rfl⟩
    · rcases List.exists_of_getElem?_concat hr with ⟨-, hr⟩ | ⟨rfl, rfl⟩
      · exact hsound.distinct j k r s hjk hr hs hupR hupS
      · exact absurd hk (Nat.lt_asymm hjk)
    · rcases List.exists_of_getElem?_concat hr with ⟨-, hr⟩ | ⟨rfl, rfl⟩
      · exact State.not_isSame_of_find? hfree hr hupR
      · exact absurd hjk (Nat.lt_irrefl _)

theorem Launch.Starts.getElem?_eq {σ : Type} {l : Launch σ} {st st' : State σ}
    {answer : Outcome Bool} (h : l.Starts st answer st') {k : Nat} (hk : k < st.runs.length) :
    st'.runs[k]? = st.runs[k]? := by
  rcases h.runs_cases with rfl | ⟨interval, -, rfl⟩
  · rfl
  · exact List.getElem?_append_left hk

namespace Moment.Effect

variable {m : Moment τ} {k : Nat}

theorem sound (h : m.Effect) (hsound : m.before.1.Sound) : m.after.1.Sound := by
  cases h with
  | upkeep j hevent h => exact hsound.of_follows fun _ _ => h.follows
  | idle id hevent hafter hanswer => exact hafter ▸ hsound
  | stopped j r id hevent hsame h hanswer => exact hsound.of_follows fun _ _ => h.follows
  | failed j r reason hrun hevent h => exact hsound.of_follows fun _ _ => h.follows
  | start l hevent hstarts hmarks =>
    rcases hstarts.runs_cases with hafter | ⟨interval, hfree, hafter⟩
    · exact hafter ▸ hsound
    · exact hafter ▸ hsound.append l interval hfree

end Moment.Effect

/-! ### What is done for a run that is down -/

section

variable {m : Moment τ} {k : Nat}

theorem Moment.marks_eq {marks : List Mark} (h : m.after.2.1 = m.before.2.1 ++ marks) :
    m.marks = marks := by
  simp [Moment.marks, h]

theorem Moment.marksOf_eq_nil {j : Nat} (h : ∀ mark ∈ m.marks, mark.run = j) (hj : j ≠ k) :
    m.marksOf k = [] := by
  simp only [marksOf, List.filter_eq_nil_iff, beq_iff_eq]
  intro mark hmark hrun
  exact hj ((h mark hmark).symm.trans hrun)

theorem Moment.Effect.journal_eq (h : m.Effect) : m.after.2.1 = m.before.2.1 ++ m.marks := by
  have hgrows : ∃ marks, m.after.2.1 = m.before.2.1 ++ marks := by
    cases h with
    | upkeep j hevent h =>
      obtain ⟨marks, hmarks, -⟩ := h.marks
      exact ⟨marks, hmarks⟩
    | idle id hevent hafter hanswer => exact ⟨[], by simp [hafter]⟩
    | stopped j r id hevent hsame h hanswer => exact ⟨_, h.marks⟩
    | failed j r reason hrun hevent h => exact ⟨_, h.marks⟩
    | start l hevent hstarts hmarks =>
      obtain ⟨marks, hmarks, -⟩ := hmarks
      exact ⟨marks, hmarks⟩
  obtain ⟨marks, hmarks⟩ := hgrows
  rwa [m.marks_eq hmarks]

theorem Upkeep.moment_marks {j : Nat} (h : Upkeep j m.before m.after) :
    ∀ mark ∈ m.marks, mark.run = j := by
  obtain ⟨marks, hmarks, hrun, -⟩ := h.marks
  rwa [m.marks_eq hmarks]

theorem Upkeep.moment_marks_of_down {j : Nat} (h : Upkeep j m.before m.after)
    (hsound : m.before.1.Sound) (hdown : m.before.1.IsDown j) : m.marks = [] := by
  obtain ⟨marks, hmarks, -, hquiet⟩ := h.marks
  obtain ⟨r, hr, hunregistered⟩ := hdown
  rw [m.marks_eq hmarks]
  refine hquiet fun r' hr' => ?_
  obtain rfl : r' = r := Option.some.inj (hr' ▸ hr)
  simp [hsound.flags j r' hr', hunregistered]

theorem Upkeep.isUp_eq {j : Nat} {a b : System τ} (h : Upkeep j a b) (k : Nat) :
    b.1.isUp k = a.1.isUp k := by
  by_cases hk : k = j
  · subst hk
    have hcore := congrArg (Option.any fun core => core.2.2.1) h.core
    simpa [State.isUp, Option.any_map, Function.comp_def, Run.core] using hcore
  · simp [State.isUp, h.others k hk]

theorem Teardown.isUp_eq {j : Nat} {r : Run (World τ)} {closing : List Mark} {a b : System τ}
    (h : Teardown j r closing a b) (hk : k ≠ j) : b.1.isUp k = a.1.isUp k := by
  simp [State.isUp, h.runs, State.getElem?_change_stopped, hk]

theorem Upkeep.isDown {j : Nat} {a b : System τ} (h : Upkeep j a b) (hdown : a.1.IsDown k) :
    b.1.IsDown k := by
  obtain ⟨r, hr, hunregistered⟩ := hdown
  by_cases hk : k = j
  · subst hk
    have hcore := h.core
    rw [hr] at hcore
    obtain ⟨r', hr', hcore⟩ := Option.map_eq_some_iff.mp hcore
    simp only [Run.core, Prod.mk.injEq] at hcore
    exact ⟨r', hr', hcore.2.2.1.trans hunregistered⟩
  · exact ⟨r, (h.others k hk).trans hr, hunregistered⟩

theorem Teardown.isDown {r : Run (World τ)} {closing : List Mark} {a b : System τ}
    (h : Teardown k r closing a b) : b.1.IsDown k :=
  ⟨r.stopped, by simp [h.runs, State.getElem?_change_stopped, h.run], rfl⟩

theorem Teardown.ne_of_isDown {j : Nat} {r : Run (World τ)} {closing : List Mark}
    {a b : System τ} (h : Teardown j r closing a b) (hdown : a.1.IsDown k) : j ≠ k := by
  rintro rfl
  obtain ⟨r', hr', hunregistered⟩ := hdown
  obtain rfl : r' = r := Option.some.inj (hr' ▸ h.run)
  simp [h.registered] at hunregistered

theorem Teardown.of_isDown {j : Nat} {r : Run (World τ)} {closing : List Mark}
    (h : Teardown j r closing m.before m.after) (hrun : ∀ mark ∈ closing, mark.run = j)
    (hdown : m.before.1.IsDown k) : m.marksOf k = [] ∧ m.after.1.IsDown k := by
  have hj := h.ne_of_isDown hdown
  refine ⟨Moment.marksOf_eq_nil (by rwa [m.marks_eq h.marks]) hj, ?_⟩
  obtain ⟨r', hr', hunregistered⟩ := hdown
  exact ⟨r', by simp [h.runs, State.getElem?_change_stopped, Ne.symm hj, hr'], hunregistered⟩

/-- Nothing is done for a run that is down, and it stays down. -/
theorem Moment.Effect.of_isDown (h : m.Effect) (hsound : m.before.1.Sound)
    (hdown : m.before.1.IsDown k) : m.marksOf k = [] ∧ m.after.1.IsDown k := by
  cases h with
  | upkeep j hevent h =>
    refine ⟨?_, h.isDown hdown⟩
    by_cases hj : j = k
    · subst hj
      simp [marksOf, h.moment_marks_of_down hsound hdown]
    · exact marksOf_eq_nil h.moment_marks hj
  | idle id hevent hafter hanswer =>
    exact ⟨by simp [marksOf, marks, hafter], hafter ▸ hdown⟩
  | stopped j r id hevent hsame h hanswer => exact h.of_isDown (by simp [Mark.run]) hdown
  | failed j r reason hrun hevent h => exact h.of_isDown (by simp [Mark.run]) hdown
  | start l hevent hstarts hmarks =>
    obtain ⟨marks, hmarks, hrun⟩ := hmarks
    obtain ⟨r, hr, hunregistered⟩ := hdown
    have hk : k < m.before.1.runs.length := (List.getElem?_eq_some_iff.mp hr).1
    exact ⟨marksOf_eq_nil (by rwa [m.marks_eq hmarks]) (Nat.ne_of_gt hk), r,
      (hstarts.getElem?_eq hk).trans hr, hunregistered⟩

/-- The teardown of a run is a stop of its logic, which answers that it was running unless the log
refuses the entry, or a failure of the run. The log is closed with one entry. -/
def Moment.Closes (m : Moment τ) (k : Nat) : Prop :=
  ∃ r, m.before.1.runs[k]? = some r ∧
    ((∃ id, m.event = .stop id ∧ r.id.isSame id = true ∧
      m.marks = [.entry k (.text "System") (stopMessage id)] ∧
      m.answer = (r.log (.text "System") (stopMessage id) m.before.2).1.map fun _ => true) ∨
    (m.event.Fails k ∧ ∃ reason, m.marks =
      [.entry k (.text "Error") (.text reason), .entry k (.text "System") (failureMessage r.id)]))

theorem Teardown.eq_of_tearsDown {j : Nat} {r : Run (World τ)} {closing : List Mark}
    (h : Teardown j r closing m.before m.after) (hdown : m.tearsDown k = true) : j = k := by
  refine Decidable.byContradiction fun hj => ?_
  simp [Moment.tearsDown, h.isUp_eq (Ne.symm hj)] at hdown

theorem Moment.Effect.closes (h : m.Effect) (hdown : m.tearsDown k = true) :
    m.Closes k ∧ m.after.1.IsDown k := by
  cases h with
  | upkeep j hevent h => simp [tearsDown, h.isUp_eq] at hdown
  | idle id hevent hafter hanswer => simp [tearsDown, hafter] at hdown
  | stopped j r id hevent hsame h hanswer =>
    obtain rfl := h.eq_of_tearsDown hdown
    exact ⟨⟨r, h.run, .inl ⟨id, hevent, hsame, m.marks_eq h.marks, hanswer⟩⟩, h.isDown⟩
  | failed j r reason hrun hevent h =>
    obtain rfl := h.eq_of_tearsDown hdown
    exact ⟨⟨r, h.run, .inr ⟨hevent, reason, m.marks_eq h.marks⟩⟩, h.isDown⟩
  | start l hevent hstarts hmarks =>
    simp only [tearsDown, Bool.and_eq_true, Bool.not_eq_true'] at hdown
    obtain ⟨hup, hdown⟩ := hdown
    obtain ⟨r, hr, hregistered⟩ := State.isUp_eq_true_iff.mp hup
    have hk : k < m.before.1.runs.length := (List.getElem?_eq_some_iff.mp hr).1
    simp [State.isUp, hstarts.getElem?_eq hk, hr, hregistered] at hdown

end

/-! ### Histories -/

section

variable {res : Resources τ} {a : System τ} {events : List (Event τ)} {k : Nat}

/-- In a history that starts soundly every moment is sound and has one of the effects. -/
theorem sound_of_mem_trail (hsound : a.1.Sound) {m : Moment τ} (hm : m ∈ trail res a events) :
    m.before.1.Sound ∧ m.Effect := by
  induction events generalizing a with
  | nil => simp [trail] at hm
  | cons event rest ih =>
    have heffect := Moment.effect res hsound event
    rcases List.mem_cons.mp hm with rfl | hm
    · exact ⟨hsound, heffect⟩
    · exact ih (heffect.sound hsound) hm

theorem exists_trail_of_append {early late : List (Moment τ)} {m : Moment τ}
    (h : trail res a events = early ++ m :: late) : ∃ rest, late = trail res m.after rest := by
  induction events generalizing a early with
  | nil => simp [trail] at h
  | cons event rest ih =>
    cases early with
    | nil =>
      obtain ⟨rfl, rfl⟩ := List.cons.inj h
      exact ⟨rest, rfl⟩
    | cons first early => exact ih (List.cons.inj h).2

/-- Once a run is down, nothing more is ever done for it. -/
theorem silent_of_isDown (hsound : a.1.Sound) (hdown : a.1.IsDown k) {n : Moment τ}
    (hn : n ∈ trail res a events) :
    n.marksOf k = [] ∧ n.before.1.IsDown k ∧ n.after.1.IsDown k := by
  induction events generalizing a with
  | nil => simp [trail] at hn
  | cons event rest ih =>
    have heffect := Moment.effect res hsound event
    obtain ⟨hmarks, hstays⟩ := heffect.of_isDown hsound hdown
    rcases List.mem_cons.mp hn with rfl | hn
    · exact ⟨hmarks, hdown, hstays⟩
    · exact ih (heffect.sound hsound) hstays hn

theorem countP_tearsDown_le_one (hsound : a.1.Sound) (k : Nat) :
    (trail res a events).countP (·.tearsDown k) ≤ 1 := by
  induction events generalizing a with
  | nil => simp [trail]
  | cons event rest ih =>
    have heffect := Moment.effect res hsound event
    have hrest := heffect.sound hsound
    rw [trail, List.countP_cons]
    split
    · rename_i hdown
      -- The run stays down, and a run that is down is not torn down.
      have hnever : (trail res (Moment.of res a event).after rest).countP (·.tearsDown k) = 0 := by
        rw [List.countP_eq_zero]
        intro n hn
        have hstays := (silent_of_isDown hrest (heffect.closes hdown).2 hn).2.1
        simp [Moment.tearsDown, hstays.isUp_eq_false]
      omega
    · exact ih hrest

end

theorem State.sound_empty : State.Sound ({} : State (World τ)) where
  owned _ _ h := by simp at h
  flags _ _ h := by simp at h
  distinct _ _ _ _ _ h := by simp at h

/-- An event that concerns a run does nothing for any other run, and nothing at all if the run is
down, except that the run may be sent what it will not read and market data may be asked for. -/
theorem Moment.Effect.of_run? {m : Moment τ} {k : Nat} (h : m.Effect)
    (hsound : m.before.1.Sound) (hevent : m.event.run? = some k) :
    (∀ mark ∈ m.marks, mark.run = k) ∧
      (∀ j, j ≠ k → m.after.1.runs[j]? = m.before.1.runs[j]?) ∧
      (m.before.1.IsDown k → m.marks = []) := by
  cases h with
  | upkeep j hrun h =>
    obtain rfl : j = k := Option.some.inj (hrun.symm.trans hevent)
    exact ⟨h.moment_marks, h.others, h.moment_marks_of_down hsound⟩
  | idle id hstop hafter hanswer => simp [hstop, Event.run?] at hevent
  | stopped j r id hstop hsame h hanswer => simp [hstop, Event.run?] at hevent
  | failed j r reason hrun hfails h =>
    obtain rfl : j = k := Option.some.inj (hrun.symm.trans hevent)
    refine ⟨?_, fun i hi => ?_, fun hdown => absurd rfl (h.ne_of_isDown hdown)⟩
    · rw [m.marks_eq h.marks]
      simp [Mark.run]
    · simp [h.runs, State.getElem?_change_stopped, hi]
  | start l hstart hstarts hmarks => simp [hstart, Event.run?] at hevent

theorem Launch.Raises.of_journaled {l : Launch τ} {n : Nat} {e : Fault}
    (h : (l.journaled n).Raises e) : l.Raises e := by
  cases h with
  | log h => exact .log h
  | interval hgiven h => exact .interval hgiven h
  | logic h hcrash => exact .logic h hcrash
  | id h => exact .id h

/-- A start of a logic that is running leaves all runs and their logs as they are and is refused,
unless it fails because of what it is handed. -/
theorem Moment.Effect.of_start_of_running {m : Moment τ} (h : m.Effect) {l : Launch τ}
    (hevent : m.event = .start l) (hrunning : isRunning m.before.1 l.id = .ok true) :
    m.after.1 = m.before.1 ∧ (∀ mark ∈ m.marks, mark.run = m.before.1.runs.length) ∧
      (m.answer = .ok false ∨ ∃ e, m.answer = .error e ∧ l.Raises e) := by
  cases h with
  | upkeep j hrun h => simp [hevent, Event.run?] at hrun
  | idle id hstop hafter hanswer => simp [hevent] at hstop
  | stopped j r id hstop hsame h hanswer => simp [hevent] at hstop
  | failed j r reason hrun hfails h => simp [hevent, Event.run?] at hrun
  | start l' hstart hstarts hmarks =>
    obtain rfl : l = l' := by simpa [hevent] using hstart
    obtain ⟨marks, hmarks, hrun⟩ := hmarks
    have htaken : m.before.1.find? l.id ≠ none := by
      intro hfree
      simp only [isRunning, hfree] at hrunning
      split at hrunning <;> simp at hrunning
    obtain ⟨hruns, hanswer⟩ := hstarts.of_taken htaken
    refine ⟨hruns, by rwa [m.marks_eq hmarks], hanswer.imp id ?_⟩
    rintro ⟨e, he, hraises⟩
    exact ⟨e, he, hraises.of_journaled⟩

/-- Stops are final, along every history of a supervisor. A run is torn down at most once, by a stop
or a failure that closes its log with one entry; from then on nothing is logged or placed for it. At
most one run of an id is registered, and starting a logic that is running leaves it as it is. What
comes from a run concerns no other run, and when that run is down it leaves no mark at all. -/
theorem stop_is_final (res : Resources τ) (t : τ) (events : List (Event τ)) :
    let history := trail res ({}, ([], t)) events
    (∀ m ∈ history, m.after.2.1 = m.before.2.1 ++ m.marks) ∧
    (∀ k, history.countP (·.tearsDown k) ≤ 1) ∧
    (∀ m ∈ history, ∀ k, m.tearsDown k = true → m.Closes k) ∧
    (∀ early m late k, history = early ++ m :: late → m.tearsDown k = true →
      ∀ n ∈ late, n.marksOf k = [] ∧ n.after.1.isUp k = false) ∧
    (∀ m ∈ history, ∀ (j k : Nat) (r s : Run (World τ)), j < k →
      m.after.1.runs[j]? = some r → m.after.1.runs[k]? = some s →
      r.registered = true → s.registered = true → r.id.isSame s.id = false) ∧
    (∀ m ∈ history, ∀ l, m.event = .start l → isRunning m.before.1 l.id = .ok true →
      m.after.1 = m.before.1 ∧ (∀ mark ∈ m.marks, mark.run = m.before.1.runs.length) ∧
        (m.answer = .ok false ∨ ∃ e, m.answer = .error e ∧ l.Raises e)) ∧
    (∀ m ∈ history, ∀ k, m.event.run? = some k →
      (∀ mark ∈ m.marks, mark.run = k) ∧
        (∀ j, j ≠ k → m.after.1.runs[j]? = m.before.1.runs[j]?) ∧
        (m.before.1.IsDown k → m.marks = [])) := by
  intro history
  have hsound : ∀ m ∈ history, m.before.1.Sound ∧ m.Effect :=
    fun m hm => sound_of_mem_trail State.sound_empty hm
  refine ⟨fun m hm => (hsound m hm).2.journal_eq,
    fun k => countP_tearsDown_le_one State.sound_empty k, ?_, ?_, ?_, ?_, ?_⟩
  · intro m hm k hdown
    exact ((hsound m hm).2.closes hdown).1
  · intro early m late k hhistory hdown n hn
    obtain ⟨hbefore, heffect⟩ := hsound m (by simp [hhistory])
    obtain ⟨rest, rfl⟩ := exists_trail_of_append hhistory
    obtain ⟨hmarks, -, hstays⟩ :=
      silent_of_isDown (heffect.sound hbefore) (heffect.closes hdown).2 hn
    exact ⟨hmarks, hstays.isUp_eq_false⟩
  · intro m hm
    obtain ⟨hbefore, heffect⟩ := hsound m hm
    exact (heffect.sound hbefore).distinct
  · intro m hm l hevent hrunning
    exact (hsound m hm).2.of_start_of_running hevent hrunning
  · intro m hm k hevent
    obtain ⟨hbefore, heffect⟩ := hsound m hm
    exact heffect.of_run? hbefore hevent

def breakoutLaunch : Launch Unit where
  id := .text "breakout"
  stock := .text "ABC"
  logic := CompiledLogic.breakoutLogic
  log _ _ u := (.ok (), u)
  now := 0.0

/-- A logic is started twice, stopped and started anew, while a message and a failure of its first
run are on the way. -/
def restartEvents : List (Event Unit) :=
  [.start breakoutLaunch, .start breakoutLaunch, .stop (.text "breakout"), .start breakoutLaunch,
    .message 0 (.object [("type", .text "log"), ("msg", .text "late")]), .task 0 (.failure "late")]

/-- The first run is torn down by the stop and never again, and the second one stays up. -/
theorem restart_tears_down_once :
    let history := trail ⟨none, none⟩ ({}, ([], ())) restartEvents
    history.map (·.tearsDown 0) = [false, false, true, false, false, false] ∧
      history.countP (·.tearsDown 0) ≤ 1 ∧
      history.map (·.after.1.isUp 1) = [false, false, false, true, true, true] := by
  refine ⟨?_, (stop_is_final ⟨none, none⟩ () restartEvents).2.1 0, ?_⟩
  · with_unfolding_all rfl
  · with_unfolding_all rfl

end TradingRules.Supervisor
