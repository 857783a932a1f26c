import TradingRules.Proofs.Supervisor.Moments
import TradingRules.Proofs.Value.Names

/-!
# Runs only go down by themselves

Nothing but a start brings a run up. Whatever else a supervisor does, when it stops logics, delivers
messages, ticks or reports a death, the runs that are up afterwards were up before under the same
ids.
-/

namespace TradingRules.Supervisor

open ExceptT (Within Steady)
open Worker (Desk Notice Peer)

variable {σ α β : Type}

/-- The runs that are up in one state were up in the other. -/
def State.Below (st' st : State σ) : Prop :=
  ∀ (k : Nat) (r' : Run σ), st'.runs[k]? = some r' → r'.registered = true →
    ∃ r, st.runs[k]? = some r ∧ r.registered = true ∧ r.id = r'.id

namespace State.Below

variable {st st' st'' : State σ}

theorem refl (st : State σ) : st.Below st :=
  fun _ r hr hup => ⟨r, hr, hup, rfl⟩

theorem trans (h : st''.Below st') (h' : st'.Below st) : st''.Below st := by
  intro k r'' hr'' hup''
  obtain ⟨r', hr', hup', hid'⟩ := h k r'' hr'' hup''
  obtain ⟨r, hr, hup, hid⟩ := h' k r' hr' hup'
  exact ⟨r, hr, hup, hid.trans hid'⟩

theorem change (st : State σ) (k : Nat) {f : Run σ → Run σ}
    (hf : ∀ r, (f r).registered = true → r.registered = true ∧ r.id = (f r).id) :
    (st.change k f).Below st := by
  intro j r' hr' hup'
  rw [State.change, List.getElem?_modify] at hr'
  obtain ⟨r, hr, rfl⟩ := Option.map_eq_some_iff.mp hr'
  by_cases hj : k = j
  · rw [if_pos hj] at hup' ⊢
    obtain ⟨hup, hid⟩ := hf r hup'
    exact ⟨r, hr, hup, hid⟩
  · rw [if_neg hj] at hup' ⊢
    exact ⟨r, hr, hup', rfl⟩

end State.Below

/-- An action that brings no run up, whatever it comes to. -/
def Wanes (x : Action σ α) : Prop :=
  Within (fun a b : State σ × σ => b.1.Below a.1) (fun _ => True) x

theorem below_steady : Steady fun a b : State σ × σ => b.1.Below a.1 where
  refl a := .refl a.1
  trans hab hbc := hbc.trans hab

namespace Wanes

theorem below {x : Action σ α} (h : Wanes x) (a : State σ × σ) : (x.exec a).2.1.Below a.1 :=
  (h a).1

theorem of_below {x : Action σ α} (h : ∀ a, (x.exec a).2.1.Below a.1) : Wanes x :=
  fun a => ⟨h a, fun _ _ => trivial⟩

theorem pure (a : α) : Wanes (pure a : Action σ α) :=
  below_steady.within_pure a

theorem throw (e : Fault) : Wanes (throw e : Action σ α) :=
  of_below fun a => .refl a.1

theorem liftM (result : Outcome α) : Wanes (liftM result : Action σ α) :=
  below_steady.within_liftM fun _ _ => trivial

theorem bind {x : Action σ α} {f : α → Action σ β} (hx : Wanes x) (hf : ∀ a, Wanes (f a)) :
    Wanes (x >>= f) :=
  below_steady.within_bind hx hf

theorem get : Wanes (get : Action σ (State σ × σ)) :=
  of_below fun a => .refl a.1

theorem run? (k : Nat) : Wanes (run? k : Action σ (Option (Run σ))) :=
  of_below fun a => .refl a.1

theorem changeRun (k : Nat) {f : Run σ → Run σ}
    (hf : ∀ r, (f r).registered = true → r.registered = true ∧ r.id = (f r).id) :
    Wanes (changeRun k f : Action σ Unit) :=
  of_below fun a => .change a.1 k hf

theorem write (log : LogSink σ) (title message : Value) : Wanes (write log title message) :=
  of_below fun a => by
    rw [exec_write]
    exact .refl a.1

theorem quietly {step : Action σ Unit} (h : Wanes step) : Wanes (quietly step) :=
  of_below h.below

theorem send (k : Nat) (message : Value) : Wanes (send k message : Action σ Unit) :=
  .changeRun k fun _ hup => ⟨hup, rfl⟩

theorem teardown (k : Nat) : Wanes (teardown k : Action σ Unit) :=
  .changeRun k fun _ hup => ⟨hup, rfl⟩

theorem unregister (k : Nat) : Wanes (unregister k : Action σ Unit) :=
  .changeRun k fun _ hup => nomatch hup

theorem emit (k : Nat) (title message : Value) : Wanes (emit k title message : Action σ Unit) := by
  refine (run? k).bind fun found => ?_
  split
  · split
    · exact (write _ _ _).quietly
    · exact pure _
  · exact pure _

theorem fail (k : Nat) (reason : String) : Wanes (fail k reason : Action σ Unit) := by
  refine (run? k).bind fun found => ?_
  split
  · exact pure _
  · split
    · exact (unregister k).bind fun _ => (emit k _ _).bind fun _ => (teardown k).bind fun _ =>
        write _ _ _
    · exact pure _

theorem emitAll (k : Nat) (entries : List Order.Entry) :
    Wanes (emitAll k entries : Action σ Unit) := by
  induction entries with
  | nil => exact pure _
  | cons e rest ih => exact (emit k _ _).bind fun _ => ih

theorem handle (k : Nat) (message : Value) : Wanes (handle k message : Action σ (Option Task)) := by
  refine (liftM _).bind fun data => ?_
  unfold handleFields
  split
  · exact (emit k _ _).bind fun _ => pure _
  · exact pure _
  · exact pure _
  · refine (run? k).bind fun found => ?_
    cases found with
    | none => exact pure _
    | some r => exact (send k _).bind fun _ => pure _
  · exact pure _
  · exact (liftM _).bind fun _ => (emit k _ _).bind fun _ => pure _
  · exact (emit k _ _).bind fun _ => pure _
  · exact (emit k _ _).bind fun _ => pure _
  · exact pure _

/-! ### Stops -/

theorem stop (id : Value) : Wanes (stop id : Action σ Bool) := by
  refine of_below fun a => ?_
  by_cases hfree : id.isKey = false ∨ a.1.find? id = none
  · rw [(exec_stop_of_not_found hfree).1]
    exact .refl a.1
  · simp only [not_or, Bool.not_eq_false] at hfree
    obtain ⟨k, hk⟩ := Option.ne_none_iff_exists'.mp hfree.2
    obtain ⟨r, hr, -, -⟩ := State.exists_of_find? hk
    rw [exec_stop_of_found hfree.1 hk hr]
    -- The log may refuse the last entry, but the run is taken out of the table before.
    exact .change a.1 k fun _ hup => nomatch hup

theorem stopEach (ids : List Value) : Wanes (stopEach ids : Action σ Unit) := by
  induction ids with
  | nil => exact pure _
  | cons id rest ih => exact (stop id).bind fun _ => ih

theorem stopAll : Wanes (stopAll : Action σ Unit) :=
  get.bind fun _ => stopEach _

/-! ### What workers send -/

section

variable (res : Resources σ)

theorem handleRequest (k : Nat) (data : Fields) : Wanes (handleRequest res k data) := by
  refine of_below fun a => ?_
  let served := serve res data a.2
  simp only [Supervisor.handleRequest, ExceptT.exec_bind, ExceptT.exec_get, ExceptT.exec_set,
    exec_run?]
  cases a.1.runs[k]? with
  | none => exact .refl a.1
  | some r =>
    dsimp only
    split
    · exact (send k _).below (a.1, served.2)
    · exact .refl a.1

theorem handleOrder (k : Nat) (data : Fields) : Wanes (handleOrder res k data) := by
  refine (liftM _).bind fun order => (run? k).bind fun found => ?_
  split
  · exact pure _
  · rename_i r
    split
    · refine of_below fun a => ?_
      let executed := Order.execute res.broker (data.get "action") order
        ((data.get "stock").orElse r.stock) a.2
      have hrest : Wanes (do
          Supervisor.emitAll k executed.1.entries
          let _ ← (executed.1.result : Outcome Value) : Action σ Unit) :=
        (emitAll k _).bind fun _ => (liftM _).bind fun _ => pure _
      exact hrest.below (a.1, executed.2)
    · exact pure _

theorem perform (k : Nat) (task : Task) : Wanes (perform res k task) := by
  cases task with
  | order data => exact handleOrder res k data
  | request data => exact handleRequest res k data
  | failure reason => exact fail k reason

theorem receive (k : Nat) (message : Value) : Wanes (receive res k message) := by
  refine (handle k message).bind fun found => ?_
  split
  · exact (perform res k _).quietly
  · exact pure _

/-- What a worker sends brings no run up, whatever it is. -/
theorem listen (k : Nat) (message : Value) : Wanes (listen res k message) := by
  refine of_below fun a => ?_
  have hreceive := (receive res k message).below a
  rw [exec_listen]
  generalize (Supervisor.receive res k message).exec a = result at hreceive ⊢
  obtain ⟨e | done, b⟩ := result
  · exact ((emit k _ _).below b).trans hreceive
  · exact hreceive

end

end Wanes

/-! ### Runs under an id -/

section

variable {st st' : State σ} {id : Value}

/-- A run of this id is up. -/
def State.Runs (st : State σ) (id : Value) : Prop :=
  ∃ (k : Nat) (r : Run σ), st.runs[k]? = some r ∧ r.registered = true ∧ r.id = id

/-- The runs that are up have texts as ids, and there is only one of an id. -/
structure State.Keyed (st : State σ) : Prop where
  named : ∀ (k : Nat) (r : Run σ), st.runs[k]? = some r → r.registered = true →
    ∃ id, r.id = .text id
  distinct : ∀ (j k : Nat) (r s : Run σ), st.runs[j]? = some r → st.runs[k]? = some s →
    r.registered = true → s.registered = true → r.id = s.id → j = k

theorem State.keyed_nil : State.Keyed ({} : State σ) where
  named _ _ hr := by simp at hr
  distinct _ _ _ _ hr := by simp at hr

theorem State.Below.runs (h : st'.Below st) (hruns : st'.Runs id) : st.Runs id := by
  obtain ⟨k, r', hr', hup', hid'⟩ := hruns
  obtain ⟨r, hr, hup, hid⟩ := h k r' hr' hup'
  exact ⟨k, r, hr, hup, hid.trans hid'⟩

theorem State.Below.keyed (h : st'.Below st) (hst : st.Keyed) : st'.Keyed where
  named k r' hr' hup' := by
    obtain ⟨r, hr, hup, hid⟩ := h k r' hr' hup'
    exact hid ▸ hst.named k r hr hup
  distinct j k r' s' hr' hs' hrup' hsup' hsame := by
    obtain ⟨r, hr, hrup, hrid⟩ := h j r' hr' hrup'
    obtain ⟨s, hs, hsup, hsid⟩ := h k s' hs' hsup'
    exact hst.distinct j k r s hr hs hrup hsup (hrid.trans (hsame.trans hsid.symm))

theorem State.not_runs_of_find? {t : String} (h : st.find? (.text t) = none) :
    ¬ st.Runs (.text t) := by
  rintro ⟨k, r, hr, hup, hid⟩
  have hother := State.not_isSame_of_find? h hr hup
  rw [hid, Value.isSame_text_iff.mpr rfl] at hother
  cases hother

namespace Launch.Starts

variable {l : Launch σ} {answer : Outcome Bool} (h : l.Starts st answer st')
include h

theorem getElem?_cases {k : Nat} {r : Run σ} (hr : st'.runs[k]? = some r) :
    st.runs[k]? = some r ∨ (k = st.runs.length ∧ r.id = l.id ∧ st.find? l.id = none) := by
  rcases h.runs_cases with rfl | ⟨interval, hfree, rfl⟩
  · exact .inl hr
  · rw [List.getElem?_append] at hr
    split at hr
    · exact .inl hr
    · obtain ⟨hk, rfl⟩ := List.getElem?_eq_some_iff.mp hr
      rw [List.length_singleton] at hk
      exact .inr ⟨by omega, by simp [Launch.newRun], hfree⟩

theorem runs_or (hruns : st'.Runs id) : st.Runs id ∨ id = l.id := by
  obtain ⟨k, r, hr, hup, hid⟩ := hruns
  rcases h.getElem?_cases hr with hr | ⟨-, hr, -⟩
  · exact .inl ⟨k, r, hr, hup, hid⟩
  · exact .inr (hid.symm.trans hr)

theorem keyed {t : String} (hid : l.id = .text t) (hst : st.Keyed) : st'.Keyed := by
  have hnew : st.find? l.id = none → ∀ (k : Nat) (r : Run σ), st.runs[k]? = some r →
      r.registered = true → r.id ≠ l.id := fun hfree k r hr hup hsame =>
    State.not_runs_of_find? (hid ▸ hfree) ⟨k, r, hr, hup, hsame.trans hid⟩
  constructor
  · intro k r hr hup
    rcases h.getElem?_cases hr with hr | ⟨-, hr, -⟩
    · exact hst.named k r hr hup
    · exact ⟨t, hr.trans hid⟩
  · intro j k r s hr hs hrup hsup hsame
    rcases h.getElem?_cases hr with hr | ⟨hj, hrid, hfree⟩ <;>
      rcases h.getElem?_cases hs with hs | ⟨hk, hsid, hfree'⟩
    · exact hst.distinct j k r s hr hs hrup hsup hsame
    · exact absurd (hsame.trans hsid) (hnew hfree' j r hr hrup)
    · exact absurd (hsame.symm.trans hrid) (hnew hfree k s hs hsup)
    · rw [hj, hk]

end Launch.Starts

/-- A stop leaves no run of its id up, also when its log refuses the entry about it. -/
theorem not_runs_after_stop {t : String} {a : State σ × σ} (hst : a.1.Keyed) :
    ¬ ((stop (.text t)).exec a).2.1.Runs (.text t) := by
  cases hfind : a.1.find? (.text t) with
  | none =>
    rw [(exec_stop_of_not_found (.inr hfind)).1]
    exact State.not_runs_of_find? hfind
  | some k =>
    obtain ⟨r, hr, hup, hsame⟩ := State.exists_of_find? hfind
    rw [exec_stop_of_found rfl hfind hr]
    rintro ⟨j, s, hs, hsup, hsid⟩
    obtain ⟨old, hold, holdup, hid⟩ :=
      State.Below.change a.1 k (f := Run.stopped) (fun _ hup => nomatch hup) j s hs hsup
    have hj : j = k := hst.distinct j k old r hold hr holdup hup
      (hid.trans (hsid.trans (Value.isSame_text_iff.mp hsame).symm))
    subst hj
    -- The run that is up under the id would be the one that was just stopped.
    simp only [State.change, List.getElem?_modify, hr, if_true] at hs
    cases hs
    cases hsup

end

end TradingRules.Supervisor
