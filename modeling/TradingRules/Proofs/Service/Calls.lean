import TradingRules.Proofs.Store.Refinement
import TradingRules.Proofs.Supervisor.Waning
import TradingRules.Service.Call

/-!
# What the calls of the service do

A call changes the store as some call of the store does, or leaves it as it is. A start is the only
call that brings a run up, and deleting is the only one that takes a record out of the book.
-/

namespace TradingRules

namespace Store

/-- A record stays in the book unless it is deleted. -/
theorem Call.mem_ids_after {book : Book} (hdistinct : (book.map (·.id)).Nodup) {c : Call}
    {id : String} (hc : c ≠ .delete (.text id)) (h : id ∈ book.map (·.id)) :
    id ∈ (c.after book).map (·.id) := by
  rw [after]
  cases hon : c.on book with
  | none => exact h
  | some result =>
    obtain ⟨answer, book'⟩ := result
    show id ∈ book'.map (·.id)
    cases c with
    | create unique name stock data =>
      simp only [on, Option.ite_none_right_eq_some, Option.some.injEq, Prod.mk.injEq] at hon
      obtain ⟨-, -, rfl⟩ := hon
      rw [List.map_append]
      exact List.mem_append_left _ h
    | save t name stock data =>
      simp only [on, Option.bind_eq_bind, Option.bind_eq_some_iff, Option.ite_none_right_eq_some,
        Option.some.injEq, Prod.mk.injEq] at hon
      obtain ⟨-, -, -, -, -, -, rfl⟩ := hon
      rwa [Book.map_id_replace]
    | delete t =>
      simp only [on, Option.bind_eq_bind, Option.bind_eq_some_iff, Option.ite_none_right_eq_some,
        Option.some.injEq, Prod.mk.injEq] at hon
      obtain ⟨other, hother, -, -, rfl⟩ := hon
      obtain rfl := eq_text_of_text?_eq_some hother
      obtain ⟨r, hr, rfl⟩ := List.mem_map.mp h
      have hkept : r.id ≠ other := fun heq => hc (by rw [heq])
      exact List.mem_map_of_mem (List.mem_filter.mpr ⟨hr, by simpa using hkept⟩)
    | reorder ids =>
      rw [on] at hon
      split at hon
      · simp only [Option.ite_none_right_eq_some, Option.some.injEq, Prod.mk.injEq] at hon
        obtain ⟨-, -, rfl⟩ := hon
        obtain ⟨r, hr, rfl⟩ := List.mem_map.mp h
        exact List.mem_map_of_mem ((Book.mem_arranged hdistinct).mpr hr)
      · cases hon
    | list =>
      obtain rfl := (Prod.mk.inj (Option.some.inj hon)).2
      exact h
    | load t =>
      simp only [on, Option.bind_eq_bind, Option.bind_eq_some_iff, Option.pure_def,
        Option.some.injEq, Prod.mk.injEq] at hon
      obtain ⟨-, -, -, -, -, rfl⟩ := hon
      exact h

/-- A logic that can be loaded is in the book, if it is not named like the index. -/
theorem Represents.mem_ids_of_load {s : Store} {book : Book} (h : Represents s book) {id : String}
    (hindex : id ≠ "index") {logic : Value} (hload : s.load (.text id) = .ok logic) :
    id ∈ book.map (·.id) := by
  cases hfind : Book.find? book id with
  | none =>
    obtain ⟨e, he⟩ := h.load_of_unlisted hindex hfind
    rw [he] at hload
    cases hload
  | some r =>
    obtain ⟨hr, rfl⟩ := (Book.find?_eq_some_iff h.distinct).mp hfind
    exact List.mem_map_of_mem hr

end Store

namespace Service

open Supervisor (Launch)

/-! ### Kinds of calls -/

namespace Call

def starts? : Call → Option String
  | startLogic id _ _ _ _ => some id
  | _ => none

def deletes? : Call → Option String
  | deleteLogic id => some id
  | _ => none

/-- A call that neither starts nor deletes a logic. -/
def Mild (c : Call) : Prop :=
  c.starts? = none ∧ c.deletes? = none

theorem deletes?_of_starts {c : Call} {id : String} (h : c.starts? = some id) :
    c.deletes? = none := by
  cases c with
  | deleteLogic => cases h
  | _ => rfl

theorem starts?_of_deletes {c : Call} {id : String} (h : c.deletes? = some id) :
    c.starts? = none := by
  cases c with
  | startLogic => cases h
  | _ => rfl

variable {τ : Type} (setup : Setup τ)

/-- What a call asks of the store, if it is to change it. -/
def stored? (s : State τ) : Call → Option Store.Call
  | createLogic name stock data => some (.create (setup.fresh s.outside.outer).1 name stock data)
  | saveLogic id name stock data => some (.save (.text id) name stock data)
  | deleteLogic id => some (.delete (.text id))
  | reorderLogics ids => some (.reorder ids)
  | _ => none

end Call

/-! ### The effect of a call -/

section

variable {τ : Type} (setup : Setup τ) (s : State τ) (c : Call)

theorem exec_onStore {α : Type} (step : Store.Action α) :
    (onStore step : Action τ α).exec s =
      ((step.exec s.store).1, { s with store := (step.exec s.store).2 }) := rfl

theorem exec_onSupervisor {α : Type} (step : Supervisor.Action (Outside τ) α) :
    (onSupervisor step : Action τ α).exec s =
      let done := step.exec (s.supervisor, s.outside)
      (done.1, { s with supervisor := done.2.1, outside := done.2.2 }) := rfl

theorem exec_loadLogic (id : String) :
    (setup.perform (.loadLogic id)).exec s = (s.store.load (.text id), s) := by
  simp only [Setup.perform, ExceptT.exec_bind, ExceptT.exec_get, ExceptT.exec_liftM]

/-- With an index that can be read, the store becomes what its own call makes of it. -/
theorem store_perform {entries : List Value} (hindex : s.store.index = .ok entries) :
    ((setup.perform c).exec s).2.store =
      ((c.stored? setup s).map fun d => (d.run s.store).2).getD s.store := by
  cases c with
  | createLogic name stock data =>
    simp only [Setup.perform, ExceptT.exec_bind, ExceptT.exec_get, hindex, ExceptT.exec_liftM]
    rfl
  | deleteLogic | reorderLogics =>
    simp only [Setup.perform, ExceptT.exec_bind_pure_snd, exec_onStore, Call.stored?,
      Option.map_some, Option.getD_some, Store.Call.run, ExceptT.exec_map]
  | saveLogic | runningLogics | runningLogic | runOnce | clearLog => rfl
  | loadLogic => rw [exec_loadLogic]; rfl
  | stopLogic | stopAll =>
    simp only [Setup.perform, ExceptT.exec_bind_pure_snd, exec_onSupervisor]
    rfl
  | listLogics | isRunning | startLogic | readLog =>
    simp only [Setup.perform, ExceptT.exec_bind_ok (ExceptT.exec_get s),
      ExceptT.exec_bind_pure_snd, ExceptT.exec_liftM, exec_onSupervisor]
    rfl

/-- No call but a start brings a run up. -/
theorem below_perform (h : c.starts? = none) :
    ((setup.perform c).exec s).2.supervisor.Below s.supervisor := by
  cases c with
  | startLogic => cases h
  | stopLogic id =>
    simp only [Setup.perform, ExceptT.exec_bind_pure_snd, exec_onSupervisor]
    exact (Supervisor.Wanes.stop (.text id)).below (s.supervisor, s.outside)
  | stopAll =>
    simp only [Setup.perform, ExceptT.exec_bind_pure_snd, exec_onSupervisor]
    exact Supervisor.Wanes.stopAll.below (s.supervisor, s.outside)
  | createLogic =>
    simp only [Setup.perform, ExceptT.exec_bind_ok (ExceptT.exec_get s)]
    cases s.store.index <;> exact .refl s.supervisor
  | loadLogic => rw [exec_loadLogic]; exact .refl _
  | saveLogic | runningLogics | runningLogic | runOnce | clearLog => exact .refl s.supervisor
  | deleteLogic | reorderLogics =>
    simp only [Setup.perform, ExceptT.exec_bind_pure_snd, exec_onStore]
    exact .refl s.supervisor
  | listLogics | isRunning | readLog =>
    simp only [Setup.perform, ExceptT.exec_bind_ok (ExceptT.exec_get s),
      ExceptT.exec_bind_pure_snd, ExceptT.exec_liftM]
    exact .refl s.supervisor

theorem starts_perform (id : String) (stock logic : Value) (details : Bool) (interval : Float) :
    ∃ answer, (setup.launch id stock logic details interval s.outside).Starts s.supervisor answer
      ((setup.perform (.startLogic id stock logic details interval)).exec s).2.supervisor := by
  simp only [Setup.perform, ExceptT.exec_bind_ok (ExceptT.exec_get s),
    ExceptT.exec_bind_pure_snd, exec_onSupervisor]
  exact ⟨_, Launch.starts _ (s.supervisor, s.outside)⟩

variable {setup s c}

theorem runs_perform {id : String}
    (h : ((setup.perform c).exec s).2.supervisor.Runs (.text id)) :
    s.supervisor.Runs (.text id) ∨ c.starts? = some id := by
  cases c with
  | startLogic t stock logic details interval =>
    obtain ⟨answer, hstarts⟩ := starts_perform setup s t stock logic details interval
    exact (hstarts.runs_or h).imp_right fun hid => congrArg some (Value.text.inj hid).symm
  | _ => exact .inl ((below_perform setup s _ rfl).runs h)

theorem keyed_perform (h : s.supervisor.Keyed) :
    ((setup.perform c).exec s).2.supervisor.Keyed := by
  cases c with
  | startLogic t stock logic details interval =>
    obtain ⟨answer, hstarts⟩ := starts_perform setup s t stock logic details interval
    exact hstarts.keyed rfl h
  | _ => exact (below_perform setup s _ rfl).keyed h

theorem not_runs_perform_stop (h : s.supervisor.Keyed) (id : String) :
    ¬ ((setup.perform (.stopLogic id)).exec s).2.supervisor.Runs (.text id) := by
  simp only [Setup.perform, ExceptT.exec_bind_pure_snd, exec_onSupervisor]
  exact Supervisor.not_runs_after_stop (a := (s.supervisor, s.outside)) h

end

end Service

end TradingRules
