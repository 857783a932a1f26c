import TradingRules.Proofs.Interpreter.Parsing

/-!
# Interpreters that nobody calls back

When an executor is through with an order without a word to the interpreter, a run leaves the
interpreter as it was, but for its market data: it is idle with the same compiled logic. Fetching
and waiting change nothing but market data either.
-/

namespace TradingRules

open ExceptT (Steady)

/-! ### Market data and its source -/

namespace Market

variable {σ : Type} {source : Source σ} {R : σ → σ → Prop} (hR : Steady R)
  (hsource : ∀ request s, R s (source.answer request s).2)

include hR hsource

theorem steady_finishFetch (m : Market) (s : σ) : R s (m.finishFetch source s).2 := by
  rw [finishFetch]
  split
  · rw [fetchFirst, refresh_snd]
    exact hsource _ s
  · exact hR.refl s

theorem steady_runLookups (periods : List Period) (m : Market) (s : σ) :
    R s (m.runLookups source periods s).2 := by
  induction periods generalizing m s with
  | nil => exact hR.refl s
  | cons p rest ih =>
    have hfirst : R s (m.runLookup source p s).2 := by
      rw [runLookup_snd]
      exact hsource _ s
    exact hR.trans hfirst (ih _ _)

theorem steady_finishLookups (m : Market) (s : σ) : R s (m.finishLookups source s).2 :=
  steady_runLookups hR hsource m.pending m s

end Market

namespace Interpreter

variable {σ : Type} (around : Surroundings σ)

/-- Fetching and waiting change the market data only, and reach the outside through the source. -/
theorem exec_fetch_wait {R : σ → σ → Prop} (hR : Steady R)
    (hsource : ∀ request s, R s (around.source.answer request s).2) (i : Interpreter) (s : σ) :
    ∃ result m s', (do fetch around; let _ ← wait around : Step σ Unit).exec (i, s) =
      (result, ({ i with market := m }, s')) ∧ R s s' := by
  have hfetch : (fetch around).exec (i, s) =
      (.ok (), ({ i with market := (i.market.finishFetch around.source s).1 },
        (i.market.finishFetch around.source s).2)) := rfl
  have hfetched := Market.steady_finishFetch hR hsource i.market s
  rw [ExceptT.exec_bind_ok hfetch]
  generalize i.market.finishFetch around.source s = fetched at hfetched
  simp only [wait, ExceptT.exec_bind, ExceptT.exec_get]
  cases fetched.1.ready with
  | false => exact ⟨_, _, _, rfl, hfetched⟩
  | true =>
    refine ⟨_, _, _, rfl, hR.trans hfetched ?_⟩
    exact Market.steady_finishLookups hR hsource fetched.1 fetched.2

/-! ### Runs -/

variable {around}

/-- Nobody calls back in these surroundings. -/
def Surroundings.Discreet (around : Surroundings σ) : Prop :=
  ∀ executor ∈ around.executor, ∀ side order stock,
    ∃ act, executor side order stock = .finish act

section

variable {c : CompiledLogic} {details : Bool} {side : Side} {a z : Interpreter × σ}
  {events : List (Event σ)} (hdiscreet : around.Discreet)

include hdiscreet

theorem Turn.interpreter_eq {outcome : Outcome Bool}
    (h : Turn around c details side a events outcome z) : z.1 = a.1 := by
  cases h with
  | failed heval => rfl
  | unmet heval hv => rfl
  | unheard heval hv hexecutor => rfl
  | executed heval hv hexecutor hcarried =>
    obtain ⟨act, hact⟩ := hdiscreet _ hexecutor side (c.order side) a.1.stock
    rw [hact] at hcarried
    obtain ⟨-, rfl⟩ := Prod.mk.inj hcarried
    rfl

theorem Course.interpreter_eq {outcome : Outcome Decision}
    (h : Course around c details a events outcome z) : z.1 = a.1 := by
  cases h with
  | buyFailed hbuy => exact hbuy.interpreter_eq hdiscreet
  | sellFailed hbuy hsell | decided hbuy hsell =>
    exact (hsell.interpreter_eq hdiscreet).trans (hbuy.interpreter_eq hdiscreet)

/-- A run leaves an interpreter with a compiled logic idle. -/
theorem Resting.exec_run {i : Interpreter} (h : Resting i) (hi : i.compiled = some c)
    (details : Bool) (s : σ) : ∃ m, ((run around details).exec (i, s)).2.1 =
      { i with status := .idle, market := m } := by
  obtain ⟨logic, hcompiled⟩ := h.accepted c hi
  obtain ⟨events, outcome, z, hcourse⟩ := exists_course around c details (i.underway c, s)
  rw [hcourse.exec_run hcompiled hi (h.isRunnable hi) h.free]
  have hz : z.1 = i.underway c := hcourse.interpreter_eq hdiscreet
  refine ⟨(i.underway c).market, ?_⟩
  simp [hz, release, underway, h.free]

end

variable (around) in
/-- Without a compiled logic there is no run. -/
theorem Resting.exec_run_of_bare {i : Interpreter} (h : Resting i) (hi : i.compiled = none)
    (details : Bool) (s : σ) : (run around details).exec (i, s) =
      (.error (.interpreterState s!"cannot run while {i.status.name}"), (i, s)) := by
  simp [run, ExceptT.exec_bind, hi, h.free]

/-- A run leaves an interpreter at rest, which can run exactly if it could before. -/
theorem Resting.after_run {i : Interpreter} (h : Resting i) (hdiscreet : around.Discreet)
    (details : Bool) (s : σ) :
    Resting ((run around details).exec (i, s)).2.1 ∧
      ((run around details).exec (i, s)).2.1.isRunnable = i.isRunnable := by
  cases hi : i.compiled with
  | none =>
    rw [h.exec_run_of_bare around hi details s]
    exact ⟨h, rfl⟩
  | some c =>
    obtain ⟨m, hm⟩ := h.exec_run hdiscreet hi details s
    have hran : Resting { i with status := .idle, market := m } :=
      ⟨h.free, by simp, by simp, h.accepted⟩
    rw [hm]
    exact ⟨hran, (hran.isRunnable hi).trans (h.isRunnable hi).symm⟩

end Interpreter

end TradingRules
