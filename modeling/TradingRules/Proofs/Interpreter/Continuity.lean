import TradingRules.Proofs.Interpreter.Course

/-!
# What lasts through a run

While a run is underway, the executor can stop the interpreter and have market data looked up, and
that is all it can do to it. So from one event of a course to the next, and across each callback,
the interpreter stays as it is but for its market data, unless it is stopped once and for all.
-/

namespace TradingRules.Interpreter

variable {σ : Type} (around : Surroundings σ) {i j k : Interpreter}

structure Kept (i j : Interpreter) : Prop where
  stock : j.stock = i.stock
  locked : j.locked = i.locked
  phase : j.status = i.status ∧ j.compiled = i.compiled ∨ j.status = .stopped ∧ j.compiled = none

namespace Kept

theorem refl (i : Interpreter) : Kept i i :=
  ⟨rfl, rfl, .inl ⟨rfl, rfl⟩⟩

theorem trans (hij : Kept i j) (hjk : Kept j k) : Kept i k where
  stock := hjk.stock.trans hij.stock
  locked := hjk.locked.trans hij.locked
  phase := by
    rcases hjk.phase with ⟨hstatus, hcompiled⟩ | hstopped
    · rw [hstatus, hcompiled]
      exact hij.phase
    · exact .inr hstopped

theorem market (i : Interpreter) (m : Market) : Kept i { i with market := m } :=
  ⟨rfl, rfl, .inl ⟨rfl, rfl⟩⟩

theorem dispose (i : Interpreter) : Kept i i.dispose :=
  ⟨rfl, rfl, .inr ⟨rfl, rfl⟩⟩

theorem stopped (h : Kept i j) (hi : i.status = .stopped) : j.status = .stopped := by
  rcases h.phase with ⟨hstatus, -⟩ | ⟨hstatus, -⟩
  · rw [hstatus, hi]
  · exact hstatus

end Kept

theorem kept_wait (a : Interpreter × σ) : Kept a.1 ((wait around).exec a).2.1 := by
  simp only [wait, ExceptT.exec_bind, ExceptT.exec_get]
  cases a.1.market.ready with
  | false => exact .refl _
  | true => exact .market _ _

theorem kept_callback (a : Interpreter × σ) (callback : Callback) :
    Kept a.1 (Moment.ofCallback around a callback).after.1 := by
  cases callback with
  | run details => exact .refl _
  | parse logic => exact .refl _
  | dispose => exact .dispose _
  | wait =>
    have hwait := kept_wait around a
    simp only [Moment.ofCallback, respond, ExceptT.exec_bind]
    rcases hresult : (wait around).exec a with ⟨e | b, z⟩ <;>
    · rw [hresult] at hwait
      exact hwait

/-- Events on the way from one interpreter to another, where the callbacks among them take up where
what came before them left off. -/
inductive Linked (around : Surroundings σ) (j : Interpreter) :
    Interpreter → List (Event σ) → Prop
  | done {i : Interpreter} (h : Kept i j) : Linked around j i []
  | entry {i : Interpreter} {rest : List (Event σ)} (title message : String)
      (h : Linked around j i rest) : Linked around j i (.entry title message :: rest)
  | call {i : Interpreter} {rest : List (Event σ)} (call : Call) (h : Linked around j i rest) :
      Linked around j i (.call call :: rest)
  | callback {i : Interpreter} {rest : List (Event σ)} {a : Interpreter × σ} (callback : Callback)
      (hkept : Kept i a.1)
      (h : Linked around j (Moment.ofCallback around a callback).after.1 rest) :
      Linked around j i (.callback (.ofCallback around a callback) :: rest)

namespace Linked

variable {around} {events early late : List (Event σ)} {m : Moment σ}

theorem of_kept (hkept : Kept i j) (h : Linked around k j events) : Linked around k i events := by
  induction h generalizing i with
  | done h => exact .done (hkept.trans h)
  | entry title message h ih => exact .entry title message (ih hkept)
  | call call h ih => exact .call call (ih hkept)
  | callback callback h hrest ih => exact .callback callback (hkept.trans h) hrest

theorem append (hearly : Linked around j i early) (hlate : Linked around k j late) :
    Linked around k i (early ++ late) := by
  induction hearly with
  | done h => exact hlate.of_kept h
  | entry title message h ih => exact .entry title message ih
  | call call h ih => exact .call call ih
  | callback callback hkept h ih => exact .callback callback hkept ih

theorem entries (i : Interpreter) (title : String) (lines : List String) :
    Linked around i i (lines.map (.entry title)) := by
  induction lines with
  | nil => exact .done (.refl i)
  | cons line rest ih => exact .entry title line ih

theorem kept (h : Linked around j i events) : Kept i j := by
  induction h with
  | done h => exact h
  | entry title message h ih => exact ih
  | call call h ih => exact ih
  | callback callback hkept h ih => exact hkept.trans ((kept_callback around _ _).trans ih)

end Linked

theorem linked_carryOut (conduct : Conduct σ) (a : Interpreter × σ) :
    Linked around ((carryOut around conduct).exec a).2.1 a.1
      ((conduct.callbacks around a).map .callback) := by
  induction conduct generalizing a with
  | finish act =>
    simpa [carryOut, Conduct.callbacks, ExceptT.exec_bind] using Linked.done (.refl a.1)
  | act change next ih =>
    simpa [carryOut, Conduct.callbacks, ExceptT.exec_bind] using ih (a.1, change a.2)
  | call callback next ih =>
    simp only [carryOut, Conduct.callbacks, ExceptT.exec_bind, Step.exec_attempt, List.map_cons]
    exact .callback callback (.refl a.1) (ih _ _)

section

variable {around} {c : CompiledLogic} {details : Bool} {a z : Interpreter × σ}
  {events : List (Event σ)}

theorem Turn.linked {side : Side} {outcome : Outcome Bool}
    (h : Turn around c details side a events outcome z) : Linked around z.1 a.1 events := by
  cases h with
  | failed heval => exact .entries a.1 side.title _
  | unmet heval hv => exact .entries a.1 side.title _
  | unheard heval hv hexecutor => exact .entries a.1 side.title _
  | @executed v executor result z heval hv hexecutor hcarried =>
    have hcallbacks := linked_carryOut around
      (executor side (c.order side) a.1.stock)
      (noted around side (c.lines details side a.1.market) a)
    rw [hcarried] at hcallbacks
    exact (Linked.entries a.1 side.title _).append (.call _ hcallbacks)

theorem Course.linked {outcome : Outcome Decision}
    (h : Course around c details a events outcome z) : Linked around z.1 a.1 events := by
  cases h with
  | buyFailed hbuy => exact hbuy.linked
  | sellFailed hbuy hsell => exact hbuy.linked.append hsell.linked
  | decided hbuy hsell => exact hbuy.linked.append hsell.linked

end

end TradingRules.Interpreter
