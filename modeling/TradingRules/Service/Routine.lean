import TradingRules.Service.Call

/-!
# Routines

A routine makes calls, each with a view to the answers before it, and ends with a result. Between
two of its calls the routines of other clients may make theirs.
-/

namespace TradingRules.Service

inductive Routine (α : Type) where
  | done (a : α)
  | call (c : Call) (next : Outcome Value → Routine α)

namespace Routine

variable {α β : Type}

def bind : Routine α → (α → Routine β) → Routine β
  | done a, f => f a
  | call c next, f => call c fun answer => bind (next answer) f

instance : Monad Routine where
  pure := done
  bind := bind

variable {τ : Type} (setup : Setup τ)

def run : Routine α → State τ → α × State τ
  | done a, s => (a, s)
  | call c next, s =>
    let (answer, s) := (setup.perform c).run.run s
    run (next answer) s

def step : Routine α → State τ → Routine α × State τ
  | done a, s => (done a, s)
  | call c next, s =>
    let (answer, s) := (setup.perform c).run.run s
    (next answer, s)

@[simp] theorem run_done (a : α) (s : State τ) : (done a).run setup s = (a, s) := rfl

theorem run_step (r : Routine α) (s : State τ) :
    (r.step setup s).1.run setup (r.step setup s).2 = r.run setup s := by
  cases r <;> rfl

end Routine

abbrev Handler := ExceptT Fault Routine

def ask (c : Call) : Handler Value :=
  Routine.call c .done

def attempt {α : Type} (step : Handler α) : Handler (Outcome α) :=
  ExceptT.lift step.run

end TradingRules.Service
