import TradingRules.Number.Binary

/-!
# Schedule of ticks

A tick starts every interval. A tick that takes longer than the interval is never overlapped: the
starts that fall into it are skipped, and the next one is again a whole number of intervals after
the first. Only ticks take time of their own: a wait is taken to end exactly when it should.
-/

namespace TradingRules.Worker

def leastInterval : Float := 1.0

/-- The interval when none is given, in seconds. -/
def usualInterval : Float := 5.0

def raisedInterval (x : Float) : Float :=
  if x < leastInterval then leastInterval else x

structure Schedule (α : Type) where
  now : α
  due : α
  skipped : Int := 0
  /-- The starts of all ticks so far. -/
  starts : List α := []
  /-- Did a tick take so long that no start after it can be reckoned? -/
  stuck : Bool := false
  deriving Inhabited

namespace Schedule

variable {α : Type} (C : Clock α)

def start (now : α) : Schedule α :=
  { now, due := now }

/-- The starts that a tick has overrun when it ends after the start that is due; none if they are
too many to be counted. -/
def missed? (interval due done : α) : Option Int :=
  if C.less due done then (C.fits (C.sub done due) interval).map (· + 1) else some 0

/-- The time from one instant to a later one, zero if it is not later. -/
def pause (done due : α) : α :=
  let rest := C.sub due done
  if C.less C.zero rest then rest else C.zero

/-- A tick of that duration and the wait for the next one, which ends neither early nor late. -/
def tick (interval : α) (s : Schedule α) (duration : α) : Schedule α :=
  let done := C.add s.now duration
  let due := C.add s.due interval
  let starts := s.starts ++ [s.now]
  match missed? C interval due done with
  | none => { s with now := done, due, starts, stuck := true }
  | some count =>
    let next := if count = 0 then due else C.add due (C.scale count interval)
    { now := C.add done (pause C done next), due := next, skipped := s.skipped + count, starts }

def run (interval : α) (s : Schedule α) (durations : List α) : Schedule α :=
  durations.foldl (fun s duration => if s.stuck then s else tick C interval s duration) s

@[simp] theorem run_nil (interval : α) (s : Schedule α) : run C interval s [] = s := rfl

theorem run_cons {interval : α} {s : Schedule α} (going : s.stuck = false) (d : α) (ds : List α) :
    run C interval s (d :: ds) = run C interval (tick C interval s d) ds := by
  simp [run, going]

end Schedule

end TradingRules.Worker
