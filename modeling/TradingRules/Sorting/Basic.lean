import TradingRules.Sorting.Merge

/-!
# Sorting by a comparison that can fail

Natural runs are found from the front, turned round if they fall, and brought to a least length by
putting items into them one by one. Of the sorted runs, neighbours are merged so that they stay
about as long as each other. The sort is stable. A comparison that is no order gives no order, but
which items are compared, and so the outcome, is determined all the same.
-/

namespace TradingRules.Sorting

structure Run (α : Type) where
  start : Nat
  items : List α
  /-- How often the whole has to be halved to part the middles of this run and the next one. -/
  depth : Nat := 0

/-- The least length of a run: the leading six bits of the number of items, rounded up. -/
def leastRun (size : Nat) : Nat :=
  let unit := Nat.pow 2 (size.log2 - 5)
  size / unit + (if size % unit = 0 then 0 else 1)

/-- How often a whole of `size` items has to be halved to part the middles of two neighbours. -/
def depthBetween (size start first second : Nat) : Nat :=
  let a := 2 * start + first
  let b := a + first + second
  let part (k m : Nat) : Nat := m * Nat.pow 2 k / (2 * size)
  ((List.range (size.log2 + 3)).find? fun k => part k a != part k b).getD 0

section

variable {α : Type} (less : α → α → Outcome Bool)

/-- The number of items after the given one that go on in the same direction. -/
def runLength (falling : Bool) : α → List α → Outcome Nat
  | _, [] => .ok 0
  | x, y :: rest => do
    if (← less y x) == falling then return 1 + (← runLength falling y rest) else return 0

def naturalRun (items : List α) : Outcome (List α) :=
  match items with
  | x :: y :: rest => do
    let falling ← less y x
    let run := items.take (2 + (← runLength less falling y rest))
    return if falling then run.reverse else run
  | items => .ok items

def insert (run : List α) (x : α) : Outcome (List α) := do
  let place ← bisect (fun y => return !(← less x y)) run.toArray false 0 run.length
  return run.take place ++ x :: run.drop place

/-- A run at the front that has the least length, if there are as many items. -/
def longRun (least : Nat) (items : List α) : Outcome (List α) := do
  let run ← naturalRun less items
  ((items.take least).drop run.length).foldlM (insert less) run

def Run.append (patience : Nat) (a b : Run α) : Outcome (Run α × Nat) := do
  let (items, patience) ← mergeRuns less patience a.items b.items
  return (⟨a.start, items, a.depth⟩, patience)

/-- Merges the last run with those before it that lie deeper than its new neighbour. -/
def settleRuns (depth : Nat) (last : Run α) :
    List (Run α) → Nat → Outcome (List (Run α) × Nat)
  | [], patience => .ok ([last], patience)
  | before :: rest, patience => do
    if before.depth > depth then
      let (run, patience) ← before.append less patience last
      settleRuns depth run rest patience
    else return (last :: before :: rest, patience)

def addRun (size : Nat) (runs : List (Run α)) (patience : Nat) (run : Run α) :
    Outcome (List (Run α) × Nat) :=
  match runs with
  | [] => .ok ([run], patience)
  | last :: rest => do
    let depth := depthBetween size last.start last.items.length run.items.length
    let (runs, patience) ← settleRuns less depth last rest patience
    return (match runs with
      | last :: rest => run :: { last with depth } :: rest
      | [] => [run], patience)

/-- Splits a sequence into runs and merges some of them. The fuel bounds the number of items. -/
def collectRuns (size : Nat) :
    Nat → Nat → List α → List (Run α) → Nat → Outcome (List (Run α) × Nat)
  | fuel + 1, start, x :: rest, runs, patience => do
    let run ← longRun less (leastRun size) (x :: rest)
    let (runs, patience) ← addRun less size runs patience ⟨start, run, 0⟩
    collectRuns size fuel (start + run.length) ((x :: rest).drop run.length) runs patience
  | _, _, _, runs, patience => .ok (runs, patience)

/-- Merges all runs, the last of which comes first. A short run between longer ones goes first. -/
def mergeAll (last : Run α) (before : List (Run α)) (patience : Nat) : Outcome (List α) :=
  match before with
  | [] => .ok last.items
  | [first] => return (← first.append less patience last).1.items
  | b :: a :: rest =>
    if a.items.length < last.items.length then do
      let (run, patience) ← a.append less patience b
      mergeAll last (run :: rest) patience
    else do
      let (run, patience) ← b.append less patience last
      mergeAll run (a :: rest) patience
termination_by before.length

def sort (items : List α) : Outcome (List α) := do
  let (runs, patience) ← collectRuns less items.length items.length 0 items [] worthwhile
  match runs with
  | [] => return []
  | last :: before => mergeAll less last before patience

end

end TradingRules.Sorting
