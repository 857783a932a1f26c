import TradingRules.Sorting.Gallop

/-!
# Merging sorted runs

Two neighbouring runs are merged from the front if the first one is not the longer, else from the
back. Merging from the back is merging the reversed runs, with their roles exchanged. One run is
*held*: it keeps an item up to the end of the merge. The other one is *fed* into it. Items are
compared one by one until one run wins often enough in a row; then whole rows of items are taken by
strides, as long as that pays.
-/

namespace TradingRules.Sorting

def worthwhile : Nat := 7

/-- How items are taken: one by one, with the number of items that each run won in a row, or by
strides. -/
inductive Gait where
  | single (held fed : Nat)
  | striding

/-- What a step leaves: the whole merge, or what is left of the runs and the items merged so far,
last first. -/
inductive Rest (α : Type) where
  | none (merged : List α)
  | some (held fed merged : List α)

section

variable {α : Type} (less : α → α → Outcome Bool) (back : Bool)

/-- Does the fed item go before the held one? Equal items stay in their order. -/
def goesFirst (held fed : α) : Outcome Bool :=
  if back then less held fed else less fed held

/-- Takes the held items that go before the first fed one, and then that one. -/
def takeHeld (held fed merged : List α) : Outcome (Nat × Rest α) :=
  match fed with
  | [] => .ok (0, .none (merged.reverse ++ held))
  | f :: fed => do
    let n ← lead (fun h => return !(← goesFirst less back h f)) held.toArray back
    let merged := (held.take n).reverse ++ merged
    return (n, match held.drop n, fed with
      | [], fed => .none (merged.reverse ++ f :: fed)
      | [h], fed => .none (merged.reverse ++ f :: fed ++ [h])
      | held, [] => .none (merged.reverse ++ f :: held)
      | held, fed => .some held fed (f :: merged))

/-- Takes the fed items that go before the first held one, and then that one. -/
def takeFed (held fed merged : List α) : Outcome (Nat × Rest α) :=
  match held with
  | [] => .ok (0, .none (merged.reverse ++ fed))
  | h :: held => do
    let n ← lead (fun f => goesFirst less back h f) fed.toArray back
    let merged := (fed.take n).reverse ++ merged
    return (n, match fed.drop n, held with
      | [], held => .none (merged.reverse ++ h :: held)
      | fed, [last] => .none (merged.reverse ++ h :: fed ++ [last])
      | fed, held => .some held fed (h :: merged))

/-- Takes items of both runs by strides, first of the run that comes first. -/
def takeRows (held fed merged : List α) : Outcome (Nat × Rest α) := do
  let (first, second) :=
    if back then (takeFed less back, takeHeld less back)
    else (takeHeld less back, takeFed less back)
  match ← first held fed merged with
  | (n, .none merged) => return (n, .none merged)
  | (n, .some held fed merged) =>
    let (m, rest) ← second held fed merged
    return (max n m, rest)

/-- Merges runs, where `patience` is the number of items in a row that make for strides. Strides
lower it and leaving them raises it. The fuel bounds the number of items. -/
def mergeItems : Nat → Gait → Nat → List α → List α → List α → Outcome (List α × Nat)
  | fuel + 1, .single heldRow fedRow, patience, h :: held, f :: fed, merged => do
    if ← goesFirst less back h f then
      if fed.isEmpty then return (merged.reverse ++ f :: h :: held, patience)
      else if fedRow + 1 ≥ patience then
        mergeItems fuel .striding (patience + 1) (h :: held) fed (f :: merged)
      else mergeItems fuel (.single 0 (fedRow + 1)) patience (h :: held) fed (f :: merged)
    else
      if held.length = 1 then return (merged.reverse ++ h :: f :: fed ++ held, patience)
      else if heldRow + 1 ≥ patience then
        mergeItems fuel .striding (patience + 1) held (f :: fed) (h :: merged)
      else mergeItems fuel (.single (heldRow + 1) 0) patience held (f :: fed) (h :: merged)
  | fuel + 1, .striding, patience, held, fed, merged => do
    let patience := max 1 (patience - 1)
    match ← takeRows less back held fed merged with
    | (_, .none merged) => return (merged, patience)
    | (n, .some held fed merged) =>
      if n ≥ worthwhile then mergeItems fuel .striding patience held fed merged
      else mergeItems fuel (.single 0 0) (patience + 1) held fed merged
  | _, _, patience, held, fed, merged => .ok (merged.reverse ++ held ++ fed, patience)

def mergeInto (patience : Nat) (held fed : List α) : Outcome (List α × Nat) :=
  match held, fed with
  | [h], fed => .ok (fed ++ [h], patience)
  | held, [f] => .ok (f :: held, patience)
  | held, f :: fed =>
    mergeItems less back (held.length + fed.length) (.single 0 0) patience held fed [f]
  | held, [] => .ok (held, patience)

end

/-- Merges two neighbouring runs. What is in its place already, at the front of the first run and at
the back of the second one, is left alone. -/
def mergeRuns {α : Type} (less : α → α → Outcome Bool) (patience : Nat) (xs ys : List α) :
    Outcome (List α × Nat) :=
  match ys with
  | [] => .ok (xs, patience)
  | y :: _ => do
    let n ← lead (fun x => return !(← less y x)) xs.toArray false
    let front := xs.take n
    let xs := xs.drop n
    match xs.getLast? with
    | none => return (front ++ ys, patience)
    | some x =>
      let m ← lead (fun y => return !(← less y x)) ys.reverse.toArray true
      let middle := ys.take (ys.length - m)
      let behind := ys.drop (ys.length - m)
      if middle.isEmpty then return (front ++ xs ++ behind, patience)
      else if xs.length ≤ middle.length then
        let (merged, patience) ← mergeInto less false patience xs middle
        return (front ++ merged ++ behind, patience)
      else
        let (merged, patience) ← mergeInto less true patience middle.reverse xs.reverse
        return (front ++ merged.reverse ++ behind, patience)

end TradingRules.Sorting
