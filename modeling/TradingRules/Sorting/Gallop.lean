import TradingRules.Value.Fault

/-!
# Searching by strides

In a sequence in which the items that pass a test come first, `lead` tells how many there are. It
looks at items at strides that double, and then halves the last stride. A test can fail, and items
need not be in such an order; then the outcome depends on which of them are looked at.
-/

namespace TradingRules.Sorting

variable {α : Type} (pass : α → Outcome Bool) (xs : Array α)

/-- Between two bounds, the place behind the items that pass, by halving. The middle of an even
number of items is the later one, or with `early` the earlier one. -/
def bisect (early : Bool) (low high : Nat) : Outcome Nat :=
  if _within : low < high then
    let middle := low + (high - low - early.toNat) / 2
    match xs[middle]? with
    | none => .ok low
    | some x => do
      if ← pass x then bisect early (middle + 1) high else bisect early low middle
  else .ok low
termination_by high - low

/-- The last place at a stride that passes, given one, and the next one, which does not. -/
def stride (last next : Nat) : Outcome (Nat × Nat) :=
  if _within : next < xs.size then do
    if ← pass xs[next] then stride next (2 * next + 1) else return (last, next)
  else .ok (last, xs.size)
termination_by xs.size - next

def lead (early : Bool) : Outcome Nat :=
  match xs[0]? with
  | none => .ok 0
  | some x => do
    if ← pass x then
      let (last, next) ← stride pass xs 0 1
      bisect pass xs early (last + 1) next
    else return 0

end TradingRules.Sorting
