import TradingRules.Sorting.Basic
import TradingRules.Value.Arithmetic

/-!
# Sorting by keys

Numbers other than NaN are ordered, and so are texts: items with such keys have one order in which
equal ones keep their places. Other keys may have no order among each other, so that sorting can
fail, and its outcome hangs on the comparisons that it makes.
-/

namespace TradingRules.Value

def isOrdered (v : Value) : Bool :=
  match v.numeric? with
  | some (.double x) => !x.isNaN
  | some (.whole _) => true
  | none => false

def isText : Value → Bool
  | text _ => true
  | _ => false

/-- Is the first of two values that can be compared not the greater one? -/
def atMost (a b : Value) : Bool :=
  match compareBy .less b a with
  | .ok less => !less
  | .error _ => true

def sortByKey {α : Type} (items : List (Value × α)) : Outcome (List (Value × α)) :=
  if items.all (·.1.isOrdered) || items.all (·.1.isText) then
    .ok (items.mergeSort fun a b => atMost a.1 b.1)
  else Sorting.sort (fun a b => compareBy .less a.1 b.1) items

end TradingRules.Value
