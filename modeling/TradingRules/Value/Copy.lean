import TradingRules.Value.Basic

/-!
# Copies of values

What one process sends to another is copied on its way. Texts, numbers and truth values are told
apart by what they are, and so are their copies. A NaN is told apart by its mark: one that stands at
several places of a value has a copy of its own at each of them. Those copies bear marks that are
not in use yet, from some number on. A NaN without a mark has copies without one.
-/

namespace TradingRules.Value

mutual

/-- The copy of a value whose NaNs bear the marks from a number on, and the first mark that it
leaves. -/
def copy : Value → Nat → Value × Nat
  | undefined _, mark => (undefined mark, mark + 1)
  | list items, mark =>
    let copied := copyItems items mark
    (list copied.1, copied.2)
  | object fields, mark =>
    let copied := copyFields fields mark
    (object copied.1, copied.2)
  | v, mark => (v, mark)

def copyItems : List Value → Nat → List Value × Nat
  | [], mark => ([], mark)
  | v :: rest, mark =>
    let first := copy v mark
    let others := copyItems rest first.2
    (first.1 :: others.1, others.2)

def copyFields : Fields → Nat → Fields × Nat
  | [], mark => ([], mark)
  | (key, v) :: rest, mark =>
    let first := copy v mark
    let others := copyFields rest first.2
    ((key, first.1) :: others.1, others.2)

end

end TradingRules.Value
