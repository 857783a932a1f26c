import TradingRules.Value.Fault

/-!
# Items

Going through the items of a value, and reading and writing an item by its name. Only objects have
named items; every other value fails in its own words.
-/

namespace TradingRules.Value

/-- A value with fields, or the fault that it has none. -/
def asFields : Value → Outcome Fields
  | object fields => .ok fields
  | v => .error (.fieldsOf v)

/-- The items of a value that can be gone through: those of a list, the characters of a text, the
names of the fields of an object. -/
def items : Value → Outcome (List Value)
  | list items => .ok items
  | text s => .ok (s.toList.map fun c => text c.toString)
  | object fields => .ok (fields.map fun f => text f.1)
  | v => .error (.notIterable v)

def size : Value → Outcome Nat
  | list items => .ok items.length
  | text s => .ok s.length
  | object fields => .ok fields.length
  | v => .error (.wrongKind s!"object of type '{v.kindName}' has no len()")

def cut : Value → Outcome Int
  | int n => .ok n
  | bool b => .ok (if b then 1 else 0)
  | _ => .error (.wrongKind
      "slice indices must be integers or None or have an __index__ method")

def listIndexFault : Fault :=
  .wrongKind "list indices must be integers or slices, not str"

def item (v : Value) (key : String) : Outcome Value :=
  match v with
  | object fields => match Fields.get? fields key with
    | some value => .ok value
    | none => .error (.missingKey (.text key))
  | list _ => .error listIndexFault
  | text _ => .error (.wrongKind "string indices must be integers, not 'str'")
  | v => .error (.wrongKind s!"'{v.kindName}' object is not subscriptable")

def withItem (v : Value) (key : String) (value : Value) : Outcome Value :=
  match v with
  | object fields => .ok (object (Fields.set fields key value))
  | list _ => .error listIndexFault
  | v => .error (.wrongKind s!"'{v.kindName}' object does not support item assignment")

end TradingRules.Value
