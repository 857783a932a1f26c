import TradingRules.Number.Binary

/-!
# Dynamic values

Logics, orders, messages and answers of exchanges are values of one type: null, truth values, whole
numbers of any size, doubles, texts, lists, and objects whose fields keep the order in which they
were put. Whole numbers, doubles and truth values are numbers of one line: `true`, `1` and `1.0`
are equal, and comparison is by exact value.

NaN equals nothing, not even itself. But one NaN can be handed around, and a collection that is
asked for it finds it again. So a NaN that was given from outside bears a mark: two of them are the
same if they have the same mark. `Value.isSame` is what keys and members are compared by.
-/

namespace TradingRules

inductive Value where
  | null
  | bool (b : Bool)
  | int (n : Int)
  | real (x : Float)
  /-- The NaN of that mark; all that are read from JSON texts have mark zero. -/
  | undefined (mark : Nat)
  | text (s : String)
  | list (items : List Value)
  | object (fields : List (String × Value))
  deriving Inhabited

/-- The fields of an object, in order, with distinct keys. -/
abbrev Fields := List (String × Value)

def nan : Float := 0.0 / 0.0

namespace Fields

def get? (fields : Fields) (key : String) : Option Value :=
  (fields.find? (·.1 == key)).map (·.2)

def has (fields : Fields) (key : String) : Bool :=
  fields.any (·.1 == key)

/-- The value of a field, null when it is missing. -/
def get (fields : Fields) (key : String) : Value :=
  (get? fields key).getD .null

/-- Replaces the value of a field where it stands, or adds the field at the end. -/
def set (fields : Fields) (key : String) (value : Value) : Fields :=
  if has fields key then fields.map fun f => if f.1 == key then (key, value) else f
  else fields ++ [(key, value)]

def merge (fields more : Fields) : Fields :=
  more.foldl (fun acc f => set acc f.1 f.2) fields

def without (fields : Fields) (keys : List String) : Fields :=
  fields.filter fun f => !keys.contains f.1

def put (fields : Fields) (key : String) : Value → Fields
  | .null => fields
  | value => set fields key value

end Fields

namespace Value

def kindName : Value → String
  | null => "NoneType"
  | bool _ => "bool"
  | int _ => "int"
  | real _ => "float"
  | undefined _ => "float"
  | text _ => "str"
  | list _ => "list"
  | object _ => "dict"

/-- Null, zero and whatever is empty count as false, all else as true. -/
def isTruthy : Value → Bool
  | null => false
  | bool b => b
  | int n => n != 0
  | real x => x != 0.0
  | undefined _ => true
  | text s => s != ""
  | list items => !items.isEmpty
  | object fields => !fields.isEmpty

/-- The value itself if it counts as true, else the other one. -/
def orElse (a b : Value) : Value :=
  if a.isTruthy then a else b

def isNull : Value → Bool
  | null => true
  | _ => false

/-- A number in exact form: truth values count as zero and one. -/
inductive Numeric where
  | whole (n : Int)
  | double (x : Float)

/-- The number that a value is, if it is one. -/
def numeric? : Value → Option Numeric
  | bool b => some (.whole (if b then 1 else 0))
  | int n => some (.whole n)
  | real x => some (.double x)
  | undefined _ => some (.double nan)
  | _ => none

/-- Numbers compared by exact value; NaN compares with nothing. -/
def Numeric.compare : Numeric → Numeric → Option Ordering
  | .whole a, .whole b => some (Ord.compare a b)
  | .whole a, .double y => Number.compareIntFloat a y
  | .double x, .whole b => (Number.compareIntFloat b x).map Ordering.swap
  | .double x, .double y => Number.compareFloats x y

def equalLeaves (a b : Value) : Bool :=
  match a, b with
  | null, null => true
  | text s, text t => s == t
  | a, b =>
    match numeric? a, numeric? b with
    | some x, some y => x.compare y == some .eq
    | _, _ => false

def isOneNaN : Value → Value → Bool
  | undefined m, undefined n => m == n
  | _, _ => false

mutual

/-- Equality of values: numbers by exact value, lists item by item, objects by the values of
their fields in any order. Inside lists and objects a NaN equals itself. -/
def equal : Value → Value → Bool
  | list xs, b => match b with
    | list ys => equalLists xs ys
    | _ => false
  | object fs, b => match b with
    | object gs => fs.length == gs.length && equalFields fs gs
    | _ => false
  | a, b => equalLeaves a b

def equalLists : List Value → List Value → Bool
  | [], ys => ys.isEmpty
  | x :: xs, ys => match ys with
    | [] => false
    | y :: rest => (isOneNaN x y || equal x y) && equalLists xs rest

/-- Does the second object have each field of the first with an equal value? -/
def equalFields : List (String × Value) → List (String × Value) → Bool
  | [], _ => true
  | (key, x) :: fs, gs =>
    (match (gs.find? (·.1 == key)).map (·.2) with
      | some y => isOneNaN x y || equal x y
      | none => false) && equalFields fs gs

end

instance : BEq Value := ⟨equal⟩

/-- Are two values the same for a collection: equal, or one NaN? -/
def isSame (a b : Value) : Bool :=
  isOneNaN a b || a == b

def isKey : Value → Bool
  | list _ => false
  | object _ => false
  | _ => true

def fields? : Value → Option Fields
  | object fields => some fields
  | _ => none

end Value

end TradingRules
