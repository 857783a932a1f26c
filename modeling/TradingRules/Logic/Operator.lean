import TradingRules.Text.Character
import TradingRules.Text.Lower
import TradingRules.Value.Fault

/-!
# Operators

The closed sets of comparison and logic operators, their spellings, and what they compute.
-/

namespace TradingRules

inductive CompareOp where
  | greater | less | greaterEqual | lessEqual | equal | unequal
  deriving DecidableEq, Repr

namespace CompareOp

def all : List CompareOp := [greater, less, greaterEqual, lessEqual, equal, unequal]

def sign : CompareOp → String
  | greater => ">"
  | less => "<"
  | greaterEqual => "≥"
  | lessEqual => "≤"
  | equal => "="
  | unequal => "≠"

def ofSign? (s : String) : Option CompareOp :=
  all.find? fun op => op.sign == s

/-- Signs that are typed without special characters. -/
def aliases : List (String × CompareOp) :=
  [(">=", greaterEqual), ("<=", lessEqual), ("==", equal), ("!=", unequal)]

def read? (s : String) : Option CompareOp :=
  let word := Text.strip s
  match aliases.find? (·.1 == word) with
  | some (_, op) => some op
  | none => ofSign? word

/-- Does the comparison hold? Nothing holds of NaN but that it is unequal. -/
def holds : CompareOp → Float → Float → Bool
  | greater, x, y => decide (x > y)
  | less, x, y => decide (x < y)
  | greaterEqual, x, y => decide (x ≥ y)
  | lessEqual, x, y => decide (x ≤ y)
  | equal, x, y => x == y
  | unequal, x, y => x != y

theorem ofSign?_sign (op : CompareOp) : ofSign? op.sign = some op := by
  cases op <;> decide

end CompareOp

inductive LogicOp where
  | and | or
  deriving DecidableEq, Repr

namespace LogicOp

def all : List LogicOp := [and, or]

def word : LogicOp → String
  | and => "and"
  | or => "or"

def ofWord? (s : String) : Option LogicOp :=
  all.find? fun op => op.word == s

def aliases : List (String × LogicOp) :=
  [("&&", and), ("||", or)]

/-- Reads a connective, with blanks around it, in capital or small letters. -/
def read? (s : String) : Option LogicOp :=
  let word := Text.lower (Text.strip s)
  match aliases.find? (·.1 == word) with
  | some (_, op) => some op
  | none => ofWord? word

def holds : LogicOp → Bool → Bool → Bool
  | and, a, b => a && b
  | or, a, b => a || b

theorem ofWord?_word (op : LogicOp) : ofWord? op.word = some op := by
  cases op <;> decide

end LogicOp

end TradingRules
