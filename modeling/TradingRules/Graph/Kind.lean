import TradingRules.Value.Basic

/-!
# Kinds of nodes

The closed set of node kinds. Suppliers yield a number, combinators join two operands, and a
terminal stands for the order that is placed when its condition holds.
-/

namespace TradingRules

inductive NodeKind where
  | const | currentPrice | highestPrice | rsi | roi | sma
  | compare | logicOp
  | buy | sell
  deriving DecidableEq, Repr

namespace NodeKind

def all : List NodeKind :=
  [const, currentPrice, highestPrice, rsi, roi, sma, compare, logicOp, buy, sell]

def name : NodeKind → String
  | const => "const"
  | currentPrice => "currentPrice"
  | highestPrice => "highestPrice"
  | rsi => "rsi"
  | roi => "roi"
  | sma => "sma"
  | compare => "compare"
  | logicOp => "logicOp"
  | buy => "buy"
  | sell => "sell"

theorem name_injective : Function.Injective name := by
  intro a b h
  cases a <;> cases b <;> first | rfl | (revert h; decide)

def ofName? (s : String) : Option NodeKind :=
  all.find? fun k => k.name == s

def ofValue? : Value → Option NodeKind
  | .text s => ofName? s
  | _ => none

theorem ofName?_name (k : NodeKind) : ofName? k.name = some k := by
  cases k <;> decide

def isSupplier : NodeKind → Bool
  | const | currentPrice | highestPrice | rsi | roi | sma => true
  | _ => false

/-- The kinds behind the labels of nodes that were saved without a kind. -/
def labels : List (String × NodeKind) :=
  [("Buy", buy), ("Sell", sell), ("ROI", roi), ("Const", const), ("CurrentPrice", currentPrice),
    ("HighestPrice", highestPrice), ("RSI", rsi), ("SMA", sma), ("Compare", compare),
    ("LogicOp", logicOp), ("AND/OR", logicOp)]

def ofLabel? (s : String) : Option NodeKind :=
  (labels.find? (·.1 == s)).map (·.2)

end NodeKind

end TradingRules
