import TradingRules.Number.Decimal
import TradingRules.Text.Quoted
import TradingRules.Value.Basic

/-!
# Values as text

`Value.written` is the text of a value inside another one, `Value.shown` the text of a value on its
own. They differ for texts only, which are quoted inside other values.
-/

namespace TradingRules.Value

def commaJoined (parts : List String) : String :=
  String.intercalate ", " parts

mutual

def written : Value → String
  | null => "None"
  | bool b => if b then "True" else "False"
  | int n => toString n
  | real x => Number.shortestText x
  | undefined _ => Number.shortestText nan
  | text s => Text.quoted s
  | list items => "[" ++ commaJoined (writtenItems items) ++ "]"
  | object fields => "\x7b" ++ commaJoined (writtenFields fields) ++ "\x7d"

def writtenItems : List Value → List String
  | [] => []
  | x :: xs => written x :: writtenItems xs

def writtenFields : List (String × Value) → List String
  | [] => []
  | (key, x) :: rest => (Text.quoted key ++ ": " ++ written x) :: writtenFields rest

end

def shown : Value → String
  | text s => s
  | v => written v

end TradingRules.Value
