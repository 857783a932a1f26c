import TradingRules.Number.Decimal
import TradingRules.Text.Quoted
import TradingRules.Value.Basic

/-!
# Writing JSON

One writer with a style: what stands between items and after field names, whether characters beyond
ASCII are escaped, and whether nested values go on lines of their own. Doubles are written with the
shortest digits that read back.
-/

namespace TradingRules.Json

structure Style where
  comma : String := ", "
  colon : String := ": "
  ascii : Bool := true
  /-- The indentation of a nested value, if it goes on lines of its own. -/
  indent : Option Nat := none

def Style.plain : Style := {}

def Style.unescaped : Style := { ascii := false }

def Style.compact : Style := { comma := ",", colon := ":" }

def Style.indented : Style := { comma := ",", ascii := false, indent := some 2 }

def unitEscape (n : Nat) : List Char :=
  '\\' :: 'u' :: Text.hexDigits 4 n

def charText (ascii : Bool) (c : Char) : List Char :=
  match c with
  | '"' => ['\\', '"']
  | '\\' => ['\\', '\\']
  | '\n' => ['\\', 'n']
  | '\r' => ['\\', 'r']
  | '\t' => ['\\', 't']
  | '\x08' => ['\\', 'b']
  | '\x0c' => ['\\', 'f']
  | c =>
    let n := Text.codePoint c
    if n < 0x20 then unitEscape n
    else if !ascii || n < 0x7f then [c]
    else if n < 0x10000 then unitEscape n
    else unitEscape (0xd800 + (n - 0x10000) / 0x400) ++ unitEscape (0xdc00 + (n - 0x10000) % 0x400)

def textToken (ascii : Bool) (s : String) : String :=
  String.ofList ('"' :: s.toList.flatMap (charText ascii) ++ ['"'])

/-- A double; the ones that are not finite have words. -/
def floatToken (x : Float) : String :=
  if x.isNaN then "NaN"
  else if x.isInf then (if x > 0 then "Infinity" else "-Infinity")
  else Number.shortestText x

/-- A line break with the indentation of a level, if there is one. -/
def Style.lineBreak (style : Style) (level : Nat) : String :=
  match style.indent with
  | some n => String.ofList ('\n' :: List.replicate (n * level) ' ')
  | none => ""

mutual

/-- The pieces in which a value is written at a level of nesting. What stands before the value is a
piece of its own if the value has parts, else it is in one piece with the value. -/
def pieces (style : Style) (level : Nat) (before : String) : Value → List String
  | .null => [before ++ "null"]
  | .bool b => [before ++ (if b then "true" else "false")]
  | .int n => [before ++ toString n]
  | .real x => [before ++ floatToken x]
  | .undefined _ => [before ++ floatToken nan]
  | .text s => [before ++ textToken style.ascii s]
  | .list items =>
    let gap := style.lineBreak (level + 1)
    if items.isEmpty then [before ++ "[]"]
    else before :: (itemPieces style (level + 1) ("[" ++ gap) (style.comma ++ gap) items ++
      [style.lineBreak level, "]"])
  | .object fields =>
    let gap := style.lineBreak (level + 1)
    if fields.isEmpty then [before ++ "\x7b\x7d"]
    else before :: "\x7b" :: (fieldPieces style (level + 1) gap (style.comma ++ gap) fields ++
      [style.lineBreak level, "\x7d"])

/-- The pieces of items: the text before the first one, and between two of them. -/
def itemPieces (style : Style) (level : Nat) (before between : String) :
    List Value → List String
  | [] => []
  | x :: xs => pieces style level before x ++ itemPieces style level between between xs

/-- The pieces of fields: the text before the field, its name, the colon, and the value. -/
def fieldPieces (style : Style) (level : Nat) (before between : String) :
    List (String × Value) → List String
  | [] => []
  | (key, x) :: rest =>
    before :: textToken style.ascii key :: style.colon ::
      (pieces style level "" x ++ fieldPieces style level between between rest)

end

def write (style : Style) (value : Value) : String :=
  String.join (pieces style 0 "" value)

/-- Writes a value piece by piece as bytes. If a piece has halves of surrogate pairs, the text
before it and the halves come instead. -/
def writeEncodable (style : Style) (value : Value) : Except (String × Text.HalfRun) String :=
  (pieces style 0 "" value).foldlM (fun text piece =>
    match Text.firstHalves? piece with
    | some halves => .error (text, halves)
    | none => .ok (text ++ piece)) ""

end TradingRules.Json
