import TradingRules.Text.Character

/-!
# Arguments of the command line

There are two commands, each with a file and flags. A flag may be shortened as long as it is clear
which one is meant; its value follows it or an equals sign. Behind two dashes everything is taken as
it is.
-/

namespace TradingRules.CommandLine

inductive Flag where
  | help | stock | details | live
  deriving DecidableEq, Repr, Inhabited

def Flag.name : Flag → String
  | help => "--help"
  | stock => "--stock"
  | details => "--details"
  | live => "--live"

inductive Command where
  | validate (file stock : String)
  | runOnce (file stock : String) (details live : Bool)
  deriving DecidableEq, Repr, Inhabited

def Command.file : Command → String
  | validate file _ => file
  | runOnce file _ _ _ => file

inductive Token where
  | word (s : String)
  | dashes
  /-- A flag, and what stands behind its equals sign. -/
  | flag (f : Flag) (value : Option String)
  /-- The letter for help, and what stands behind it. -/
  | letter (rest : List Char)
  | unknown
  deriving DecidableEq, Repr, Inhabited

/-- Digits, at least one unless a point stands before them. -/
def isDigits (s : List Char) : Bool :=
  !s.isEmpty && s.all fun c => (Text.decimalValue? c).isSome

def isNegativeNumber (s : List Char) : Bool :=
  match if s.getLast? = some '\n' then s.dropLast else s with
  | '-' :: rest =>
    match rest.span (· != '.') with
    | (whole, []) => isDigits whole
    | (whole, _ :: fraction) => (whole.isEmpty || isDigits whole) && isDigits fraction
  | _ => false

/-- A name and what stands behind its equals sign. -/
def splitValue (s : List Char) : String × Option String :=
  match s.span (· != '=') with
  | (name, []) => (String.ofList name, none)
  | (name, _ :: value) => (String.ofList name, some (String.ofList value))

namespace Token

def other (s : List Char) : Token :=
  if isNegativeNumber s || s.contains ' ' then word (String.ofList s) else unknown

/-- What begins with two dashes, among those flags; none if several could be meant. -/
def long (flags : List Flag) (s : List Char) : Option Token :=
  let (name, value) := splitValue s
  match flags.filter fun f => f.name.startsWith name with
  | [] => some (other s)
  | [f] => some (flag f value)
  | _ => none

def ofText (flags : List Flag) (text : String) : Option Token :=
  match text.toList with
  | ['-'] => some (word text)
  | '-' :: '-' :: rest => long flags ('-' :: '-' :: rest)
  | '-' :: 'h' :: rest => some (letter rest)
  | '-' :: rest => some (other ('-' :: rest))
  | _ => some (word text)

/-- The forms of arguments; none if one of them is not clear. -/
def ofTexts (flags : List Flag) : List String → Option (List Token)
  | [] => some []
  | text :: rest =>
    if text == "--" then some (dashes :: rest.map word)
    else do
      let token ← ofText flags text
      return token :: (← ofTexts flags rest)

end Token

inductive Reading where
  | command (c : Command)
  | help
  | refused
  deriving DecidableEq, Repr, Inhabited

/-- The letter for help may stand several times, but nothing else may follow it. -/
def helpLetters (s : List Char) : Reading :=
  if s.all (· == 'h') then .help else .refused

/-- What follows the letter for help: more of its kind, perhaps behind an equals sign. -/
def helpReading : List Char → Reading
  | ['='] => .refused
  | '=' :: rest => helpLetters rest
  | rest => helpLetters rest

structure Progress where
  file : Option String := none
  stock : String := ""
  details : Bool := false
  live : Bool := false
  atFile : Bool := false
  /-- Was there an argument that is none of the command? -/
  stray : Bool := false

def readArguments (command : String → Progress → Command) : List Token → Progress → Reading
  | [], p =>
    match p.file with
    | some file => if p.stray then .refused else .command (command file p)
    | none => .refused
  | .word s :: rest, p =>
    if p.file.isNone then readArguments command rest { p with file := some s, atFile := true }
    else readArguments command rest { p with stray := true, atFile := false }
  | .dashes :: rest, p =>
    let stray := p.stray || (p.file.isSome && !p.atFile)
    readArguments command rest { p with stray, atFile := false }
  | .letter rest :: _, _ => helpReading rest
  | .flag .help value :: _, _ => if value.isNone then .help else .refused
  | .flag .stock (some s) :: rest, p =>
    readArguments command rest { p with stock := s, atFile := false }
  | .flag .stock none :: .word s :: rest, p =>
    readArguments command rest { p with stock := s, atFile := false }
  | .flag .details none :: rest, p =>
    readArguments command rest { p with details := true, atFile := false }
  | .flag .live none :: rest, p =>
    readArguments command rest { p with live := true, atFile := false }
  | .flag _ _ :: _, _ => .refused
  | .unknown :: rest, p => readArguments command rest { p with stray := true, atFile := false }

def readCommand (flags : List Flag) (command : String → Progress → Command)
    (args : List String) : Reading :=
  match Token.ofTexts flags args with
  | some tokens => readArguments command tokens {}
  | none => .refused

def readNamed (name : String) (args : List String) : Reading :=
  match name with
  | "validate" => readCommand [.help, .stock] (fun file p => .validate file p.stock) args
  | "run-once" =>
    readCommand [.help, .stock, .details, .live]
      (fun file p => .runOnce file p.stock p.details p.live) args
  | _ => .refused

def Reading.afterStray : Reading → Reading
  | .help => .help
  | _ => .refused

def Reading.ofArguments : List String → Reading
  | [] => .refused
  | text :: rest =>
    if text == "--" then .refused
    else match Token.ofText [.help] text with
      | some (.word name) => readNamed name rest
      | some (.letter rest) => helpReading rest
      | some (.flag _ value) => if value.isNone then .help else .refused
      | _ => (Reading.ofArguments rest).afterStray

end TradingRules.CommandLine
