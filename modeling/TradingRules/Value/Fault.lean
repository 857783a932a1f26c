import TradingRules.Logic.CompileError
import TradingRules.Number.Numeral

/-!
# Faults

Everything that can go wrong: a value of the wrong shape, a number that cannot be read or does not
fit, a logic that does not compile, market data that is missing, a request that got no answer, and
failures that collaborators report. Every fault has the name of its kind and a message.
-/

namespace TradingRules

inductive JsonError where
  /-- What is wrong, and where: the line and the column counted from one, and the offset. -/
  | malformed (detail : String) (line column offset : Nat)
  /-- A whole number has more digits than are read. -/
  | tooLong (digits : Nat)
  | tooDeep (container : String)
  deriving DecidableEq, Repr

namespace JsonError

def kind : JsonError → String
  | malformed _ _ _ _ => "JSONDecodeError"
  | tooLong _ => "ValueError"
  | tooDeep _ => "RecursionError"

/-- Is the text itself not acceptable? One that is nested too deeply may well be. -/
def isBadValue : JsonError → Bool
  | tooDeep _ => false
  | _ => true

def message : JsonError → String
  | malformed detail line column offset =>
    s!"{detail}: line {line} column {column} (char {offset})"
  | tooLong digits => Number.tooLongMessage digits
  | tooDeep container =>
    s!"maximum recursion depth exceeded while decoding a JSON {container} from a unicode string"

end JsonError

inductive Fault where
  | noAttribute (kind name : String)
  | wrongKind (message : String)
  /-- The value of a lookup is missing. -/
  | missingKey (key : Value)
  | emptySequence
  | overflow (message : String)
  | badValue (message : String)
  | badJson (error : JsonError)
  /-- A text has halves of surrogate pairs, of which no bytes can be made. -/
  | unencodable (halves : Text.HalfRun)
  | unfitKey
  | compile (error : CompileError)
  | dataNotReady (unit length : String)
  | marketData (message : String)
  | interpreterState (message : String)
  | isolationBoundary (message : String)
  | requestTimeout (method : String)
  | logicNotFound (id : Value)
  | misuse (message : String)
  /-- The exchange refused a request or could not be reached. -/
  | exchange (message : String) (status payload : Value)
  /-- A failure that a collaborator reports under a name of its own. -/
  | reported (kind message : String)
  deriving Inhabited

namespace Fault

def kind : Fault → String
  | noAttribute _ _ => "AttributeError"
  | wrongKind _ => "TypeError"
  | missingKey _ => "KeyError"
  | emptySequence => "IndexError"
  | overflow _ => "OverflowError"
  | badValue _ => "ValueError"
  | badJson error => error.kind
  | unencodable _ => "UnicodeEncodeError"
  | unfitKey => "InvalidKeyError"
  | compile error => error.defect.reason
  | dataNotReady _ _ => "DataNotReadyError"
  | marketData _ => "MarketDataError"
  | interpreterState _ => "InterpreterStateError"
  | isolationBoundary _ => "IsolationBoundaryError"
  | requestTimeout _ => "RequestTimeoutError"
  | logicNotFound _ => "LogicNotFoundError"
  | misuse _ => "RuntimeError"
  | exchange _ _ _ => "UpbitAPIError"
  | reported kind _ => kind

/-- Which halves in a text keep it from being made bytes, the last of them by its own place. -/
def halvesMessage (h : Text.HalfRun) : String :=
  let digits := String.ofList (Text.hexDigits 4 h.first)
  let last := h.stop - 1
  let what :=
    if last = h.start then s!"character '\\u{digits}' in position {h.start}"
    else s!"characters in position {h.start}-{last}"
  s!"'utf-8' codec can't encode {what}: surrogates not allowed"

def message : Fault → String
  | noAttribute kind name => s!"'{kind}' object has no attribute '{name}'"
  | wrongKind message => message
  | missingKey key => key.written
  | emptySequence => "pop from an empty deque"
  | overflow message => message
  | badValue message => message
  | badJson error => error.message
  | unencodable halves => halvesMessage halves
  | unfitKey => "The specified key is an asymmetric key or x509 certificate and should not be " ++
      "used as an HMAC secret."
  | compile error => error.message
  | dataNotReady unit length => s!"HighestPrice data not ready yet for {unit}-{length}"
  | marketData message => message
  | interpreterState message => message
  | isolationBoundary message => message
  | requestTimeout method => s!"API request timeout: {method}"
  | logicNotFound id => id.written
  | misuse message => message
  | exchange message _ _ => message
  | reported _ message => message

/-- Faults that mean a value is not acceptable, whatever their kind. -/
def isBadValue : Fault → Bool
  | badValue _ => true
  | badJson error => error.isBadValue
  | unencodable _ => true
  | reported kind _ => kind == "ValueError" || kind == "JSONDecodeError"
  | _ => false

def isWrongKind : Fault → Bool
  | wrongKind _ => true
  | reported kind _ => kind == "TypeError"
  | _ => false

def isExchange : Fault → Bool
  | exchange _ _ _ => true
  | _ => false

def fieldsOf (v : Value) : Fault :=
  noAttribute v.kindName "get"

def unhashable (v : Value) : Fault :=
  wrongKind s!"unhashable type: '{v.kindName}'"

def notComparable (sign : String) (a b : Value) : Fault :=
  wrongKind s!"'{sign}' not supported between instances of '{a.kindName}' and '{b.kindName}'"

def notOperable (sign : String) (a b : Value) : Fault :=
  wrongKind s!"unsupported operand type(s) for {sign}: '{a.kindName}' and '{b.kindName}'"

def notIterable (v : Value) : Fault :=
  wrongKind s!"'{v.kindName}' object is not iterable"

/-- A whole number is too large for a double. -/
def tooLargeForFloat : Fault :=
  overflow "int too large to convert to float"

end Fault

abbrev Outcome := Except Fault

end TradingRules
