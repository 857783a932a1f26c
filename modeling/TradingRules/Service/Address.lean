import TradingRules.Number.Numeral
import TradingRules.Text.Utf8

/-!
# Addresses of the service

Which route a verb and an address lead to. Of an address only the path and the query count. The path
is divided by slashes after its percent signs were resolved; the query behind a question mark has
named parameters.
-/

namespace TradingRules.Service

/-- A route; most of them concern one logic. -/
inductive Route where
  | health
  | list
  | create
  | reorder
  | running
  | stopAll
  /-- A file; there are none. -/
  | file
  | get (id : String)
  | update (id : String)
  | delete (id : String)
  | validate (id : String)
  | start (id : String)
  | stop (id : String)
  | runOnce (id : String)
  | logs (id : String)
  deriving DecidableEq, Repr, Inhabited

def namedRoutes : String → List (String × Route)
  | "reorder" => [("POST", .reorder)]
  | "running" => [("GET", .running)]
  | "stop-all" => [("POST", .stopAll)]
  | _ => []

def logicRoutes (id : String) : String → List (String × Route)
  | "validate" => [("POST", .validate id)]
  | "start" => [("POST", .start id)]
  | "stop" => [("POST", .stop id)]
  | "run-once" => [("POST", .runOnce id)]
  | "logs" => [("GET", .logs id)]
  | _ => []

/-- Is it the name of a file, which has a first character and stands on one line behind it? -/
def isFileName (parts : List String) : Bool :=
  match ("/".intercalate parts).toList with
  | first :: rest => first != '/' && !rest.contains '\n'
  | [] => false

def routesAt : List String → List (String × Route)
  | ["health"] => [("GET", .health)]
  | ["api", "logics"] => [("GET", .list), ("POST", .create)]
  | ["api", "logics", id] =>
    if id.isEmpty then []
    else namedRoutes id ++ [("GET", .get id), ("PUT", .update id), ("DELETE", .delete id)]
  | ["api", "logics", id, part] => if id.isEmpty then [] else logicRoutes id part
  | "static" :: name => if isFileName name then [("GET", .file)] else []
  | _ => []

inductive Destination where
  | route (r : Route)
  | options
  | wrongVerb
  /-- The path has a route when slashes in a row count as one. -/
  | moved
  | unknown
  deriving DecidableEq, Repr, Inhabited

/-- The verb whose routes serve a verb: what can be got can be asked for its head alone. -/
def servingVerb (verb : String) : String :=
  if verb == "HEAD" then "GET" else verb

def destinationAmong (verb : String) (routes : List (String × Route)) : Destination :=
  if routes.isEmpty then .unknown
  else if verb == "OPTIONS" then .options
  else match routes.find? fun r => r.1 == servingVerb verb with
    | some (_, r) => .route r
    | none => .wrongVerb

def mergeSlashes : List Char → List Char
  | '/' :: '/' :: rest => mergeSlashes ('/' :: rest)
  | c :: rest => c :: mergeSlashes rest
  | [] => []

def parts (path : List Char) : List String :=
  (path.splitOn '/').map String.ofList

/-- The destination of a verb and a path without its slashes at the front. -/
def destinationOf (verb : String) (path : List Char) : Destination :=
  match destinationAmong verb (routesAt (parts path)) with
  | .unknown =>
    match destinationAmong verb (routesAt (parts (mergeSlashes path))) with
    | .route _ => .moved
    | .options => .moved
    | d => d
  | d => d

structure Address where
  path : String
  query : String
  deriving DecidableEq, Repr, Inhabited

namespace Address

/-- Drops blanks and control characters at the front, and tabs and line breaks everywhere. -/
def clean (s : List Char) : List Char :=
  (s.dropWhile fun c => c.toNat ≤ 0x20).filter fun c => c != '\t' && c != '\n' && c != '\r'

def isProtocolChar (c : Char) : Bool :=
  c.isAlphanum || c == '+' || c == '-' || c == '.'

/-- Drops the name of a protocol, which starts with a letter and ends with a colon. -/
def dropProtocol (s : List Char) : List Char :=
  match s.span (· != ':') with
  | (c :: name, ':' :: rest) => if c.isAlpha && name.all isProtocolChar then rest else s
  | _ => s

/-- Drops the name of a host, which stands behind two slashes. -/
def dropHost : List Char → List Char
  | '/' :: '/' :: rest => rest.dropWhile fun c => c != '/' && c != '?' && c != '#'
  | s => s

/-- Splits what is behind the host at the question mark; what follows a hash sign is dropped. -/
def split (s : List Char) : List Char × List Char :=
  let chars := (dropHost (dropProtocol (clean s))).takeWhile (· != '#')
  (chars.takeWhile (· != '?'), (chars.dropWhile (· != '?')).drop 1)

/-- The path and the query of an address. What is left of it is split once more, since it may look
like an address of its own. -/
def ofText (s : String) : Address :=
  let (path, query) := split s.toList
  let (path, query) := split (path ++ '?' :: query)
  { path := String.ofList path, query := String.ofList query }

def destination (a : Address) (verb : String) : Destination :=
  destinationOf verb.toUpper ((Text.percentDecode a.path).toList.dropWhile (· == '/'))

def queryPart (s : List Char) : String :=
  Text.percentDecode (String.ofList (s.map fun c => if c == '+' then ' ' else c))

def parameter (s : String) : String × String :=
  let chars := s.toList
  (queryPart (chars.takeWhile (· != '=')), queryPart ((chars.dropWhile (· != '=')).drop 1))

def parameters (a : Address) : List (String × String) :=
  ((a.query.splitOn "&").filter fun s => !s.isEmpty).map parameter

/-- The whole number in the first parameter of a name, if it is one. -/
def wholeNumber? (a : Address) (name : String) : Option Int :=
  (a.parameters.find? fun p => p.1 == name).bind fun p => match Number.readWhole p.2 with
    | .ok n => some n
    | .error _ => none

end Address

end TradingRules.Service
