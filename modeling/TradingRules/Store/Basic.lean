import TradingRules.Graph.Basic
import TradingRules.Json.Reader
import TradingRules.Json.Writer
import TradingRules.Text.Character
import TradingRules.Value.Item
import TradingRules.Value.Sorted

/-!
# Store of logics

Logics are kept in a directory: one file for each logic, and an index with an entry for each of
them. Files hold JSON. A file that is missing or malformed counts as absent.
-/

namespace TradingRules

/-- A directory of text files; before the first file there is no directory. -/
structure Store where
  files : Option (List (String × String)) := none
  deriving Inhabited

namespace Store

def read? (s : Store) (name : String) : Option String :=
  ((s.files.getD []).find? (·.1 == name)).map (·.2)

/-- Puts a file in place of one of that name. -/
def write (s : Store) (name text : String) : Store :=
  let files := s.files.getD []
  { files := some (if files.any (·.1 == name)
      then files.map fun f => if f.1 == name then (name, text) else f
      else files ++ [(name, text)]) }

def remove (s : Store) (name : String) : Store :=
  { files := s.files.map (·.filter fun f => f.1 != name) }

/-- The names of all files in order, if there is a directory. -/
def names? (s : Store) : Option (List String) :=
  s.files.map fun files => (files.map (·.1)).mergeSort fun a b => a ≤ b

/-- The value in a file. A file that holds no JSON counts as absent, but one that is nested too
deeply does not. -/
def value? (s : Store) (name : String) : Outcome (Option Value) :=
  match s.read? name with
  | none => .ok none
  | some text => match Json.read (Text.ofFile text) with
    | .ok v => .ok (some v)
    | .error e => if e.isBadValue then .ok none else .error (.badJson e)

/-- Steps on a store that can fail half-way. -/
abbrev Action (α : Type) := ExceptT Fault (StateM Store) α

def draftOf (name : String) : String :=
  name ++ ".tmp"

/-- Puts a value into a file. A value that cannot be written leaves a draft and the file as it
was. -/
def put (name : String) (v : Value) : Action Unit := do
  match Json.writeEncodable .indented v with
  | .ok text => modify fun s => (s.remove (draftOf name)).write name text
  | .error (before, halves) =>
    modify (·.write (draftOf name) before)
    throw (.unencodable halves)

def indexFile : String := "index.json"

def index (s : Store) : Outcome (List Value) := do
  match ← s.value? indexFile with
  | some (.list entries) => return entries
  | _ => return []

def putIndex (entries : List Value) : Action Unit :=
  put indexFile (.list entries)

def isIdChar (c : Char) : Bool :=
  c.isAlphanum || c == '_' || c == '.' || c == '-'

/-- Ids are made of letters, digits, underscores, points and hyphens; one line break may follow. -/
def isId (s : String) : Bool :=
  let chars := s.toList
  let body := if chars.getLast? = some '\n' then chars.dropLast else chars
  !body.isEmpty && body.all isIdChar

def fileOf (id : Value) : Outcome String :=
  match id with
  | .text s =>
    if isId s then .ok (s ++ ".json") else .error (.badValue s!"Invalid logic id: {id.written}")
  | id =>
    if id.isTruthy then
      .error (.wrongKind s!"expected string or bytes-like object, got '{id.kindName}'")
    else .error (.badValue s!"Invalid logic id: {id.written}")

def orderOf (entry : Value) : Outcome Value := do
  return (Fields.get? (← entry.asFields) "order").getD (.int 0)

def idOf (entry : Value) : Outcome Value := do
  return Fields.get (← entry.asFields) "id"

def sortByOrder {α : Type} (entries : List (Value × α)) : Outcome (List (Value × α)) := do
  let keyed ← entries.mapM fun e => return (← orderOf e.1, e)
  return (← Value.sortByKey keyed).map (·.2)

def list (s : Store) : Outcome (List Value) := do
  return (← sortByOrder ((← s.index).map fun e => (e, ()))).map (·.1)

def entry (id name stock order : Value) : Value :=
  .object [("id", id), ("name", name), ("stock", stock), ("order", order)]

def newId (fresh : String) : Value :=
  .text ("logic-" ++ fresh)

def create (fresh : String) (name stock data : Value) : Action Value := do
  let entries ← (← get).index
  let id := newId fresh
  let name := name.orElse (.text "Untitled")
  let stock := stock.orElse (.text "")
  let data := data.orElse (.object [])
  let logic := .object [("id", id), ("name", name), ("stock", stock), ("data", data)]
  let file ← fileOf id
  put file logic
  putIndex (entries ++ [entry id name stock (.int entries.length)])
  return logic

def load (s : Store) (id : Value) : Outcome Value := do
  match ← s.value? (← fileOf id) with
  | none => .error (.logicNotFound id)
  | some .null => .error (.logicNotFound id)
  | some logic => return logic

def update (logic : Value) (key : String) : Value → Outcome Value
  | .null => .ok logic
  | value => logic.withItem key value

/-- Takes name and stock of a logic over into its entry, or adds an entry if there is none. -/
def updateEntries (id logic : Value) (count : Nat) : List Value → Outcome (List Value)
  | [] => do
    let name ← logic.item "name"
    let stock ← logic.item "stock"
    return [entry id name stock (.int count)]
  | e :: rest => do
    if (← idOf e) == id then
      let e ← e.withItem "name" (← logic.item "name")
      let e ← e.withItem "stock" (← logic.item "stock")
      return e :: rest
    else return e :: (← updateEntries id logic count rest)

/-- Replaces those parts of a logic that are not null. -/
def save (id name stock data : Value) : Action Value := do
  let logic ← (← get).load id
  let logic ← update logic "name" name
  let logic ← update logic "stock" stock
  let logic ← update logic "data" data
  let file ← fileOf id
  put file logic
  let entries ← (← get).index
  let entries ← updateEntries id logic entries.length entries
  putIndex entries
  return logic

def renumber (entries : List Value) (places : List Nat) : List Value :=
  entries.zipIdx.map fun (e, i) => match e with
    | .object fields => .object (Fields.set fields "order" (.int (places.idxOf i)))
    | e => e

/-- Removes a logic and its entry, and tells whether there was either. -/
def delete (id : Value) : Action Bool := do
  let file ← fileOf id
  let entries ← (← get).index
  let kept ← entries.filterM fun e => return !((← idOf e) == id)
  let present := ((← get).read? file).isSome
  modify (·.remove file)
  let sorted ← sortByOrder kept.zipIdx
  putIndex (renumber kept (sorted.map (·.2)))
  return present || kept.length != entries.length

/-- Adds an entry under its id; a later entry of an id takes the place of the earlier one. -/
def addById (found : List (Value × Value)) (e : Value) : Outcome (List (Value × Value)) := do
  let id ← idOf e
  if !id.isKey then throw (.unhashable id)
  if found.any fun f => f.1.isSame id then
    return found.map fun f => if f.1.isSame id then (f.1, e) else f
  else return found ++ [(id, e)]

/-- Takes entries out in the order of ids; unknown ids are passed over. The entries that are left
come second. -/
def pickByIds : List Value → List (Value × Value) → Outcome (List Value × List (Value × Value))
  | [], left => .ok ([], left)
  | id :: ids, left => do
    if !id.isKey then throw (.unhashable id)
    match left.find? fun f => f.1.isSame id with
    | none => pickByIds ids left
    | some (_, e) =>
      let (picked, left) ← pickByIds ids (left.filter fun f => !f.1.isSame id)
      return (e :: picked, left)

def numbered (entries : List Value) : List Value :=
  renumber entries (List.range entries.length)

/-- Puts the entries of the listed ids first; the others keep their order behind them. -/
def reorder (ids : Value) : Action (List Value) := do
  let entries ← (← get).index
  let byId ← (entries.foldlM addById [] : Outcome (List (Value × Value)))
  let (picked, left) ← pickByIds (← ids.items) byId
  let rest ← sortByOrder (left.map fun f => (f.2, ()))
  let entries := numbered (picked ++ rest.map (·.1))
  putIndex entries
  return entries

end Store

end TradingRules
