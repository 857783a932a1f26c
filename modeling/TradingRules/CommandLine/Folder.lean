import TradingRules.Text.Quoted

/-!
# Files by their paths

A path is read from left to right: every part but the last one has to name a directory, one point
stands for the directory itself and two points for the one above it. A path that starts with a slash
starts at the root, any other one where the program runs.
-/

namespace TradingRules.CommandLine

inductive FileError where
  | missing | directory | notDirectory | nameTooLong | denied | malformed
  /-- The path has a null character. -/
  | nullCharacter
  /-- The path has halves of surrogate pairs, of which no bytes can be made. -/
  | unencodable (halves : Text.HalfRun)
  deriving DecidableEq, Repr, Inhabited

inductive Entry where
  | directory
  | file (text : String)
  deriving DecidableEq, Repr, Inhabited

/-- Directories and files by their paths from the root, and where relative paths start. -/
structure Folder where
  here : List String
  entries : List (List String × Entry)

namespace Folder

def directoriesTo (path : List String) : List (List String × Entry) :=
  (List.range (path.length + 1)).map fun n => (path.take n, .directory)

/-- A folder with texts by their names in it, and with the root and the directories above it. -/
def ofFiles (here : List String) (files : List (String × String)) : Folder where
  here
  entries := directoriesTo here ++ files.flatMap fun (name, text) =>
    let path := here ++ name.splitOn "/"
    directoriesTo path.dropLast ++ [(path, .file text)]

def maxName : Nat := 255

def maxPath : Nat := 4095

def follow (f : Folder) (base : List String) : List String → Except FileError Entry
  | [] => .ok .directory
  | "" :: rest => f.follow base rest
  | "." :: rest => f.follow base rest
  | ".." :: rest => f.follow base.dropLast rest
  | name :: rest =>
    if name.utf8ByteSize > maxName then .error .nameTooLong
    else match f.entries.lookup (base ++ [name]) with
      | none => .error .missing
      | some .directory => f.follow (base ++ [name]) rest
      | some (.file text) => if rest.isEmpty then .ok (.file text) else .error .notDirectory

/-- The first row of halves in a path with one that does not stand for a byte. -/
def unencodable? (path : String) : Option Text.HalfRun :=
  let chars := path.toList
  let fits (c : Char) : Bool := match Text.half? c with
    | some unit => 0xdc80 ≤ unit && unit ≤ 0xdcff
    | none => true
  let before := chars.takeWhile fits
  let halves := (chars.drop before.length).takeWhile fun c => (Text.half? c).isSome
  halves.head?.map fun c => ⟨before.length, before.length + halves.length, Text.codePoint c⟩

def read (f : Folder) (path : String) : Except FileError String := do
  if let some halves := unencodable? path then throw (.unencodable halves)
  if path.contains '\x00' then throw .nullCharacter
  if path.isEmpty then throw .missing
  if path.utf8ByteSize > maxPath then throw .nameTooLong
  match ← f.follow (if path.startsWith "/" then [] else f.here) (path.splitOn "/") with
  | .directory => throw .directory
  | .file text => return text

end Folder

end TradingRules.CommandLine
