import TradingRules.CommandLine.Execution

/-!
# Command line

Reads files and keys and shows lines. There is no network, so every request to the exchange fails.
-/

namespace TradingRules.CommandLine

/-- A link that brings nothing; what stands before the state is a counter. -/
def offline : Exchange.Link (List String) where
  send _ lines := (.error "no network", lines)
  nonce lines := (toString lines.length, lines)

def FileError.ofFailure : IO.Error → FileError
  | .permissionDenied _ _ _ => .denied
  | .inappropriateType _ _ _ => .directory
  | _ => .missing

def readText (name : String) : IO (Except FileError String) := do
  try
    let bytes ← IO.FS.readBinFile name
    return match String.fromUTF8? bytes with
      | some text => .ok text
      | none => .error .malformed
  catch e => return .error (FileError.ofFailure e)

/-- The file that arguments name, if they are complete. -/
def Reading.file? : Reading → Option String
  | command c => some c.file
  | _ => none

end TradingRules.CommandLine

open TradingRules CommandLine in
/-- Executes the command that the arguments ask for; the exit code of a fault is one. -/
def main (args : List String) : IO UInt32 := do
  let access := (← IO.getEnv "UPBIT_ACCESS_KEY").getD ""
  let secret := (← IO.getEnv "UPBIT_SECRET_KEY").getD ""
  let terminal : Terminal (List String) :=
    { client := .ofSettings (.text access) (.text secret) "" .null
      link := offline
      display line lines := lines ++ [line] }
  let contents ← match (Reading.ofArguments args).file? with
    | some name => readText name
    | none => pure (.error .missing)
  let (result, lines) := terminal.run (fun _ => contents) args []
  lines.forM IO.println
  match result with
  | .ok code => return code.toUInt32
  | .error e =>
    IO.eprintln s!"{e.kind}: {e.message}"
    return 1
