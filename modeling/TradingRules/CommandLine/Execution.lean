import TradingRules.CommandLine.Arguments
import TradingRules.CommandLine.Folder
import TradingRules.Exchange.Provider
import TradingRules.Supervisor.OneShot
import TradingRules.Text.Character

/-!
# Execution of commands

A command reads a file with a logic, which is either a saved one with its stock or the two graphs
alone. It is compiled only, or run once with the data of the exchange. A terminal shows lines and
has the way to the exchange; the exit code is zero if all went well, one if the logic is at fault,
and two if it could not be read or the arguments are incomplete.
-/

namespace TradingRules.CommandLine

def FileError.message (name : String) : FileError → String
  | missing => s!"[Errno 2] No such file or directory: {Text.quoted name}"
  | denied => s!"[Errno 13] Permission denied: {Text.quoted name}"
  | notDirectory => s!"[Errno 20] Not a directory: {Text.quoted name}"
  | directory => s!"[Errno 21] Is a directory: {Text.quoted name}"
  | nameTooLong => s!"[Errno 36] File name too long: {Text.quoted name}"
  | nullCharacter => "embedded null byte"
  | unencodable halves => Fault.halvesMessage halves
  | malformed => s!"{Text.quoted name} is not encoded as UTF-8"

/-- What commands run at: the exchange, and lines that are shown. -/
structure Terminal (σ : Type) where
  client : Exchange.Client
  link : Exchange.Link σ
  display : String → σ → σ

/-- A logic from a file, and its stock if the file names one. -/
structure Document where
  logic : Value
  stock : Value

namespace Document

/-- A saved logic holds its graphs as data; anything else is taken for the graphs. -/
def ofValue (v : Value) : Document :=
  match v with
  | .object fields =>
    match Fields.get fields "data" with
    | .object data => ⟨.object data, (Fields.get fields "stock").orElse (.text "")⟩
    | _ => ⟨v, .text ""⟩
  | _ => ⟨v, .text ""⟩

def read (text : String) : Outcome Document :=
  match Json.read (Text.ofFile text) with
  | .ok v => .ok (ofValue v)
  | .error e => .error (.badJson e)

end Document

def outlineText (c : Condition) : String :=
  " -> ".intercalate (c.outline.map fun (kind, operator) =>
    match operator with
    | some operator =>
      if operator.isTruthy then s!"{kind.name}({operator.shown})" else kind.name
    | none => kind.name)

def summary (c : CompiledLogic) : List String :=
  ["Valid",
    s!"  buy : {outlineText c.buy}",
    s!"  sell: {outlineText c.sell}",
    s!"  buy order : {c.buyOrder.toValue.written}",
    s!"  sell order: {c.sellOrder.toValue.written}"]

def decisionText (d : Decision) : String :=
  s!"buy={(Value.bool d.buy).written} sell={(Value.bool d.sell).written}"

namespace Terminal

variable {σ : Type} (terminal : Terminal σ)

def showAll (lines : List String) (s : σ) : σ :=
  lines.foldl (fun s line => terminal.display line s) s

def validate (logic : Value) (s : σ) : Outcome Nat × σ :=
  match CompiledLogic.ofLogic logic with
  | .ok c => (.ok 0, terminal.showAll (summary c) s)
  | .error (.compile e) => (.ok 1, terminal.display s!"Invalid: {e.message}" s)
  | .error e => (.error e, s)

/-- A scene in which entries of the log are shown. Orders are placed only on demand, and only with
credentials. -/
def scene (live : Bool) : Supervisor.Scene σ where
  source := some (terminal.client.source terminal.link)
  broker := if live && terminal.client.credentials.isSome then
      some (terminal.client.broker terminal.link)
    else none
  log title message s := terminal.display s!"[{title}] {message}" s

def runOnce (stock logic : Value) (details live : Bool) (s : σ) : Nat × σ :=
  if stock.isTruthy then
    let scene := terminal.scene live
    match scene.runOnce scene.waitForAll stock logic details s with
    | (some decision, _, s) => (0, terminal.display (decisionText decision) s)
    | (none, _, s) => (1, s)
  else (2, terminal.display "A market code is required (--stock KRW-BTC)" s)

def executeText (c : Command) (text : String) (s : σ) : Outcome Nat × σ :=
  match Document.read text with
  | .error e => (.error e, s)
  | .ok document =>
    match c with
    | .validate _ _ => terminal.validate document.logic s
    | .runOnce _ stock details live =>
      let (code, s) := terminal.runOnce ((Value.text stock).orElse document.stock) document.logic
        details live s
      (.ok code, s)

def refuse (message : String) (s : σ) : Outcome Nat × σ :=
  (.ok 2, terminal.display s!"Error: {message}" s)

/-- Executes a command with what its file holds. Values that are not acceptable are shown; any other
fault is left over. -/
def execute (c : Command) (contents : Except FileError String) (s : σ) : Outcome Nat × σ :=
  match contents with
  | .error e => terminal.refuse (e.message c.file) s
  | .ok text =>
    match terminal.executeText c text s with
    | (.error e, s) => if e.isBadValue then terminal.refuse e.message s else (.error e, s)
    | done => done

/-- Does what arguments ask for, where files are read as they are needed. -/
def run (contents : String → Except FileError String) (args : List String) (s : σ) :
    Outcome Nat × σ :=
  match Reading.ofArguments args with
  | .help => (.ok 0, s)
  | .refused => (.ok 2, s)
  | .command c => terminal.execute c (contents c.file) s

end Terminal

end TradingRules.CommandLine
