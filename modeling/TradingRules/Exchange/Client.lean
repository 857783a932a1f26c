import TradingRules.Exchange.Token
import TradingRules.Json.Reader
import TradingRules.Value.Arithmetic
import TradingRules.Value.Item

/-!
# Client of the exchange

Requests go over a *link*, which either brings a response or tells why there is none. A response
with a status from 400 to 599 is a fault of the exchange with the status and what the response said;
any other response must hold JSON. Requests to the private part are signed. Prices and volumes in
them are plain decimals with at most eight digits behind the point, without zeros at the end and
without an exponent.
-/

namespace TradingRules.Exchange

def dropTrailing (c : Char) (s : List Char) : List Char :=
  (s.reverse.dropWhile (· == c)).reverse

/-- A decimal with a point, without the zeros behind the point and without a point at the end. -/
def plainDecimal (s : List Char) : String :=
  let rest := dropTrailing '.' (dropTrailing '0' s)
  String.ofList (if rest.isEmpty then ['0'] else rest)

def amountText (v : Value) : Outcome String :=
  v.toFloat.map fun x => plainDecimal (Number.fixedText 8 x).toList

inductive Verb where
  | get | post
  deriving DecidableEq, Repr, Inhabited

def Verb.name : Verb → String
  | get => "GET"
  | post => "POST"

structure Request where
  verb : Verb
  url : String
  /-- The parameters in the address, null if there are none. -/
  params : Value := .null
  /-- The JSON body, null if there is none. -/
  body : Value := .null
  token : Option Token := none
  timeout : Value
  deriving Inhabited

structure Response where
  status : Value
  text : String
  deriving Inhabited

def isFailure (status : Value) : Outcome Bool := do
  if ← Value.compareBy .lessEqual (.int 400) status then
    Value.compareBy .less status (.int 600)
  else return false

/-- The way to the exchange, and numbers to be used once. -/
structure Link (σ : Type) where
  send : Request → σ → Except String Response × σ
  nonce : σ → String × σ

abbrev Action (σ α : Type) := ExceptT Fault (StateM σ) α

def Action.ofStep {σ α : Type} (step : σ → α × σ) : Action σ α :=
  fun s => let (a, s) := step s; (.ok a, s)

structure Client where
  credentials : Option Credentials := none
  baseUrl : String := "https://api.upbit.com/v1"
  timeout : Value := .real 10.0

namespace Client

/-- A client by settings, where one that counts as false stands for the usual setting. Without key
or secret there are no credentials. -/
def ofSettings (access secret : Value) (baseUrl : String) (timeout : Value) : Client :=
  let usual : Client := {}
  { credentials := if access.isTruthy && secret.isTruthy then some ⟨access, secret⟩ else none
    baseUrl := String.ofList (dropTrailing '/'
      (if baseUrl.isEmpty then usual.baseUrl else baseUrl).toList)
    timeout := timeout.orElse usual.timeout }

/-- The fault of a client without credentials. -/
def unsignedFault : Fault :=
  .exchange "Upbit credentials missing (UPBIT_ACCESS_KEY / UPBIT_SECRET_KEY)" .null .null

def signedFields (params : Value) : Outcome Fields :=
  if params.isTruthy then
    match params with
    | .object fields => .ok fields
    | _ => .error (.wrongKind "not a valid non-string sequence or mapping object")
  else .ok []

def contents (r : Response) : Outcome Value := do
  let content := (Json.read r.text).mapError Fault.badJson
  if ← isFailure r.status then
    let payload ← tryCatch content fun e =>
      if e.isBadValue then .ok (.text r.text) else .error e
    .error (.exchange s!"Upbit API error: {r.status.shown} {payload.shown}" r.status payload)
  else content

def exchange {σ : Type} (link : Link σ) (r : Request) : Action σ Value := do
  match ← Action.ofStep (link.send r) with
  | .error reason => throw (.exchange s!"Upbit request failed: {reason}" .null .null)
  | .ok response => (contents response : Outcome Value)

section

variable {σ : Type} (c : Client) (link : Link σ)

def createToken (params : Value) : Action σ Token := do
  match c.credentials with
  | none => throw unsignedFault
  | some keys =>
    let nonce ← Action.ofStep link.nonce
    let fields ← (signedFields params : Outcome Fields)
    (do Token.sign keys.secret (← claimsOf keys.access nonce fields) : Outcome Token)

def url (path : String) : String :=
  c.baseUrl ++ "/" ++ path

def ask (path : String) (params : Fields) : Action σ Value :=
  exchange link
    { verb := .get, url := c.url path, params := .object params, timeout := c.timeout }

def fetchAccounts : Action σ Value := do
  let token ← c.createToken link .null
  exchange link
    { verb := .get, url := c.url "accounts", token := some token, timeout := c.timeout }

def sendOrder (body : Fields) : Action σ Value := do
  let token ← c.createToken link (.object body)
  exchange link
    { verb := .post, url := c.url "orders", body := .object body, token := some token
      timeout := c.timeout }

end

end Client

end TradingRules.Exchange
