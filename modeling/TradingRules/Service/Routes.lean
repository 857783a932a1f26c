import TradingRules.Service.Address
import TradingRules.Service.Routine
import TradingRules.Text.Encoding
import TradingRules.Text.Lower

/-!
# Routes of the service

Every route is a routine that ends with a response. A logic that is missing, or whose id is none,
gives status 404; faults that a route does not expect give status 500.
-/

namespace TradingRules.Service

/-- A response; one without a body holds no JSON. -/
structure Response where
  status : Nat
  body : Option Value := none
  deriving Inhabited

namespace Response

def json (status : Nat) (fields : Fields) : Response :=
  { status, body := some (.object fields) }

def refusal (status : Nat) (message : String) : Response :=
  json status [("error", .text message)]

def notFound (id : String) : Response :=
  refusal 404 s!"Logic not found: {id}"

def bare (status : Nat) : Response :=
  { status }

end Response

open Response (json refusal notFound)

/-- Does a fault mean that there is no such logic? -/
def isMissing (e : Fault) : Bool :=
  match e with
  | .logicNotFound _ => true
  | e => e.isBadValue

/-- Goes on with the result of a step; faults of a certain kind mean that there is no such logic. -/
def orNotFound {α : Type} (id : String) (missing : Fault → Bool) (step : Handler α)
    (next : α → Handler Response) : Handler Response := do
  match ← attempt step with
  | .ok a => next a
  | .error e => if missing e then return notFound id else throw e

def orExplain (step : Handler Response) : Handler Response := do
  match ← attempt step with
  | .ok r => return r
  | .error e => return refusal 500 e.message

def bodyField (body : Value) (key : String) : Handler Value := do
  return (← (body.asFields : Outcome Fields)).get key

/-- The routine of the question whether the service is up. -/
def health : Handler Response := do
  let running ← ((← ask .runningLogics).items : Outcome (List Value))
  return json 200 [("status", .text "ok"), ("message", .text "TradeBuilder backend is running"),
    ("running", .int running.length)]

/-- An entry of the index with the mark whether its logic is running. -/
def markRunning (entry : Value) : Handler Value := do
  let id ← bodyField entry "id"
  let running ← ask (.isRunning id)
  (entry.withItem "isRunning" running : Outcome Value)

def listLogics : Handler Response :=
  orExplain do
    let entries ← ((← ask .listLogics).items : Outcome (List Value))
    return { status := 200, body := some (.list (← entries.mapM markRunning)) }

/-- Creates a logic from a body, which may be one that cannot be read. -/
def createLogic (body : Outcome Value) : Handler Response :=
  orExplain do
    let fields ← (body >>= Value.asFields : Outcome Fields)
    let stock := (fields.get? "stock").getD (.text "")
    let logic ← ask
      (.createLogic (fields.get "name") stock ((fields.get "data").orElse (.object [])))
    return json 201 [("success", .bool true), ("logic", logic)]

def reorderLogics (body : Value) : Handler Response := do
  match ← bodyField body "order" with
  | .list ids =>
    orExplain do
      let logics ← ask (.reorderLogics (.list ids))
      return json 200 [("success", .bool true), ("logics", logics)]
  | _ => return refusal 400 "'order' must be a list of logic ids"

def runningLogics : Handler Response := do
  return { status := 200, body := some (← ask .runningLogics) }

def stopAll : Handler Response := do
  let running ← ((← ask .runningLogics).items : Outcome (List Value))
  let _ ← ask .stopAll
  return json 200 [("success", .bool true), ("stopped", .int running.length)]

def getLogic (id : String) : Handler Response :=
  orNotFound id isMissing (ask (.loadLogic id)) fun logic => do
    let running ← ask (.isRunning (.text id))
    return { status := 200, body := some (← (logic.withItem "isRunning" running : Outcome Value)) }

def updateLogic (id : String) (body : Value) : Handler Response :=
  orExplain <| orNotFound id isMissing
    (do
      let fields ← (body.asFields : Outcome Fields)
      ask (.saveLogic id (fields.get "name") (fields.get "stock") (fields.get "data")))
    fun logic => return json 200 [("success", .bool true), ("logic", logic)]

def deleteLogic (id : String) : Handler Response := do
  let _ ← ask (.stopLogic id)
  orNotFound id Fault.isBadValue (ask (.deleteLogic id)) fun deleted => do
    if deleted.isTruthy then
      let _ ← ask (.clearLog id)
      return json 200 [("success", .bool true)]
    else return notFound id

/-- A field that counts as true, of the body or else of the saved logic. -/
def overridden (body logic : Value) (key : String) (default : Value) : Outcome Value := do
  let given := (← body.asFields).get key
  if given.isTruthy then return given
  else return ((← logic.asFields).get key).orElse default

/-- What to run: the saved graphs and stock, unless the body has others. -/
def payload (id : String) (body : Value) : Handler (Value × Value) := do
  let logic ← ask (.loadLogic id)
  let data ← (overridden body logic "data" (.object []) : Outcome Value)
  let stock ← (overridden body logic "stock" (.text "") : Outcome Value)
  return (data, stock)

/-- Tells whether a logic compiles, and to what. -/
def validate (id : String) (body : Value) : Handler Response :=
  orNotFound id isMissing (payload id body) fun (data, _) => do
    match CompiledLogic.ofLogic data with
    | .ok c => return json 200 [("valid", .bool true), ("buy", c.buy.outlineValue),
        ("sell", c.sell.outlineValue), ("buyOrder", c.buyOrder.toValue),
        ("sellOrder", c.sellOrder.toValue)]
    | .error (.compile e) => return json 200 [("valid", .bool false),
        ("reason", .text e.defect.reason), ("error", .text e.message), ("nodeId", e.defect.node)]
    | .error e => throw e

/-- A response about a logic without a stock. -/
def stockMissing : Response :=
  refusal 400 "A stock (market code) is required"

def intervalOf (body : Value) : Outcome Float := do
  (((← body.asFields).get? "interval").getD (.real Worker.usualInterval)).toFloat

def detailsOf (body : Value) : Handler Bool := do
  return (← bodyField body "logDetails").isTruthy

def launch (id : String) (stock data body : Value) (interval : Float) : Handler Response := do
  let started ← ask (.startLogic id stock data (← detailsOf body) interval)
  if started.isTruthy then
    return json 200 [("success", .bool true), ("running", ← ask (.runningLogic id))]
  else
    return json 409 [("error", .text "Logic could not be started"),
      ("logs", ← ask (.readLog id (.int 5)))]

def startLogic (id : String) (body : Value) : Handler Response :=
  orNotFound id isMissing (payload id body) fun (data, stock) => do
    if !stock.isTruthy then return stockMissing
    if (← ask (.isRunning (.text id))).isTruthy then
      return refusal 409 s!"Logic \"{id}\" is already running"
    match CompiledLogic.ofLogic data with
    | .error (.compile e) =>
      return json 400 [("error", .text e.message), ("reason", .text e.defect.reason)]
    | .error e => throw e
    | .ok _ =>
      match intervalOf body with
      | .ok interval => launch id stock data body interval
      | .error e =>
        if e.isBadValue || e.isWrongKind then
          return refusal 400 "'interval' must be a number of seconds"
        else throw e

def stopLogic (id : String) : Handler Response := do
  if (← ask (.stopLogic id)).isTruthy then return json 200 [("success", .bool true)]
  else
    let reason := s!"Logic \"{id}\" is not running"
    return json 404 [("success", .bool false), ("error", .text reason)]

def runOnce (id : String) (body : Value) : Handler Response :=
  orNotFound id isMissing (payload id body) fun (data, stock) => do
    if !stock.isTruthy then return stockMissing
    let result ← ask (.runOnce id stock data (← detailsOf body))
    let logs ← ask (.readLog id (.int 20))
    if result.isNull then return json 422 [("success", .bool false), ("logs", logs)]
    else return json 200 [("success", .bool true), ("result", result), ("logs", logs)]

def readLog (id : String) (limit : Option Int) : Handler Response := do
  let limit := match limit with
    | some n => .int n
    | none => .null
  return { status := 200, body := some (← ask (.readLog id limit)) }

structure Request where
  verb : String
  address : Address
  contentType : String := ""
  content : String := ""
  deriving Inhabited

namespace Request

def isJson (r : Request) : Bool :=
  let kind := Text.lower (Text.strip (String.ofList (r.contentType.toList.takeWhile (· != ';'))))
  kind == "application/json" || (kind.startsWith "application/" && kind.endsWith "+json")

/-- The JSON in the content, an empty object if there is none or it counts as false. -/
def body (r : Request) : Outcome Value :=
  match r.isJson, Text.decodeDetected? r.content with
  | true, some text =>
    match Json.read text with
    | .ok v => .ok (v.orElse (.object []))
    | .error e => if e.isBadValue then .ok (.object []) else .error (.badJson e)
  | _, _ => .ok (.object [])

def handler (r : Request) : Route → Handler Response
  | .health => health
  | .list => listLogics
  | .create => createLogic r.body
  | .reorder => do reorderLogics (← (r.body : Outcome Value))
  | .running => runningLogics
  | .stopAll => stopAll
  | .file => return .bare 404
  | .get id => getLogic id
  | .update id => do updateLogic id (← (r.body : Outcome Value))
  | .delete id => deleteLogic id
  | .validate id => do validate id (← (r.body : Outcome Value))
  | .start id => do startLogic id (← (r.body : Outcome Value))
  | .stop id => stopLogic id
  | .runOnce id => do runOnce id (← (r.body : Outcome Value))
  | .logs id => readLog id (r.address.wholeNumber? "limit")

def routine (r : Request) : Routine Response :=
  match r.address.destination r.verb with
  | .unknown => .done (.bare 404)
  | .wrongVerb => .done (.bare 405)
  | .moved => .done (.bare 308)
  | .options => .done (.bare 200)
  | .route route => do
    match ← (r.handler route).run with
    | .error _ => return .bare 500
    | .ok response => return if r.verb == "HEAD" then .bare response.status else response

end Request

end TradingRules.Service
