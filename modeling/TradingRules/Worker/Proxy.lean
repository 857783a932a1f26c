import TradingRules.Market.Basic
import TradingRules.Value.Display

/-!
# Requests across the boundary

A worker has no market data of its own: each request becomes a message to the supervisor, with a
number that the answer has to carry. A request ends with the first answer that carries its number,
with the closing of the channel, or without any of them, when it has waited too long.
-/

namespace TradingRules.Worker

open Market (Request Source)

/-- The worker's end of the channel for requests. -/
structure Proxy where
  nextId : Nat := 1
  pending : List Nat := []
  closed : Bool := false
  deriving Inhabited

structure Answer where
  success : Bool
  result : Value
  error : Value
  deriving Inhabited

def requestMessage (id : Nat) (method params : Value) : Value :=
  .object [("type", .text "api-request"), ("request_id", .int id), ("method", method),
    ("params", params)]

namespace Proxy

/-- Gives a number to a request, unless the channel is closed. -/
def register (p : Proxy) (method : Value) : Outcome Nat × Proxy :=
  if p.closed then (.error (.isolationBoundary s!"API channel closed: {method.shown}"), p)
  else (.ok p.nextId, { p with nextId := p.nextId + 1, pending := p.pending ++ [p.nextId] })

def forget (p : Proxy) (id : Nat) : Proxy :=
  { p with pending := p.pending.filter (· != id) }

/-- The waiting request that a message answers, if there is one, and the answer. A number that
cannot be a key is refused, unless no request waits. -/
def resolve (p : Proxy) (message : Value) : Outcome (Option (Nat × Answer)) × Proxy :=
  match message.asFields with
  | .error e => (.error e, p)
  | .ok f =>
    let key := f.get "request_id"
    if p.pending.isEmpty then (.ok none, p)
    else if !key.isKey then (.error (.unhashable key), p)
    else match p.pending.find? fun (id : Nat) => Value.int id == key with
      | none => (.ok none, p)
      | some id =>
        let answer := ⟨(f.get "success").isTruthy, f.get "result", f.get "error"⟩
        (.ok (some (id, answer)), p.forget id)

/-- Closes the channel; the waiting requests fail. -/
def close (p : Proxy) : Proxy :=
  { p with closed := true, pending := [] }

end Proxy

/-- The reason of a closing when none is given. -/
def closingReason : Value := .text "worker stopping"

def Answer.outcome (a : Answer) (method : Value) : Outcome Value :=
  if a.success then .ok a.result
  else
    let reason := a.error.orElse (.text s!"API request failed: {method.shown}")
    .error (.marketData reason.shown)

inductive Arrival where
  | nothing
  | message (content : Value)
  | closing (reason : Value)
  deriving Inhabited

def Proxy.settle (p : Proxy) (id : Nat) (method : Value) : Arrival → Outcome Value × Proxy
  | .nothing => (.error (.requestTimeout method.shown), p.forget id)
  | .closing reason => (Answer.outcome ⟨false, .null, reason⟩ method, p.close)
  | .message content =>
    match p.resolve content with
    | (.error e, p) => (.error e, p)
    | (.ok none, p) => (.error (.requestTimeout method.shown), p.forget id)
    | (.ok (some (answered, answer)), p) =>
      if answered = id then (answer.outcome method, p)
      else (.error (.requestTimeout method.shown), p.forget id)

/-- The other side of the boundary, which may answer a request. -/
structure Peer (τ : Type) where
  respond : Value → τ → Arrival × τ

def Proxy.send {τ : Type} (peer : Peer τ) (p : Proxy) (method params : Value) (t : τ) :
    Outcome Value × Proxy × τ :=
  match p.register method with
  | (.error e, p) => (.error e, p, t)
  | (.ok id, p) =>
    let (arrival, t) := peer.respond (requestMessage id method params) t
    let (result, p) := p.settle id method arrival
    (result, p, t)

def Proxy.ask {τ : Type} (peer : Peer τ) (p : Proxy) (r : Request) (t : τ) :
    Outcome Value × Proxy × τ :=
  p.send peer (.text r.method) (.list r.params) t

end TradingRules.Worker
