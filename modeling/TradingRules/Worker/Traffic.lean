import TradingRules.Worker.Proxy

/-!
# Requests of several threads

Any number of threads may use a channel at once, and answers, timeouts and the closing may come in
between at any point. A thread registers its request, posts it, and waits. Whoever takes a request
out of the table hands it what it is to end with, and signals it later. A thread that has waited too
long takes its request out of the table itself, if it is still there.
-/

namespace TradingRules.Worker

/-- A request that was given a number, and how far it has come. -/
structure Inquiry where
  id : Nat
  method : Value
  params : Value
  posted : Bool := false
  /-- What it was handed when it was taken out of the table. -/
  answer : Option Answer := none
  signalled : Bool := false
  expired : Bool := false
  outcome : Option (Outcome Value) := none

namespace Inquiry

/-- What happens to one request: its thread posts it, has waited too long, forgets it, or wakes up;
whoever handed it an answer signals it. -/
inductive Act where
  | post
  | signal
  | expire
  | purge
  | wake
  deriving DecidableEq

variable (q : Inquiry)

def can : Act → Bool
  | .post => !q.posted
  | .signal => q.answer.isSome && !q.signalled
  | .expire => q.posted && !q.signalled && !q.expired
  | .purge => q.expired && q.outcome.isNone
  | .wake => q.posted && q.signalled && !q.expired && q.outcome.isNone

def timeout : Outcome Value :=
  .error (.requestTimeout q.method.shown)

def act : Act → Inquiry
  | .post => { q with posted := true }
  | .signal => { q with signalled := true }
  | .expire => { q with expired := true }
  | .purge => { q with outcome := some q.timeout }
  | .wake => { q with outcome := q.answer.map (·.outcome q.method) }

def message : Value :=
  requestMessage q.id q.method q.params

def handed (answer : Answer) : Inquiry :=
  { q with answer := some answer }

end Inquiry

/-- A channel, the requests that were made through it, and what was posted. -/
structure Traffic where
  proxy : Proxy := {}
  inquiries : List Inquiry := []
  /-- The faults of requests that were given no number. -/
  refused : List Fault := []
  posted : List Value := []

namespace Traffic

inductive Occurrence where
  | begin (method params : Value)
  | resolve (message : Value)
  | close (reason : Value)
  | act (id : Nat) (act : Inquiry.Act)

variable (t : Traffic)

def onInquiry (id : Nat) (f : Inquiry → Inquiry) : Traffic :=
  { t with inquiries := t.inquiries.map fun q => if q.id = id then f q else q }

/-- Can this happen now? -/
def allows : Occurrence → Bool
  | .begin _ _ | .resolve _ | .close _ => true
  | .act id act => t.inquiries.any fun q => q.id = id && q.can act

/-- What one request does, apart from what it is then: it posts its message, or gives up its place
in the table. -/
def afterAct (id : Nat) : Inquiry.Act → Traffic
  | .post => { t with
      posted := t.posted ++ (t.inquiries.filter (·.id = id)).map Inquiry.message }
  | .purge => { t with proxy := t.proxy.forget id }
  | .signal | .expire | .wake => t

def step : Occurrence → Traffic
  | .begin method params =>
    match t.proxy.register method with
    | (.error e, proxy) => { t with proxy, refused := t.refused ++ [e] }
    | (.ok id, proxy) => { t with proxy, inquiries := t.inquiries ++ [{ id, method, params }] }
  | .resolve message =>
    match t.proxy.resolve message with
    | (.ok (some (id, answer)), proxy) => { t with proxy }.onInquiry id (·.handed answer)
    | (_, proxy) => { t with proxy }
  | .close reason =>
    { t with
      proxy := t.proxy.close
      inquiries := t.inquiries.map fun q =>
        if t.proxy.pending.contains q.id then q.handed ⟨false, .null, reason⟩ else q }
  | .act id act => (t.afterAct id act).onInquiry id (·.act act)

def after (events : List Occurrence) : Traffic :=
  events.foldl step t

/-- Can these events happen one after the other? -/
def happens (t : Traffic) : List Occurrence → Bool
  | [] => true
  | e :: rest => t.allows e && (t.step e).happens rest

end Traffic

end TradingRules.Worker
