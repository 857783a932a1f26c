import TradingRules.Proofs.Market.Usage
import TradingRules.Proofs.Supervisor.Upkeep

/-!
# Market data across the boundary

The market of a worker asks its supervisor, and the supervisor asks the source. A request goes out
as a message with a number, is handled as any message of a worker is, becomes a task, and its answer
comes back through the inbox under the same number. A value arrives as it was; a fault arrives as
another fault, with its text at most. Since a market does not look at faults, it is in the same
state as one that asks the source itself.
-/

namespace TradingRules

open Market (Request Source Use)

/-- A call of a source, and what it came to. -/
abbrev Market.Call := Request × Outcome Value

/-- A source that keeps a record of its calls. -/
def Market.Source.recording {σ : Type} (P : Source σ) : Source (List Market.Call × σ) where
  answer request w :=
    let (answer, s) := P.answer request w.2
    (answer, (w.1 ++ [(request, answer)], s))

namespace Worker

open Supervisor (responseMessage)

/-- The answer to the request of a number. -/
def answerMessage (id : Nat) (answer : Outcome Value) : Value :=
  responseMessage [("request_id", .int id)] answer

/-- The requests that calls were made for, numbered from the first on. -/
def requestsFor (first : Nat) (calls : List Market.Call) : List Value :=
  calls.mapIdx fun i call => requestMessage (first + i) (.text call.1.method) (.list call.1.params)

def answersTo (first : Nat) (calls : List Market.Call) : List Value :=
  calls.mapIdx fun i call => answerMessage (first + i) call.2

@[simp] theorem requestsFor_concat (first : Nat) (calls : List Market.Call) (call : Market.Call) :
    requestsFor first (calls ++ [call]) = requestsFor first calls ++
      [requestMessage (first + calls.length) (.text call.1.method) (.list call.1.params)] := by
  simp [requestsFor, List.mapIdx_append]

@[simp] theorem answersTo_concat (first : Nat) (calls : List Market.Call) (call : Market.Call) :
    answersTo first (calls ++ [call]) =
      answersTo first calls ++ [answerMessage (first + calls.length) call.2] := by
  simp [answersTo, List.mapIdx_append]

/-- An answer as it is read on the other side of the boundary: of a fault only the text is left. -/
def relayed (method : String) : Outcome Value → Outcome Value
  | .ok value => .ok value
  | .error e => Answer.outcome ⟨false, .null, .text e.message⟩ (.text method)

theorem toOption_relayed (method : String) (answer : Outcome Value) :
    (relayed method answer).toOption = answer.toOption := by
  cases answer <;> rfl

theorem int_beq_self (n : Int) : (Value.int n == Value.int n) = true := by
  show Value.equalLeaves (.int n) (.int n) = true
  simp [Value.equalLeaves, Value.numeric?, Value.Numeric.compare]

/-- The only request that waits is answered by a message with its number, and waits no longer. -/
theorem resolve_only (n : Nat) {f : Fields} (hid : Fields.get f "request_id" = .int n) :
    ({ nextId := n + 1, pending := [n] } : Proxy).resolve (.object f) =
      (.ok (some (n, ⟨(Fields.get f "success").isTruthy, Fields.get f "result",
        Fields.get f "error"⟩)), { nextId := n + 1 }) := by
  simp [Proxy.resolve, Proxy.forget, Value.asFields, hid, Value.isKey, int_beq_self]

theorem settle_answerMessage (n : Nat) (method : String) (answer : Outcome Value) :
    ({ nextId := n + 1, pending := [n] } : Proxy).settle n (.text method)
      (.message (answerMessage n answer)) = (relayed method answer, { nextId := n + 1 }) := by
  cases answer <;>
  · rw [Proxy.settle, answerMessage, responseMessage, resolve_only n rfl]
    simp [relayed, Answer.outcome, Fields.get, Fields.get?, Value.isTruthy]

/-- A request that is answered under its number leaves no trace in the channel but the number. -/
theorem ask_of_answered {τ : Type} {peer : Peer τ} {n : Nat} {request : Request} {t t' : τ}
    {answer : Outcome Value}
    (hrespond : peer.respond (requestMessage n (.text request.method) (.list request.params)) t =
      (.message (answerMessage n answer), t')) :
    ({ nextId := n } : Proxy).ask peer request t =
      (relayed request.method answer, { nextId := n + 1 }, t') := by
  have hregistered : ({ nextId := n } : Proxy).register (.text request.method) =
      (.ok n, { nextId := n + 1, pending := [n] }) := rfl
  rw [Proxy.ask, Proxy.send, hregistered]
  simp only [hrespond, settle_answerMessage]

end Worker

namespace Supervisor

open Worker (Arrival Desk Line Notice Peer answerMessage requestMessage)

variable {σ : Type}

/-- The supervisor behind the boundary, and the messages that have crossed it in either way. -/
structure Crossing (σ : Type) where
  supervisor : State σ × σ
  requests : List Value := []
  answers : List Value := []

/-- The supervisor as the worker of a run meets it. A message is handled and the task it gives rise
to is carried out; then the inbox is emptied and its first item handed over. -/
def across (res : Resources σ) (k : Nat) : Peer (Crossing σ) where
  respond message c :=
    let (st, s) := ((listen res k message).exec c.supervisor).2
    let inbox := (st.runs[k]?.map (·.inbox)).getD []
    (inbox.head?.elim .nothing .message,
      { supervisor := (st.change k fun r => { r with inbox := [] }, s)
        requests := c.requests ++ [message]
        answers := c.answers ++ inbox })

/-- A run that is not stopping and whose inbox is empty. -/
def State.Attends (st : State σ) (k : Nat) : Prop :=
  ∃ r, st.runs[k]? = some r ∧ r.stopping = false ∧ r.inbox = []

section

variable {P : Source σ} {res : Resources σ} {k : Nat} {r : Run σ}

/-- The fields of the message that asks for a request. -/
def requestFields (id : Nat) (request : Request) : Fields :=
  [("type", .text "api-request"), ("request_id", .int id), ("method", .text request.method),
    ("params", .list request.params)]

theorem requestMessage_eq (id : Nat) (request : Request) :
    requestMessage id (.text request.method) (.list request.params) =
      .object (requestFields id request) := rfl

theorem serve_requestFields (hsource : res.source = some P) {request : Request}
    (hmethod : request.method ∈ methods) (id : Nat) (s : σ) :
    serve res (requestFields id request) s = P.answer request s := by
  have hname : Fields.get (requestFields id request) "method" = .text request.method := rfl
  have hparams : paramsOf (requestFields id request) = .ok request.params := by
    show ((Value.list request.params).orElse (.list [])).items = .ok request.params
    cases request.params <;> rfl
  rw [serve, hsource]
  simp [hname, hmethod, hparams]

/-- A request is answered from the source, and the answer joins the inbox of the run. -/
theorem exec_listen_request (hsource : res.source = some P) {request : Request}
    (hmethod : request.method ∈ methods) (id : Nat) {st : State σ} (hr : st.runs[k]? = some r)
    (hlive : r.stopping = false) (s : σ) :
    (listen res k (.object (requestFields id request))).exec (st, s) =
      (.ok (), (st.change k fun r => { r with
        inbox := r.inbox ++ [answerMessage id (P.answer request s).1] },
        (P.answer request s).2)) := by
  have htask : (handle k (.object (requestFields id request)) : Action σ (Option Task)).exec
      (st, s) = (.ok (some (.request (requestFields id request))), (st, s)) := rfl
  have hserved : (handleRequest res k (requestFields id request)).exec (st, s) =
      (.ok (), (st.change k fun r => { r with
        inbox := r.inbox ++ [answerMessage id (P.answer request s).1] },
        (P.answer request s).2)) := by
    simp only [handleRequest, ExceptT.exec_bind, ExceptT.exec_get, ExceptT.exec_set, exec_run?,
      serve_requestFields hsource hmethod, hr, hlive]
    rfl
  rw [exec_listen_of_task k _ res htask, perform, hserved]

theorem respond_across (hsource : res.source = some P) {request : Request}
    (hmethod : request.method ∈ methods) (id : Nat) {c : Crossing σ}
    (hattends : c.supervisor.1.Attends k) :
    ∃ st : State σ, st.Attends k ∧
      (across res k).respond
        (requestMessage id (.text request.method) (.list request.params)) c =
        (.message (answerMessage id (P.answer request c.supervisor.2).1),
          { supervisor := (st, (P.answer request c.supervisor.2).2)
            requests := c.requests ++
              [requestMessage id (.text request.method) (.list request.params)]
            answers := c.answers ++ [answerMessage id (P.answer request c.supervisor.2).1] }) := by
  obtain ⟨r, hr, hlive, hinbox⟩ := hattends
  let answered := c.supervisor.1.change k fun r => { r with
    inbox := r.inbox ++ [answerMessage id (P.answer request c.supervisor.2).1] }
  have hanswered : answered.runs[k]? = some { r with
      inbox := [answerMessage id (P.answer request c.supervisor.2).1] } := by
    simp [answered, State.change, hr, hinbox]
  refine ⟨answered.change k fun r => { r with inbox := [] }, ⟨{ r with inbox := [] }, ?_, hlive,
    rfl⟩, ?_⟩
  · rw [State.change, List.getElem?_modify_eq, hanswered]
    rfl
  · have hlistened := exec_listen_request hsource hmethod id hr hlive c.supervisor.2
    rw [← requestMessage_eq] at hlistened
    unfold across
    dsimp only
    rw [hlistened]
    dsimp only
    rw [hanswered]
    rfl

/-- The channel after some calls of a source: their requests have crossed it in order, each has been
answered once under its number, none is waiting, and the source is where the calls have left it. -/
structure Crossed (first k : Nat) (posted : List Notice) (w : List Market.Call × σ)
    (line : Line (Crossing (List Market.Call × σ))) : Prop where
  proxy : line.proxy = { nextId := first + w.1.length }
  posted : line.posted = posted
  source : line.outer.supervisor.2 = w
  attends : line.outer.supervisor.1.Attends k
  requests : line.outer.requests = Worker.requestsFor first w.1
  answers : line.outer.answers = Worker.answersTo first w.1

/-- The source behind the boundary answers as the source itself does. -/
theorem alike_across {P : Source σ} {res : Resources (List Market.Call × σ)}
    (hsource : res.source = some P.recording) (first : Nat) (posted : List Notice) :
    Market.Alike (Crossed first k posted) P.recording (Desk.source (across res k)) := by
  intro request w line hmethod hcrossed
  obtain ⟨hproxy, hposted, hw, hattends, hrequests, hanswers⟩ := hcrossed
  obtain ⟨st, hst, hresponded⟩ := respond_across hsource hmethod (first + w.1.length) hattends
  rw [hw] at hresponded
  have hanswered : (Desk.source (across res k)).answer request line =
      (Worker.relayed request.method (P.recording.answer request w).1,
        { proxy := { nextId := first + w.1.length + 1 }
          posted
          outer := {
            supervisor := (st, (P.recording.answer request w).2)
            requests := line.outer.requests ++ [requestMessage (first + w.1.length)
              (.text request.method) (.list request.params)]
            answers := line.outer.answers ++
              [answerMessage (first + w.1.length) (P.recording.answer request w).1] } }) := by
    simp only [Desk.source, hproxy, Worker.ask_of_answered hresponded, hposted]
  have hrecorded : (P.recording.answer request w).2.1 =
      w.1 ++ [(request, (P.recording.answer request w).1)] := rfl
  rw [hanswered]
  refine ⟨(Worker.toOption_relayed _ _).symm, ?_, rfl, rfl, hst, ?_, ?_⟩
  · rw [hrecorded, List.length_append]
    rfl
  · rw [hrecorded, Worker.requestsFor_concat, ← hrequests]
  · rw [hrecorded, Worker.answersTo_concat, ← hanswers]

/-- A market whose requests cross the boundary, and one that asks the source itself, come to the
same and are in the same state after each use. The source gets the same calls in the same order, and
each request is answered once, under its own number. -/
theorem boundary_is_transparent (P : Source σ) {res : Resources (List Market.Call × σ)}
    (hsource : res.source = some P.recording) {st : State (List Market.Call × σ)} {k : Nat}
    (hattends : st.Attends k) (first : Nat) (posted : List Notice) (m : Market) (s : σ)
    (uses : List Use) :
    List.Forall₂
      (fun direct crossed => direct.1 = crossed.1 ∧ direct.2.1 = crossed.2.1 ∧
        Crossed first k posted direct.2.2 crossed.2.2)
      (Market.usage P.recording uses m ([], s))
      (Market.usage (Desk.source (across res k)) uses m
        ⟨{ nextId := first }, posted, { supervisor := (st, ([], s)) }⟩) := by
  have hstart : Crossed first k posted (([], s) : List Market.Call × σ)
      ⟨{ nextId := first }, posted, { supervisor := (st, ([], s)) }⟩ :=
    ⟨rfl, rfl, rfl, hattends, rfl, rfl⟩
  refine ((alike_across hsource first posted).usage m hstart uses).imp ?_
  intro direct crossed h
  exact ⟨h.1, h.2.market, h.2.outer⟩

end

/-- A run that waits for messages and logs nothing. -/
def idleRun (σ : Type) : Run σ where
  id := .text "dip"
  stock := .text "KRW-BTC"
  startTime := 0.0
  interval := 5.0
  details := .bool false
  log _ _ s := (.ok (), s)
  process := { name := "logic-dip" }

/-- A fetch, a lookup and a poll whose request fails: the script is at its end by then. -/
theorem scripted_crossing_is_transparent :
    let σ := List Market.Call × List Value
    let script := [.list [Market.quote (.int 1) (.text "10.5")], .text "n/a"]
    let res : Resources σ := ⟨some Market.replay.recording, none⟩
    let st : State σ := { runs := [idleRun σ] }
    let m := Market.new { stock := .text "KRW-BTC" } true
    let uses := [Use.feed .fetchFirst, .warmUp (.text "day") (.int 7),
      .lookUp ⟨.text "day", 7⟩, .feed .poll, .read .latestPrice]
    st.Attends 0 ∧ (Market.usage Market.replay.recording uses m ([], script)).length = 5 ∧
      List.Forall₂
        (fun direct crossed => direct.1 = crossed.1 ∧ direct.2.1 = crossed.2.1 ∧
          Crossed 1 0 [] direct.2.2 crossed.2.2)
        (Market.usage Market.replay.recording uses m ([], script))
        (Market.usage (Desk.source (across res 0)) uses m
          ⟨{ nextId := 1 }, [], { supervisor := (st, ([], script)) }⟩) := by
  have hattends : ({ runs := [idleRun (List Market.Call × List Value)] } : State _).Attends 0 :=
    ⟨idleRun _, rfl, rfl, rfl⟩
  exact ⟨hattends, rfl, boundary_is_transparent Market.replay rfl hattends 1 [] _ _ _⟩

end Supervisor

end TradingRules
