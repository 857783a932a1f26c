import Mathlib.Logic.Relation
import TradingRules.Proofs.Graph.Acceptance
import TradingRules.Proofs.Graph.Copies
import TradingRules.Proofs.Supervisor.Inbox
import TradingRules.Proofs.Worker.Notices

/-!
# The start of a run

A supervisor and the worker of a run know of each other by two queues of messages only, and each
goes on when it likes. The worker is sent the logic first; when it says that it is ready, it is told
to start. Messages are never doubled on the way: the logic turns into one notice that the worker is
ready, this notice into one message to start, and this message into one notice of a start. So the
three can be counted together, wherever they are.

The parties are processes of their own, and what gets to the other side is a copy. The worker
compiles a copy of the logic that the supervisor has compiled, and the two can differ when the logic
uses a NaN for an id.
-/

namespace TradingRules

open Worker (Desk Notice Peer raisedInterval requestMessage)

namespace Value

theorem Alike.isMessage_eq {v w : Value} (h : v.Alike w) (type : String) :
    v.isMessage type = w.isMessage type := by
  obtain rfl | ⟨m, n, rfl, rfl⟩ | ⟨items, others, rfl, rfl, -⟩ | ⟨f, g, rfl, rfl, hfields⟩ :=
    h.cases
  · rfl
  · rfl
  · rfl
  · have htype := alike_get hfields "type"
    rw [isMessage, isMessage]
    generalize Fields.get f "type" = a at htype
    generalize Fields.get g "type" = b at htype
    obtain rfl | ⟨m, n, rfl, rfl⟩ | ⟨items, others, rfl, rfl, -⟩ | ⟨f, g, rfl, rfl, -⟩ :=
      htype.cases <;> rfl

theorem countP_copyItems (items : List Value) (mark : Nat) (type : String) :
    (copyItems items mark).1.countP (·.isMessage type) = items.countP (·.isMessage type) :=
  (List.Forall₂.countP_eq (fun _ _ h => h.isMessage_eq type) (forall₂_copyItems items mark)).symm

end Value

theorem Worker.Notice.isMessage_ready_toValue (n : Notice) :
    n.toValue.isMessage "ready" = n.isReady := by
  cases n <;> rfl

namespace Supervisor

variable {τ υ : Type}

/-- A message to a worker that ends it. -/
def haltMessage : Value :=
  .object [("type", .text "stop")]

/-- A supervisor, the worker of one of its runs, and the messages on their way between them. -/
structure Link (τ υ : Type) where
  supervisor : System τ
  inbox : List Value := []
  desk : Desk υ
  outbox : List Value := []
  serving : Bool := true
  /-- The first mark of a NaN that is not in use. -/
  marks : Nat

def State.isStopping {σ : Type} (st : State σ) (k : Nat) : Bool :=
  st.runs[k]?.any (·.stopping)

/-- What is sent to a run when the supervisor goes on: the answers that were given, and the end. -/
def sentTo (k : Nat) (before after : System τ) : List Value :=
  (after.1.runs[k]?.map (·.inbox)).getD [] ++
    if after.1.isStopping k && !before.1.isStopping k then [haltMessage] else []

namespace Link

/-- The supervisor has gone on, and copies of what it sent are on their way. -/
def supervise (k : Nat) (l : Link τ υ) (after : System τ) : Link τ υ :=
  let sent := Value.copyItems (sentTo k l.supervisor after) l.marks
  { l with
    supervisor := (after.1.change k fun r => { r with inbox := [] }, after.2)
    inbox := l.inbox ++ sent.1
    marks := sent.2 }

/-- The worker has gone on, and copies of what it posted are on their way. -/
def work (l : Link τ υ) (serving : Bool) (d : Desk υ) : Link τ υ :=
  let posted := (d.line.posted.drop l.desk.line.posted.length).map Notice.toValue
  let sent := Value.copyItems posted l.marks
  { l with
    desk := d
    outbox := l.outbox ++ sent.1
    serving
    marks := sent.2 }

/-- A run has just been started, and its worker knows nothing of it yet. -/
def opened (k : Nat) (before after : System τ) (outer : υ) (marks : Nat) : Link τ υ :=
  supervise k { supervisor := before, desk := .ofWorker {} outer, marks } after

/-- The worker has handled a message, has been told to end, or has failed. -/
def resume (l : Link τ υ) : Outcome Bool × Desk υ → Link τ υ
  | (.ok true, d) => l.work true d
  | (.ok false, d) => l.work false d.shutdown
  | (.error _, d) => l.work false d

/-- The worker takes the next item of its inbox, and passes over what is no message. -/
def read (peer : Peer υ) (l : Link τ υ) : Link τ υ :=
  match l.inbox with
  | [] => l
  | item :: rest =>
    let l := { l with inbox := rest }
    match item.fields? with
    | none => l
    | some f => l.resume (l.desk.handle peer f)

def tick (peer : Peer υ) (l : Link τ υ) : Link τ υ :=
  l.work l.serving (l.desk.tick peer)

/-- Market data comes in. -/
def gather (m : Market) (l : Link τ υ) : Link τ υ :=
  { l with desk := { l.desk with
      interpreter := l.desk.interpreter.map fun i => { i with market := m } } }

/-- The worker asks for market data. -/
def ask (method params : Value) (l : Link τ υ) : Link τ υ :=
  match l.desk.line.proxy.register method with
  | (.error _, _) => l
  | (.ok id, proxy) =>
    let sent := Value.copyItems [requestMessage id method params] l.marks
    { l with
      desk := { l.desk with line := { l.desk.line with proxy } }
      outbox := l.outbox ++ sent.1
      marks := sent.2 }

/-- The worker has waited for an answer too long. -/
def expire (id : Nat) (l : Link τ υ) : Link τ υ :=
  { l with desk := { l.desk with
      line := { l.desk.line with proxy := l.desk.line.proxy.forget id } } }

/-- The supervisor takes the next message of the worker. -/
def hear (res : Resources τ) (k : Nat) (l : Link τ υ) : Link τ υ :=
  match l.outbox with
  | [] => l
  | message :: rest =>
    supervise k { l with outbox := rest } ((act res (.message k message)).exec l.supervisor).2

/-- What either party can do next. Besides the message of the worker whose turn it is, anything can
happen to the supervisor: a queued task is carried out, the run or any other one is stopped, and the
workers of other runs have their say. -/
inductive Step (res : Resources τ) (k : Nat) (l : Link τ υ) : Link τ υ → Prop
  | read (peer : Peer υ) (h : l.serving = true) : Step res k l (l.read peer)
  | tick (peer : Peer υ) : Step res k l (l.tick peer)
  | gather (m : Market) : Step res k l (l.gather m)
  | ask (method params : Value) : Step res k l (l.ask method params)
  | expire (id : Nat) : Step res k l (l.expire id)
  | hear : Step res k l (l.hear res k)
  | act (event : Event τ) (h : ∀ content, event ≠ .message k content) :
      Step res k l (l.supervise k ((act res event).exec l.supervisor).2)

end Link

/-! ### Messages -/

/-- What a supervisor sends to a worker: the logic comes first if at all, and a message to start
carries the interval. -/
structure Launch.Sends {σ : Type} (launch : Launch σ) (x : Float) (v : Value) : Prop where
  init : v.isMessage "init" = true → launch.initMessage.Alike v
  start : v.isMessage "start" = true → ∃ f, v = .object f ∧ Fields.get f "interval" = .real x

namespace Launch.Sends

variable {σ : Type} {launch : Launch σ} {x : Float} {v w : Value}

theorem of_other {t : String} (hv : v.isMessage t = true) (hinit : t ≠ "init")
    (hstart : t ≠ "start") : launch.Sends x v where
  init h := absurd (Value.not_isMessage_of_ne hinit hv) (by simp [h])
  start h := absurd (Value.not_isMessage_of_ne hstart hv) (by simp [h])

/-- A copy of what is sent says the same. -/
theorem of_alike (h : launch.Sends x v) (halike : v.Alike w) : launch.Sends x w where
  init hw := (h.init (halike.isMessage_eq "init" ▸ hw)).trans halike
  start hw := by
    obtain ⟨f, rfl, hinterval⟩ := h.start (halike.isMessage_eq "start" ▸ hw)
    obtain ⟨g, rfl, hfields⟩ := halike.exists_object
    have hsame := Value.alike_get hfields "interval"
    rw [hinterval] at hsame
    exact ⟨g, rfl, hsame.eq_of_isKey rfl not_false⟩

/-- The logic that gets to the worker is like the one that was launched. -/
theorem alike_logic (h : launch.Sends x v) {f : Fields} (hv : v = .object f)
    (hmessage : v.isMessage "init" = true) : launch.logic.Alike (Fields.get f "logic_data") := by
  obtain ⟨g, hg, hfields⟩ := (h.init hmessage).exists_object
  obtain rfl := Value.object.inj (hv.symm.trans hg)
  exact Value.alike_get hfields "logic_data"

end Launch.Sends

namespace Link

/-! ### The invariant -/

/-- A run that was started at an interval, and its worker. -/
structure Sound (k : Nat) (launch : Launch τ) (x : Float) (l : Link τ υ) : Prop where
  run : ∃ r, l.supervisor.1.runs[k]? = some r ∧ r.interval = x ∧ r.inbox = []
  sent : ∀ v ∈ l.inbox, launch.Sends x v
  once : l.inbox.countP (·.isMessage "init") + l.desk.readies ≤ 1
  answered : l.outbox.countP (·.isMessage "ready") + l.inbox.countP (·.isMessage "start") +
    l.desk.starts ≤ l.desk.readies
  worker : l.desk.Conforms x (CompiledLogic.UsesNaN launch.logic) l.serving

section

variable {k : Nat} {launch : Launch τ} {x : Float} {l : Link τ υ} {d : Desk υ} {serving : Bool}
  {rest : List Value}

/-- The worker goes on. What it takes from its inbox and what it posts balance. -/
theorem Sound.work (h : l.Sound k launch x) (hrest : rest.Sublist l.inbox)
    (notices : List Notice) (hposted : d.line.posted = l.desk.line.posted ++ notices)
    (hready : rest.countP (·.isMessage "init") + notices.countP Notice.isReady ≤
      l.inbox.countP (·.isMessage "init"))
    (hstarted : rest.countP (·.isMessage "start") + notices.countP Notice.isStarted ≤
      l.inbox.countP (·.isMessage "start"))
    (hworker : d.Conforms x (CompiledLogic.UsesNaN launch.logic) serving) :
    (Link.work { l with inbox := rest } serving d).Sound k launch x := by
  have hreadies := Desk.readies_eq notices hposted
  have hstarts := Desk.starts_eq notices hposted
  have honce := h.once
  have hanswered := h.answered
  have houtbox : (Link.work { l with inbox := rest } serving d).outbox.countP
      (·.isMessage "ready") =
      l.outbox.countP (·.isMessage "ready") + notices.countP Notice.isReady := by
    simp only [Link.work, hposted, List.drop_left, List.countP_append, Value.countP_copyItems,
      List.countP_map, Function.comp_def, Notice.isMessage_ready_toValue]
  refine ⟨h.run, fun v hv => h.sent v (hrest.subset hv), ?_, ?_, hworker⟩
  · show rest.countP _ + d.readies ≤ 1
    omega
  · show (Link.work { l with inbox := rest } serving d).outbox.countP _ + rest.countP _ +
      d.starts ≤ d.readies
    omega

/-- The worker goes on and posts asides only. -/
theorem Sound.work_asides (h : l.Sound k launch x) (hrest : rest.Sublist l.inbox)
    (notices : List Notice) (hposted : d.line.posted = l.desk.line.posted ++ notices)
    (hasides : ∀ n ∈ notices, n.IsAside (CompiledLogic.UsesNaN launch.logic))
    (hworker : d.Conforms x (CompiledLogic.UsesNaN launch.logic) serving) :
    (Link.work { l with inbox := rest } serving d).Sound k launch x := by
  obtain ⟨hready, hstarted⟩ := Worker.countP_asides hasides
  refine h.work hrest notices hposted ?_ ?_ hworker
  · rw [hready]
    exact hrest.countP_le
  · rw [hstarted]
    exact hrest.countP_le

/-- The supervisor goes on and sends a message to start at most for a notice it has taken. -/
theorem Sound.supervise (h : l.Sound k launch x) {outbox : List Value} {after : System τ}
    {r : Run (World τ)} (hr : after.1.runs[k]? = some r) (hinterval : r.interval = x)
    (hsent : ∀ v ∈ r.inbox, launch.Sends x v ∧ v.isMessage "init" = false)
    (hanswered : outbox.countP (·.isMessage "ready") + r.inbox.countP (·.isMessage "start") ≤
      l.outbox.countP (·.isMessage "ready")) :
    (Link.supervise k { l with outbox } after).Sound k launch x := by
  obtain ⟨halt, hnew, hhalt⟩ : ∃ halt, sentTo k l.supervisor after = r.inbox ++ halt ∧
      ∀ v ∈ halt, v = haltMessage := by
    rw [sentTo, hr]
    refine ⟨_, rfl, fun v hv => ?_⟩
    split at hv
    · exact List.mem_singleton.mp hv
    · cases hv
  have hquiet : ∀ t, t ≠ "stop" → halt.countP (·.isMessage t) = 0 := fun t ht =>
    Value.countP_isMessage fun v hv => hhalt v hv ▸ Value.not_isMessage_of_ne ht.symm rfl
  have hinit := Value.countP_isMessage fun v hv => (hsent v hv).2
  let l' := Link.supervise k { l with outbox } after
  have hinbox : l'.inbox = l.inbox ++ (Value.copyItems (r.inbox ++ halt) l.marks).1 := hnew ▸ rfl
  have hcount : ∀ t, t ≠ "stop" → l'.inbox.countP (·.isMessage t) =
      l.inbox.countP (·.isMessage t) + r.inbox.countP (·.isMessage t) := fun t ht => by
    rw [hinbox, List.countP_append, Value.countP_copyItems, List.countP_append, hquiet t ht,
      Nat.add_zero]
  have honce := h.once
  have hbalance := h.answered
  refine ⟨⟨{ r with inbox := [] }, ?_, hinterval, rfl⟩, ?_, ?_, ?_, h.worker⟩
  · show (after.1.runs.modify k _)[k]? = _
    rw [List.getElem?_modify_eq, hr]
    rfl
  · show ∀ v ∈ l'.inbox, launch.Sends x v
    rw [hinbox]
    intro v hv
    rcases List.mem_append.mp hv with hv | hv
    · exact h.sent v hv
    · obtain ⟨u, hu, halike⟩ := (Value.forall₂_copyItems _ _).exists_of_mem hv
      rcases List.mem_append.mp hu with hu | hu
      · exact (hsent u hu).1.of_alike halike
      · exact .of_alike (hhalt u hu ▸ .of_other (t := "stop") rfl (by decide) (by decide)) halike
  · show l'.inbox.countP _ + l.desk.readies ≤ 1
    rw [hcount "init" (by decide)]
    omega
  · show outbox.countP _ + l'.inbox.countP _ + l.desk.starts ≤ l.desk.readies
    rw [hcount "start" (by decide)]
    omega

/-! ### The steps of the worker -/

/-- The worker passes over items of its inbox. -/
theorem Sound.skip (h : l.Sound k launch x) (hrest : rest.Sublist l.inbox) :
    Sound k launch x { l with inbox := rest } := by
  have honce := h.once
  have hanswered := h.answered
  have hinit := hrest.countP_le (p := (·.isMessage "init"))
  have hstart := hrest.countP_le (p := (·.isMessage "start"))
  refine ⟨h.run, fun v hv => h.sent v (hrest.subset hv), ?_, ?_, h.worker⟩
  · show rest.countP _ + l.desk.readies ≤ 1
    omega
  · show l.outbox.countP _ + rest.countP _ + l.desk.starts ≤ l.desk.readies
    omega

section

variable {f : Fields} (peer : Peer υ)

/-- The worker takes up its copy of the logic. This compiles as the logic did for the supervisor,
unless a NaN leads to a terminal. -/
theorem Sound.init (h : l.Sound k launch x) {c : CompiledLogic}
    (hcompiled : CompiledLogic.ofLogic launch.logic = .ok c) (hinbox : l.inbox = .object f :: rest)
    (htype : Fields.get f "type" = .text "init") :
    (Link.resume { l with inbox := rest } ((l.desk.init peer f).1.map fun _ => true,
      (l.desk.init peer f).2)).Sound k launch x := by
  have hmessage : (Value.object f).isMessage "init" = true :=
    Value.isMessage_iff.mpr ⟨f, rfl, htype⟩
  have hlogic := (h.sent _ (hinbox ▸ List.mem_cons_self)).alike_logic rfl hmessage
  have hgiven : Worker.logicOf f = Fields.get f "logic_data" := by
    rw [Worker.logicOf, Value.orElse, ← hlogic.isTruthy_eq,
      if_pos (CompiledLogic.isTruthy_of_ofLogic hcompiled)]
  have honce := h.once
  rw [hinbox, List.countP_cons_of_pos hmessage] at honce
  have hunscheduled : l.desk.scheduler = none := h.worker.unscheduled (by
    have hanswered := h.answered
    omega)
  have hreplace : ∀ i line, l.desk.replace i line = ⟨some i, none, line⟩ := fun i line => by
    rw [Desk.replace, hunscheduled]
    rfl
  have hrest : rest.Sublist l.inbox := hinbox ▸ List.sublist_cons_self _ _
  cases hcopy : CompiledLogic.ofLogic (Worker.logicOf f) with
  | ok copied =>
    obtain ⟨m, hinit⟩ := Desk.init_of_ok peer l.desk hcopy
    rw [hinit, hreplace]
    refine h.work hrest [.ready] rfl ?_ ?_ (h.worker.ready rfl)
    · rw [hinbox, List.countP_cons_of_pos hmessage]
      rfl
    · exact hrest.countP_le
  | error fault =>
    have hused : CompiledLogic.UsesNaN launch.logic := by
      by_contra hunused
      rw [hgiven, CompiledLogic.ofLogic_of_alike hlogic hcompiled hunused] at hcopy
      cases hcopy
    obtain ⟨result, i, line, notices, hinit, hposted, hrefused⟩ :=
      Desk.init_of_fault peer l.desk hcopy
    have hasides : ∀ n ∈ notices, n.IsAside (CompiledLogic.UsesNaN launch.logic) := by
      intro n hn
      obtain hn | ⟨reason, rfl⟩ := hrefused n hn
      · exact .tick hn
      · exact .refusal hused reason
    have hworker : ∀ serving, (⟨some i, none, line⟩ : Desk υ).Conforms x
        (CompiledLogic.UsesNaN launch.logic) serving := fun serving =>
      h.worker.asides notices hposted hasides (fun _ => rfl) fun _ _ hready =>
        absurd hready (by omega)
    rw [hinit, hreplace]
    cases result with
    | ok => exact h.work_asides hrest notices hposted hasides (hworker true)
    | error => exact h.work_asides hrest notices hposted hasides (hworker false)

/-- The worker starts at the interval of the run, which it does not raise any more. -/
theorem Sound.start (h : l.Sound k launch x) {y : Float} (hraised : x = raisedInterval y)
    (hserving : l.serving = true) (hinbox : l.inbox = .object f :: rest)
    (htype : Fields.get f "type" = .text "start") :
    ∃ d, l.desk.start f = (.ok (), d) ∧
      (Link.work { l with inbox := rest } true d).Sound k launch x := by
  have hmessage : (Value.object f).isMessage "start" = true :=
    Value.isMessage_iff.mpr ⟨f, rfl, htype⟩
  have hinterval : Fields.get f "interval" = .real x := by
    obtain ⟨f', hf, hinterval⟩ := (h.sent _ (hinbox ▸ List.mem_cons_self)).start hmessage
    exact Value.object.inj hf ▸ hinterval
  have honce := h.once
  have hanswered := h.answered
  rw [hinbox, List.countP_cons_of_pos hmessage] at hanswered
  have hready : 0 < l.desk.readies := by omega
  have hrunnable := h.worker.canRun hserving (by omega) hready
  refine ⟨_, Desk.start_of_raised hraised hinterval hrunnable, h.work
    (hinbox ▸ List.sublist_cons_self _ _) [.started x] rfl ?_ ?_ (h.worker.started hready _)⟩
  · rw [hinbox]
    exact (List.sublist_cons_self _ _).countP_le
  · rw [hinbox, List.countP_cons_of_pos hmessage]
    rfl

theorem Sound.read (h : l.Sound k launch x) {c : CompiledLogic}
    (hcompiled : CompiledLogic.ofLogic launch.logic = .ok c) {y : Float}
    (hraised : x = raisedInterval y) (hserving : l.serving = true) :
    (l.read peer).Sound k launch x := by
  unfold Link.read
  cases hinbox : l.inbox with
  | nil => exact h
  | cons item rest =>
    have hrest : rest.Sublist l.inbox := hinbox ▸ List.sublist_cons_self item rest
    dsimp only
    cases hitem : item.fields? with
    | none => exact h.skip hrest
    | some f =>
      obtain rfl := Value.eq_of_fields? hitem
      have hquiet : ∀ {serving : Bool} {d : Desk υ}, d.line.posted = l.desk.line.posted →
          d.interpreter = l.desk.interpreter → d.scheduler = l.desk.scheduler →
          (Link.work { l with inbox := rest } serving d).Sound k launch x := by
        intro serving d hposted hinterpreter hscheduler
        refine h.work_asides hrest [] (by simpa using hposted) (by simp)
          (h.worker.asides [] (by simpa using hposted) (by simp) ?_ ?_)
        · exact fun hnone => hscheduler.trans hnone
        · exact fun _ _ _ => ⟨hserving, by rw [hinterpreter]⟩
      dsimp only
      unfold Desk.handle
      split
      · generalize l.desk.line.proxy.resolve (.object f) = resolved
        obtain ⟨e | answer, proxy⟩ := resolved
        · exact hquiet rfl rfl rfl
        · exact hquiet rfl rfl rfl
      · rename_i htype
        exact h.init peer hcompiled hinbox htype
      · rename_i htype
        obtain ⟨d, hstart, hsound⟩ := h.start hraised hserving hinbox htype
        rw [hstart]
        exact hsound
      · have hasides : ∀ n ∈ [Notice.stopped], n.IsAside (CompiledLogic.UsesNaN launch.logic) :=
          List.forall_mem_singleton.mpr .stopped
        refine h.work_asides hrest [.stopped] rfl hasides
          (h.worker.asides [.stopped] rfl hasides ?_ ?_)
        · exact fun _ => rfl
        · exact fun hserving => nomatch hserving
      · exact hquiet rfl rfl rfl

theorem Sound.tick (h : l.Sound k launch x) : (l.tick peer).Sound k launch x := by
  obtain ⟨notices, hposted, hticks⟩ := Desk.posts_tick peer l.desk
  exact h.work_asides (.refl _) notices hposted (fun n hn => .tick (hticks n hn))
    (h.worker.tick peer)

end

theorem Sound.gather (h : l.Sound k launch x) (m : Market) : (l.gather m).Sound k launch x where
  run := h.run
  sent := h.sent
  once := h.once
  answered := h.answered
  worker := h.worker.asides [] (List.append_nil _).symm (by simp) (fun hnone => hnone)
    fun hserving _ _ => ⟨hserving, Option.map_map _ _ _⟩

/-- A change of the channel for requests. -/
theorem Sound.channel (h : l.Sound k launch x) (proxy : Worker.Proxy) (requests : List Value)
    (marks : Nat) (hrequests : requests.countP (·.isMessage "ready") = 0) :
    Sound k launch x { l with
      desk := { l.desk with line := { l.desk.line with proxy } }
      outbox := l.outbox ++ requests
      marks } where
  run := h.run
  sent := h.sent
  once := h.once
  answered := by
    rw [List.countP_append, hrequests]
    exact h.answered
  worker := h.worker.asides [] (List.append_nil _).symm (by simp) (fun hnone => hnone)
    fun hserving _ _ => ⟨hserving, rfl⟩

theorem Sound.ask (h : l.Sound k launch x) (method params : Value) :
    (l.ask method params).Sound k launch x := by
  unfold Link.ask
  split
  · exact h
  · exact h.channel _ _ _ (Value.countP_copyItems _ _ _)

theorem Sound.expire (h : l.Sound k launch x) (id : Nat) : (l.expire id).Sound k launch x := by
  have hexpired := h.channel (l.desk.line.proxy.forget id) [] l.marks rfl
  rwa [List.append_nil] at hexpired

/-! ### The steps of the supervisor -/

/-- The supervisor answers requests, or does nothing for the run. -/
theorem Sound.answer (h : l.Sound k launch x) {outbox : List Value} {after : System τ}
    (hanswers : AnswersOnly k l.supervisor after) (houtbox : outbox.Sublist l.outbox) :
    (Link.supervise k { l with outbox } after).Sound k launch x := by
  obtain ⟨r, hr, hinterval, hempty⟩ := h.run
  obtain ⟨r', hr', hinterval', hanswers⟩ := hanswers r hr (by simp [hempty])
  refine h.supervise hr' (hinterval'.trans hinterval) (fun v hv => ?_) ?_
  · exact ⟨.of_other (hanswers v hv) (by decide) (by decide),
      Value.not_isMessage_of_ne (by decide) (hanswers v hv)⟩
  · have hnone : r'.inbox.countP (·.isMessage "start") = 0 :=
      Value.countP_isMessage fun v hv => Value.not_isMessage_of_ne (by decide) (hanswers v hv)
    rw [hnone]
    exact houtbox.countP_le

theorem Sound.hear (h : l.Sound k launch x) (res : Resources τ) :
    (l.hear res k).Sound k launch x := by
  unfold Link.hear
  cases houtbox : l.outbox with
  | nil => exact h
  | cons message rest =>
    dsimp only
    rw [exec_act_message]
    cases hmessage : message.isMessage "ready" with
    | false =>
      exact h.answer (Answering.attend (fun _ => hmessage) l.supervisor).1
        (houtbox ▸ List.sublist_cons_self _ _)
    | true =>
      obtain ⟨r, hr, hinterval, hempty⟩ := h.run
      rw [exec_attend_ready hr hmessage]
      refine h.supervise (r := { r with inbox := [r.startMessage] }) ?_ hinterval ?_ ?_
      · simp [State.change, hr, hempty]
      · rw [List.forall_mem_singleton]
        exact ⟨⟨(absurd · Bool.false_ne_true), fun _ => ⟨_, rfl, hinterval ▸ rfl⟩⟩, rfl⟩
      · rw [houtbox, List.countP_cons_of_pos hmessage]
        rfl

theorem Sound.act (h : l.Sound k launch x) (res : Resources τ) {event : Event τ}
    (hevent : ∀ content, event ≠ .message k content) :
    (l.supervise k ((act res event).exec l.supervisor).2).Sound k launch x :=
  h.answer (Answering.act res hevent l.supervisor).1 (.refl _)

/-! ### All steps -/

/-- A step of either party keeps the invariant. -/
theorem Sound.step (h : l.Sound k launch x) {c : CompiledLogic}
    (hcompiled : CompiledLogic.ofLogic launch.logic = .ok c) {y : Float}
    (hraised : x = raisedInterval y) {res : Resources τ} {l' : Link τ υ}
    (hstep : Link.Step res k l l') : l'.Sound k launch x := by
  cases hstep with
  | read peer hserving => exact h.read peer hcompiled hraised hserving
  | tick peer => exact h.tick peer
  | gather m => exact h.gather m
  | ask method params => exact h.ask method params
  | expire id => exact h.expire id
  | hear => exact h.hear res
  | act event hevent => exact h.act res hevent

theorem Sound.steps (h : l.Sound k launch x) {c : CompiledLogic}
    (hcompiled : CompiledLogic.ofLogic launch.logic = .ok c) {y : Float}
    (hraised : x = raisedInterval y) {res : Resources τ} {l' : Link τ υ}
    (hsteps : Relation.ReflTransGen (Link.Step res k) l l') : l'.Sound k launch x := by
  induction hsteps with
  | refl => exact h
  | tail _ hstep ih => exact ih.step hcompiled hraised hstep

end

end Link

/-! ### The start -/

theorem Launch.ne_of_refuse {σ : Type} {l : Launch σ} {reason : String} {a b : State σ × σ} :
    (l.refuse reason).exec a ≠ (.ok true, b) := by
  rw [refuse, ExceptT.exec_bind, exec_write]
  cases (l.log (.text "Error") (.text reason) a.2).1 <;> simp

theorem Launch.Starts.ne_of_true {σ : Type} {l : Launch σ} {st st' : State σ}
    (h : l.Starts st (.ok true) st') : st' ≠ st := by
  cases h with
  | started interval hfree hanswer =>
    intro hsame
    have hlength := congrArg (·.runs.length) hsame
    simp at hlength

/-- A start that succeeds has compiled the logic, and added a run at a raised interval. -/
theorem Launch.exists_of_start {σ : Type} {l : Launch σ} {a b : State σ × σ}
    (h : (start l).exec a = (.ok true, b)) :
    (∃ c, CompiledLogic.ofLogic l.logic = .ok c) ∧
      ∃ y, b.1 = { runs := a.1.runs ++ [l.newRun (raisedInterval y)] } := by
  constructor
  · cases hcompiled : CompiledLogic.ofLogic l.logic with
    | ok c => exact ⟨c, rfl⟩
    | error e =>
      exfalso
      unfold start at h
      split at h
      · exact ne_of_refuse h
      · rw [ExceptT.exec_bind, hcompiled] at h
        split at h
        · cases e <;> first | exact ne_of_refuse h | cases h
        · cases h
  · have hstarts := l.starts a
    rw [h] at hstarts
    have hruns := l.runs_start a
    rw [h] at hruns
    rcases hruns with hsame | ⟨y, -, hruns⟩
    · exact absurd hsame hstarts.ne_of_true
    · exact ⟨y, hruns⟩

namespace Link

section

variable {launch : Launch τ} {a b : System τ} {x : Float}
  (hruns : b.1 = { runs := a.1.runs ++ [(launch.journaled a.1.runs.length).newRun x] })

include hruns

theorem getElem?_of_added :
    b.1.runs[a.1.runs.length]? = some ((launch.journaled a.1.runs.length).newRun x) := by
  simp [hruns]

/-- At first there is nothing but a copy of the logic on its way to the worker. -/
theorem inbox_opened (outer : υ) (marks : Nat) :
    (opened a.1.runs.length a b outer marks).inbox =
      (Value.copyItems [launch.initMessage] marks).1 := by
  have hr := getElem?_of_added hruns
  simp only [opened, supervise, sentTo, State.isStopping, hr]
  rfl

theorem sound_opened (outer : υ) (marks : Nat) :
    (opened a.1.runs.length a b outer marks).Sound a.1.runs.length launch x := by
  have hr := getElem?_of_added hruns
  have hinbox := inbox_opened hruns outer marks
  refine ⟨⟨{ (launch.journaled a.1.runs.length).newRun x with inbox := [] }, ?_, rfl, rfl⟩, ?_, ?_,
    ?_, .fresh x _ outer⟩
  · show (b.1.runs.modify a.1.runs.length _)[a.1.runs.length]? = _
    rw [List.getElem?_modify_eq, hr]
    rfl
  · rw [hinbox]
    intro v hv
    obtain ⟨u, hu, halike⟩ := (Value.forall₂_copyItems _ _).exists_of_mem hv
    obtain rfl := List.mem_singleton.mp hu
    exact .of_alike ⟨fun _ => rfl, (nomatch ·)⟩ halike
  · rw [hinbox, Value.countP_copyItems]
    rfl
  · rw [hinbox, Value.countP_copyItems]
    rfl

end

/-! ### A start that nothing disturbs -/

theorem read_of_handled {l : Link τ υ} {peer : Peer υ} {f : Fields} {rest : List Value} {d : Desk υ}
    (hinbox : l.inbox = .object f :: rest) (hhandled : l.desk.handle peer f = (.ok true, d)) :
    l.read peer = Link.work { l with inbox := rest } true d := by
  simp only [read, hinbox, Value.fields?, hhandled, resume]

theorem hear_of_ready {l : Link τ υ} (res : Resources τ) {k : Nat} {r : Run (World τ)}
    (houtbox : l.outbox = [Notice.ready.toValue]) (hr : l.supervisor.1.runs[k]? = some r)
    (hinbox : r.inbox = []) :
    (l.hear res k).inbox = l.inbox ++ (Value.copyItems [r.startMessage] l.marks).1 ∧
      (l.hear res k).desk = l.desk ∧ (l.hear res k).serving = l.serving := by
  have htold : (attend k Notice.ready.toValue).exec l.supervisor = _ := exec_attend_ready hr rfl
  simp [hear, houtbox, exec_act_message, htold, supervise, sentTo, State.isStopping, State.change,
    hr, hinbox]

end Link

section

variable {launch : Launch τ} {a b : System τ} {res : Resources τ}
  (hstart : (act res (.start launch)).exec a = (.ok true, b))

include hstart

/-- Unless a NaN leads to a terminal of its logic, the worker of a run becomes ready and then
starts, when nothing else happens meanwhile. -/
theorem exists_started (hunused : ¬CompiledLogic.UsesNaN launch.logic) (outer : υ) (marks : Nat)
    (peer : Peer υ) :
    ∃ l, Relation.ReflTransGen (Link.Step res a.1.runs.length)
        (.opened a.1.runs.length a b outer marks) l ∧
      ∃ r, b.1.runs[a.1.runs.length]? = some r ∧
        l.desk.line.posted = [.ready, .started r.interval] := by
  rw [exec_act_start] at hstart
  obtain ⟨⟨c, hcompiled⟩, y, hruns⟩ := Launch.exists_of_start hstart
  let k := a.1.runs.length
  let r := (launch.journaled k).newRun (raisedInterval y)
  have hr : b.1.runs[k]? = some r := Link.getElem?_of_added hruns
  have hraised : r.interval = raisedInterval y := rfl
  let l := Link.opened k a b outer marks
  -- The worker takes up its copy of the logic.
  let f : Fields := [("type", .text "init"), ("stock", (launch.stock.copy marks).1),
    ("logic_data", (launch.logic.copy (launch.stock.copy marks).2).1)]
  have hinbox : l.inbox = [.object f] := Link.inbox_opened hruns outer marks
  have halike : launch.logic.Alike (Fields.get f "logic_data") := Value.alike_copy _ _
  have hcopy : CompiledLogic.ofLogic (Worker.logicOf f) = .ok c := by
    have hcompiled : CompiledLogic.ofLogic launch.logic = .ok c := hcompiled
    rw [Worker.logicOf, Value.orElse, ← halike.isTruthy_eq,
      if_pos (CompiledLogic.isTruthy_of_ofLogic hcompiled)]
    exact CompiledLogic.ofLogic_of_alike halike hcompiled hunused
  obtain ⟨m, hinit⟩ := Desk.init_of_ok peer l.desk hcopy
  have hready := Link.read_of_handled hinbox (Desk.handle_of_init peer rfl hinit)
  -- The supervisor tells it to start.
  have hfound : (l.read peer).supervisor.1.runs[k]? = some { r with inbox := [] } := by
    rw [hready]
    show (b.1.runs.modify k _)[k]? = _
    rw [List.getElem?_modify_eq, hr]
    rfl
  have houtbox : (l.read peer).outbox = [Notice.ready.toValue] := by
    rw [hready]
    rfl
  obtain ⟨hsent, hdesk, hserving⟩ := Link.hear_of_ready res houtbox hfound rfl
  let f' : Fields := [("type", .text "start"), ("interval", .real r.interval),
    ("log_details", (r.details.copy (l.read peer).marks).1)]
  have hempty : (l.read peer).inbox = [] := by
    rw [hready]
    rfl
  have hheard : ((l.read peer).hear res k).inbox = [.object f'] := by
    rw [hsent, hempty]
    rfl
  -- The worker starts.
  have hrun : ((((l.read peer).hear res k).desk.interpreter).map Interpreter.isRunnable).getD
      false = true := by
    rw [hdesk, hready]
    rfl
  have hbegun := Desk.start_of_raised (d := ((l.read peer).hear res k).desk) hraised (f := f') rfl
    hrun
  have hstarted := Link.read_of_handled hheard (Desk.handle_of_start peer rfl hbegun)
  have hgoing : ((l.read peer).hear res k).serving = true := by
    rw [hserving, hready]
    rfl
  refine ⟨((l.read peer).hear res k).read peer, ?_, r, hr, ?_⟩
  · exact .tail (.tail (.single (.read peer rfl)) .hear) (.read peer hgoing)
  · rw [hstarted, hdesk, hready]
    rfl

/-- However the steps of a supervisor and a worker interleave after a start that has succeeded, the
worker never says that there is nothing to start, and it says that the logic is refused only if a
NaN leads to a terminal of the logic. It says at most once that it is ready, then at most once that
it has started, and the interval it starts at is the one of the run. -/
theorem handshake_is_orderly (outer : υ) (marks : Nat) {l : Link τ υ}
    (hsteps : Relation.ReflTransGen (Link.Step res a.1.runs.length)
      (.opened a.1.runs.length a b outer marks) l) :
    (∀ reason, .initFailed reason ∈ l.desk.line.posted → CompiledLogic.UsesNaN launch.logic) ∧
    .error "Interpreter not initialized" ∉ l.desk.line.posted ∧
    l.desk.line.posted.countP Notice.isReady ≤ 1 ∧
    l.desk.line.posted.countP Notice.isStarted ≤ 1 ∧
    ∀ (i : Nat) (x : Float), l.desk.line.posted[i]? = some (.started x) →
      (∃ j < i, l.desk.line.posted[j]? = some .ready) ∧
      ∃ r, l.supervisor.1.runs[a.1.runs.length]? = some r ∧ x = r.interval := by
  rw [exec_act_start] at hstart
  obtain ⟨⟨c, hcompiled⟩, y, hruns⟩ := Launch.exists_of_start hstart
  have hsound := (Link.sound_opened hruns outer marks).steps hcompiled rfl hsteps
  have honce := hsound.once
  have hanswered := hsound.answered
  obtain ⟨r, hr, hinterval, -⟩ := hsound.run
  refine ⟨fun reason hmem => (hsound.worker.expected _ hmem).of_initFailed,
    fun hmem => (hsound.worker.expected _ hmem).ne_error rfl, ?_, ?_, fun i x hx => ⟨?_, r, hr, ?_⟩⟩
  · exact (Nat.le_add_left _ _).trans honce
  · exact (Nat.le_add_left _ _).trans (hanswered.trans ((Nat.le_add_left _ _).trans honce))
  · exact hsound.worker.ordered i x hx
  · rw [hinterval]
    exact (hsound.worker.expected _ (List.mem_of_getElem? hx)).eq_of_started

end

/-- The graph that the breakout logic is read from. -/
def breakoutRead (terminal unit : String) : Graph where
  nodes := [Graph.plainNode "order" terminal, Graph.plainNode "above" "compare",
    Graph.plainNode "price" "currentPrice", { Graph.plainNode "high" "highestPrice" with
      controls := .object [("periodUnit", .text unit)] }]
  connections := [Graph.plainConnection "above" "order", Graph.plainConnection "price" "above",
    Graph.plainConnection "high" "above"]
  viewport := .null
  extra := []

theorem breakoutRead_wellNamed (terminal unit : String) :
    (breakoutRead terminal unit).WellNamed := by
  constructor
  · intro n hn
    simp only [breakoutRead, List.mem_cons, List.not_mem_nil, or_false] at hn
    rcases hn with rfl | rfl | rfl | rfl
    · exact Graph.plainNode_wellNamed _ _
    · exact Graph.plainNode_wellNamed _ _
    · exact Graph.plainNode_wellNamed _ _
    · exact ⟨.inr ⟨_, rfl⟩, .inr ⟨_, rfl⟩, .inl rfl, .inr ⟨_, rfl⟩⟩
  · simp [breakoutRead, Graph.plainConnection, Value.IsName]
  · simp [breakoutRead, Graph.plainConnection, Value.IsName]

theorem not_usesNaN_breakoutLogic : ¬CompiledLogic.UsesNaN CompiledLogic.breakoutLogic := by
  rintro ⟨buy, sell, hread, hused⟩
  have hgraphs : Graph.ofLogic CompiledLogic.breakoutLogic =
      .ok (breakoutRead "buy" "day", breakoutRead "sell" "week") := by with_unfolding_all rfl
  obtain ⟨rfl, rfl⟩ := Prod.mk.inj (Except.ok.inj (hgraphs.symm.trans hread))
  exact hused.elim (Graph.not_usesNaN_of_wellNamed (breakoutRead_wellNamed _ _) _)
    (Graph.not_usesNaN_of_wellNamed (breakoutRead_wellNamed _ _) _)

/-- The logic is taken up, and its worker comes to start. -/
theorem breakout_start_is_orderly :
    let a : System Unit := ({}, ([], ()))
    let answered := (act ⟨none, none⟩ (.start breakoutLaunch)).exec a
    answered.1 = .ok true ∧
      ∃ l, Relation.ReflTransGen (Link.Step ⟨none, none⟩ 0) (.opened 0 a answered.2 () 0) l ∧
        (∃ r, answered.2.1.runs[0]? = some r ∧
          l.desk.line.posted = [.ready, .started r.interval]) ∧
        l.desk.line.posted.countP Notice.isStarted ≤ 1 := by
  intro a answered
  have hok : answered.1 = .ok true := by with_unfolding_all rfl
  have hstart : (act ⟨none, none⟩ (.start breakoutLaunch)).exec a = (.ok true, answered.2) :=
    Prod.ext hok rfl
  obtain ⟨l, hsteps, hposted⟩ :=
    exists_started hstart not_usesNaN_breakoutLogic () 0 ⟨fun _ t => (.nothing, t)⟩
  exact ⟨hok, l, hsteps, hposted, (handshake_is_orderly hstart () 0 hsteps).2.2.2.1⟩

/-! ### A NaN for an id -/

/-- A graph whose terminal has NaN for its id. The connection to it names the same NaN. -/
def unnamedGraph (terminal : String) : Value :=
  .object [
    ("nodes", .list [
      .object [("id", .undefined 0), ("kind", .text terminal)],
      .object [("id", .text "above"), ("kind", .text "compare")],
      .object [("id", .text "price"), ("kind", .text "currentPrice")]]),
    ("connections", .list [
      .object [("source", .text "above"), ("target", .undefined 0)],
      .object [("source", .text "price"), ("target", .text "above")],
      .object [("source", .text "price"), ("target", .text "above")]])]

def unnamedLaunch : Launch Unit :=
  { breakoutLaunch with
    logic := .object [("buyGraph", unnamedGraph "buy"), ("sellGraph", unnamedGraph "sell")] }

/-- The supervisor finds the connection to such a terminal, and the start succeeds. In the copy that
the worker gets the two NaNs are no longer one, and the worker refuses the logic. -/
theorem unnamed_start_is_refused :
    let a : System Unit := ({}, ([], ()))
    let answered := (act ⟨none, none⟩ (.start unnamedLaunch)).exec a
    answered.1 = .ok true ∧
      ∃ l, Relation.ReflTransGen (Link.Step ⟨none, none⟩ 0) (.opened 0 a answered.2 () 1) l ∧
        .initFailed "[buyGraph] MissingCondition: 'buy' node nan has no incoming condition" ∈
          l.desk.line.posted := by
  intro a answered
  let l : Link Unit Unit := .opened 0 a answered.2 () 1
  let peer : Peer Unit := ⟨fun _ t => (.nothing, t)⟩
  have hposted : (l.read peer).desk.line.posted.getLast? = some
      (.initFailed "[buyGraph] MissingCondition: 'buy' node nan has no incoming condition") := by
    with_unfolding_all rfl
  have hok : answered.1 = .ok true := by with_unfolding_all rfl
  exact ⟨hok, l.read peer, .single (.read peer rfl), List.mem_of_getLast? hposted⟩

end Supervisor

end TradingRules
