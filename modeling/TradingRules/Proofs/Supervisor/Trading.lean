import Mathlib.Data.List.Forall2
import TradingRules.Proofs.Interpreter.Trading
import TradingRules.Proofs.Supervisor.Boundary
import TradingRules.Proofs.Value.Order
import TradingRules.Supervisor.OneShot

/-!
# One-shot runs and ticks of workers

An order of a one-shot run goes to the broker at once. An order of a worker is written into a
message, read again by the supervisor, where missing and zero fields get defaults, and placed then.
Since the orders of an accepted logic have finite numbers, all that can change on the way is the
sign of a zero. So both kinds of runs make the same placements, up to that sign.
-/

namespace TradingRules

/-! ### Orders and placements that differ in nothing but the signs of zeros -/

/-- An order with a type of its own and finite numbers. -/
inductive OrderData.IsPlain : OrderData → Prop
  | mk {orderType : String} {price quantity : Float} (hprice : price.isFinite = true)
      (hquantity : quantity.isFinite = true) :
      IsPlain ⟨.text orderType, .real price, .real quantity⟩

theorem OrderData.isPlain_of_ofNode {n : Node} {graph : Option String} {o : OrderData}
    (h : OrderData.ofNode n graph = .ok o) : o.IsPlain := by
  obtain ⟨rawType, -, h⟩ := Outcome.bind_eq_ok.mp h
  simp only at h
  split at h
  · simp at h
  · obtain ⟨price, hprice, h⟩ := Outcome.bind_eq_ok.mp h
    obtain ⟨rawQuantity, -, h⟩ := Outcome.bind_eq_ok.mp h
    obtain ⟨quantity, hquantity, h⟩ := Outcome.bind_eq_ok.mp h
    cases h
    exact .mk (Node.isFinite_of_decimalControl hprice) (Node.isFinite_of_decimalControl hquantity)

theorem Graph.isPlain_of_compile {g : Graph} {name : String} {kind : NodeKind}
    {result : WithPeriods} {order : OrderData} (h : g.compile name kind = .ok (result, order)) :
    order.IsPlain := by
  obtain ⟨n, -, h⟩ := Outcome.bind_eq_ok.mp h
  obtain ⟨order', horder, h⟩ := Outcome.bind_eq_ok.mp h
  split at h
  · simp at h
  · obtain ⟨⟨⟩, -, h⟩ := Outcome.bind_eq_ok.mp h
    obtain ⟨result', -, h⟩ := Outcome.bind_eq_ok.mp h
    cases h
    exact OrderData.isPlain_of_ofNode horder

theorem CompiledLogic.isPlain_order {logic : Value} {c : CompiledLogic}
    (h : ofLogic logic = .ok c) (side : Side) : (c.order side).IsPlain := by
  obtain ⟨buy, sell, buyPeriods, sellPeriods, hbuy, hsell, -⟩ := exists_compile_of_ofLogic h
  cases side with
  | buy => exact Graph.isPlain_of_compile hbuy
  | sell => exact Graph.isPlain_of_compile hsell

/-- Two arguments are the same value, or doubles that are numerically equal. -/
def Value.Agrees (a b : Value) : Prop :=
  a = b ∨ ∃ x y : Float, a = .real x ∧ b = .real y ∧ (x == y) = true

/-- Two placements call the same method with arguments that agree. -/
def Order.Placement.Agrees (p q : Order.Placement) : Prop :=
  p.method = q.method ∧ List.Forall₂ Value.Agrees p.params q.params

structure OrderData.Agrees (o o' : OrderData) : Prop where
  orderType : o.orderType = o'.orderType
  limitPrice : o.limitPrice.Agrees o'.limitPrice
  quantity : o.quantity.Agrees o'.quantity

theorem Order.Placement.agrees_ofOrder (side : Side) {o o' : OrderData} (h : o.Agrees o')
    (stock : Value) : (ofOrder side o stock).Agrees (ofOrder side o' stock) := by
  have hstock : stock.Agrees stock := .inl rfl
  unfold ofOrder
  rw [h.orderType]
  split
  · exact ⟨rfl, .cons hstock (.cons h.quantity .nil)⟩
  · exact ⟨rfl, .cons hstock (.cons h.quantity .nil)⟩
  · exact ⟨rfl, .cons hstock (.cons h.limitPrice (.cons h.quantity .nil))⟩
  · exact ⟨rfl, .cons hstock (.cons h.limitPrice (.cons h.quantity .nil))⟩

/-- A finite number is read again as one that is equal to it: zero is read as the default. -/
theorem exists_toFloat_orElse_zero {x : Float} (h : x.isFinite = true) :
    ∃ y, ((Value.real x).orElse (.real 0.0)).toFloat = .ok y ∧ y.isFinite = true ∧
      (x == y) = true := by
  cases hzero : x != 0.0 with
  | true =>
    have hread : (Value.real x).orElse (.real 0.0) = .real x := if_pos hzero
    exact ⟨x, by rw [hread]; rfl, h, Number.beq_self_of_isFinite h⟩
  | false =>
    have hfalsy : (Value.real x).isTruthy = false := hzero
    have hread : (Value.real x).orElse (.real 0.0) = .real 0.0 := by simp [Value.orElse, hfalsy]
    exact ⟨0.0, by rw [hread]; rfl, by decide, by simpa [bne] using hzero⟩

/-- A plain order that is read again from a message. -/
theorem Supervisor.exists_orderOf {o : OrderData} (ho : o.IsPlain) {f : Fields}
    (hf : Fields.get f "order" = o.toValue) :
    ∃ o', orderOf f = .ok o' ∧ o'.IsPlain ∧ o.Agrees o' := by
  cases ho with
  | @mk orderType price quantity hprice hquantity =>
    obtain ⟨price', hreadPrice, hprice', hsamePrice⟩ := exists_toFloat_orElse_zero hprice
    obtain ⟨quantity', hreadQuantity, hquantity', hsameQuantity⟩ :=
      exists_toFloat_orElse_zero hquantity
    let raw : Fields := [("orderType", .text orderType), ("limitPrice", .real price),
      ("quantity", .real quantity)]
    have hraw : ((Fields.get f "order").orElse (.object [])).asFields = .ok raw := by
      rw [hf]
      rfl
    have hgivenPrice : ((Fields.get raw "limitPrice").orElse (.real 0.0)).toFloat = .ok price' :=
      hreadPrice
    have hgivenQuantity : ((Fields.get raw "quantity").orElse (.real 0.0)).toFloat =
      .ok quantity' := hreadQuantity
    refine ⟨⟨.text orderType, .real price', .real quantity'⟩, ?_, .mk hprice' hquantity', rfl,
      .inr ⟨_, _, rfl, rfl, hsamePrice⟩, .inr ⟨_, _, rfl, rfl, hsameQuantity⟩⟩
    rw [orderOf, hraw, Outcome.ok_bind, hgivenPrice, Outcome.ok_bind, hgivenQuantity,
      Outcome.ok_bind]
    rfl

/-- What stands for a missing stock gives way to the stock that was missing. -/
theorem Value.orElse_orElse_self (v : Value) : (v.orElse (.text "")).orElse v = v := by
  have hempty : (Value.text "").isTruthy = false := rfl
  cases hv : v.isTruthy <;> simp [orElse, hv, hempty]

def Worker.Notice.isLog : Worker.Notice → Bool
  | log _ _ => true
  | _ => false

namespace Supervisor

open Worker (Desk Line Notice Peer)

variable {σ τ : Type}

/-- What a broker works with, and the placements that were made before. -/
abbrev Ledger (σ : Type) := List Order.Placement × σ

/-- A broker that keeps a record of its placements. -/
def recorded (broker : Order.Broker σ) : Order.Broker (Ledger σ) where
  place p w := ((broker.place p w.2).1, (w.1 ++ [p], (broker.place p w.2).2))

/-- A broker that answers with an object or with nothing, unless it fails. -/
def IsBroker (broker : Order.Broker σ) : Prop :=
  ∀ p s v, (broker.place p s).1 = .ok v → v = .null ∨ ∃ f, v = .object f

/-- The placements of an order. -/
def placements (broker : Option (Order.Broker σ)) (side : Side) (order : OrderData)
    (stock : Value) : List Order.Placement :=
  (broker.map fun _ => .ofOrder side order stock).toList

section

variable {broker : Option (Order.Broker σ)} {o : OrderData} {side : Side}

theorem agrees_placements (broker : Option (Order.Broker σ)) (side : Side) {o o' : OrderData}
    (h : o.Agrees o') (stock : Value) : List.Forall₂ Order.Placement.Agrees
      (placements broker side o stock) (placements broker side o' stock) := by
  cases broker with
  | none => exact .nil
  | some b => exact .cons (Order.Placement.agrees_ofOrder side h stock) .nil

/-- The placements that a message of a worker asks for, where the stock is the one of the run. -/
def ordered (broker : Option (Order.Broker σ)) (stock : Value) : Notice → List Order.Placement
  | .order side _ o => placements broker side o stock
  | _ => []

theorem exists_describe (ho : o.IsPlain) (action : Value) :
    ∃ description, Order.describe action o = .ok description := by
  obtain ⟨-, -⟩ := ho
  unfold Order.describe
  split
  · split <;> exact ⟨_, rfl⟩
  · exact ⟨_, rfl⟩

/-- A broker that answers as it should leaves nothing to fail. -/
theorem exists_result_settle (title description : String) (stock : Value) (opening : Order.Entry)
    {answer : Outcome Value} (h : ∀ v, answer = .ok v → v = .null ∨ ∃ f, v = .object f) :
    ∃ v, (Order.settle title description stock opening answer).result = .ok v := by
  cases answer with
  | error e => exact ⟨_, rfl⟩
  | ok report =>
    have hfields : ∃ f, Order.answerOf report = .object f := by
      rcases h report rfl with rfl | ⟨f, rfl⟩
      · exact ⟨_, rfl⟩
      · unfold Order.answerOf Value.orElse
        split <;> exact ⟨_, rfl⟩
    obtain ⟨f, hf⟩ := hfields
    rw [Order.settle, hf]
    unfold Order.closingEntry
    cases hsuccess : (Fields.get f "success").isTruthy <;>
    simp [Value.asFields, hsuccess]

/-- A plain order is placed once if there is a broker, and its execution does not fail. -/
theorem execute_recorded (hbroker : ∀ b ∈ broker, IsBroker b) (ho : o.IsPlain) (side : Side)
    (stock : Value) (w : Ledger σ) :
    let executed := Order.execute (broker.map recorded) (.text side.name) o stock w
    (∃ v, executed.1.result = .ok v) ∧
      executed.2.1 = w.1 ++ placements broker side o stock := by
  intro executed
  obtain ⟨description, hdescription⟩ := exists_describe ho (.text side.name)
  cases broker with
  | none =>
    simp only [executed, Option.map_none, Order.execute, hdescription]
    exact ⟨⟨_, rfl⟩, (List.append_nil _).symm⟩
  | some b =>
    simp only [executed, Option.map_some, Order.execute, hdescription, Side.ofValue?_name]
    exact ⟨exists_result_settle _ _ _ _ (hbroker b rfl _ _), rfl⟩

/-- A one-shot run deals with a broker whose placements are recorded. -/
structure Scene.Deals (scene : Scene (Ledger σ)) (broker : Option (Order.Broker σ)) : Prop where
  broker : scene.broker = broker.map recorded
  log : ∀ title message w, (scene.log title message w).1 = w.1

variable {scene : Scene (Ledger σ)}

theorem Scene.Deals.logAll (h : scene.Deals broker) (entries : List Order.Entry) (w : Ledger σ) :
    (scene.logAll entries w).1 = w.1 := by
  rw [Scene.logAll]
  induction entries generalizing w with
  | nil => rfl
  | cons e rest ih =>
    rw [List.foldl_cons, ih, h.log]

/-- In a one-shot run the placements are seen. -/
theorem Scene.Deals.shows (h : scene.Deals broker) (hbroker : ∀ b ∈ broker, IsBroker b)
    {logic : Value} {c : CompiledLogic}
    (hcompiled : CompiledLogic.ofLogic logic = .ok c) :
    scene.surroundings.Shows c (·.1) fun side stock =>
      placements broker side (c.order side) stock where
  log := h.log
  executor := by
    refine ⟨scene.executor, rfl, fun side stock => ⟨_, rfl, fun w => ?_⟩⟩
    obtain ⟨⟨v, hv⟩, hplaced⟩ :=
      execute_recorded hbroker (c.isPlain_order hcompiled side) side stock w
    rw [← h.broker] at hv hplaced
    have hresult : ((Order.execute scene.broker (.text side.name) (c.order side) stock
        w).1.result.map fun _ => ()) = .ok () := by
      rw [hv]
      rfl
    exact ⟨hresult, (h.logAll _ _).trans hplaced⟩

end

/-- In a worker the messages that are no entries of the log are seen. -/
theorem shows_notices (peer : Peer τ) (c : CompiledLogic) :
    (Desk.surroundings peer).Shows c (fun line => line.posted.filter (!·.isLog))
      fun side stock => [.order side stock (c.order side)] where
  log title message line := by
    simp [Desk.surroundings, Line.post, Worker.Notice.isLog]
  executor := by
    refine ⟨_, rfl, fun side stock => ⟨_, rfl, fun line => ⟨rfl, ?_⟩⟩⟩
    simp [Line.post, Worker.Notice.isLog]

/-! ### Messages of a run in progress -/

/-- Whatever the ledger, an action succeeds, leaves the runs as they are, and makes placements that
agree with those expected. -/
def Makes {α : Type} (st : State (Ledger σ)) (expected : List Order.Placement)
    (x : Action (Ledger σ) α) : Prop :=
  ∀ w, ∃ a w' made, x.exec (st, w) = (.ok a, (st, w')) ∧ w'.1 = w.1 ++ made ∧
    List.Forall₂ Order.Placement.Agrees expected made

namespace Makes

variable {α β : Type} {st : State (Ledger σ)} {first second : List Order.Placement}

theorem pure (a : α) : Makes st [] (pure a : Action (Ledger σ) α) :=
  fun w => ⟨a, w, [], rfl, (List.append_nil _).symm, .nil⟩

theorem bind {x : Action (Ledger σ) α} {f : α → Action (Ledger σ) β} (hx : Makes st first x)
    (hf : ∀ a, Makes st second (f a)) : Makes st (first ++ second) (x >>= f) := by
  intro w
  obtain ⟨a, w₁, made₁, hexec₁, hrecord₁, hagree₁⟩ := hx w
  obtain ⟨b, w₂, made₂, hexec₂, hrecord₂, hagree₂⟩ := hf a w₁
  refine ⟨b, w₂, made₁ ++ made₂, ?_, ?_, List.rel_append hagree₁ hagree₂⟩
  · rw [ExceptT.exec_bind_ok hexec₁, hexec₂]
  · rw [hrecord₂, hrecord₁, List.append_assoc]

end Makes

section

variable {k : Nat} {r : Run (Ledger σ)} {st : State (Ledger σ)} {res : Resources (Ledger σ)}
  {broker : Option (Order.Broker σ)}

/-- A supervisor deals for a run that is not stopping, with a broker whose placements are
recorded. -/
structure Deals (res : Resources (Ledger σ)) (st : State (Ledger σ)) (k : Nat)
    (r : Run (Ledger σ)) (broker : Option (Order.Broker σ)) : Prop where
  broker : res.broker = broker.map recorded
  run : st.runs[k]? = some r
  live : r.stopping = false
  log : ∀ title message w, (r.log title message w).2.1 = w.1

variable (h : Deals res st k r broker)

include h

theorem makes_emit (title message : Value) : Makes st [] (emit k title message) := by
  intro w
  have hexec : (emit k title message).exec (st, w) = (.ok (), (st, (r.log title message w).2)) := by
    rw [exec_emit, h.run]
    simp [h.live]
  exact ⟨(), _, [], hexec, by simp [h.log], .nil⟩

theorem makes_emitAll (entries : List Order.Entry) : Makes st [] (emitAll k entries) := by
  induction entries with
  | nil => exact .pure ()
  | cons e rest ih => exact (makes_emit h _ _).bind fun _ => ih

/-- A message that only leads to an entry of the log. -/
theorem makes_listen_entry {message title content : Value}
    (hhandle : (handle k message : Action (Ledger σ) (Option Task)) =
      emit k title content >>= fun _ => pure none) :
    Makes st [] (listen res k message) := by
  intro w
  obtain ⟨a, w', made, hexec, hmade⟩ := makes_emit h title content w
  have hhandled : (handle k message : Action _ (Option Task)).exec (st, w) =
      (.ok none, (st, w')) := by
    rw [hhandle, ExceptT.exec_bind_ok hexec]
    rfl
  exact ⟨(), w', made, exec_listen_of_handled _ _ _ hhandled, hmade⟩

/-- An order that comes in a message is placed as the order that was written into it. -/
theorem makes_listen_order (hbroker : ∀ b ∈ broker, IsBroker b) {o : OrderData} (ho : o.IsPlain)
    (side : Side) :
    Makes st (placements broker side o r.stock)
      (listen res k (Notice.order side (r.stock.orElse (.text "")) o).toValue) := by
  let data : Fields := [("type", .text "order"), ("action", .text side.name),
    ("stock", r.stock.orElse (.text "")), ("order", o.toValue)]
  have hstock : (Fields.get data "stock").orElse r.stock = r.stock := r.stock.orElse_orElse_self
  obtain ⟨o', horder, ho', hagrees⟩ := exists_orderOf ho (f := data) rfl
  have hmakes : Makes st (placements broker side o r.stock) (handleOrder res k data) := by
    intro w
    obtain ⟨⟨v, hv⟩, hplaced⟩ := execute_recorded hbroker ho' side r.stock w
    rw [← h.broker] at hv hplaced
    let executed := Order.execute res.broker (.text side.name) o' r.stock w
    obtain ⟨a, w', made, hexec, hrecord, hnone⟩ :=
      makes_emitAll h executed.1.entries executed.2
    refine ⟨(), w', placements broker side o' r.stock ++ made, ?_, ?_, ?_⟩
    · rw [handleOrder, ExceptT.exec_liftM_bind_ok horder, ExceptT.exec_bind_ok (exec_run? k _)]
      simp only [h.run, h.live, Bool.not_false, if_true, hstock, ExceptT.exec_bind_ok
        (ExceptT.exec_get _), ExceptT.exec_bind_ok (ExceptT.exec_set _ _)]
      exact (ExceptT.exec_bind_ok hexec _).trans (ExceptT.exec_liftM_bind_ok hv _ _)
    · rw [hrecord, hplaced, List.append_assoc]
    · obtain rfl := List.forall₂_nil_left_iff.mp hnone
      rw [List.append_nil]
      exact agrees_placements broker side hagrees r.stock
  intro w
  obtain ⟨a, w', made, hexec, hmade⟩ := hmakes w
  have htask : (handle k (Notice.order side (r.stock.orElse (.text "")) o).toValue :
      Action _ (Option Task)).exec (st, w) = (.ok (some (.order data)), (st, w)) := rfl
  refine ⟨(), w', made, ?_, hmade⟩
  rw [exec_listen_of_task _ _ _ htask, perform, hexec]

/-- What a run may post: entries, reports of failures, and its orders. -/
inductive IsTrade (stock : Value) : Notice → Prop
  | log (title message : String) : IsTrade stock (.log title message)
  | error (message : String) : IsTrade stock (.error message)
  | order (side : Side) {o : OrderData} (ho : o.IsPlain) : IsTrade stock (.order side stock o)

theorem makes_listen (hbroker : ∀ b ∈ broker, IsBroker b) {n : Notice}
    (hn : IsTrade (r.stock.orElse (.text "")) n) :
    Makes st (ordered broker r.stock n) (listen res k n.toValue) := by
  cases hn with
  | log title message => exact makes_listen_entry h rfl
  | error message => exact makes_listen_entry h rfl
  | order side ho => exact makes_listen_order h hbroker ho side

theorem makes_listenAll (hbroker : ∀ b ∈ broker, IsBroker b) {notices : List Notice}
    (hnotices : ∀ n ∈ notices, IsTrade (r.stock.orElse (.text "")) n) :
    Makes st (notices.flatMap (ordered broker r.stock)) (listenAll res k notices) := by
  induction notices with
  | nil => exact .pure ()
  | cons n rest ih =>
    have hfirst := makes_listen h hbroker (hnotices n List.mem_cons_self)
    exact hfirst.bind fun _ => ih fun m hm => hnotices m (List.mem_cons_of_mem n hm)

end

/-- What is posted about the outcome of a run. -/
def reported : Outcome Decision → List Notice
  | .ok _ => []
  | .error e => [.error s!"{e.kind}: {e.message}"]

/-- A worker that has posted nothing yet and whose next tick is a run of its interpreter. -/
structure IsDue (d : Desk τ) (scheduler : Worker.Scheduler) (j : Interpreter) : Prop where
  held : scheduler.held = none
  scheduler : d.scheduler = some scheduler
  interpreter : d.interpreter = some j
  posted : d.line.posted = []

/-- A tick posts what its run posts, and at the end what became of it. -/
theorem IsDue.posted_tick (peer : Peer τ) {d : Desk τ} {scheduler : Worker.Scheduler}
    {j : Interpreter} (h : IsDue d scheduler j) :
    let ran := (Interpreter.run (Desk.surroundings peer) scheduler.details).exec (j, d.line)
    (d.tick peer).line.posted = ran.2.2.posted ++ reported ran.1 := by
  obtain ⟨interpreter, kept, line⟩ := d
  obtain rfl : interpreter = some j := h.interpreter
  obtain rfl : kept = some scheduler := h.scheduler
  intro ran
  let ranDesk : Desk τ := ⟨some j, some scheduler, ran.2.2⟩
  have htick : Desk.tick peer ⟨some j, some scheduler, line⟩ =
      { ranDesk.reportRun ran.1 with interpreter := some ran.2.1 } := by
    unfold Desk.tick
    simp only [h.held]
    rfl
  rw [htick]
  show (ranDesk.reportRun ran.1).line.posted = _
  cases ran.1 with
  | ok decision => exact (List.append_nil _).symm
  | error e => rfl

/-- An interpreter that is about to run a logic. -/
structure Awaits (i : Interpreter) (c : CompiledLogic) (stock : Value) : Prop where
  compiled : i.compiled = some c
  runnable : i.isRunnable = true
  free : i.locked = false
  stock : i.stock = stock

theorem flatMap_ordered_filter (broker : Option (Order.Broker σ)) (stock : Value)
    (notices : List Notice) : (notices.filter (!·.isLog)).flatMap (ordered broker stock) =
      notices.flatMap (ordered broker stock) := by
  induction notices with
  | nil => rfl
  | cons n rest ih =>
    cases hlog : n.isLog with
    | true =>
      have hnone : ordered broker stock n = [] := by
        cases n <;> first | rfl | cases hlog
      simp [hlog, hnone, ih]
    | false => simp [hlog, ih]

section

variable {d : Desk τ} {scheduler : Worker.Scheduler} {j : Interpreter}
  {logic stock : Value} {c : CompiledLogic}

/-- The messages of a tick, besides the entries of the log: an order for each side that is traded,
and the report if the run fails. -/
theorem IsDue.filter_posted_tick (peer : Peer τ) (h : IsDue d scheduler j)
    (hcompiled : CompiledLogic.ofLogic logic = .ok c) (hawaits : Awaits j c stock) :
    (d.tick peer).line.posted.filter (!·.isLog) =
      (c.traded j.market).map (fun side => .order side stock (c.order side)) ++
        reported (c.decision j.market) := by
  obtain ⟨hdecision, hseen⟩ := Interpreter.exec_run_shown hcompiled (shows_notices peer c)
    hawaits.compiled hawaits.runnable hawaits.free scheduler.details d.line
  have hreported : (reported (c.decision j.market)).filter (!·.isLog) =
      reported (c.decision j.market) := by
    cases c.decision j.market <;> rfl
  rw [h.posted_tick peer, List.filter_append, hseen, hdecision, h.posted, hawaits.stock,
    hreported, List.map_eq_flatMap]
  rfl

/-- What a worker posts for one tick, told from the messages that are no entries of the log. -/
theorem isTrade_of_filter (hcompiled : CompiledLogic.ofLogic logic = .ok c) {sides : List Side}
    {outcome : Outcome Decision} {notices : List Notice}
    (hnotices : notices.filter (!·.isLog) =
      sides.map (fun side => .order side stock (c.order side)) ++ reported outcome) :
    ∀ n ∈ notices, IsTrade stock n := by
  intro n hn
  cases hlog : n.isLog with
  | true => cases n <;> first | exact .log _ _ | cases hlog
  | false =>
    have hmem : n ∈ sides.map (fun side => .order side stock (c.order side)) ++
        reported outcome := by
      rw [← hnotices]
      exact List.mem_filter.mpr ⟨hn, by simp [hlog]⟩
    rcases List.mem_append.mp hmem with horder | hreport
    · obtain ⟨side, -, rfl⟩ := List.mem_map.mp horder
      exact .order side (c.isPlain_order hcompiled side)
    · cases outcome with
      | ok decision => cases hreport
      | error e =>
        obtain rfl := List.mem_singleton.mp hreport
        exact .error _

theorem flatMap_ordered_of_filter (broker : Option (Order.Broker σ)) (ordinary : Value)
    {sides : List Side} {outcome : Outcome Decision} {notices : List Notice}
    (hnotices : notices.filter (!·.isLog) =
      sides.map (fun side => .order side stock (c.order side)) ++ reported outcome) :
    notices.flatMap (ordered broker ordinary) =
      sides.flatMap fun side => placements broker side (c.order side) ordinary := by
  have hreported : (reported outcome).flatMap (ordered broker ordinary) = [] := by
    cases outcome <;> rfl
  rw [← flatMap_ordered_filter, hnotices, List.flatMap_append, hreported, List.append_nil,
    List.flatMap_map]
  rfl

end

/-- A one-shot run and a tick of a worker trade alike. Both are about to run one logic for one stock
on the same market data, and the broker answers with an object or with nothing, unless it fails.
Then the runs come to the same, be it a decision or a fault, and the placements that the supervisor
makes when it handles the messages of the tick are those of the one-shot run, in the same order and
with numerically equal arguments. -/
theorem one_shot_trades_as_worker {logic : Value} {c : CompiledLogic}
    (hcompiled : CompiledLogic.ofLogic logic = .ok c) (stock : Value)
    {broker : Option (Order.Broker σ)} (hbroker : ∀ b ∈ broker, IsBroker b)
    {scene : Scene (Ledger σ)} (hscene : scene.Deals broker)
    {i : Interpreter} (hi : Awaits i c stock)
    (peer : Peer τ) {d : Desk τ} {j : Interpreter} {scheduler : Worker.Scheduler}
    (hd : IsDue d scheduler j) (hj : Awaits j c (stock.orElse (.text "")))
    (hdata : i.market.SameData j.market)
    {res : Resources (Ledger σ)} {st : State (Ledger σ)} {k : Nat} {r : Run (Ledger σ)}
    (hdeals : Deals res st k r broker) (hstock : r.stock = stock) (details : Bool) (s t : σ) :
    let once := (Interpreter.run scene.surroundings details).exec (i, ([], s))
    let ran := (Interpreter.run (Desk.surroundings peer) scheduler.details).exec (j, d.line)
    let notices := (d.tick peer).line.posted
    let handled := (listenAll res k notices).exec (st, ([], t))
    once.1 = ran.1 ∧ notices = ran.2.2.posted ++ reported ran.1 ∧ handled.1 = .ok () ∧
      List.Forall₂ Order.Placement.Agrees once.2.2.1 handled.2.2.1 := by
  intro once ran notices handled
  obtain ⟨honce, hmade⟩ := Interpreter.exec_run_shown hcompiled (hscene.shows hbroker hcompiled)
    hi.compiled hi.runnable hi.free details ([], s)
  obtain ⟨hran, -⟩ := Interpreter.exec_run_shown hcompiled (shows_notices peer c) hj.compiled
    hj.runnable hj.free scheduler.details d.line
  have hfiltered := hd.filter_posted_tick peer hcompiled hj
  have htrade : ∀ n ∈ notices, IsTrade (r.stock.orElse (.text "")) n := by
    rw [hstock]
    exact isTrade_of_filter hcompiled hfiltered
  obtain ⟨⟨⟩, w, made, hexec, hrecord, hagrees⟩ := makes_listenAll hdeals hbroker htrade ([], t)
  have hhandled : handled = (.ok (), (st, w)) := hexec
  refine ⟨?_, hd.posted_tick peer, by rw [hhandled], ?_⟩
  · exact honce.trans ((CompiledLogic.decision_congr hdata).trans hran.symm)
  · have hordered := flatMap_ordered_of_filter broker r.stock hfiltered
    rw [hordered, hstock, ← CompiledLogic.traded_congr hdata] at hagrees
    rw [hhandled, hrecord, hmade, hi.stock]
    exact hagrees

/-- The breakout logic buys once, and then both runs fail for want of the highest price of the
week. -/
theorem breakout_trades_alike :
    let broker : Order.Broker Unit := ⟨fun _ s => (.ok .null, s)⟩
    let scene : Scene (Ledger Unit) := ⟨none, some (recorded broker), fun _ _ w => w⟩
    let res : Resources (Ledger Unit) := ⟨none, some (recorded broker)⟩
    let peer : Peer Unit := ⟨fun _ t => (.nothing, t)⟩
    let i := Interpreter.breakoutInterpreter
    let d : Desk Unit := ⟨some i, some ⟨5.0, false, none⟩, ⟨{}, [], ()⟩⟩
    let st : State (Ledger Unit) := { runs := [{ idleRun (Ledger Unit) with stock := i.stock }] }
    let once := (Interpreter.run scene.surroundings false).exec (i, ([], ()))
    let handled := (listenAll res 0 (d.tick peer).line.posted).exec (st, ([], ()))
    once.1 = .error (.dataNotReady "week" "1") ∧ once.2.2.1.length = 1 ∧
      List.Forall₂ Order.Placement.Agrees once.2.2.1 handled.2.2.1 := by
  intro broker scene res peer i d st once handled
  have hbroker : ∀ b ∈ some broker, IsBroker b := by
    intro b hb p s v hv
    obtain rfl := Option.some.inj hb
    exact .inl (Except.ok.inj hv).symm
  have hawaits : Awaits i CompiledLogic.breakout i.stock := ⟨rfl, rfl, rfl, rfl⟩
  have hscene : scene.Deals (some broker) := ⟨rfl, fun _ _ _ => rfl⟩
  have hd : IsDue d ⟨5.0, false, none⟩ i := ⟨rfl, rfl, rfl, rfl⟩
  have hdeals : Deals res st 0 { idleRun (Ledger Unit) with stock := i.stock } (some broker) :=
    ⟨rfl, rfl, rfl, fun _ _ _ => rfl⟩
  obtain ⟨-, -, -, hplaced⟩ := one_shot_trades_as_worker CompiledLogic.ofLogic_breakoutLogic
    i.stock hbroker hscene hawaits peer hd hawaits (.refl _) hdeals rfl false () ()
  obtain ⟨hfails, hmade⟩ := Interpreter.exec_run_shown CompiledLogic.ofLogic_breakoutLogic
    (hscene.shows hbroker CompiledLogic.ofLogic_breakoutLogic) hawaits.compiled hawaits.runnable
    hawaits.free false ([], ())
  have hdecision : CompiledLogic.breakout.decision Interpreter.breakoutInterpreter.market =
      .error (.dataNotReady "week" "1") := by
    with_unfolding_all rfl
  have htraded : CompiledLogic.breakout.traded Interpreter.breakoutInterpreter.market =
      [.buy] := by
    decide +kernel
  refine ⟨hfails.trans hdecision, ?_, hplaced⟩
  rw [hmade, htraded]
  rfl

end Supervisor

end TradingRules
