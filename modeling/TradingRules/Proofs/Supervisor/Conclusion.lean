import TradingRules.Proofs.Interpreter.Undisturbed
import TradingRules.Supervisor.OneShot

/-!
# How one-shot runs end

A one-shot run that comes to nothing says so in the last entry of its log, and nothing else that it
logs reads like that entry. So its answer can be told from its log. Everything between a parse that
succeeds and the end only adds remarks: entries that do not close the log.

How the data are waited for makes no difference. A source that is too slow lets the wait run out,
and whatever came in until then is what the logic is evaluated on.
-/

namespace TradingRules

namespace Order.Entry

/-- An entry that says that a one-shot run came to nothing. -/
def IsClosing (e : Entry) : Prop :=
  e.title = "Error" ∧
    ("Logic parse failed".toList <+: e.message.toList ∨ "Run failed".toList <+: e.message.toList)

instance : DecidablePred IsClosing := fun e =>
  inferInstanceAs (Decidable (e.title = "Error" ∧
    ("Logic parse failed".toList <+: e.message.toList ∨ "Run failed".toList <+: e.message.toList)))

variable {e : Entry}

theorem not_isClosing_of_title (h : e.title ≠ "Error") : ¬e.IsClosing :=
  fun hclosing => h hclosing.1

/-- The first two characters tell the entries apart. -/
theorem not_isClosing_of_start {c d : Char} {rest : List Char}
    (h : e.message.toList = c :: d :: rest)
    (hstart : [c, d] ∈ [['O', 'r'], ['M', 'a'], ['L', 'i']]) : ¬e.IsClosing := by
  have htake : e.message.toList.take 2 = [c, d] := by rw [h]; rfl
  rintro ⟨-, ⟨after, hafter⟩ | ⟨after, hafter⟩⟩
  · have hlogic : ['L', 'o'] = [c, d] := by rw [← htake, ← hafter]; rfl
    rw [← hlogic] at hstart
    revert hstart
    decide
  · have hrun : ['R', 'u'] = [c, d] := by rw [← htake, ← hafter]; rfl
    rw [← hrun] at hstart
    revert hstart
    decide

theorem isClosing_of_parse (reason : String) :
    IsClosing ⟨"Error", s!"Logic parse failed: {reason}"⟩ :=
  ⟨rfl, .inl ⟨": ".toList ++ reason.toList, by simp only [String.toList_append]; rfl⟩⟩

theorem isClosing_of_run (fault : Fault) :
    IsClosing ⟨"Error", Supervisor.Scene.failureText fault⟩ :=
  ⟨rfl, .inr ⟨": ".toList ++ fault.kind.toList ++ ": ".toList ++ fault.message.toList, by
    simp only [Supervisor.Scene.failureText, String.toList_append]
    rfl⟩⟩

end Order.Entry

theorem Side.title_ne_error (side : Side) : side.title ≠ "Error" := by
  cases side <;> decide

namespace Order

/-- Orders are market orders or limit orders. -/
theorem exists_description {action : Value} {order : OrderData} {description : String}
    (h : describe action order = .ok description) : ∃ rest,
      description.toList = 'm' :: 'a' :: rest ∨ description.toList = 'l' :: 'i' :: rest := by
  rw [describe] at h
  split at h
  · split at h
    · obtain ⟨units, -, h⟩ := Outcome.bind_eq_ok.mp h
      obtain rfl := Except.ok.inj h
      exact ⟨_, .inl (by simp only [String.toList_append]; rfl)⟩
    · obtain ⟨amount, -, h⟩ := Outcome.bind_eq_ok.mp h
      obtain rfl := Except.ok.inj h
      exact ⟨_, .inl (by simp only [String.toList_append]; rfl)⟩
  · obtain ⟨amount, -, h⟩ := Outcome.bind_eq_ok.mp h
    obtain ⟨price, -, h⟩ := Outcome.bind_eq_ok.mp h
    obtain rfl := Except.ok.inj h
    exact ⟨_, .inr (by simp only [String.toList_append]; rfl)⟩

theorem exists_capitalize {description : String} {rest : List Char}
    (h : description.toList = 'm' :: 'a' :: rest ∨ description.toList = 'l' :: 'i' :: rest) :
    ∃ rest', (Text.capitalize description).toList = 'M' :: 'a' :: rest' ∨
      (Text.capitalize description).toList = 'L' :: 'i' :: rest' := by
  rw [Text.capitalize]
  rcases h with h | h
  · rw [h]
    exact ⟨_, .inl String.toList_ofList⟩
  · rw [h]
    exact ⟨_, .inr String.toList_ofList⟩

theorem not_isClosing_of_closingEntry {side : Side} {action stock answer : Value}
    {order : OrderData} {description : String} {e : Entry}
    (hdescription : describe action order = .ok description)
    (h : closingEntry side.title description stock answer = .ok e) : ¬e.IsClosing := by
  obtain ⟨rest, hrest⟩ := exists_description hdescription
  obtain ⟨rest', hcapital⟩ := exists_capitalize hrest
  obtain ⟨fields, -, h⟩ := Outcome.bind_eq_ok.mp h
  split at h
  · obtain rfl := Except.ok.inj h
    exact Entry.not_isClosing_of_title side.title_ne_error
  · obtain rfl := Except.ok.inj h
    have hmessage : ∀ {c d : Char}, (Text.capitalize description).toList = c :: d :: rest' →
        (Text.capitalize description ++ " failed: " ++ (fields.get "error").shown).toList =
          c :: d :: (rest' ++ " failed: ".toList ++ (fields.get "error").shown.toList) := by
      intro c d hstart
      rw [String.toList_append, String.toList_append, hstart]
      rfl
    rcases hcapital with hcapital | hcapital
    · exact Entry.not_isClosing_of_start (hmessage hcapital) (by decide)
    · exact Entry.not_isClosing_of_start (hmessage hcapital) (by decide)

/-- What the execution of an order logs does not read like the end of a run. -/
theorem not_isClosing_of_execute {σ : Type} (broker : Option (Broker σ)) (side : Side)
    (order : OrderData) (stock : Value) (s : σ) :
    ∀ e ∈ (execute broker (.text side.name) order stock s).1.entries, ¬e.IsClosing := by
  have htitle : ∀ message, ¬Entry.IsClosing ⟨side.title, message⟩ := fun message =>
    Entry.not_isClosing_of_title side.title_ne_error
  have hfailed : ∀ (description : String) (e : Fault), ¬Entry.IsClosing
      ⟨"Error", s!"Order processing error ({description}): {e.message}"⟩ := by
    intro description e
    obtain ⟨rest, hmessage⟩ : ∃ rest,
        s!"Order processing error ({description}): {e.message}".toList = 'O' :: 'r' :: rest :=
      ⟨_, by simp only [String.toList_append]; rfl⟩
    exact Entry.not_isClosing_of_start hmessage (by decide)
  rw [execute, Side.ofValue?_name]
  dsimp only [Option.getD_some]
  cases hdescription : describe (.text side.name) order with
  | error e => simp
  | ok description =>
    cases broker with
    | none => simpa using htitle _
    | some broker =>
      cases hanswer : (broker.place (.ofOrder side order stock) s).1 with
      | error e => simpa [settle, hanswer] using ⟨htitle _, hfailed _ _⟩
      | ok answer =>
        cases hentry : closingEntry side.title description stock (answerOf answer) with
        | error e => simpa [settle, hanswer, hentry] using htitle _
        | ok entry =>
          simpa [settle, hanswer, hentry] using
            ⟨htitle _, not_isClosing_of_closingEntry hdescription hentry⟩

end Order

namespace Supervisor

open ExceptT (Within Steady)
open Interpreter (Step)

variable {σ α : Type}

/-! ### Remarks -/

/-- Between two states only remarks were added to the log. -/
def Remarks (a b : Interpreter × (List Order.Entry × σ)) : Prop :=
  ∃ entries, b.2.1 = a.2.1 ++ entries ∧ ∀ e ∈ entries, ¬e.IsClosing

theorem steady_remarks : Steady (Remarks (σ := σ)) where
  refl a := ⟨[], (List.append_nil _).symm, nofun⟩
  trans := by
    rintro a b c ⟨early, hearly, hordinary⟩ ⟨late, hlate, hordinary'⟩
    refine ⟨early ++ late, by rw [hlate, hearly, List.append_assoc], fun e he => ?_⟩
    exact (List.mem_append.mp he).elim (hordinary e) (hordinary' e)

/-- A step that adds remarks to the log and nothing else. -/
abbrev Remarking (x : Step (List Order.Entry × σ) α) : Prop :=
  Within Remarks (fun _ => True) x

/-- A step that leaves the log as it is. -/
def IsSilent (x : Step (List Order.Entry × σ) α) : Prop :=
  ∀ a, (x.exec a).2.2.1 = a.2.1

theorem IsSilent.remarking {x : Step (List Order.Entry × σ) α} (h : IsSilent x) : Remarking x :=
  fun a => ⟨⟨[], (h a).trans (List.append_nil _).symm, nofun⟩, fun _ _ => trivial⟩

theorem Remarking.bind {β : Type} {x : Step (List Order.Entry × σ) α}
    {f : α → Step (List Order.Entry × σ) β} (hx : Remarking x) (hf : ∀ a, Remarking (f a)) :
    Remarking (x >>= f) :=
  steady_remarks.within_bind hx hf

theorem IsSilent.bind {β : Type} {x : Step (List Order.Entry × σ) α}
    {f : α → Step (List Order.Entry × σ) β} (hx : IsSilent x) (hf : ∀ a, IsSilent (f a)) :
    IsSilent (x >>= f) := by
  intro a
  have hfirst := hx a
  rw [ExceptT.exec_bind]
  generalize x.exec a = result at hfirst
  obtain ⟨e | b, a'⟩ := result
  · exact hfirst
  · exact (hf b a').trans hfirst

theorem isSilent_pure (a : α) : IsSilent (pure a : Step (List Order.Entry × σ) α) :=
  fun _ => rfl

theorem isSilent_startLookups (periods : List Market.Period) :
    IsSilent (Interpreter.startLookups periods : Step (List Order.Entry × σ) Unit) := by
  induction periods with
  | nil => exact isSilent_pure ()
  | cons p rest ih =>
    refine IsSilent.bind (fun a => ?_) fun _ => ih
    rw [Step.exec_onMarket]

theorem isSilent_retryLookups (periods : List Market.Period) :
    IsSilent (Interpreter.retryLookups periods : Step (List Order.Entry × σ) Unit) := by
  induction periods with
  | nil => exact isSilent_pure ()
  | cons p rest ih =>
    refine IsSilent.bind (fun a => rfl) fun m => IsSilent.bind (fun a => ?_) fun ready => ?_
    · rw [ExceptT.exec_liftM]
    · split
      · exact (isSilent_startLookups [p]).bind fun _ => ih
      · exact ih

/-! ### Runs only make remarks -/

namespace Scene

/-- A scene with a log of its own, which only the log of the scene writes to. -/
structure Logs (scene : Scene (List Order.Entry × σ)) : Prop where
  log : ∀ title message w, (scene.log title message w).1 = w.1 ++ [⟨title, message⟩]
  source : ∀ source ∈ scene.source, ∀ request w, (source.answer request w).2.1 = w.1
  broker : ∀ broker ∈ scene.broker, ∀ placement w, (broker.place placement w).2.1 = w.1

variable {scene : Scene (List Order.Entry × σ)}

namespace Logs

theorem remarking_log (h : scene.Logs) {title message : String}
    (hordinary : ¬Order.Entry.IsClosing ⟨title, message⟩) :
    Remarking (Step.surround (scene.log title message)) := fun a =>
  ⟨⟨[⟨title, message⟩], h.log _ _ _, by simpa using hordinary⟩, fun _ _ => trivial⟩

theorem logAll (h : scene.Logs) (entries : List Order.Entry) (w : List Order.Entry × σ) :
    (scene.logAll entries w).1 = w.1 ++ entries := by
  induction entries generalizing w with
  | nil => exact (List.append_nil _).symm
  | cons e rest ih =>
    have hrest := ih (scene.log e.title e.message w)
    rw [h.log, List.append_assoc] at hrest
    exact hrest

theorem execute (h : scene.Logs) (action : Value) (order : OrderData) (stock : Value)
    (w : List Order.Entry × σ) :
    (Order.execute scene.broker action order stock w).2.1 = w.1 := by
  rw [Order.execute]
  dsimp only
  cases Order.describe action order with
  | error e => rfl
  | ok description =>
    cases hbroker : scene.broker with
    | none => rfl
    | some broker =>
      cases Side.ofValue? action with
      | none => rfl
      | some side => exact h.broker broker hbroker _ w

theorem remarking_executor (h : scene.Logs) (side : Side) (order : OrderData) (stock : Value) :
    Remarking (Interpreter.carryOut scene.surroundings (scene.executor side order stock)) := by
  intro a
  refine ⟨?_, fun _ _ => trivial⟩
  let executed := Order.execute scene.broker (.text side.name) order stock a.2
  have hexec : ((Interpreter.carryOut scene.surroundings (scene.executor side order stock)).exec
      a).2 = (a.1, scene.logAll executed.1.entries executed.2) := by
    simp [Interpreter.carryOut, executor, ExceptT.exec_bind, executed]
  rw [hexec]
  refine ⟨executed.1.entries, ?_, Order.not_isClosing_of_execute _ side order stock a.2⟩
  show (scene.logAll executed.1.entries executed.2).1 = _
  rw [h.logAll, h.execute]

theorem remarking_decideSide (h : scene.Logs) (side : Side) (condition : Condition)
    (details : Bool) :
    Remarking (Interpreter.decideSide scene.surroundings side condition details) := by
  have hlines : ∀ lines, Remarking
      (Interpreter.writeLines scene.surroundings side.title lines) := by
    intro lines
    induction lines with
    | nil => exact steady_remarks.within_pure ()
    | cons line rest ih =>
      exact (h.remarking_log (Order.Entry.not_isClosing_of_title side.title_ne_error)).bind
        fun _ => ih
  refine Remarking.bind (IsSilent.remarking fun _ => rfl) fun m => ?_
  cases details with
  | false =>
    exact Remarking.bind (steady_remarks.within_liftM fun _ _ => trivial) fun _ =>
      steady_remarks.within_pure _
  | true =>
    refine (hlines _).bind fun _ => ?_
    exact Remarking.bind (steady_remarks.within_liftM fun _ _ => trivial) fun _ =>
      steady_remarks.within_pure _

theorem remarking_runSide (h : scene.Logs) (side : Side) (condition : Condition)
    (order : OrderData) (details : Bool) :
    Remarking (Interpreter.runSide scene.surroundings side condition order details) := by
  refine (h.remarking_decideSide side condition details).bind fun holds => ?_
  cases holds with
  | true =>
    refine Remarking.bind ?_ fun _ => steady_remarks.within_pure _
    exact Remarking.bind (IsSilent.remarking fun _ => rfl) fun st =>
      h.remarking_executor side order st.1.stock
  | false =>
    exact (h.remarking_log (Order.Entry.not_isClosing_of_title side.title_ne_error)).bind fun _ =>
      steady_remarks.within_pure _

theorem remarking_run (h : scene.Logs) (details : Bool) :
    Remarking (Interpreter.run scene.surroundings details) := by
  have hsides : ∀ c : CompiledLogic,
      Remarking (Interpreter.runSides scene.surroundings c details) := fun c =>
    (isSilent_retryLookups c.warmUps).remarking.bind fun _ =>
      (h.remarking_runSide .buy c.buy c.buyOrder details).bind fun _ =>
        (h.remarking_runSide .sell c.sell c.sellOrder details).bind fun _ =>
          steady_remarks.within_pure _
  intro a
  refine ⟨?_, fun _ _ => trivial⟩
  cases hlocked : a.1.locked with
  | true =>
    rw [Interpreter.exec_run_of_locked hlocked]
    exact steady_remarks.refl a
  | false =>
    cases hrunnable : a.1.isRunnable with
    | false =>
      have hrefused : ((Interpreter.run scene.surroundings details).exec a).2 = a := by
        simp [Interpreter.run, ExceptT.exec_bind, hlocked, hrunnable]
      rw [hrefused]
      exact steady_remarks.refl a
    | true =>
      obtain ⟨c, hcompiled⟩ := Option.isSome_iff_exists.mp (Bool.and_eq_true_iff.mp hrunnable).1
      rw [Interpreter.exec_run hcompiled hrunnable hlocked]
      exact (hsides c ({ a.1 with status := .running, locked := true }, a.2)).1

end Logs

/-! ### Whole runs -/

namespace Logs

theorem sourceOrNone (h : scene.Logs) (request : Market.Request) (w : List Order.Entry × σ) :
    (scene.sourceOrNone.answer request w).2.1 = w.1 := by
  rw [Scene.sourceOrNone]
  cases hsource : scene.source with
  | none => rfl
  | some source => exact h.source source hsource request w

theorem isSilent_waitForAll (h : scene.Logs) : IsSilent scene.waitForAll := by
  have hsteady : Steady fun w w' : List Order.Entry × σ => w'.1 = w.1 :=
    ⟨fun _ => rfl, fun hearly hlate => hlate.trans hearly⟩
  refine IsSilent.bind (fun a => ?_) fun _ a => ?_
  · exact Market.steady_finishFetch hsteady h.sourceOrNone a.1.market a.2
  · simp only [Interpreter.wait, ExceptT.exec_bind, ExceptT.exec_get]
    cases a.1.market.ready with
    | false => rfl
    | true => exact Market.steady_finishLookups hsteady h.sourceOrNone a.1.market a.2

end Logs

/-- The end of a one-shot run with a log of its own: there is no decision just if one entry closes
the log, which is then the last one; a decision leaves no such entry. -/
structure Concluded (ran : Option Decision × Interpreter × (List Order.Entry × σ)) : Prop where
  none_iff : ran.1 = none ↔ (ran.2.2.1.filter (·.IsClosing)).length = 1
  last : ran.1 = none → ∃ remarks e, ran.2.2.1 = remarks ++ [e] ∧ e.IsClosing
  decided : ran.1 ≠ none → ∀ e ∈ ran.2.2.1, ¬e.IsClosing
  stopped : ran.2.1.status = .stopped
  disposed : ran.2.1.market.disposed = true

namespace Logs

variable {waiting : Step (List Order.Entry × σ) Bool}

theorem remarking_evaluate (h : scene.Logs) (hwaiting : IsSilent waiting) (details : Bool) :
    Remarking (scene.evaluate waiting details) := by
  refine hwaiting.remarking.bind fun ready => ?_
  cases ready with
  | true => exact h.remarking_run details
  | false =>
    have htitle : "System" ≠ "Error" := by decide
    exact (h.remarking_log (Order.Entry.not_isClosing_of_title htitle)).bind fun _ =>
      h.remarking_run details

/-- A parse that finds that the logic does not compile says so, and any other logs nothing. -/
theorem parse_ends (h : scene.Logs) (stock logic : Value) (w : List Order.Entry × σ) :
    let parsed := (Interpreter.parse scene.surroundings logic).exec (scene.interpreter stock, w)
    (parsed.1 = .ok false ∧ ∃ e : Order.Entry, e.IsClosing ∧ parsed.2.2.1 = w.1 ++ [e]) ∨
      parsed.1 ≠ .ok false ∧ parsed.2.2.1 = w.1 := by
  intro parsed
  have hfree : ¬((scene.interpreter stock).status = .running ∨
      (scene.interpreter stock).status = .stopped) := by
    show ¬(Status.uninitialized = .running ∨ Status.uninitialized = .stopped)
    decide
  have hparsed : parsed = _ := Interpreter.exec_parse_of_free scene.surroundings
    (scene.interpreter stock, w) logic hfree
  cases hlogic : CompiledLogic.ofLogic logic with
  | ok c =>
    obtain ⟨m, -, haccept⟩ := Interpreter.exec_accept_of_ofLogic hlogic
      { scene.interpreter stock with compiled := none } w
    rw [hlogic] at hparsed
    have haccepted := hparsed.trans haccept
    refine .inr ⟨?_, congrArg (·.2.2.1) haccepted⟩
    have hfresh : (scene.interpreter stock).market.disposed = false := rfl
    simp [haccepted, hfresh]
  | error e =>
    rw [hlogic] at hparsed
    cases e with
    | compile error =>
      simp only [Interpreter.reject, ExceptT.exec_bind, Step.exec_change, Step.exec_surround,
        ExceptT.exec_pure] at hparsed
      exact .inl ⟨congrArg (·.1) hparsed, _, Order.Entry.isClosing_of_parse error.message,
        (congrArg (·.2.2.1) hparsed).trans (h.log _ _ _)⟩
    | _ =>
      refine .inr ⟨?_, congrArg (·.2.2.1) hparsed⟩
      simp [hparsed]

/-- An attempt either finds that the logic does not compile, and says so, or it only makes remarks
and comes to a decision unless it fails. -/
theorem attempt_ends (h : scene.Logs) (hwaiting : IsSilent waiting) (stock logic : Value)
    (details : Bool) (w : List Order.Entry × σ) :
    let start := (scene.interpreter stock, w)
    let ended := (scene.attempt waiting logic details).exec start
    (ended.1 = .ok none ∧ ∃ e : Order.Entry, e.IsClosing ∧ ended.2.2.1 = w.1 ++ [e]) ∨
      ended.1 ≠ .ok none ∧ Remarks start ended.2 := by
  intro start ended
  have hended : ended = (scene.attempt waiting logic details).exec start := rfl
  have hparse := h.parse_ends stock logic w
  rw [attempt, ExceptT.exec_bind] at hended
  generalize (Interpreter.parse scene.surroundings logic).exec start = parsed at hended hparse
  obtain ⟨e | compiled, a⟩ := parsed
  · obtain ⟨-, hsame⟩ := hparse.resolve_left fun h => nomatch h.1
    rw [hended]
    exact .inr ⟨nofun, [], hsame.trans (List.append_nil _).symm, nofun⟩
  · cases compiled with
    | false =>
      obtain ⟨-, hclosed⟩ := hparse.resolve_right fun h => h.1 rfl
      rw [hended]
      exact .inl ⟨rfl, hclosed⟩
    | true =>
      obtain ⟨-, hsame⟩ := hparse.resolve_left fun h => nomatch h.1
      obtain ⟨entries, hentries, hordinary⟩ :=
        (h.remarking_evaluate hwaiting details a).1
      have hended : ended = (some <$> scene.evaluate waiting details).exec a := by
        rw [hended, map_eq_pure_bind]
        rfl
      rw [hended, ExceptT.exec_map]
      refine .inr ⟨?_, entries, hentries.trans (congrArg (· ++ entries) hsame), hordinary⟩
      rcases ((scene.evaluate waiting details).exec a).1 with e | d
      · exact nofun
      · exact nofun

end Logs

theorem disposed_dispose (i : Interpreter) : i.dispose.market.disposed = true := by
  show i.market.dispose.disposed = true
  rw [Market.dispose]
  split
  · assumption
  · rfl

theorem concluded_of_closing {i : Interpreter} {w : List Order.Entry × σ}
    {remarks : List Order.Entry} {e : Order.Entry} (hclosing : e.IsClosing)
    (hw : w.1 = remarks ++ [e]) (hordinary : ∀ e ∈ remarks, ¬e.IsClosing) :
    Concluded (none, i.dispose, w) where
  none_iff := by
    have hnone : remarks.filter (·.IsClosing) = [] := List.filter_eq_nil_iff.mpr (by simpa)
    refine iff_of_true rfl ?_
    rw [hw, List.filter_append, hnone, List.filter_cons_of_pos (by simpa)]
    rfl
  last _ := ⟨remarks, e, hw, hclosing⟩
  decided h := absurd rfl h
  stopped := rfl
  disposed := disposed_dispose i

theorem concluded_of_remarks {i : Interpreter} {w : List Order.Entry × σ} (d : Decision)
    (hordinary : ∀ e ∈ w.1, ¬e.IsClosing) : Concluded (some d, i.dispose, w) where
  none_iff := by
    have hnone : w.1.filter (·.IsClosing) = [] := List.filter_eq_nil_iff.mpr (by simpa)
    rw [hnone]
    exact iff_of_false nofun nofun
  last := nofun
  decided _ := hordinary
  stopped := rfl
  disposed := disposed_dispose i

/-- A one-shot run never fails its caller: it comes to a decision or to nothing, in the latter case
just if one entry of its log says so, which is then the last one; and its interpreter ends stopped,
with the market data disposed of. That holds whatever the logic is, whatever a source and a broker
answer or fail with, and however the data are waited for. -/
theorem one_shot_run_concludes (h : scene.Logs) (stock logic : Value) (details : Bool) (s : σ) :
    Concluded (scene.runOnce scene.waitForAll stock logic details ([], s)) ∧
      ∀ waiting, IsSilent waiting →
        Concluded (scene.runOnce waiting stock logic details ([], s)) := by
  have hafter : ∀ waiting, IsSilent waiting →
      Concluded (scene.runOnce waiting stock logic details ([], s)) := by
    intro waiting hwaiting
    have hended := h.attempt_ends hwaiting stock logic details ([], s)
    dsimp only at hended
    obtain ⟨ended, hexec⟩ : ∃ ended, (scene.attempt waiting logic details).exec
        (scene.interpreter stock, ([], s)) = ended := ⟨_, rfl⟩
    have hran : (scene.attempt waiting logic details).run.run (scene.interpreter stock, ([], s)) =
        ended := hexec
    rw [hexec] at hended
    rw [runOnce, hran]
    obtain ⟨e | decision, i, entries, s'⟩ := ended
    · -- The attempt failed, which is logged after its remarks.
      obtain ⟨-, remarks, hremarks, hordinary⟩ := hended.resolve_left fun h => nomatch h.1
      obtain rfl : entries = remarks := hremarks
      refine concluded_of_closing (Order.Entry.isClosing_of_run e) ?_ hordinary
      exact h.log _ _ _
    · cases decision with
      | none =>
        obtain ⟨-, e, hclosing, hentries⟩ := hended.resolve_right fun h => h.1 rfl
        exact concluded_of_closing hclosing hentries nofun
      | some d =>
        obtain ⟨-, remarks, hremarks, hordinary⟩ := hended.resolve_left fun h => nomatch h.1
        obtain rfl : entries = remarks := hremarks
        exact concluded_of_remarks d hordinary
  exact ⟨hafter _ h.isSilent_waitForAll, hafter⟩

/-- A scene whose source is down, with a broker that answers with a text instead of fields. -/
def downScene : Scene (List Order.Entry × Unit) where
  source := some ⟨fun _ w => (.error (.marketData "down"), w)⟩
  broker := some ⟨fun _ w => (.ok (.text "done"), w)⟩
  log title message w := (w.1 ++ [⟨title, message⟩], w.2)

theorem logs_downScene : downScene.Logs where
  log _ _ _ := rfl
  source source h _ w := by
    obtain rfl := Option.some.inj h
    rfl
  broker broker h _ w := by
    obtain rfl := Option.some.inj h
    rfl

/-- The breakout logic needs highest prices. With a source that is down, a run of it comes to
nothing, whether it waits for the data or not, and the last entry says so. -/
theorem breakout_run_fails_without_source : downScene.Logs ∧ ∀ ran ∈
    [downScene.runOnce downScene.waitForAll (.text "ABC") CompiledLogic.breakoutLogic true ([], ()),
      downScene.runOnce (pure false) (.text "ABC") CompiledLogic.breakoutLogic true ([], ())],
    Concluded ran ∧ ran.1 = none ∧ ∃ remarks e, ran.2.2.1 = remarks ++ [e] ∧ e.IsClosing := by
  obtain ⟨hfetched, hafter⟩ := one_shot_run_concludes logs_downScene (.text "ABC")
    CompiledLogic.breakoutLogic true ()
  have hrushed := hafter (pure false) (isSilent_pure false)
  refine ⟨logs_downScene, List.forall_mem_cons.mpr ⟨?_, List.forall_mem_singleton.mpr ?_⟩⟩
  · have hnone : (downScene.runOnce downScene.waitForAll (.text "ABC") CompiledLogic.breakoutLogic
        true ([], ())).1 = none :=
      Option.isNone_iff_eq_none.mp (by decide +kernel)
    exact ⟨hfetched, hnone, hfetched.last hnone⟩
  · have hnone : (downScene.runOnce (pure false) (.text "ABC") CompiledLogic.breakoutLogic true
        ([], ())).1 = none :=
      Option.isNone_iff_eq_none.mp (by decide +kernel)
    exact ⟨hrushed, hnone, hrushed.last hnone⟩

end Scene

end Supervisor

end TradingRules
