import Mathlib.Logic.Relation
import TradingRules.Proofs.Interpreter.Lifecycle
import TradingRules.Proofs.Market.Lookups

/-!
# Recovery from failed lookups

At the start of a run the lookups of all periods are started again that have neither a price nor a
lookup. So a failed lookup is made up for by the next run, and the first number that is answered is
kept. Only an answer that is no number spoils a period: its lookup has finished, no run starts
another one, and the price stays missing.
-/

namespace TradingRules

open Market (Period LookupStatus)

/-- Lookups are started again exactly for the periods that have neither a price nor a lookup. -/
theorem Market.mem_lookups_retried {periods : List Period} {m : Market} {p : Period}
    {status : LookupStatus} (hperiods : ∀ q ∈ periods, ∃ unit, q.unit = .text unit)
    (hconnected : m.connected = true) : (p, status) ∈ (m.retried periods).lookups ↔
      (p, status) ∈ m.lookups ∨
        status = .pending ∧ p ∈ periods ∧ m.highest? p = none ∧ m.IsUntried p := by
  induction periods generalizing m with
  | nil => simp [retried]
  | cons q rest ih =>
    have hq := hperiods q List.mem_cons_self
    have ih := fun m => ih (m := m) fun r hr => hperiods r (List.mem_cons_of_mem q hr)
    rw [retried]
    split
    · rename_i hready
      rw [ih m hconnected]
      have hpq : p = q → m.highest? p ≠ none := by
        rintro rfl hnone
        simp [hnone] at hready
      rw [List.mem_cons]
      tauto
    · rename_i hmissing
      rcases m.warmUp_cases hq with ⟨hsame, htried⟩ | ⟨hstarted, huntried⟩
      · rw [hsame, ih m hconnected, List.mem_cons]
        have hpq : p = q → ¬m.IsUntried p := by
          rintro rfl
          exact htried
        tauto
      · have hpending : (if m.connected then LookupStatus.pending else .finished) = .pending :=
          if_pos hconnected
        rw [hstarted, hpending]
        refine (ih { m with lookups := m.lookups ++ [(q, .pending)] } hconnected).trans ?_
        have hmem : (p, status) ∈ m.lookups ++ [(q, .pending)] ↔
            (p, status) ∈ m.lookups ∨ p = q ∧ status = .pending := by
          simp
        have huntriedAgain : IsUntried p { m with lookups := m.lookups ++ [(q, .pending)] } ↔
            m.IsUntried p ∧ p ≠ q := by
          simp [IsUntried, or_imp, forall_and, eq_comm]
        have hpq : p = q → m.IsUntried p ∧ m.highest? p = none := by
          rintro rfl
          exact ⟨huntried, by simpa using hmissing⟩
        have hhighest : highest? { m with lookups := m.lookups ++ [(q, .pending)] } p =
            m.highest? p := rfl
        rw [huntriedAgain, hhighest, hmem, List.mem_cons]
        tauto

namespace Interpreter

open ExceptT (Within Steady)
open Market (Period IsUntried IsSpoiled Sound Landing)

variable {σ : Type} {around : Surroundings σ}

/-! ### Elementary changes -/

/-- The changes that everything done with an interpreter is made of. -/
inductive Change (around : Surroundings σ) : Interpreter × σ → Interpreter × σ → Prop
  | surroundings (i : Interpreter) (s s' : σ) : Change around (i, s) (i, s')
  | control {i : Interpreter} (s : σ) (hstatus : i.status ≠ .stopped) (status : Status)
      (compiled : Option CompiledLogic) (lastError : Option String) (locked : Bool) :
      Change around (i, s) ({ i with status, compiled, lastError, locked }, s)
  | unlock (i : Interpreter) (s : σ) : Change around (i, s) ({ i with locked := false }, s)
  | feed {i : Interpreter} {m : Market} (s s' : σ) (h : i.market.Unaffected m) :
      Change around (i, s) ({ i with market := m }, s')
  | lookUp (i : Interpreter) (s : σ) (unit length : Value) :
      Change around (i, s) ({ i with market := (i.market.warmUp unit length).2 }, s)
  | land (i : Interpreter) (s : σ) (p : Period) :
      Change around (i, s) ({ i with market := (i.market.runLookup around.source p s).1 },
        (i.market.runLookup around.source p s).2)
  | dispose (i : Interpreter) (s : σ) : Change around (i, s) (i.dispose, s)

abbrev Changes (around : Surroundings σ) : Interpreter × σ → Interpreter × σ → Prop :=
  Relation.ReflTransGen (Change around)

theorem Change.changes {a b : Interpreter × σ} (h : Change around a b) : Changes around a b :=
  .single h

theorem steady_changes (around : Surroundings σ) : Steady (Changes around) where
  refl _ := .refl
  trans := .trans

section

variable (around)

theorem within_surround (f : σ → σ) :
    Within (Changes around) (fun _ => True) (Step.surround f : Step σ Unit) := fun a =>
  ⟨(Change.surroundings a.1 a.2 (f a.2)).changes, fun _ _ => trivial⟩

theorem within_startLookups_changes (periods : List Period) :
    Within (Changes around) (fun _ => True) (startLookups periods : Step σ Unit) := by
  induction periods with
  | nil => exact (steady_changes around).within_pure ()
  | cons p rest ih =>
    refine (steady_changes around).within_bind (fun a => ?_) fun _ => ih
    rw [Step.exec_onMarket]
    exact ⟨(Change.lookUp a.1 a.2 _ _).changes, fun _ _ => trivial⟩

theorem changes_runLookups (periods : List Period) (i : Interpreter) (s : σ) :
    Changes around (i, s) ({ i with market := (i.market.runLookups around.source periods s).1 },
      (i.market.runLookups around.source periods s).2) := by
  induction periods generalizing i s with
  | nil => exact .refl
  | cons p rest ih =>
    exact (Change.land i s p).changes.trans
      (ih { i with market := (i.market.runLookup around.source p s).1 } _)

theorem within_wait : Within (Changes around) (fun _ => True) (wait around) := by
  intro a
  simp only [wait, ExceptT.exec_bind, ExceptT.exec_get]
  cases a.1.market.ready with
  | false => exact ⟨.refl, fun _ _ => trivial⟩
  | true => exact ⟨changes_runLookups around _ a.1 a.2, fun _ _ => trivial⟩

theorem within_fetch : Within (Changes around) (fun _ => True) (fetch around) := by
  intro a
  simp only [fetch, ExceptT.exec_bind, ExceptT.exec_get]
  exact ⟨(Change.feed a.2 _ (Market.unaffected_finishFetch around.source a.1.market a.2)).changes,
    fun _ _ => trivial⟩

theorem within_respond (callback : Callback) :
    Within (Changes around) (fun _ => True) (respond around callback) := by
  cases callback with
  | run details => exact fun a => ⟨.refl, fun _ _ => trivial⟩
  | parse logic => exact fun a => ⟨.refl, fun _ _ => trivial⟩
  | dispose => exact fun a => ⟨(Change.dispose a.1 a.2).changes, fun _ _ => trivial⟩
  | wait =>
    exact (steady_changes around).within_bind (within_wait around) fun _ =>
      (steady_changes around).within_pure _

theorem within_carryOut (conduct : Conduct σ) :
    Within (Changes around) (fun _ => True) (carryOut around conduct) := by
  induction conduct with
  | finish act =>
    intro a
    simp only [carryOut, ExceptT.exec_bind, ExceptT.exec_get, ExceptT.exec_set,
      ExceptT.exec_liftM]
    exact ⟨(Change.surroundings a.1 a.2 _).changes, fun _ _ => trivial⟩
  | act change next ih =>
    exact (steady_changes around).within_bind (within_surround around change) fun _ => ih
  | call callback next ih =>
    refine (steady_changes around).within_bind (fun a => ?_) fun answer => ih answer
    rw [Step.exec_attempt]
    exact ⟨(within_respond around callback a).1, fun _ _ => trivial⟩

theorem changes_retried (periods : List Period) (i : Interpreter) (s : σ) :
    Changes around (i, s) ({ i with market := i.market.retried periods }, s) := by
  induction periods generalizing i with
  | nil => exact .refl
  | cons p rest ih =>
    rw [Market.retried]
    split
    · exact ih i
    · exact (Change.lookUp i s p.unit (.int p.length)).changes.trans (ih { i with market := _ })

end

theorem Turn.changes {c : CompiledLogic} {details : Bool} {side : Side} {a z : Interpreter × σ}
    {events : List (Event σ)} {outcome : Outcome Bool}
    (h : Turn around c details side a events outcome z) : Changes around a z := by
  have hnoted : ∀ lines, Changes around a (noted around side lines a) := fun lines =>
    (Change.surroundings a.1 a.2 _).changes
  cases h with
  | failed heval => exact hnoted _
  | unmet heval hv => exact hnoted _
  | unheard heval hv hexecutor => exact hnoted _
  | @executed v executor result z heval hv hexecutor hcarried =>
    have hafter := (within_carryOut around (executor side (c.order side) a.1.stock)
      (noted around side (c.lines details side a.1.market) a)).1
    rw [hcarried] at hafter
    exact (hnoted (c.lines details side a.1.market)).trans hafter

theorem Course.changes {c : CompiledLogic} {details : Bool} {a z : Interpreter × σ}
    {events : List (Event σ)} {outcome : Outcome Decision}
    (h : Course around c details a events outcome z) : Changes around a z := by
  cases h with
  | buyFailed hbuy => exact hbuy.changes
  | sellFailed hbuy hsell => exact hbuy.changes.trans hsell.changes
  | decided hbuy hsell => exact hbuy.changes.trans hsell.changes

theorem changes_release (i : Interpreter) (s : σ) : Changes around (i, s) (release i, s) := by
  rw [release]
  cases hstatus : i.status with
  | running =>
    exact (Change.control s (by simp [hstatus]) .idle i.compiled i.lastError false).changes
  | _ =>
    have hunlock : Changes around _ _ := (Change.unlock i s).changes
    rw [hstatus] at hunlock
    exact hunlock

/-- Steps that only work on market data, of which all that lookups depend on stays as it is. -/
theorem within_onMarket_changes {α : Type} (f : Market → Outcome α × Market)
    (hf : ∀ m : Market, m.Unaffected (f m).2) :
    Within (Changes around) (fun _ => True) (Step.onMarket f : Step σ α) := fun a => by
  rw [Step.exec_onMarket]
  exact ⟨(Change.feed a.2 a.2 (hf a.1.market)).changes, fun _ _ => trivial⟩

theorem changes_accept (c : CompiledLogic) (a : Interpreter × σ) (hstatus : a.1.status ≠ .stopped) :
    Changes around a ((accept c).exec a).2 := by
  have hrest : Within (Changes around) (fun _ => True) (do
      Step.onMarket (·.start)
      startLookups c.warmUps
      return true : Step σ Bool) :=
    (steady_changes around).within_bind (within_onMarket_changes _ Market.unaffected_start)
      fun _ => (steady_changes around).within_bind (within_startLookups_changes around _)
        fun _ => (steady_changes around).within_pure true
  rw [accept, ExceptT.exec_bind]
  exact (Change.control a.2 hstatus .parsed (some c) none a.1.locked).changes.trans (hrest _).1

theorem changes_reject (reason : String) (a : Interpreter × σ) (hstatus : a.1.status ≠ .stopped) :
    Changes around a ((reject around reason).exec a).2 := by
  simp only [reject, ExceptT.exec_bind, Step.exec_change, Step.exec_surround, ExceptT.exec_pure]
  exact (Change.control a.2 hstatus .uninitialized a.1.compiled (some reason)
    a.1.locked).changes.trans (Change.surroundings _ a.2 _).changes

theorem changes_operate_run (a : Interpreter × σ) (h : Resting a.1) (details : Bool) :
    Changes around a (Moment.of around a (.run details)).after := by
  cases effect_of_run around a h details with
  | @evaluated details c events hevaluates =>
    obtain ⟨outcome, z, hcourse, -, hafter⟩ := hevaluates.course
    have hcompiled : a.1.compiled = some c := hevaluates.compiled
    have hstatus : a.1.status ≠ .stopped := fun hstopped => by
      rw [h.bare (.inr hstopped)] at hcompiled
      cases hcompiled
    have hstart : Changes around a (a.1.underway c, a.2) :=
      (Change.control a.2 hstatus .running a.1.compiled a.1.lastError true).changes.trans
        (changes_retried around c.warmUps { a.1 with status := .running, locked := true } a.2)
    rw [hafter]
    exact hstart.trans (hcourse.changes.trans (changes_release z.1 z.2))
  | refused hrequest hrefused =>
    rw [hrefused.after]
    exact .refl
  | accepted hparse => cases hparse
  | rejected hparse => cases hparse
  | kept hrequest => exact absurd (.inl ⟨details, rfl⟩) hrequest

theorem changes_operate_parse (a : Interpreter × σ) (h : Resting a.1) (logic : Value) :
    Changes around a (Moment.of around a (.parse logic)).after := by
  have hafter : (Moment.of around a (.parse logic)).after = ((parse around logic).exec a).2 := by
    rw [Moment.of, exec_operate_parse]
  rw [hafter]
  by_cases hstopped : a.1.status = .stopped
  · rw [exec_parse_of_refused around a logic (.inr hstopped)]
  · have hforget : Changes around a ({ a.1 with compiled := none }, a.2) :=
      (Change.control a.2 hstopped a.1.status none a.1.lastError a.1.locked).changes
    rw [exec_parse_of_free around a logic (by simp [h.still, hstopped])]
    refine hforget.trans ?_
    cases CompiledLogic.ofLogic logic with
    | ok c => exact changes_accept c _ hstopped
    | error e =>
      cases e with
      | compile error => exact changes_reject error.message _ hstopped
      | _ => exact .refl

theorem changes_operate (a : Interpreter × σ) (h : Resting a.1) (operation : Operation) :
    Changes around a (Moment.of around a operation).after := by
  have hanswered : ∀ {β : Type} {x : Step σ β} (f : β → Value),
      Within (Changes around) (fun _ => True) x →
        Changes around a ((x >>= fun b => pure (f b)).exec a).2 := fun f hx =>
    ((steady_changes around).within_bind hx
      (fun b => (steady_changes around).within_pure (f b)) a).1
  cases operation with
  | parse logic => exact changes_operate_parse a h logic
  | run details => exact changes_operate_run a h details
  | dispose => exact (Change.dispose a.1 a.2).changes
  | wait => exact hanswered (x := wait around) Value.bool (within_wait around)
  | fetch => exact hanswered (fun _ => .null) (within_fetch around)
  | ingest batch =>
    exact hanswered (fun _ => .null) (within_onMarket_changes _ fun m => m.unaffected_ingest batch)
  | setLive price =>
    exact hanswered (fun _ => .null) (within_onMarket_changes _ fun m => m.unaffected_setLive price)

/-! ### Invariants of changes -/

/-- What lasts through a change lasts along all changes. -/
theorem Changes.induction {I : Interpreter → Prop}
    (hstep : ∀ a b, Change around a b → I a.1 → I b.1) {a b : Interpreter × σ}
    (h : Changes around a b) (ha : I a.1) : I b.1 := by
  induction h with
  | refl => exact ha
  | tail _ hlast ih => exact hstep _ _ hlast ih

/-- The market has the settings and the source that it was made with, and it is disposed of only by
stopping the interpreter. -/
structure Attached (settings : Market.Settings) (i : Interpreter) : Prop where
  settings : i.market.settings = settings
  connected : i.market.connected = true
  running : i.market.disposed = true → i.status = .stopped

theorem Attached.change {settings : Market.Settings} {a b : Interpreter × σ}
    (h : Change around a b) (ha : Attached settings a.1) : Attached settings b.1 := by
  cases h with
  | surroundings i s s' => exact ha
  | control s hstatus status compiled lastError locked =>
    exact ⟨ha.settings, ha.connected, fun hdisposed => absurd (ha.running hdisposed) hstatus⟩
  | unlock i s => exact ⟨ha.settings, ha.connected, ha.running⟩
  | feed s s' hm =>
    exact ⟨hm.settings.trans ha.settings, hm.connected.trans ha.connected,
      fun hdisposed => ha.running (hm.disposed ▸ hdisposed)⟩
  | lookUp i s unit length =>
    obtain ⟨started, hstarted, -⟩ := Market.exists_started i.market unit length
    rw [hstarted]
    exact ⟨ha.settings, ha.connected, ha.running⟩
  | land i s p =>
    obtain ⟨hsettings, hconnected, hdisposed⟩ :=
      Market.runLookup_kept around.source i.market s p
    exact ⟨hsettings.trans ha.settings, hconnected.trans ha.connected,
      fun h => ha.running (hdisposed ▸ h)⟩
  | dispose i s =>
    refine ⟨?_, ?_, fun _ => rfl⟩
    · rw [Interpreter.dispose, Market.dispose]
      split <;> exact ha.settings
    · rw [Interpreter.dispose, Market.dispose]
      split <;> exact ha.connected

/-- A period is never spoiled if its lookups answer numbers or fail. -/
theorem sound_change {settings : Market.Settings} {p : Period} (hp : ∃ unit, p.unit = .text unit)
    (hnumber : ∀ s v s', around.source.answer ((Market.new settings true).highestRequest p) s =
      (.ok v, s') → ∃ x, v.toFloat = .ok x) {a b : Interpreter × σ} (h : Change around a b)
    (ha : Sound settings p a.1.market) : Sound settings p b.1.market := by
  cases h with
  | surroundings i s s' => exact ha
  | control s hstatus status compiled lastError locked => exact ha
  | unlock i s => exact ha
  | feed s s' hm => exact ha.of_unaffected hm
  | lookUp i s unit length => exact ha.warmUp unit length
  | land i s q =>
    refine ha.runLookup hp q fun _ v hv => ?_
    have hrequest : i.market.highestRequest p = (Market.new settings true).highestRequest p := by
      rw [Market.highestRequest, ha.settings]
      rfl
    rw [hrequest] at hv
    exact hnumber s v _ (Prod.ext hv rfl)
  | dispose i s => exact ha.dispose

theorem isSome_highest?_change {p : Period} (hp : ∃ unit, p.unit = .text unit)
    {a b : Interpreter × σ} (h : Change around a b)
    (ha : (a.1.market.highest? p).isSome = true) : (b.1.market.highest? p).isSome = true := by
  cases h with
  | surroundings i s s' => exact ha
  | control s hstatus status compiled lastError locked => exact ha
  | unlock i s => exact ha
  | feed s s' hm => rwa [Market.highest?, hm.highest]
  | lookUp i s unit length =>
    obtain ⟨started, hstarted, -⟩ := Market.exists_started i.market unit length
    rwa [hstarted]
  | land i s q => exact Market.isSome_highest?_runLookup around.source i.market s hp q ha
  | dispose i s =>
    rw [Interpreter.dispose, Market.dispose]
    split <;> exact ha

/-! ### Histories with answers -/

/-- What happens to an interpreter: an operation, or the landing of a lookup that is under way. -/
inductive Happening where
  | operation (operation : Operation)
  | landing (p : Period)

def landed (around : Surroundings σ) (a : Interpreter × σ) (p : Period) : Interpreter × σ :=
  ({ a.1 with market := (a.1.market.runLookup around.source p a.2).1 },
    (a.1.market.runLookup around.source p a.2).2)

def happen (around : Surroundings σ) (a : Interpreter × σ) : Happening → Interpreter × σ
  | .operation operation => (Moment.of around a operation).after
  | .landing p => if a.1.market.pending.contains p then landed around a p else a

def after (around : Surroundings σ) (a : Interpreter × σ) (happenings : List Happening) :
    Interpreter × σ :=
  happenings.foldl (happen around) a

theorem changes_happen (around : Surroundings σ) {a : Interpreter × σ} (h : Resting a.1)
    (happening : Happening) :
    Resting (happen around a happening).1 ∧ Changes around a (happen around a happening) := by
  cases happening with
  | operation operation =>
    exact ⟨(Moment.effect around a h operation).resting h, changes_operate a h operation⟩
  | landing p =>
    rw [happen]
    split
    · exact ⟨⟨h.free, h.still, h.bare, h.accepted⟩, (Change.land a.1 a.2 p).changes⟩
    · exact ⟨h, .refl⟩

theorem changes_after (around : Surroundings σ) {a : Interpreter × σ} (h : Resting a.1)
    (happenings : List Happening) :
    Resting (after around a happenings).1 ∧ Changes around a (after around a happenings) := by
  induction happenings generalizing a with
  | nil => exact ⟨h, .refl⟩
  | cons happening rest ih =>
    obtain ⟨hfirst, hchanges⟩ := changes_happen around h happening
    obtain ⟨hrest, hlater⟩ := ih hfirst
    exact ⟨hrest, hchanges.trans hlater⟩

/-- Failed lookups recover unless they are spoiled. Whatever has happened before, a run starts the
lookups of just those periods of its logic that have neither a price nor a lookup. A lookup that
lands is forgotten if it failed, and if it answered a number this is the price from then on. So if
the lookups of a period answer numbers or fail, its price is there or being looked up during every
run; but an answer that is no number leaves a lookup behind that has finished, and no run starts
another one. -/
theorem failed_lookups_recover_unless_spoiled (around : Surroundings σ)
    (settings : Market.Settings) (stock : Value) (s : σ) (happenings : List Happening)
    {c : CompiledLogic} :
    let a := after around (new stock (.new settings true), s) happenings
    a.1.compiled = some c → ∀ p ∈ c.warmUps,
      (∀ details, ∃ events outcome z,
        Course around c details (a.1.underway c, a.2) events outcome z ∧
          (run around details).exec a = (outcome, (release z.1, z.2))) ∧
      (p ∈ (a.1.underway c).market.pending ↔
        p ∈ a.1.market.pending ∨ a.1.market.highest? p = none ∧ a.1.market.IsUntried p) ∧
      Landing p a.1.market (landed around a p).1.market
        (around.source.answer (a.1.market.highestRequest p) a.2).1 ∧
      ((a.1.market.highest? p).isSome = true → ∀ later,
        ((after around a later).1.market.highest? p).isSome = true) ∧
      ((∀ t v t', around.source.answer ((Market.new settings true).highestRequest p) t =
          (.ok v, t') → ∃ x, v.toFloat = .ok x) →
        a.1.market.highest? p = none → p ∈ (a.1.underway c).market.pending) := by
  intro a hcompiled p hp
  have hstart : Resting (new stock (.new settings true)) := resting_new stock _
  obtain ⟨hresting, hchanges⟩ := changes_after around (a := (_, s)) hstart happenings
  obtain ⟨logic, haccepted⟩ := hresting.accepted c hcompiled
  have hknown : ∀ q ∈ c.warmUps, ∃ unit, q.unit = .text unit := fun q hq => by
    obtain ⟨unit, -, hunit⟩ := CompiledLogic.knownUnits_warmUps haccepted q hq
    exact ⟨unit, hunit⟩
  have hattached : Attached settings a.1 :=
    hchanges.induction (fun _ _ => Attached.change) ⟨rfl, rfl, nofun⟩
  have hpending : p ∈ (a.1.underway c).market.pending ↔
      p ∈ a.1.market.pending ∨ a.1.market.highest? p = none ∧ a.1.market.IsUntried p := by
    rw [Market.mem_pending, Market.mem_pending]
    refine (Market.mem_lookups_retried hknown hattached.connected).trans ?_
    simp [hp]
  refine ⟨fun details => ?_, hpending, ?_, fun hready later => ?_, fun hnumber hnone => ?_⟩
  · obtain ⟨events, outcome, z, hcourse⟩ := exists_course around c details (a.1.underway c, a.2)
    exact ⟨events, outcome, z, hcourse,
      hcourse.exec_run haccepted hcompiled (hresting.isRunnable hcompiled) hresting.free⟩
  · exact Market.landing_runLookup around.source a.1.market a.2 (hknown p hp)
  · obtain ⟨-, hlater⟩ := changes_after around hresting later
    exact hlater.induction (I := fun i => (i.market.highest? p).isSome = true)
      (fun _ _ => isSome_highest?_change (hknown p hp)) hready
  · have hsound : Sound settings p a.1.market :=
      hchanges.induction (I := fun i => Sound settings p i.market)
        (fun _ _ => sound_change (hknown p hp) hnumber) (Market.sound_new settings p)
    have hunspoiled : ¬a.1.market.IsSpoiled p := by
      refine hsound.kept.resolve_left fun hdisposed => ?_
      have hbare : a.1.compiled = none := hresting.bare (.inr (hattached.running hdisposed))
      rw [hbare] at hcompiled
      cases hcompiled
    refine hpending.mpr (or_iff_not_imp_left.mpr fun hnot => ⟨hnone, fun l hl hlp => ?_⟩)
    obtain ⟨q, status⟩ := l
    obtain rfl : q = p := hlp
    cases status with
    | pending => exact hnot (Market.mem_pending.mpr hl)
    | finished => exact hunspoiled ⟨hl, hnone⟩

/-- Asked for highest prices, it fails at first, and then it knows one. -/
def flaky : Surroundings Nat where
  source := { answer := fun request n =>
    if request.method == "get_highest_price" then
      (if n < 2 then .error (.missingKey (.text "result")) else .ok (.real 20.0), n + 1)
    else (.ok .null, n) }
  log _ _ n := n
  executor := none

/-- After the lookups of both periods failed, the next run starts them again, and what they answer
is kept. -/
theorem flaky_lookups_recover :
    let a := after flaky (new (.text "ABC") (.new { stock := .text "ABC" } true), 0)
      [.operation (.parse CompiledLogic.breakoutLogic), .operation .fetch, .operation .wait]
    let p : Period := ⟨.text "day", 1⟩
    a.1.compiled = some CompiledLogic.breakout ∧ a.1.market.lookups.length = 0 ∧
      p ∈ (a.1.underway CompiledLogic.breakout).market.pending := by
  intro a p
  have hcompiled : a.1.compiled = some CompiledLogic.breakout := by
    with_unfolding_all rfl
  have hp : p ∈ CompiledLogic.breakout.warmUps := by
    with_unfolding_all exact List.mem_cons_self
  have hnumber : ∀ t v t', flaky.source.answer
      ((Market.new { stock := .text "ABC" } true).highestRequest p) t = (.ok v, t') →
        ∃ x, v.toFloat = .ok x := by
    intro t v t' hanswer
    have hanswer : (if t < 2 then .error (.missingKey (.text "result")) else .ok (.real 20.0)) =
        (.ok v : Outcome Value) := congrArg Prod.fst hanswer
    split at hanswer
    · cases hanswer
    · obtain rfl := Except.ok.inj hanswer
      exact ⟨20.0, rfl⟩
  obtain ⟨-, -, -, -, hlookup⟩ := failed_lookups_recover_unless_spoiled flaky
    { stock := .text "ABC" } (.text "ABC") 0 _ hcompiled p hp
  exact ⟨hcompiled, by decide +kernel, hlookup hnumber (by with_unfolding_all rfl)⟩

/-- Asked for highest prices, it answers null at first, and then it knows one. -/
def forgetful : Surroundings Nat :=
  { flaky with source := { answer := fun request n =>
      if request.method == "get_highest_price" then
        (.ok (if n < 1 then .null else .real 20.0), n + 1)
      else (.ok .null, n) } }

/-- After null was answered for the period of a day, no run looks it up again. -/
theorem null_answer_spoils_period :
    let a := after forgetful (new (.text "ABC") (.new { stock := .text "ABC" } true), 0)
      [.operation (.parse CompiledLogic.breakoutLogic), .operation .fetch, .operation .wait]
    let b := after forgetful a [.operation (.run false), .operation .wait, .operation (.run false)]
    let p : Period := ⟨.text "day", 1⟩
    (a.1.market.highest? p).isSome = false ∧ a.1.market.pending.contains p = false ∧
      (a.1.underway CompiledLogic.breakout).market.pending.contains p = false ∧
      (b.1.market.highest? p).isSome = false ∧ b.1.market.pending.contains p = false ∧
      b.2 = a.2 := by
  decide +kernel

end Interpreter

end TradingRules
