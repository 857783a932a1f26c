import Mathlib.Data.List.Basic
import TradingRules.Proofs.Interpreter.Continuity

/-!
# Exact dispatch

A run calls the executor for the sides whose conditions hold when their turns come, the buying side
first, and for no other; whatever the executor does, also to the interpreter that it is called from.
-/

namespace TradingRules

namespace Interpreter

variable {σ : Type}

/-- Marks of what a run does itself, and not an executor by calling back. -/
def Mark.isOwn : Mark → Bool
  | callback _ _ => false
  | _ => true

def Mark.call? : Mark → Option Call
  | call c => some c
  | _ => none

end Interpreter

namespace CompiledLogic

open Interpreter (Mark Call notMet)

variable (c : CompiledLogic)

def call (side : Side) (stock : Value) : Call :=
  ⟨side, c.order side, stock⟩

/-- The mark of a side that is decided: a call of the executor, or an entry that there is none. -/
def verdict (side : Side) (stock : Value) (holds : Bool) : Mark :=
  if holds then .call (c.call side stock) else .entry side.title (notMet side)

/-- What a run does itself on the turn of a side, from the state in which the turn comes. -/
def turnMarks (details : Bool) (side : Side) (i : Interpreter) : List Mark :=
  (c.lines details side i.market).map (.entry side.title) ++
    match (c.condition side).evaluate i.market with
    | .ok v => [c.verdict side i.stock v.holds]
    | .error _ => []

end CompiledLogic

namespace Interpreter

variable {around : Surroundings σ} {c : CompiledLogic} {details : Bool} {side : Side}
  {a z : Interpreter × σ} {events : List (Event σ)}

theorem Turn.filter_isOwn {outcome : Outcome Bool}
    (h : Turn around c details side a events outcome z)
    (hexecutor : around.executor.isSome = true) :
    (events.map Event.mark).filter Mark.isOwn = c.turnMarks details side a.1 := by
  cases h with
  | failed heval =>
    simp [CompiledLogic.turnMarks, heval, List.filter_map, Function.comp_def, Event.mark,
      Mark.isOwn]
  | unmet heval hv =>
    simp [CompiledLogic.turnMarks, CompiledLogic.verdict, heval, hv, List.filter_map,
      List.filter_cons, Function.comp_def, Event.mark, Mark.isOwn]
  | unheard heval hv hnone => simp [hnone] at hexecutor
  | executed heval hv hsome hcarried =>
    simp [CompiledLogic.turnMarks, CompiledLogic.verdict, CompiledLogic.call, heval, hv,
      List.filter_map, List.filter_cons, Function.comp_def, Event.mark, Mark.isOwn, Moment.mark]

/-- A turn that succeeds comes to what its condition comes to. -/
theorem Turn.eq_isMet {b : Bool} (h : Turn around c details side a events (.ok b) z) :
    c.isMet side a.1.market = b ∧
      c.turnMarks details side a.1 =
        (c.lines details side a.1.market).map (.entry side.title) ++
          [c.verdict side a.1.stock b] := by
  generalize houtcome : (.ok b : Outcome Bool) = outcome at h
  cases h with
  | failed heval => cases houtcome
  | unmet heval hv =>
    cases houtcome
    simp [CompiledLogic.isMet, CompiledLogic.turnMarks, heval, hv]
  | unheard heval hv hnone =>
    cases houtcome
    simp [CompiledLogic.isMet, CompiledLogic.turnMarks, heval, hv]
  | @executed v executor result z heval hv hsome hcarried =>
    cases result with
    | error e => cases houtcome
    | ok u =>
      cases houtcome
      simp [CompiledLogic.isMet, CompiledLogic.turnMarks, heval, hv]

theorem filterMap_call?_filter_isOwn (marks : List Mark) :
    (marks.filter Mark.isOwn).filterMap Mark.call? = marks.filterMap Mark.call? := by
  rw [List.filterMap_filter]
  congr 1
  funext mark
  cases mark <;> rfl

theorem filterMap_call?_turnMarks (c : CompiledLogic) (details : Bool) (side : Side)
    (i : Interpreter) :
    (c.turnMarks details side i).filterMap Mark.call? =
      if c.isMet side i.market then [c.call side i.stock] else [] := by
  have hlines : ∀ lines : List String,
      (lines.map (Mark.entry side.title)).filterMap Mark.call? = [] := fun lines =>
    List.filterMap_eq_nil_iff.mpr (by simp [Mark.call?])
  cases heval : (c.condition side).evaluate i.market with
  | error e => simp [CompiledLogic.turnMarks, CompiledLogic.isMet, heval, hlines]
  | ok v =>
    cases hv : v.holds <;>
      simp [CompiledLogic.turnMarks, CompiledLogic.isMet, CompiledLogic.verdict, heval, hv, hlines,
        Mark.call?]

def ownMarks (events : List (Event σ)) : List Mark :=
  (events.map Event.mark).filter Mark.isOwn

def calls (events : List (Event σ)) : List Call :=
  (events.map Event.mark).filterMap Mark.call?

/-- The turn of the buying side, as the steps of a run come to it. -/
def buying (around : Surroundings σ) (c : CompiledLogic) (details : Bool) (a : Interpreter × σ) :
    Outcome Bool × (Interpreter × σ) :=
  (runSide around .buy c.buy c.buyOrder details).exec a

theorem Turn.buying_eq {outcome : Outcome Bool} {logic : Value}
    (h : Turn around c details .buy a events outcome z)
    (hcompiled : CompiledLogic.ofLogic logic = .ok c) :
    buying around c details a = (outcome, z) :=
  h.exec (c.hasSort_condition hcompiled .buy)

theorem Course.ownMarks_eq {outcome : Outcome Decision} {logic : Value}
    (h : Course around c details a events outcome z)
    (hcompiled : CompiledLogic.ofLogic logic = .ok c) (hexecutor : around.executor.isSome = true) :
    ownMarks events = c.turnMarks details .buy a.1 ++
      match buying around c details a with
      | (.ok _, b) => c.turnMarks details .sell b.1
      | (.error _, _) => [] := by
  cases h with
  | buyFailed hbuy =>
    rw [hbuy.buying_eq hcompiled, ownMarks, hbuy.filter_isOwn hexecutor]
    simp
  | sellFailed hbuy hsell =>
    rw [hbuy.buying_eq hcompiled, ownMarks, List.map_append, List.filter_append,
      hbuy.filter_isOwn hexecutor, hsell.filter_isOwn hexecutor]
  | decided hbuy hsell =>
    rw [hbuy.buying_eq hcompiled, ownMarks, List.map_append, List.filter_append,
      hbuy.filter_isOwn hexecutor, hsell.filter_isOwn hexecutor]

theorem Course.calls_eq {outcome : Outcome Decision} {logic : Value}
    (h : Course around c details a events outcome z)
    (hcompiled : CompiledLogic.ofLogic logic = .ok c) (hexecutor : around.executor.isSome = true) :
    calls events = (if c.isMet .buy a.1.market then [c.call .buy a.1.stock] else []) ++
      match buying around c details a with
      | (.ok _, b) => if c.isMet .sell b.1.market then [c.call .sell a.1.stock] else []
      | (.error _, _) => [] := by
  have hown := h.ownMarks_eq hcompiled hexecutor
  rw [calls, ← filterMap_call?_filter_isOwn, ← ownMarks, hown, List.filterMap_append,
    filterMap_call?_turnMarks]
  cases h with
  | buyFailed hbuy => simp [hbuy.buying_eq hcompiled]
  | sellFailed hbuy hsell | decided hbuy hsell =>
    simp [hbuy.buying_eq hcompiled, filterMap_call?_turnMarks,
      hbuy.linked.kept.stock]

/-- The selling order is among the calls exactly if its condition holds on the data that the buying
side has left. -/
theorem Course.sell_mem_calls_iff {outcome : Outcome Decision} {logic : Value}
    (h : Course around c details a events outcome z)
    (hcompiled : CompiledLogic.ofLogic logic = .ok c) (hexecutor : around.executor.isSome = true) :
    c.call .sell a.1.stock ∈ calls events ↔
      ∃ buy b, buying around c details a = (.ok buy, b) ∧ c.isMet .sell b.1.market = true := by
  have hsides : c.call .sell a.1.stock ≠ c.call .buy a.1.stock := by
    simp [CompiledLogic.call]
  rw [h.calls_eq hcompiled hexecutor]
  rcases buying around c details a with ⟨e | buy, b⟩
  · simp [hsides]
  · constructor
    · intro hmem
      exact ⟨buy, b, rfl, by simpa [hsides] using hmem⟩
    · rintro ⟨_, _, ⟨rfl, rfl⟩, hmet⟩
      simp [hmet]

/-- A run that returns has decided both sides by their conditions. -/
theorem Course.decided_eq {d : Decision} {logic : Value}
    (h : Course around c details a events (.ok d) z)
    (hcompiled : CompiledLogic.ofLogic logic = .ok c) (hexecutor : around.executor.isSome = true) :
    ∃ b, buying around c details a = (.ok d.buy, b) ∧
      d.buy = c.isMet .buy a.1.market ∧ d.sell = c.isMet .sell b.1.market ∧
      ownMarks events =
        (c.lines details .buy a.1.market).map (.entry Side.buy.title) ++
          c.verdict .buy a.1.stock d.buy ::
        ((c.lines details .sell b.1.market).map (.entry Side.sell.title) ++
          [c.verdict .sell a.1.stock d.sell]) := by
  have hown := h.ownMarks_eq hcompiled hexecutor
  cases h with
  | @decided bought sold buy sell b z hbuy hsell =>
    rw [hbuy.buying_eq hcompiled] at hown ⊢
    obtain ⟨hmetBuy, hmarksBuy⟩ := hbuy.eq_isMet
    obtain ⟨hmetSell, hmarksSell⟩ := hsell.eq_isMet
    refine ⟨b, rfl, hmetBuy.symm, hmetSell.symm, ?_⟩
    rw [hown]
    simp only [hmarksBuy, hmarksSell, hbuy.linked.kept.stock, List.append_assoc,
      List.singleton_append]

/-- A run that fails ends where the turn of one side failed. -/
theorem Course.failed_eq {e : Fault} {logic : Value}
    (h : Course around c details a events (.error e) z)
    (hcompiled : CompiledLogic.ofLogic logic = .ok c) :
    buying around c details a = (.error e, z) ∨
      ∃ buy b, buying around c details a = (.ok buy, b) ∧
        (runSide around .sell c.sell c.sellOrder details).exec b = (.error e, z) := by
  cases h with
  | buyFailed hbuy => exact .inl (hbuy.buying_eq hcompiled)
  | sellFailed hbuy hsell =>
    exact .inr ⟨_, _, hbuy.buying_eq hcompiled, hsell.exec (c.hasSort_condition hcompiled .sell)⟩

/-- A run dispatches exactly. A second run is refused while one is in progress. Otherwise the run
takes a course of turns, and in the journal there are the marks of its events and nothing else. Its
own marks are those of the buying side, on the data it starts with, and then, unless that side
failed, those of the selling side on the data that the buying side left. So the executor is called
at most once for each side, the buying side first, and exactly for the sides whose conditions hold
when their turns come. If the run returns, each side left one mark besides its detail lines: a call
if it was decided to hold, else an entry that its condition is not met. If the run fails, it ends in
the state in which the turn of a side failed. -/
theorem run_dispatches_exactly {logic : Value}
    (hcompiled : CompiledLogic.ofLogic logic = .ok c) (around : Surroundings σ)
    (hexecutor : around.executor.isSome = true) {i : Interpreter} (hi : i.compiled = some c)
    (hrunnable : i.isRunnable = true) (details : Bool) (s : σ) :
    (i.locked = true → ∀ l, (run around.journaled details).exec (i, (l, s)) =
      (.error (.interpreterState "a run is already in progress"), (i, (l, s)))) ∧
    (i.locked = false → ∃ events outcome z,
      let a := (i.underway c, s)
      Course around c details a events outcome z ∧
      (run around details).exec (i, s) = (outcome, (release z.1, z.2)) ∧
      (∀ l, (run around.journaled details).exec (i, (l, s)) =
        (outcome, (release z.1, (l ++ events.map Event.mark, z.2)))) ∧
      (ownMarks events = c.turnMarks details .buy a.1 ++
        match buying around c details a with
        | (.ok _, b) => c.turnMarks details .sell b.1
        | (.error _, _) => []) ∧
      (calls events).Sublist [c.call .buy i.stock, c.call .sell i.stock] ∧
      (c.call .buy i.stock ∈ calls events ↔ c.isMet .buy a.1.market = true) ∧
      (c.call .sell i.stock ∈ calls events ↔
        ∃ buy b, buying around c details a = (.ok buy, b) ∧ c.isMet .sell b.1.market = true) ∧
      (∀ d, outcome = .ok d → ∃ b, buying around c details a = (.ok d.buy, b) ∧
        d.buy = c.isMet .buy a.1.market ∧ d.sell = c.isMet .sell b.1.market ∧
        ownMarks events =
          (c.lines details .buy a.1.market).map (.entry Side.buy.title) ++
            c.verdict .buy i.stock d.buy ::
          ((c.lines details .sell b.1.market).map (.entry Side.sell.title) ++
            [c.verdict .sell i.stock d.sell])) ∧
      (∀ e, outcome = .error e → buying around c details a = (.error e, z) ∨
        ∃ buy b, buying around c details a = (.ok buy, b) ∧
          (runSide around .sell c.sell c.sellOrder details).exec b = (.error e, z))) := by
  refine ⟨fun hlocked l => exec_run_of_locked hlocked details (l, s), fun hfree => ?_⟩
  obtain ⟨events, outcome, z, h⟩ := exists_course around c details (i.underway c, s)
  have hcalls := h.calls_eq hcompiled hexecutor
  have hstock : (i.underway c).stock = i.stock := rfl
  have hsides : c.call .buy i.stock ≠ c.call .sell i.stock := fun h => by
    simp [CompiledLogic.call] at h
  refine ⟨events, outcome, z, h, h.exec_run hcompiled hi hrunnable hfree,
    h.exec_run_journaled hcompiled hi hrunnable hfree, h.ownMarks_eq hcompiled hexecutor,
    ?_, ?_, ?_, ?_, ?_⟩
  · have honce : ∀ (met : Bool) (call : Call), (if met then [call] else []).Sublist [call] := by
      rintro (_ | _) call <;> simp
    rw [hcalls]
    rcases buying around c details (i.underway c, s) with ⟨e | buy, b⟩
    · exact (honce _ _).append (List.nil_sublist _)
    · exact (honce _ _).append (honce _ _)
  · rw [hcalls, hstock]
    rcases buying around c details (i.underway c, s) with ⟨e | buy, b⟩ <;> simp [hsides]
  · exact h.sell_mem_calls_iff hcompiled hexecutor
  · rintro d rfl
    exact h.decided_eq hcompiled hexecutor
  · rintro e rfl
    exact h.failed_eq hcompiled

/-- An executor that calls back in every way before it succeeds, with a source that knows the
highest price of every period. -/
def reentrant : Surroundings Unit where
  source := { answer := fun _ s => (.ok (.real 20.0), s) }
  log _ _ s := s
  executor := some fun _ _ _ =>
    .call (.run true) fun _ => .call (.parse .null) fun _ => .call .wait fun _ =>
      .finish fun s => (.ok (), s)

def readyInterpreter : Interpreter :=
  { breakoutInterpreter with market := { breakoutInterpreter.market with ready := true } }

/-- The breakout logic buys, and the executor waits for the highest price of the week in the middle
of the run, so that the selling side can be decided when its turn comes. -/
theorem reentrant_buys_once : readyInterpreter.isRunnable = true ∧
    ∃ marks i', (run reentrant.journaled false).exec (readyInterpreter, ([], ())) =
      (.ok ⟨true, false⟩, (i', (marks, ()))) ∧
    marks.filter Mark.isOwn =
      [.call ⟨.buy, {}, .text "ABC"⟩, .entry "Sell" "Sell condition not met"] := by
  obtain ⟨events, outcome, z, -, -, hrun, -, -, -, -, hdecided, -⟩ :=
    (run_dispatches_exactly CompiledLogic.ofLogic_breakoutLogic reentrant rfl
      (i := readyInterpreter) rfl rfl false ()).2 rfl
  have houtcome : ((run reentrant.journaled false).exec (readyInterpreter, ([], ()))).1 =
      .ok ⟨true, false⟩ := by
    with_unfolding_all rfl
  rw [hrun] at houtcome
  obtain rfl : outcome = .ok ⟨true, false⟩ := houtcome
  obtain ⟨b, -, -, -, hmarks⟩ := hdecided _ rfl
  exact ⟨rfl, events.map Event.mark, release z.1, hrun [], hmarks⟩

end Interpreter

end TradingRules
