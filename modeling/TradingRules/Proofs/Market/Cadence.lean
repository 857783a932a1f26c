import TradingRules.Market.Refresh
import TradingRules.Proofs.Market.Turns
import TradingRules.Proofs.Value.Order
import TradingRules.Proofs.Worker.Pacing

/-!
# The cadence of the refresh loop

Two cadences are driven by one clock: the price is polled after every wait, and candles are fetched
when enough time has passed since they were fetched last. How long a request takes shifts both.

The loop is followed on a timeline, on which every wait and every request is noted when it ends.
When a round has ended, the last fetch of candles lies back by less than the time after which they
are due: either they were fetched in this round, or they were not due. So the next round cannot be
late by more than its own wait and its own poll.
-/

namespace TradingRules.Market

open Worker (exactSeconds)

/-! ### Timelines -/

/-- A request to a source: when it was made, when it was answered, and how. -/
structure TimedCall (α : Type) where
  request : Request
  began : α
  ended : α
  answer : Outcome Value

inductive Event (α : Type) where
  | wait (began ended : α)
  | call (call : TimedCall α)

/-- When an event began and when it ended. -/
def Event.span {α : Type} : Event α → α × α
  | .wait began ended => (began, ended)
  | .call c => (c.began, c.ended)

/-- A source at a time, and what has happened so far. -/
structure Timeline (σ α : Type) where
  time : α
  events : List (Event α) := []
  source : σ

section

variable {σ α : Type} (C : Clock α) (source : Source σ) (cost : Request → σ → α)

namespace Timeline

/-- The call that a request now comes to. -/
def call (request : Request) (t : Timeline σ α) : TimedCall α :=
  ⟨request, t.time, C.add t.time (cost request t.source), (source.answer request t.source).1⟩

def ask (request : Request) (t : Timeline σ α) : Outcome Value × Timeline σ α :=
  let call := t.call C source cost request
  (call.answer,
    ⟨call.ended, t.events ++ [.call call], (source.answer request t.source).2⟩)

def rest (span : α) (t : Timeline σ α) : Timeline σ α :=
  let ended := C.add t.time span
  { t with time := ended, events := t.events ++ [.wait t.time ended] }

end Timeline

/-- A source that takes its time to answer, which can depend on anything. -/
def timed : TimedSource (Timeline σ α) α where
  source := ⟨Timeline.ask C source cost⟩
  now := Timeline.time
  wait := Timeline.rest C

end

/-- Intervals that are numbers. -/
def Pace.steady {α : Type} [LE α] [DecidableLE α] (pollEvery fetchEvery : α) : Pace α where
  poll := .ok pollEvery
  isDue elapsed := .ok (decide (fetchEvery ≤ elapsed))

/-- Candles are due by exact values: settings decide about a double as steady intervals decide about
the number that it stands for. -/
theorem Settings.pace_isDue {settings : Settings} {elapsed : Float} {fetchEvery time : ℚ}
    (hfetch : settings.refreshSeconds.point? = some (Number.point fetchEvery))
    (helapsed : Number.exactValue? elapsed = some (Number.point time)) (pollEvery : ℚ) :
    settings.pace.isDue elapsed = (Pace.steady pollEvery fetchEvery).isDue time := by
  have hholds : Value.Comparison.greaterEqual.holds (compare (Number.point time)
      (Number.point fetchEvery)) = decide (fetchEvery ≤ time) := by
    rw [Number.compare_of_strictMono Number.point_strictMono, Value.Comparison.holds]
    exact Bool.eq_iff_iff.mpr (by simp [← not_lt, compare_lt_iff_lt])
  show Value.compareBy .greaterEqual (.real elapsed) settings.refreshSeconds = _
  rw [Value.compareBy_of_point? .greaterEqual (v := .real elapsed) helapsed hfetch, hholds]
  rfl

namespace Loop

variable {σ α : Type} {C : Clock α} {source : Source σ} {cost : Request → σ → α} {m : Market}
  {l : Loop (Timeline σ α) α}

theorem surroundings_poll (h : l.market.settings = m.settings) (interval : α) :
    (l.poll (timed C source cost) interval).surroundings =
      ((l.surroundings.rest C interval).ask C source cost m.priceRequest).2 := by
  have hrequest : l.market.priceRequest = m.priceRequest := by rw [priceRequest, h]; rfl
  rw [← hrequest]
  exact poll_snd _ _ _

theorem surroundings_refresh (h : l.market.settings = m.settings) :
    (l.refresh (timed C source cost)).surroundings =
      (l.surroundings.ask C source cost (m.candleRequest refreshCount)).2 := by
  have hrequest : l.market.candleRequest refreshCount = m.candleRequest refreshCount := by
    rw [candleRequest, h]; rfl
  rw [← hrequest]
  exact refresh_snd _ _ _ _

end Loop

/-! ### Rounds -/

/-- A round of the loop: when its wait began, the poll, and the fetch of candles if it was due. -/
structure Round where
  began : ℚ
  poll : TimedCall ℚ
  fetch : Option (TimedCall ℚ)

namespace Round

def events (r : Round) : List (Event ℚ) :=
  .wait r.began r.poll.began :: .call r.poll :: r.fetch.toList.map .call

def ended (r : Round) : ℚ :=
  (r.fetch.getD r.poll).ended

/-- The last fetch of candles when the round has ended. -/
def lastFetch (last : TimedCall ℚ) (r : Round) : TimedCall ℚ :=
  r.fetch.getD last

/-- A round that keeps the cadence. It begins at a time when candles were fetched last by a certain
call. -/
structure Keeps (m : Market) (pollEvery fetchEvery now : ℚ) (last : TimedCall ℚ) (r : Round) :
    Prop where
  began : r.began = now
  polled : r.poll.request = m.priceRequest
  waited : r.poll.began = r.began + pollEvery
  fetched : ∀ c, r.fetch = some c → c.request = m.candleRequest refreshCount ∧
    c.began = r.poll.ended ∧ fetchEvery ≤ c.began - last.ended ∧
      c.began - last.ended < fetchEvery + pollEvery + (r.poll.ended - r.poll.began)
  early : r.fetch = none → r.poll.ended - last.ended < fetchEvery

end Round

/-- When a number of rounds has ended that began at a certain time. -/
def endOf (now : ℚ) (rounds : List Round) : ℚ :=
  rounds.foldl (fun _ r => r.ended) now

def lastFetchOf (last : TimedCall ℚ) (rounds : List Round) : TimedCall ℚ :=
  rounds.foldl Round.lastFetch last

/-- Rounds one after the other, all of which keep the cadence. -/
def KeepCadence (m : Market) (pollEvery fetchEvery : ℚ) : ℚ → TimedCall ℚ → List Round → Prop
  | _, _, [] => True
  | now, last, r :: rest => r.Keeps m pollEvery fetchEvery now last ∧
      KeepCadence m pollEvery fetchEvery r.ended (r.lastFetch last) rest

section

variable {m : Market} {pollEvery fetchEvery now : ℚ} {last : TimedCall ℚ}

theorem KeepCadence.of_split {early late : List Round} {r : Round}
    (h : KeepCadence m pollEvery fetchEvery now last (early ++ r :: late)) :
    r.Keeps m pollEvery fetchEvery (endOf now early) (lastFetchOf last early) := by
  induction early generalizing now last with
  | nil => exact h.1
  | cons first rest ih => exact ih h.2

variable {σ : Type} (source : Source σ) (cost : Request → σ → ℚ) {l : Loop (Timeline σ ℚ) ℚ}

/-- One round of the loop keeps the cadence if candles are not overdue when it begins, and then they
are not when it has ended. -/
theorem exists_round (hpositive : 0 < fetchEvery) (hsettings : l.market.settings = m.settings)
    (hfetched : l.fetched = last.ended) (hfresh : l.surroundings.time - last.ended < fetchEvery) :
    ∃ (r : Round) (l' : Loop (Timeline σ ℚ) ℚ),
      l.round exactSeconds (timed exactSeconds source cost) (.steady pollEvery fetchEvery) =
        (.ok (), l') ∧
      l'.market.settings = m.settings ∧ l'.surroundings.time = r.ended ∧
      l'.surroundings.events = l.surroundings.events ++ r.events ∧
      l'.fetched = (r.lastFetch last).ended ∧
      l'.surroundings.time - (r.lastFetch last).ended < fetchEvery ∧
      r.Keeps m pollEvery fetchEvery l.surroundings.time last := by
  let T := timed exactSeconds source cost
  let polling := (l.surroundings.rest exactSeconds pollEvery).call exactSeconds source cost
    m.priceRequest
  let polled := l.poll T pollEvery
  have hpolled : polled.surroundings = ((l.surroundings.rest exactSeconds pollEvery).ask
      exactSeconds source cost m.priceRequest).2 := Loop.surroundings_poll hsettings pollEvery
  have htime : polled.surroundings.time = polling.ended := by rw [hpolled]; rfl
  have hevents : polled.surroundings.events =
      l.surroundings.events ++ [.wait l.surroundings.time polling.began, .call polling] := by
    rw [hpolled]
    exact List.append_assoc _ _ _
  have hkept : polled.market.settings = m.settings :=
    (unaffected_poll T.source l.market _).settings.trans hsettings
  have hround : l.round exactSeconds T (.steady pollEvery fetchEvery) =
      (.ok (), if decide (fetchEvery ≤ polling.ended - last.ended) then polled.refresh T
        else polled) := by
    rw [← htime, ← hfetched]
    rfl
  -- The wait and the poll are all that has passed since candles were not due.
  have hwaited : polling.began = l.surroundings.time + pollEvery := rfl
  by_cases hdue : fetchEvery ≤ polling.ended - last.ended
  · let fetching := polled.surroundings.call exactSeconds source cost (m.candleRequest refreshCount)
    have hrefreshed : (polled.refresh T).surroundings = (polled.surroundings.ask exactSeconds source
        cost (m.candleRequest refreshCount)).2 := Loop.surroundings_refresh hkept
    have hbegan : fetching.began = polling.ended := htime
    refine ⟨⟨l.surroundings.time, polling, some fetching⟩, polled.refresh T, ?_, ?_, ?_, ?_, ?_, ?_,
      rfl, rfl, hwaited, ?_, nofun⟩
    · rw [hround, decide_eq_true hdue, if_pos rfl]
    · exact (unaffected_refresh T.source refreshCount polled.market _).settings.trans hkept
    · rw [hrefreshed]
      rfl
    · rw [hrefreshed]
      show polled.surroundings.events ++ [.call fetching] = _
      rw [hevents, List.append_assoc]
      rfl
    · show (polled.refresh T).surroundings.time = _
      rw [hrefreshed]
      rfl
    · rw [hrefreshed]
      show fetching.ended - fetching.ended < fetchEvery
      rw [sub_self]
      exact hpositive
    · rintro c hc
      obtain rfl := Option.some.inj hc
      refine ⟨rfl, hbegan, hbegan ▸ hdue, ?_⟩
      rw [hbegan]
      linarith
  · refine ⟨⟨l.surroundings.time, polling, none⟩, polled, ?_, hkept, htime, hevents, hfetched, ?_,
      rfl, rfl, hwaited, nofun, fun _ => not_le.mp hdue⟩
    · rw [hround, decide_eq_false hdue]
      rfl
    · rw [htime]
      exact not_le.mp hdue

/-- From a time when candles are not overdue, any number of rounds keeps the cadence. -/
theorem exists_rounds (hpositive : 0 < fetchEvery) (waits : ℕ)
    (hsettings : l.market.settings = m.settings) (hfetched : l.fetched = last.ended)
    (hfresh : l.surroundings.time - last.ended < fetchEvery) :
    ∃ (rounds : List Round) (l' : Loop (Timeline σ ℚ) ℚ),
      l.rounds exactSeconds (timed exactSeconds source cost) (.steady pollEvery fetchEvery) waits =
        (.ok (), l') ∧
      rounds.length = waits ∧
      l'.surroundings.time = endOf l.surroundings.time rounds ∧
      l'.surroundings.events = l.surroundings.events ++ rounds.flatMap Round.events ∧
      KeepCadence m pollEvery fetchEvery l.surroundings.time last rounds := by
  induction waits generalizing l last with
  | zero => exact ⟨[], l, rfl, rfl, rfl, (List.append_nil _).symm, trivial⟩
  | succ waits ih =>
    obtain ⟨r, l₁, hround, hsettings₁, htime₁, hevents₁, hfetched₁, hfresh₁, hkeeps⟩ :=
      exists_round source cost hpositive hsettings hfetched hfresh
    obtain ⟨rounds, l₂, hrounds, hlength, htime₂, hevents₂, hcadence⟩ :=
      ih hsettings₁ hfetched₁ hfresh₁
    refine ⟨r :: rounds, l₂, ?_, congrArg (· + 1) hlength, ?_, ?_, hkeeps, htime₁ ▸ hcadence⟩
    · rw [Loop.rounds, hround]
      exact hrounds
    · rw [htime₂, htime₁]
      rfl
    · rw [hevents₂, hevents₁, List.append_assoc, List.flatMap_cons]

end

/-- The cadence of the refresh loop on a clock without rounding, whatever the requests come to and
however long they take. Candles are fetched once at the start. Then there are as many rounds as
waits, each with one poll after its wait, and in the end a wait that the loop is stopped after. A
fetch of candles follows a poll at once. It starts no sooner after the end of the fetch before it
than fetches are apart, and by less than a wait and that poll later. Candles are not left out of a
round in which they are due. -/
theorem refreshes_keep_cadence {σ : Type} (source : Source σ) (cost : Request → σ → ℚ)
    (pollEvery : ℚ) {fetchEvery : ℚ} (hpositive : 0 < fetchEvery) (waits : ℕ) (m : Market)
    (start : ℚ) (s : σ) :
    ∃ (first : TimedCall ℚ) (rounds : List Round) (m' : Market) (t : Timeline σ ℚ),
      runLoop exactSeconds (timed exactSeconds source cost) (.steady pollEvery fetchEvery) waits m
        { time := start, source := s } = (.ok (), m', t) ∧
      t.events = .call first :: rounds.flatMap Round.events ++
        [.wait (endOf first.ended rounds) (endOf first.ended rounds + pollEvery)] ∧
      first.request = m.candleRequest m.settings.historySize ∧ first.began = start ∧
      rounds.length = waits ∧
      ∀ early r late, rounds = early ++ r :: late →
        r.Keeps m pollEvery fetchEvery (endOf first.ended early) (lastFetchOf first early) := by
  let T := timed exactSeconds source cost
  let t₀ : Timeline σ ℚ := { time := start, source := s }
  let first := t₀.call exactSeconds source cost (m.candleRequest m.settings.historySize)
  let l := Loop.start T m t₀
  have hl : l.surroundings =
      (t₀.ask exactSeconds source cost (m.candleRequest m.settings.historySize)).2 :=
    refresh_snd T.source m t₀ m.settings.historySize
  have htime : l.surroundings.time = first.ended := by rw [hl]; rfl
  have hsettings : l.market.settings = m.settings :=
    (unaffected_refresh T.source m.settings.historySize m t₀).settings
  have hfresh : l.surroundings.time - first.ended < fetchEvery := by
    rw [htime, sub_self]
    exact hpositive
  obtain ⟨rounds, l', hrounds, hlength, hended, hevents, hcadence⟩ :=
    exists_rounds source cost hpositive waits hsettings htime hfresh
  rw [htime] at hended hcadence
  refine ⟨first, rounds, l'.market, l'.surroundings.rest exactSeconds pollEvery, ?_, ?_, rfl, rfl,
    hlength, ?_⟩
  · rw [runLoop, hrounds]
    rfl
  · show l'.surroundings.events ++ [.wait l'.surroundings.time _] = _
    rw [hevents, hended, hl]
    rfl
  · rintro early r late rfl
    exact hcadence.of_split

/-- A source that is down for good takes half a second to say so. Of three rounds the second fetches
candles, three seconds after the first attempt to fetch them. -/
theorem second_round_fetches_from_source_that_is_down :
    let source : Source Unit := ⟨fun _ s => (.error (.marketData "down"), s)⟩
    let m := new { stock := .text "KRW-BTC" } true
    let ran := runLoop exactSeconds (timed exactSeconds source fun _ _ => 1 / 2) (.steady 1 2) 3 m
      { time := 0, source := () }
    (0 : ℚ) < 2 ∧ ∃ (first fetch : TimedCall ℚ) (a b c : Round),
      ran.1 = .ok () ∧ ran.2.2.events = .call first :: [a, b, c].flatMap Round.events ++
        [.wait (endOf first.ended [a, b, c]) (endOf first.ended [a, b, c] + 1)] ∧
      b.Keeps m 1 2 (endOf first.ended [a]) (lastFetchOf first [a]) ∧
      a.fetch = none ∧ b.fetch = some fetch ∧ c.fetch = none ∧ fetch.began - first.ended = 3 := by
  intro source m ran
  have hpositive : (0 : ℚ) < 2 := by norm_num
  obtain ⟨first, rounds, m', t, hran, hevents, -, -, hlength, hkeeps⟩ :=
    refreshes_keep_cadence source (fun _ _ => 1 / 2) 1 hpositive 3 m 0 ()
  obtain ⟨a, b, c, rfl⟩ := List.length_eq_three.mp hlength
  have hspans : ran.2.2.events.map Event.span = [(0, 1 / 2), (1 / 2, 3 / 2), (3 / 2, 2), (2, 3),
      (3, 7 / 2), (7 / 2, 4), (4, 5), (5, 11 / 2), (11 / 2, 13 / 2)] := by decide +kernel
  have ht : ran.2.2 = t := congrArg (·.2.2) hran
  have hfirst := hkeeps [] a [b, c] rfl
  have hsecond := hkeeps [a] b [c] rfl
  rw [ht, hevents] at hspans
  refine ⟨hpositive, ?_⟩
  -- Nine events leave room for one fetch, which is not due in the first round and is overdue in the
  -- third.
  obtain ⟨_, p, _ | f⟩ := a <;> obtain ⟨_, q, _ | g⟩ := b <;> obtain ⟨_, r, _ | h⟩ := c <;>
    simp only [Round.events, Event.span, List.flatMap_cons, List.flatMap_nil, List.map_cons,
      List.map_nil, List.cons_append, List.nil_append, List.append_nil,
      Option.toList_none, Option.toList_some, List.cons.injEq, Prod.mk.injEq, reduceCtorEq,
      and_false] at hspans
  case none.none.some =>
    obtain ⟨⟨-, hfirst⟩, -, -, -, ⟨-, hpolled⟩, -⟩ := hspans
    have hearly : q.ended - first.ended < 2 := hsecond.early rfl
    rw [hpolled, hfirst] at hearly
    norm_num at hearly
  case none.some.none =>
    obtain ⟨⟨-, hfirst⟩, -, -, -, -, ⟨hbegan, -⟩, -⟩ := hspans
    have hevents' : ran.2.2.events = _ := (congrArg Timeline.events ht).trans hevents
    refine ⟨first, g, _, _, _, congrArg (·.1) hran, hevents', hsecond, rfl, rfl, rfl, ?_⟩
    rw [hbegan, hfirst]
    norm_num
  case some.none.none =>
    obtain ⟨⟨-, hended⟩, -, -, ⟨hbegan, -⟩, -⟩ := hspans
    obtain ⟨-, -, hdue, -⟩ := hfirst.fetched f rfl
    have hdue : 2 ≤ f.began - first.ended := hdue
    rw [hbegan, hended] at hdue
    norm_num at hdue

end TradingRules.Market
