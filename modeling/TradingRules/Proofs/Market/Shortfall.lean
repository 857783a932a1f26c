import TradingRules.Proofs.Market.Alignment
import TradingRules.Proofs.Market.Cadence
import TradingRules.Proofs.Market.Redelivery

/-!
# What a failed first fetch leaves out

Only the first fetch asks for as many candles as the history holds. The fetches after it ask for a
few of the newest, which is enough to keep up with a history that is there. If the first one fails,
the history begins with these few, and older candles are ignored from then on. So it never becomes
what the first fetch would have loaded, unless that is no more than a few candles either.
-/

namespace TradingRules.Market

open Worker (exactSeconds)

/-! ### What polls and fetches keep -/

/-- What every poll and every fetch of candles keeps is kept by all rounds of the loop. -/
theorem Loop.rounds_induction {σ α : Type} {C : Clock α} {T : TimedSource σ α} {pace : Pace α}
    {P : Loop σ α → Prop} (hpoll : ∀ interval l, P l → P (l.poll T interval))
    (hrefresh : ∀ l, P l → P (l.refresh T)) (waits : ℕ) {l : Loop σ α} (hl : P l) :
    P (l.rounds C T pace waits).2 := by
  have hround : ∀ l, P l → P (l.round C T pace).2 := by
    intro l hl
    rw [Loop.round]
    split
    · exact hl
    · rename_i interval _
      have hpolled := hpoll interval l hl
      dsimp only
      split
      · exact hpolled
      · split
        · exact hrefresh _ hpolled
        · exact hpolled
  induction waits generalizing l with
  | zero => exact hl
  | succ waits ih =>
    have hnext := hround l hl
    rw [Loop.rounds]
    split
    · rename_i l' hran
      rw [hran] at hnext
      exact ih hnext
    · exact hnext

/-- What the loop leaves is what its rounds leave, but for the wait that it is stopped after. -/
theorem runLoop_snd {σ α : Type} (C : Clock α) (T : TimedSource σ α) (pace : Pace α) (waits : ℕ)
    (m : Market) (s : σ) :
    let ended := ((Loop.start T m s).rounds C T pace waits).2
    (runLoop C T pace waits m s).2.1 = ended.market ∧
      ((runLoop C T pace waits m s).2.2 = ended.surroundings ∨
        ∃ interval, (runLoop C T pace waits m s).2.2 = T.wait interval ended.surroundings) := by
  rw [runLoop]
  rcases (Loop.start T m s).rounds C T pace waits with ⟨e | -, l⟩
  · exact ⟨rfl, .inl rfl⟩
  · rcases pace.poll with e | interval
    · exact ⟨rfl, .inl rfl⟩
    · exact ⟨rfl, .inr ⟨interval, rfl⟩⟩

/-! ### Answered fetches -/

/-- Is this a fetch of candles that was answered? -/
def Event.isLoad {α : Type} : Event α → Bool
  | .wait _ _ => false
  | .call c => c.request.method == "fetch_candles" && c.answer.isOk

namespace Timeline

variable {σ α : Type} {C : Clock α} {source : Source σ} {cost : Request → σ → α}

/-- Has a fetch of candles been answered yet? -/
def hasLoaded (t : Timeline σ α) : Bool :=
  t.events.any Event.isLoad

theorem hasLoaded_rest (t : Timeline σ α) (span : α) : (t.rest C span).hasLoaded = t.hasLoaded := by
  simp [hasLoaded, rest, Event.isLoad]

theorem hasLoaded_ask_price (t : Timeline σ α) (m : Market) :
    (t.ask C source cost m.priceRequest).2.hasLoaded = t.hasLoaded := by
  simp [hasLoaded, ask, Event.isLoad, call, priceRequest]

theorem hasLoaded_ask_candles (t : Timeline σ α) (m : Market) (count : Value) :
    (t.ask C source cost (m.candleRequest count)).2.hasLoaded =
      (t.hasLoaded || (source.answer (m.candleRequest count) t.source).1.isOk) := by
  simp [hasLoaded, ask, Event.isLoad, call, candleRequest]

end Timeline

/-- A source that answers a fetch of a number of candles by as many of the newest ones of a list, if
it answers at all. -/
def Source.Serves {σ : Type} (source : Source σ) (settings : Settings) (candles : List Fields) :
    Prop :=
  ∀ m : Market, m.settings = settings → ∀ count n, count.toBound = .ok n → ∀ s batch,
    (source.answer (m.candleRequest count) s).1 = .ok batch → batch = batchOf (candles.rtake n)

/-- A source of candles that fails a number of times before it answers. -/
def flaky (candles : List Fields) : Source ℕ where
  answer request failures := match request.params, failures with
    | [_, _, _], failures + 1 => (.error (.marketData "down"), failures)
    | [_, _, count], 0 => (count.toBound.map fun n => batchOf (candles.rtake n), 0)
    | _, failures => (.ok .null, failures)

theorem serves_flaky (settings : Settings) (candles : List Fields) :
    (flaky candles).Serves settings candles := by
  rintro m - count n hcount (- | failures) batch hbatch
  · have hanswer : ((flaky candles).answer (m.candleRequest count) 0).1 =
        count.toBound.map fun n => batchOf (candles.rtake n) := rfl
    rw [hanswer, hcount] at hbatch
    exact (Except.ok.inj hbatch).symm
  · cases hbatch

/-- What a history of a bound holds when candles have been fetched for the first time. -/
def firstLoad (limit : ℕ) (candles : List Fields) : History :=
  .ofBars limit ((Bar.settled (History.barsOf candles)).rtake limit)

section

variable {limit : ℕ} {candles : List Fields}

theorem ingest_empty (hlimit : 0 < limit)
    (hregular : ∀ candle ∈ candles, History.isRegular candle = true) :
    History.ingest { limit } (batchOf candles) = (.ok (), firstLoad limit candles) := by
  have hempty : History.ofBars limit ((Bar.settled []).rtake limit) = { limit } := by
    rw [Bar.settled, Bar.accepted, Bar.acceptedAfter, Bar.lastOfEach, List.rtake_nil]
    rfl
  rw [← hempty]
  exact History.ingest_settled hlimit (by simp) hregular

/-- The candles of the first fetch make no difference when they come again. -/
theorem ingest_firstLoad (hlimit : 0 < limit)
    (hregular : ∀ candle ∈ candles, History.isRegular candle = true) :
    (firstLoad limit candles).ingest (batchOf candles) = (.ok (), firstLoad limit candles) := by
  have hordered : ∀ b ∈ History.barsOf candles, b.time.isOrdered = true :=
    History.isOrdered_append_barsOf [] nofun hregular
  have hsorted : (History.barsOf candles).Pairwise fun a b => a.position ≤ b.position :=
    Sorting.pairwise_sortBy Bar.position (candles.filterMap Fields.bar?)
  have hagain : Bar.settled (History.barsOf candles ++ History.barsOf candles) =
      Bar.settled (History.barsOf candles) := Bar.settled_again hsorted []
  have hingest := History.ingest_settled hlimit hordered hregular
  rwa [hagain] at hingest

end

/-! ### Well-formed candles -/

/-- Complete candles in the order of their timestamps, all of which are different. -/
structure WellFormed (candles : List Fields) : Prop where
  regular : ∀ candle ∈ candles, History.isRegular candle = true
  full : ∀ candle ∈ candles, candle.isBlank = false
  rising : candles.Pairwise fun a b =>
    (a.get "timestamp").position < (b.get "timestamp").position

namespace WellFormed

variable {candles : List Fields}

theorem exists_bars (h : WellFormed candles) :
    ∃ bars : List Bar, candles.map Fields.bar? = bars.map some ∧
      bars.Pairwise fun a b => a.position < b.position := by
  have hbars : ∀ candle ∈ candles, ∃ b, candle.bar? = some b := by
    intro candle hcandle
    have hread := (Bool.and_eq_true_iff.mp (h.regular candle hcandle)).1
    obtain ⟨price, volume, -, -, hbar⟩ :=
      Fields.exists_bar_of_isReadable hread (h.full candle hcandle)
    exact ⟨_, hbar⟩
  refine ⟨candles.filterMap Fields.bar?, ?_, List.pairwise_filterMap.mpr ?_⟩
  · rw [List.map_filterMap]
    clear h
    induction candles with
    | nil => rfl
    | cons candle rest ih =>
      obtain ⟨b, hb⟩ := hbars candle List.mem_cons_self
      rw [List.map_cons, ih fun c hc => hbars c (List.mem_cons_of_mem candle hc),
        List.filterMap_cons_some (by rw [hb]; rfl), hb]
  · refine h.rising.imp fun hlt a ha b hb => ?_
    rwa [Bar.position, Bar.position, (Fields.time_of_bar? ha).2, (Fields.time_of_bar? hb).2]

end WellFormed

theorem Bar.settled_of_rising {bars : List Bar}
    (h : bars.Pairwise fun a b => a.position < b.position) : Bar.settled bars = bars := by
  induction bars using List.reverseRecOn with
  | nil => rfl
  | append_singleton bars b ih =>
    obtain ⟨hrising, -, hbelow⟩ := List.pairwise_append.mp h
    rw [Bar.settled_concat (Bar.settles bars), ih hrising, Bar.place]
    cases hnewest : bars.getLast? with
    | none => rw [List.getLast?_eq_none_iff.mp hnewest, List.nil_append]
    | some newest =>
      have hlt := hbelow newest (List.mem_of_getLast? hnewest) b List.mem_cons_self
      dsimp only
      rw [if_neg hlt.not_gt, if_neg hlt.ne']

/-- Of candles that make rising bars the newest are loaded, as many as are fetched and fit. -/
theorem firstLoad_rtake {candles : List Fields} {bars : List Bar}
    (hbars : candles.map Fields.bar? = bars.map some)
    (hrising : bars.Pairwise fun a b => a.position < b.position) (limit count : ℕ) :
    firstLoad limit (candles.rtake count) = .ofBars limit (bars.rtake (min limit count)) := by
  have hlength : candles.length = bars.length := by simpa using congrArg List.length hbars
  have hmap : (candles.rtake count).map Fields.bar? = (bars.rtake count).map some := by
    rw [List.rtake, List.rtake, List.map_drop, List.map_drop, hbars, hlength]
  have hfew : (candles.rtake count).filterMap Fields.bar? = bars.rtake count := by
    have hread := congrArg (List.filterMap id) hmap
    rwa [List.filterMap_map, List.filterMap_map, Function.id_comp, Function.id_comp,
      List.filterMap_some] at hread
  have hsorted : (bars.rtake count).Pairwise fun a b => a.position < b.position :=
    hrising.sublist (List.drop_sublist _ _)
  have hbarsOf : History.barsOf (candles.rtake count) = bars.rtake count := by
    rw [History.barsOf, hfew]
    exact List.mergeSort_of_pairwise (hsorted.imp fun hlt => decide_eq_true hlt.le)
  rw [firstLoad, hbarsOf, Bar.settled_of_rising hsorted]
  exact congrArg (History.ofBars limit) (List.rtake_rtake bars count limit)

/-- A fetch of a number of candles loads what a fetch up to the bound loads just if there are no
more candles, or no more fit. -/
theorem WellFormed.firstLoad_rtake_eq_iff {candles : List Fields} (h : WellFormed candles)
    (limit count : ℕ) :
    firstLoad limit (candles.rtake count) = firstLoad limit (candles.rtake limit) ↔
      candles.length ≤ count ∨ limit ≤ count := by
  obtain ⟨bars, hbars, hrising⟩ := h.exists_bars
  have hlength : candles.length = bars.length := by simpa using congrArg List.length hbars
  rw [firstLoad_rtake hbars hrising, firstLoad_rtake hbars hrising, List.rtake, List.rtake, hlength]
  constructor
  · intro hsame
    have hlengths := congrArg (·.times.length) hsame
    simp only [History.ofBars, List.length_map, List.length_drop] at hlengths
    omega
  · intro hfew
    have hdrop : bars.length - min limit count = bars.length - min limit limit := by omega
    rw [hdrop]

/-! ### Loops without a first fetch -/

/-- A loop whose history is empty until a fetch is answered, and then holds the few candles that a
fetch of the loop asks for. -/
structure Loop.Lacks {σ α : Type} (settings : Settings) (candles : List Fields)
    (l : Loop (Timeline σ α) α) : Prop where
  kept : l.market.settings = settings
  before : l.surroundings.hasLoaded = false → l.market.history = { limit := settings.limit }
  after : l.surroundings.hasLoaded = true →
    l.market.history = firstLoad settings.limit (candles.rtake 5)

section

variable {σ α : Type} {C : Clock α} {source : Source σ} {cost : Request → σ → α}
  {settings : Settings} {candles : List Fields} {l : Loop (Timeline σ α) α}

theorem Loop.Lacks.poll (h : l.Lacks settings candles) (interval : α) :
    (l.poll (timed C source cost) interval).Lacks settings candles := by
  let polled := l.poll (timed C source cost) interval
  have hsurroundings : polled.surroundings =
      ((l.surroundings.rest C interval).ask C source cost l.market.priceRequest).2 :=
    Loop.surroundings_poll rfl interval
  have hloaded : polled.surroundings.hasLoaded = l.surroundings.hasLoaded := by
    rw [hsurroundings, Timeline.hasLoaded_ask_price, Timeline.hasLoaded_rest]
  have hhistory : polled.market.history = l.market.history :=
    Feed.history_run (timed C source cost).source .poll l.market _
  refine ⟨?_, fun hnone => ?_, fun hsome => ?_⟩
  · exact (unaffected_poll (timed C source cost).source l.market _).settings.trans h.kept
  · exact hhistory.trans (h.before (hloaded.symm.trans hnone))
  · exact hhistory.trans (h.after (hloaded.symm.trans hsome))

theorem Loop.Lacks.refresh (hlimit : 0 < settings.limit)
    (hregular : ∀ candle ∈ candles, History.isRegular candle = true)
    (hserves : source.Serves settings candles) (h : l.Lacks settings candles) :
    (l.refresh (timed C source cost)).Lacks settings candles := by
  let refreshed := l.refresh (timed C source cost)
  let answer := (source.answer (l.market.candleRequest refreshCount) l.surroundings.source).1
  have hsurroundings : refreshed.surroundings =
      (l.surroundings.ask C source cost (l.market.candleRequest refreshCount)).2 :=
    Loop.surroundings_refresh rfl
  have hsettings : refreshed.market.settings = settings :=
    (unaffected_refresh (timed C source cost).source refreshCount l.market _).settings.trans h.kept
  have hloaded : refreshed.surroundings.hasLoaded = (l.surroundings.hasLoaded || answer.isOk) := by
    rw [hsurroundings, Timeline.hasLoaded_ask_candles]
  have hhistory : refreshed.market.history =
      l.market.history.ingestAll answer.toOption.toList :=
    Feed.history_run (timed C source cost).source (.refresh refreshCount) l.market _
  cases hanswer : answer with
  | error e =>
    rw [hanswer] at hloaded hhistory
    have hsame : refreshed.surroundings.hasLoaded = l.surroundings.hasLoaded :=
      hloaded.trans (Bool.or_false _)
    refine ⟨hsettings, fun hnone => ?_, fun hsome => ?_⟩
    · exact hhistory.trans (h.before (hsame.symm.trans hnone))
    · exact hhistory.trans (h.after (hsame.symm.trans hsome))
  | ok batch =>
    obtain rfl := hserves l.market h.kept refreshCount 5 rfl _ _ hanswer
    rw [hanswer] at hloaded hhistory
    have hfew : ∀ candle ∈ candles.rtake 5, History.isRegular candle = true :=
      fun candle hcandle => hregular candle (List.mem_of_mem_drop hcandle)
    have hsome : refreshed.surroundings.hasLoaded = true := hloaded.trans (Bool.or_true _)
    refine ⟨hsettings, fun hnone => absurd (hsome.symm.trans hnone) nofun, fun _ => ?_⟩
    refine hhistory.trans ?_
    show (l.market.history.ingest (batchOf (candles.rtake 5))).2 = _
    cases hbefore : l.surroundings.hasLoaded with
    | false => rw [h.before hbefore, ingest_empty hlimit hfew]
    | true => rw [h.after hbefore, ingest_firstLoad hlimit hfew]

/-- A loop whose first fetch fails. -/
theorem lacks_start (start : α) {s : σ} (hfailed :
    (source.answer ((new settings true).candleRequest settings.historySize) s).1.isOk = false) :
    (Loop.start (timed C source cost) (new settings true)
      { time := start, source := s }).Lacks settings candles := by
  let T := timed C source cost
  let m := new settings true
  let t : Timeline σ α := { time := start, source := s }
  let l := Loop.start T m t
  have hsurroundings : l.surroundings =
      (t.ask C source cost (m.candleRequest settings.historySize)).2 :=
    refresh_snd T.source m t settings.historySize
  have hnone : l.surroundings.hasLoaded = false := by
    rw [hsurroundings, Timeline.hasLoaded_ask_candles]
    exact hfailed
  have hhistory : l.market.history = m.history := by
    refine (Feed.history_run T.source .fetchFirst m t).trans ?_
    show m.history.ingestAll
      (source.answer (m.candleRequest settings.historySize) s).1.toOption.toList = _
    cases hanswer : (source.answer (m.candleRequest settings.historySize) s).1 with
    | error e => rfl
    | ok batch =>
      rw [hanswer] at hfailed
      cases hfailed
  refine ⟨?_, fun _ => hhistory, fun hsome => absurd (hnone.symm.trans hsome) nofun⟩
  exact (unaffected_refresh T.source settings.historySize m t).settings

/-- After a first fetch that fails the history is empty, or what a fetch of a few candles loads. -/
theorem history_runLoop_of_failed (hlimit : 0 < settings.limit)
    (hregular : ∀ candle ∈ candles, History.isRegular candle = true)
    (hserves : source.Serves settings candles) (C : Clock α) (cost : Request → σ → α)
    (pace : Pace α) (waits : ℕ) (start : α) {s : σ} (hfailed :
      (source.answer ((new settings true).candleRequest settings.historySize) s).1.isOk = false) :
    let ran := runLoop C (timed C source cost) pace waits (new settings true)
      { time := start, source := s }
    (ran.2.2.hasLoaded = false → ran.2.1.history = { limit := settings.limit }) ∧
      (ran.2.2.hasLoaded = true →
        ran.2.1.history = firstLoad settings.limit (candles.rtake 5)) := by
  intro ran
  let T := timed C source cost
  let t₀ : Timeline σ α := { time := start, source := s }
  have hlacks : ((Loop.start T (new settings true) t₀).rounds C T pace waits).2.Lacks settings
      candles :=
    Loop.rounds_induction (fun interval l hl => hl.poll interval)
      (fun l hl => hl.refresh hlimit hregular hserves) waits (lacks_start start hfailed)
  obtain ⟨hmarket, hsurroundings⟩ := runLoop_snd C T pace waits (new settings true) t₀
  have hloaded : ran.2.2.hasLoaded =
      ((Loop.start T (new settings true) t₀).rounds C T pace waits).2.surroundings.hasLoaded := by
    rcases hsurroundings with hsame | ⟨interval, hrest⟩
    · exact congrArg Timeline.hasLoaded hsame
    · exact (congrArg Timeline.hasLoaded hrest).trans (Timeline.hasLoaded_rest _ interval)
  have hhistory := congrArg Market.history hmarket
  exact ⟨fun hnone => hhistory.trans (hlacks.before (hloaded.symm.trans hnone)),
    fun hsome => hhistory.trans (hlacks.after (hloaded.symm.trans hsome))⟩

end

/-- The first fetch asks for as many candles as the history holds, which is at least one. -/
theorem Settings.toBound_historySize {settings : Settings} {stock size poll candle refresh : Value}
    (h : Settings.ofValues stock size poll candle refresh = .ok settings) :
    settings.historySize.toBound = .ok settings.limit ∧ 0 < settings.limit := by
  obtain ⟨limit, hlimit, h⟩ := Outcome.bind_eq_ok.mp h
  obtain rfl := Except.ok.inj h
  refine ⟨hlimit, ?_⟩
  have htrue : (size.orElse (.int 200)).isTruthy = true := by
    rw [Value.orElse]
    split
    · assumption
    · rfl
  have hlimit : (size.orElse (.int 200)).toBound = .ok limit := hlimit
  show 0 < limit
  generalize size.orElse (.int 200) = v at hlimit htrue
  cases v with
  | bool b =>
    obtain rfl : b = true := htrue
    obtain rfl := Except.ok.inj hlimit
    decide
  | int n =>
    have hn : n ≠ 0 := by simpa [Value.isTruthy] using htrue
    rw [Value.toBound] at hlimit
    split at hlimit
    · cases hlimit
    · split at hlimit
      · cases hlimit
      · obtain rfl := Except.ok.inj hlimit
        omega
  | _ => cases hlimit

/-- An answered fetch of a number of candles loads as many. -/
theorem history_refresh_flaky {settings : Settings} {candles : List Fields}
    (hlimit : 0 < settings.limit)
    (hregular : ∀ candle ∈ candles, History.isRegular candle = true) {count : Value} {n : ℕ}
    (hcount : count.toBound = .ok n) :
    ((new settings true).refresh (flaky candles) count 0).1.history =
      firstLoad settings.limit (candles.rtake n) := by
  have hfew : ∀ candle ∈ candles.rtake n, History.isRegular candle = true :=
    fun candle hcandle => hregular candle (List.mem_of_mem_drop hcandle)
  have hanswer : ((flaky candles).answer ((new settings true).candleRequest count) 0).1 =
      .ok (batchOf (candles.rtake n)) := by
    show count.toBound.map _ = _
    rw [hcount]
    rfl
  refine (history_refresh (flaky candles) count (new settings true) 0).trans ?_
  rw [hanswer]
  exact congrArg Prod.snd (ingest_empty hlimit hfew)

/-- When the first fetch fails, the history stays empty until a fetch is answered, and from then on
it holds what a fetch of five candles loads. That is what the first fetch would have loaded just if
there are no more than five candles, or the history holds no more. -/
theorem failed_first_fetch_leaves_five {settings : Settings}
    {stock size poll candle refresh : Value}
    (hsettings : Settings.ofValues stock size poll candle refresh = .ok settings)
    {candles : List Fields} (hwell : WellFormed candles) {σ α : Type} {source : Source σ}
    (hserves : source.Serves settings candles) (C : Clock α) (cost : Request → σ → α)
    (pace : Pace α) (waits : ℕ) (start : α) {s : σ} (hfailed :
      (source.answer ((new settings true).candleRequest settings.historySize) s).1.isOk = false) :
    let m := new settings true
    let ran := runLoop C (timed C source cost) pace waits m { time := start, source := s }
    let loaded (count : Value) : History := (m.refresh (flaky candles) count 0).1.history
    (ran.2.2.hasLoaded = false → ran.2.1.history = m.history) ∧
      (ran.2.2.hasLoaded = true → ran.2.1.history = loaded refreshCount) ∧
      (loaded refreshCount = loaded settings.historySize ↔
        candles.length ≤ 5 ∨ settings.limit ≤ 5) := by
  intro m ran loaded
  obtain ⟨hsize, hlimit⟩ := Settings.toBound_historySize hsettings
  have hfive : loaded refreshCount = firstLoad settings.limit (candles.rtake 5) :=
    history_refresh_flaky hlimit hwell.regular rfl
  have hfirst : loaded settings.historySize =
      firstLoad settings.limit (candles.rtake settings.limit) :=
    history_refresh_flaky hlimit hwell.regular hsize
  obtain ⟨hbefore, hafter⟩ :=
    history_runLoop_of_failed hlimit hwell.regular hserves C cost pace waits start hfailed
  refine ⟨hbefore, fun hsome => (hafter hsome).trans hfive.symm, ?_⟩
  rw [hfive, hfirst]
  exact hwell.firstLoad_rtake_eq_iff settings.limit 5

/-- Six candles, one after the other. -/
def sixCandles : List Fields :=
  (List.range 6).map fun k =>
    [("timestamp", .int (k + 1)), ("price", .int (10 * (k + 1))), ("volume", .int 1)]

theorem wellFormed_sixCandles : WellFormed sixCandles :=
  ⟨by decide +kernel, by decide +kernel, by decide +kernel⟩

/-- The source is down for the first fetch and the next one, and then answers for five candles. -/
theorem two_failures_leave_five :
    let settings : Settings := { stock := .text "KRW-BTC" }
    let m := new settings true
    let ran := runLoop exactSeconds (timed exactSeconds (flaky sixCandles) fun _ _ => 1 / 2)
      (.steady 1 2) 4 m { time := 0, source := 2 }
    Settings.ofValues (.text "KRW-BTC") .null .null .null .null = .ok settings ∧
      WellFormed sixCandles ∧ (flaky sixCandles).Serves settings sixCandles ∧
      ((flaky sixCandles).answer (m.candleRequest settings.historySize) 2).1.isOk = false ∧
      ran.2.2.hasLoaded = true ∧
      ran.2.1.history = (m.refresh (flaky sixCandles) refreshCount 0).1.history := by
  intro settings m ran
  have hsettings : Settings.ofValues (.text "KRW-BTC") .null .null .null .null = .ok settings := rfl
  have hserves := serves_flaky settings sixCandles
  have hfailed :
      ((flaky sixCandles).answer (m.candleRequest settings.historySize) 2).1.isOk = false := rfl
  have hloaded : ran.2.2.hasLoaded = true := by decide +kernel
  obtain ⟨-, hafter, -⟩ := failed_first_fetch_leaves_five hsettings wellFormed_sixCandles hserves
    exactSeconds (fun _ _ => 1 / 2) (.steady 1 2) 4 0 hfailed
  exact ⟨hsettings, wellFormed_sixCandles, hserves, hfailed, hloaded, hafter hloaded⟩

/-- After one failure the oldest of six candles is missing, although a fetch of them all was due and
the source answers. -/
theorem one_failure_leaves_out_oldest :
    let m := new { stock := .text "KRW-BTC" } true
    let ran := runLoop exactSeconds (timed exactSeconds (flaky sixCandles) fun _ _ => 0)
      (.steady 1 1) 1 m { time := 0, source := 1 }
    WellFormed sixCandles ∧ ran.2.2.hasLoaded = true ∧
      ran.2.1.history ≠ (m.fetchFirst (flaky sixCandles) 0).1.history := by
  intro m ran
  have hloaded : ran.2.2.hasLoaded = true := by decide +kernel
  have hserves := serves_flaky { stock := .text "KRW-BTC" } sixCandles
  have hfive : ran.2.1.history = firstLoad 200 (sixCandles.rtake 5) :=
    (history_runLoop_of_failed (by decide) wellFormed_sixCandles.regular hserves exactSeconds
      (fun _ _ => 0) (.steady 1 1) 1 0 rfl).2 hloaded
  have hall : (m.refresh (flaky sixCandles) (.int 200) 0).1.history =
      firstLoad 200 (sixCandles.rtake 200) :=
    history_refresh_flaky (by decide) wellFormed_sixCandles.regular rfl
  refine ⟨wellFormed_sixCandles, hloaded, ?_⟩
  show ran.2.1.history ≠ (m.refresh (flaky sixCandles) (.int 200) 0).1.history
  rw [hfive, hall, ne_eq, wellFormed_sixCandles.firstLoad_rtake_eq_iff]
  decide

end TradingRules.Market
