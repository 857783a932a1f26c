import TradingRules.Market.Basic
import TradingRules.Proofs.Market.Bars

/-!
# Which series stay aligned

A candle enters the three series one after the other, and its price and its volume are read on the
way. One that cannot be read has left its timestamp behind by then, or its timestamp and its price.
So the longer series never fall behind, and the series stay aligned for as long as the candles can
be read, whatever else fails: batches that are no lists, timestamps that do not compare.
-/

namespace TradingRules.Market

/-! ### Ragged series -/

namespace History

/-- No series is longer than one that is filled before it, or than the bound. -/
structure IsRagged (limit : Nat) (h : History) : Prop where
  volumes : h.volumes.length ≤ h.prices.length
  prices : h.prices.length ≤ h.times.length
  times : h.times.length ≤ limit
  bound : h.limit = limit

variable {limit : Nat} {h : History}

theorem IsRagged.popNewest (hr : h.IsRagged limit) : h.popNewest.2.IsRagged limit := by
  obtain ⟨hv, hp, ht, hl⟩ := hr
  rw [History.popNewest]
  dsimp only
  split
  · exact ⟨hv, hp, ht, hl⟩
  · split
    · rename_i hprices
      have hprices : h.prices.length = 0 := by simpa using hprices
      exact ⟨hv, by simp; omega, by simp; omega, hl⟩
    · split
      · rename_i hvolumes
        have hvolumes : h.volumes.length = 0 := by simpa using hvolumes
        exact ⟨by simp; omega, by simp; omega, by simp; omega, hl⟩
      · exact ⟨by simp; omega, by simp; omega, by simp; omega, hl⟩

theorem IsRagged.append (hr : h.IsRagged limit) (time price volume : Value) :
    (h.append time price volume).2.IsRagged limit := by
  obtain ⟨hv, hp, ht, hl⟩ := hr
  have htimes : (pushBounded h.limit h.times time).length = min limit (h.times.length + 1) :=
    hl ▸ length_pushBounded _ _ _
  rw [History.append]
  cases price.toFloat with
  | error e => exact ⟨hv, by dsimp only; omega, by dsimp only; omega, hl⟩
  | ok p =>
    have hprices : (pushBounded h.limit h.prices p).length = min limit (h.prices.length + 1) :=
      hl ▸ length_pushBounded _ _ _
    cases volume.toFloat with
    | error e => exact ⟨by dsimp only; omega, by dsimp only; omega, by dsimp only; omega, hl⟩
    | ok v =>
      have hvolumes : (pushBounded h.limit h.volumes v).length = min limit (h.volumes.length + 1) :=
        hl ▸ length_pushBounded _ _ _
      exact ⟨by dsimp only; omega, by dsimp only; omega, by dsimp only; omega, hl⟩

theorem IsRagged.merge (hr : h.IsRagged limit) (candle : Fields) :
    (h.merge candle).2.IsRagged limit := by
  rw [History.merge]
  split
  · exact hr
  · dsimp only
    split
    · exact hr.append _ _ _
    · split
      · exact hr
      · exact hr
      · split
        · have hpopped := hr.popNewest
          split
          · rename_i h' hpop
            rw [hpop] at hpopped
            exact hpopped.append _ _ _
          · exact hpopped
        · exact hr.append _ _ _

theorem IsRagged.mergeAll (hr : h.IsRagged limit) (candles : List Fields) :
    (h.mergeAll candles).2.IsRagged limit := by
  induction candles generalizing h with
  | nil => exact hr
  | cons candle rest ih =>
    have hmerged := hr.merge candle
    rw [History.mergeAll]
    split
    · rename_i h' hmerge
      rw [hmerge] at hmerged
      exact ih hmerged
    · exact hmerged

theorem IsRagged.ingest (hr : h.IsRagged limit) (batch : Value) :
    (h.ingest batch).2.IsRagged limit := by
  rw [History.ingest]
  split
  · exact hr
  · split
    · exact hr
    · exact hr.mergeAll _

/-- Merges batches one after the other, whether they fail or not. -/
def ingestAll (h : History) (batches : List Value) : History :=
  batches.foldl (fun h batch => (h.ingest batch).2) h

theorem IsRagged.ingestAll (hr : h.IsRagged limit) (batches : List Value) :
    (h.ingestAll batches).IsRagged limit := by
  induction batches generalizing h with
  | nil => exact hr
  | cons batch rest ih => exact ih (hr.ingest batch)

theorem exists_bars_of_ingestAll (limit : Nat) (bars : List Bar) {batches : List Value}
    (hread : ∀ candle ∈ batches.flatMap candles, candle.isReadable = true) :
    ∃ merged, (ofBars limit bars).ingestAll batches = ofBars limit merged ∧
      ∀ b ∈ merged, b ∈ bars ∨ ∃ candle ∈ batches.flatMap candles, candle.bar? = some b := by
  induction batches generalizing bars with
  | nil => exact ⟨bars, rfl, fun b hb => .inl hb⟩
  | cons batch rest ih =>
    rw [List.flatMap_cons] at hread ⊢
    obtain ⟨first, hfirst, hbars⟩ := exists_bars_of_ingest limit bars
      fun c hc => hread c (List.mem_append_left _ hc)
    obtain ⟨merged, hmerged, hall⟩ := ih first fun c hc =>
      hread c (List.mem_append_right _ hc)
    refine ⟨merged, ?_, fun b hb => ?_⟩
    · rw [← hmerged, ← hfirst]
      rfl
    · rcases hall b hb with hb | ⟨c, hc, hbar⟩
      · exact (hbars b hb).imp_right fun ⟨c, hc, hbar⟩ => ⟨c, List.mem_append_left _ hc, hbar⟩
      · exact .inr ⟨c, List.mem_append_right _ hc, hbar⟩

end History

/-! ### Feeding a market -/

/-- What brings data to a market, called from outside or by the refresh loop. -/
inductive Feed where
  | ingest (batch : Value)
  | fetchFirst
  | refresh (count : Value)
  | poll

section

variable {σ : Type} (source : Source σ)

def Feed.run (m : Market) (s : σ) : Feed → Market × σ
  | .ingest batch => ((m.ingest batch).2, s)
  | .fetchFirst => m.fetchFirst source s
  | .refresh count => m.refresh source count s
  | .poll => m.poll source s

/-- The batch that is merged. -/
def Feed.batch? (m : Market) (s : σ) : Feed → Option Value
  | .ingest batch => some batch
  | .fetchFirst => (source.answer (m.candleRequest m.settings.historySize) s).1.toOption
  | .refresh count => (source.answer (m.candleRequest count) s).1.toOption
  | .poll => none

def runFeeds : List Feed → Market → σ → Market × σ
  | [], m, s => (m, s)
  | feed :: rest, m, s =>
    let (m, s) := feed.run source m s
    runFeeds rest m s

/-- The batches that are merged while feeding, in order. -/
def batches : List Feed → Market → σ → List Value
  | [], _, _ => []
  | feed :: rest, m, s =>
    let (m', s') := feed.run source m s
    (feed.batch? source m s).toList ++ batches rest m' s'

theorem history_refresh (count : Value) (m : Market) (s : σ) :
    (m.refresh source count s).1.history =
      m.history.ingestAll (source.answer (m.candleRequest count) s).1.toOption.toList := by
  rw [refresh]
  split
  · rename_i batch s' hanswer
    simp [hanswer, Except.toOption, History.ingestAll, ingest]
  · rename_i e s' hanswer
    simp [hanswer, Except.toOption, History.ingestAll]

theorem history_setLive (m : Market) (price : Value) :
    (m.setLive price).2.history = m.history := by
  cases price with
  | null => rfl
  | _ =>
    rw [setLive]
    · split <;> rfl
    · exact nofun

theorem Feed.history_run (feed : Feed) (m : Market) (s : σ) :
    (feed.run source m s).1.history = m.history.ingestAll (feed.batch? source m s).toList := by
  cases feed with
  | ingest batch => rfl
  | fetchFirst => exact history_refresh source m.settings.historySize m s
  | refresh count => exact history_refresh source count m s
  | poll =>
    show (m.poll source s).1.history = m.history
    rw [Market.poll]
    split
    · rfl
    · exact history_setLive m _
    · rfl

theorem history_runFeeds (feeds : List Feed) (m : Market) (s : σ) :
    (runFeeds source feeds m s).1.history = m.history.ingestAll (batches source feeds m s) := by
  induction feeds generalizing m s with
  | nil => rfl
  | cons feed rest ih =>
    have hfirst := feed.history_run source m s
    rw [runFeeds, batches, ih, hfirst]
    simp [History.ingestAll]

/-- However a market is fed, and whatever fails on the way, no series is longer than one that is
filled before it. As long as price and volume of every candle can be read, the series are the
columns of one list of bars, each made of one candle. -/
theorem series_aligned_while_readable (settings : Settings) (connected : Bool) (feeds : List Feed)
    (s : σ) :
    let m := Market.new settings connected
    let h := (runFeeds source feeds m s).1.history
    let fed := (batches source feeds m s).flatMap History.candles
    h.volumes.length ≤ h.prices.length ∧ h.prices.length ≤ h.times.length ∧
      h.times.length ≤ settings.limit ∧
      ((∀ candle ∈ fed, candle.isReadable = true) →
        ∃ bars : List Bar, h.times = bars.map (·.time) ∧ h.prices = bars.map (·.price) ∧
          h.volumes = bars.map (·.volume) ∧
          ∀ b ∈ bars, ∃ candle ∈ fed, candle.bar? = some b) := by
  intro m h fed
  have hhistory : h = (History.ofBars settings.limit []).ingestAll (batches source feeds m s) :=
    history_runFeeds source feeds m s
  have hempty : (History.ofBars settings.limit []).IsRagged settings.limit :=
    ⟨Nat.le_refl 0, Nat.le_refl 0, Nat.zero_le _, rfl⟩
  have hragged := hempty.ingestAll (batches source feeds m s)
  rw [← hhistory] at hragged
  refine ⟨hragged.volumes, hragged.prices, hragged.times, fun hread => ?_⟩
  obtain ⟨bars, hbars, hall⟩ := History.exists_bars_of_ingestAll settings.limit []
    hread
  rw [← hhistory] at hbars
  refine ⟨bars, by rw [hbars]; rfl, by rw [hbars]; rfl, by rw [hbars]; rfl, fun b hb => ?_⟩
  exact (hall b hb).resolve_left List.not_mem_nil

end

/-! ### A market fed by a script -/

/-- Gives the values of a script one after the other, whatever is asked. -/
def replay : Source (List Value) where
  answer _
    | [] => (.error .emptySequence, [])
    | value :: rest => (.ok value, rest)

def quote (time price : Value) : Value :=
  .object [("timestamp", time), ("price", price), ("volume", .int 1)]

theorem quotes_stay_aligned :
    let script := [.list [quote (.int 1) (.text "10.5")], .text "n/a",
      .list [quote (.int 2) (.int 20)], .list [quote (.int 2) (.bool true)], .text "no list"]
    let feeds := [Feed.fetchFirst, .poll, .refresh refreshCount, .refresh refreshCount,
      .refresh refreshCount]
    let m := Market.new { stock := .text "KRW-BTC" } true
    let h := (runFeeds replay feeds m script).1.history
    let fed := (batches replay feeds m script).flatMap History.candles
    h.prices.length = 2 ∧ fed.length = 3 ∧
      ∃ bars : List Bar, h.times = bars.map (·.time) ∧ h.prices = bars.map (·.price) ∧
        h.volumes = bars.map (·.volume) ∧ ∀ b ∈ bars, ∃ candle ∈ fed, candle.bar? = some b :=
  ⟨by decide +kernel, by decide +kernel,
    (series_aligned_while_readable replay { stock := .text "KRW-BTC" } true _ _).2.2.2
      (by decide +kernel)⟩

/-- A price that cannot be read leaves its timestamp behind, and from then on the prices belong to
other timestamps. -/
theorem unreadable_price_leaves_timestamp :
    let script := [.list [quote (.int 1) (.text "n/a")], .list [quote (.int 2) (.int 20)]]
    let feeds := [Feed.refresh refreshCount, .refresh refreshCount]
    let h := (runFeeds replay feeds (.new { stock := .text "KRW-BTC" } true) script).1.history
    (h.times == [.int 1, .int 2]) = true ∧ (h.prices == [20.0]) = true ∧
      h.times.length ≠ h.prices.length := by
  decide +kernel

end TradingRules.Market
