import TradingRules.Market.History
import TradingRules.Proofs.Sorting.Stable

/-!
# A history as bars

As long as every candle can be read, the three series of a history are the columns of one list of
bars, each of which is a candle. Merging a candle is then pushing its bar.
-/

namespace TradingRules

/-- What one candle gives to the series. -/
structure Market.Bar where
  time : Value
  price : Float
  volume : Float

namespace Fields

variable (candle : Fields)

/-- Is the candle left out, since it has no timestamp or no price? -/
def isBlank : Bool :=
  (candle.get "timestamp").isNull || (candle.get "price").isNull

def volume : Value :=
  (candle.get "volume").orElse (.real 0.0)

/-- Can price and volume of a candle be read, if it is not left out? -/
def isReadable : Bool :=
  candle.isBlank || (candle.get "price").toFloat.isOk && candle.volume.toFloat.isOk

def bar? : Option Market.Bar :=
  if candle.isBlank then none
  else match (candle.get "price").toFloat, candle.volume.toFloat with
    | .ok price, .ok volume => some ⟨candle.get "timestamp", price, volume⟩
    | _, _ => none

variable {candle}

theorem bar?_of_isBlank (h : candle.isBlank = true) : candle.bar? = none :=
  if_pos h

theorem time_of_bar? {b : Market.Bar} (h : candle.bar? = some b) :
    candle.isBlank = false ∧ b.time = candle.get "timestamp" := by
  rw [bar?] at h
  split at h
  · cases h
  · rename_i hblank
    split at h
    · obtain rfl := Option.some.inj h
      exact ⟨by simpa using hblank, rfl⟩
    · cases h

theorem exists_bar_of_isReadable (h : candle.isReadable = true) (hblank : candle.isBlank = false) :
    ∃ price volume, (candle.get "price").toFloat = .ok price ∧ candle.volume.toFloat = .ok volume ∧
      candle.bar? = some ⟨candle.get "timestamp", price, volume⟩ := by
  rw [isReadable, hblank, Bool.false_or, Bool.and_eq_true] at h
  obtain ⟨hprice, hvolume⟩ := h
  rw [bar?, hblank]
  cases hp : (candle.get "price").toFloat with
  | error e => simp [hp, Except.isOk, Except.toBool] at hprice
  | ok price =>
    cases hv : candle.volume.toFloat with
    | error e => simp [hv, Except.isOk, Except.toBool] at hvolume
    | ok volume => exact ⟨price, volume, rfl, rfl, rfl⟩

end Fields

namespace Market

theorem map_pushBounded {α β : Type} (f : α → β) (limit : Nat) (xs : List α) (x : α) :
    (pushBounded limit xs x).map f = pushBounded limit (xs.map f) (f x) := by
  simp [pushBounded, List.map_drop]

theorem mem_of_mem_pushBounded {α : Type} {limit : Nat} {xs : List α} {x y : α}
    (h : y ∈ pushBounded limit xs x) : y ∈ xs ∨ y = x := by
  simpa using List.mem_of_mem_drop h

namespace Bar

/-- Puts a bar behind older ones, in the place of the newest one if they have the same time. -/
def push (limit : Nat) (bars : List Bar) (b : Bar) : Outcome (List Bar) :=
  match bars.getLast? with
  | none => .ok (pushBounded limit bars b)
  | some newest => do
    if ← Value.compareBy .less b.time newest.time then return bars
    else if b.time == newest.time then return pushBounded limit bars.dropLast b
    else return pushBounded limit bars b

/-- Pushes bars one after the other up to the first that fails. -/
def pushAll (limit : Nat) (bars : List Bar) : List Bar → Outcome Unit × List Bar
  | [] => (.ok (), bars)
  | b :: rest =>
    match push limit bars b with
    | .ok pushed => pushAll limit pushed rest
    | .error e => (.error e, bars)

theorem mem_of_mem_push {limit : Nat} {bars pushed : List Bar} {b c : Bar}
    (h : push limit bars b = .ok pushed) (hc : c ∈ pushed) : c ∈ bars ∨ c = b := by
  rw [push] at h
  split at h
  · obtain rfl := Except.ok.inj h
    exact mem_of_mem_pushBounded hc
  · obtain ⟨older, -, h⟩ := Outcome.bind_eq_ok.mp h
    split at h
    · obtain rfl := Except.ok.inj h
      exact .inl hc
    · split at h
      · obtain rfl := Except.ok.inj h
        exact (mem_of_mem_pushBounded hc).imp_left List.mem_of_mem_dropLast
      · obtain rfl := Except.ok.inj h
        exact mem_of_mem_pushBounded hc

theorem mem_of_mem_pushAll {limit : Nat} {bars new : List Bar} {b : Bar}
    (h : b ∈ (pushAll limit bars new).2) : b ∈ bars ∨ b ∈ new := by
  induction new generalizing bars with
  | nil => exact .inl h
  | cons first rest ih =>
    rw [pushAll] at h
    cases hpush : push limit bars first with
    | error e =>
      rw [hpush] at h
      exact .inl h
    | ok pushed =>
      rw [hpush] at h
      rcases ih h with hb | hb
      · rcases mem_of_mem_push hpush hb with hb | rfl
        · exact .inl hb
        · exact .inr List.mem_cons_self
      · exact .inr (List.mem_cons_of_mem first hb)

end Bar

namespace History

/-- The history whose series are the columns of a list of bars. -/
def ofBars (limit : Nat) (bars : List Bar) : History :=
  { limit, times := bars.map (·.time), prices := bars.map (·.price),
    volumes := bars.map (·.volume) }

variable {limit : Nat} {bars : List Bar} {candle : Fields}

theorem popNewest_ofBars (h : bars ≠ []) :
    (ofBars limit bars).popNewest = (.ok (), ofBars limit bars.dropLast) := by
  simp [popNewest, ofBars, h, List.map_dropLast]

theorem append_ofBars {time price volume : Value} {p v : Float} (hp : price.toFloat = .ok p)
    (hv : volume.toFloat = .ok v) : (ofBars limit bars).append time price volume =
      (.ok (), ofBars limit (pushBounded limit bars ⟨time, p, v⟩)) := by
  simp [append, ofBars, hp, hv, map_pushBounded]

theorem merge_of_isBlank {h : History} (hblank : candle.isBlank = true) :
    h.merge candle = (.ok (), h) :=
  if_pos hblank

theorem merge_ofBars (hread : candle.isReadable = true) (hblank : candle.isBlank = false) :
    ∃ b, candle.bar? = some b ∧ (ofBars limit bars).merge candle =
      match Bar.push limit bars b with
      | .ok pushed => (.ok (), ofBars limit pushed)
      | .error e => (.error e, ofBars limit bars) := by
  obtain ⟨p, v, hp, hv, hbar⟩ := Fields.exists_bar_of_isReadable hread hblank
  refine ⟨_, hbar, ?_⟩
  have hnot : ((candle.get "timestamp").isNull || (candle.get "price").isNull) = false := hblank
  have hvolume : ((candle.get "volume").orElse (.real 0.0)).toFloat = .ok v := hv
  have hlast : (ofBars limit bars).times.getLast? = bars.getLast?.map (·.time) := by
    simp [ofBars]
  rw [merge, hnot, hlast, Bar.push]
  cases hnewest : bars.getLast? with
  | none => exact append_ofBars hp hvolume
  | some newest =>
    have hne : bars ≠ [] := fun h => by simp [h] at hnewest
    simp only [Bool.false_eq_true, if_false, Option.map_some]
    cases Value.compareBy .less (candle.get "timestamp") newest.time with
    | error e => rfl
    | ok older =>
      cases older with
      | true => rfl
      | false =>
        simp only [Outcome.ok_bind, Bool.false_eq_true, if_false]
        cases candle.get "timestamp" == newest.time with
        | false => exact append_ofBars hp hvolume
        | true =>
          simp only [if_true, popNewest_ofBars hne]
          exact append_ofBars hp hvolume

/-- Merging readable candles is pushing their bars, also where it fails midway. -/
theorem mergeAll_ofBars (limit : Nat) (bars : List Bar) {candles : List Fields}
    (hread : ∀ candle ∈ candles, candle.isReadable = true) :
    (ofBars limit bars).mergeAll candles =
      Prod.map id (ofBars limit) (Bar.pushAll limit bars (candles.filterMap Fields.bar?)) := by
  induction candles generalizing bars with
  | nil => rfl
  | cons candle rest ih =>
    have ih := fun bars => ih bars fun c hc => hread c (List.mem_cons_of_mem candle hc)
    rw [mergeAll]
    cases hblank : candle.isBlank with
    | true =>
      rw [List.filterMap_cons_none (Fields.bar?_of_isBlank hblank), merge_of_isBlank hblank]
      exact ih bars
    | false =>
      obtain ⟨b, hbar, hmerge⟩ := merge_ofBars (hread candle List.mem_cons_self) hblank
      rw [List.filterMap_cons_some hbar, hmerge, Bar.pushAll]
      cases Bar.push limit bars b with
      | error e => rfl
      | ok pushed => exact ih pushed

/-! ### Batches -/

/-- The candles of a batch. -/
def candles : Value → List Fields
  | .list items => items.filterMap fun item => item.asFields.toOption
  | _ => []

theorem mem_candles_of_ordered {batch : Value} {sorted : List Fields}
    (h : ordered batch = .ok sorted) (hc : candle ∈ sorted) : candle ∈ candles batch := by
  obtain ⟨items, hitems, h⟩ := Outcome.bind_eq_ok.mp h
  obtain ⟨pairs, hpairs, h⟩ := Outcome.bind_eq_ok.mp h
  obtain ⟨byKey, hsort, h⟩ := Outcome.bind_eq_ok.mp h
  obtain rfl := Except.ok.inj h
  obtain ⟨pair, hpair, rfl⟩ := List.mem_map.mp hc
  have hpair := (Value.sortByKey_perm hsort).mem_iff.mp hpair
  obtain ⟨item, hitem, h⟩ := Outcome.exists_of_mem_mapM hpairs hpair
  obtain ⟨f, hf, h⟩ := Outcome.bind_eq_ok.mp h
  obtain rfl := Except.ok.inj h
  cases batch with
  | null | bool | int | real | undefined => cases hitems
  | list => 
    obtain rfl := Except.ok.inj hitems
    exact List.mem_filterMap.mpr ⟨item, hitem, by rw [hf]; rfl⟩
  | text s =>
    obtain rfl := Except.ok.inj hitems
    obtain ⟨c, -, rfl⟩ := List.mem_map.mp hitem
    cases hf
  | object fields =>
    obtain rfl := Except.ok.inj hitems
    obtain ⟨c, -, rfl⟩ := List.mem_map.mp hitem
    cases hf

/-- Of a batch whose candles can be read, some bars enter, even when merging it fails. -/
theorem exists_bars_of_ingest (limit : Nat) (bars : List Bar) {batch : Value}
    (hread : ∀ candle ∈ candles batch, candle.isReadable = true) :
    ∃ merged, ((ofBars limit bars).ingest batch).2 = ofBars limit merged ∧
      ∀ b ∈ merged, b ∈ bars ∨ ∃ candle ∈ candles batch, candle.bar? = some b := by
  rw [ingest]
  split
  · exact ⟨bars, rfl, fun b hb => .inl hb⟩
  · cases hordered : ordered batch with
    | error e => exact ⟨bars, rfl, fun b hb => .inl hb⟩
    | ok sorted =>
      have hsorted : ∀ c ∈ sorted, c ∈ candles batch := fun c hc =>
        mem_candles_of_ordered hordered hc
      have hmerge := mergeAll_ofBars limit bars fun c hc =>
        hread c (hsorted c hc)
      refine ⟨_, congrArg Prod.snd hmerge, fun b hb => ?_⟩
      refine (Bar.mem_of_mem_pushAll hb).imp_right fun hnew => ?_
      obtain ⟨c, hc, hbar⟩ := List.mem_filterMap.mp hnew
      exact ⟨c, hsorted c hc, hbar⟩

end History

end Market

end TradingRules
