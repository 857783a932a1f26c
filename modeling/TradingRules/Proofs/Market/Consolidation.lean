import Mathlib.Data.List.Induction
import Mathlib.Data.List.TakeDrop
import TradingRules.Market.Basic
import TradingRules.Proofs.Lists
import TradingRules.Proofs.Market.Bars

/-!
# What a history keeps of its candles

Candles come in batches that overlap and repeat themselves. A bar counts if none before it is newer,
and of the bars of one time the last one counts. The history holds the newest of those that count,
as many as its bound allows.
-/

namespace TradingRules

namespace Value

/-- A value that counts as false stands where zero stands. -/
theorem position_orElse_zero (v : Value) : (v.orElse (.int 0)).position = v.position := by
  rw [orElse]
  split
  · rfl
  · rename_i hfalse
    have hzero : (int 0).position = Number.point 0 := rfl
    rw [hzero]
    cases v with
    | null | text | list | object => rfl
    | undefined => exact absurd rfl hfalse
    | bool b =>
      cases b with
      | true => exact absurd rfl hfalse
      | false => rfl
    | int n =>
      obtain rfl : n = 0 := by simpa [isTruthy] using hfalse
      rfl
    | real x =>
      have hx : (x == 0) = true := by
        cases hx : x == 0 with
        | true => rfl
        | false => exact absurd (congrArg Bool.not hx) hfalse
      obtain ⟨a, hxa, hza⟩ := (Number.beq_iff x 0).mp hx
      have ha : (real x).point? = some a := hxa
      rw [position, ha, Option.some.inj (hza.symm.trans Number.exactValue?_zero)]
      rfl

end Value

namespace Market

namespace Bar

/-- Where the time of a bar stands. -/
def position (b : Bar) : WithBot (WithTop ℚ) :=
  b.time.position

/-- The bars that none before them is newer than, where some bars went before. -/
def acceptedAfter (before : List Bar) : List Bar → List Bar
  | [] => []
  | b :: rest =>
    if ∀ a ∈ before, a.position ≤ b.position then b :: acceptedAfter (before ++ [b]) rest
    else acceptedAfter (before ++ [b]) rest

def accepted (bars : List Bar) : List Bar :=
  acceptedAfter [] bars

/-- Of bars with one time the last one. -/
def lastOfEach : List Bar → List Bar
  | [] => []
  | b :: rest =>
    if ∃ c ∈ rest, c.position = b.position then lastOfEach rest else b :: lastOfEach rest

/-- The bars that count. -/
def settled (bars : List Bar) : List Bar :=
  lastOfEach (accepted bars)

variable {bars before kept : List Bar} {b newest : Bar}

theorem acceptedAfter_concat (before bars : List Bar) (b : Bar) :
    acceptedAfter before (bars ++ [b]) = acceptedAfter before bars ++
      if ∀ a ∈ before ++ bars, a.position ≤ b.position then [b] else [] := by
  induction bars generalizing before with
  | nil =>
    rw [List.nil_append, acceptedAfter, List.append_nil]
    rfl
  | cons first rest ih =>
    rw [List.cons_append, acceptedAfter, acceptedAfter, ih, List.append_assoc,
      List.singleton_append]
    split
    · rw [List.cons_append]
    · rfl

theorem accepted_concat (bars : List Bar) (b : Bar) :
    accepted (bars ++ [b]) =
      accepted bars ++ if ∀ a ∈ bars, a.position ≤ b.position then [b] else [] :=
  acceptedAfter_concat [] bars b

theorem lastOfEach_concat (bars : List Bar) (b : Bar) :
    lastOfEach (bars ++ [b]) =
      (lastOfEach bars).filter (fun a => a.position ≠ b.position) ++ [b] := by
  induction bars with
  | nil => simp [lastOfEach]
  | cons first rest ih =>
    rw [List.cons_append, lastOfEach, lastOfEach, ih]
    by_cases hlater : ∃ c ∈ rest, c.position = first.position
    · obtain ⟨c, hc, hsame⟩ := hlater
      rw [if_pos ⟨c, List.mem_append_left _ hc, hsame⟩, if_pos ⟨c, hc, hsame⟩]
    · by_cases hb : first.position = b.position
      · rw [if_pos ⟨b, List.mem_append_right _ List.mem_cons_self, hb.symm⟩, if_neg hlater,
          List.filter_cons_of_neg (by simpa using hb)]
      · rw [if_neg hlater, if_neg, List.filter_cons_of_pos (by simpa using hb), List.cons_append]
        rintro ⟨c, hc, hsame⟩
        rcases List.mem_append.mp hc with hc | hc
        · exact hlater ⟨c, hc, hsame⟩
        · obtain rfl := List.mem_singleton.mp hc
          exact hb hsame.symm

/-- Puts a bar behind older ones, without a bound. -/
def place (kept : List Bar) (b : Bar) : List Bar :=
  match kept.getLast? with
  | none => [b]
  | some newest =>
    if b.position < newest.position then kept
    else if b.position = newest.position then kept.dropLast ++ [b]
    else kept ++ [b]

/-- Some of the bars in the order of their times, the last of which is older than no bar. -/
structure Settles (bars kept : List Bar) : Prop where
  rising : kept.Pairwise fun a b => a.position < b.position
  subset : kept ⊆ bars
  covered : ∀ a ∈ bars, ∃ newest, kept.getLast? = some newest ∧ a.position ≤ newest.position

theorem Settles.le_newest (h : Settles bars kept) (hnewest : kept.getLast? = some newest)
    {a : Bar} (ha : a ∈ bars) : a.position ≤ newest.position := by
  obtain ⟨last, hlast, hle⟩ := h.covered a ha
  rwa [Option.some.inj (hnewest.symm.trans hlast)]

theorem Settles.eq_nil_of_none (h : Settles bars kept) (hnone : kept.getLast? = none) :
    bars = [] := by
  refine List.eq_nil_iff_forall_not_mem.mpr fun a ha => ?_
  obtain ⟨last, hlast, -⟩ := h.covered a ha
  cases hnone.symm.trans hlast

/-- The older bars lie below the newest one. -/
theorem Settles.exists_older (h : Settles bars kept) (hnewest : kept.getLast? = some newest) :
    ∃ older, kept = older ++ [newest] ∧ ∀ a ∈ older, a.position < newest.position := by
  obtain ⟨older, rfl⟩ := List.getLast?_eq_some_iff.mp hnewest
  exact ⟨older, rfl, fun a ha =>
    (List.pairwise_append.mp h.rising).2.2 a ha newest List.mem_cons_self⟩

theorem Settles.concat {front : List Bar} (h : Settles bars kept)
    (hnewest : kept.getLast? = some newest) (hge : newest.position ≤ b.position)
    (hsubset : front ⊆ bars) (hrising : front.Pairwise fun a b => a.position < b.position)
    (hbelow : ∀ a ∈ front, a.position < b.position) :
    Settles (bars ++ [b]) (front ++ [b]) := by
  refine ⟨?_, ?_, fun a ha => ⟨b, List.getLast?_concat, ?_⟩⟩
  · refine List.pairwise_append.mpr ⟨hrising, List.pairwise_singleton _ _, fun a ha c hc => ?_⟩
    rw [List.mem_singleton.mp hc]
    exact hbelow a ha
  · exact List.append_subset.mpr
      ⟨List.subset_append_of_subset_left _ hsubset, List.subset_append_right _ _⟩
  · rcases List.mem_append.mp ha with ha | ha
    · exact (h.le_newest hnewest ha).trans hge
    · exact (congrArg position (List.mem_singleton.mp ha)).le

theorem Settles.place (h : Settles bars kept) (b : Bar) :
    Settles (bars ++ [b]) (place kept b) := by
  rw [Bar.place]
  cases hnewest : kept.getLast? with
  | none =>
    have hempty := h.eq_nil_of_none hnewest
    subst hempty
    refine ⟨List.pairwise_singleton _ _, fun a ha => ha, fun a ha => ⟨b, rfl, ?_⟩⟩
    exact (congrArg position (List.mem_singleton.mp ha)).le
  | some newest =>
    obtain ⟨older, rfl, holder⟩ := h.exists_older hnewest
    have hrising := List.pairwise_append.mp h.rising
    have hsubset : older ⊆ bars := fun a ha => h.subset (List.mem_append_left _ ha)
    dsimp only
    split
    · rename_i hlt
      refine ⟨h.rising, List.subset_append_of_subset_left _ h.subset, fun a ha => ?_⟩
      refine ⟨newest, hnewest, ?_⟩
      rcases List.mem_append.mp ha with ha | ha
      · exact h.le_newest hnewest ha
      · exact (congrArg position (List.mem_singleton.mp ha)).le.trans hlt.le
    · rename_i hge
      split
      · rename_i heq
        rw [List.dropLast_concat]
        exact h.concat hnewest heq.ge hsubset hrising.1 fun a ha => (holder a ha).trans_eq heq.symm
      · rename_i hne
        have hlt := lt_of_le_of_ne (not_lt.mp hge) (Ne.symm hne)
        refine h.concat hnewest hlt.le h.subset h.rising fun a ha => ?_
        exact (h.le_newest hnewest (h.subset ha)).trans_lt hlt

theorem settled_concat (h : Settles bars (settled bars)) (b : Bar) :
    settled (bars ++ [b]) = Bar.place (settled bars) b := by
  have hsettled : settled bars = lastOfEach (accepted bars) := rfl
  rw [Bar.place, settled, accepted_concat]
  cases hnewest : (settled bars).getLast? with
  | none =>
    have hempty := h.eq_nil_of_none hnewest
    subst hempty
    simp [accepted, acceptedAfter, lastOfEach]
  | some newest =>
    obtain ⟨older, hkept, holder⟩ := h.exists_older hnewest
    rcases lt_or_ge b.position newest.position with hlt | hge
    · have hmem : newest ∈ bars := h.subset (by simp [hkept])
      rw [if_neg fun hall => (hall newest hmem).not_gt hlt, List.append_nil]
      exact (if_pos hlt).symm
    · have hall : ∀ a ∈ bars, a.position ≤ b.position := fun a ha =>
        (h.le_newest hnewest ha).trans hge
      rw [if_pos hall, lastOfEach_concat, ← hsettled, hkept]
      dsimp only
      rw [if_neg hge.not_gt]
      rcases hge.eq_or_lt with heq | hlt
      · have hfilter : older.filter (fun a => a.position ≠ b.position) = older :=
          List.filter_eq_self.mpr fun a ha => by simpa [← heq] using (holder a ha).ne
        rw [if_pos heq.symm, List.dropLast_concat, List.filter_append, hfilter,
          List.filter_cons_of_neg (by simpa using heq), List.filter_nil, List.append_nil]
      · rw [if_neg hlt.ne', List.filter_eq_self.mpr]
        intro a ha
        have hle := h.le_newest hnewest (h.subset (hkept ▸ ha))
        simpa using (hle.trans_lt hlt).ne

theorem settles (bars : List Bar) : Settles bars (settled bars) := by
  induction bars using List.reverseRecOn with
  | nil => exact ⟨List.Pairwise.nil, List.Subset.refl _, nofun⟩
  | append_singleton bars b ih =>
    rw [settled_concat ih]
    exact ih.place b

/-! ### The bound -/

variable {limit : Nat}

theorem push_rtake (hlimit : 0 < limit) (hb : b.time.isOrdered = true)
    (hkept : ∀ a ∈ kept, a.time.isOrdered = true) :
    push limit (kept.rtake limit) b = .ok ((Bar.place kept b).rtake limit) := by
  have hpush : ∀ (front : List Bar) (m : Nat), limit ≤ m + 1 →
      pushBounded limit (front.rtake m) b = (front ++ [b]).rtake limit := fun front m hm =>
    List.rtake_rtake_concat hm front b
  rw [Bar.place]
  cases hnewest : kept.getLast? with
  | none =>
    obtain rfl := List.getLast?_eq_none_iff.mp hnewest
    have hfirst := hpush [] limit (Nat.le_succ limit)
    rw [List.rtake_nil] at hfirst ⊢
    exact congrArg Except.ok hfirst
  | some newest =>
    obtain ⟨older, rfl⟩ := List.getLast?_eq_some_iff.mp hnewest
    obtain ⟨x, hx⟩ := Value.isOrdered_iff.mp hb
    obtain ⟨y, hy⟩ := Value.isOrdered_iff.mp (hkept newest (by simp))
    have hbx : b.position = x := by simp [position, Value.position, hx]
    have hny : newest.position = y := by simp [position, Value.position, hy]
    have hrtake : (older ++ [newest]).rtake limit = older.rtake (limit - 1) ++ [newest] := by
      conv_lhs => rw [← Nat.sub_add_cancel hlimit]
      exact List.rtake_concat_succ _ _ _
    have hequal := Value.beq_iff_of_point? hx hy
    rw [push, hrtake, List.getLast?_concat]
    dsimp only
    rw [Value.less_of_point? hx hy, Outcome.ok_bind, hbx, hny, ← hrtake]
    by_cases hlt : x < y
    · simp [hlt]
    · by_cases heq : x = y
      · rw [hrtake, List.dropLast_concat, List.dropLast_concat, hequal.mpr heq, if_pos heq]
        simpa [hlt] using hpush older (limit - 1) (by omega)
      · have hsame : (b.time == newest.time) = false := by
          simpa using fun h => heq (hequal.mp h)
        rw [hsame, if_neg heq]
        simpa [hlt] using hpush (older ++ [newest]) limit (Nat.le_succ limit)

theorem pushAll_rtake (hlimit : 0 < limit) (new : List Bar)
    (hall : ∀ b ∈ bars ++ new, b.time.isOrdered = true) :
    pushAll limit ((settled bars).rtake limit) new =
      (.ok (), (settled (bars ++ new)).rtake limit) := by
  induction new generalizing bars with
  | nil => rw [List.append_nil]; rfl
  | cons b rest ih =>
    have hkept : ∀ a ∈ settled bars, a.time.isOrdered = true := fun a ha =>
      hall a (List.mem_append_left _ ((settles bars).subset ha))
    have hrest : bars ++ b :: rest = bars ++ [b] ++ rest := by simp
    rw [pushAll, push_rtake hlimit (hall b (by simp)) hkept, ← settled_concat (settles bars), hrest]
    exact ih (hrest ▸ hall)

end Bar

/-! ### Batches -/

namespace History

variable {limit : Nat} {batch : List Fields} {candle : Fields}

/-- Is the timestamp a number, and can price and volume be read, as far as they are there? -/
def isRegular (candle : Fields) : Bool :=
  candle.isReadable &&
    ((candle.get "timestamp").isNull || (candle.get "timestamp").isOrdered)

/-- The bars of a batch in the order of their times; bars of one time keep their order. -/
def barsOf (batch : List Fields) : List Bar :=
  Sorting.sortBy Bar.position (batch.filterMap Fields.bar?)

theorem isOrdered_key (h : isRegular candle = true) :
    ((candle.get "timestamp").orElse (.int 0)).isOrdered = true := by
  rw [isRegular, Bool.and_eq_true, Bool.or_eq_true] at h
  rw [Value.orElse]
  split
  · rename_i htrue
    refine h.2.resolve_left ?_
    generalize candle.get "timestamp" = time at htrue
    cases time with
    | null => cases htrue
    | _ => exact Bool.false_ne_true
  · rfl

theorem isOrdered_bar {b : Bar} (h : isRegular candle = true) (hb : candle.bar? = some b) :
    b.time.isOrdered = true := by
  obtain ⟨hblank, htime⟩ := Fields.time_of_bar? hb
  rw [isRegular, Bool.and_eq_true, Bool.or_eq_true] at h
  rw [Fields.isBlank, Bool.or_eq_false_iff] at hblank
  rw [htime]
  exact h.2.resolve_left (by simp [hblank.1])

theorem isOrdered_append_barsOf (bars : List Bar) (hbars : ∀ b ∈ bars, b.time.isOrdered = true)
    (h : ∀ candle ∈ batch, isRegular candle = true) :
    ∀ b ∈ bars ++ barsOf batch, b.time.isOrdered = true := by
  intro b hb
  rcases List.mem_append.mp hb with hb | hb
  · exact hbars b hb
  · have hmem := (Sorting.sortBy_perm _ _).mem_iff.mp hb
    obtain ⟨candle, hcandle, hbar⟩ := List.mem_filterMap.mp hmem
    exact isOrdered_bar (h candle hcandle) hbar

theorem ordered_eq (h : ∀ candle ∈ batch, isRegular candle = true) :
    ∃ sorted, ordered (.list (batch.map .object)) = .ok sorted ∧ sorted.Perm batch ∧
      sorted.filterMap Fields.bar? = barsOf batch := by
  let keyed? (f : Fields) : Value × Fields := ((f.get "timestamp").orElse (.int 0), f)
  have hkeyed : keyed (batch.map .object) = .ok (batch.map keyed?) := by
    rw [keyed, List.mapM_map]
    exact Outcome.mapM_eq_ok fun f _ => rfl
  have hkeys : ∀ item ∈ batch.map keyed?, item.1.isOrdered = true := by
    intro item hitem
    obtain ⟨f, hf, rfl⟩ := List.mem_map.mp hitem
    exact isOrdered_key (h f hf)
  have hsort := Value.sortByKey_of_isOrdered hkeys
  have hordered : ordered (.list (batch.map .object)) =
      .ok (Sorting.sortBy (fun f => (keyed? f).1.position) batch) := by
    rw [ordered, Value.items, Outcome.ok_bind, hkeyed, Outcome.ok_bind, hsort, ← Sorting.map_sortBy,
      Outcome.ok_bind, List.map_map]
    exact congrArg Except.ok (List.map_id _)
  refine ⟨_, hordered, Sorting.sortBy_perm _ batch, Sorting.filterMap_sortBy ?_ batch⟩
  intro f b hb
  rw [Bar.position, (Fields.time_of_bar? hb).2, Value.position_orElse_zero]

/-- Merging a batch carries what is kept of the bars so far over to what is kept of all. -/
theorem ingest_settled {bars : List Bar} (hlimit : 0 < limit)
    (hbars : ∀ b ∈ bars, b.time.isOrdered = true)
    (h : ∀ candle ∈ batch, isRegular candle = true) :
    (ofBars limit ((Bar.settled bars).rtake limit)).ingest (.list (batch.map .object)) =
      (.ok (), ofBars limit ((Bar.settled (bars ++ barsOf batch)).rtake limit)) := by
  obtain ⟨sorted, hordered, hperm, hsorted⟩ := ordered_eq h
  rw [ingest]
  split
  · rename_i hempty
    obtain rfl : batch = [] := by simpa [Value.isTruthy] using hempty
    simp [barsOf, Sorting.sortBy]
  · rw [hordered]
    have hread : ∀ candle ∈ sorted, candle.isReadable = true := fun c hc =>
      (Bool.and_eq_true_iff.mp (h c (hperm.mem_iff.mp hc))).1
    dsimp only
    rw [mergeAll_ofBars _ _ hread, hsorted,
      Bar.pushAll_rtake hlimit _ (isOrdered_append_barsOf bars hbars h)]
    rfl

end History

/-- Merges batches one after the other up to the first that fails. -/
def ingestBatches (m : Market) : List Value → Outcome Unit × Market
  | [] => (.ok (), m)
  | batch :: rest =>
    match m.ingest batch with
    | (.ok _, m) => m.ingestBatches rest
    | failed => failed

def batchOf (candles : List Fields) : Value :=
  .list (candles.map .object)

theorem ingestBatches_settled {limit : Nat} (hlimit : 0 < limit) {batches : List (List Fields)}
    (h : ∀ batch ∈ batches, ∀ candle ∈ batch, History.isRegular candle = true) (bars : List Bar)
    (hbars : ∀ b ∈ bars, b.time.isOrdered = true) {m : Market}
    (hm : m.history = .ofBars limit ((Bar.settled bars).rtake limit)) :
    ∃ m', m.ingestBatches (batches.map batchOf) = (.ok (), m') ∧ m'.history =
      .ofBars limit ((Bar.settled (bars ++ batches.flatMap History.barsOf)).rtake limit) := by
  induction batches generalizing bars m with
  | nil => exact ⟨m, rfl, by rw [hm, List.flatMap_nil, List.append_nil]⟩
  | cons batch rest ih =>
    have hbatch := h batch List.mem_cons_self
    have hfirst := History.ingest_settled hlimit hbars hbatch
    rw [← hm] at hfirst
    generalize hnext : History.ofBars limit
      ((Bar.settled (bars ++ History.barsOf batch)).rtake limit) = next at hfirst
    have hstep : m.ingest (batchOf batch) = (.ok (), { m with history := next }) := by
      rw [ingest, batchOf, hfirst]
    obtain ⟨m', hm', hhistory⟩ := ih (fun b hb => h b (List.mem_cons_of_mem batch hb))
      _ (History.isOrdered_append_barsOf bars hbars hbatch) (m := { m with history := next })
        hnext.symm
    refine ⟨m', ?_, by rw [hhistory, List.flatMap_cons, List.append_assoc]⟩
    rw [List.map_cons, ingestBatches, hstep]
    exact hm'

/-- The bars that were merged into new market data settle in the history, up to its bound. -/
theorem exists_ingestBatches_new (settings : Settings) (connected : Bool)
    (hlimit : 0 < settings.limit) {batches : List (List Fields)}
    (h : ∀ batch ∈ batches, ∀ candle ∈ batch, History.isRegular candle = true) :
    ∃ m, (Market.new settings connected).ingestBatches (batches.map batchOf) = (.ok (), m) ∧
      m.history = .ofBars settings.limit
        ((Bar.settled (batches.flatMap History.barsOf)).rtake settings.limit) :=
  ingestBatches_settled hlimit h [] nofun (by
    rw [Bar.settled, Bar.accepted, Bar.acceptedAfter, Bar.lastOfEach, List.rtake_nil]
    rfl)

theorem isOrdered_of_mem_barsOf {batches : List (List Fields)}
    (h : ∀ batch ∈ batches, ∀ candle ∈ batch, History.isRegular candle = true) {b : Bar}
    (hb : b ∈ batches.flatMap History.barsOf) : b.time.isOrdered = true := by
  obtain ⟨batch, hbatch, hb⟩ := List.mem_flatMap.mp hb
  exact History.isOrdered_append_barsOf [] nofun (h batch hbatch) b hb

/-- The history holds the newest bars that count: of the bars of all batches, each batch in the
order of its times, those that none before them is newer than, and of these the last one of each
time. A smaller bound only cuts off the oldest ones. -/
theorem history_holds_newest_settled (settings : Settings) (connected : Bool)
    (hlimit : 0 < settings.limit) (batches : List (List Fields))
    (hregular : ∀ batch ∈ batches, ∀ candle ∈ batch, History.isRegular candle = true) :
    let whole := Bar.settled (batches.flatMap History.barsOf)
    let held := whole.rtake settings.limit
    ∃ m, (Market.new settings connected).ingestBatches (batches.map batchOf) = (.ok (), m) ∧
      m.history.times = held.map (·.time) ∧ m.history.prices = held.map (·.price) ∧
      m.history.volumes = held.map (·.volume) ∧
      m.history.prices.length = m.history.times.length ∧
      m.history.volumes.length = m.history.times.length ∧
      (whole.Pairwise fun a b => a.position < b.position) ∧
      (m.history.times.Pairwise fun s t => Value.compareBy .less s t = .ok true) ∧
      ∀ wide : Settings, settings.limit ≤ wide.limit →
        ∃ m', (Market.new wide connected).ingestBatches (batches.map batchOf) = (.ok (), m') ∧
          m.history.times <:+ m'.history.times ∧ m.history.prices <:+ m'.history.prices ∧
          m.history.volumes <:+ m'.history.volumes := by
  intro whole held
  have hrun : ∀ wide : Settings, 0 < wide.limit → ∃ m,
      (Market.new wide connected).ingestBatches (batches.map batchOf) = (.ok (), m) ∧
        m.history = .ofBars wide.limit (whole.rtake wide.limit) := fun wide hwide =>
    ingestBatches_settled hwide hregular [] nofun (by
      rw [Bar.settled, Bar.accepted, Bar.acceptedAfter, Bar.lastOfEach, List.rtake_nil]
      rfl)
  have hordered : ∀ b ∈ whole, b.time.isOrdered = true := fun b hb => by
    obtain ⟨batch, hbatch, hb⟩ := List.mem_flatMap.mp ((Bar.settles _).subset hb)
    exact History.isOrdered_append_barsOf [] nofun (hregular batch hbatch) b hb
  have hrising := (Bar.settles (batches.flatMap History.barsOf)).rising
  obtain ⟨m, hm, hhistory⟩ := hrun settings hlimit
  refine ⟨m, hm, by rw [hhistory]; rfl, by rw [hhistory]; rfl, by rw [hhistory]; rfl,
    by simp [hhistory, History.ofBars], by simp [hhistory, History.ofBars], hrising, ?_, ?_⟩
  · have hless : ∀ a ∈ held, ∀ b ∈ held, a.position < b.position →
        Value.compareBy .less a.time b.time = .ok true := by
      intro a ha b hb hlt
      obtain ⟨x, hx⟩ := Value.isOrdered_iff.mp (hordered a (List.mem_of_mem_drop ha))
      obtain ⟨y, hy⟩ := Value.isOrdered_iff.mp (hordered b (List.mem_of_mem_drop hb))
      rw [Value.less_of_point? hx hy]
      simpa [Bar.position, Value.position, hx, hy] using hlt
    rw [hhistory]
    refine List.pairwise_map.mpr (List.Pairwise.imp_of_mem (fun ha hb => hless _ ha _ hb) ?_)
    exact hrising.sublist (List.drop_sublist _ _)
  · intro wide hwide
    obtain ⟨m', hm', hhistory'⟩ := hrun wide (hlimit.trans_le hwide)
    have hsuffix := List.rtake_suffix_rtake hwide whole
    refine ⟨m', hm', ?_, ?_, ?_⟩ <;> rw [hhistory, hhistory'] <;> exact hsuffix.map _

/-- Batches with a repeated and an older timestamp, and with candles that lack a part. -/
def overlapping : List (List Fields) :=
  [[[("timestamp", .int 2), ("price", .int 20)], [("timestamp", .int 1), ("price", .int 10)]],
    [[("timestamp", .int 1), ("price", .int 11)], [("price", .int 5)],
      [("timestamp", .int 2), ("price", .real 21.5), ("volume", .int 3)]],
    [[("timestamp", .real 2.5), ("price", .int 22)], [("timestamp", .int 4)]]]

theorem overlapping_is_held :
    let held := (Bar.settled (overlapping.flatMap History.barsOf)).rtake 2
    ∃ m, (Market.new { stock := .text "KRW-BTC", limit := 2 } false).ingestBatches
        (overlapping.map batchOf) = (.ok (), m) ∧
      m.history.times = held.map (·.time) ∧ m.history.prices = held.map (·.price) ∧
      m.history.volumes = held.map (·.volume) := by
  have hregular : ∀ batch ∈ overlapping, ∀ candle ∈ batch, History.isRegular candle = true := by
    decide +kernel
  obtain ⟨m, hm, htimes, hprices, hvolumes, -⟩ := history_holds_newest_settled
    { stock := .text "KRW-BTC", limit := 2 } false (by decide) overlapping hregular
  exact ⟨m, hm, htimes, hprices, hvolumes⟩

end Market

end TradingRules
