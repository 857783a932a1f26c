import TradingRules.Market.Basic
import TradingRules.Proofs.Logic.Readiness

/-!
# How lookups land

A lookup of a highest price lands in one of three ways. A number is kept; a failure is forgotten, so
that the next run looks the price up again; an answer that is no number leaves the lookup finished
without a price, and then it is never made again.
-/

namespace TradingRules

namespace Market

variable {p q : Period}

theorem Period.beq_iff (hp : ∃ unit, p.unit = .text unit) : (q == p) = true ↔ q = p := by
  obtain ⟨unit, length⟩ := p
  obtain ⟨u, rfl⟩ := hp
  exact beq_textPeriod_iff

theorem Period.beq_iff_left (hp : ∃ unit, p.unit = .text unit) : (p == q) = true ↔ p = q := by
  obtain ⟨unit, length⟩ := p
  obtain ⟨u, rfl⟩ := hp
  obtain ⟨unit', length'⟩ := q
  have hunit := Value.isSame_iff_of_isName_left (v := .text u) (w := unit') (.inr ⟨u, rfl⟩)
  simp [BEq.beq, hunit]

/-- No lookup of the period is under way or has finished. -/
def IsUntried (p : Period) (m : Market) : Prop :=
  ∀ l ∈ m.lookups, l.1 ≠ p

/-- A lookup of the period has finished, but there is no price. -/
def IsSpoiled (p : Period) (m : Market) : Prop :=
  (p, .finished) ∈ m.lookups ∧ m.highest? p = none

theorem mem_pending {m : Market} : p ∈ m.pending ↔ (p, .pending) ∈ m.lookups := by
  simp only [pending, List.mem_map, List.mem_filter, beq_iff_eq]
  constructor
  · rintro ⟨⟨q, status⟩, ⟨hmem, rfl⟩, rfl⟩
    exact hmem
  · exact fun h => ⟨_, ⟨h, rfl⟩, rfl⟩

/-! ### Requests

A request leaves the surroundings as its answer does. -/

section

variable {σ : Type} (source : Source σ) (m : Market) (s : σ)

theorem refresh_snd (count : Value) :
    (m.refresh source count s).2 = (source.answer (m.candleRequest count) s).2 := by
  rw [refresh]
  rcases source.answer (m.candleRequest count) s with ⟨e | batch, s'⟩ <;> rfl

theorem poll_snd : (m.poll source s).2 = (source.answer m.priceRequest s).2 := by
  rw [poll]
  rcases source.answer m.priceRequest s with ⟨e | price, s'⟩
  · rfl
  · cases price <;> rfl

theorem runLookup_snd (p : Period) :
    (m.runLookup source p s).2 = (source.answer (m.highestRequest p) s).2 := by
  rw [runLookup]
  rcases source.answer (m.highestRequest p) s with ⟨e | price, s'⟩
  · rfl
  · dsimp only
    cases price.toFloat <;> rfl

end

/-! ### Landing -/

section

variable {σ : Type} (source : Source σ) (m : Market) (s : σ)

theorem runLookup_of_fault {e : Fault} {s' : σ}
    (h : source.answer (m.highestRequest p) s = (.error e, s')) : m.runLookup source p s =
      ({ m with lookups := m.lookups.filter fun l => !(l.1 == p) }, s') := by
  rw [runLookup, h]

theorem runLookup_of_number {v : Value} {x : Float} {s' : σ}
    (h : source.answer (m.highestRequest p) s = (.ok v, s')) (hx : v.toFloat = .ok x) :
    m.runLookup source p s =
      ({ m with
        lookups := m.lookups.map fun l => if l.1 == p then (p, .finished) else l
        highest := m.highest.filter (fun h => !(h.1 == p)) ++ [(p, x)] }, s') := by
  rw [runLookup, h]
  simp only [hx]

theorem runLookup_of_no_number {v : Value} {e : Fault} {s' : σ}
    (h : source.answer (m.highestRequest p) s = (.ok v, s')) (he : v.toFloat = .error e) :
    m.runLookup source p s =
      ({ m with
          lookups := m.lookups.map fun l => if l.1 == p then (p, .finished) else l }, s') := by
  rw [runLookup, h]
  simp only [he]

/-- The three ways in which a lookup lands. -/
inductive Landing (p : Period) (m m' : Market) : Outcome Value → Prop
  | failed {e : Fault} (huntried : m'.IsUntried p) (hhighest : m'.highest = m.highest) :
      Landing p m m' (.error e)
  | found {v : Value} {x : Float} (hx : v.toFloat = .ok x) (hhighest : m'.highest? p = some x) :
      Landing p m m' (.ok v)
  | spoiled {v : Value} {e : Fault} (he : v.toFloat = .error e)
      (hfinished : p ∈ m.pending → (p, .finished) ∈ m'.lookups)
      (hhighest : m'.highest = m.highest) : Landing p m m' (.ok v)

theorem landing_runLookup (hp : ∃ unit, p.unit = .text unit) :
    Landing p m (m.runLookup source p s).1 (source.answer (m.highestRequest p) s).1 := by
  have hself : (p == p) = true := (Period.beq_iff hp).mpr rfl
  rcases hanswer : source.answer (m.highestRequest p) s with ⟨e | v, s'⟩
  · rw [runLookup_of_fault source m s hanswer]
    refine .failed (fun l hl hlp => ?_) rfl
    have hnot := (List.mem_filter.mp hl).2
    rw [hlp, hself] at hnot
    cases hnot
  · cases hv : v.toFloat with
    | ok x =>
      rw [runLookup_of_number source m s hanswer hv]
      refine .found hv ?_
      have hnone : (m.highest.filter fun h => !(h.1 == p)).find? (fun h => h.1 == p) = none := by
        simp
      simp [highest?, List.find?_append, hnone, hself]
    | error e =>
      rw [runLookup_of_no_number source m s hanswer hv]
      refine .spoiled hv (fun hpending => ?_) rfl
      exact List.mem_map.mpr ⟨_, mem_pending.mp hpending, by simp [hself]⟩

/-- A lookup changes neither the settings nor the source, and it disposes of nothing. -/
theorem runLookup_kept (q : Period) : (m.runLookup source q s).1.settings = m.settings ∧
    (m.runLookup source q s).1.connected = m.connected ∧
    (m.runLookup source q s).1.disposed = m.disposed := by
  rcases hanswer : source.answer (m.highestRequest q) s with ⟨e | v, s'⟩
  · rw [runLookup_of_fault source m s hanswer]
    exact ⟨rfl, rfl, rfl⟩
  · cases hv : v.toFloat with
    | ok x => rw [runLookup_of_number source m s hanswer hv]; exact ⟨rfl, rfl, rfl⟩
    | error e => rw [runLookup_of_no_number source m s hanswer hv]; exact ⟨rfl, rfl, rfl⟩

/-- What a lookup of one period leaves of the lookups of another one. -/
theorem mem_lookups_runLookup (hp : ∃ unit, p.unit = .text unit) (hpq : p ≠ q)
    {status : LookupStatus} :
    (p, status) ∈ (m.runLookup source q s).1.lookups ↔ (p, status) ∈ m.lookups := by
  have hother : (p == q) = false := by simpa using mt (Period.beq_iff_left hp).mp hpq
  rcases hanswer : source.answer (m.highestRequest q) s with ⟨e | v, s'⟩
  · rw [runLookup_of_fault source m s hanswer]
    simp [List.mem_filter, hother]
  · have hmap : (p, status) ∈ (m.lookups.map fun l => if l.1 == q then (q, .finished) else l) ↔
        (p, status) ∈ m.lookups := by
      rw [List.mem_map]
      constructor
      · rintro ⟨l, hl, heq⟩
        split at heq
        · exact absurd (congrArg Prod.fst heq).symm hpq
        · exact heq ▸ hl
      · exact fun h => ⟨_, h, by simp [hother]⟩
    cases hv : v.toFloat with
    | ok x => rw [runLookup_of_number source m s hanswer hv]; exact hmap
    | error e => rw [runLookup_of_no_number source m s hanswer hv]; exact hmap

theorem highest?_runLookup (hp : ∃ unit, p.unit = .text unit) (hpq : p ≠ q) :
    (m.runLookup source q s).1.highest? p = m.highest? p := by
  have hother : ∀ {r : Period}, (r == p) = true → (r == q) = false := by
    intro r hr
    obtain rfl := (Period.beq_iff hp).mp hr
    simpa using mt (Period.beq_iff_left hp).mp hpq
  have hnew : (q == p) = false := by simpa using mt (Period.beq_iff hp).mp hpq.symm
  rcases hanswer : source.answer (m.highestRequest q) s with ⟨e | v, s'⟩
  · rw [runLookup_of_fault source m s hanswer]
    rfl
  · cases hv : v.toFloat with
    | ok x =>
      rw [runLookup_of_number source m s hanswer hv]
      have hfind : (m.highest.filter fun h => !(h.1 == q)).find? (fun h => h.1 == p) =
          m.highest.find? (fun h => h.1 == p) := by
        rw [List.find?_filter]
        congr 1
        funext h
        cases hh : h.1 == p with
        | true => simp [hother hh]
        | false => simp
      simp [highest?, List.find?_append, hfind, hnew]
    | error e =>
      rw [runLookup_of_no_number source m s hanswer hv]
      rfl

/-- A price that was found stays, up to a newer one. -/
theorem isSome_highest?_runLookup (hp : ∃ unit, p.unit = .text unit) (q : Period)
    (h : (m.highest? p).isSome = true) :
    ((m.runLookup source q s).1.highest? p).isSome = true := by
  by_cases hpq : p = q
  · subst hpq
    have hlanding := landing_runLookup source m s hp
    generalize (source.answer (m.highestRequest p) s).1 = answer at hlanding
    cases hlanding with
    | failed huntried hhighest => rwa [highest?, hhighest]
    | found hx hhighest => rw [hhighest]; rfl
    | spoiled he hfinished hhighest => rwa [highest?, hhighest]
  · rwa [highest?_runLookup source m s hp hpq]

end

/-! ### Starting lookups -/

/-- A lookup is started only for a period that has none, and with a source it is then pending. -/
theorem exists_started (m : Market) (unit length : Value) : ∃ started,
    (m.warmUp unit length).2 = { m with lookups := m.lookups ++ started } ∧
      ∀ l ∈ started, l.2 = (if m.connected then .pending else .finished) ∧
        ∀ k ∈ m.lookups, (k.1 == l.1) = false := by
  rw [warmUp]
  split
  · exact ⟨[], by simp, nofun⟩
  · rename_i q _
    split
    · exact ⟨[], by simp, nofun⟩
    · rename_i hnone
      refine ⟨[(q, if m.connected then .pending else .finished)], rfl, fun l hl => ?_⟩
      obtain rfl := List.mem_singleton.mp hl
      exact ⟨rfl, fun k hk => by simpa using List.find?_eq_none.mp hnone k hk⟩

/-- A lookup of a period is started if it has none. -/
theorem warmUp_cases (m : Market) (hp : ∃ unit, p.unit = .text unit) :
    (m.warmUp p.unit (.int p.length)).2 = m ∧ ¬m.IsUntried p ∨
      (m.warmUp p.unit (.int p.length)).2 =
        { m with lookups := m.lookups ++ [(p, if m.connected then .pending else .finished)] } ∧
      m.IsUntried p := by
  have hkey : p.unit.isKey = true := by
    obtain ⟨unit, hunit⟩ := hp
    rw [hunit]
    rfl
  have hperiod : periodOf p.unit (.int p.length) = .ok p := by
    simp [periodOf, Value.toInt, hkey]
  rw [warmUp, hperiod]
  dsimp only
  split
  · rename_i l hfind
    have hsame : (l.1 == p) = true := by simpa using List.find?_some hfind
    exact .inl ⟨rfl, fun h => h l (List.mem_of_find?_eq_some hfind) ((Period.beq_iff hp).mp hsame)⟩
  · rename_i hnone
    refine .inr ⟨rfl, fun l hl hlp => List.find?_eq_none.mp hnone l hl ?_⟩
    exact (Period.beq_iff hp).mpr hlp

/-- The market data after the lookups of some periods were started. -/
def warmedUp (periods : List Period) (m : Market) : Market :=
  periods.foldl (fun m p => (m.warmUp p.unit (.int p.length)).2) m

open Classical in
/-- With a source, one lookup is started for each period that has none, and all others stay. -/
theorem lookups_warmedUp {m : Market} (hconnected : m.connected = true) {periods : List Period}
    (hunits : ∀ p ∈ periods, ∃ unit, p.unit = .text unit) (hnodup : periods.Nodup) :
    (m.warmedUp periods).lookups =
      m.lookups ++ (periods.filter fun p => decide (m.IsUntried p)).map fun p => (p, .pending) := by
  induction periods generalizing m with
  | nil => simp [warmedUp]
  | cons p rest ih =>
    have hnew : p ∉ rest := (List.nodup_cons.mp hnodup).1
    have ih {m : Market} (hm : m.connected = true) :=
      ih hm (fun q hq => hunits q (List.mem_cons_of_mem p hq)) (List.nodup_cons.mp hnodup).2
    rw [warmedUp, List.foldl_cons, ← warmedUp]
    rcases warmUp_cases m (hunits p List.mem_cons_self) with ⟨hsame, htried⟩ | ⟨hstarted, huntried⟩
    · rw [hsame, ih hconnected, List.filter_cons_of_neg (by simpa using htried)]
    · generalize (m.warmUp p.unit (.int p.length)).2 = m' at hstarted ⊢
      have hlookups : m'.lookups = m.lookups ++ [(p, .pending)] := by
        rw [hstarted, hconnected, if_pos rfl]
      -- Starting the first lookup leaves the other periods as untried as they were.
      have hrest : (rest.filter fun q => decide (m'.IsUntried q)) =
          rest.filter fun q => decide (m.IsUntried q) := by
        apply List.filter_congr
        intro q hq
        have hpq : p ≠ q := by
          rintro rfl
          exact hnew hq
        simp [IsUntried, hlookups, or_imp, forall_and, hpq]
      rw [ih (by rw [hstarted]; exact hconnected), hlookups, hrest,
        List.filter_cons_of_pos (by simpa using huntried), List.map_cons, List.append_assoc,
        List.singleton_append]

/-! ### Lookups that are sound -/

/-- All that lookups depend on is as it was. -/
structure Unaffected (m m' : Market) : Prop where
  settings : m'.settings = m.settings
  connected : m'.connected = m.connected
  disposed : m'.disposed = m.disposed
  lookups : m'.lookups = m.lookups
  highest : m'.highest = m.highest

theorem unaffected_ingest (m : Market) (batch : Value) : m.Unaffected (m.ingest batch).2 :=
  ⟨rfl, rfl, rfl, rfl, rfl⟩

theorem unaffected_setLive (m : Market) (price : Value) : m.Unaffected (m.setLive price).2 := by
  cases price with
  | null => exact ⟨rfl, rfl, rfl, rfl, rfl⟩
  | _ =>
    rw [setLive]
    · split <;> exact ⟨rfl, rfl, rfl, rfl, rfl⟩
    · exact nofun

theorem unaffected_start (m : Market) : m.Unaffected m.start.2 := by
  rw [start]
  split
  · exact ⟨rfl, rfl, rfl, rfl, rfl⟩
  · split
    · exact ⟨rfl, rfl, rfl, rfl, rfl⟩
    · split <;> exact ⟨rfl, rfl, rfl, rfl, rfl⟩

theorem unaffected_finishFetch {σ : Type} (source : Source σ) (m : Market) (s : σ) :
    m.Unaffected (m.finishFetch source s).1 := by
  rw [finishFetch]
  split
  · rw [fetchFirst, refresh]
    rcases source.answer (m.candleRequest m.settings.historySize) s with ⟨e | batch, s'⟩ <;>
      exact ⟨rfl, rfl, rfl, rfl, rfl⟩
  · exact ⟨rfl, rfl, rfl, rfl, rfl⟩

/-- Data of a market with a source, on which a finished lookup of a period has left its price, up to
the end. -/
structure Sound (settings : Settings) (p : Period) (m : Market) : Prop where
  settings : m.settings = settings
  connected : m.connected = true
  kept : m.disposed = true ∨ ¬m.IsSpoiled p

variable {settings : Settings} {m m' : Market}

theorem sound_new (settings : Settings) (p : Period) : Sound settings p (.new settings true) where
  settings := rfl
  connected := rfl
  kept := .inr fun h => by cases h.1

/-- What has nothing to do with highest prices keeps lookups sound. -/
theorem Sound.of_unaffected (h : Sound settings p m) (hm : m.Unaffected m') :
    Sound settings p m' where
  settings := hm.settings.trans h.settings
  connected := hm.connected.trans h.connected
  kept := by
    rw [hm.disposed, IsSpoiled, highest?, hm.lookups, hm.highest]
    exact h.kept

theorem Sound.dispose (h : Sound settings p m) : Sound settings p m.dispose := by
  rw [Market.dispose]
  split
  · exact h
  · exact ⟨h.settings, h.connected, .inl rfl⟩

theorem Sound.warmUp (h : Sound settings p m) (unit length : Value) :
    Sound settings p (m.warmUp unit length).2 := by
  obtain ⟨started, hstarted, hnew⟩ := exists_started m unit length
  rw [hstarted]
  refine ⟨h.settings, h.connected, h.kept.imp_right fun hsound => ?_⟩
  rintro ⟨hfinished, hnone⟩
  rcases List.mem_append.mp hfinished with hold | hadded
  · exact hsound ⟨hold, hnone⟩
  · have hstatus := (hnew _ hadded).1
    rw [h.connected] at hstatus
    cases hstatus

/-- A lookup keeps lookups sound if its answer is a number or a failure. -/
theorem Sound.runLookup {σ : Type} {source : Source σ} {s : σ} (h : Sound settings p m)
    (hp : ∃ unit, p.unit = .text unit) (q : Period)
    (hanswer : q = p → ∀ v, (source.answer (m.highestRequest p) s).1 = .ok v →
      ∃ x, v.toFloat = .ok x) :
    Sound settings p (m.runLookup source q s).1 := by
  obtain ⟨hsettings, hconnected, hdisposed⟩ := runLookup_kept source m s q
  refine ⟨hsettings.trans h.settings, hconnected.trans h.connected, ?_⟩
  rw [hdisposed]
  refine h.kept.imp_right fun hsound => ?_
  by_cases hpq : p = q
  · subst hpq
    rintro ⟨hfinished, hnone⟩
    have hlanding := landing_runLookup source m s hp
    generalize hanswered : (source.answer (m.highestRequest p) s).1 = answer at hlanding
    cases hlanding with
    | failed huntried hhighest => exact huntried _ hfinished rfl
    | found hx hhighest => rw [hhighest] at hnone; cases hnone
    | spoiled he hpending hhighest =>
      obtain ⟨x, hx⟩ := hanswer rfl _ hanswered
      rw [hx] at he
      cases he
  · rwa [IsSpoiled, mem_lookups_runLookup source m s hp hpq, highest?_runLookup source m s hp hpq]

end Market

end TradingRules
