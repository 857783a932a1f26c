import Mathlib.Data.List.Chain
import Mathlib.Data.Rat.Floor
import TradingRules.Proofs.Number.Doubles
import TradingRules.Worker.Schedule

/-!
# The pace of a schedule

What the least interval comes to depends on the interval. A clock without rounding never starts two
ticks less than a finite interval apart, however long the ticks take. After an infinite interval no
tick starts at a finite time. NaN passes for an interval too, since it is not less than the least
one; nothing is then ever due, and every tick starts when the one before it ends.
-/

namespace TradingRules.Worker

open Number (exactValue? exactValue?_add_top exactValue?_top_sub isFinite_add isFinite_of_top
  isNaN_add isNaN_sub lt_iff lt_top_of_isFinite not_lt_of_isNaN not_lt_of_top)

/-- A clock without rounding. -/
def exactSeconds : Clock ℚ where
  zero := 0
  add := (· + ·)
  sub := (· - ·)
  less x y := decide (x < y)
  scale n x := n * x
  fits x y := if y = 0 then none else some ⌊x / y⌋

/-! ### Raised intervals -/

theorem exactValue?_leastInterval : exactValue? leastInterval = some 1 := by
  have hbinary : Number.Binary.ofFloat? leastInterval = some ⟨false, 2 ^ 52, -52⟩ := by
    with_unfolding_all rfl
  have hvalue : Number.Binary.value ⟨false, 2 ^ 52, -52⟩ = 1 := by
    norm_num [Number.Binary.value, Number.Binary.magnitude]
  rw [exactValue?, hbinary]
  dsimp only
  rw [hvalue]
  rfl

theorem raisedInterval_of_isNaN {x : Float} (h : x.isNaN = true) : raisedInterval x = x :=
  if_neg (not_lt_of_isNaN (.inl h))

/-- Raising leaves only NaN below the least interval. -/
theorem exists_le_raisedInterval {x : Float} (h : x.isNaN = false) :
    ∃ v, exactValue? (raisedInterval x) = some v ∧ 1 ≤ v := by
  obtain ⟨v, hv⟩ : ∃ v, exactValue? x = some v := by
    rw [← Option.ne_none_iff_exists', ne_eq, Number.exactValue?_eq_none_iff, h]
    exact Bool.false_ne_true
  unfold raisedInterval
  split
  · exact ⟨1, exactValue?_leastInterval, le_rfl⟩
  · rename_i hleast
    refine ⟨v, hv, le_of_not_gt fun hlt => hleast ?_⟩
    exact (lt_iff _ _).mpr ⟨v, 1, hv, exactValue?_leastInterval, hlt⟩

theorem not_raisedInterval_lt (x : Float) : ¬raisedInterval x < leastInterval := by
  unfold raisedInterval
  split
  · exact Number.lt_irrefl leastInterval
  · assumption

theorem raisedInterval_raisedInterval (x : Float) :
    raisedInterval (raisedInterval x) = raisedInterval x :=
  if_neg (not_raisedInterval_lt x)

theorem lt_leastInterval_of_beq_zero {x : Float} (h : (x == 0.0) = true) : x < leastInterval := by
  have hzero : (0.0 : Float).toModel.unpack = .zero .positive := by with_unfolding_all rfl
  have hone : leastInterval.toModel.unpack =
      .finite .positive (2 ^ 52) (-52) (by decide) := by with_unfolding_all rfl
  have hcompare : (x.toModel.unpack.compare (0.0 : Float).toModel.unpack == some .eq) = true := h
  rw [hzero, beq_iff_eq] at hcompare
  rw [Number.lt_iff_compare, hone]
  generalize x.toModel.unpack = u at *
  cases u with
  | zero s => rfl
  | notANumber => cases hcompare
  | infinity s | finite s m e hm => cases s <;> cases hcompare

theorem raisedInterval_bne_zero (x : Float) : (raisedInterval x != 0.0) = true := by
  rw [bne, Bool.not_eq_true', ← Bool.not_eq_true]
  exact fun h => not_raisedInterval_lt x (lt_leastInterval_of_beq_zero h)

namespace Schedule

/-! ### Runs -/

/-- What holds at the start and is kept by every tick holds at the end. -/
theorem run_induction {α : Type} {C : Clock α} {interval : α} {P : Schedule α → Prop}
    (hstep : ∀ s d, s.stuck = false → P s → P (tick C interval s d)) (durations : List α)
    {s : Schedule α} (hs : P s) : P (run C interval s durations) := by
  induction durations generalizing s with
  | nil => exact hs
  | cons d ds ih =>
    cases hstuck : s.stuck with
    | false =>
      rw [run_cons C hstuck]
      exact ih (hstep s d hstuck hs)
    | true =>
      have hskip : run C interval s (d :: ds) = run C interval s ds := by simp [run, hstuck]
      rw [hskip]
      exact ih hs

theorem starts_tick {α : Type} (C : Clock α) (interval : α) (s : Schedule α) (d : α) :
    (tick C interval s d).starts = s.starts ++ [s.now] := by
  unfold tick
  dsimp only
  split <;> rfl

/-- The start that is due after some starts have been skipped. -/
def dueAfter {α : Type} (C : Clock α) (interval due : α) (count : Int) : α :=
  if count = 0 then due else C.add due (C.scale count interval)

theorem tick_of_missed {α : Type} {C : Clock α} {interval : α} {s : Schedule α} {d : α} {n : Int}
    (h : missed? C interval (C.add s.due interval) (C.add s.now d) = some n) :
    tick C interval s d =
      let done := C.add s.now d
      let due := dueAfter C interval (C.add s.due interval) n
      { now := C.add done (pause C done due)
        due
        skipped := s.skipped + n
        starts := s.starts ++ [s.now] } := by
  rw [tick, h]
  rfl

/-! ### A finite interval on an exact clock -/

/-- All ticks so far and the next one are at least an interval apart, and the next one is on
time. -/
structure Paced (interval : ℚ) (s : Schedule ℚ) : Prop where
  onTime : s.now = s.due
  going : s.stuck = false
  apart : (s.starts ++ [s.now]).IsChain fun a b => a + interval ≤ b

variable {interval : ℚ}

/-- The starts that are skipped take the one that is due beyond the end of the tick, and no more
than an interval beyond it. -/
theorem exists_missed? (hinterval : 0 < interval) (due done : ℚ) :
    ∃ n : ℤ, missed? exactSeconds interval due done = some n ∧ 0 ≤ n ∧
      done ≤ due + n * interval ∧ (n = 0 ∨ due + n * interval ≤ done + interval) := by
  unfold missed?
  by_cases hover : due < done
  · have hless : exactSeconds.less due done = true := decide_eq_true hover
    have hfits : exactSeconds.fits (exactSeconds.sub done due) interval =
        some ⌊(done - due) / interval⌋ := if_neg hinterval.ne'
    rw [if_pos hless, hfits]
    have hratio : 0 ≤ (done - due) / interval := div_nonneg (by linarith) hinterval.le
    refine ⟨⌊(done - due) / interval⌋ + 1, rfl, ?_, ?_, .inr ?_⟩
    · have := Int.floor_nonneg.mpr hratio
      omega
    · -- One more interval than fits into the overrun reaches beyond the end of the tick.
      have hlt := (div_lt_iff₀ hinterval).mp (Int.lt_floor_add_one ((done - due) / interval))
      push_cast
      linarith
    · have hle := (le_div_iff₀ hinterval).mp (Int.floor_le ((done - due) / interval))
      push_cast
      linarith
  · have hless : exactSeconds.less due done = false := decide_eq_false hover
    rw [hless]
    exact ⟨0, rfl, le_rfl, by push_cast; linarith, .inl rfl⟩

theorem add_pause {done due : ℚ} (h : done ≤ due) :
    done + pause exactSeconds done due = due := by
  have hpause : pause exactSeconds done due = if 0 < due - done then due - done else 0 := by
    simp [pause, exactSeconds]
  rw [hpause]
  split <;> linarith

theorem dueAfter_exactSeconds (due : ℚ) (n : ℤ) :
    dueAfter exactSeconds interval due n = due + n * interval := by
  unfold dueAfter
  split
  · simp [*]
  · rfl

/-- A tick on an exact clock: the next one starts when it is due, once some starts are skipped. -/
theorem Paced.exists_tick (hinterval : 0 < interval) {s : Schedule ℚ} (hs : Paced interval s)
    (d : ℚ) : ∃ (n : ℤ) (due : ℚ), due = s.now + interval + n * interval ∧
      tick exactSeconds interval s d =
        { now := due, due, skipped := s.skipped + n, starts := s.starts ++ [s.now] } ∧
      0 ≤ n ∧ s.now + d ≤ due ∧ (n = 0 ∨ due ≤ s.now + d + interval) := by
  obtain ⟨n, hmissed, hn, hdone, hnext⟩ := exists_missed? hinterval (s.due + interval) (s.now + d)
  have htick := tick_of_missed hmissed
  rw [← hs.onTime] at htick hdone hnext
  refine ⟨n, _, rfl, htick.trans ?_, hn, hdone, hnext⟩
  dsimp only
  rw [dueAfter_exactSeconds]
  exact congrArg (fun now => ({
    now
    due := s.now + interval + n * interval
    skipped := s.skipped + n
    starts := s.starts ++ [s.now] } : Schedule ℚ)) (add_pause hdone)

theorem Paced.tick (hinterval : 0 < interval) {s : Schedule ℚ} (hs : Paced interval s) (d : ℚ) :
    Paced interval (tick exactSeconds interval s d) := by
  obtain ⟨n, due, hdue, htick, hn, -⟩ := hs.exists_tick hinterval d
  have hgap : s.now + interval ≤ due := by
    have hskipped : 0 ≤ (n : ℚ) * interval := mul_nonneg (mod_cast hn) hinterval.le
    rw [hdue]
    linarith
  rw [htick]
  refine ⟨rfl, rfl, ?_⟩
  rw [List.append_assoc, List.singleton_append, List.isChain_append_cons_cons]
  exact ⟨hs.apart, hgap, List.isChain_singleton due⟩

theorem paced_start (interval now : ℚ) : Paced interval (start now) :=
  ⟨rfl, rfl, List.isChain_singleton now⟩

theorem paced_run (hinterval : 0 < interval) {s : Schedule ℚ} (hs : Paced interval s)
    (durations : List ℚ) : Paced interval (run exactSeconds interval s durations) :=
  run_induction (fun _ d _ hs => hs.tick hinterval d) durations hs

theorem Paced.length_starts_run (hinterval : 0 < interval) {s : Schedule ℚ}
    (hs : Paced interval s) (durations : List ℚ) :
    (run exactSeconds interval s durations).starts.length =
      s.starts.length + durations.length := by
  induction durations generalizing s with
  | nil => rfl
  | cons d ds ih =>
    rw [run_cons exactSeconds hs.going, ih (hs.tick hinterval d), starts_tick, List.length_append,
      List.length_singleton, List.length_cons]
    omega

/-! ### NaN for an interval -/

theorem tick_of_isNaN {interval : Float} (h : interval.isNaN = true) (s : Schedule Float)
    (d : Float) :
    tick seconds interval s d =
      { now := s.now + d + 0.0
        due := s.due + interval
        skipped := s.skipped + 0
        starts := s.starts ++ [s.now] } := by
  -- What is due is NaN from now on, so that nothing is overrun and nothing is waited for.
  have hdue : (s.due + interval).isNaN = true := isNaN_add (.inr h)
  have hmissed : missed? seconds interval (s.due + interval) (s.now + d) = some 0 :=
    if_neg (by simpa [seconds] using not_lt_of_isNaN (.inl hdue))
  have hpause : pause seconds (s.now + d) (s.due + interval) = 0.0 :=
    if_neg (by simpa [seconds] using not_lt_of_isNaN (.inr (isNaN_sub (.inl hdue))))
  rw [tick_of_missed hmissed]
  exact congrArg (fun pause => ({
    now := s.now + d + pause
    due := s.due + interval
    skipped := s.skipped + 0
    starts := s.starts ++ [s.now] } : Schedule Float)) hpause

/-- With NaN for an interval every tick starts when the one before it ends. -/
theorem run_of_isNaN {interval : Float} (h : interval.isNaN = true) (durations : List Float)
    {s : Schedule Float} (going : s.stuck = false) :
    (run seconds interval s durations).starts ++ [(run seconds interval s durations).now] =
      s.starts ++ durations.scanl (fun t d => t + d + 0.0) s.now := by
  induction durations generalizing s with
  | nil => rfl
  | cons d ds ih =>
    rw [run_cons seconds going, tick_of_isNaN h]
    refine (ih rfl).trans ?_
    rw [List.scanl_cons, List.append_assoc, List.singleton_append]

/-! ### An infinite interval -/

theorem isFinite_tick {s : Schedule Float} (h : s.now.isFinite = false) (interval d : Float) :
    (tick seconds interval s d).now.isFinite = false := by
  have hdone : (s.now + d).isFinite = false := isFinite_add h d
  cases hmissed : missed? seconds interval (seconds.add s.due interval) (seconds.add s.now d) with
  | none =>
    have htick : (tick seconds interval s d).now = s.now + d := by
      rw [tick, hmissed]
      rfl
    rw [htick]
    exact hdone
  | some n =>
    rw [tick_of_missed hmissed]
    exact isFinite_add hdone _

/-- The wait after a tick is infinite, if the tick itself is not. -/
theorem isFinite_tick_of_top {interval : Float} (h : exactValue? interval = some ⊤)
    {s : Schedule Float} (hs : s.due.isFinite = true) (d : Float) :
    (tick seconds interval s d).now.isFinite = false := by
  have hdue : exactValue? (s.due + interval) = some ⊤ := exactValue?_add_top hs h
  have hmissed : missed? seconds interval (s.due + interval) (s.now + d) = some 0 :=
    if_neg (by simpa [seconds] using not_lt_of_top hdue (s.now + d))
  rw [tick_of_missed hmissed]
  show (s.now + d + pause seconds (s.now + d) (s.due + interval)).isFinite = false
  cases hdone : (s.now + d).isFinite with
  | false => exact isFinite_add hdone _
  | true =>
    have hrest : exactValue? (s.due + interval - (s.now + d)) = some ⊤ :=
      exactValue?_top_sub hdue hdone
    have hzero : (0.0 : Float).isFinite = true := by with_unfolding_all rfl
    have hpause : pause seconds (s.now + d) (s.due + interval) = s.due + interval - (s.now + d) :=
      if_pos (by simpa [seconds] using lt_top_of_isFinite hzero hrest)
    rw [hpause]
    exact isFinite_of_top (exactValue?_add_top hdone hrest)

/-- All ticks but the first start at no finite time, and so does the next one. -/
structure Dormant (s : Schedule Float) : Prop where
  begun : s.starts ≠ []
  next : s.now.isFinite = false
  starts : ∀ t ∈ s.starts.tail, t.isFinite = false

theorem Dormant.tick {s : Schedule Float} (hs : Dormant s) (interval d : Float) :
    Dormant (tick seconds interval s d) where
  begun := by simp [starts_tick]
  next := isFinite_tick hs.next interval d
  starts := by
    rw [starts_tick, List.tail_append_of_ne_nil hs.begun]
    intro t ht
    rcases List.mem_append.mp ht with ht | ht
    · exact hs.starts t ht
    · exact List.mem_singleton.mp ht ▸ hs.next

theorem dormant_run {interval : Float} (h : exactValue? interval = some ⊤) (now d : Float)
    (durations : List Float) :
    Dormant (run seconds interval (start now) (d :: durations)) := by
  rw [run_cons seconds rfl]
  refine run_induction (fun s d _ hs => hs.tick interval d) durations ⟨?_, ?_, ?_⟩
  · simp [starts_tick]
  · cases hnow : now.isFinite with
    | false => exact isFinite_tick (s := start now) hnow interval d
    | true => exact isFinite_tick_of_top h (s := start now) hnow d
  · simp [starts_tick, start]

theorem isFinite_of_mem_tail_starts {interval : Float} (h : exactValue? interval = some ⊤)
    (now : Float) (durations : List Float) :
    ∀ t ∈ (run seconds interval (start now) durations).starts.tail, t.isFinite = false := by
  cases durations with
  | nil => exact fun t ht => nomatch ht
  | cons d ds => exact (dormant_run h now d ds).starts

end Schedule

/-! ### The pace of an interval -/

/-- All ticks at this interval start, at least a second apart; if it is infinite, there is only one
tick. -/
def KeepsPace (interval : Float) : Prop :=
  ∃ v, exactValue? interval = some v ∧ 1 ≤ v ∧
    (∀ q : ℚ, v = ((q : WithTop ℚ) : WithBot (WithTop ℚ)) → ∀ now durations,
      let starts := (Schedule.run exactSeconds q (.start now) durations).starts
      starts.length = durations.length ∧ starts.IsChain fun a b => a + 1 ≤ b) ∧
    (v = ⊤ → ∀ now durations,
      ∀ t ∈ (Schedule.run seconds interval (.start now) durations).starts.tail, t.isFinite = false)

/-- Every tick starts when the one before it ends, after a pause of zero. -/
def NeverPauses (interval : Float) : Prop :=
  ∀ now durations, let s := Schedule.run seconds interval (.start now) durations
    s.starts ++ [s.now] = durations.scanl (fun t d => t + d + 0.0) now

theorem keepsPace_raisedInterval {x : Float} (h : x.isNaN = false) :
    KeepsPace (raisedInterval x) := by
  obtain ⟨v, hv, hleast⟩ := exists_le_raisedInterval h
  refine ⟨v, hv, hleast, ?_, ?_⟩
  · rintro q rfl now durations
    have hq : 1 ≤ q := WithTop.coe_le_coe.mp (WithBot.coe_le_coe.mp hleast)
    have hpositive : 0 < q := by linarith
    have hstart := Schedule.paced_start q now
    have happart := (List.isChain_append.mp (Schedule.paced_run hpositive hstart durations).apart).1
    refine ⟨?_, happart.imp fun a b hab => by linarith⟩
    rw [hstart.length_starts_run hpositive, Schedule.start, List.length_nil, Nat.zero_add]
  · rintro rfl
    exact Schedule.isFinite_of_mem_tail_starts hv

theorem neverPauses_raisedInterval {x : Float} (h : x.isNaN = true) :
    NeverPauses (raisedInterval x) := fun now durations => by
  rw [raisedInterval_of_isNaN h]
  exact Schedule.run_of_isNaN h durations (s := .start now) rfl

end TradingRules.Worker
