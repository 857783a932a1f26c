import TradingRules.Proofs.Worker.Pacing

/-!
# The grid of a schedule

On a clock without rounding, all ticks start on a grid: a whole number of intervals after the first
one. A tick that ends in time is followed by a tick at the next grid point. One that overruns is
followed by a tick at the first grid point at which it has ended, or at the one after it, and every
grid point that is passed over is counted as skipped. So nothing drifts, however long ticks take.
-/

namespace TradingRules.Worker.Schedule

variable {interval first : ℚ}

/-- The next tick starts at a grid point, which is found by counting the ticks that were made and
those that were skipped. -/
structure OnGrid (interval first : ℚ) (s : Schedule ℚ) : Prop extends Paced interval s where
  counted : 0 ≤ s.skipped
  place : s.now = first + (s.starts.length + s.skipped) * interval

theorem onGrid_start (interval first : ℚ) : OnGrid interval first (start first) where
  toPaced := paced_start interval first
  counted := le_rfl
  place := by simp [start]

theorem OnGrid.tick (hinterval : 0 < interval) {s : Schedule ℚ} (hs : OnGrid interval first s)
    (d : ℚ) : OnGrid interval first (tick exactSeconds interval s d) := by
  have hpaced := hs.toPaced.tick hinterval d
  obtain ⟨n, due, hdue, htick, hn, -⟩ := hs.exists_tick hinterval d
  have hcounted := hs.counted
  rw [htick] at hpaced ⊢
  refine ⟨hpaced, ?_, ?_⟩
  · show 0 ≤ s.skipped + n
    omega
  · show due = first + ((s.starts ++ [s.now]).length + ((s.skipped + n : ℤ) : ℚ)) * interval
    rw [hdue, hs.place, List.length_append, List.length_singleton]
    push_cast
    ring

theorem onGrid_run (hinterval : 0 < interval) (first : ℚ) (durations : List ℚ) :
    OnGrid interval first (run exactSeconds interval (start first) durations) :=
  run_induction (fun _ d _ hs => hs.tick hinterval d) durations (onGrid_start interval first)

/-- No point of the grid lies between two of them that are one interval apart. -/
theorem not_between (hinterval : 0 < interval) (first : ℚ) (i m : ℤ) :
    ¬(first + i * interval < first + m * interval ∧
      first + m * interval < first + i * interval + interval) := by
  rintro ⟨hafter, hbefore⟩
  have hlow : (i : ℚ) < m := lt_of_mul_lt_mul_right (by linarith) hinterval.le
  have hhigh : (m : ℚ) < i + 1 := lt_of_mul_lt_mul_right (by linarith) hinterval.le
  have hlow : i < m := mod_cast hlow
  have hhigh : m < i + 1 := mod_cast hhigh
  omega

/-- Ticks do not overlap: the next one starts when the last one has ended, at least an interval
after that one started. -/
theorem OnGrid.le_tick (hinterval : 0 < interval) {s : Schedule ℚ} (hs : OnGrid interval first s)
    (d : ℚ) : s.now + d ≤ (Schedule.tick exactSeconds interval s d).now ∧
      s.now + interval ≤ (Schedule.tick exactSeconds interval s d).now := by
  obtain ⟨n, due, hdue, htick, hn, hdone, -⟩ := hs.exists_tick hinterval d
  have hskipped : 0 ≤ (n : ℚ) * interval := mul_nonneg (mod_cast hn) hinterval.le
  rw [htick]
  refine ⟨hdone, ?_⟩
  rw [hdue]
  linarith

/-- No grid point lies between the end of a tick and the start of the next one. -/
theorem OnGrid.not_passed_over (hinterval : 0 < interval) {s : Schedule ℚ}
    (hs : OnGrid interval first s) {d : ℚ} (hd : 0 ≤ d) (m : ℤ) :
    ¬(s.now + d < first + m * interval ∧
      first + m * interval < (Schedule.tick exactSeconds interval s d).now) := by
  obtain ⟨n, due, hdue, htick, -, -, hnext⟩ := hs.exists_tick hinterval d
  -- The grid point before the next start is no later than the end of the tick.
  have hprevious : due ≤ s.now + d + interval := by
    rcases hnext with rfl | hnext
    · rw [hdue, Int.cast_zero, zero_mul, add_zero]
      linarith
    · exact hnext
  have hpoint : due =
      first + ((s.starts.length + s.skipped + n : ℤ) : ℚ) * interval + interval := by
    rw [hdue, hs.place]
    push_cast
    ring
  rw [htick]
  rintro ⟨hafter, hbefore⟩
  apply not_between hinterval first (s.starts.length + s.skipped + n) m
  exact ⟨by linarith, hpoint ▸ hbefore⟩

/-- The schedule when a tick is about to start, after ticks that took these times. -/
def before (interval first : ℚ) (durations : ℕ → ℚ) (k : ℕ) : Schedule ℚ :=
  run exactSeconds interval (start first) ((List.range k).map durations)

variable {durations : ℕ → ℚ}

theorem onGrid_before (hinterval : 0 < interval) (first : ℚ) (durations : ℕ → ℚ) (k : ℕ) :
    OnGrid interval first (before interval first durations k) :=
  onGrid_run hinterval first _

theorem before_succ (hinterval : 0 < interval) (first : ℚ) (durations : ℕ → ℚ) (k : ℕ) :
    before interval first durations (k + 1) =
      tick exactSeconds interval (before interval first durations k) (durations k) := by
  have hgoing := (onGrid_before hinterval first durations k).going
  simp only [before, run] at hgoing ⊢
  rw [List.range_succ, List.map_append, List.foldl_append, List.map_singleton, List.foldl_cons,
    List.foldl_nil, hgoing]
  rfl

theorem starts_before (hinterval : 0 < interval) (first : ℚ) (durations : ℕ → ℚ) (k : ℕ) :
    (before interval first durations k).starts =
      (List.range k).map fun j => (before interval first durations j).now := by
  induction k with
  | zero => rfl
  | succ k ih =>
    rw [before_succ hinterval, starts_tick, ih, List.range_succ, List.map_append,
      List.map_singleton]

theorem place_before (hinterval : 0 < interval) (first : ℚ) (durations : ℕ → ℚ) (k : ℕ) :
    (before interval first durations k).now =
      first + (k + (before interval first durations k).skipped) * interval := by
  have hgrid := onGrid_before hinterval first durations k
  have hlength : (before interval first durations k).starts.length = k := by
    rw [starts_before hinterval, List.length_map, List.length_range]
  rw [hgrid.place, hlength]

/-- Drop and skip. Ticks start on the grid of their interval and never overlap. No grid point is
left out between the end of a tick and the start of the next one, and the grid points before a tick
are the starts of the ticks that were made and those that were skipped. A tick counts with the time
that it takes, whether its run fails or not. -/
theorem ticks_drop_and_skip (hinterval : 1 ≤ interval) (first : ℚ)
    (hdurations : ∀ k, 0 ≤ durations k) :
    let skipped := fun k => (before interval first durations k).skipped
    let s := fun k => (before interval first durations k).now
    let e := fun k => s k + durations k
    (∀ k, (before interval first durations k).starts = (List.range k).map s) ∧ s 0 = first ∧
      ∀ k, (∃ m : ℕ, s k - first = m * interval) ∧ e k ≤ s (k + 1) ∧ s k + interval ≤ s (k + 1) ∧
        (∀ m : ℤ, ¬(e k < first + m * interval ∧ first + m * interval < s (k + 1))) ∧
        k + skipped k = (s k - first) / interval := by
  intro skipped s e
  have hpositive : 0 < interval := by linarith
  have hplace (k : ℕ) : s k = first + (k + skipped k) * interval :=
    place_before hpositive first durations k
  refine ⟨starts_before hpositive first durations, rfl, fun k => ?_⟩
  have hgrid := onGrid_before hpositive first durations k
  have hnext : s (k + 1) = (tick exactSeconds interval (before interval first durations k)
      (durations k)).now := by
    rw [← before_succ hpositive]
  obtain ⟨hended, hgap⟩ := hgrid.le_tick hpositive (durations k)
  rw [hnext]
  refine ⟨⟨k + (skipped k).toNat, ?_⟩, hended, hgap,
    hgrid.not_passed_over hpositive (hdurations k), ?_⟩
  · have hskipped : (((skipped k).toNat : ℤ) : ℚ) = skipped k :=
      congrArg _ (Int.toNat_of_nonneg hgrid.counted)
    rw [Int.cast_natCast] at hskipped
    rw [hplace k, Nat.cast_add, hskipped]
    ring
  · rw [hplace k, add_sub_cancel_left, mul_div_assoc, div_self hpositive.ne', mul_one]

/-- The second of three ticks takes more than two intervals: it passes over two grid points, and the
third tick starts at the next one. -/
theorem overrun_skips_two :
    let durations : ℕ → ℚ := fun k => if k = 1 then 5 else 0
    (1 : ℚ) ≤ 2 ∧ (∀ k, 0 ≤ durations k) ∧
      (before 2 1 durations 3).starts = [1, 3, 9] ∧ (before 2 1 durations 2).skipped = 2 ∧
      ∀ m : ℤ, ¬((8 : ℚ) < 1 + m * 2 ∧ (1 : ℚ) + m * 2 < 9) := by
  intro durations
  have hinterval : (1 : ℚ) ≤ 2 := by norm_num
  have hdurations : ∀ k, 0 ≤ durations k := by
    intro k
    show (0 : ℚ) ≤ if k = 1 then 5 else 0
    split <;> norm_num
  obtain ⟨hstarts, -, hticks⟩ := ticks_drop_and_skip hinterval 1 hdurations
  have hfirst : (before 2 1 durations 1).now = 3 := by decide +kernel
  have hsecond : (before 2 1 durations 2).now = 9 := by decide +kernel
  obtain ⟨-, -, -, hbetween, -⟩ := hticks 1
  obtain ⟨-, -, -, -, hcount⟩ := hticks 2
  dsimp only at hbetween hcount
  rw [hfirst] at hbetween
  rw [hsecond] at hbetween hcount
  refine ⟨hinterval, hdurations, ?_, ?_, ?_⟩
  · rw [hstarts 3]
    show [(before 2 1 durations 0).now, (before 2 1 durations 1).now,
      (before 2 1 durations 2).now] = [1, 3, 9]
    rw [hfirst, hsecond]
    rfl
  · have hskipped : ((before 2 1 durations 2).skipped : ℚ) = 2 := by
      push_cast at hcount
      linarith
    exact_mod_cast hskipped
  · intro m hm
    apply hbetween m
    refine ⟨?_, hm.2⟩
    show (3 : ℚ) + 5 < _
    linarith [hm.1]

end TradingRules.Worker.Schedule
