import Mathlib
import TradingRules.Indicator

/-!
# The relative strength index in exact arithmetic

Over exact rational numbers the index is a share: of the smoothed gains in all that was gained and
lost, on a scale of 100. It is a half when nothing moved at all. So no price series makes the
formula divide by zero, prices turned upside down turn the index around, their unit does not matter,
and a higher newest price never lowers the index.
-/

namespace TradingRules.Indicator

/-- Exact numbers, where nothing is divided by zero. -/
def exact : Arithmetic Option ℚ where
  zero := 0
  level := 0
  ofNat n := n
  add x y := some (x + y)
  sub x y := some (x - y)
  mul x y := some (x * y)
  div x y := if y = 0 then none else some (x / y)
  less x y := some (decide (x < y))
  equal x y := some (decide (x = y))
  magnitude x := some |x|

/-- The index in exact arithmetic: it fails if something is divided by zero, and is missing if
there are not enough prices. -/
def exactStrength (period : Int) (prices : List ℚ) : Option (Option ℚ) :=
  relativeStrength? exact 1 50 100 period prices

/-! ### Changes of prices -/

def differences : List ℚ → List ℚ
  | x :: y :: rest => (y - x) :: differences (y :: rest)
  | _ => []

theorem changes_exact (prices : List ℚ) : changes exact prices = some (differences prices) := by
  fun_induction differences prices with
  | case1 x y rest ih =>
    rw [changes, ih]
    rfl
  | case2 prices hshort =>
    rw [changes]
    · rfl
    · exact hshort

theorem differences_concat (prices : List ℚ) (x y : ℚ) :
    differences (prices ++ [x, y]) = differences (prices ++ [x]) ++ [y - x] := by
  induction prices with
  | nil => rfl
  | cons z prices ih =>
    cases prices with
    | nil => rfl
    | cons w prices =>
      simp only [List.cons_append, differences] at ih ⊢
      rw [ih]

/-- What an affine map does to prices, its slope does to their changes. -/
theorem differences_map_affine (slope shift : ℚ) (prices : List ℚ) :
    differences (prices.map fun x => shift + slope * x) =
      (differences prices).map fun d => slope * d := by
  fun_induction differences prices with
  | case1 x y rest ih =>
    have hchange : shift + slope * y - (shift + slope * x) = slope * (y - x) := by ring
    rw [List.map_cons] at ih
    rw [List.map_cons, List.map_cons, List.map_cons, differences, ih, hchange]
  | case2 prices hshort =>
    match prices, hshort with
    | [], _ => rfl
    | [x], _ => rfl
    | x :: y :: rest, hshort => exact (hshort x y rest rfl).elim

/-! ### Gains and losses -/

def rise (d : ℚ) : ℚ :=
  max d 0

def fall (d : ℚ) : ℚ :=
  max (-d) 0

theorem gain_exact (d : ℚ) : gain exact d = some (rise d) := by
  have hrise : (if d < 0 then 0 else d) = rise d := by
    rw [rise, max_comm, max_def_lt]
    split <;> split <;> first | rfl | linarith
  rw [← hrise]
  show some (if decide (d < 0) = true then (0 : ℚ) else d) = _
  simp only [decide_eq_true_eq]

theorem loss_exact (d : ℚ) : loss exact d = some (fall d) := by
  have hfall : |if 0 < d then 0 else d| = fall d := by
    by_cases h : 0 < d
    · rw [if_pos h, abs_zero, fall, max_eq_right (by linarith)]
    · rw [if_neg h, abs_of_nonpos (by linarith), fall, max_eq_left (by linarith)]
  rw [← hfall]
  show some |if decide (0 < d) = true then (0 : ℚ) else d| = _
  simp only [decide_eq_true_eq]

theorem rise_nonneg (d : ℚ) : 0 ≤ rise d :=
  le_max_right d 0

theorem fall_nonneg (d : ℚ) : 0 ≤ fall d :=
  le_max_right (-d) 0

theorem rise_mono {d e : ℚ} (h : d ≤ e) : rise d ≤ rise e :=
  max_le_max_right 0 h

theorem fall_anti {d e : ℚ} (h : d ≤ e) : fall e ≤ fall d :=
  max_le_max_right 0 (neg_le_neg h)

/-! ### Averages -/

/-- One step of Wilder's smoothing. -/
def smoothed (n : ℕ) (avg next : ℚ) : ℚ :=
  (avg * (n - 1 : ℕ) + next) / n

/-- The average that is left of a series: of its first items, then smoothed with each other one. -/
def wilder (n : ℕ) (xs : List ℚ) : ℚ :=
  (xs.drop n).foldl (smoothed n) ((xs.take n).sum / n)

theorem average_exact {n : ℕ} (h : n ≠ 0) (xs : List ℚ) :
    average exact xs n = some (xs.sum / n) := by
  have htotal : ∀ a : ℚ, xs.foldlM exact.add a = some (a + xs.sum) := by
    induction xs with
    | nil => exact fun a => by simp
    | cons x xs ih =>
      intro a
      rw [List.foldlM_cons, List.sum_cons, ← add_assoc]
      exact ih (a + x)
  have hdiv : exact.div xs.sum (exact.ofNat n) = some (xs.sum / n) :=
    if_neg (Nat.cast_ne_zero.mpr h)
  rw [average, total, htotal]
  show exact.div (0 + xs.sum) (exact.ofNat n) = _
  rw [zero_add, hdiv]

theorem smooth_exact {n : ℕ} (h : n ≠ 0) (avg next : ℚ) :
    smooth exact n avg next = some (smoothed n avg next) :=
  if_neg (Nat.cast_ne_zero.mpr h)

theorem smoothBoth_exact {n : ℕ} (h : n ≠ 0) (pairs : List (ℚ × ℚ)) (avgGain avgLoss : ℚ) :
    smoothBoth exact n pairs (avgGain, avgLoss) =
      some ((pairs.map (·.1)).foldl (smoothed n) avgGain,
        (pairs.map (·.2)).foldl (smoothed n) avgLoss) := by
  induction pairs generalizing avgGain avgLoss with
  | nil => rfl
  | cons pair rest ih =>
    obtain ⟨g, l⟩ := pair
    rw [smoothBoth, smooth_exact h, smooth_exact h]
    exact ih _ _

theorem smoothed_mono (n : ℕ) {avg avg' next next' : ℚ} (havg : avg ≤ avg')
    (hnext : next ≤ next') : smoothed n avg next ≤ smoothed n avg' next' := by
  unfold smoothed
  gcongr

/-- An average is monotone in each item of the series. -/
theorem wilder_mono (n : ℕ) {xs ys : List ℚ} (h : List.Forall₂ (· ≤ ·) xs ys) :
    wilder n xs ≤ wilder n ys := by
  have hfold : ∀ {us vs : List ℚ} {a b : ℚ}, List.Forall₂ (· ≤ ·) us vs → a ≤ b →
      us.foldl (smoothed n) a ≤ vs.foldl (smoothed n) b := by
    intro us vs a b huv
    induction huv generalizing a b with
    | nil => exact fun hab => hab
    | cons hhead _ ih => exact fun hab => ih (smoothed_mono n hab hhead)
  apply hfold (List.forall₂_drop n h)
  have hseed := (List.forall₂_take n h).sum_le_sum
  gcongr

theorem wilder_map_mul (n : ℕ) (k : ℚ) (xs : List ℚ) :
    wilder n (xs.map fun x => k * x) = k * wilder n xs := by
  have hstep : ∀ a x : ℚ, smoothed n (k * a) (k * x) = k * smoothed n a x := by
    intro a x
    unfold smoothed
    ring
  have hfold : ∀ (us : List ℚ) (a : ℚ),
      (us.map fun x => k * x).foldl (smoothed n) (k * a) = k * us.foldl (smoothed n) a := by
    intro us
    induction us with
    | nil => exact fun a => rfl
    | cons x us ih =>
      intro a
      rw [List.map_cons, List.foldl_cons, List.foldl_cons, hstep, ih]
  rw [wilder, wilder, ← List.map_take, ← List.map_drop, List.sum_map_mul_left, List.map_id',
    mul_div_assoc, hfold]

theorem wilder_nonneg (n : ℕ) {xs : List ℚ} (h : ∀ x ∈ xs, 0 ≤ x) : 0 ≤ wilder n xs := by
  -- The average of the series times zero is zero, and the series is above that.
  have hzero : wilder n (xs.map fun x => 0 * x) = 0 := by
    rw [wilder_map_mul, zero_mul]
  rw [← hzero]
  apply wilder_mono
  rw [List.forall₂_map_left_iff, List.forall₂_same]
  intro x hx
  rw [zero_mul]
  exact h x hx

/-! ### The index of two averages -/

/-- The share of the gains in all gains and losses, on a scale of 100. -/
def share (g l : ℚ) : ℚ :=
  if g + l = 0 then 50 else 100 * g / (g + l)

theorem strength_exact {g l : ℚ} (hg : 0 ≤ g) (hl : 0 ≤ l) :
    strength exact 1 50 100 g l = some (share g l) := by
  have hunfold : strength exact 1 50 100 g l =
      if l = 0 then some (if 0 < g then 100 else 50)
      else exact.div g l >>= fun ratio => exact.div 100 (1 + ratio) >>= fun part =>
        some (100 - part) := by
    show (if decide (l = ((0 : ℕ) : ℚ)) = true then
      some (if decide (((0 : ℕ) : ℚ) < g) = true then (100 : ℚ) else 50) else _) = _
    simp only [decide_eq_true_eq, Nat.cast_zero]
    rfl
  rw [hunfold]
  by_cases hzero : l = 0
  · rw [if_pos hzero, share, hzero, add_zero]
    by_cases hpos : 0 < g
    · rw [if_pos hpos, if_neg hpos.ne', mul_div_assoc, div_self hpos.ne', mul_one]
    · rw [if_neg hpos, if_pos (le_antisymm (not_lt.mp hpos) hg)]
  · have hlpos : 0 < l := lt_of_le_of_ne hl (Ne.symm hzero)
    have hsum : g + l ≠ 0 := by positivity
    have hden : 1 + g / l ≠ 0 := by positivity
    have hratio : exact.div g l = some (g / l) := if_neg hzero
    have hpart : exact.div 100 (1 + g / l) = some (100 / (1 + g / l)) := if_neg hden
    have hvalue : 100 - 100 / (1 + g / l) = 100 * g / (g + l) := by
      field_simp
      ring
    rw [if_neg hzero, hratio, Option.bind_eq_bind, Option.bind_some, hpart, Option.bind_some, share,
      if_neg hsum, hvalue]

variable {g l g' l' : ℚ}

theorem share_mem (hg : 0 ≤ g) (hl : 0 ≤ l) : 0 ≤ share g l ∧ share g l ≤ 100 := by
  unfold share
  split
  · norm_num
  · rename_i hsum
    have hpos : 0 < g + l := lt_of_le_of_ne (add_nonneg hg hl) (Ne.symm hsum)
    constructor
    · positivity
    · rw [div_le_iff₀ hpos]
      linarith

theorem share_swap (g l : ℚ) : share l g = 100 - share g l := by
  unfold share
  rw [add_comm l g]
  split
  · norm_num
  · rename_i hsum
    field_simp
    ring

theorem share_mul {k : ℚ} (hk : 0 < k) (g l : ℚ) : share (k * g) (k * l) = share g l := by
  have hzero : k * g + k * l = 0 ↔ g + l = 0 := by
    rw [← mul_add, mul_eq_zero_iff_left hk.ne']
  have hquotient : 100 * (k * g) / (k * g + k * l) = 100 * g / (g + l) := by
    rw [← mul_add, mul_left_comm, mul_div_mul_left _ _ hk.ne']
  rw [share, share, hquotient]
  exact if_congr hzero rfl rfl

/-- More gains and fewer losses never make the share smaller. -/
theorem share_mono (hg : 0 ≤ g) (hl' : 0 ≤ l') (hgain : g ≤ g') (hloss : l' ≤ l) :
    share g l ≤ share g' l' := by
  have hl : 0 ≤ l := hl'.trans hloss
  have hg' : 0 ≤ g' := hg.trans hgain
  by_cases hgzero : g = 0
  · by_cases hlzero : l = 0
    · -- Nothing moved before, and nothing was lost since.
      have hl'zero : l' = 0 := le_antisymm (hloss.trans_eq hlzero) hl'
      have hstill : share g l = 50 := by rw [hgzero, hlzero, share, add_zero, if_pos rfl]
      rw [hstill, share, hl'zero, add_zero]
      split
      · exact le_rfl
      · rename_i hne
        rw [mul_div_assoc, div_self hne]
        norm_num
    · have hnone : share g l = 0 := by
        rw [hgzero, share, zero_add, if_neg hlzero, mul_zero, zero_div]
      rw [hnone]
      exact (share_mem hg' hl').1
  · have hgpos : 0 < g := lt_of_le_of_ne hg (Ne.symm hgzero)
    have hsum : 0 < g + l := by linarith
    have hsum' : 0 < g' + l' := by linarith
    rw [share, share, if_neg hsum.ne', if_neg hsum'.ne', div_le_div_iff₀ hsum hsum']
    have hcross : g * l' ≤ g' * l := mul_le_mul hgain hloss hl' hg'
    linarith

/-! ### The index of a series -/

/-- The index of prices: the share of the average rise. -/
def index (n : ℕ) (prices : List ℚ) : ℚ :=
  share (wilder n ((differences prices).map rise)) (wilder n ((differences prices).map fall))

theorem wilder_rise_nonneg (n : ℕ) (changes : List ℚ) : 0 ≤ wilder n (changes.map rise) := by
  apply wilder_nonneg
  intro x hx
  obtain ⟨d, -, rfl⟩ := List.mem_map.mp hx
  exact rise_nonneg d

theorem wilder_fall_nonneg (n : ℕ) (changes : List ℚ) : 0 ≤ wilder n (changes.map fall) := by
  apply wilder_nonneg
  intro x hx
  obtain ⟨d, -, rfl⟩ := List.mem_map.mp hx
  exact fall_nonneg d

theorem strengthOver_exact {n : ℕ} (h : n ≠ 0) (prices : List ℚ) :
    strengthOver exact 1 50 100 (pure n) prices = some (index n prices) := by
  have hgains : (differences prices).mapM (gain exact) = some ((differences prices).map rise) := by
    rw [funext gain_exact]
    exact List.mapM_pure
  have hlosses : (differences prices).mapM (loss exact) =
      some ((differences prices).map fall) := by
    rw [funext loss_exact]
    exact List.mapM_pure
  have hzip : ((differences prices).map rise).zip ((differences prices).map fall) =
      (differences prices).map fun d => (rise d, fall d) := by
    rw [List.zip_map', List.map_inj_left]
    intro d hd
    rfl
  have hpairs : ∀ f : ℚ × ℚ → ℚ,
      (((differences prices).map fun d => (rise d, fall d)).drop n).map f =
        ((differences prices).map fun d => f (rise d, fall d)).drop n := by
    intro f
    rw [List.map_drop, List.map_map]
    rfl
  have hseeds := fun f => average_exact h (((differences prices).map f).take n)
  simp only [strengthOver, changes_exact, hgains, hlosses, Option.pure_def, Option.bind_eq_bind,
    Option.bind_some, hseeds, smoothBoth_exact h, hzip, hpairs]
  exact strength_exact (wilder_rise_nonneg n _) (wilder_fall_nonneg n _)

theorem exactStrength_eq {period : Int} (hperiod : 1 ≤ period) {prices : List ℚ}
    (hlength : period + 1 ≤ prices.length) :
    exactStrength period prices = some (some (index period.toNat prices)) := by
  have hn : period.toNat ≠ 0 := by omega
  have hlong : ¬(period ≤ 0 ∨ (prices.length : Int) < period + 1) := by omega
  rw [exactStrength, relativeStrength?, if_neg hlong, strengthOver_exact hn]
  rfl

theorem index_mem (n : ℕ) (prices : List ℚ) : 0 ≤ index n prices ∧ index n prices ≤ 100 :=
  share_mem (wilder_rise_nonneg n _) (wilder_fall_nonneg n _)

/-- Prices turned upside down swap gains and losses. -/
theorem index_map_sub (n : ℕ) (c : ℚ) (prices : List ℚ) :
    index n (prices.map fun x => c - x) = 100 - index n prices := by
  have haffine : (prices.map fun x => c - x) = prices.map fun x => c + -1 * x := by
    rw [List.map_inj_left]
    intro x hx
    ring
  have hrise : (fun d => rise (-1 * d)) = fall := by
    funext d
    rw [rise, fall, neg_one_mul]
  have hfall : (fun d => fall (-1 * d)) = rise := by
    funext d
    rw [rise, fall, neg_one_mul, neg_neg]
  rw [index, haffine, differences_map_affine, List.map_map, List.map_map]
  show share (wilder n ((differences prices).map fun d => rise (-1 * d)))
    (wilder n ((differences prices).map fun d => fall (-1 * d))) = _
  rw [hrise, hfall]
  exact share_swap _ _

theorem index_map_mul (n : ℕ) {k : ℚ} (hk : 0 < k) (prices : List ℚ) :
    index n (prices.map fun x => k * x) = index n prices := by
  have haffine : (prices.map fun x => k * x) = prices.map fun x => 0 + k * x := by
    rw [List.map_inj_left]
    intro x hx
    ring
  have hrise : ∀ d, rise (k * d) = k * rise d := by
    intro d
    rw [rise, rise, mul_max_of_nonneg _ _ hk.le, mul_zero]
  have hfall : ∀ d, fall (k * d) = k * fall d := by
    intro d
    rw [fall, fall, mul_max_of_nonneg _ _ hk.le, mul_zero, mul_neg]
  have hscaled : ∀ f : ℚ → ℚ, (∀ d, f (k * d) = k * f d) →
      wilder n ((differences (prices.map fun x => k * x)).map f) =
        k * wilder n ((differences prices).map f) := by
    intro f hf
    have hcomp : (f ∘ fun d => k * d) = (fun x => k * x) ∘ f := funext hf
    rw [haffine, differences_map_affine, ← wilder_map_mul, List.map_map, List.map_map, hcomp]
  rw [index, hscaled rise hrise, hscaled fall hfall, share_mul hk, index]

/-- A higher newest price is one higher change, at the end. -/
theorem index_concat_mono (n : ℕ) (older : List ℚ) {newest higher : ℚ} (h : newest ≤ higher) :
    index n (older ++ [newest]) ≤ index n (older ++ [higher]) := by
  rcases older.eq_nil_or_concat with rfl | ⟨older, prior, rfl⟩
  · exact le_rfl
  · have hchanges : ∀ {R : ℚ → ℚ → Prop} {f : ℚ → ℚ}, (∀ x, R x x) →
        R (f (newest - prior)) (f (higher - prior)) →
        List.Forall₂ R ((differences (older ++ [prior] ++ [newest])).map f)
          ((differences (older ++ [prior] ++ [higher])).map f) := by
      intro R f hrefl hlast
      rw [List.append_assoc, List.append_assoc, List.singleton_append, List.singleton_append,
        differences_concat, differences_concat, List.map_append, List.map_append]
      exact List.rel_append (List.forall₂_same.mpr fun x _ => hrefl x) (.cons hlast .nil)
    have hchange : newest - prior ≤ higher - prior := sub_le_sub_right h prior
    rw [List.concat_eq_append]
    apply share_mono (wilder_rise_nonneg n _) (wilder_fall_nonneg n _)
    · apply wilder_mono
      exact hchanges le_refl (rise_mono hchange)
    · apply wilder_mono
      apply List.Forall₂.flip
      exact hchanges le_refl (fall_anti hchange)

/-- A series that stands still is its own reflection. -/
theorem index_of_flat (n : ℕ) {prices : List ℚ} {price : ℚ} (h : ∀ x ∈ prices, x = price) :
    index n prices = 50 := by
  have hreflected : (prices.map fun x => 2 * price - x) = prices := by
    rw [List.map_congr_left (g := id), List.map_id]
    intro x hx
    rw [h x hx, id_eq]
    ring
  have hindex := index_map_sub n (2 * price) prices
  rw [hreflected] at hindex
  linarith

/-- The index of more prices than the period has exists, without a division by zero, and is a number
from 0 to 100. It is 50 if the prices do not move; prices turned upside down give the rest to 100,
their unit does not matter, and a higher newest price never gives a lower index. -/
theorem strength_laws {period : Int} (hperiod : 1 ≤ period) {prices : List ℚ}
    (hlength : period + 1 ≤ prices.length) :
    ∃ r, exactStrength period prices = some (some r) ∧ 0 ≤ r ∧ r ≤ 100 ∧
      (∀ c, exactStrength period (prices.map fun x => c - x) = some (some (100 - r))) ∧
      (∀ price, (∀ x ∈ prices, x = price) → r = 50) ∧
      (∀ k, 0 < k → exactStrength period (prices.map fun x => k * x) = some (some r)) ∧
      ∀ older newest higher, prices = older ++ [newest] → newest ≤ higher →
        ∃ r', exactStrength period (older ++ [higher]) = some (some r') ∧ r ≤ r' := by
  obtain ⟨hleast, hgreatest⟩ := index_mem period.toNat prices
  refine ⟨index period.toNat prices, exactStrength_eq hperiod hlength, hleast, hgreatest, ?_,
    fun _ => index_of_flat _, ?_, ?_⟩
  · intro c
    rw [exactStrength_eq hperiod (by rwa [List.length_map]), index_map_sub]
  · intro k hk
    rw [exactStrength_eq hperiod (by rwa [List.length_map]), index_map_mul _ hk]
  · intro older newest higher hprices hhigher
    have hlength' : period + 1 ≤ (older ++ [higher]).length := by
      rw [hprices] at hlength
      simpa using hlength
    refine ⟨_, exactStrength_eq hperiod hlength', ?_⟩
    rw [hprices]
    exact index_concat_mono _ older hhigher

example : exactStrength 2 [1, 3, 2, 5] = some (some (800 / 9)) := by decide +kernel

/-- Two gains, a loss between them, over a period of two. -/
theorem zigzag_strength : (1 : Int) ≤ 2 ∧ (2 : Int) + 1 ≤ [1, 3, 2, (5 : ℚ)].length ∧
    ∃ r, exactStrength 2 [1, 3, 2, 5] = some (some r) ∧
      exactStrength 2 [9, 7, 8, 5] = some (some (100 - r)) ∧
      ∃ r', exactStrength 2 [1, 3, 2, 8] = some (some r') ∧ r ≤ r' := by
  have hlength : (2 : Int) + 1 ≤ [1, 3, 2, (5 : ℚ)].length := by decide
  obtain ⟨r, hr, -, -, hreflected, -, -, hraised⟩ := strength_laws (by decide) hlength
  refine ⟨by decide, hlength, r, hr, ?_, hraised [1, 3, 2] 5 8 rfl (by norm_num)⟩
  have hmap : [1, 3, 2, (5 : ℚ)].map (fun x => 10 - x) = [9, 7, 8, 5] := by norm_num
  rw [← hmap]
  exact hreflected 10

end TradingRules.Indicator
