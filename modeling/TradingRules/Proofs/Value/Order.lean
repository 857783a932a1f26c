import TradingRules.Proofs.Number.Doubles
import TradingRules.Value.Sorted

/-!
# Numbers in order

Every number but NaN stands for a point of one line: the exact rational numbers with an infinity at
either end. Whole numbers, doubles and truth values are compared by these points, so that comparing
values is comparing points, and sorting by numbers is sorting by a linear order.
-/

namespace TradingRules

namespace Number

open Float.Model (UnpackedFloat)

/-- A power with a sign in its exponent, as the quotient of two powers without. -/
theorem zpow_eq_div {b : ℚ} (hb : b ≠ 0) (e : Int) : b ^ e = b ^ e.toNat / b ^ (-e).toNat := by
  rw [← zpow_natCast, ← zpow_natCast, ← zpow_sub₀ hb]
  congr 1
  omega

theorem Binary.magnitude_eq_div (b : Binary) : b.magnitude = (b.numerator : ℚ) / b.denominator := by
  rw [Binary.magnitude, zpow_eq_div two_ne_zero, Binary.numerator, Binary.denominator]
  push_cast [Nat.pow_eq]
  ring

theorem Binary.value_eq_div (b : Binary) : b.value =
    ((if b.negative then -(b.numerator : Int) else b.numerator : Int) : ℚ) / b.denominator := by
  cases hnegative : b.negative with
  | true =>
    rw [Binary.value_of_negative hnegative, b.magnitude_eq_div]
    simp [neg_div]
  | false =>
    rw [Binary.value_of_positive hnegative, b.magnitude_eq_div]
    simp

theorem beq_iff_compare (x y : Float) :
    (x == y) = true ↔ x.toModel.unpack.compare y.toModel.unpack = some .eq := by
  have h : (x == y) = (x.toModel.unpack.compare y.toModel.unpack == some .eq) := rfl
  rw [h, beq_iff_eq]

/-- Two doubles are equal exactly if they have the same exact value. -/
theorem beq_iff (x y : Float) :
    (x == y) = true ↔ ∃ a, exactValue? x = some a ∧ exactValue? y = some a := by
  rw [beq_iff_compare]
  have hx := denotes_exactValue? x
  have hy := denotes_exactValue? y
  generalize x.toModel.unpack = u at *
  generalize y.toModel.unpack = v at *
  generalize exactValue? x = a at *
  generalize exactValue? y = b at *
  have hfinite : ∀ q : ℚ, ((q : WithTop ℚ) : WithBot (WithTop ℚ)) ≠ ⊤ := fun q =>
    (WithBot.coe_lt_coe.mpr (WithTop.coe_lt_top q)).ne
  cases hy with
  | nothing h => simp [h, compare_notANumber]
  | bottom h =>
    subst h
    cases hx with
    | nothing h => simp [h, UnpackedFloat.compare]
    | bottom h => simp [h, UnpackedFloat.compare, compare]
    | top h => simp [h, UnpackedFloat.compare, compare]
    | finite h ha => simp [compare_infinities h]
  | top h =>
    subst h
    cases hx with
    | nothing h => simp [h, UnpackedFloat.compare]
    | bottom h => simp [h, UnpackedFloat.compare, compare]
    | top h => simp [h, UnpackedFloat.compare, compare]
    | finite h ha => simp [compare_infinities h, (hfinite _).symm]
  | @finite b h hb =>
    cases hx with
    | nothing h => simp [h, UnpackedFloat.compare]
    | bottom h' => simp [h', compare_infinities h]
    | top h' => simp [h', compare_infinities h, hfinite]
    | finite h' ha =>
      rw [compare_of_ofUnpacked? h' h ha hb]
      simp [eq_comm (a := Binary.value b)]

theorem beq_self_of_isFinite {x : Float} (h : x.isFinite = true) : (x == x) = true := by
  have hnumber : x.isNaN ≠ true := by
    intro hnan
    rw [isNaN_iff_unpack] at hnan
    rw [isFinite_eq_unpack, hnan] at h
    cases h
  cases hx : exactValue? x with
  | none => exact absurd ((exactValue?_eq_none_iff x).mp hx) hnumber
  | some a => exact (beq_iff x x).mpr ⟨a, hx, hx⟩

/-- Doubles are compared by their exact values. -/
theorem compareFloats_eq {x y : Float} {a b : WithBot (WithTop ℚ)} (hx : exactValue? x = some a)
    (hy : exactValue? y = some b) : compareFloats x y = some (compare a b) := by
  have hless : x < y ↔ a < b := by simp [lt_iff, hx, hy]
  have hmore : y < x ↔ b < a := by simp [lt_iff, hx, hy]
  have hgt : (x > y) = (y < x) := rfl
  rcases lt_trichotomy a b with h | rfl | h
  · rw [compareFloats, if_pos (hless.mpr h), compare_lt_iff_lt.mpr h]
  · rw [compareFloats, if_neg (fun h => (hless.mp h).ne rfl), if_neg (fun h => (hmore.mp h).ne rfl),
      if_pos ((beq_iff x y).mpr ⟨a, hx, hy⟩), compare_eq_iff_eq.mpr rfl]
  · rw [compareFloats, if_neg (mt hless.mp h.not_gt), if_pos (hmore.mpr h),
      compare_gt_iff_gt.mpr h]

theorem compare_of_strictMono {α β : Type} [LinearOrder α] [LinearOrder β] {f : α → β}
    (hf : StrictMono f) (x y : α) : compare (f x) (f y) = compare x y := by
  rcases lt_trichotomy x y with h | rfl | h
  · rw [compare_lt_iff_lt.mpr h, compare_lt_iff_lt.mpr (hf h)]
  · rw [compare_eq_iff_eq.mpr rfl, compare_eq_iff_eq.mpr rfl]
  · rw [compare_gt_iff_gt.mpr h, compare_gt_iff_gt.mpr (hf h)]

/-- The point of the line of numbers at which a rational number stands. -/
def point (q : ℚ) : WithBot (WithTop ℚ) :=
  ((q : WithTop ℚ) : WithBot (WithTop ℚ))

theorem point_strictMono : StrictMono point := fun _ _ h =>
  WithBot.coe_lt_coe.mpr (WithTop.coe_lt_coe.mpr h)

theorem point_lt_top (q : ℚ) : point q < ⊤ :=
  WithBot.coe_lt_coe.mpr (WithTop.coe_lt_top q)

theorem bot_lt_point (q : ℚ) : ⊥ < point q :=
  WithBot.bot_lt_coe _

theorem exactValue?_zero : exactValue? 0 = some (point 0) := by
  have hzero : Binary.ofFloat? 0 = some ⟨false, 0, -1074⟩ := by decide +kernel
  simp [exactValue?, hzero, Binary.value, Binary.magnitude, point]

theorem zero_lt_iff {y : Float} {b : WithBot (WithTop ℚ)} (hy : exactValue? y = some b) :
    y > 0 ↔ point 0 < b := by
  have hless := lt_iff 0 y
  simp only [exactValue?_zero, hy, Option.some.injEq, exists_and_left, exists_eq_left'] at hless
  exact hless

/-- A whole number is compared with a double by exact values. -/
theorem compareIntFloat_eq (n : Int) {y : Float} {b : WithBot (WithTop ℚ)}
    (hy : exactValue? y = some b) : compareIntFloat n y = some (compare (point n) b) := by
  have hzero := zero_lt_iff hy
  rw [exactValue?] at hy
  cases hbinary : Binary.ofFloat? y with
  | none =>
    rw [hbinary] at hy
    dsimp only at hy
    split at hy
    · cases hy
    · rename_i hnan
      rw [compareIntFloat, hbinary]
      dsimp only
      rw [if_neg hnan]
      by_cases hnegative : y < 0.0
      · rw [if_pos hnegative] at hy
        obtain rfl := Option.some.inj hy
        rw [if_neg (by simpa using hzero), compare_gt_iff_gt.mpr (bot_lt_point n)]
      · rw [if_neg hnegative] at hy
        obtain rfl := Option.some.inj hy
        rw [if_pos (hzero.mpr (point_lt_top 0)), compare_lt_iff_lt.mpr (point_lt_top n)]
  | some c =>
    rw [hbinary] at hy
    obtain rfl := Option.some.inj hy
    have hpos : (0 : ℚ) < c.denominator := mod_cast c.denominator_pos
    have hscale : StrictMono fun q : ℚ => q * c.denominator := fun _ _ h =>
      mul_lt_mul_of_pos_right h hpos
    have hcast : StrictMono fun k : Int => (k : ℚ) := Int.cast_strictMono
    have hvalue := c.value_eq_div
    rw [compareIntFloat, hbinary]
    dsimp only
    generalize (if c.negative then -(c.numerator : Int) else c.numerator : Int) = k at hvalue ⊢
    have hscaled : c.value * c.denominator = k := by
      rw [hvalue, div_mul_cancel₀ _ hpos.ne']
    rw [← compare_of_strictMono hcast, Int.cast_mul, Int.cast_natCast, ← hscaled]
    exact congrArg some ((compare_of_strictMono hscale n c.value).trans
      (compare_of_strictMono point_strictMono n c.value).symm)

end Number

namespace Value

/-- The point of the line of numbers that a number stands for; NaN stands for none. -/
def Numeric.point? : Numeric → Option (WithBot (WithTop ℚ))
  | .whole n => some (Number.point n)
  | .double x => Number.exactValue? x

def point? (v : Value) : Option (WithBot (WithTop ℚ)) :=
  v.numeric?.bind Numeric.point?

theorem Numeric.compare_eq {x y : Numeric} {a b : WithBot (WithTop ℚ)} (hx : x.point? = some a)
    (hy : y.point? = some b) : x.compare y = some (Ord.compare a b) := by
  cases x with
  | whole m =>
    obtain rfl := Option.some.inj hx
    cases y with
    | whole n =>
      obtain rfl := Option.some.inj hy
      have hcast : StrictMono fun k : Int => (k : ℚ) := Int.cast_strictMono
      exact congrArg some
        (Number.compare_of_strictMono (Number.point_strictMono.comp hcast) m n).symm
    | double y => exact Number.compareIntFloat_eq m hy
  | double x =>
    cases y with
    | whole n =>
      obtain rfl := Option.some.inj hy
      rw [Numeric.compare, Number.compareIntFloat_eq n hx]
      exact congrArg some Std.OrientedOrd.eq_swap.symm
    | double y => exact Number.compareFloats_eq hx hy

variable {v w : Value} {a b : WithBot (WithTop ℚ)}

theorem isOrdered_iff : v.isOrdered = true ↔ ∃ a, v.point? = some a := by
  rw [isOrdered, point?]
  cases v.numeric? with
  | none => simp
  | some x =>
    cases x with
    | whole n => simp [Numeric.point?]
    | double x =>
      have hnan := Number.exactValue?_eq_none_iff x
      cases hx : Number.exactValue? x <;> simp_all [Numeric.point?]

theorem compareBy_of_point? (c : Comparison) (hv : v.point? = some a) (hw : w.point? = some b) :
    compareBy c v w = .ok (c.holds (compare a b)) := by
  obtain ⟨x, hx, hxa⟩ := Option.bind_eq_some_iff.mp hv
  obtain ⟨y, hy, hyb⟩ := Option.bind_eq_some_iff.mp hw
  have hcompare := Numeric.compare_eq hxa hyb
  cases v with
  | null | text | list | object => cases hx
  | bool | int | real | undefined => simp only [compareBy, hx, hy, hcompare]

theorem less_of_point? (hv : v.point? = some a) (hw : w.point? = some b) :
    compareBy .less v w = .ok (decide (a < b)) := by
  have hless : Ord.compare a b = .lt ↔ a < b := compare_lt_iff_lt
  rw [compareBy_of_point? .less hv hw, Comparison.holds]
  exact congrArg Except.ok (Bool.eq_iff_iff.mpr (by simpa using hless))

theorem atMost_of_point? (hv : v.point? = some a) (hw : w.point? = some b) :
    atMost v w = decide (a ≤ b) := by
  rw [atMost, less_of_point? hw hv]
  simp [← not_lt]

/-- Numbers are equal exactly if they compare as equal. -/
theorem beq_of_numeric? {x y : Numeric} (hv : v.numeric? = some x) (hw : w.numeric? = some y) :
    (v == w) = (x.compare y == some .eq) := by
  have hequal : (v == w) = equalLeaves v w := by
    show equal v w = _
    cases v with
    | null | text | list | object => cases hv
    | bool | int | real | undefined => simp only [equal]
  have hleaves : equalLeaves v w = (x.compare y == some .eq) := by
    cases v with
    | null | text | list | object => cases hv
    | bool | int | real | undefined => simp only [equalLeaves, hv, hw]
  rw [hequal, hleaves]

theorem beq_iff_of_point? (hv : v.point? = some a) (hw : w.point? = some b) :
    (v == w) = true ↔ a = b := by
  obtain ⟨x, hx, hxa⟩ := Option.bind_eq_some_iff.mp hv
  obtain ⟨y, hy, hyb⟩ := Option.bind_eq_some_iff.mp hw
  rw [beq_of_numeric? hx hy, Numeric.compare_eq hxa hyb]
  simp

theorem point?_of_numeric_eq {n : Int} {y : Numeric}
    (h : (Numeric.whole n).compare y = some .eq) : y.point? = some (Number.point n) := by
  have hy : ∃ b, y.point? = some b := by
    cases y with
    | whole m => exact ⟨_, rfl⟩
    | double y =>
      refine Option.ne_none_iff_exists'.mp fun hnone => ?_
      change Number.exactValue? y = none at hnone
      rw [Number.exactValue?] at hnone
      cases hbinary : Number.Binary.ofFloat? y with
      | some b => simp [hbinary] at hnone
      | none => simp_all [Numeric.compare, Number.compareIntFloat]
  obtain ⟨b, hb⟩ := hy
  rw [Numeric.compare_eq (x := .whole n) rfl hb] at h
  rw [hb, compare_eq_iff_eq.mp (Option.some.inj h)]

/-- What equals a whole number stands at its point. -/
theorem point?_of_int_beq {n : Int} (h : (Value.int n == v) = true) :
    v.point? = some (Number.point n) := by
  have hleaves : equalLeaves (.int n) v = true := h
  cases v with
  | null | text | list | object => simp [equalLeaves, numeric?] at hleaves
  | bool | int | real | undefined =>
    simp only [equalLeaves, numeric?, beq_iff_eq] at hleaves
    exact point?_of_numeric_eq hleaves

theorem isKey_of_int_beq {n : Int} (h : (Value.int n == v) = true) : v.isKey = true := by
  have hpoint := point?_of_int_beq h
  cases v with
  | list | object => cases hpoint
  | null | bool | int | real | undefined | text => rfl

/-- A value equals one whole number at most. -/
theorem int_inj_of_beq {m n : Int} (hm : (Value.int m == v) = true)
    (hn : (Value.int n == v) = true) : m = n := by
  have hpoint : Number.point m = Number.point n :=
    Option.some.inj ((point?_of_int_beq hm).symm.trans (point?_of_int_beq hn))
  exact_mod_cast Number.point_strictMono.injective hpoint

end Value

end TradingRules
