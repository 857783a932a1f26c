import TradingRules.Proofs.Value.Order

/-!
# Nearest doubles

The double that is nearest to a quotient of whole numbers is found by rounding the quotient to 53
binary digits, or to fewer at the lower end. It is at most half a unit in the last place away.
-/

namespace TradingRules.Number

open Float.Model (Format UnpackedFloat)

/-! ### Whole quotients -/

theorem roundHalfEven_cases (num den : Nat) :
    (roundHalfEven num den = num / den ∧ 2 * (num % den) ≤ den) ∨
      (roundHalfEven num den = num / den + 1 ∧ den ≤ 2 * (num % den)) := by
  unfold roundHalfEven
  dsimp only
  split_ifs <;> omega

theorem quotient_eq (num : Nat) {den : Nat} (hden : 0 < den) :
    (num : ℚ) / den = (num / den : Nat) + ((num % den : Nat) : ℚ) / den := by
  have hpos : (0 : ℚ) < den := mod_cast hden
  have hdivision : (den : ℚ) * (num / den : Nat) + (num % den : Nat) = num :=
    mod_cast Nat.div_add_mod num den
  rw [← hdivision]
  field_simp

theorem rest_le_one (num : Nat) {den : Nat} (hden : 0 < den) :
    ((num % den : Nat) : ℚ) / den ≤ 1 := by
  rw [div_le_one (mod_cast hden)]
  exact mod_cast (Nat.mod_lt num hden).le

/-- The rounded quotient is at most a half away. -/
theorem abs_roundHalfEven_sub_le (num : Nat) {den : Nat} (hden : 0 < den) :
    |(roundHalfEven num den : ℚ) - num / den| ≤ 1 / 2 := by
  have hpos : (0 : ℚ) < den := mod_cast hden
  rw [quotient_eq num hden, abs_le]
  rcases roundHalfEven_cases num den with ⟨hround, hrest⟩ | ⟨hround, hrest⟩
  · have hhalf : ((num % den : Nat) : ℚ) / den ≤ 1 / 2 := by
      rw [div_le_div_iff₀ hpos two_pos]
      exact mod_cast (by omega : num % den * 2 ≤ 1 * den)
    have hleast : (0 : ℚ) ≤ (num % den : Nat) / den := by positivity
    rw [hround]
    constructor <;> linarith
  · have hhalf : 1 / 2 ≤ ((num % den : Nat) : ℚ) / den := by
      rw [div_le_div_iff₀ two_pos hpos]
      exact mod_cast (by omega : 1 * den ≤ num % den * 2)
    have hmost := rest_le_one num hden
    rw [hround]
    push_cast
    constructor <;> linarith

/-- A quotient in the middle between two whole numbers is rounded to the even one. -/
theorem even_roundHalfEven (num : Nat) {den : Nat} (hden : 0 < den)
    (h : |(roundHalfEven num den : ℚ) - num / den| = 1 / 2) : Even (roundHalfEven num den) := by
  have hpos : (0 : ℚ) < den := mod_cast hden
  have hhalf : ((num % den : Nat) : ℚ) / den = 1 / 2 := by
    have hleast : (0 : ℚ) ≤ ((num % den : Nat) : ℚ) / den := by positivity
    have hmost := rest_le_one num hden
    rw [quotient_eq num hden] at h
    rcases roundHalfEven_cases num den with ⟨hround, -⟩ | ⟨hround, -⟩
    · rw [hround, sub_add_cancel_left, abs_neg, abs_of_nonneg hleast] at h
      exact h
    · rw [hround, Nat.cast_succ, add_sub_add_left_eq_sub, abs_of_nonneg (by linarith)] at h
      linarith
  have hmiddle : num % den * 2 = den := by
    rw [div_eq_div_iff hpos.ne' two_ne_zero, one_mul] at hhalf
    exact mod_cast hhalf
  rw [Nat.even_iff]
  unfold roundHalfEven
  dsimp only
  split_ifs <;> omega

/-! ### The exponent of a quotient -/

theorem scaledLe_iff {den : Nat} (hden : 0 < den) (num : Nat) (e : Int) :
    scaledLe den num e = true ↔ (2 : ℚ) ^ e ≤ num / den := by
  have hpos : (0 : ℚ) < den := mod_cast hden
  rw [scaledLe, decide_eq_true_iff, zpow_eq_div two_ne_zero,
    div_le_div_iff₀ (by positivity) hpos, mul_comm ((2 : ℚ) ^ e.toNat)]
  norm_cast

/-- The exponent of a quotient is that of the greatest power of two that is not above it. -/
theorem binaryExponent_spec {num den : Nat} (hnum : 0 < num) (hden : 0 < den) :
    (2 : ℚ) ^ binaryExponent num den ≤ num / den ∧
      (num : ℚ) / den < 2 ^ (binaryExponent num den + 1) := by
  have hpos : (0 : ℚ) < den := mod_cast hden
  have htwo : (2 : ℚ) ≠ 0 := two_ne_zero
  have hlower : (2 : ℚ) ^ num.log2 ≤ num := mod_cast Nat.log2_self_le hnum.ne'
  have hupper : (num : ℚ) < 2 ^ (num.log2 + 1) := mod_cast Nat.lt_log2_self
  have hlower' : (2 : ℚ) ^ den.log2 ≤ den := mod_cast Nat.log2_self_le hden.ne'
  have hupper' : (den : ℚ) < 2 ^ (den.log2 + 1) := mod_cast Nat.lt_log2_self
  have hleast : (2 : ℚ) ^ ((num.log2 : Int) - den.log2 - 1) ≤ num / den := by
    rw [sub_sub, zpow_sub₀ htwo]
    apply div_le_div₀ (by positivity) _ hpos
    · exact_mod_cast hupper'.le
    · exact_mod_cast hlower
  have hmost : (num : ℚ) / den < 2 ^ ((num.log2 : Int) - den.log2 + 1) := by
    rw [sub_add_eq_add_sub, zpow_sub₀ htwo]
    apply div_lt_div₀ _ _ (by positivity) (by positivity)
    · exact_mod_cast hupper
    · exact_mod_cast hlower'
  -- The lengths of both numbers leave two powers, and the comparison tells which one it is.
  rw [binaryExponent]
  split_ifs with hscaled
  · exact ⟨(scaledLe_iff hden num _).mp hscaled, hmost⟩
  · rw [scaledLe_iff hden, not_le] at hscaled
    rw [sub_add_cancel]
    exact ⟨hleast, hscaled⟩

/-! ### Bits -/

/-- Bits that are no NaN are those of their double. -/
theorem toBits_ofBits {n : Nat} (hn : n < 2 ^ 64) (hfinite : n / 2 ^ 52 % 2 ^ 11 ≠ 2047) :
    (Float.ofBits (UInt64.ofNat n)).toBits.toNat = n := by
  have hbits : (UInt64.ofNat n).toBitVec.toNat = n := by
    show n % 2 ^ 64 = n
    exact Nat.mod_eq_of_lt hn
  have hvalid : Format.binary64.Valid (UInt64.ofNat n).toBitVec := by
    constructor
    intro hexponent
    exfalso
    apply hfinite
    have hunpack : (@UnpackedFloat.unpackExponent .binary64
        (UInt64.ofNat n).toBitVec).toNat = n / 2 ^ 52 % 2 ^ 11 := by
      simp [UnpackedFloat.unpackExponent, Nat.shiftRight_eq_div_pow, hbits]
    rw [← hunpack, hexponent]
    rfl
  have hpacked := UnpackedFloat.pack_unpack_of_valid hvalid
  show (UnpackedFloat.pack .binary64 (UnpackedFloat.unpack .binary64 _)).toNat = n
  rw [hpacked, hbits]

/-- What a double is decoded to, by its sign, its exponent and its fraction. -/
theorem ofFloat?_ofBits (negative : Bool) {biased fraction : Nat} (hbiased : biased < 2047)
    (hfraction : fraction < 2 ^ 52) :
    Binary.ofFloat? (Float.ofBits (UInt64.ofNat
        ((if negative then 2 ^ 63 else 0) + (biased * 2 ^ 52 + fraction)))) =
      some (if biased = 0 then ⟨negative, fraction, -1074⟩
        else ⟨negative, fraction + 2 ^ 52, biased - 1075⟩) := by
  have hsign : ∃ sign, sign < 2 ∧ (sign == 1) = negative ∧
      (if negative then 2 ^ 63 else 0) = sign * 2 ^ 63 := by
    cases negative with
    | false => exact ⟨0, by decide, rfl, rfl⟩
    | true => exact ⟨1, by decide, rfl, rfl⟩
  obtain ⟨sign, hsign, hnegative, hbit⟩ := hsign
  rw [hbit]
  generalize hn : sign * 2 ^ 63 + (biased * 2 ^ 52 + fraction) = n
  have hfirst : n / 2 ^ 63 = sign := by omega
  have hmiddle : n / 2 ^ 52 % 2 ^ 11 = biased := by omega
  have hlast : n % 2 ^ 52 = fraction := by omega
  have hbits : (Float.ofBits (UInt64.ofNat n)).toBits.toNat = n := by
    apply toBits_ofBits <;> omega
  simp only [Binary.ofFloat?, hbits, Nat.pow_eq, hfirst, hmiddle, hlast, hnegative]
  rw [if_neg hbiased.ne]
  split_ifs <;> rfl

/-- A packed double is the fraction that it was packed from, unless that is too large. -/
theorem ofFloat?_packFloat (negative : Bool) {m : Nat} {e : Int} (hleast : -1074 ≤ e)
    (hnormal : m < 2 ^ 52 → m = 0 ∨ e = -1074) (hm : m ≤ 2 ^ 53) (hlarge : m < 2 ^ 53 → e ≤ 971)
    (hcarried : m = 2 ^ 53 → e ≤ 970) :
    ∃ b, Binary.ofFloat? (packFloat negative m e) = some b ∧ b.negative = negative ∧
      b.magnitude = m * 2 ^ e := by
  let sign := if negative then 2 ^ 63 else 0
  -- A small significand is packed without a leading bit, and one that was rounded up to 2 ^ 53 is
  -- carried into the exponent.
  by_cases hsmall : m < 2 ^ 52
  · have hpack : packFloat negative m e =
        Float.ofBits (UInt64.ofNat (sign + (0 * 2 ^ 52 + m))) := by
      simp only [packFloat, Nat.pow_eq, if_pos hsmall, Nat.zero_mul, Nat.zero_add, sign]
    rw [hpack, ofFloat?_ofBits negative (by decide) hsmall]
    refine ⟨_, rfl, rfl, ?_⟩
    rcases hnormal hsmall with rfl | rfl <;> simp [Binary.magnitude]
  · by_cases hcarry : m = 2 ^ 53
    · have hbiased : (e + 1075).toNat + 1 < 2047 := by
        have := hcarried hcarry
        omega
      have hpack : packFloat negative m e =
          Float.ofBits (UInt64.ofNat (sign + (((e + 1075).toNat + 1) * 2 ^ 52 + 0))) := by
        simp only [packFloat, Nat.pow_eq, if_neg hsmall, if_pos hcarry, if_neg hbiased.not_ge, sign]
      rw [hpack, ofFloat?_ofBits negative hbiased (by decide), if_neg (Nat.succ_ne_zero _)]
      refine ⟨_, rfl, rfl, ?_⟩
      have hexponent : (((e + 1075).toNat + 1 : Nat) : Int) - 1075 = e + 1 := by omega
      rw [Binary.magnitude, hexponent, zpow_add_one₀ two_ne_zero, hcarry]
      push_cast
      ring
    · have hbiased : (e + 1075).toNat < 2047 := by
        have := hlarge (by omega)
        omega
      have hpack : packFloat negative m e =
          Float.ofBits (UInt64.ofNat (sign + ((e + 1075).toNat * 2 ^ 52 + (m - 2 ^ 52)))) := by
        simp only [packFloat, Nat.pow_eq, if_neg hsmall, if_neg hcarry, Nat.add_zero,
          if_neg hbiased.not_ge, sign]
      rw [hpack, ofFloat?_ofBits negative hbiased (by omega), if_neg (by omega)]
      refine ⟨_, rfl, rfl, ?_⟩
      have hexponent : ((e + 1075).toNat : Int) - 1075 = e := by omega
      rw [Binary.magnitude, hexponent, Nat.sub_add_cancel (by omega)]

theorem packFloat_of_large (negative : Bool) {m : Nat} {e : Int} (hm : 2 ^ 52 ≤ m)
    (hlarge : 972 ≤ e ∨ m = 2 ^ 53 ∧ 971 ≤ e) : packFloat negative m e =
      Float.ofBits (UInt64.ofNat ((if negative then 2 ^ 63 else 0) + 2047 * 2 ^ 52)) := by
  have hbiased : (e + 1075).toNat + (if m = 2 ^ 53 then 1 else 0) ≥ 2047 := by
    split_ifs <;> omega
  simp only [packFloat, Nat.pow_eq, if_neg hm.not_gt, if_pos hbiased]

/-! ### Comparison -/

theorem le_iff_value_le {x y : Float} {a b : Binary} (hx : Binary.ofFloat? x = some a)
    (hy : Binary.ofFloat? y = some b) : x ≤ y ↔ a.value ≤ b.value := by
  have ha := Binary.ofFloat?_eq_ofUnpacked? x
  have hb := Binary.ofFloat?_eq_ofUnpacked? y
  rw [hx] at ha
  rw [hy] at hb
  rw [le_iff_compare, compare_of_ofUnpacked? ha.symm hb.symm (Binary.canonical_of_ofFloat? hx)
    (Binary.canonical_of_ofFloat? hy), Option.any_some, ← compare_le_iff_le,
    Ordering.isLE_iff_ne_gt]

theorem le_zero_iff {x : Float} {b : Binary} (hx : Binary.ofFloat? x = some b) :
    x ≤ 0.0 ↔ b.value ≤ 0 := by
  have hzero : Binary.ofFloat? 0.0 = some ⟨false, 0, -1074⟩ := by decide +kernel
  have hvalue : Binary.value ⟨false, 0, -1074⟩ = 0 := Binary.value_of_zero rfl
  rw [le_iff_value_le hx hzero, hvalue]

theorem le_zero_of_negative {x : Float} {b : Binary} (hx : Binary.ofFloat? x = some b)
    (hnegative : b.negative = true) : x ≤ 0.0 := by
  rw [le_zero_iff hx, Binary.value_of_negative hnegative, neg_nonpos, Binary.magnitude]
  positivity

/-! ### Rounding -/

/-- The double that is nearest to a number is at most half a unit in the last place away: half of
what a unit is for numbers up to the next power of two. -/
def IsRounded (x q : ℚ) : Prop :=
  ∀ k : Int, -1022 ≤ k → |q| < 2 ^ (k + 1) → |x - q| ≤ 2 ^ (k - 53)

theorem IsRounded.neg {x q : ℚ} (h : IsRounded x q) : IsRounded (-x) (-q) := by
  intro k hk hq
  rw [abs_neg] at hq
  rw [neg_sub_neg, abs_sub_comm]
  exact h k hk hq

/-- From here on numbers are rounded to an infinity. -/
def overflowBound : ℚ :=
  2 ^ 1024 - 2 ^ 970

theorem overflowBound_eq : overflowBound = (2 ^ 53 - 1 / 2) * 2 ^ (971 : Int) := by
  have hupper : (2 : ℚ) ^ 1024 = 2 ^ 54 * 2 ^ 970 := by rw [← pow_add]
  have hpower : (2 : ℚ) ^ (971 : Int) = 2 * 2 ^ 970 :=
    (zpow_natCast 2 971).trans (pow_succ' 2 970)
  rw [overflowBound, hupper, hpower]
  generalize (2 : ℚ) ^ 970 = p
  ring

theorem overflowBound_lt : overflowBound < 2 ^ (1024 : Int) := by
  have hpower : (2 : ℚ) ^ (1024 : Int) = 2 ^ 1024 := zpow_natCast 2 1024
  rw [hpower]
  exact sub_lt_self _ (pow_pos two_pos 970)

theorem two_pow_le_overflowBound {k : Nat} (hk : k ≤ 970) : (2 : ℚ) ^ k ≤ overflowBound := by
  have hupper : (2 : ℚ) ^ 1024 = 2 ^ 54 * 2 ^ 970 := by rw [← pow_add]
  have hpower : (2 : ℚ) ^ k ≤ 2 ^ 970 := pow_le_pow_right₀ one_le_two hk
  rw [overflowBound, hupper]
  generalize (2 : ℚ) ^ 970 = p at hpower ⊢
  have hpositive : (0 : ℚ) < 2 ^ k := by positivity
  linarith

/-- A number with the significand and the exponent that it is rounded to. -/
structure IsScaled (q : ℚ) (k e : Int) (m : Nat) : Prop where
  lower : 2 ^ k ≤ q
  upper : q < 2 ^ (k + 1)
  exponent : e = max (k - 52) (-1074)
  near : |(m : ℚ) - q / 2 ^ e| ≤ 1 / 2

namespace IsScaled

variable {q : ℚ} {k e : Int} {m : Nat}

theorem significand_le (h : IsScaled q k e m) : m ≤ 2 ^ 53 := by
  have hexponent := h.exponent
  have hpower : (0 : ℚ) < 2 ^ e := by positivity
  have hscaled : q / 2 ^ e < 2 ^ 53 := by
    rw [div_lt_iff₀ hpower, ← zpow_natCast, ← zpow_add₀ two_ne_zero]
    exact h.upper.trans_le (zpow_le_zpow_right₀ one_le_two (by push_cast; omega))
  have hround : (m : ℚ) < 2 ^ 53 + 1 := by linarith [(abs_le.mp h.near).2]
  have hround : m < 2 ^ 53 + 1 := mod_cast hround
  omega

/-- Only at the lower end has a significand less than 53 digits. -/
theorem exponent_of_significand_lt (h : IsScaled q k e m) (hsmall : m < 2 ^ 52) : e = -1074 := by
  have hexponent := h.exponent
  have hpower : (0 : ℚ) < 2 ^ e := by positivity
  by_contra hleast
  have hscaled : 2 ^ 52 ≤ q / 2 ^ e := by
    rw [le_div_iff₀ hpower, ← zpow_natCast, ← zpow_add₀ two_ne_zero]
    exact (zpow_le_zpow_right₀ one_le_two (by push_cast; omega)).trans h.lower
  have hround : (2 : ℚ) ^ 52 < m + 1 := by linarith [(abs_le.mp h.near).1]
  have hround : 2 ^ 52 < m + 1 := mod_cast hround
  omega

theorem exponent_le (h : IsScaled q k e m) (hfits : q < overflowBound) : e ≤ 971 := by
  have hexponent := h.exponent
  by_contra hlarge
  have hover : (2 : ℚ) ^ (1024 : Int) ≤ q :=
    (zpow_le_zpow_right₀ one_le_two (by omega)).trans h.lower
  exact absurd (hover.trans_lt hfits) overflowBound_lt.not_gt

theorem exponent_le_of_carried (h : IsScaled q k e m) (hfits : q < overflowBound)
    (hcarry : m = 2 ^ 53) : e ≤ 970 := by
  have hscaled : (2 ^ 53 - 1 / 2 : ℚ) ≤ q / 2 ^ e := by
    have hnear := (abs_le.mp h.near).2
    rw [hcarry] at hnear
    push_cast at hnear
    linarith
  by_contra hover
  obtain rfl : e = 971 := by
    have := h.exponent_le hfits
    omega
  rw [le_div_iff₀ (zpow_pos two_pos 971), ← overflowBound_eq] at hscaled
  exact absurd hfits hscaled.not_gt

theorem isRounded (h : IsScaled q k e m) : IsRounded (m * 2 ^ e) q := by
  intro j hj hq
  have hexponent := h.exponent
  have hpower : (0 : ℚ) < 2 ^ e := by positivity
  have hexponents : k < j + 1 :=
    (zpow_lt_zpow_iff_right₀ one_lt_two).mp (h.lower.trans_lt ((le_abs_self q).trans_lt hq))
  calc |(m : ℚ) * 2 ^ e - q| = |(m : ℚ) - q / 2 ^ e| * 2 ^ e := by
        rw [← abs_of_pos hpower, ← abs_mul, abs_of_pos hpower, sub_mul,
          div_mul_cancel₀ _ hpower.ne']
    _ ≤ 1 / 2 * 2 ^ e := mul_le_mul_of_nonneg_right h.near hpower.le
    _ = 2 ^ (e - 1) := by rw [zpow_sub_one₀ two_ne_zero]; ring
    _ ≤ 2 ^ (j - 53) := zpow_le_zpow_right₀ one_le_two (by omega)

end IsScaled

theorem nearestFloat_zero (negative : Bool) (den : Nat) :
    ∃ b, Binary.ofFloat? (nearestFloat negative 0 den) = some b ∧ b.negative = negative ∧
      b.magnitude = 0 := by
  rw [nearestFloat, if_pos rfl]
  simpa using ofFloat?_packFloat negative (e := 0) (by decide) (fun _ => .inl rfl) (Nat.zero_le _)
    (by decide) (by decide)

/-- A positive quotient is rounded to a significand and an exponent, and packed. -/
theorem nearestFloat_scaled (negative : Bool) {num den : Nat} (hnum : 0 < num) (hden : 0 < den) :
    ∃ k e m, IsScaled ((num : ℚ) / den) k e m ∧
      nearestFloat negative num den = packFloat negative m e := by
  obtain ⟨hlower, hupper⟩ := binaryExponent_spec hnum hden
  refine ⟨_, _, _, ⟨hlower, hupper, rfl, ?_⟩, by rw [nearestFloat, if_neg hnum.ne']⟩
  generalize max (binaryExponent num den - 52) (-1074) = e
  have hquotient : (num : ℚ) / den / 2 ^ e =
      (num * Nat.pow 2 (-e).toNat : Nat) / (den * Nat.pow 2 e.toNat : Nat) := by
    rw [zpow_eq_div two_ne_zero]
    push_cast [Nat.pow_eq]
    field_simp
  rw [hquotient]
  exact abs_roundHalfEven_sub_le _ (Nat.mul_pos hden (Nat.two_pow_pos _))

/-- The nearest double to a quotient that is not too large has its sign and is the quotient up to
rounding. -/
theorem nearestFloat_rounded (negative : Bool) (num : Nat) {den : Nat} (hden : 0 < den)
    (hfits : (num : ℚ) / den < overflowBound) :
    ∃ b, Binary.ofFloat? (nearestFloat negative num den) = some b ∧ b.negative = negative ∧
      IsRounded b.magnitude (num / den) := by
  rcases Nat.eq_zero_or_pos num with rfl | hnum
  · obtain ⟨b, hb, hnegative, hmagnitude⟩ := nearestFloat_zero negative den
    refine ⟨b, hb, hnegative, fun k _ _ => ?_⟩
    rw [hmagnitude]
    simp only [Nat.cast_zero, zero_div, sub_self, abs_zero]
    positivity
  · obtain ⟨k, e, m, hscaled, hpacked⟩ := nearestFloat_scaled negative hnum hden
    have hleast : -1074 ≤ e := by
      have := hscaled.exponent
      omega
    obtain ⟨b, hb, hnegative, hmagnitude⟩ := ofFloat?_packFloat negative hleast
      (fun hsmall => .inr (hscaled.exponent_of_significand_lt hsmall)) hscaled.significand_le
      (fun _ => hscaled.exponent_le hfits) (hscaled.exponent_le_of_carried hfits)
    refine ⟨b, hpacked ▸ hb, hnegative, ?_⟩
    rw [hmagnitude]
    exact hscaled.isRounded

/-- Nothing negative is rounded to more than zero. -/
theorem nearestFloat_le_zero (num : Nat) {den : Nat} (hden : 0 < den) :
    nearestFloat true num den ≤ 0.0 := by
  rcases Nat.eq_zero_or_pos num with rfl | hnum
  · obtain ⟨b, hb, hnegative, -⟩ := nearestFloat_zero true den
    exact le_zero_of_negative hb hnegative
  · obtain ⟨k, e, m, hscaled, hpacked⟩ := nearestFloat_scaled true hnum hden
    rw [hpacked]
    by_cases hlarge : 2 ^ 52 ≤ m ∧ (972 ≤ e ∨ m = 2 ^ 53 ∧ 971 ≤ e)
    · -- What is too large is packed as the infinity below zero.
      rw [packFloat_of_large true hlarge.1 hlarge.2]
      decide +kernel
    · have hleast : -1074 ≤ e := by
        have := hscaled.exponent
        omega
      have hnormal := hscaled.exponent_of_significand_lt
      obtain ⟨b, hb, hnegative, -⟩ := ofFloat?_packFloat true hleast (fun hsmall =>
        .inr (hnormal hsmall)) hscaled.significand_le (by omega) (by omega)
      exact le_zero_of_negative hb hnegative

end TradingRules.Number
