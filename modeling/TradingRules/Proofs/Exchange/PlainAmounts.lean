import TradingRules.Proofs.Exchange.Amounts

/-!
# Amounts as plain decimals

The amount of a finite double is its text with eight places without what is insignificant in it: the
zeros at the end, and the point if nothing is left behind it. What stands in front of the point
stays, so that the amount is a plain decimal for the same number.
-/

namespace TradingRules.Exchange

open Number
open RegularExpression (char)

/-! ### The pattern of plain decimals -/

def oneOf (cs : List Char) : RegularExpression Char :=
  (cs.map char).sum

def digit : RegularExpression Char :=
  oneOf "0123456789".toList

def nonzeroDigit : RegularExpression Char :=
  oneOf "123456789".toList

def upTo (n : Nat) (p : RegularExpression Char) : RegularExpression Char :=
  (p + 1) ^ n

/-- A minus sign at most, a whole number without a zero too many, and perhaps a point with one to
eight digits of which the last one is not zero: `-?(0|[1-9][0-9]*)(\.[0-9]{0,7}[1-9])?`. -/
def plainDecimalPattern : RegularExpression Char :=
  (char '-' + 1) * (char '0' + nonzeroDigit * digit.star) *
    (char '.' * upTo 7 digit * nonzeroDigit + 1)

theorem mem_oneOf {cs : List Char} {c : Char} (h : c ∈ cs) : [c] ∈ (oneOf cs).matches' := by
  induction cs with
  | nil => cases h
  | cons d cs ih =>
    rw [oneOf, List.map_cons, List.sum_cons, RegularExpression.matches'_add, Language.mem_add]
    rcases List.mem_cons.mp h with rfl | h
    · exact .inl rfl
    · exact .inr (ih h)

theorem mem_digits_of_isDigit {c : Char} (h : c.isDigit = true) : c ∈ "0123456789".toList := by
  have hbounds : 48 ≤ c.toNat ∧ c.toNat ≤ 57 := by
    simp only [Char.isDigit, Bool.and_eq_true, decide_eq_true_eq, UInt32.le_iff_toNat_le] at h
    exact h
  rw [← Char.ofNat_toNat c]
  obtain ⟨hlower, hupper⟩ := hbounds
  interval_cases c.toNat <;> decide

theorem mem_digit {c : Char} (h : c.isDigit = true) : [c] ∈ digit.matches' :=
  mem_oneOf (mem_digits_of_isDigit h)

theorem mem_nonzeroDigit {c : Char} (h : c.isDigit = true) (hc : c ≠ '0') :
    [c] ∈ nonzeroDigit.matches' :=
  mem_oneOf ((List.mem_cons.mp (mem_digits_of_isDigit h)).resolve_left hc)

theorem mem_star_digit {l : List Char} (h : AreDigits l) : l ∈ digit.star.matches' := by
  rw [RegularExpression.matches'_star, Language.mem_kstar]
  refine ⟨l.map ([·]), (by simp [← List.flatMap_def]), ?_⟩
  intro word hword
  obtain ⟨c, hc, rfl⟩ := List.mem_map.mp hword
  exact mem_digit (h c hc)

theorem mem_upTo_digit {l : List Char} {n : Nat} (h : AreDigits l) (hn : l.length ≤ n) :
    l ∈ (upTo n digit).matches' := by
  rw [upTo, RegularExpression.matches'_pow, Language.mem_pow]
  -- The digits that are missing are matched by nothing.
  refine ⟨l.map ([·]) ++ List.replicate (n - l.length) [], ?_, ?_, ?_⟩
  · simp [← List.flatMap_def]
  · simp [hn]
  · intro word hword
    rw [RegularExpression.matches'_add, Language.mem_add]
    rcases List.mem_append.mp hword with hword | hword
    · obtain ⟨c, hc, rfl⟩ := List.mem_map.mp hword
      exact .inl (mem_digit (h c hc))
    · exact .inr (List.eq_of_mem_replicate hword)

theorem mem_sign (negative : Bool) :
    (Sign.ofNegative negative).chars ∈ (char '-' + 1).matches' := by
  rw [RegularExpression.matches'_add, Language.mem_add]
  cases negative with
  | true => exact .inl rfl
  | false => exact .inr rfl

theorem mem_whole {whole : List Char} (hnonempty : whole ≠ [])
    (hleading : whole = ['0'] ∨ whole.head? ≠ some '0') (h : AreDigits whole) :
    whole ∈ (char '0' + nonzeroDigit * digit.star).matches' := by
  rw [RegularExpression.matches'_add, Language.mem_add]
  rcases hleading with rfl | hleading
  · exact .inl rfl
  · cases whole with
    | nil => exact absurd rfl hnonempty
    | cons c rest =>
      right
      rw [RegularExpression.matches'_mul, Language.mem_mul]
      refine ⟨[c], ?_, rest, ?_, rfl⟩
      · apply mem_nonzeroDigit (h c List.mem_cons_self)
        simpa using hleading
      · exact mem_star_digit fun d hd => h d (List.mem_cons_of_mem c hd)

theorem mem_fraction {digits : List Char} (h : AreDigits digits)
    (hlast : digits.getLast? ≠ some '0') (hlength : digits.length ≤ 8) :
    fractionChars (if digits = [] then none else some digits) ∈
      (char '.' * upTo 7 digit * nonzeroDigit + 1).matches' := by
  rw [RegularExpression.matches'_add, Language.mem_add]
  rcases List.eq_nil_or_concat digits with rfl | ⟨front, c, rfl⟩
  · exact .inr rfl
  · left
    rw [List.concat_eq_append] at h hlast hlength ⊢
    rw [if_neg (by simp), RegularExpression.matches'_mul, Language.mem_mul]
    refine ⟨'.' :: front, ?_, [c], ?_, rfl⟩
    · rw [RegularExpression.matches'_mul, Language.mem_mul]
      refine ⟨['.'], rfl, front, ?_, rfl⟩
      apply mem_upTo_digit fun d hd => h d (List.mem_append_left _ hd)
      rw [List.length_append, List.length_singleton] at hlength
      omega
    · apply mem_nonzeroDigit
      · exact h c (List.mem_append_right _ (List.mem_singleton_self c))
      · simpa using hlast

/-! ### What is written -/

/-- A numeral is what a double is written as with so many places: it has the sign of the double, no
plus sign, no zero too many in front of the point and no exponent, and its digits are the nearest
ones; of two that are equally near the even ones. -/
structure IsFixedPoint (b : Binary) (places : Nat) (n : Numeral) : Prop where
  sign : n.sign = .ofNegative b.negative
  nonempty : n.whole ≠ []
  leading : n.whole = ['0'] ∨ n.whole.head? ≠ some '0'
  fraction : ∃ digits, n.fraction = some digits ∧ digits.length = places
  exponent : n.exponent = none
  near : |n.magnitude - b.magnitude| ≤ 1 / 2 / 10 ^ places
  even : |n.magnitude - b.magnitude| = 1 / 2 / 10 ^ places → Even (ofDigits n.digits)

theorem exists_ofFloat?_of_isFinite {x : Float} (h : x.isFinite = true) :
    ∃ b, Binary.ofFloat? x = some b := by
  rw [Binary.ofFloat?_eq_ofUnpacked?]
  rw [isFinite_eq_unpack] at h
  cases hx : x.toModel.unpack with
  | zero s | finite s m e hm => exact ⟨_, rfl⟩
  | notANumber | infinity s =>
    rw [hx] at h
    cases h

variable {b : Binary} {places : Nat} {whole digits fraction : List Char}

theorem isFixedPoint_of_fixed (hplaces : places ≠ 0)
    (h : IsFixed (roundHalfEven (b.numerator * Nat.pow 10 places) b.denominator) places whole
      fraction) :
    IsFixedPoint b places (plainNumeral b.negative whole fraction h.areDigits h.nonempty) := by
  have hfraction := h.fraction_ne_nil hplaces
  have hmagnitude :
      (plainNumeral b.negative whole fraction h.areDigits h.nonempty).magnitude = _ :=
    magnitude_plainNumeral h.areDigits h.nonempty
  have hscaled (u : ℚ) : |u / 10 ^ places - b.magnitude| =
      |u - b.magnitude * 10 ^ places| / 10 ^ places := by
    have hpos : (0 : ℚ) < 10 ^ places := by positivity
    rw [← abs_of_pos hpos, ← abs_div, abs_of_pos hpos, sub_div, mul_div_cancel_right₀ _ hpos.ne']
  rw [h.units, h.length] at hmagnitude
  refine ⟨rfl, h.nonempty, h.leading, ⟨fraction, if_neg hfraction, h.length⟩, rfl, ?_, ?_⟩
  · rw [hmagnitude, hscaled]
    exact div_le_div_of_nonneg_right (abs_units_sub_le b places) (by positivity)
  · intro htie
    rw [hmagnitude, hscaled, div_left_inj' (by positivity), magnitude_mul_pow] at htie
    rw [digits_plainNumeral, h.units]
    exact even_roundHalfEven _ b.denominator_pos htie

section

variable (negative : Bool) (hdigits : AreDigits (whole ++ digits)) (hwhole : whole ≠ [])

theorem plainNumeral_chars : (plainNumeral negative whole digits hdigits hwhole).chars =
    (Sign.ofNegative negative).chars ++ whole ++
      fractionChars (if digits = [] then none else some digits) := by
  simp [Numeral.chars, Numeral.magnitudeChars, plainNumeral, exponentChars]

theorem plainNumeral_mem_pattern (hleading : whole = ['0'] ∨ whole.head? ≠ some '0')
    (hlast : digits.getLast? ≠ some '0') (hlength : digits.length ≤ 8) :
    (plainNumeral negative whole digits hdigits hwhole).chars ∈ plainDecimalPattern.matches' := by
  have hfront := mem_whole hwhole hleading fun c hc => hdigits c (List.mem_append_left _ hc)
  have hbehind := mem_fraction (fun c hc => hdigits c (List.mem_append_right _ hc)) hlast hlength
  rw [plainNumeral_chars, plainDecimalPattern, RegularExpression.matches'_mul,
    RegularExpression.matches'_mul, Language.mem_mul]
  exact ⟨_, Language.mem_mul.mpr ⟨_, mem_sign negative, _, hfront, rfl⟩, _, hbehind, rfl⟩

end

theorem fixedText_of_fixed {x : Float} (hb : Binary.ofFloat? x = some b)
    (hfixed : b.fixed places = whole ++ '.' :: fraction) (hfraction : fraction ≠ [])
    (hdigits : AreDigits (whole ++ fraction)) (hwhole : whole ≠ []) :
    fixedText places x =
      String.ofList (plainNumeral b.negative whole fraction hdigits hwhole).chars := by
  have htext : fixedText places x = signed b.negative (b.fixed places) := by rw [fixedText, hb]
  rw [htext, hfixed, signed, plainNumeral_chars, if_neg hfraction]
  cases b.negative <;> rfl

/-- A finite double is written as a plain decimal, without an exponent, a zero at the end of its
places or a point that nothing stands behind. It is the text of the double with eight places but for
zeros behind the point: the whole part is the same, and both stand for the same number. -/
theorem amount_is_plain_decimal {x : Float} (hx : x.isFinite = true) :
    ∃ (b : Binary) (exact written : Numeral), Binary.ofFloat? x = some b ∧
      fixedText 8 x = String.ofList exact.chars ∧ IsFixedPoint b 8 exact ∧
      amountText (.real x) = .ok (String.ofList written.chars) ∧
      written.chars ∈ plainDecimalPattern.matches' ∧ written.whole = exact.whole ∧
      ∀ n m : Numeral, n.chars = written.chars → m.chars = exact.chars → n.value = m.value := by
  obtain ⟨b, hb⟩ := exists_ofFloat?_of_isFinite hx
  obtain ⟨whole, fraction, hfixed, h⟩ := exists_fixed b 8 (by decide)
  have hexact := isFixedPoint_of_fixed (by decide) h
  generalize roundHalfEven (b.numerator * Nat.pow 10 8) b.denominator = units at h hexact
  have htext := fixedText_of_fixed hb hfixed (h.fraction_ne_nil (by decide)) h.areDigits h.nonempty
  obtain ⟨digits, k, rfl, hlast⟩ := List.exists_eq_append_replicate '0' fraction
  have hlength : digits.length ≤ 8 := by
    have hlength := h.length
    rw [List.length_append] at hlength
    omega
  refine ⟨b, _, _, hb, htext, hexact, amountText_of_fixed hb hlast hfixed h,
    plainNumeral_mem_pattern _ _ _ h.leading hlast hlength, rfl, fun n m hn hm => ?_⟩
  rw [Numeral.value_eq_of_chars_eq hn, Numeral.value_eq_of_chars_eq hm, Numeral.value,
    Numeral.value, magnitude_of_fixed _ h, magnitude_plainNumeral, h.units, h.length]
  rfl

/-- The zeros of a large whole number are all significant. -/
theorem zeros_of_large_amount_stay :
    (1e22 : Float).isFinite = true ∧ ∃ exact written : Numeral,
      String.ofList exact.chars = "10000000000000000000000.00000000" ∧
      String.ofList written.chars = "10000000000000000000000" ∧
      written.chars ∈ plainDecimalPattern.matches' ∧ written.whole = exact.whole ∧
      written.value = exact.value := by
  have hfinite : (1e22 : Float).isFinite = true := by decide +kernel
  have hexact : fixedText 8 1e22 = "10000000000000000000000.00000000" := by decide +kernel
  have hwritten : plainDecimal (fixedText 8 1e22).toList = "10000000000000000000000" := by
    rw [hexact]
    decide +kernel
  obtain ⟨b, exact, written, -, htext, -, hamount, hpattern, hwhole, hvalue⟩ :=
    amount_is_plain_decimal hfinite
  refine ⟨hfinite, exact, written, htext.symm.trans hexact, ?_, hpattern, hwhole,
    hvalue written exact rfl rfl⟩
  exact (Except.ok.inj hamount).symm.trans hwritten

end TradingRules.Exchange
