import TradingRules.Exchange.Client
import TradingRules.Proofs.Lists
import TradingRules.Proofs.Number.Numerals
import TradingRules.Proofs.Value.Readings

/-!
# Amounts as decimals

An amount is read as the double that is nearest to it, and is written as a decimal numeral that
denotes the multiple of the eighth decimal place that is nearest to the double.
-/

namespace TradingRules

namespace Number

/-! ### Digits -/

theorem ofDigits_append (a b : List Char) :
    ofDigits (a ++ b) = ofDigits a * 10 ^ b.length + ofDigits b := by
  induction b using List.reverseRecOn with
  | nil => simp [ofDigits]
  | append_singleton b c ih =>
    have hlast : ∀ l, ofDigits (l ++ [c]) = 10 * ofDigits l + (c.toNat - '0'.toNat) := by
      intro l
      rw [ofDigits, List.foldl_append]
      rfl
    rw [← List.append_assoc, hlast, hlast, ih, List.length_append, List.length_singleton, pow_succ]
    ring

theorem ofDigits_zeros (k : Nat) : ofDigits (zeros k) = 0 := by
  induction k with
  | zero => rfl
  | succ k ih =>
    rw [zeros, List.replicate_succ', ofDigits_append, ← zeros, ih]
    rfl

theorem ofDigits_append_zeros (l : List Char) (k : Nat) :
    ofDigits (l ++ zeros k) = ofDigits l * 10 ^ k := by
  rw [ofDigits_append, ofDigits_zeros, zeros, List.length_replicate, Nat.add_zero]

theorem ofDigits_digitText (n : Nat) : ofDigits (digitText n) = n :=
  Nat.ofDigitChars_toDigits (by decide) (by decide)

theorem areDigits_digitText (n : Nat) : AreDigits (digitText n) := fun _ hc =>
  Nat.isDigit_of_mem_toDigits (by decide) (by decide) hc

theorem areDigits_zeros (k : Nat) : AreDigits (zeros k) := by
  intro c hc
  rw [List.eq_of_mem_replicate hc]
  rfl

theorem head_digitText {n : Nat} (hn : n ≠ 0) : (digitText n).head? ≠ some '0' := by
  induction n using Nat.strongRecOn with
  | ind n ih =>
    rw [digitText]
    rcases Nat.lt_or_ge n 10 with hsmall | hlarge
    · rw [Nat.toDigits_of_lt_base hsmall]
      interval_cases n <;> simp_all
    · rw [Nat.toDigits_of_base_le (by decide) hlarge,
        List.head?_append_of_ne_nil _ Nat.toDigits_ne_nil]
      apply ih
      · omega
      · omega

/-- A number in units of the last place is written with digits on both sides of the point: no zero
too many in front of it, and all places behind it. -/
structure IsFixed (units places : Nat) (whole fraction : List Char) : Prop where
  nonempty : whole ≠ []
  leading : whole = ['0'] ∨ whole.head? ≠ some '0'
  length : fraction.length = places
  areDigits : AreDigits (whole ++ fraction)
  units : ofDigits (whole ++ fraction) = units

theorem exists_fixed (b : Binary) (places : Nat) (hplaces : places ≠ 0) :
    ∃ whole fraction, b.fixed places = whole ++ '.' :: fraction ∧
      IsFixed (roundHalfEven (b.numerator * Nat.pow 10 places) b.denominator) places whole
        fraction := by
  unfold Binary.fixed
  dsimp only
  generalize roundHalfEven (b.numerator * Nat.pow 10 places) b.denominator = units
  have hdigits := areDigits_digitText units
  generalize hpadded : zeros (places + 1 - (digitText units).length) ++ digitText units = padded
  have hlength : padded.length = max (places + 1) (digitText units).length := by
    rw [← hpadded, List.length_append, zeros, List.length_replicate]
    omega
  refine ⟨padded.take (padded.length - places), padded.drop (padded.length - places),
    if_neg hplaces, ?_, ?_, ?_, ?_, ?_⟩
  · apply List.ne_nil_of_length_pos
    rw [List.length_take]
    omega
  · rcases Nat.lt_or_ge places (digitText units).length with hlong | hshort
    · have hunits : units ≠ 0 := by
        rintro rfl
        have hone : (digitText 0).length = 1 := rfl
        omega
      rw [Nat.sub_eq_zero_of_le hlong, zeros, List.replicate_zero, List.nil_append] at hpadded
      rw [List.head?_take, if_neg (by omega), ← hpadded]
      exact .inr (head_digitText hunits)
    · have hone : padded.length - places = 1 := by omega
      obtain ⟨k, hk⟩ : ∃ k, places + 1 - (digitText units).length = k + 1 :=
        ⟨places - (digitText units).length, by omega⟩
      rw [hk, zeros, List.replicate_succ, List.cons_append] at hpadded
      rw [hone, ← hpadded]
      exact .inl rfl
  · rw [List.length_drop]
    omega
  · rw [List.take_append_drop, ← hpadded]
    intro c hc
    rcases List.mem_append.mp hc with hc | hc
    · exact areDigits_zeros _ c hc
    · exact hdigits c hc
  · rw [List.take_append_drop, ← hpadded, ofDigits_append, ofDigits_zeros, ofDigits_digitText,
      zero_mul, zero_add]

theorem IsFixed.fraction_ne_nil {units places : Nat} {whole fraction : List Char}
    (h : IsFixed units places whole fraction) (hplaces : places ≠ 0) : fraction ≠ [] := by
  rw [← List.length_pos_iff, h.length]
  exact Nat.pos_of_ne_zero hplaces

theorem IsFixed.areDigits_of_zeros {units places k : Nat} {whole digits : List Char}
    (h : IsFixed units places whole (digits ++ zeros k)) : AreDigits (whole ++ digits) := by
  intro c hc
  apply h.areDigits
  rw [← List.append_assoc]
  exact List.mem_append_left _ hc

theorem magnitude_mul_pow (b : Binary) (places : Nat) : b.magnitude * 10 ^ places =
    (b.numerator * Nat.pow 10 places : Nat) / b.denominator := by
  rw [b.magnitude_eq_div, div_mul_eq_mul_div]
  push_cast [Nat.pow_eq]
  rfl

/-- What is written is at most half a unit of the last place away. -/
theorem abs_units_sub_le (b : Binary) (places : Nat) :
    |(roundHalfEven (b.numerator * Nat.pow 10 places) b.denominator : ℚ) -
      b.magnitude * 10 ^ places| ≤ 1 / 2 := by
  rw [magnitude_mul_pow]
  exact abs_roundHalfEven_sub_le _ b.denominator_pos

end Number

namespace Exchange

open Number

/-! ### Trailing characters -/

theorem dropTrailing_append_replicate (c : Char) {s : List Char} (hs : s.getLast? ≠ some c)
    (k : Nat) : dropTrailing c (s ++ List.replicate k c) = s := by
  have hfirst : s.reverse.dropWhile (· == c) = s.reverse := by
    cases hreverse : s.reverse with
    | nil => rfl
    | cons d l =>
      have hd : d ≠ c := by
        rintro rfl
        apply hs
        rw [List.getLast?_eq_head?_reverse, hreverse]
        rfl
      rw [List.dropWhile_cons_of_neg (by simpa using hd)]
  rw [dropTrailing, List.reverse_append, List.reverse_replicate, List.dropWhile_append_of_pos,
    hfirst, List.reverse_reverse]
  intro d hd
  simpa using List.eq_of_mem_replicate hd

theorem ne_point_of_isDigit {c : Char} (h : c.isDigit = true) : c ≠ '.' := by
  rintro rfl
  cases h

/-- Zeros behind the point are dropped, and the point with them if nothing else is behind it. -/
theorem plainDecimal_eq {front digits : List Char} (hfront : front ≠ [])
    (hpoint : front.getLast? ≠ some '.') (hdigits : AreDigits digits)
    (hlast : digits.getLast? ≠ some '0') (k : Nat) :
    plainDecimal (front ++ '.' :: (digits ++ List.replicate k '0')) =
      String.ofList (front ++ fractionChars (if digits = [] then none else some digits)) := by
  have hzeros : dropTrailing '0' (front ++ '.' :: (digits ++ List.replicate k '0')) =
      front ++ '.' :: digits := by
    rw [← List.cons_append, ← List.append_assoc]
    apply dropTrailing_append_replicate
    rw [List.getLast?_append]
    cases digits with
    | nil => simp
    | cons c digits => simpa using hlast
  rw [plainDecimal, hzeros]
  by_cases hempty : digits = []
  · have hdropped : dropTrailing '.' (front ++ ['.']) = front :=
      dropTrailing_append_replicate '.' hpoint 1
    rw [if_pos hempty, hempty, hdropped]
    simp [hfront, fractionChars]
  · have hkept : dropTrailing '.' (front ++ '.' :: digits) = front ++ '.' :: digits := by
      obtain ⟨c, hc⟩ := Option.ne_none_iff_exists'.mp (mt List.getLast?_eq_none_iff.mp hempty)
      have hdigit := hdigits c (List.mem_of_getLast? hc)
      have hend : (front ++ '.' :: digits).getLast? ≠ some '.' := by
        rw [List.getLast?_append, List.getLast?_cons, hc]
        simpa using ne_point_of_isDigit hdigit
      simpa using dropTrailing_append_replicate '.' hend 0
    rw [if_neg hempty, hkept]
    simp [fractionChars]

/-- The numeral with a sign, digits in front of the point and perhaps digits behind it. -/
def plainNumeral (negative : Bool) (whole digits : List Char)
    (hdigits : AreDigits (whole ++ digits)) (hwhole : whole ≠ []) : Numeral where
  sign := .ofNegative negative
  whole := whole
  fraction := if digits = [] then none else some digits
  exponent := none
  areDigits := by split_ifs with h <;> simpa [h] using hdigits
  nonempty := by simp [hwhole]

section

variable {negative : Bool} {whole digits : List Char} (hdigits : AreDigits (whole ++ digits))
  (hwhole : whole ≠ [])

theorem chars_plainNumeral (k : Nat) (hlast : digits.getLast? ≠ some '0') :
    plainDecimal (if negative then '-' :: (whole ++ '.' :: (digits ++ List.replicate k '0'))
        else whole ++ '.' :: (digits ++ List.replicate k '0')) =
      String.ofList (plainNumeral negative whole digits hdigits hwhole).chars := by
  have hsigned : (if negative then '-' :: (whole ++ '.' :: (digits ++ List.replicate k '0'))
      else whole ++ '.' :: (digits ++ List.replicate k '0')) =
      ((Sign.ofNegative negative).chars ++ whole) ++ '.' :: (digits ++ List.replicate k '0') := by
    cases negative <;> rfl
  have hpoint : ((Sign.ofNegative negative).chars ++ whole).getLast? ≠ some '.' := by
    obtain ⟨c, hc⟩ := Option.ne_none_iff_exists'.mp (mt List.getLast?_eq_none_iff.mp hwhole)
    have hdigit := hdigits c (List.mem_append_left _ (List.mem_of_getLast? hc))
    rw [List.getLast?_append, hc]
    simpa using ne_point_of_isDigit hdigit
  rw [hsigned, plainDecimal_eq (by simp [hwhole]) hpoint
    (fun c hc => hdigits c (List.mem_append_right _ hc)) hlast k]
  simp [Numeral.chars, Numeral.magnitudeChars, plainNumeral, exponentChars]

theorem fraction_plainNumeral :
    (plainNumeral negative whole digits hdigits hwhole).fraction.getD [] = digits := by
  show (if digits = [] then none else some digits).getD [] = digits
  split_ifs with h
  · rw [h]
    rfl
  · rfl

theorem digits_plainNumeral :
    (plainNumeral negative whole digits hdigits hwhole).digits = whole ++ digits := by
  rw [Numeral.digits, fraction_plainNumeral]
  rfl

theorem magnitude_plainNumeral :
    (plainNumeral negative whole digits hdigits hwhole).magnitude =
      ofDigits (whole ++ digits) / 10 ^ digits.length := by
  have hunit : (plainNumeral negative whole digits hdigits hwhole).unit =
      -(digits.length : Int) := by
    rw [Numeral.unit, fraction_plainNumeral]
    exact zero_sub _
  rw [Numeral.magnitude, hunit, digits_plainNumeral, zpow_neg, zpow_natCast, div_eq_mul_inv]

end

/-- Zeros behind the other digits do not count. -/
theorem magnitude_of_fixed (negative : Bool) {units places k : Nat} {whole digits : List Char}
    (h : IsFixed units places whole (digits ++ zeros k)) :
    (plainNumeral negative whole digits h.areDigits_of_zeros h.nonempty).magnitude =
      units / 10 ^ places := by
  have hunits : (ofDigits (whole ++ digits) * 10 ^ k : ℚ) = units := by
    have hall := h.units
    rw [← List.append_assoc, ofDigits_append_zeros] at hall
    exact mod_cast hall
  have hplaces : digits.length + k = places := by
    have hlength := h.length
    rwa [List.length_append, zeros, List.length_replicate] at hlength
  rw [magnitude_plainNumeral, ← hunits, ← hplaces, pow_add]
  field_simp

theorem amountText_of_fixed {x : Float} {b : Binary} (hb : Binary.ofFloat? x = some b)
    {units k : Nat} {whole digits : List Char} (hlast : digits.getLast? ≠ some '0')
    (hfixed : b.fixed 8 = whole ++ '.' :: (digits ++ zeros k))
    (h : IsFixed units 8 whole (digits ++ zeros k)) :
    amountText (.real x) = .ok (String.ofList
      (plainNumeral b.negative whole digits h.areDigits_of_zeros h.nonempty).chars) := by
  have hfixedText : fixedText 8 x = signed b.negative (b.fixed 8) := by rw [fixedText, hb]
  rw [← chars_plainNumeral h.areDigits_of_zeros h.nonempty k hlast, ← zeros, ← hfixed]
  show Except.ok (plainDecimal (fixedText 8 x).toList) = _
  rw [hfixedText, signed, String.toList_ofList]

/-- A double is written as a numeral, in units of the eighth place that it is nearest to. -/
theorem amountText_real {x : Float} {b : Binary} (hb : Binary.ofFloat? x = some b) :
    ∃ (n : Numeral) (units : Int), amountText (.real x) = .ok (String.ofList n.chars) ∧
      n.value = units / 10 ^ 8 ∧ |(units : ℚ) - b.value * 10 ^ 8| ≤ 1 / 2 := by
  obtain ⟨whole, fraction, hfixed, hwritten⟩ := exists_fixed b 8 (by decide)
  have hnear := abs_units_sub_le b 8
  generalize roundHalfEven (b.numerator * Nat.pow 10 8) b.denominator = units at hwritten hnear
  obtain ⟨digits, k, rfl, hlast⟩ := List.exists_eq_append_replicate '0' fraction
  have htext := amountText_of_fixed hb hlast hfixed hwritten
  have hmagnitude := magnitude_of_fixed b.negative hwritten
  cases hnegative : b.negative with
  | false =>
    refine ⟨_, units, htext, ?_, ?_⟩
    · rw [Numeral.value, hmagnitude]
      simp [plainNumeral, hnegative]
    · rw [Binary.value_of_positive hnegative]
      exact_mod_cast hnear
  | true =>
    refine ⟨_, -units, htext, ?_, ?_⟩
    · rw [Numeral.value, hmagnitude]
      simp [plainNumeral, hnegative, neg_div]
    · rw [Binary.value_of_negative hnegative, abs_sub_comm]
      push_cast
      rw [neg_mul, neg_sub_neg]
      exact hnear

end Exchange

/-! ### Reading -/

namespace Value

open Number

/-- The number that a balance stands for: a number, or a text that is a numeral; null is zero. -/
def Denotes : Value → ℚ → Prop
  | null, q => q = 0
  | int n, q => q = n
  | real x, q => ∃ b, Binary.ofFloat? x = some b ∧ q = b.value
  | text s, q => ∃ n, Spells s n ∧ q = n.value
  | _, _ => False

variable {v : Value} {q : ℚ} {x : Float}

theorem eq_nearestFloat_of_toFloat {n : Int} (h : (int n).toFloat = .ok x) :
    x = nearestFloat (n < 0) n.natAbs 1 := by
  cases hn : floatOfInt? n with
  | none =>
    rw [toFloat_int_of_none hn] at h
    cases h
  | some y =>
    rw [toFloat_int_of_some hn] at h
    obtain rfl := Except.ok.inj h
    rw [floatOfInt?, Option.ite_none_left_eq_some] at hn
    exact (Option.some.inj hn.2).symm

/-- What denotes nothing positive is read as nothing positive. -/
theorem le_zero_of_denotes (h : v.Denotes q) (hq : q ≤ 0)
    (hx : (v.orElse (.real 0.0)).toFloat = .ok x) : x ≤ 0.0 := by
  have hzero : (0.0 : Float) ≤ 0.0 := by decide +kernel
  rw [orElse] at hx
  split at hx
  · rename_i htruthy
    cases v with
    | null => cases htruthy
    | bool | undefined | list | object => cases h
    | int n =>
      have hn : n < 0 := by
        have hne : n ≠ 0 := by simpa [isTruthy] using htruthy
        have hle : n ≤ 0 := by exact_mod_cast (h : q = n) ▸ hq
        omega
      rw [eq_nearestFloat_of_toFloat hx, decide_eq_true hn]
      exact nearestFloat_le_zero _ one_pos
    | real y =>
      obtain ⟨b, hb, rfl⟩ := h
      obtain rfl := Except.ok.inj hx
      exact (le_zero_iff hb).mpr hq
    | text s =>
      obtain ⟨n, hn, rfl⟩ := h
      obtain ⟨y, hy, hle⟩ := readFloat?_le_zero hn hq
      rw [toFloat_text_of_some hy] at hx
      obtain rfl := Except.ok.inj hx
      exact hle
  · obtain rfl := Except.ok.inj hx
    exact hzero

theorem isTruthy_of_denotes (h : v.Denotes q) (hq : 0 < q) : v.isTruthy = true := by
  cases v with
  | bool | undefined | list | object => cases h
  | null => exact absurd h hq.ne'
  | int n =>
    have hn : n ≠ 0 := by
      rintro rfl
      exact hq.ne' ((h : q = (0 : Int)).trans Int.cast_zero)
    simpa [isTruthy] using hn
  | real y =>
    obtain ⟨b, hb, rfl⟩ := h
    have hzero : exactValue? 0.0 = some (point 0) := exactValue?_zero
    have hvalue : exactValue? y = some (point b.value) := by
      rw [exactValue?, hb]
      rfl
    have hne : (y == 0.0) = false := by
      rw [Bool.eq_false_iff, ne_eq, beq_iff, hzero, hvalue]
      rintro ⟨a, ha, ha'⟩
      have heq := Option.some.inj (ha.trans ha'.symm)
      exact hq.ne' (point_strictMono.injective heq)
    show (!(y == 0.0)) = true
    rw [hne]
    rfl
  | text s =>
    obtain ⟨n, hn, rfl⟩ := h
    have hempty : readFloat? "" = none := by decide +kernel
    have hne : s ≠ "" := by
      rintro rfl
      cases hempty.symm.trans (readFloat?_of_spells hn)
    simpa [isTruthy] using hne

/-- What denotes a positive number that is not too large is read as that, up to rounding. -/
theorem rounded_of_denotes (h : v.Denotes q) (hq : 0 < q) (hfits : q < overflowBound)
    (hx : (v.orElse (.real 0.0)).toFloat = .ok x) :
    ∃ b, Binary.ofFloat? x = some b ∧ IsRounded b.value q := by
  rw [orElse, if_pos (isTruthy_of_denotes h hq)] at hx
  cases v with
  | bool | undefined | list | object => cases h
  | null => cases hx
  | int n =>
    have hn : 0 < n := by exact_mod_cast (h : q = n) ▸ hq
    have hq' : q = (n.natAbs : ℚ) / (1 : Nat) := by
      have habs : (n.natAbs : ℚ) = n := by
        rw [← Int.cast_natCast, Int.natAbs_of_nonneg hn.le]
      rw [habs, Nat.cast_one, div_one]
      exact h
    rw [hq'] at hfits ⊢
    obtain ⟨b, hb, hnegative, hrounded⟩ := nearestFloat_rounded false n.natAbs one_pos hfits
    rw [eq_nearestFloat_of_toFloat hx, decide_eq_false hn.not_gt]
    exact ⟨b, hb, Binary.value_of_positive hnegative ▸ hrounded⟩
  | real y =>
    obtain ⟨b, hb, rfl⟩ := h
    obtain rfl := Except.ok.inj hx
    refine ⟨b, hb, fun k _ _ => ?_⟩
    rw [sub_self, abs_zero]
    positivity
  | text s =>
    obtain ⟨n, hn, rfl⟩ := h
    have hsize : n.magnitude < overflowBound := by
      have hmagnitude : (0 : ℚ) ≤ n.magnitude := by
        unfold Numeral.magnitude
        positivity
      rw [Numeral.value] at hq hfits
      split_ifs at hq hfits
      · linarith
      · exact hfits
    obtain ⟨y, b, hy, hb, hrounded⟩ := readFloat?_rounded hn hsize
    rw [toFloat_text_of_some hy] at hx
    obtain rfl := Except.ok.inj hx
    exact ⟨b, hb, hrounded⟩

/-! ### Reading and writing -/

/-- An amount is a number up to two roundings, and it is the number itself if that has no more than
eight places and is not too large for them to be kept. -/
structure Approximates (amount q : ℚ) : Prop where
  near (k : Int) (hk : -1022 ≤ k) (hq : |q| < 2 ^ (k + 1)) :
    |amount - q| ≤ 2 ^ (k - 53) + 1 / 2 / 10 ^ 8
  exact {units : Int} (hunits : q * 10 ^ 8 = units) (hq : |q| < 2 ^ 26) : amount = q

theorem approximates_of_isRounded {b : Binary} {amount : ℚ} {units : Int}
    (hrounded : IsRounded b.value q) (hamount : amount = units / 10 ^ 8)
    (hnear : |(units : ℚ) - b.value * 10 ^ 8| ≤ 1 / 2) : Approximates amount q where
  near k hk hq := by
    have hwritten : |amount - b.value| ≤ 1 / 2 / 10 ^ 8 := by
      have hscaled : amount - b.value = (units - b.value * 10 ^ 8) / 10 ^ 8 := by
        rw [hamount]
        ring
      rw [hscaled, abs_div, abs_of_pos (by positivity : (0 : ℚ) < 10 ^ 8)]
      exact div_le_div_of_nonneg_right hnear (by positivity)
    calc |amount - q| ≤ |amount - b.value| + |b.value - q| := abs_sub_le _ _ _
      _ ≤ 2 ^ (k - 53) + 1 / 2 / 10 ^ 8 := by linarith [hrounded k hk hq]
  exact {whole} hwhole hq := by
    have hread : |b.value - q| ≤ 2 ^ (-28 : Int) := hrounded 25 (by decide) hq
    -- Both roundings together are less than a unit of the eighth place: 10 ^ 8 / 2 ^ 28 + 1 / 2.
    have hclose : |(units : ℚ) - whole| < 1 := by
      rw [← hwhole]
      rw [abs_le] at hnear hread
      rw [abs_lt]
      norm_num at hread
      constructor <;> linarith
    have heq : units = whole := by
      have hclose : |units - whole| < 1 := by exact_mod_cast hclose
      rw [abs_lt] at hclose
      omega
    rw [hamount, heq, ← hwhole]
    field_simp

end Value

end TradingRules
