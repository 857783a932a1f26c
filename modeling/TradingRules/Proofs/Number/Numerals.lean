import TradingRules.Number.Decimal
import TradingRules.Number.Numeral
import TradingRules.Proofs.Number.Nearest

/-!
# Decimal numerals

A decimal numeral is a sign, digits with a point among them, and an exponent, where all but the
digits may be missing. It denotes a rational number, and is read as a double that is nearest to it.
-/

namespace TradingRules.Number

/-! ### The grammar -/

/-- What stands in front of a number. -/
inductive Sign where
  | none | plus | minus
  deriving DecidableEq

namespace Sign

def chars : Sign → List Char
  | none => []
  | plus => ['+']
  | minus => ['-']

def isMinus : Sign → Bool
  | minus => true
  | _ => false

def ofNegative (negative : Bool) : Sign :=
  if negative then minus else none

@[simp] theorem isMinus_ofNegative (negative : Bool) :
    (ofNegative negative).isMinus = negative := by
  cases negative <;> rfl

end Sign

def AreDigits (l : List Char) : Prop :=
  ∀ c ∈ l, c.isDigit = true

structure ExponentPart where
  mark : Char
  sign : Sign
  digits : List Char
  isMark : mark = 'e' ∨ mark = 'E'
  areDigits : AreDigits digits
  nonempty : digits ≠ []

namespace ExponentPart

def chars (p : ExponentPart) : List Char :=
  p.mark :: (p.sign.chars ++ p.digits)

def value (p : ExponentPart) : Int :=
  if p.sign.isMinus then -(ofDigits p.digits : Int) else ofDigits p.digits

end ExponentPart

def exponentChars (exponent : Option ExponentPart) : List Char :=
  (exponent.map ExponentPart.chars).getD []

def fractionChars (fraction : Option (List Char)) : List Char :=
  (fraction.map ('.' :: ·)).getD []

structure Numeral where
  sign : Sign
  whole : List Char
  /-- The digits behind the point, if there is one. -/
  fraction : Option (List Char)
  exponent : Option ExponentPart
  areDigits : AreDigits (whole ++ fraction.getD [])
  nonempty : whole ++ fraction.getD [] ≠ []

namespace Numeral

variable (n : Numeral)

def digits : List Char :=
  n.whole ++ n.fraction.getD []

def magnitudeChars : List Char :=
  n.whole ++ (fractionChars n.fraction ++ exponentChars n.exponent)

def chars : List Char :=
  n.sign.chars ++ n.magnitudeChars

/-- The power of ten that the digits count. -/
def unit : Int :=
  (n.exponent.map ExponentPart.value).getD 0 - (n.fraction.getD []).length

def magnitude : ℚ :=
  ofDigits n.digits * 10 ^ n.unit

def value : ℚ :=
  if n.sign.isMinus then -n.magnitude else n.magnitude

end Numeral

/-- A text is a numeral with blanks around it, underscores between its digits, and digits of any
script. -/
def Spells (s : String) (n : Numeral) : Prop :=
  dropUnderscores ' ' (trimNumeral s.toList) = some n.chars

/-! ### Reading -/

theorem span_digits {l rest : List Char} (hl : AreDigits l)
    (hrest : ∀ c ∈ rest.head?, c.isDigit = false) :
    (l ++ rest).span Char.isDigit = (l, rest) := by
  have hstop : rest.takeWhile Char.isDigit = [] ∧ rest.dropWhile Char.isDigit = rest := by
    cases rest with
    | nil => exact ⟨rfl, rfl⟩
    | cons c rest =>
      have hc := hrest c rfl
      simp [hc]
  rw [List.span_eq_takeWhile_dropWhile, List.takeWhile_append_of_pos hl,
    List.dropWhile_append_of_pos hl, hstop.1, hstop.2, List.append_nil]

theorem splitSign_chars (sign : Sign) {l : List Char} (hl : ∀ c ∈ l.head?, c ≠ '-' ∧ c ≠ '+') :
    splitSign (sign.chars ++ l) = (sign.isMinus, l) := by
  cases sign with
  | plus | minus => rfl
  | none =>
    cases l with
    | nil => rfl
    | cons c l =>
      obtain ⟨hminus, hplus⟩ := hl c rfl
      show splitSign (c :: l) = (false, c :: l)
      unfold splitSign
      split <;> simp_all

theorem readExponent_chars (p : ExponentPart) : readExponent (p.sign.chars ++ p.digits) =
    some p.value := by
  have hsplit : splitSign (p.sign.chars ++ p.digits) = (p.sign.isMinus, p.digits) := by
    apply splitSign_chars
    intro c hc
    have hdigit := p.areDigits c (List.mem_of_mem_head? hc)
    constructor <;> rintro rfl <;> cases hdigit
  have hempty : p.digits.isEmpty = false := by simpa using p.nonempty
  have hall : p.digits.all Char.isDigit = true := List.all_eq_true.mpr p.areDigits
  rw [readExponent, hsplit]
  simp [hempty, hall, ExponentPart.value]

theorem head_exponentChars {exponent : Option ExponentPart} {c : Char}
    (h : c ∈ (exponentChars exponent).head?) : c = 'e' ∨ c = 'E' := by
  cases exponent with
  | none => cases h
  | some p =>
    obtain rfl := Option.some.inj h
    exact p.isMark

/-- What stands behind the digits, read as an exponent or as none. -/
def readTail (value : Int → Float) : List Char → Option Float
  | [] => some (value 0)
  | c :: rest => if c = 'e' || c = 'E' then (readExponent rest).map value else none

theorem readTail_chars (value : Int → Float) (exponent : Option ExponentPart) :
    readTail value (exponentChars exponent) =
      some (value ((exponent.map ExponentPart.value).getD 0)) := by
  cases exponent with
  | none => rfl
  | some p =>
    have hmark : (p.mark = 'e' || p.mark = 'E') = true := by simpa using p.isMark
    have hchars : exponentChars (some p) = p.mark :: (p.sign.chars ++ p.digits) := rfl
    rw [hchars, readTail, if_pos hmark, readExponent_chars]
    rfl

/-- The digits behind a point, if there is one, and what stands behind them. -/
def splitPoint : List Char → List Char × List Char
  | '.' :: rest => rest.span Char.isDigit
  | rest => ([], rest)

theorem splitPoint_chars {fraction : Option (List Char)} (hfraction : AreDigits (fraction.getD []))
    (exponent : Option ExponentPart) :
    splitPoint (fractionChars fraction ++ exponentChars exponent) =
      (fraction.getD [], exponentChars exponent) := by
  have hhead : ∀ c ∈ (exponentChars exponent).head?, c.isDigit = false := by
    intro c hc
    rcases head_exponentChars hc with rfl | rfl <;> rfl
  cases fraction with
  | some digits => exact span_digits hfraction hhead
  | none =>
    show splitPoint (exponentChars exponent) = _
    unfold splitPoint
    split
    · rename_i rest hrest
      have hpoint : '.' ∈ (exponentChars exponent).head? := by rw [hrest]; rfl
      rcases head_exponentChars hpoint with h | h <;> cases h
    · rfl

theorem readUnsigned_of_span {s whole rest fraction tail : List Char} (negative : Bool)
    (hwhole : s.span Char.isDigit = (whole, rest)) (hpoint : splitPoint rest = (fraction, tail)) :
    readUnsigned negative s = if whole.isEmpty && fraction.isEmpty then none else
      readTail (fun e => nearestDecimal negative (ofDigits (whole ++ fraction))
        (e - fraction.length)) tail := by
  have hread : readUnsigned negative s =
      let first := s.span Char.isDigit
      let second := splitPoint first.2
      if first.1.isEmpty && second.1.isEmpty then none
      else readTail (fun e => nearestDecimal negative (ofDigits (first.1 ++ second.1))
        (e - second.1.length)) second.2 := rfl
  rw [hread, hwhole]
  dsimp only
  rw [hpoint]

theorem span_magnitudeChars (n : Numeral) : n.magnitudeChars.span Char.isDigit =
    (n.whole, fractionChars n.fraction ++ exponentChars n.exponent) := by
  apply span_digits fun c hc => n.areDigits c (List.mem_append_left _ hc)
  intro c hc
  cases hn : n.fraction with
  | some digits =>
    rw [hn] at hc
    obtain rfl := Option.some.inj hc
    rfl
  | none =>
    rw [hn] at hc
    rcases head_exponentChars hc with rfl | rfl <;> rfl

theorem splitPoint_numeral (n : Numeral) :
    splitPoint (fractionChars n.fraction ++ exponentChars n.exponent) =
      (n.fraction.getD [], exponentChars n.exponent) :=
  splitPoint_chars (fun c hc => n.areDigits c (List.mem_append_right _ hc)) n.exponent

theorem readUnsigned_chars (n : Numeral) (negative : Bool) :
    readUnsigned negative n.magnitudeChars =
      some (nearestDecimal negative (ofDigits n.digits) n.unit) := by
  have hsome : (n.whole.isEmpty && (n.fraction.getD []).isEmpty) = false := by
    rw [Bool.eq_false_iff]
    simpa using n.nonempty
  rw [readUnsigned_of_span negative (span_magnitudeChars n) (splitPoint_numeral n), hsome,
    if_neg Bool.false_ne_true]
  exact readTail_chars _ n.exponent

theorem head_magnitudeChars (n : Numeral) :
    ∃ c rest, n.magnitudeChars = c :: rest ∧ (c.isDigit = true ∨ c = '.') := by
  obtain ⟨sign, whole, fraction, exponent, hdigits, hnonempty⟩ := n
  cases whole with
  | cons c whole => exact ⟨c, _, rfl, .inl (hdigits c List.mem_cons_self)⟩
  | nil =>
    cases fraction with
    | none => exact absurd rfl hnonempty
    | some digits => exact ⟨'.', _, rfl, .inr rfl⟩

theorem toLower_of_isDigit {c : Char} (h : c.isDigit = true) : c.toLower = c := by
  have hdigit : c.val ≤ '9'.val := by
    simp only [Char.isDigit, Bool.and_eq_true, decide_eq_true_eq] at h
    exact h.2
  rw [Char.toLower, dif_neg]
  intro hupper
  have hover : 'A'.val ≤ '9'.val := UInt32.le_trans hupper.1 hdigit
  exact absurd hover (by decide)

/-- A numeral is none of the words for an infinity or for NaN. -/
theorem word_ne (n : Numeral) {c : Char} {word : List Char} (hdigit : c.isDigit = false)
    (hpoint : c ≠ '.') :
    String.ofList (n.magnitudeChars.map Char.toLower) ≠ String.ofList (c :: word) := by
  obtain ⟨first, rest, hchars, hfirst⟩ := head_magnitudeChars n
  rw [hchars, List.map_cons, ne_eq, String.ofList_inj]
  intro hword
  obtain ⟨rfl, -⟩ := List.cons.inj hword
  rcases hfirst with hfirst | rfl
  · rw [toLower_of_isDigit hfirst, hfirst] at hdigit
    cases hdigit
  · exact hpoint rfl

theorem splitSign_numeral (n : Numeral) :
    splitSign n.chars = (n.sign.isMinus, n.magnitudeChars) := by
  apply splitSign_chars
  intro c hc
  obtain ⟨first, rest, hchars, hfirst⟩ := head_magnitudeChars n
  rw [hchars] at hc
  obtain rfl := Option.some.inj hc
  constructor <;> rintro rfl <;> rcases hfirst with h | h <;> cases h

theorem readFloat?_of_spells {s : String} {n : Numeral} (h : Spells s n) :
    readFloat? s = some (nearestDecimal n.sign.isMinus (ofDigits n.digits) n.unit) := by
  have hinf : String.ofList (n.magnitudeChars.map Char.toLower) ≠ "inf" :=
    word_ne n rfl (by decide)
  have hinfinity : String.ofList (n.magnitudeChars.map Char.toLower) ≠ "infinity" :=
    word_ne n rfl (by decide)
  have hnan : String.ofList (n.magnitudeChars.map Char.toLower) ≠ "nan" :=
    word_ne n rfl (by decide)
  rw [readFloat?, h, Option.bind_some, splitSign_numeral]
  simp [hinf, hinfinity, hnan, readUnsigned_chars]

theorem value_eq_of_exponentChars_eq {e f : Option ExponentPart}
    (h : exponentChars e = exponentChars f) :
    (e.map ExponentPart.value).getD 0 = (f.map ExponentPart.value).getD 0 := by
  cases e with
  | none =>
    cases f with
    | none => rfl
    | some q => cases h
  | some p =>
    cases f with
    | none => cases h
    | some q =>
      have htail : p.sign.chars ++ p.digits = q.sign.chars ++ q.digits := (List.cons.inj h).2
      have hread := readExponent_chars p
      rw [htail, readExponent_chars] at hread
      exact (Option.some.inj hread).symm

/-- What is read as a numeral stands for one number. -/
theorem Numeral.value_eq_of_chars_eq {n m : Numeral} (h : n.chars = m.chars) :
    n.value = m.value := by
  have hsign := splitSign_numeral n
  rw [h, splitSign_numeral] at hsign
  obtain ⟨hminus, hmagnitude⟩ := Prod.mk.inj hsign
  have hspan := span_magnitudeChars n
  rw [← hmagnitude, span_magnitudeChars] at hspan
  obtain ⟨hwhole, hrest⟩ := Prod.mk.inj hspan
  have hpoint := splitPoint_numeral n
  rw [← hrest, splitPoint_numeral] at hpoint
  obtain ⟨hfraction, hexponent⟩ := Prod.mk.inj hpoint
  have hunit := value_eq_of_exponentChars_eq hexponent
  simp only [Numeral.value, Numeral.magnitude, Numeral.unit, Numeral.digits, hminus, hwhole,
    hfraction, hunit]

/-! ### Rounding -/

theorem digits_bounds {digits : Nat} (h : 0 < digits) :
    (10 : ℚ) ^ ((Nat.toDigits 10 digits).length - 1 : Int) ≤ digits ∧
      (digits : ℚ) < 10 ^ ((Nat.toDigits 10 digits).length : Int) := by
  have hlength : 0 < (Nat.toDigits 10 digits).length := Nat.length_toDigits_pos
  generalize hcount : (Nat.toDigits 10 digits).length = count at hlength ⊢
  have hupper : digits < 10 ^ count :=
    (Nat.length_toDigits_le_iff (by decide) hlength).mp hcount.le
  obtain ⟨below, rfl⟩ : ∃ below, count = below + 1 := ⟨count - 1, by omega⟩
  have hlower : 10 ^ below ≤ digits := by
    rcases Nat.eq_zero_or_pos below with rfl | hbelow
    · exact h
    · by_contra hsmall
      have := (Nat.length_toDigits_le_iff (by decide) hbelow).mpr (Nat.not_le.mp hsmall)
      omega
  have hexponent : ((below + 1 : Nat) : Int) - 1 = below := by omega
  rw [hexponent, zpow_natCast, zpow_natCast]
  exact ⟨mod_cast hlower, mod_cast hupper⟩

theorem two_zpow_le_ten_zpow (a b : Nat) (h : 2 ^ a ≤ 10 ^ b) :
    (2 : ℚ) ^ (a : Int) ≤ 10 ^ (b : Int) := by
  rw [zpow_natCast, zpow_natCast]
  exact mod_cast h

/-- Decimals below this power of ten are nearer to zero than to any other double. -/
theorem ten_zpow_le_two_zpow : (10 : ℚ) ^ (-330 : Int) ≤ 2 ^ (-1075 : Int) := by
  have hpowers : 2 ^ 1075 ≤ 10 ^ 330 := by decide +kernel
  rw [zpow_neg, zpow_neg, inv_le_inv₀ (zpow_pos (by decide) _) (zpow_pos two_pos _)]
  exact two_zpow_le_ten_zpow 1075 330 hpowers

theorem overflowBound_le_ten_zpow : overflowBound ≤ 10 ^ (330 : Int) := by
  have hpowers : 2 ^ 1024 ≤ 10 ^ 330 := by decide +kernel
  exact overflowBound_lt.le.trans (two_zpow_le_ten_zpow 1024 330 hpowers)

theorem decimal_le {digits : Nat} {exponent : Int}
    (h : digits = 0 ∨ (Nat.toDigits 10 digits).length + exponent < -330) :
    (digits : ℚ) * 10 ^ exponent ≤ 10 ^ (-330 : Int) := by
  rcases Nat.eq_zero_or_pos digits with rfl | hdigits
  · rw [Nat.cast_zero, zero_mul]
    positivity
  · have hpoint := h.resolve_left hdigits.ne'
    calc (digits : ℚ) * 10 ^ exponent
        ≤ 10 ^ ((Nat.toDigits 10 digits).length : Int) * 10 ^ exponent :=
          mul_le_mul_of_nonneg_right (digits_bounds hdigits).2.le (by positivity)
      _ = 10 ^ ((Nat.toDigits 10 digits).length + exponent) :=
          (zpow_add₀ (by decide) _ _).symm
      _ ≤ 10 ^ (-330 : Int) := zpow_le_zpow_right₀ (by decide) hpoint.le

theorem le_decimal {digits : Nat} {exponent : Int} (hdigits : 0 < digits)
    (h : 330 < (Nat.toDigits 10 digits).length + exponent) :
    (10 : ℚ) ^ (330 : Int) ≤ digits * 10 ^ exponent := by
  calc (10 : ℚ) ^ (330 : Int)
      ≤ 10 ^ ((Nat.toDigits 10 digits).length - 1 + exponent) :=
        zpow_le_zpow_right₀ (by decide) (by omega)
    _ = 10 ^ ((Nat.toDigits 10 digits).length - 1 : Int) * 10 ^ exponent :=
        zpow_add₀ (by decide) _ _
    _ ≤ digits * 10 ^ exponent :=
        mul_le_mul_of_nonneg_right (digits_bounds hdigits).1 (by positivity)

/-- A decimal that is not too large is read as a double with its sign that is the decimal up to
rounding. -/
theorem nearestDecimal_rounded (negative : Bool) (digits : Nat) (exponent : Int)
    (hfits : (digits : ℚ) * 10 ^ exponent < overflowBound) :
    ∃ b, Binary.ofFloat? (nearestDecimal negative digits exponent) = some b ∧
      b.negative = negative ∧ IsRounded b.magnitude (digits * 10 ^ exponent) := by
  unfold nearestDecimal
  dsimp only
  split_ifs with hsmall hlarge
  · obtain ⟨b, hb, hnegative, hmagnitude⟩ := nearestFloat_zero negative 1
    refine ⟨b, hb, hnegative, fun k hk _ => ?_⟩
    have hdecimal : (0 : ℚ) ≤ digits * 10 ^ exponent := by positivity
    rw [hmagnitude, zero_sub, abs_neg, abs_of_nonneg hdecimal]
    calc (digits : ℚ) * 10 ^ exponent ≤ 10 ^ (-330 : Int) := decimal_le hsmall
      _ ≤ 2 ^ (-1075 : Int) := ten_zpow_le_two_zpow
      _ ≤ 2 ^ (k - 53) := zpow_le_zpow_right₀ one_le_two (by omega)
  · have hdigits : 0 < digits := by omega
    exact absurd (overflowBound_le_ten_zpow.trans (le_decimal hdigits hlarge)) hfits.not_ge
  · have hquotient : (digits : ℚ) * 10 ^ exponent =
        (digits * Nat.pow 10 exponent.toNat : Nat) / (Nat.pow 10 (-exponent).toNat : Nat) := by
      rw [zpow_eq_div (by decide)]
      push_cast [Nat.pow_eq]
      ring
    rw [hquotient] at hfits ⊢
    exact nearestFloat_rounded negative _ (Nat.pow_pos (by decide)) hfits

theorem nearestDecimal_le_zero (digits : Nat) (exponent : Int) :
    nearestDecimal true digits exponent ≤ 0.0 := by
  unfold nearestDecimal
  dsimp only
  split_ifs
  · exact nearestFloat_le_zero 0 one_pos
  · exact nearestFloat_le_zero _ one_pos
  · exact nearestFloat_le_zero _ (Nat.pow_pos (by decide))

variable {s : String} {n : Numeral}

theorem readFloat?_rounded (h : Spells s n) (hfits : n.magnitude < overflowBound) :
    ∃ x b, readFloat? s = some x ∧ Binary.ofFloat? x = some b ∧ IsRounded b.value n.value := by
  obtain ⟨b, hb, hnegative, hrounded⟩ := nearestDecimal_rounded n.sign.isMinus _ _ hfits
  refine ⟨_, b, readFloat?_of_spells h, hb, ?_⟩
  rw [Numeral.value, Binary.value, hnegative]
  split_ifs
  · exact hrounded.neg
  · exact hrounded

theorem readFloat?_le_zero (h : Spells s n) (hvalue : n.value ≤ 0) :
    ∃ x, readFloat? s = some x ∧ x ≤ 0.0 := by
  refine ⟨_, readFloat?_of_spells h, ?_⟩
  rw [Numeral.value] at hvalue
  cases hsign : n.sign.isMinus with
  | true => exact nearestDecimal_le_zero _ _
  | false =>
    rw [hsign, if_neg Bool.false_ne_true, Numeral.magnitude] at hvalue
    have hdigits : ofDigits n.digits = 0 := by
      by_contra hdigits
      have hpositive : (0 : ℚ) < ofDigits n.digits := by
        exact mod_cast Nat.pos_of_ne_zero hdigits
      have : (0 : ℚ) < ofDigits n.digits * 10 ^ n.unit := by positivity
      exact absurd hvalue this.not_ge
    obtain ⟨b, hb, -, hmagnitude⟩ := nearestFloat_zero false 1
    rw [hdigits, nearestDecimal, if_pos (.inl rfl), le_zero_iff hb, Binary.value, hmagnitude]
    simp

end TradingRules.Number
