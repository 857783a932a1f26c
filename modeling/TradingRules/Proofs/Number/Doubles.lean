import Mathlib
import TradingRules.Number.Binary

/-!
# Doubles in order

Every double but NaN stands for an exact rational number or for an infinity. One double is less than
another exactly if its exact value is less, so that NaN is never less or greater.
-/

namespace TradingRules.Number

open Float.Model (UnpackedFloat)
open Float.Model.UnpackedFloat (Sign)

def Binary.magnitude (b : Binary) : ℚ :=
  b.significand * 2 ^ b.exponent

def Binary.value (b : Binary) : ℚ :=
  if b.negative then -b.magnitude else b.magnitude

/-- The exact value of a double, with infinities at both ends; NaN has none. -/
def exactValue? (x : Float) : Option (WithBot (WithTop ℚ)) :=
  match Binary.ofFloat? x with
  | some b => some ((b.value : WithTop ℚ) : WithBot (WithTop ℚ))
  | none => if x.isNaN then none else some (if x < 0.0 then ⊥ else ⊤)

/-! ### Unpacked doubles -/

def Binary.ofUnpacked? : UnpackedFloat → Option Binary
  | .finite s m e _ => some ⟨s == .negative, m, e⟩
  | .zero s => some ⟨s == .negative, 0, -1074⟩
  | _ => none

theorem toNat_append_one {n : Nat} (m : BitVec n) : (1#1 ++ m).toNat = m.toNat + 2 ^ n := by
  rw [BitVec.toNat_append, ← Nat.shiftLeft_add_eq_or_of_lt m.isLt, Nat.shiftLeft_eq]
  simp [Nat.add_comm]

theorem ofBitVec_beq_negative (s : BitVec 1) : (Sign.ofBitVec s == .negative) = (s.toNat == 1) := by
  revert s
  decide

/-- The bits that a double is decoded from are those it is unpacked from. -/
theorem Binary.ofFloat?_eq_ofUnpacked? (x : Float) :
    Binary.ofFloat? x = Binary.ofUnpacked? x.toModel.unpack := by
  let bits : BitVec Float.Model.Format.binary64.numBits := x.toModel.toBits.toBitVec
  have hbits : x.toBits.toNat = bits.toNat := rfl
  have hlt : bits.toNat < 2 ^ 64 := bits.isLt
  have hsign : (UnpackedFloat.unpackSign bits).toNat = bits.toNat / 2 ^ 63 := by
    simp [UnpackedFloat.unpackSign, Nat.shiftRight_eq_div_pow]
    omega
  have hexponent : (UnpackedFloat.unpackExponent bits).toNat = bits.toNat / 2 ^ 52 % 2 ^ 11 := by
    simp [UnpackedFloat.unpackExponent, Nat.shiftRight_eq_div_pow]
  have hmantissa : (UnpackedFloat.unpackMantissa bits).toNat = bits.toNat % 2 ^ 52 := by
    simp [UnpackedFloat.unpackMantissa]
  have hunpack : x.toModel.unpack = UnpackedFloat.unpack .binary64 bits := rfl
  simp only [Binary.ofFloat?, hbits, Nat.pow_eq, ← hsign, ← hexponent, ← hmantissa, hunpack,
    UnpackedFloat.unpack, ← ofBitVec_beq_negative]
  have hbias : ((Float.Model.Format.binary64.exponentBias : Nat) : Int) = 1023 := rfl
  have hspecial : UnpackedFloat.unpackExponent bits = -1#_ ↔
      (UnpackedFloat.unpackExponent bits).toNat = 2047 := BitVec.toNat_inj.symm
  have hleast : UnpackedFloat.unpackExponent bits = 0#_ ↔
      (UnpackedFloat.unpackExponent bits).toNat = 0 := BitVec.toNat_inj.symm
  have hzero : UnpackedFloat.unpackMantissa bits = 0#_ ↔
      (UnpackedFloat.unpackMantissa bits).toNat = 0 := BitVec.toNat_inj.symm
  by_cases h2047 : (UnpackedFloat.unpackExponent bits).toNat = 2047
  · rw [if_pos h2047, if_pos (hspecial.mpr h2047)]
    split <;> rfl
  · rw [if_neg h2047, if_neg (mt hspecial.mp h2047)]
    by_cases h0 : (UnpackedFloat.unpackExponent bits).toNat = 0
    · rw [if_pos h0, if_pos (hleast.mpr h0)]
      split
      · rename_i hm0
        simp [Binary.ofUnpacked?, hzero.mp hm0]
      · simp [Binary.ofUnpacked?, h0, hbias]
    · rw [if_neg h0, if_neg (mt hleast.mp h0)]
      simp only [Binary.ofUnpacked?, toNat_append_one, hbias]
      norm_num

/-! ### Canonical fractions -/

/-- The forms that doubles are decoded to: a significand has 53 bits, unless the exponent is the
least one. -/
structure Binary.Canonical (b : Binary) : Prop where
  bound : b.significand < 2 ^ 53
  least : -1074 ≤ b.exponent
  normal : -1074 < b.exponent → 2 ^ 52 ≤ b.significand

theorem Binary.canonical_of_ofFloat? {x : Float} {b : Binary} (h : ofFloat? x = some b) :
    b.Canonical := by
  have hfraction := Nat.mod_lt x.toBits.toNat (Nat.two_pow_pos 52)
  simp only [ofFloat?, Nat.pow_eq] at h
  split at h
  · cases h
  · split at h
    · cases h
      exact ⟨by dsimp only; omega, le_rfl, fun h => absurd h (lt_irrefl _)⟩
    · cases h
      exact ⟨by dsimp only; omega, by dsimp only; omega, fun _ => by dsimp only; omega⟩

namespace Binary

variable {a b : Binary}

theorem magnitude_lt_of_exponent_lt (ha : a.Canonical) (hb : b.Canonical)
    (h : a.exponent < b.exponent) : a.magnitude < b.magnitude := by
  have hsmall : (a.significand : ℚ) < 2 ^ 53 := mod_cast ha.bound
  have hlarge : (2 : ℚ) ^ 52 ≤ b.significand := mod_cast hb.normal (ha.least.trans_lt h)
  calc a.magnitude < 2 ^ 53 * 2 ^ a.exponent :=
        mul_lt_mul_of_pos_right hsmall (by positivity)
    _ = 2 ^ 52 * 2 ^ (a.exponent + 1) := by rw [zpow_add_one₀ two_ne_zero]; ring
    _ ≤ 2 ^ 52 * 2 ^ b.exponent :=
        mul_le_mul_of_nonneg_left (zpow_le_zpow_right₀ one_le_two h) (by positivity)
    _ ≤ b.magnitude := mul_le_mul_of_nonneg_right hlarge (by positivity)

theorem magnitude_lt_of_significand_lt (he : a.exponent = b.exponent)
    (h : a.significand < b.significand) : a.magnitude < b.magnitude := by
  rw [magnitude, magnitude, he]
  exact mul_lt_mul_of_pos_right (mod_cast h) (by positivity)

/-- Canonical fractions are compared by their exponents first. -/
theorem compare_then_compare (ha : a.Canonical) (hb : b.Canonical) :
    (compare a.exponent b.exponent).then (compare a.significand b.significand) =
      compare a.magnitude b.magnitude := by
  rcases lt_trichotomy a.exponent b.exponent with he | he | he
  · rw [compare_lt_iff_lt.mpr he, compare_lt_iff_lt.mpr (magnitude_lt_of_exponent_lt ha hb he)]
    rfl
  · rw [compare_eq_iff_eq.mpr he]
    rcases lt_trichotomy a.significand b.significand with hs | hs | hs
    · rw [compare_lt_iff_lt.mpr hs, compare_lt_iff_lt.mpr (magnitude_lt_of_significand_lt he hs)]
      rfl
    · have hmagnitude : a.magnitude = b.magnitude := by rw [magnitude, magnitude, he, hs]
      rw [compare_eq_iff_eq.mpr hs, compare_eq_iff_eq.mpr hmagnitude]
      rfl
    · rw [compare_gt_iff_gt.mpr hs,
        compare_gt_iff_gt.mpr (magnitude_lt_of_significand_lt he.symm hs)]
      rfl
  · rw [compare_gt_iff_gt.mpr he, compare_gt_iff_gt.mpr (magnitude_lt_of_exponent_lt hb ha he)]
    rfl

theorem value_of_negative (h : b.negative = true) : b.value = -b.magnitude := by
  simp [value, h]

theorem value_of_positive (h : b.negative = false) : b.value = b.magnitude := by
  simp [value, h]

theorem value_of_zero (h : b.significand = 0) : b.value = 0 := by
  simp [value, magnitude, h]

theorem magnitude_pos (h : 0 < b.significand) : 0 < b.magnitude := by
  have : (0 : ℚ) < b.significand := mod_cast h
  unfold magnitude
  positivity

theorem value_neg (hnegative : b.negative = true) (h : 0 < b.significand) : b.value < 0 := by
  rw [value_of_negative hnegative]
  exact neg_lt_zero.mpr (magnitude_pos h)

theorem value_pos (hpositive : b.negative = false) (h : 0 < b.significand) : 0 < b.value := by
  rw [value_of_positive hpositive]
  exact magnitude_pos h

end Binary

/-! ### Comparison -/

theorem compare_neg_neg (x y : ℚ) : compare (-x) (-y) = (compare x y).swap := by
  rcases lt_trichotomy x y with h | h | h
  · rw [compare_lt_iff_lt.mpr h, compare_gt_iff_gt.mpr (neg_lt_neg h)]
    rfl
  · rw [compare_eq_iff_eq.mpr h, compare_eq_iff_eq.mpr (congrArg Neg.neg h)]
    rfl
  · rw [compare_gt_iff_gt.mpr h, compare_lt_iff_lt.mpr (neg_lt_neg h)]
    rfl

/-- Finite doubles are compared by their exact values. -/
theorem compare_of_ofUnpacked? {u v : UnpackedFloat} {a b : Binary}
    (hu : Binary.ofUnpacked? u = some a) (hv : Binary.ofUnpacked? v = some b) (ha : a.Canonical)
    (hb : b.Canonical) : u.compare v = some (compare a.value b.value) := by
  have hlex := Binary.compare_then_compare ha hb
  have hlt : a.value < b.value → some .lt = some (compare a.value b.value) :=
    fun h => by rw [compare_lt_iff_lt.mpr h]
  have hgt : b.value < a.value → some .gt = some (compare a.value b.value) :=
    fun h => by rw [compare_gt_iff_gt.mpr h]
  cases u with
  | infinity s | notANumber => cases hu
  | zero s =>
    obtain rfl := Option.some.inj hu
    have hzero : Binary.value ⟨s == .negative, 0, -1074⟩ = 0 := Binary.value_of_zero rfl
    cases v with
    | infinity t | notANumber => cases hv
    | zero t =>
      obtain rfl := Option.some.inj hv
      have hzero' : Binary.value ⟨t == .negative, 0, -1074⟩ = 0 := Binary.value_of_zero rfl
      rw [hzero, hzero', compare_eq_iff_eq.mpr rfl]
      rfl
    | finite t n f hn =>
      obtain rfl := Option.some.inj hv
      cases t with
      | negative => exact hgt (hzero ▸ Binary.value_neg rfl hn)
      | positive => exact hlt (hzero ▸ Binary.value_pos rfl hn)
  | finite s m e hm =>
    obtain rfl := Option.some.inj hu
    cases v with
    | infinity t | notANumber => cases hv
    | zero t =>
      obtain rfl := Option.some.inj hv
      have hzero : Binary.value ⟨t == .negative, 0, -1074⟩ = 0 := Binary.value_of_zero rfl
      cases s with
      | negative => exact hlt (hzero ▸ Binary.value_neg rfl hm)
      | positive => exact hgt (hzero ▸ Binary.value_pos rfl hm)
    | finite t n f hn =>
      obtain rfl := Option.some.inj hv
      cases s with
      | negative =>
        cases t with
        | negative =>
          rw [Binary.value_of_negative rfl, Binary.value_of_negative rfl, compare_neg_neg, ← hlex]
          rfl
        | positive => exact hlt ((Binary.value_neg rfl hm).trans (Binary.value_pos rfl hn))
      | positive =>
        cases t with
        | negative => exact hgt ((Binary.value_neg rfl hn).trans (Binary.value_pos rfl hm))
        | positive =>
          rw [Binary.value_of_positive rfl, Binary.value_of_positive rfl, ← hlex]
          rfl

theorem lt_iff_compare (x y : Float) :
    x < y ↔ x.toModel.unpack.compare y.toModel.unpack = some .lt := by
  have h : x < y ↔ (x.toModel.unpack.compare y.toModel.unpack == some .lt) = true := by
    show decide (x.toModel < y.toModel) = true ↔ _
    rw [decide_eq_true_iff]
    rfl
  rw [h, beq_iff_eq]

theorem le_iff_compare (x y : Float) :
    x ≤ y ↔ (x.toModel.unpack.compare y.toModel.unpack).any (·.isLE) = true := by
  show decide (x.toModel ≤ y.toModel) = true ↔ _
  rw [decide_eq_true_iff]
  rfl

/-- What an unpacked double stands for. -/
inductive Denotes (u : UnpackedFloat) : Option (WithBot (WithTop ℚ)) → Prop
  | nothing (h : u = .notANumber) : Denotes u none
  | bottom (h : u = .infinity .negative) : Denotes u (some ⊥)
  | top (h : u = .infinity .positive) : Denotes u (some ⊤)
  | finite {b : Binary} (h : Binary.ofUnpacked? u = some b) (hb : b.Canonical) :
      Denotes u (some ((b.value : WithTop ℚ) : WithBot (WithTop ℚ)))

theorem denotes_exactValue? (x : Float) : Denotes x.toModel.unpack (exactValue? x) := by
  have hbinary := Binary.ofFloat?_eq_ofUnpacked? x
  cases hb : Binary.ofFloat? x with
  | some b =>
    have hexact : exactValue? x = some ((b.value : WithTop ℚ) : WithBot (WithTop ℚ)) := by
      simp [exactValue?, hb]
    rw [hexact]
    exact .finite (hbinary ▸ hb) (Binary.canonical_of_ofFloat? hb)
  | none =>
    rw [hb] at hbinary
    have hzero : (0.0 : Float).toModel.unpack = .zero .positive := by with_unfolding_all rfl
    have hneg := lt_iff_compare x 0.0
    have hnan : x.isNaN = x.toModel.unpack.isNaN := rfl
    rw [hzero] at hneg
    rw [exactValue?, hb, hnan]
    generalize x.toModel.unpack = u at *
    cases u with
    | finite s m e hm => cases hbinary
    | zero s => cases hbinary
    | notANumber => exact .nothing rfl
    | infinity s =>
      cases s with
      | negative =>
        rw [if_neg (by simp [UnpackedFloat.isNaN]), if_pos (hneg.mpr rfl)]
        exact .bottom rfl
      | positive =>
        rw [if_neg (by simp [UnpackedFloat.isNaN]), if_neg (fun h => nomatch hneg.mp h)]
        exact .top rfl

theorem compare_infinities {u : UnpackedFloat} {b : Binary} (h : Binary.ofUnpacked? u = some b) :
    (UnpackedFloat.infinity .negative).compare u = some .lt ∧
      (UnpackedFloat.infinity .positive).compare u = some .gt ∧
      u.compare (.infinity .negative) = some .gt ∧ u.compare (.infinity .positive) = some .lt := by
  cases u with
  | infinity s | notANumber => cases h
  | zero s => exact ⟨rfl, rfl, rfl, rfl⟩
  | finite s m e hm => cases s <;> exact ⟨rfl, rfl, rfl, rfl⟩

theorem compare_notANumber (u : UnpackedFloat) : u.compare .notANumber = none := by
  cases u with
  | infinity s => cases s <;> rfl
  | notANumber => rfl
  | zero s => rfl
  | finite s m e hm => cases s <;> rfl

/-- A double is less than another exactly if its exact value is. -/
theorem lt_iff (x y : Float) :
    x < y ↔ ∃ a b, exactValue? x = some a ∧ exactValue? y = some b ∧ a < b := by
  rw [lt_iff_compare]
  have hx := denotes_exactValue? x
  have hy := denotes_exactValue? y
  generalize x.toModel.unpack = u at *
  generalize y.toModel.unpack = v at *
  generalize exactValue? x = a at *
  generalize exactValue? y = b at *
  cases hy with
  | nothing h => simp [h, compare_notANumber]
  | bottom h =>
    subst h
    cases hx with
    | nothing h => simp [h, UnpackedFloat.compare]
    | bottom h => simp [h, UnpackedFloat.compare, compare]
    | top h => simp [h, UnpackedFloat.compare, compare]
    | finite h ha => simp [compare_infinities h]
  | top h =>
    subst h
    cases hx with
    | nothing h => simp [h, UnpackedFloat.compare]
    | bottom h => simp [h, UnpackedFloat.compare, compare]
    | top h => simp [h, UnpackedFloat.compare, compare]
    | finite h ha =>
      simpa [compare_infinities h] using WithBot.coe_lt_coe.mpr (WithTop.coe_lt_top _)
  | @finite b h hb =>
    cases hx with
    | nothing h => simp [h, UnpackedFloat.compare]
    | bottom h' => simp [h', compare_infinities h]
    | top h' => simp [h', compare_infinities h]
    | finite h' ha =>
      rw [compare_of_ofUnpacked? h' h ha hb]
      simp [compare_lt_iff_lt]

theorem lt_irrefl (x : Float) : ¬x < x := by
  rw [lt_iff]
  rintro ⟨a, b, ha, hb, hlt⟩
  obtain rfl : a = b := Option.some.inj (ha.symm.trans hb)
  exact hlt.ne rfl

theorem lt_trans {x y z : Float} (hxy : x < y) (hyz : y < z) : x < z := by
  obtain ⟨a, b, ha, hb, hab⟩ := (lt_iff x y).mp hxy
  obtain ⟨b', c, hb', hc, hbc⟩ := (lt_iff y z).mp hyz
  obtain rfl : b = b' := Option.some.inj (hb.symm.trans hb')
  exact (lt_iff x z).mpr ⟨a, c, ha, hc, hab.trans hbc⟩

theorem exactValue?_eq_none_iff (x : Float) : exactValue? x = none ↔ x.isNaN = true := by
  have hx := denotes_exactValue? x
  have hnan : x.isNaN = x.toModel.unpack.isNaN := rfl
  rw [hnan]
  generalize x.toModel.unpack = u at *
  generalize exactValue? x = a at *
  cases hx with
  | nothing h => simp [h, UnpackedFloat.isNaN]
  | bottom h => simp [h, UnpackedFloat.isNaN]
  | top h => simp [h, UnpackedFloat.isNaN]
  | finite h hb =>
    cases u with
    | notANumber => cases h
    | infinity s | zero s | finite s m e hm => simp [UnpackedFloat.isNaN]

theorem not_lt_of_isNaN {x y : Float} (h : x.isNaN = true ∨ y.isNaN = true) : ¬x < y := by
  rw [lt_iff]
  rintro ⟨a, b, ha, hb, -⟩
  rcases h with h | h
  · simp [(exactValue?_eq_none_iff x).mpr h] at ha
  · simp [(exactValue?_eq_none_iff y).mpr h] at hb

theorem exactValue?_eq_top_iff (x : Float) :
    exactValue? x = some ⊤ ↔ x.toModel.unpack = .infinity .positive := by
  have hx := denotes_exactValue? x
  generalize x.toModel.unpack = u at *
  generalize exactValue? x = a at *
  cases hx with
  | nothing h => simp [h]
  | bottom h => simp [h]
  | top h => simp [h]
  | @finite b h hb =>
    have hfinite : (((b.value : WithTop ℚ) : WithBot (WithTop ℚ))) ≠ ⊤ :=
      (WithBot.coe_lt_coe.mpr (WithTop.coe_lt_top b.value)).ne
    refine ⟨fun heq => absurd (Option.some.inj heq) hfinite, ?_⟩
    rintro rfl
    cases h

theorem not_lt_of_top {x : Float} (h : exactValue? x = some ⊤) (y : Float) : ¬x < y := by
  rw [lt_iff]
  rintro ⟨a, b, ha, -, hlt⟩
  rw [h] at ha
  exact not_top_lt (Option.some.inj ha ▸ hlt)

theorem lt_top_of_isFinite {x y : Float} (hx : x.isFinite = true) (hy : exactValue? y = some ⊤) :
    x < y := by
  rw [lt_iff_compare, (exactValue?_eq_top_iff y).mp hy]
  have hfinite : x.toModel.unpack.isFinite = true := hx
  cases hu : x.toModel.unpack with
  | zero s => rfl
  | finite s m e hm => cases s <;> rfl
  | notANumber | infinity s => simp [hu, UnpackedFloat.isFinite] at hfinite

/-! ### Arithmetic without a number -/

theorem isNaN_iff_unpack (x : Float) : x.isNaN = true ↔ x.toModel.unpack = .notANumber := by
  show x.toModel.unpack.isNaN = true ↔ _
  exact UnpackedFloat.isNaN_iff

theorem not_le_of_isNaN {x y : Float} (h : x.isNaN = true ∨ y.isNaN = true) : ¬x ≤ y := by
  rw [isNaN_iff_unpack, isNaN_iff_unpack] at h
  rw [le_iff_compare]
  rcases h with h | h
  · rw [h]
    exact Bool.false_ne_true
  · rw [h, compare_notANumber]
    exact Bool.false_ne_true

theorem unpack_pack_notANumber : (Float.Model.pack .notANumber).unpack = .notANumber := by
  with_unfolding_all rfl

theorem unpack_pack_infinity (s : Sign) :
    (Float.Model.pack (.infinity s)).unpack = .infinity s := by
  cases s <;> with_unfolding_all rfl

theorem unpack_add (x y : Float) : (x + y).toModel.unpack =
    (Float.Model.pack (.add .binary64 x.toModel.unpack y.toModel.unpack)).unpack := rfl

theorem unpack_sub (x y : Float) : (x - y).toModel.unpack =
    (Float.Model.pack (.sub .binary64 x.toModel.unpack y.toModel.unpack)).unpack := rfl

theorem isNaN_add {x y : Float} (h : x.isNaN = true ∨ y.isNaN = true) : (x + y).isNaN = true := by
  have hsum : UnpackedFloat.add .binary64 x.toModel.unpack y.toModel.unpack = .notANumber := by
    rcases h with h | h
    · rw [(isNaN_iff_unpack x).mp h]
      rfl
    · rw [(isNaN_iff_unpack y).mp h]
      cases x.toModel.unpack <;> rfl
  rw [isNaN_iff_unpack, unpack_add, hsum, unpack_pack_notANumber]

theorem isNaN_sub {x y : Float} (h : x.isNaN = true ∨ y.isNaN = true) : (x - y).isNaN = true := by
  have hdifference : UnpackedFloat.sub .binary64 x.toModel.unpack y.toModel.unpack =
      .notANumber := by
    rcases h with h | h
    · rw [(isNaN_iff_unpack x).mp h]
      rfl
    · rw [(isNaN_iff_unpack y).mp h]
      cases x.toModel.unpack <;> rfl
  rw [isNaN_iff_unpack, unpack_sub, hdifference, unpack_pack_notANumber]

theorem isFinite_eq_unpack (x : Float) : x.isFinite = x.toModel.unpack.isFinite := rfl

/-- What is added to an infinity or to NaN never makes it finite. -/
theorem isFinite_add {x : Float} (h : x.isFinite = false) (y : Float) :
    (x + y).isFinite = false := by
  rw [isFinite_eq_unpack] at h
  rw [isFinite_eq_unpack, unpack_add]
  generalize x.toModel.unpack = u at *
  generalize y.toModel.unpack = v at *
  cases u with
  | zero s | finite s m e hm => cases h
  | notANumber =>
    have hsum : UnpackedFloat.add .binary64 .notANumber v = .notANumber := rfl
    rw [hsum, unpack_pack_notANumber]
    rfl
  | infinity s =>
    have hsum : UnpackedFloat.add .binary64 (.infinity s) v = .notANumber ∨
        UnpackedFloat.add .binary64 (.infinity s) v = .infinity s := by
      cases v with
      | notANumber => exact .inl rfl
      | zero t | finite t n f hn => exact .inr rfl
      | infinity t => cases s <;> cases t <;> simp [UnpackedFloat.add]
    rcases hsum with hsum | hsum
    · rw [hsum, unpack_pack_notANumber]
      rfl
    · rw [hsum, unpack_pack_infinity]
      rfl

theorem isFinite_of_top {x : Float} (h : exactValue? x = some ⊤) : x.isFinite = false := by
  rw [isFinite_eq_unpack, (exactValue?_eq_top_iff x).mp h]
  rfl

theorem exactValue?_add_top {x y : Float} (hx : x.isFinite = true) (hy : exactValue? y = some ⊤) :
    exactValue? (x + y) = some ⊤ := by
  rw [isFinite_eq_unpack] at hx
  rw [exactValue?_eq_top_iff] at hy ⊢
  have hsum : UnpackedFloat.add .binary64 x.toModel.unpack (.infinity .positive) =
      .infinity .positive := by
    cases hu : x.toModel.unpack with
    | zero s | finite s m e hm => rfl
    | notANumber | infinity s => simp [hu, UnpackedFloat.isFinite] at hx
  rw [unpack_add, hy, hsum, unpack_pack_infinity]

theorem exactValue?_top_sub {x y : Float} (hx : exactValue? x = some ⊤) (hy : y.isFinite = true) :
    exactValue? (x - y) = some ⊤ := by
  rw [isFinite_eq_unpack] at hy
  rw [exactValue?_eq_top_iff] at hx ⊢
  have hdifference : UnpackedFloat.sub .binary64 (.infinity .positive) y.toModel.unpack =
      .infinity .positive := by
    cases hu : y.toModel.unpack with
    | zero s | finite s m e hm => rfl
    | notANumber | infinity s => simp [hu, UnpackedFloat.isFinite] at hy
  rw [unpack_sub, hx, hdifference, unpack_pack_infinity]

end TradingRules.Number
