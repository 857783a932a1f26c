import TradingRules.Proofs.Number.Doubles
import TradingRules.Value.Arithmetic

/-!
# Values asked for a number

A value that is asked for a double or a whole number can fail in three ways: it is of a kind that is
no number, it is a number that does not fit, or it is a text, or NaN, that denotes none. The first
two are about the shape of the value, and the last one about what it says.
-/

namespace TradingRules

theorem isFinite_nan : nan.isFinite = false := by decide

namespace Value

open Float.Model (UnpackedFloat)

/-- Null, lists and objects are no numbers, and are never read as one. -/
def IsNoNumber : Value → Prop
  | .null | .list _ | .object _ => True
  | _ => False

/-- A whole number that is too large for a double. -/
def ExceedsDoubles : Value → Prop
  | .int n => Number.floatOfInt? n = none
  | _ => False

/-- An infinity, which is no whole number. -/
def ExceedsWholes : Value → Prop
  | .real x => x.isInf = true
  | _ => False

/-- What a value gives that is asked for a number: the number, or a fault about its kind, its size,
or what it says. -/
inductive Reading {α : Type} (kind size : Prop) : Outcome α → Prop
  | number (x : α) (hkind : ¬kind) (hsize : ¬size) : Reading kind size (.ok x)
  | ofKind (message : String) (hkind : kind) (hsize : ¬size) :
      Reading kind size (.error (.wrongKind message))
  | ofSize (message : String) (hkind : ¬kind) (hsize : size) :
      Reading kind size (.error (.overflow message))
  | unreadable (message : String) (hkind : ¬kind) (hsize : ¬size) :
      Reading kind size (.error (.badValue message))

theorem isSome_floatOfInt?_of_bool (b : Bool) :
    (Number.floatOfInt? (if b then 1 else 0)).isSome = true := by
  revert b
  decide +kernel

theorem toFloat_int_of_some {n : Int} {x : Float} (h : Number.floatOfInt? n = some x) :
    (int n).toFloat = .ok x := by
  simp only [toFloat, numeric?, Numeric.toFloat, h]

theorem toFloat_int_of_none {n : Int} (h : Number.floatOfInt? n = none) :
    (int n).toFloat = .error .tooLargeForFloat := by
  simp only [toFloat, numeric?, Numeric.toFloat, h]

theorem toFloat_int_eq_ok_iff {n : Int} {x : Float} :
    (int n).toFloat = .ok x ↔ Number.floatOfInt? n = some x := by
  cases h : Number.floatOfInt? n with
  | none => simp [toFloat_int_of_none h]
  | some y => simp [toFloat_int_of_some h]

theorem toFloat_text_of_some {s : String} {x : Float} (h : Number.readFloat? s = some x) :
    (text s).toFloat = .ok x := by
  simp only [toFloat, numeric?, h]

theorem toFloat_text_of_none {s : String} (h : Number.readFloat? s = none) :
    ∃ message, (text s).toFloat = .error (.badValue message) := by
  simp only [toFloat, numeric?, h]
  exact ⟨_, rfl⟩

theorem reading_toFloat (v : Value) : Reading v.IsNoNumber v.ExceedsDoubles v.toFloat := by
  cases v with
  | null | list | object => exact .ofKind _ trivial id
  | real x => exact .number x id id
  | undefined m => exact .number nan id id
  | bool b =>
    obtain ⟨x, hx⟩ := Option.isSome_iff_exists.mp (isSome_floatOfInt?_of_bool b)
    have hread : (bool b).toFloat = .ok x := toFloat_int_of_some hx
    rw [hread]
    exact .number x id id
  | int n =>
    cases hn : Number.floatOfInt? n with
    | some x =>
      rw [toFloat_int_of_some hn]
      exact .number x id (by simp [ExceedsDoubles, hn])
    | none =>
      rw [toFloat_int_of_none hn]
      exact .ofSize _ id hn
  | text s =>
    cases hs : Number.readFloat? s with
    | some x =>
      rw [toFloat_text_of_some hs]
      exact .number x id id
    | none =>
      obtain ⟨message, hread⟩ := toFloat_text_of_none hs
      rw [hread]
      exact .unreadable message id id

theorem reading_toInt (v : Value) : Reading v.IsNoNumber v.ExceedsWholes v.toInt := by
  cases v with
  | null | list | object => exact .ofKind _ trivial id
  | bool b => exact .number _ id id
  | int n => exact .number n id id
  | undefined m => exact .unreadable _ id id
  | text s =>
    rw [toInt]
    cases Number.readWhole s with
    | ok n => exact .number n id id
    | error e => cases e <;> exact .unreadable _ id id
  | real x =>
    have hinf : x.isInf = x.toModel.unpack.isInf := rfl
    have hnan : x.isNaN = x.toModel.unpack.isNaN := rfl
    rw [toInt, ExceedsWholes, Number.truncate?, Number.Binary.ofFloat?_eq_ofUnpacked?, hinf, hnan]
    cases x.toModel.unpack with
    | finite s m e hm => exact .number _ id Bool.false_ne_true
    | zero s => exact .number _ id Bool.false_ne_true
    | infinity s => exact .ofSize _ id rfl
    | notANumber => exact .unreadable _ id Bool.false_ne_true

end Value

end TradingRules
