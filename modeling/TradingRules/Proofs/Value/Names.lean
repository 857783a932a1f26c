import Mathlib.Tactic.Common
import TradingRules.Value.Basic

/-!
# Names

Ids, kinds, labels and units are texts, or null when they are missing. No other value is the same as
one of these, so that looking for a name is looking for that value.
-/

namespace TradingRules.Value

variable {v w : Value} {s : String}

@[simp] theorem isTruthy_null : isTruthy .null = false := rfl

@[simp] theorem isTruthy_text (s : String) : (text s).isTruthy = (s != "") := rfl

theorem beq_text_iff : (v == .text s) = true ↔ v = .text s := by
  cases v <;> simp [BEq.beq, equal, equalLeaves, numeric?]

theorem isSame_text_iff : v.isSame (.text s) = true ↔ v = .text s := by
  cases v <;> simp [isSame, isOneNaN, BEq.beq, equal, equalLeaves, numeric?]

theorem isSame_null_iff : v.isSame .null = true ↔ v = .null := by
  cases v <;> simp [isSame, isOneNaN, BEq.beq, equal, equalLeaves, numeric?]

/-- Ids, kinds and labels are texts, or null when they are missing. -/
def IsName (v : Value) : Prop :=
  v = .null ∨ ∃ s, v = .text s

theorem isSame_iff_of_isName (hw : w.IsName) : v.isSame w = true ↔ v = w := by
  rcases hw with rfl | ⟨s, rfl⟩
  · exact isSame_null_iff
  · exact isSame_text_iff

theorem isSame_iff_of_isName_left (hv : v.IsName) : v.isSame w = true ↔ v = w := by
  rcases hv with rfl | ⟨s, rfl⟩ <;> cases w <;>
    simp [isSame, isOneNaN, BEq.beq, equal, equalLeaves, numeric?]

theorem isKey_of_isName (hv : v.IsName) : v.isKey = true := by
  rcases hv with rfl | ⟨s, rfl⟩ <;> rfl

end TradingRules.Value
