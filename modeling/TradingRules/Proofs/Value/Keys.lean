import TradingRules.Proofs.Value.Order

/-!
# Keys

Values that can be keys are told apart by what they are: null, a text, the mark of a NaN, or a point
of the line of numbers. Two of them are the same exactly if they have that in common, so that being
the same is symmetric and transitive. Only a NaN without a mark is not even the same as itself.
-/

namespace TradingRules.Value

/-- What a key is told apart by. -/
inductive Identity where
  | null
  | text (s : String)
  | mark (n : Nat)
  | point (a : WithBot (WithTop ℚ))

def identity? : Value → Option Identity
  | null => some .null
  | text s => some (.text s)
  | undefined mark => some (.mark mark)
  | list _ | object _ => none
  | v => v.point?.map .point

variable {v w u : Value}

/-- Only numbers that stand for points compare as equal. -/
theorem Numeric.exists_point?_of_compare {x y : Numeric} (h : x.compare y = some .eq) :
    (∃ a, x.point? = some a) ∧ ∃ b, y.point? = some b := by
  cases x with
  | whole n => exact ⟨⟨_, rfl⟩, _, point?_of_numeric_eq h⟩
  | double x =>
    cases y with
    | whole n =>
      obtain ⟨o, ho, heq⟩ := Option.map_eq_some_iff.mp h
      obtain rfl := Ordering.swap_eq_eq.mp heq
      exact ⟨⟨_, point?_of_numeric_eq (y := .double x) ho⟩, _, rfl⟩
    | double y =>
      have hequal : (x == y) = true := by
        have hfloats : Number.compareFloats x y = some .eq := h
        unfold Number.compareFloats at hfloats
        split_ifs at hfloats with hless hmore hequal
        · cases hfloats
        · cases hfloats
        · exact hequal
      obtain ⟨a, hx, hy⟩ := (Number.beq_iff x y).mp hequal
      exact ⟨⟨a, hx⟩, a, hy⟩

/-- Numbers are equal exactly if they stand for one point. -/
theorem beq_iff_exists_point? {x y : Numeric} (hv : v.numeric? = some x)
    (hw : w.numeric? = some y) :
    (v == w) = true ↔ ∃ a, v.point? = some a ∧ w.point? = some a := by
  constructor
  · intro h
    rw [beq_of_numeric? hv hw, beq_iff_eq] at h
    obtain ⟨⟨a, ha⟩, b, hb⟩ := Numeric.exists_point?_of_compare h
    rw [Numeric.compare_eq ha hb, Option.some_inj, compare_eq_iff_eq] at h
    refine ⟨a, ?_, ?_⟩
    · rw [point?, hv, Option.bind_some, ha]
    · rw [point?, hw, Option.bind_some, hb, h]
  · rintro ⟨a, hva, hwa⟩
    exact (beq_iff_of_point? hva hwa).mpr rfl

theorem point?_undefined (mark : Nat) : (undefined mark).point? = none :=
  (Number.exactValue?_eq_none_iff nan).mpr (by decide +kernel)

/-- Two points are one if they tell keys apart alike. -/
theorem exists_point_iff (p q : Option (WithBot (WithTop ℚ))) :
    (∃ i, p.map Identity.point = some i ∧ q.map Identity.point = some i) ↔
      ∃ a, p = some a ∧ q = some a := by
  cases p <;> cases q <;> simp

/-- A value is the same as a key exactly if it is told apart by the same. -/
theorem isSame_iff_identity? (hw : w.isKey = true) :
    v.isSame w = true ↔ ∃ i, v.identity? = some i ∧ w.identity? = some i := by
  cases w with
  | list | object => cases hw
  | null | text =>
    cases v <;> simp [isSame, isOneNaN, BEq.beq, equal, equalLeaves, numeric?, identity?, eq_comm]
  | undefined =>
    cases v with
    | null | text | list | object =>
      simp [isSame, isOneNaN, BEq.beq, equal, equalLeaves, numeric?, identity?]
    | bool | int | real =>
      rw [isSame, Bool.or_eq_true, beq_iff_exists_point? rfl rfl]
      simp [isOneNaN, identity?, point?_undefined]
    | undefined =>
      rw [isSame, Bool.or_eq_true, beq_iff_exists_point? rfl rfl]
      simpa [isOneNaN, identity?, point?_undefined] using eq_comm
  | bool | int | real =>
    cases v with
    | null | text | list | object =>
      simp [isSame, isOneNaN, BEq.beq, equal, equalLeaves, numeric?, identity?]
    | undefined =>
      rw [isSame, Bool.or_eq_true, beq_iff_exists_point? rfl rfl]
      simp [isOneNaN, identity?, point?_undefined]
    | bool | int | real =>
      rw [isSame, Bool.or_eq_true, beq_iff_exists_point? rfl rfl]
      simp only [isOneNaN, identity?, exists_point_iff, Bool.false_eq_true, false_or]

/-- Keys that are the same are the same as the same values. -/
theorem isSame_congr_right (hv : v.isKey = true) (hw : w.isKey = true) (h : v.isSame w = true) :
    u.isSame v = u.isSame w := by
  obtain ⟨i, hvi, hwi⟩ := (isSame_iff_identity? hw).mp h
  rw [Bool.eq_iff_iff, isSame_iff_identity? hv, isSame_iff_identity? hw, hvi, hwi]

theorem isSame_of_not_isKey (hv : v.isKey = false) (hw : w.isKey = true) :
    v.isSame w = false := by
  have hnone : v.identity? = none := by cases v <;> first | rfl | cases hv
  rw [Bool.eq_false_iff, ne_eq, isSame_iff_identity? hw, hnone]
  simp

/-- A value is the same as two keys only if they are the same. -/
theorem isSame_of_isSame (hv : v.isKey = true) (hw : w.isKey = true) (huv : u.isSame v = true)
    (huw : u.isSame w = true) : v.isSame w = true := by
  obtain ⟨i, hui, hvi⟩ := (isSame_iff_identity? hv).mp huv
  obtain ⟨j, huj, hwj⟩ := (isSame_iff_identity? hw).mp huw
  obtain rfl := Option.some.inj (hui.symm.trans huj)
  exact (isSame_iff_identity? hw).mpr ⟨i, hvi, hwj⟩

end TradingRules.Value
