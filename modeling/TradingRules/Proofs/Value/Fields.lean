import Mathlib.Data.List.Nodup
import Mathlib.Data.List.Perm.Subperm
import TradingRules.Proofs.Value.Order

/-!
# Fields and the equality of objects

Objects that are read have distinct keys. Then they are equal exactly if the same keys have the same
values in both, in whatever order the fields stand.
-/

namespace TradingRules

/-! ### Fields -/

namespace Fields

variable {f g : Fields} {key : String} {v : Value}

def keys (f : Fields) : List String :=
  f.map (·.1)

theorem get?_eq_none_iff : get? f key = none ↔ key ∉ f.keys := by
  rw [get?, Option.map_eq_none_iff, List.find?_eq_none, keys, List.mem_map]
  simp only [beq_iff_eq, not_exists, not_and]

theorem get?_eq_some_iff (hf : f.keys.Nodup) : get? f key = some v ↔ (key, v) ∈ f := by
  induction f with
  | nil => simp [get?]
  | cons p f ih =>
    rw [keys, List.map_cons, List.nodup_cons] at hf
    by_cases hp : p.1 = key
    · subst hp
      have hnew : (p.1, v) ∉ f := fun hmem => hf.1 (List.mem_map.mpr ⟨_, hmem, rfl⟩)
      simp [get?, Prod.ext_iff, hnew, eq_comm]
    · have hother : get? (p :: f) key = get? f key := by simp [get?, hp]
      have hne : (key, v) ≠ p := fun h => hp (congrArg Prod.fst h).symm
      rw [hother, ih hf.2, List.mem_cons, or_iff_right hne]

theorem get?_append (f g : Fields) (key : String) :
    get? (f ++ g) key = (get? f key).or (get? g key) := by
  rw [get?, get?, get?, List.find?_append]
  cases List.find? (·.1 == key) f <;> simp

theorem get?_without (f : Fields) (known : List String) (key : String) :
    get? (f.without known) key = if key ∈ known then none else get? f key := by
  rw [get?, without, List.find?_filter]
  by_cases hkey : key ∈ known
  · rw [if_pos hkey, Option.map_eq_none_iff, List.find?_eq_none]
    intro p _
    by_cases hp : p.1 = key <;> simp [hp, hkey]
  · rw [if_neg hkey, get?]
    refine congrArg (fun q => (List.find? q f).map (·.2)) (funext fun p => ?_)
    by_cases hp : p.1 = key <;> simp [hp, hkey]

theorem set_eq_append (h : key ∉ f.keys) : set f key v = f ++ [(key, v)] := by
  have hnone : has f key = false := by
    rw [has, List.any_eq_false]
    intro p hp hkey
    exact h (List.mem_map.mpr ⟨p, hp, by simpa using hkey⟩)
  rw [set, hnone]
  rfl

theorem merge_eq_append (h : (f ++ g).keys.Nodup) : merge f g = f ++ g := by
  induction g generalizing f with
  | nil => exact (List.append_nil f).symm
  | cons p g ih =>
    have hnew : p.1 ∉ f.keys := by
      intro hmem
      rw [keys, List.map_append, List.nodup_append] at h
      exact h.2.2 p.1 hmem p.1 List.mem_cons_self rfl
    have hset : merge f (p :: g) = merge (f ++ [p]) g := by
      rw [merge, List.foldl_cons, ← merge, set_eq_append hnew]
    rw [List.append_cons] at h ⊢
    rw [hset, ih h]

theorem without_eq_self {known : List String} (h : ∀ key ∈ f.keys, key ∉ known) :
    f.without known = f := by
  refine List.filter_eq_self.mpr fun p hp => ?_
  simpa using h p.1 (List.mem_map_of_mem hp)

theorem without_eq_nil {known : List String} (h : ∀ key ∈ f.keys, key ∈ known) :
    f.without known = [] := by
  refine List.filter_eq_nil_iff.mpr fun p hp => ?_
  simpa using h p.1 (List.mem_map_of_mem hp)

theorem keys_without_sublist (f : Fields) (known : List String) :
    (f.without known).keys.Sublist f.keys :=
  List.filter_sublist.map _

theorem not_mem_of_mem_keys_without {known : List String} (h : key ∈ (f.without known).keys) :
    key ∉ known := by
  obtain ⟨p, hp, rfl⟩ := List.mem_map.mp h
  simpa using (List.mem_filter.mp hp).2

end Fields

/-! ### Equality -/

namespace Value

/-- A value that can stand in a JSON text: its objects have distinct keys, and a NaN that it has is
one that was read. -/
inductive IsJson : Value → Prop
  | null : IsJson .null
  | bool (b : Bool) : IsJson (.bool b)
  | int (n : Int) : IsJson (.int n)
  | real {x : Float} (h : x.isNaN = false) : IsJson (.real x)
  | undefined (mark : Nat) : IsJson (.undefined mark)
  | text (s : String) : IsJson (.text s)
  | list {items : List Value} (h : ∀ v ∈ items, IsJson v) : IsJson (.list items)
  | object {f : Fields} (hkeys : f.keys.Nodup) (h : ∀ p ∈ f, IsJson p.2) : IsJson (.object f)

theorem beq_self_of_isOrdered {v : Value} (h : v.isOrdered = true) : (v == v) = true := by
  obtain ⟨a, ha⟩ := isOrdered_iff.mp h
  exact (beq_iff_of_point? ha ha).mpr rfl

/-- Two parts of objects that are the same, or both missing. -/
abbrev SamePart : Option Value → Option Value → Prop :=
  Option.Rel fun x y => x.isSame y = true

theorem equalLists_iff {xs ys : List Value} : equalLists xs ys = true ↔
    List.Forall₂ (fun x y => x.isSame y = true) xs ys := by
  induction xs generalizing ys with
  | nil => cases ys <;> simp [equalLists]
  | cons x xs ih =>
    cases ys with
    | nil => simp [equalLists]
    | cons y ys =>
      have hsame : (isOneNaN x y || equal x y) = x.isSame y := rfl
      rw [equalLists, hsame, Bool.and_eq_true, List.forall₂_cons, ih]

theorem isSame_list_iff {xs ys : List Value} : (list xs).isSame (list ys) = true ↔
    List.Forall₂ (fun x y => x.isSame y = true) xs ys := by
  rw [← equalLists_iff]
  simp [isSame, isOneNaN, BEq.beq, equal]

theorem equalFields_iff {f g : Fields} : equalFields f g = true ↔
    ∀ p ∈ f, ∃ y, Fields.get? g p.1 = some y ∧ p.2.isSame y = true := by
  induction f with
  | nil => simp [equalFields]
  | cons p f ih =>
    have hsame (x y : Value) : (isOneNaN x y || equal x y) = x.isSame y := rfl
    have hget : (g.find? (·.1 == p.1)).map (·.2) = Fields.get? g p.1 := rfl
    rw [equalFields, hget, Bool.and_eq_true, ih, List.forall_mem_cons]
    cases Fields.get? g p.1 with
    | none => simp
    | some y => simp [hsame]

/-- Objects with distinct keys are equal exactly if they have the same fields, in any order. -/
theorem beq_object_iff {f g : Fields} (hf : f.keys.Nodup) (hg : g.keys.Nodup) :
    (object f == object g) = true ↔
      ∀ key, SamePart (Fields.get? f key) (Fields.get? g key) := by
  have hequal : (object f == object g) = (f.length == g.length && equalFields f g) := by
    show equal _ _ = _
    rw [equal]
  rw [hequal, Bool.and_eq_true, beq_iff_eq, equalFields_iff]
  constructor
  · rintro ⟨hlength, hfields⟩ key
    have hsub : f.keys ⊆ g.keys := by
      intro k hk
      obtain ⟨p, hp, rfl⟩ := List.mem_map.mp hk
      obtain ⟨y, hy, -⟩ := hfields p hp
      by_contra hnone
      rw [Fields.get?_eq_none_iff.mpr hnone] at hy
      cases hy
    have hperm : f.keys.Perm g.keys := (List.subperm_of_subset hf hsub).perm_of_length_le (by
      simp [Fields.keys, hlength])
    cases hx : Fields.get? f key with
    | none =>
      have hnone : Fields.get? g key = none := by
        rw [Fields.get?_eq_none_iff, ← hperm.mem_iff, ← Fields.get?_eq_none_iff]
        exact hx
      rw [hnone]
      exact .none
    | some x =>
      obtain ⟨y, hy, hsame⟩ := hfields (key, x) ((Fields.get?_eq_some_iff hf).mp hx)
      rw [hy]
      exact .some hsame
  · intro hrel
    have hmem (key : String) : key ∈ f.keys ↔ key ∈ g.keys := by
      rw [← not_iff_not, ← Fields.get?_eq_none_iff, ← Fields.get?_eq_none_iff]
      have hrel := hrel key
      generalize Fields.get? f key = x at hrel
      generalize Fields.get? g key = y at hrel
      cases hrel <;> simp
    have hperm : f.keys.Perm g.keys := (List.perm_ext_iff_of_nodup hf hg).mpr hmem
    refine ⟨by simpa [Fields.keys] using hperm.length_eq, fun p hp => ?_⟩
    have hx := (Fields.get?_eq_some_iff hf).mpr (show (p.1, p.2) ∈ f from hp)
    have hrel := hrel p.1
    rw [hx] at hrel
    generalize Fields.get? g p.1 = found at hrel
    cases hrel with
    | some hsame => exact ⟨_, rfl, hsame⟩

namespace IsJson

variable {f : Fields} {key : String} {v : Value}

theorem nodup_keys (h : (Value.object f).IsJson) : f.keys.Nodup := by
  cases h with
  | object hkeys h => exact hkeys

theorem of_get? (h : (Value.object f).IsJson) (hv : Fields.get? f key = some v) : v.IsJson := by
  cases h with
  | object hkeys h => exact h _ ((Fields.get?_eq_some_iff hkeys).mp hv)

/-- A value that was read is the same as itself, with any NaN that is in it. -/
theorem isSame_self (h : v.IsJson) : v.isSame v = true := by
  have hequal {w : Value} (h : (w == w) = true) : w.isSame w = true := by
    rw [isSame, h, Bool.or_true]
  induction h with
  | null | text => exact hequal (by simp [BEq.beq, equal, equalLeaves])
  | bool | int => exact hequal (beq_self_of_isOrdered rfl)
  | real h =>
    refine hequal (beq_self_of_isOrdered ?_)
    simp only [isOrdered, numeric?, h]
    rfl
  | undefined => simp [isSame, isOneNaN]
  | list h ih => exact isSame_list_iff.mpr (List.forall₂_same.mpr ih)
  | object hkeys h ih =>
    refine hequal ((beq_object_iff hkeys hkeys).mpr fun key => ?_)
    cases hx : Fields.get? _ key with
    | none => exact .none
    | some x => exact .some (ih _ ((Fields.get?_eq_some_iff hkeys).mp hx))

end IsJson

end Value

end TradingRules
