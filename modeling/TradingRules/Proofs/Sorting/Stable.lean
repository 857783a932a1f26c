import Mathlib.Data.List.Basic
import Mathlib.Order.Defs.LinearOrder
import TradingRules.Proofs.Sorting.Permutation
import TradingRules.Proofs.Value.Order

/-!
# Stable sorting by a linear order

Items that are ordered by keys stand behind those with smaller keys and, among equals, where they
stood before. So leaving items out before sorting or afterwards comes to the same.
-/

namespace TradingRules.Sorting

variable {α β κ : Type} [LinearOrder κ]

/-- Sorts items by their keys; items with equal keys keep their order. -/
def sortBy (key : α → κ) (items : List α) : List α :=
  items.mergeSort fun a b => key a ≤ key b

variable {key : α → κ}

theorem trans_keys (key : α → κ) (a b c : α) (hab : decide (key a ≤ key b) = true)
    (hbc : decide (key b ≤ key c) = true) : decide (key a ≤ key c) = true :=
  decide_eq_true ((of_decide_eq_true hab).trans (of_decide_eq_true hbc))

theorem total_keys (key : α → κ) (a b : α) :
    (decide (key a ≤ key b) || decide (key b ≤ key a)) = true := by
  simpa using le_total (key a) (key b)

theorem pairwise_sortBy (key : α → κ) (items : List α) :
    (sortBy key items).Pairwise fun a b => key a ≤ key b := by
  have hsorted := List.pairwise_mergeSort (trans_keys key) (total_keys key) items
  simpa [sortBy] using hsorted

theorem sortBy_perm (key : α → κ) (items : List α) : (sortBy key items).Perm items :=
  List.mergeSort_perm items _

theorem map_sortBy (key : β → κ) (f : α → β) (items : List α) :
    (sortBy (key ∘ f) items).map f = sortBy key (items.map f) :=
  List.map_mergeSort fun _ _ _ _ => rfl

/-- An ordered list falls into the items below a bound and those that reach it. -/
theorem filter_append_filter {items : List α} (h : items.Pairwise fun a b => key a ≤ key b)
    (x : κ) :
    items.filter (key · < x) ++ items.filter (x ≤ key ·) = items := by
  induction h with
  | nil => rfl
  | @cons a rest ha _ ih =>
    rcases lt_or_ge (key a) x with hbelow | hreach
    · simp [hbelow, hbelow.not_ge, ih]
    · have hrest : rest.filter (key · < x) = [] := by
        simpa using fun b hb => hreach.trans (ha b hb)
      rw [hrest, List.nil_append] at ih
      simp [hreach, hreach.not_gt, hrest, ih]

/-- The first item goes in front of those that have at least its key. -/
theorem sortBy_cons (key : α → κ) (a : α) (items : List α) :
    sortBy key (a :: items) = (sortBy key items).filter (key · < key a) ++
      a :: (sortBy key items).filter (key a ≤ key ·) := by
  obtain ⟨front, behind, hcons, hsplit, hfront⟩ :=
    List.mergeSort_cons (trans_keys key) (total_keys key) a items
  have hsorted := pairwise_sortBy key (a :: items)
  rw [sortBy, hcons] at hsorted
  have hbehind := (List.pairwise_cons.mp (List.pairwise_append.mp hsorted).2.1).1
  have hbelow : ∀ b ∈ front, key b < key a := by simpa using hfront
  rw [sortBy, sortBy, hcons, hsplit, List.filter_append, List.filter_append]
  have h₁ : front.filter (key · < key a) = front := List.filter_eq_self.mpr (by simpa using hbelow)
  have h₂ : behind.filter (key · < key a) = [] := by simpa using hbehind
  have h₃ : front.filter (key a ≤ key ·) = [] := by simpa using hbelow
  have h₄ : behind.filter (key a ≤ key ·) = behind :=
    List.filter_eq_self.mpr (by simpa using hbehind)
  rw [h₁, h₂, h₃, h₄, List.append_nil, List.nil_append]

/-- Leaving items out, and changing the others but not their keys, can be done before sorting. -/
theorem filterMap_sortBy {f : α → Option β} {key' : β → κ}
    (hkey : ∀ {a b}, f a = some b → key' b = key a) (items : List α) :
    (sortBy key items).filterMap f = sortBy key' (items.filterMap f) := by
  have hfilter : ∀ {p : κ → Bool} {l : List α},
      (l.filter fun a => p (key a)).filterMap f = (l.filterMap f).filter fun b => p (key' b) := by
    intro p l
    rw [List.filterMap_filter, List.filter_filterMap]
    refine List.filterMap_congr fun a _ => ?_
    cases hf : f a with
    | none => simp
    | some b => simp [Option.filter, hkey hf]
  induction items with
  | nil => simp [sortBy]
  | cons a items ih =>
    have hbelow := hfilter (p := fun k => decide (k < key a)) (l := sortBy key items)
    have hreach := hfilter (p := fun k => decide (key a ≤ k)) (l := sortBy key items)
    rw [ih] at hbelow hreach
    rw [sortBy_cons, List.filterMap_append, hbelow]
    cases hf : f a with
    | none =>
      rw [List.filterMap_cons_none hf, List.filterMap_cons_none hf, hreach]
      exact filter_append_filter (pairwise_sortBy key' _) (key a)
    | some b =>
      rw [List.filterMap_cons_some hf, List.filterMap_cons_some hf, hreach, sortBy_cons, hkey hf]

end TradingRules.Sorting

namespace TradingRules.Value

variable {α : Type} {items out : List (Value × α)}

theorem sortByKey_perm (h : sortByKey items = .ok out) : out.Perm items := by
  rw [sortByKey] at h
  split at h
  · obtain rfl := Except.ok.inj h
    exact List.mergeSort_perm _ _
  · exact Sorting.sort_perm h

/-- Where a number stands; anything else stands with zero. -/
def position (v : Value) : WithBot (WithTop ℚ) :=
  v.point?.getD (Number.point 0)

/-- Items whose keys are numbers are sorted by where these stand. -/
theorem sortByKey_of_isOrdered (h : ∀ item ∈ items, item.1.isOrdered) :
    sortByKey items = .ok (Sorting.sortBy (fun item => item.1.position) items) := by
  have hordered : items.all (·.1.isOrdered) = true := List.all_eq_true.mpr h
  rw [sortByKey, if_pos (by rw [hordered, Bool.true_or])]
  have hcongr := List.map_mergeSort (f := id) (l := items) (r := fun a b => atMost a.1 b.1)
    (s := fun a b => decide (a.1.position ≤ b.1.position)) (fun a ha b hb => by
      obtain ⟨x, hx⟩ := isOrdered_iff.mp (h a ha)
      obtain ⟨y, hy⟩ := isOrdered_iff.mp (h b hb)
      simp [atMost_of_point? hx hy, position, hx, hy])
  rw [List.map_id, List.map_id] at hcongr
  exact congrArg Except.ok hcongr

end TradingRules.Value
