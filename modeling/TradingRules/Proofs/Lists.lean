import Mathlib.Data.List.DropRight
import Mathlib.Data.List.Forall2
import Mathlib.Data.List.Nodup
import Mathlib.Data.List.Perm.Basic

/-!
# Lists

The end of a list that a bound leaves, items that pass a test or are looked for by a key, and lists
whose items are related pairwise.
-/

namespace List

variable {α β : Type}

/-! ### The end of a list -/

theorem rtake_rtake (l : List α) (m n : Nat) : (l.rtake m).rtake n = l.rtake (min n m) := by
  simp [rtake_eq_reverse_take_reverse, take_take]

/-- Bounding can wait until one more item has been put behind the others. -/
theorem rtake_rtake_concat {m n : Nat} (hmn : n ≤ m + 1) (l : List α) (a : α) :
    (l.rtake m ++ [a]).rtake n = (l ++ [a]).rtake n := by
  cases n with
  | zero => simp
  | succ n =>
    rw [rtake_concat_succ, rtake_concat_succ, rtake_rtake,
      Nat.min_eq_left (Nat.le_of_succ_le_succ hmn)]

theorem rtake_suffix_rtake {m n : Nat} (hmn : m ≤ n) (l : List α) : l.rtake m <:+ l.rtake n := by
  rw [← Nat.min_eq_left hmn, ← rtake_rtake]
  exact drop_suffix _ _

/-- A list is another one with a number of times the same item behind it. -/
theorem exists_eq_append_replicate (a : α) (l : List α) :
    ∃ front k, l = front ++ replicate k a ∧ front.getLast? ≠ some a := by
  induction l using reverseRecOn with
  | nil => exact ⟨[], 0, rfl, nofun⟩
  | append_singleton l b ih =>
    by_cases hb : b = a
    · obtain ⟨front, k, rfl, hfront⟩ := ih
      refine ⟨front, k + 1, ?_, hfront⟩
      rw [hb, replicate_succ', append_assoc]
    · refine ⟨l ++ [b], 0, (append_nil _).symm, ?_⟩
      simpa using hb

theorem exists_of_getElem?_concat {l : List α} {a b : α} {i : Nat}
    (h : (l ++ [a])[i]? = some b) :
    i < l.length ∧ l[i]? = some b ∨ i = l.length ∧ b = a := by
  rcases Nat.lt_trichotomy i l.length with hi | rfl | hi
  · exact .inl ⟨hi, by rwa [getElem?_append_left hi] at h⟩
  · exact .inr ⟨rfl, by simpa [eq_comm] using h⟩
  · have hnone : (l ++ [a])[i]? = none :=
      getElem?_eq_none (by simpa using Nat.succ_le_of_lt hi)
    simp [hnone] at h

/-! ### Items that are looked for -/

/-- What no added element passes leaves just what passed before. -/
theorem filter_eq_of_added {old added all : List α} (hkept : old.Sublist all)
    (hperm : all.Perm (old ++ added)) {p : α → Bool} (hp : ∀ a ∈ added, p a = false) :
    all.filter p = old.filter p := by
  have hadded : added.filter p = [] := filter_eq_nil_iff.mpr fun a ha => by simp [hp a ha]
  have hlength := (hperm.filter p).length_eq
  rw [filter_append, hadded, append_nil] at hlength
  exact ((hkept.filter p).eq_of_length hlength.symm).symm

/-- Where items are replaced by one with their key, others are found as before. -/
theorem find?_replaced [DecidableEq α] (key : β → α) (new : β) (l : List β) (other : α) :
    (l.map fun b => if key b == key new then new else b).find? (key · == other) =
      if other = key new then (l.find? (key · == key new)).map fun _ => new
      else l.find? (key · == other) := by
  induction l with
  | nil => simp
  | cons b l ih =>
    by_cases hb : key b = key new <;> by_cases h : other = key new <;>
      simp_all [find?_cons, eq_comm (a := key new)]

section

variable [BEq α] [LawfulBEq α]

theorem eraseDups_filter (p : α → Bool) (l : List α) :
    (l.filter p).eraseDups = l.eraseDups.filter p := by
  induction hn : l.length using Nat.strongRecOn generalizing l with
  | _ n ih =>
    cases l with
    | nil => rfl
    | cons a l =>
      have hlength := length_filter_le (fun b => !b == a) l
      have hrest := ih _ (by rw [length_cons] at hn; omega) (l.filter fun b => !b == a) rfl
      rw [eraseDups_cons, filter_cons, filter_cons, ← hrest, filter_filter]
      by_cases ha : p a = true
      · rw [if_pos ha, if_pos ha, eraseDups_cons, filter_filter]
        simp only [Bool.and_comm]
      · rw [if_neg ha, if_neg ha]
        congr 1
        refine filter_congr fun b _ => ?_
        by_cases hb : b = a
        · simp [hb, ha]
        · simp [hb]

theorem nodup_eraseDups (l : List α) : l.eraseDups.Nodup := by
  induction l with
  | nil => exact nodup_nil
  | cons a l ih =>
    rw [eraseDups_cons, eraseDups_filter, nodup_cons]
    exact ⟨by simp, ih.filter _⟩

/-- An item that was found for a key need not be looked for again. -/
theorem filterMap_find?_eraseDups (key : β → α) (a : α) (keys : List α) (l : List β) :
    (keys.filter fun k => !k == a).eraseDups.filterMap (fun k => l.find? (key · == k)) =
      keys.eraseDups.filterMap fun k => (l.filter fun b => !key b == a).find? (key · == k) := by
  rw [eraseDups_filter, filterMap_filter]
  refine filterMap_congr fun k _ => ?_
  rw [find?_filter]
  by_cases hk : k = a
  · rw [if_neg (by simp [hk]), eq_comm, find?_eq_none]
    simp [hk]
  · have hother : ∀ b : β, decide ((!key b == a) = true ∧ (key b == k) = true) =
        (key b == k) := by
      intro b
      by_cases hb : key b = k <;> simp [hb, hk]
    simp only [hother]
    simp [hk]

end

/-! ### Related items -/

variable {R : α → β → Prop}

theorem Forall₂.exists_of_mem {l : List α} {l' : List β} (h : Forall₂ R l l') {b : β}
    (hb : b ∈ l') : ∃ a ∈ l, R a b := by
  induction h with
  | nil => cases hb
  | cons hab _ ih =>
    rcases mem_cons.mp hb with rfl | hb
    · exact ⟨_, mem_cons_self, hab⟩
    · obtain ⟨a, ha, hrelated⟩ := ih hb
      exact ⟨a, mem_cons_of_mem _ ha, hrelated⟩

section

variable {p : α → Bool} {q : β → Bool} {l : List α} {l' : List β}
  (hpq : ∀ a b, R a b → p a = q b) (h : Forall₂ R l l')

include hpq h

theorem Forall₂.any_eq : l.any p = l'.any q := by
  induction h with
  | nil => rfl
  | cons hab _ ih => rw [any_cons, any_cons, hpq _ _ hab, ih]

theorem Forall₂.filter : Forall₂ R (l.filter p) (l'.filter q) :=
  rel_filter (fun a b hab => iff_of_eq (congrArg (· = true) (hpq a b hab))) h

theorem Forall₂.countP_eq : l.countP p = l'.countP q := by
  rw [countP_eq_length_filter, countP_eq_length_filter, (Forall₂.filter hpq h).length_eq]

theorem Forall₂.exists_find? {a : α} (ha : l.find? p = some a) :
    ∃ b, l'.find? q = some b ∧ R a b := by
  induction h with
  | nil => cases ha
  | @cons c d _ _ hcd _ ih =>
    rw [find?_cons, hpq c d hcd] at ha
    rw [find?_cons]
    split at ha
    · exact ⟨d, rfl, Option.some.inj ha ▸ hcd⟩
    · exact ih ha

end

end List
