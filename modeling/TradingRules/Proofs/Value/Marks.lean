import TradingRules.Proofs.Value.Keys
import TradingRules.Value.Copy
import TradingRules.Value.Display
import TradingRules.Value.Item

/-!
# Values that differ in marks

A value without its marks is all that most readers see of it: whether it counts as true, its fields
and items, its text. Two values that are alike without them differ only in which of their NaNs are
one. Copies are alike in that way, and a value that is neither a collection nor a marked NaN is like
itself only.
-/

namespace TradingRules

namespace Value

mutual

/-- A value in which all marked NaNs are one. -/
def unmarked : Value → Value
  | undefined _ => undefined 0
  | list items => list (unmarkedItems items)
  | object fields => object (unmarkedFields fields)
  | v => v

def unmarkedItems : List Value → List Value
  | [] => []
  | v :: rest => unmarked v :: unmarkedItems rest

def unmarkedFields : Fields → Fields
  | [] => []
  | (key, v) :: rest => (key, unmarked v) :: unmarkedFields rest

end

theorem unmarkedFields_eq_map (f : Fields) :
    unmarkedFields f = f.map fun p => (p.1, p.2.unmarked) := by
  induction f with
  | nil => rfl
  | cons p rest ih => rw [unmarkedFields, ih, List.map_cons]

/-- Two values differ in their marks at most. -/
def Alike (v w : Value) : Prop :=
  v.unmarked = w.unmarked

variable {v w id : Value} {f g : Fields} {items others : List Value}

/-- What values that are alike have in common: they are the same, two NaNs, or collections of what
is alike. -/
theorem Alike.cases (h : v.Alike w) :
    v = w ∨ (∃ m n, v = undefined m ∧ w = undefined n) ∨
      (∃ items others, v = list items ∧ w = list others ∧
        unmarkedItems items = unmarkedItems others) ∨
      ∃ f g, v = object f ∧ w = object g ∧ unmarkedFields f = unmarkedFields g := by
  cases v <;> cases w <;> simp_all [Alike, unmarked]

theorem Alike.trans {u : Value} (h : v.Alike w) (h' : w.Alike u) : v.Alike u :=
  Eq.trans h h'

theorem Alike.isTruthy_eq (h : v.Alike w) : v.isTruthy = w.isTruthy := by
  obtain rfl | ⟨m, n, rfl, rfl⟩ | ⟨items, others, rfl, rfl, h⟩ | ⟨f, g, rfl, rfl, h⟩ := h.cases
  · rfl
  · rfl
  · cases items <;> cases others <;> first | rfl | cases h
  · cases f <;> cases g <;> first | rfl | cases h

theorem Alike.isNull_eq (h : v.Alike w) : v.isNull = w.isNull := by
  obtain rfl | ⟨m, n, rfl, rfl⟩ | ⟨items, others, rfl, rfl, -⟩ | ⟨f, g, rfl, rfl, -⟩ := h.cases <;>
    rfl

theorem Alike.isKey_eq (h : v.Alike w) : v.isKey = w.isKey := by
  obtain rfl | ⟨m, n, rfl, rfl⟩ | ⟨items, others, rfl, rfl, -⟩ | ⟨f, g, rfl, rfl, -⟩ := h.cases <;>
    rfl

theorem Alike.beq_text_eq (h : v.Alike w) (s : String) : (v == .text s) = (w == .text s) := by
  obtain rfl | ⟨m, n, rfl, rfl⟩ | ⟨items, others, rfl, rfl, -⟩ | ⟨f, g, rfl, rfl, -⟩ := h.cases <;>
    rfl

/-- A marked NaN, which copies tell apart at each of its places. -/
def IsMarked : Value → Prop
  | undefined _ => True
  | _ => False

theorem isMarked_iff_identity? : v.IsMarked ↔ ∃ mark, v.identity? = some (.mark mark) := by
  cases v <;> simp [IsMarked, identity?]

/-- What is the same as a key without a mark bears none. -/
theorem not_isMarked_of_isSame (hkey : id.isKey = true) (hsame : v.isSame id = true)
    (hmark : ¬id.IsMarked) : ¬v.IsMarked := by
  obtain ⟨i, hv, hid⟩ := (isSame_iff_identity? hkey).mp hsame
  rwa [isMarked_iff_identity?, hv, ← hid, ← isMarked_iff_identity?]

/-- A key that bears no mark is like itself only. -/
theorem Alike.eq_of_isKey (h : v.Alike w) (hkey : v.isKey = true) (hmark : ¬v.IsMarked) :
    w = v := by
  obtain rfl | ⟨m, n, rfl, rfl⟩ | ⟨items, others, rfl, rfl, -⟩ | ⟨f, g, rfl, rfl, -⟩ := h.cases
  · rfl
  · exact absurd trivial hmark
  · cases hkey
  · cases hkey

/-- A key that bears no mark is found among values that are alike at the same places. -/
theorem Alike.isSame_eq (h : v.Alike w) (hkey : id.isKey = true) (hmark : ¬id.IsMarked) :
    v.isSame id = w.isSame id := by
  obtain rfl | ⟨m, n, rfl, rfl⟩ | ⟨items, others, rfl, rfl, -⟩ | ⟨f, g, rfl, rfl, -⟩ := h.cases
  · rfl
  · cases id with
    | undefined => exact absurd trivial hmark
    | _ => rfl
  · rw [isSame_of_not_isKey rfl hkey, isSame_of_not_isKey rfl hkey]
  · rw [isSame_of_not_isKey rfl hkey, isSame_of_not_isKey rfl hkey]

/-! ### Texts -/

mutual

theorem written_unmarked : ∀ v : Value, v.unmarked.written = v.written
  | undefined _ => by rw [unmarked, written, written]
  | list items => by rw [unmarked, written, written, writtenItems_unmarked items]
  | object fields => by rw [unmarked, written, written, writtenFields_unmarked fields]
  | null | bool _ | int _ | real _ | text _ => rfl

theorem writtenItems_unmarked : ∀ items, writtenItems (unmarkedItems items) = writtenItems items
  | [] => rfl
  | v :: rest => by
    rw [unmarkedItems, writtenItems, writtenItems, written_unmarked v, writtenItems_unmarked rest]

theorem writtenFields_unmarked : ∀ f, writtenFields (unmarkedFields f) = writtenFields f
  | [] => rfl
  | (key, v) :: rest => by
    rw [unmarkedFields, writtenFields, writtenFields, written_unmarked v,
      writtenFields_unmarked rest]

end

theorem shown_unmarked (v : Value) : v.unmarked.shown = v.shown := by
  cases v with
  | text => rfl
  | _ => exact written_unmarked _

theorem Alike.shown_eq (h : v.Alike w) : v.shown = w.shown := by
  rw [← shown_unmarked v, ← shown_unmarked w, h]

/-! ### Fields and items -/

theorem get_unmarkedFields (f : Fields) (key : String) :
    (unmarkedFields f).get key = (f.get key).unmarked := by
  rw [unmarkedFields_eq_map, Fields.get, Fields.get, Fields.get?, Fields.get?, List.find?_map,
    Option.map_map]
  simp only [Function.comp_def]
  cases List.find? (fun p => p.1 == key) f <;> rfl

theorem alike_get (h : unmarkedFields f = unmarkedFields g) (key : String) :
    (f.get key).Alike (g.get key) := by
  rw [Alike, ← get_unmarkedFields, h, get_unmarkedFields]

theorem Alike.exists_object (h : (object f).Alike w) :
    ∃ g, w = object g ∧ unmarkedFields f = unmarkedFields g := by
  obtain rfl | ⟨m, n, hf, -⟩ | ⟨items, others, hf, -⟩ | ⟨f', g, hf, rfl, hfields⟩ := h.cases
  · exact ⟨f, rfl, rfl⟩
  · cases hf
  · cases hf
  · exact ⟨g, rfl, object.inj hf ▸ hfields⟩

theorem Alike.exists_asFields (h : v.Alike w) (hf : v.asFields = .ok f) :
    ∃ g, w.asFields = .ok g ∧ unmarkedFields f = unmarkedFields g := by
  cases v with
  | object f' =>
    obtain rfl := Except.ok.inj hf
    obtain ⟨g, rfl, hfields⟩ := h.exists_object
    exact ⟨g, rfl, hfields⟩
  | _ => cases hf

theorem Alike.rel_fields? (h : v.Alike w) :
    Option.Rel (fun f g => unmarkedFields f = unmarkedFields g) v.fields? w.fields? := by
  obtain rfl | ⟨m, n, rfl, rfl⟩ | ⟨items, others, rfl, rfl, -⟩ | ⟨f, g, rfl, rfl, hfields⟩ :=
    h.cases
  · cases v with
    | object f => exact .some rfl
    | _ => exact .none
  · exact .none
  · exact .none
  · exact .some hfields

theorem forall₂_of_unmarkedItems (h : unmarkedItems items = unmarkedItems others) :
    List.Forall₂ Alike items others := by
  induction items generalizing others with
  | nil =>
    cases others with
    | nil => exact .nil
    | cons w rest => cases h
  | cons v rest ih =>
    cases others with
    | nil => cases h
    | cons w more =>
      obtain ⟨hfirst, hrest⟩ := List.cons.inj h
      exact .cons hfirst (ih hrest)

/-! ### Copies -/

mutual

theorem unmarked_copy : ∀ (v : Value) (mark : Nat), (v.copy mark).1.unmarked = v.unmarked
  | undefined _, _ => rfl
  | list items, mark => by
    rw [copy, unmarked, unmarked, unmarkedItems_copyItems items mark]
  | object fields, mark => by
    rw [copy, unmarked, unmarked, unmarkedFields_copyFields fields mark]
  | null, _ | bool _, _ | int _, _ | real _, _ | text _, _ => rfl

theorem unmarkedItems_copyItems :
    ∀ items mark, unmarkedItems (copyItems items mark).1 = unmarkedItems items
  | [], _ => rfl
  | v :: rest, mark => by
    rw [copyItems, unmarkedItems, unmarkedItems, unmarked_copy v mark,
      unmarkedItems_copyItems rest]

theorem unmarkedFields_copyFields :
    ∀ f mark, unmarkedFields (copyFields f mark).1 = unmarkedFields f
  | [], _ => rfl
  | (key, v) :: rest, mark => by
    rw [copyFields, unmarkedFields, unmarkedFields, unmarked_copy v mark,
      unmarkedFields_copyFields rest]

end

theorem alike_copy (v : Value) (mark : Nat) : v.Alike (v.copy mark).1 :=
  (unmarked_copy v mark).symm

theorem forall₂_copyItems (items : List Value) (mark : Nat) :
    List.Forall₂ Alike items (copyItems items mark).1 :=
  forall₂_of_unmarkedItems (unmarkedItems_copyItems items mark).symm

end Value

end TradingRules
