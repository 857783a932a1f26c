import Mathlib.Data.List.Basic
import TradingRules.Json.Writer

/-!
# Values that can be written

Bytes can be made of a value exactly if no text in it, and no name of a field, has a half of a
surrogate pair. How deep a value stands in another one does not matter, so a value that can be
written can also be written as a part.
-/

namespace TradingRules

namespace Text

/-- Bytes can be made of a text that has no halves of surrogate pairs. -/
def Whole (s : String) : Prop :=
  ∀ c ∈ s.toList, half? c = none

instance (s : String) : Decidable (Whole s) :=
  List.decidableBAll (fun c => half? c = none) s.toList

theorem whole_append {s t : String} : Whole (s ++ t) ↔ Whole s ∧ Whole t := by
  simp [Whole, or_imp, forall_and]

theorem firstHalves?_eq_none_iff {s : String} : firstHalves? s = none ↔ Whole s := by
  rw [firstHalves?, Option.map_eq_none_iff, List.head?_eq_none_iff, Whole]
  generalize s.toList = chars
  induction chars with
  | nil => simp
  | cons c rest ih =>
    cases hc : half? c with
    | none => simpa [hc] using ih
    | some unit => simp [hc]

/-- Characters below the ones that represent halves are none of them. -/
theorem whole_of_lt {s : String} (h : ∀ c ∈ s.toList, c.toNat < halvesFrom) : Whole s :=
  fun c hc => if_pos (h c hc)

end Text

namespace Json

open Text (Whole)

/-- A value can be written as the content of a file. -/
def Encodable (v : Value) : Prop :=
  ∀ piece ∈ pieces .indented 0 "" v, Whole piece

instance (v : Value) : Decidable (Encodable v) :=
  List.decidableBAll Whole (pieces .indented 0 "" v)

theorem writeEncodable_of_encodable {v : Value} (h : Encodable v) :
    writeEncodable .indented v = .ok (write .indented v) := by
  rw [writeEncodable, write, String.join]
  rw [Encodable] at h
  generalize pieces .indented 0 "" v = l at h
  generalize "" = text
  induction l generalizing text with
  | nil => rfl
  | cons piece l ih =>
    rw [List.forall_mem_cons] at h
    rw [List.foldlM_cons, Text.firstHalves?_eq_none_iff.mpr h.1]
    exact ih h.2 _

theorem exists_writeEncodable_eq_error {v : Value} (h : ¬ Encodable v) :
    ∃ before halves, writeEncodable .indented v = .error (before, halves) := by
  rw [writeEncodable]
  rw [Encodable] at h
  generalize pieces .indented 0 "" v = l at h
  generalize "" = text
  induction l generalizing text with
  | nil => exact absurd (fun _ hp => nomatch hp) h
  | cons piece l ih =>
    rw [List.foldlM_cons]
    cases hpiece : Text.firstHalves? piece with
    | some halves => exact ⟨text, halves, rfl⟩
    | none =>
      refine ih (fun hl => h ?_) _
      exact List.forall_mem_cons.mpr ⟨Text.firstHalves?_eq_none_iff.mp hpiece, hl⟩

theorem whole_lineBreak (level : Nat) : Whole (Style.indented.lineBreak level) := by
  refine Text.whole_of_lt fun c hc => ?_
  simp only [Style.lineBreak, Style.indented, String.toList_ofList, List.mem_cons,
    List.mem_replicate] at hc
  rcases hc with rfl | ⟨-, rfl⟩ <;> decide

theorem whole_append_lineBreak {s : String} (h : Whole s) (level : Nat) :
    Whole (s ++ Style.indented.lineBreak level) :=
  Text.whole_append.mpr ⟨h, whole_lineBreak level⟩

/-- The pieces of a list, once it is known of its items what stands before and between them. -/
theorem whole_list_iff {items : List Value} {p : Prop}
    (hitems : ∀ (level : Nat) (before between : String), Whole before → Whole between →
      ((∀ piece ∈ itemPieces .indented level before between items, Whole piece) ↔ p))
    (hnil : items = [] → p) (level : Nat) (before : String) :
    (∀ piece ∈ pieces .indented level before (.list items), Whole piece) ↔ Whole before ∧ p := by
  rw [pieces]
  split
  · next h =>
    have hp := hnil (List.isEmpty_iff.mp h)
    have hbrackets : Whole "[]" := by decide
    simp [Text.whole_append, hp, hbrackets]
  · have hopen : Whole "[" := by decide
    have hclose : Whole "]" := by decide
    have hcomma : Whole Style.indented.comma := by decide
    rw [List.forall_mem_cons, List.forall_mem_append, hitems _ _ _
      (whole_append_lineBreak hopen _) (whole_append_lineBreak hcomma _)]
    simp [whole_lineBreak, hclose]

theorem whole_object_iff {fields : Fields} {p : Prop}
    (hfields : ∀ (level : Nat) (before between : String), Whole before → Whole between →
      ((∀ piece ∈ fieldPieces .indented level before between fields, Whole piece) ↔ p))
    (hnil : fields = [] → p) (level : Nat) (before : String) :
    (∀ piece ∈ pieces .indented level before (.object fields), Whole piece) ↔
      Whole before ∧ p := by
  rw [pieces]
  split
  · next h =>
    have hp := hnil (List.isEmpty_iff.mp h)
    have hbraces : Whole "\x7b\x7d" := by decide
    simp [Text.whole_append, hp, hbraces]
  · have hopen : Whole "\x7b" := by decide
    have hclose : Whole "\x7d" := by decide
    have hcomma : Whole Style.indented.comma := by decide
    rw [List.forall_mem_cons, List.forall_mem_cons, List.forall_mem_append, hfields _ _ _
      (whole_lineBreak _) (whole_append_lineBreak hcomma _)]
    simp [whole_lineBreak, hopen, hclose]

mutual

/-- Neither the level of a value nor what stands before it makes a difference. -/
theorem whole_pieces_iff : ∀ (v : Value) (level : Nat) (before : String),
    (∀ piece ∈ pieces .indented level before v, Whole piece) ↔ Whole before ∧ Encodable v
  | .null, _, _ | .bool _, _, _ | .int _, _, _ | .real _, _, _ | .undefined _, _, _ |
    .text _, _, _ => by
      simp [pieces, Encodable, Text.whole_append]
  | .list items, level, before => by
      have hparts := whole_list_iff (whole_itemPieces_iff items) (fun h => by simp [h])
      rw [Encodable, hparts level before, hparts 0 "", and_iff_right (by decide : Whole "")]
  | .object fields, level, before => by
      have hparts := whole_object_iff (whole_fieldPieces_iff fields) (fun h => by simp [h])
      rw [Encodable, hparts level before, hparts 0 "", and_iff_right (by decide : Whole "")]

theorem whole_itemPieces_iff : ∀ (items : List Value) (level : Nat) (before between : String),
    Whole before → Whole between →
      ((∀ piece ∈ itemPieces .indented level before between items, Whole piece) ↔
        ∀ x ∈ items, Encodable x)
  | [], _, _, _, _, _ => by simp [itemPieces]
  | x :: xs, level, before, between, hbefore, hbetween => by
    rw [itemPieces, List.forall_mem_append, whole_pieces_iff x,
      whole_itemPieces_iff xs level between between hbetween hbetween, List.forall_mem_cons,
      and_iff_right hbefore]

theorem whole_fieldPieces_iff : ∀ (fields : Fields) (level : Nat) (before between : String),
    Whole before → Whole between →
      ((∀ piece ∈ fieldPieces .indented level before between fields, Whole piece) ↔
        ∀ f ∈ fields, Whole (textToken false f.1) ∧ Encodable f.2)
  | [], _, _, _, _, _ => by simp [fieldPieces]
  | (key, x) :: rest, level, before, between, hbefore, hbetween => by
    have hcolon : Whole Style.indented.colon := by decide
    have hnothing : Whole "" := by decide
    have hrest := whole_fieldPieces_iff rest level between between hbetween hbetween
    simp only [fieldPieces, List.forall_mem_cons, List.forall_mem_append, whole_pieces_iff x,
      hrest, hbefore, hcolon, hnothing, true_and, and_assoc]
    rfl

end

theorem encodable_list {items : List Value} :
    Encodable (.list items) ↔ ∀ x ∈ items, Encodable x := by
  rw [Encodable, whole_list_iff (whole_itemPieces_iff items) (fun h => by simp [h]),
    and_iff_right (by decide)]

theorem encodable_object {fields : Fields} :
    Encodable (.object fields) ↔ ∀ f ∈ fields, Whole (textToken false f.1) ∧ Encodable f.2 := by
  rw [Encodable, whole_object_iff (whole_fieldPieces_iff fields) (fun h => by simp [h]),
    and_iff_right (by decide)]

theorem encodable_natCast (n : Nat) : Encodable (.int n) := by
  have hdigits : Whole n.repr := by
    refine Text.whole_of_lt fun c hc => ?_
    rw [Nat.repr, String.toList_ofList] at hc
    have hdigit := Nat.isDigit_of_mem_toDigits (by decide) (by decide) hc
    have hnine : c.toNat ≤ '9'.toNat := (Char.isDigit_iff_toNat.mp hdigit).2
    exact Nat.lt_of_le_of_lt hnine (by decide)
  have htext : (n : Int).repr = n.repr := rfl
  simpa [Encodable, pieces, htext] using hdigits

end Json

end TradingRules
