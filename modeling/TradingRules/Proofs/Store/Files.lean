import Mathlib.Logic.Function.Basic
import TradingRules.Proofs.Json.Encodable
import TradingRules.Proofs.Lists
import TradingRules.Proofs.Value.Execution
import TradingRules.Store.Basic

/-!
# Texts under ids

What a store keeps for an id is the text of one file. Putting a value under an id changes that text
and no other one; a value that cannot be written changes none, since its draft stands under no id.
-/

namespace TradingRules

/-- A value is read as what was written, if it was written. -/
def Json.ReadsBack (v : Value) : Prop :=
  ∀ text, writeEncodable .indented v = .ok text → read (Text.ofFile text) = .ok v

theorem Json.readsBack_of_eq {v : Value} (h : read (Text.ofFile (write .indented v)) = .ok v) :
    ReadsBack v := by
  intro text htext
  by_cases hv : Encodable v
  · rw [writeEncodable_of_encodable hv] at htext
    rwa [← Except.ok.inj htext]
  · obtain ⟨before, halves, herror⟩ := exists_writeEncodable_eq_error hv
    rw [herror] at htext
    cases htext

namespace Store

variable {s : Store} {id name text : String} {v : Value}

theorem read?_write (s : Store) (name text other : String) :
    (s.write name text).read? other = if other = name then some text else s.read? other := by
  rw [read?, read?, write]
  simp only [Option.getD_some]
  generalize s.files.getD [] = files
  have hany : files.any (·.1 == name) = (files.find? (·.1 == name)).isSome := by
    rw [Bool.eq_iff_iff, List.any_eq_true, List.find?_isSome]
  cases hfind : files.find? (·.1 == name) with
  | some f =>
    have hreplaced := List.find?_replaced Prod.fst (name, text) files other
    rw [if_pos (by rw [hany, hfind, Option.isSome_some]), hreplaced, hfind]
    split <;> rfl
  | none =>
    rw [if_neg (by rw [hany, hfind, Option.isSome_none]; decide), List.find?_append]
    by_cases h : other = name
    · subst h
      simp [hfind]
    · simp [h, eq_comm (a := name)]

theorem read?_remove (s : Store) (name other : String) :
    (s.remove name).read? other = if other = name then none else s.read? other := by
  rw [read?, read?, remove]
  cases s.files with
  | none => simp
  | some files =>
    simp only [Option.map_some, Option.getD_some, List.find?_filter]
    by_cases h : other = name
    · simp [h]
    · have hother : ∀ f : String × String,
          decide ((f.1 != name) = true ∧ (f.1 == other) = true) = (f.1 == other) := by
        intro f
        by_cases hf : f.1 = other <;> simp [hf, h]
      simp only [hother, if_neg h]

/-- The text that is kept under an id. -/
def textOf? (s : Store) (id : String) : Option String :=
  s.read? (id ++ ".json")

theorem ne_draftOf (id name : String) : id ++ ".json" ≠ draftOf name := by
  intro h
  have hlast := congrArg (fun s : String => s.toList.getLast?) h
  simp [draftOf] at hlast

theorem textOf?_write (s : Store) (id text : String) :
    (s.write (id ++ ".json") text).textOf? = Function.update s.textOf? id (some text) := by
  funext other
  simp [textOf?, read?_write, Function.update_apply]

theorem textOf?_remove (s : Store) (id : String) :
    (s.remove (id ++ ".json")).textOf? = Function.update s.textOf? id none := by
  funext other
  simp [textOf?, read?_remove, Function.update_apply]

theorem textOf?_write_draftOf (s : Store) (name text : String) :
    (s.write (draftOf name) text).textOf? = s.textOf? := by
  funext other
  rw [textOf?, read?_write, if_neg (ne_draftOf other name), textOf?]

theorem textOf?_remove_draftOf (s : Store) (name : String) :
    (s.remove (draftOf name)).textOf? = s.textOf? := by
  funext other
  rw [textOf?, read?_remove, if_neg (ne_draftOf other name), textOf?]

theorem put_of_encodable (s : Store) (id : String) (h : Json.Encodable v) :
    ∃ s', (put (id ++ ".json") v).exec s = (.ok (), s') ∧
      s'.textOf? = Function.update s.textOf? id (some (Json.write .indented v)) := by
  rw [put, Json.writeEncodable_of_encodable h]
  refine ⟨_, ExceptT.exec_modify s _, ?_⟩
  rw [textOf?_write, textOf?_remove_draftOf]

theorem put_of_not_encodable (s : Store) (id : String) (h : ¬ Json.Encodable v) :
    ∃ e s', (put (id ++ ".json") v).exec s = (.error e, s') ∧ s'.textOf? = s.textOf? := by
  obtain ⟨before, halves, hwrite⟩ := Json.exists_writeEncodable_eq_error h
  rw [put, hwrite]
  exact ⟨.unencodable halves, _, rfl, textOf?_write_draftOf s _ before⟩

theorem value?_of_textOf? (hread : Json.ReadsBack v) (hv : Json.Encodable v)
    (h : s.textOf? id = some (Json.write .indented v)) :
    s.value? (id ++ ".json") = .ok (some v) := by
  rw [textOf?] at h
  rw [value?, h]
  dsimp only
  rw [hread _ (Json.writeEncodable_of_encodable hv)]

theorem value?_of_textOf?_none (h : s.textOf? id = none) :
    s.value? (id ++ ".json") = .ok none := by
  rw [textOf?] at h
  rw [value?, h]

end Store

end TradingRules
