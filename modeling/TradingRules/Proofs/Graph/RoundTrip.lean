import TradingRules.Graph.Basic
import TradingRules.Proofs.Value.Fields
import TradingRules.Proofs.Value.Outcome

/-!
# Round trips of graphs

Reading a graph and writing it again gives back what was saved exactly if nothing in it is left open
that writing fills in, or filled in that writing leaves open. Fields that the engine does not know
are kept in any case, in the graph and in each node and connection. After one round trip nothing
changes any more.
-/

namespace TradingRules

/-! ### Records -/

/-- Each field but some known ones is kept as it was. -/
def Fields.KeepsOthers (known : List String) (before after : Fields) : Prop :=
  ∀ key ∉ known, get? after key = get? before key

/-- A part of a record with its value. When the record is written, a null part is left out unless it
is required. -/
structure Slot where
  key : String
  required : Bool
  value : Value

namespace Slot

def value? (p : Slot) : Option Value :=
  if p.required || !p.value.isNull then some p.value else none

def write (out : Fields) (p : Slot) : Fields :=
  if p.required then out.set p.key p.value else out.put p.key p.value

def fields (slots : List Slot) : Fields :=
  slots.filterMap fun p => p.value?.map (p.key, ·)

/-- A record whose parts have new values. All other fields follow. -/
def record (slots : List Slot) (f : Fields) : Fields :=
  fields slots ++ f.without (slots.map (·.key))

variable {slots : List Slot} {p : Slot} {f out : Fields} {key : String}

theorem fields_append (slots more : List Slot) :
    fields (slots ++ more) = fields slots ++ fields more :=
  List.filterMap_append

theorem write_eq_append (h : p.key ∉ out.keys) : write out p = out ++ fields [p] := by
  rw [write, fields, List.filterMap_cons, value?]
  cases p.required with
  | true => exact Fields.set_eq_append h
  | false =>
    cases hv : p.value with
    | null => exact (List.append_nil out).symm
    | _ => exact Fields.set_eq_append h

theorem keys_fields_sublist (slots : List Slot) :
    (fields slots).keys.Sublist (slots.map (·.key)) := by
  induction slots with
  | nil => exact .slnil
  | cons p slots ih =>
    rw [fields, List.filterMap_cons]
    cases p.value? with
    | none => exact ih.cons _
    | some v => exact ih.cons_cons _

theorem foldl_write (h : (out.keys ++ slots.map (·.key)).Nodup) :
    slots.foldl write out = out ++ fields slots := by
  induction slots generalizing out with
  | nil => exact (List.append_nil out).symm
  | cons p slots ih =>
    have hnew : p.key ∉ out.keys := by
      intro hmem
      exact (List.nodup_append.mp h).2.2 p.key hmem p.key List.mem_cons_self rfl
    have hrest : ((out ++ fields [p]).keys ++ slots.map (·.key)).Nodup := by
      rw [List.map_cons, List.append_cons] at h
      rw [Fields.keys, List.map_append]
      exact h.sublist (((List.Sublist.refl _).append (keys_fields_sublist [p])).append_right _)
    rw [List.foldl_cons, write_eq_append hnew, ih hrest, List.append_assoc, ← fields_append]
    rfl

section

variable (hslots : (slots.map (·.key)).Nodup)
include hslots

theorem get?_fields (hp : p ∈ slots) : Fields.get? (fields slots) p.key = p.value? := by
  have hkeys := hslots.sublist (keys_fields_sublist slots)
  cases hv : p.value? with
  | some v =>
    rw [Fields.get?_eq_some_iff hkeys]
    exact List.mem_filterMap.mpr ⟨p, hp, by rw [hv, Option.map_some]⟩
  | none =>
    rw [Fields.get?_eq_none_iff]
    intro hmem
    obtain ⟨q, hq, hkey⟩ := List.mem_map.mp hmem
    obtain ⟨p', hp', hq⟩ := List.mem_filterMap.mp hq
    obtain ⟨v, hv', rfl⟩ := Option.map_eq_some_iff.mp hq
    obtain rfl : p' = p := List.inj_on_of_nodup_map hslots hp' hp hkey
    rw [hv] at hv'
    cases hv'

theorem get?_record_of_mem (hp : p ∈ slots) : Fields.get? (record slots f) p.key = p.value? := by
  have hkey : p.key ∈ slots.map (·.key) := List.mem_map_of_mem hp
  rw [record, Fields.get?_append, get?_fields hslots hp, Fields.get?_without, if_pos hkey,
    Option.or_none]

theorem get_record (hp : p ∈ slots) : (record slots f).get p.key = p.value := by
  rw [Fields.get, get?_record_of_mem hslots hp, value?]
  cases p.required <;> cases p.value <;> rfl

theorem nodup_keys_record (hf : f.keys.Nodup) : (record slots f).keys.Nodup := by
  rw [Fields.keys, record, List.map_append, List.nodup_append]
  refine ⟨hslots.sublist (keys_fields_sublist slots),
    hf.sublist (Fields.keys_without_sublist _ _), ?_⟩
  intro key hkey other hother heq
  subst heq
  exact Fields.not_mem_of_mem_keys_without hother ((keys_fields_sublist slots).subset hkey)

end

theorem get?_record_of_not_mem (hkey : key ∉ slots.map (·.key)) :
    Fields.get? (record slots f) key = Fields.get? f key := by
  have hnone : Fields.get? (fields slots) key = none := by
    rw [Fields.get?_eq_none_iff]
    exact fun hmem => hkey ((keys_fields_sublist slots).subset hmem)
  rw [record, Fields.get?_append, hnone, Option.none_or, Fields.get?_without, if_neg hkey]

theorem keepsOthers_record (slots : List Slot) (f : Fields) :
    f.KeepsOthers (slots.map (·.key)) (record slots f) :=
  fun _ => get?_record_of_not_mem

theorem without_record (slots : List Slot) (f : Fields) :
    (record slots f).without (slots.map (·.key)) = f.without (slots.map (·.key)) := by
  have hfields : (fields slots).without (slots.map (·.key)) = [] :=
    Fields.without_eq_nil fun key hkey => (keys_fields_sublist slots).subset hkey
  have hrest : (f.without (slots.map (·.key))).without (slots.map (·.key)) =
      f.without (slots.map (·.key)) :=
    Fields.without_eq_self fun key hkey => Fields.not_mem_of_mem_keys_without hkey
  rw [record, Fields.without, List.filter_append, ← Fields.without, ← Fields.without, hfields,
    hrest, List.nil_append]

theorem record_record (slots : List Slot) (f : Fields) :
    record slots (record slots f) = record slots f := by
  rw [record, without_record, ← record]

/-- A record is written part by part, and then its other fields. -/
theorem foldl_write_merge (hslots : (slots.map (·.key)).Nodup) (hf : f.keys.Nodup) :
    (slots.foldl write []).merge (f.without (slots.map (·.key))) = record slots f := by
  have hkeys : (Fields.keys [] ++ slots.map (·.key)).Nodup := hslots
  rw [foldl_write hkeys, List.nil_append]
  exact Fields.merge_eq_append (nodup_keys_record hslots hf)

theorem beq_record_iff (hslots : (slots.map (·.key)).Nodup) (hf : (Value.object f).IsJson) :
    (Value.object (record slots f) == .object f) = true ↔
      ∀ p ∈ slots, Value.SamePart p.value? (Fields.get? f p.key) := by
  have hkeys := hf.nodup_keys
  rw [Value.beq_object_iff (nodup_keys_record hslots hkeys) hkeys]
  constructor
  · intro h p hp
    rw [← get?_record_of_mem hslots hp]
    exact h p.key
  · intro h key
    by_cases hkey : key ∈ slots.map (·.key)
    · obtain ⟨p, hp, rfl⟩ := List.mem_map.mp hkey
      rw [get?_record_of_mem hslots hp]
      exact h p hp
    · rw [get?_record_of_not_mem hkey]
      cases hv : Fields.get? f key with
      | none => exact .none
      | some v => exact .some (hf.of_get? hv).isSame_self

/-- A part that is copied stays the same if a required part is there, and no other part is null. -/
theorem rel_copied (hf : (Value.object f).IsJson) (key : String) (required : Bool) :
    Value.SamePart (value? ⟨key, required, f.get key⟩) (Fields.get? f key) ↔
      Fields.get? f key ≠ if required then none else some .null := by
  have hself {v : Value} (hv : Fields.get? f key = some v) : v.isSame v = true :=
    (hf.of_get? hv).isSame_self
  rw [value?, Fields.get]
  cases hv : Fields.get? f key with
  | none => cases required <;> simp [Value.isNull]
  | some v => cases required <;> cases v <;> simp [Value.isNull, hself hv]

end Slot

/-! ### Nodes and connections -/

/-- Writing fills in nothing and leaves nothing out of a node: it has an id, and no other part of it
is null. -/
def Node.Intact (f : Fields) : Prop :=
  Fields.get? f "id" ≠ none ∧
    ∀ key ∈ ["label", "kind", "position", "controls"], Fields.get? f key ≠ some .null

/-- A connection has both ends, and no other part of it is null. -/
def Connection.Intact (f : Fields) : Prop :=
  (∀ key ∈ ["source", "target"], Fields.get? f key ≠ none) ∧
    ∀ key ∈ ["id", "sourceOutput", "targetInput"], Fields.get? f key ≠ some .null

namespace Node

def knownKeys : List String :=
  ["id", "label", "kind", "position", "controls"]

def slots (f : Fields) : List Slot :=
  [⟨"id", true, f.get "id"⟩, ⟨"label", false, f.get "label"⟩, ⟨"kind", false, f.get "kind"⟩,
    ⟨"position", false, f.get "position"⟩, ⟨"controls", false, f.get "controls"⟩]

variable {f : Fields}

theorem nodup_slots (f : Fields) : ((slots f).map (·.key)).Nodup := by
  show knownKeys.Nodup
  decide

theorem extra_ofFields (f : Fields) : (ofFields f).extra = f.without knownKeys := by
  refine List.filter_congr fun p _ => ?_
  simp only [knownKeys, List.contains_cons, List.contains_nil]
  grind

theorem toFields_ofFields (hf : f.keys.Nodup) :
    (ofFields f).toFields = Slot.record (slots f) f := by
  have hwrite : (ofFields f).toFields =
      ((slots f).foldl Slot.write []).merge (ofFields f).extra := rfl
  rw [hwrite, extra_ofFields]
  exact Slot.foldl_write_merge (nodup_slots f) hf

theorem keepsOthers_toFields (hf : f.keys.Nodup) :
    f.KeepsOthers knownKeys (ofFields f).toFields := by
  rw [toFields_ofFields hf]
  exact Slot.keepsOthers_record (slots f) f

theorem beq_toFields_iff (hf : (Value.object f).IsJson) :
    (Value.object (ofFields f).toFields == .object f) = true ↔ Intact f := by
  rw [toFields_ofFields hf.nodup_keys, Slot.beq_record_iff (nodup_slots f) hf]
  simp [slots, Slot.rel_copied hf, Intact]

/-- Reading what was written of a node gives the node again. -/
theorem ofFields_toFields (hf : f.keys.Nodup) :
    ofFields (ofFields f).toFields = ofFields f := by
  rw [toFields_ofFields hf]
  have hextra : (ofFields (Slot.record (slots f) f)).extra = (ofFields f).extra := by
    rw [extra_ofFields, extra_ofFields]
    exact Slot.without_record (slots f) f
  have hget : ∀ p ∈ slots f, (Slot.record (slots f) f).get p.key = p.value :=
    fun p => Slot.get_record (nodup_slots f)
  generalize Slot.record (slots f) f = written at hextra hget
  simp only [slots, List.forall_mem_cons] at hget
  obtain ⟨hid, hlabel, hkind, hposition, hcontrols, -⟩ := hget
  rw [ofFields, ofFields, Node.mk.injEq]
  exact ⟨hid, hkind, hlabel, hposition, hcontrols, hextra⟩

end Node

namespace Connection

def knownKeys : List String :=
  ["id", "source", "target", "sourceOutput", "targetInput"]

def slots (f : Fields) : List Slot :=
  [⟨"id", false, f.get "id"⟩, ⟨"source", true, f.get "source"⟩, ⟨"target", true, f.get "target"⟩,
    ⟨"sourceOutput", false, f.get "sourceOutput"⟩, ⟨"targetInput", false, f.get "targetInput"⟩]

variable {f : Fields}

theorem nodup_slots (f : Fields) : ((slots f).map (·.key)).Nodup := by
  show knownKeys.Nodup
  decide

theorem toFields_ofFields (hf : f.keys.Nodup) :
    (ofFields f).toFields = Slot.record (slots f) f :=
  Slot.foldl_write_merge (nodup_slots f) hf

theorem keepsOthers_toFields (hf : f.keys.Nodup) :
    f.KeepsOthers knownKeys (ofFields f).toFields := by
  rw [toFields_ofFields hf]
  exact Slot.keepsOthers_record (slots f) f

theorem beq_toFields_iff (hf : (Value.object f).IsJson) :
    (Value.object (ofFields f).toFields == .object f) = true ↔ Intact f := by
  rw [toFields_ofFields hf.nodup_keys, Slot.beq_record_iff (nodup_slots f) hf]
  simp [slots, Slot.rel_copied hf, Intact]
  tauto

theorem ofFields_toFields (hf : f.keys.Nodup) :
    ofFields (ofFields f).toFields = ofFields f := by
  rw [toFields_ofFields hf]
  have hextra : (Slot.record (slots f) f).without knownKeys = f.without knownKeys :=
    Slot.without_record (slots f) f
  have hget : ∀ p ∈ slots f, (Slot.record (slots f) f).get p.key = p.value :=
    fun p => Slot.get_record (nodup_slots f)
  generalize Slot.record (slots f) f = written at hextra hget
  simp only [slots, List.forall_mem_cons] at hget
  obtain ⟨hid, hsource, htarget, hsourceOutput, htargetInput, -⟩ := hget
  rw [ofFields, ofFields, Connection.mk.injEq]
  exact ⟨hid, hsource, htarget, hsourceOutput, htargetInput, hextra⟩

end Connection

/-! ### Graphs -/

namespace Value

/-- The objects among the items of a list; nothing else has any. -/
def objects : Value → List Fields
  | list items => items.filterMap fields?
  | _ => []

/-- A list, or something that counts as false in the place of one. -/
def IsListed (v : Value) : Prop :=
  v.isTruthy = false ∨ ∃ items, v = list items

theorem objectItems_eq {v : Value} (h : v.IsListed) : v.objectItems = .ok v.objects := by
  rcases h with h | ⟨items, rfl⟩
  · rw [objectItems, if_neg (by simp [h])]
    cases v with
    | list items =>
      have hnil : items = [] := by simpa [isTruthy] using h
      rw [hnil]
      rfl
    | _ => rfl
  · cases items with
    | nil => rfl
    | cons => rfl

theorem IsJson.of_mem_objects {v : Value} (h : v.IsJson) {f : Fields} (hf : f ∈ v.objects) :
    (Value.object f).IsJson := by
  cases h with
  | list h =>
    obtain ⟨w, hw, hfields⟩ := List.mem_filterMap.mp hf
    cases w with
    | object f' =>
      obtain rfl := Option.some.inj hfields
      exact h _ hw
    | _ => cases hfields
  | _ => cases hf

theorem objects_map_object (l : List Fields) : (list (l.map object)).objects = l := by
  rw [objects, List.filterMap_map]
  exact List.filterMap_some

theorem eq_map_object {items : List Value}
    (h : (items.filterMap fields?).length = items.length) :
    items = (items.filterMap fields?).map object := by
  induction items with
  | nil => rfl
  | cons v items ih =>
    have hle := List.length_filterMap_le fields? items
    cases v with
    | object f =>
      have hfields : fields? (object f) = some f := rfl
      rw [List.filterMap_cons_some hfields, List.length_cons, List.length_cons] at h
      rw [List.filterMap_cons_some hfields, List.map_cons, ← ih (by omega)]
    | _ =>
      rw [List.filterMap_cons, List.length_cons] at h
      simp only [fields?] at h
      omega

theorem isSame_object_iff {f g : Fields} :
    (object f).isSame (object g) = true ↔ (object f == object g) = true := by
  simp [isSame, isOneNaN]

/-- A list of objects that are rewritten is the same as what it was made from exactly if that was a
list of objects, and each of them is the same when it is rewritten. -/
theorem rel_rewritten (rewrite : Fields → Fields) (v? : Option Value) :
    SamePart (some (list ((v?.getD null).objects.map fun f => object (rewrite f)))) v? ↔
      ∃ l : List Fields, v? = some (list (l.map object)) ∧
        ∀ f ∈ l, (object (rewrite f) == object f) = true := by
  have hrewritten (l : List Fields) :
      List.Forall₂ (fun x y : Value => x.isSame y = true) (l.map fun f => object (rewrite f))
          (l.map object) ↔ ∀ f ∈ l, (object (rewrite f) == object f) = true := by
    rw [List.forall₂_map_left_iff, List.forall₂_map_right_iff, List.forall₂_same]
    simp only [isSame_object_iff]
  constructor
  · intro h
    cases v? with
    | none => cases h
    | some v =>
      cases h with
      | some hsame =>
        cases v with
        | list items =>
          have hall := isSame_list_iff.mp hsame
          have hlength := hall.length_eq
          rw [List.length_map] at hlength
          obtain ⟨l, rfl⟩ : ∃ l : List Fields, items = l.map object := ⟨_, eq_map_object hlength⟩
          rw [Option.getD_some, objects_map_object] at hall
          exact ⟨l, rfl, (hrewritten l).mp hall⟩
        | _ => simp [isSame, isOneNaN, BEq.beq, equal] at hsame
  · rintro ⟨l, rfl, hl⟩
    refine .some (isSame_list_iff.mpr ?_)
    rw [Option.getD_some, objects_map_object]
    exact (hrewritten l).mpr hl

end Value

namespace Graph

open Slot (record)

def knownKeys : List String :=
  ["nodes", "connections", "viewport"]

def viewportOf : Value → Value
  | .object viewport => .object viewport
  | _ => .null

def viewportSlot (viewport : Value) : Slot :=
  ⟨"viewport", false, if viewport.isTruthy then viewport else .null⟩

/-- The graph that is read from the fields of an object. -/
def ofFields (f : Fields) : Graph where
  nodes := (f.get "nodes").objects.map Node.ofFields
  connections := (f.get "connections").objects.map Connection.ofFields
  viewport := viewportOf (f.get "viewport")
  extra := f.without knownKeys

def slots (g : Graph) : List Slot :=
  [⟨"nodes", true, .list (g.nodes.map fun n => .object n.toFields)⟩,
    ⟨"connections", true, .list (g.connections.map fun c => .object c.toFields)⟩,
    viewportSlot g.viewport]

/-- Nothing is left open in a graph that writing fills in, and nothing is filled in that writing
leaves open. -/
structure Intact (f : Fields) : Prop where
  nodes : ∃ nodes : List Fields, Fields.get? f "nodes" = some (.list (nodes.map .object)) ∧
    ∀ n ∈ nodes, Node.Intact n
  connections : ∃ connections : List Fields,
    Fields.get? f "connections" = some (.list (connections.map .object)) ∧
      ∀ c ∈ connections, Connection.Intact c
  viewport : Fields.get? f "viewport" = none ∨
    ∃ p rest, Fields.get? f "viewport" = some (.object (p :: rest))

/-- The fields that the engine does not know are kept, in the graph and in each node and connection
of it. -/
structure KeepsUnknown (before after : Fields) : Prop where
  graph : before.KeepsOthers knownKeys after
  nodes : ∃ nodes : List Fields, Fields.get? after "nodes" = some (.list (nodes.map .object)) ∧
    List.Forall₂ (Fields.KeepsOthers Node.knownKeys) (before.get "nodes").objects nodes
  connections : ∃ connections : List Fields,
    Fields.get? after "connections" = some (.list (connections.map .object)) ∧
      List.Forall₂ (Fields.KeepsOthers Connection.knownKeys) (before.get "connections").objects
        connections

variable {f : Fields} {g : Graph}

theorem nodup_slots (g : Graph) : (g.slots.map (·.key)).Nodup := by
  show knownKeys.Nodup
  decide

theorem ofValue_object (hnodes : (f.get "nodes").IsListed)
    (hconnections : (f.get "connections").IsListed) : ofValue (.object f) = .ok (ofFields f) := by
  cases f with
  | nil => rfl
  | cons p f =>
    have htruthy : (Value.object (p :: f)).isTruthy = true := rfl
    rw [ofValue, htruthy, Value.asFields, Outcome.ok_bind, Value.objectItems_eq hnodes,
      Outcome.ok_bind, Value.objectItems_eq hconnections, Outcome.ok_bind]
    rfl

theorem toValue_ofFields (hf : f.keys.Nodup) :
    (ofFields f).toValue = .object (record (ofFields f).slots f) := by
  have hwrite : (ofFields f).toValue =
      .object (((ofFields f).slots.foldl Slot.write []).merge (f.without knownKeys)) := rfl
  rw [hwrite]
  exact congrArg Value.object (Slot.foldl_write_merge (nodup_slots _) hf)

theorem rel_viewport {v? : Option Value} (hself : ∀ v ∈ v?, v.isSame v = true) :
    Value.SamePart (viewportSlot (viewportOf (v?.getD .null))).value? v? ↔
      v? = none ∨ ∃ p rest, v? = some (.object (p :: rest)) := by
  have hnull : (viewportSlot .null).value? = none := rfl
  cases v? with
  | none => simp [viewportOf, hnull]
  | some v =>
    cases v with
    | object viewport =>
      cases viewport with
      | nil =>
        have hempty : (viewportSlot (.object [])).value? = none := rfl
        simp [viewportOf, hempty]
      | cons p rest =>
        have hfull : (viewportSlot (.object (p :: rest))).value? = some (.object (p :: rest)) := rfl
        simpa [viewportOf, hfull] using hself
    | _ => simp [viewportOf, hnull]

theorem isJson_of_mem_objects (hf : (Value.object f).IsJson) (key : String) {n : Fields}
    (hn : n ∈ (f.get key).objects) : (Value.object n).IsJson := by
  rw [Fields.get] at hn
  cases hv : Fields.get? f key with
  | none =>
    rw [hv] at hn
    cases hn
  | some v =>
    rw [hv] at hn
    exact (hf.of_get? hv).of_mem_objects hn

theorem rel_list (hf : (Value.object f).IsJson) (key : String) {rewrite : Fields → Fields}
    {P : Fields → Prop} (hrewrite : ∀ n, (Value.object n).IsJson →
      ((Value.object (rewrite n) == .object n) = true ↔ P n)) :
    Value.SamePart (some (.list ((f.get key).objects.map fun n => .object (rewrite n))))
        (Fields.get? f key) ↔
      ∃ l : List Fields, Fields.get? f key = some (.list (l.map .object)) ∧ ∀ n ∈ l, P n := by
  rw [Fields.get, Value.rel_rewritten]
  refine exists_congr fun l => and_congr_right fun hl => forall₂_congr fun n hn => hrewrite n ?_
  apply isJson_of_mem_objects hf key
  rw [Fields.get, hl, Option.getD_some, Value.objects_map_object]
  exact hn

theorem beq_toValue_iff (hf : (Value.object f).IsJson) :
    ((ofFields f).toValue == .object f) = true ↔ Intact f := by
  have hnodes := rel_list hf "nodes" fun n => Node.beq_toFields_iff
  have hconnections := rel_list hf "connections" fun c => Connection.beq_toFields_iff
  have hviewport := rel_viewport fun v (hv : Fields.get? f "viewport" = some v) =>
    (hf.of_get? hv).isSame_self
  rw [toValue_ofFields hf.nodup_keys, Slot.beq_record_iff (nodup_slots _) hf]
  simp only [slots, List.forall_mem_cons, ofFields, List.map_map]
  constructor
  · rintro ⟨h₁, h₂, h₃, -⟩
    exact ⟨hnodes.mp h₁, hconnections.mp h₂, hviewport.mp h₃⟩
  · rintro ⟨h₁, h₂, h₃⟩
    exact ⟨hnodes.mpr h₁, hconnections.mpr h₂, hviewport.mpr h₃, by simp⟩

/-- What is written in the place of a list is read as the same objects again. -/
theorem objects_rewritten {α : Type} {read : Fields → α} {write : α → Fields} {l : List Fields}
    (hread : ∀ n ∈ l, read (write (read n)) = read n) :
    (Value.list ((l.map read).map fun a => .object (write a))).objects.map read = l.map read := by
  have hlist : ((l.map read).map fun a => Value.object (write a)) =
      (l.map (write ∘ read)).map Value.object := by
    simp only [List.map_map, Function.comp_def]
  rw [hlist, Value.objects_map_object, List.map_map]
  exact List.map_congr_left hread

theorem viewportSlot_viewportOf (v : Value) :
    viewportSlot (viewportOf (viewportSlot (viewportOf v)).value) =
      viewportSlot (viewportOf v) := by
  cases v with
  | object viewport => cases viewport <;> rfl
  | _ => rfl

theorem slots_ofFields_record (hf : (Value.object f).IsJson) :
    (ofFields (record (ofFields f).slots f)).slots = (ofFields f).slots := by
  have hget : ∀ p ∈ (ofFields f).slots, (record (ofFields f).slots f).get p.key = p.value :=
    fun p => Slot.get_record (nodup_slots _)
  generalize record (ofFields f).slots f = written at hget
  simp only [slots, List.forall_mem_cons] at hget
  obtain ⟨hnodes, hconnections, hviewport, -⟩ := hget
  have hnodes : (ofFields written).nodes = (ofFields f).nodes := by
    rw [ofFields, hnodes]
    exact objects_rewritten fun n hn =>
      Node.ofFields_toFields (isJson_of_mem_objects hf "nodes" hn).nodup_keys
  have hconnections : (ofFields written).connections = (ofFields f).connections := by
    rw [ofFields, hconnections]
    exact objects_rewritten fun c hc =>
      Connection.ofFields_toFields (isJson_of_mem_objects hf "connections" hc).nodup_keys
  have hviewport :
      viewportSlot (ofFields written).viewport = viewportSlot (ofFields f).viewport := by
    rw [ofFields, show written.get "viewport" = _ from hviewport]
    exact viewportSlot_viewportOf _
  rw [slots, slots, hnodes, hconnections, hviewport]

/-- Reading what was written of a graph and writing it again changes nothing. -/
theorem toValue_ofFields_record (hf : (Value.object f).IsJson) :
    (ofFields (record (ofFields f).slots f)).toValue = .object (record (ofFields f).slots f) := by
  rw [toValue_ofFields (Slot.nodup_keys_record (nodup_slots _) hf.nodup_keys),
    slots_ofFields_record hf, Slot.record_record]

theorem keepsUnknown_record (hf : (Value.object f).IsJson) :
    KeepsUnknown f (record (ofFields f).slots f) := by
  have hget : ∀ p ∈ (ofFields f).slots,
      Fields.get? (record (ofFields f).slots f) p.key = p.value? :=
    fun p => Slot.get?_record_of_mem (nodup_slots _)
  have hgraph : f.KeepsOthers knownKeys (record (ofFields f).slots f) :=
    Slot.keepsOthers_record (ofFields f).slots f
  generalize record (ofFields f).slots f = written at hget hgraph
  simp only [slots, List.forall_mem_cons] at hget
  obtain ⟨hnodes, hconnections, -⟩ := hget
  refine ⟨hgraph, ⟨(ofFields f).nodes.map Node.toFields, ?_, ?_⟩,
    ⟨(ofFields f).connections.map Connection.toFields, ?_, ?_⟩⟩
  · rw [List.map_map]
    exact hnodes
  · rw [ofFields, List.map_map, List.forall₂_map_right_iff, List.forall₂_same]
    exact fun n hn => Node.keepsOthers_toFields (isJson_of_mem_objects hf "nodes" hn).nodup_keys
  · rw [List.map_map]
    exact hconnections
  · rw [ofFields, List.map_map, List.forall₂_map_right_iff, List.forall₂_same]
    exact fun c hc =>
      Connection.keepsOthers_toFields (isJson_of_mem_objects hf "connections" hc).nodup_keys

/-- A graph that keeps the unknown fields of another one can be read again. -/
theorem KeepsUnknown.ofValue_object {written : Fields} (h : KeepsUnknown f written) :
    ofValue (.object written) = .ok (ofFields written) := by
  have hlisted {key : String} {l : List Fields}
      (hl : Fields.get? written key = some (.list (l.map .object))) :
      (written.get key).IsListed := by
    rw [Fields.get, hl]
    exact .inr ⟨_, rfl⟩
  obtain ⟨nodes, hnodes, -⟩ := h.nodes
  obtain ⟨connections, hconnections, -⟩ := h.connections
  exact Graph.ofValue_object (hlisted hnodes) (hlisted hconnections)

/-- A graph that is read and written is equal to what was read exactly if that was intact. The
fields that the engine does not know are kept, and a second round trip gives the very same. -/
theorem round_trip_is_exact (hf : (Value.object f).IsJson) (hnodes : (f.get "nodes").IsListed)
    (hconnections : (f.get "connections").IsListed) :
    ∃ g written, ofValue (.object f) = .ok g ∧ g.toValue = .object written ∧
      ((Value.object written == .object f) = true ↔ Intact f) ∧ KeepsUnknown f written ∧
      ∃ g', ofValue (.object written) = .ok g' ∧ g'.toValue = .object written := by
  have hwritten := toValue_ofFields (f := f) hf.nodup_keys
  have hkeeps := keepsUnknown_record hf
  have hequal := beq_toValue_iff hf
  rw [hwritten] at hequal
  exact ⟨ofFields f, record (ofFields f).slots f, ofValue_object hnodes hconnections, hwritten,
    hequal, hkeeps, ofFields (record (ofFields f).slots f), hkeeps.ofValue_object,
    toValue_ofFields_record hf⟩

/-- A graph with unknown fields, in another order than they are written in. -/
def shuffled : Fields :=
  [("color", .text "red"), ("connections", .list []),
    ("nodes", .list [.object [("note", .int 1), ("kind", .text "sma"), ("id", .text "a")]])]

theorem shuffled_survives : ∃ g, ofValue (.object shuffled) = .ok g ∧
    (g.toValue == .object shuffled) = true := by
  have hnode : (Value.object
      [("note", .int 1), ("kind", .text "sma"), ("id", .text "a")]).IsJson := by
    refine .object (by decide) fun p hp => ?_
    simp only [List.mem_cons, List.not_mem_nil, or_false] at hp
    rcases hp with rfl | rfl | rfl
    · exact .int 1
    · exact .text "sma"
    · exact .text "a"
  have hjson : (Value.object shuffled).IsJson := by
    refine .object (by decide) fun p hp => ?_
    simp only [shuffled, List.mem_cons, List.not_mem_nil, or_false] at hp
    rcases hp with rfl | rfl | rfl
    · exact .text "red"
    · exact .list (List.forall_mem_nil _)
    · exact .list (List.forall_mem_singleton.mpr hnode)
  have hintact : Intact shuffled := by
    refine ⟨⟨[_], rfl, List.forall_mem_singleton.mpr ⟨nofun, ?_⟩⟩, ⟨[], rfl, List.forall_mem_nil _⟩,
      .inl rfl⟩
    simp [Fields.get?]
  obtain ⟨g, written, hread, hwrite, hequal, -⟩ :=
    round_trip_is_exact hjson (.inr ⟨_, rfl⟩) (.inr ⟨_, rfl⟩)
  exact ⟨g, hread, by rw [hwrite, hequal]; exact hintact⟩

end Graph

end TradingRules
