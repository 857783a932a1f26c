import Mathlib.Data.List.Infix
import TradingRules.Proofs.Store.Representation

/-!
# Every history of a store

A store that is called in any way shows the book that the calls come to: an index with an entry for
each record, in order and numbered from zero, and the file of each record. It is taken for granted
that no two ids are made of the same unique part, and that what is written is read back.
-/

namespace TradingRules.Store

variable {s s' : Store} {book : Book} {c : Call} {calls : List Call}

/-- What a store shows of a book. -/
structure Shows (s : Store) (book : Book) : Prop where
  distinct : (book.map (·.id)).Nodup
  index : s.index = .ok (Book.entries book)
  list : s.list = .ok (Book.entries book)
  load : ∀ r ∈ book, s.load (.text r.id) = .ok r.file

/-- How a store answers a call. Only loading and deleting what is named like the index is answered
as if there were a logic; a call that fails changes neither the list nor a text under an id. -/
structure Follows (c : Call) (s : Store) (book : Book) : Prop where
  answer : c ≠ .load (.text "index") → c ≠ .delete (.text "index") →
    (c.run s).1.toOption = (c.on book).map (·.1)
  failure : ∀ e, (c.run s).1 = .error e →
    (c.run s).2.list = s.list ∧ (c.run s).2.textOf? = s.textOf?

theorem list_congr (h : s'.textOf? = s.textOf?) : s'.list = s.list := by
  rw [Store.list, Store.list, index_congr (congrFun h "index")]

theorem Lands.represents_after (hl : Lands c s book) (h : Represents s book) :
    Represents (c.run s).2 (c.after book) := by
  cases hl with
  | answered on run represents =>
    rw [run, Call.after, on]
    exact represents
  | refused on run texts =>
    rw [run, Call.after, on]
    exact h.of_textOf?_eq texts

theorem Lands.follows (hl : Lands c s book) : Follows c s book where
  answer _ _ := by
    cases hl with
    | answered on run represents =>
      rw [run, on]
      rfl
    | refused on run texts =>
      rw [run, on]
      rfl
  failure e he := by
    cases hl with
    | answered on run represents =>
      rw [run] at he
      cases he
    | refused on run texts =>
      rw [run]
      exact ⟨list_congr texts, texts⟩

namespace Represents

variable (h : Represents s book) (hread : ∀ v ∈ Book.documents book, Json.ReadsBack v)
include h hread

theorem shows : Shows s book where
  distinct := h.distinct
  index := h.index_eq (hread _ List.mem_cons_self)
  list := list_eq (h.index_eq (hread _ List.mem_cons_self))
  load _ hr := h.load_eq hr (hread _ (List.mem_cons_of_mem _ (List.mem_map_of_mem hr)))

theorem lands (hunique : ∀ unique, c.unique? = some unique → isId ("logic-" ++ unique) = true ∧
      ∀ r ∈ book, r.id ≠ "logic-" ++ unique)
    (hload : c ≠ .load (.text "index")) (hdelete : c ≠ .delete (.text "index")) :
    Lands c s book := by
  have hindex := hread _ List.mem_cons_self
  cases c with
  | create unique name stock data =>
    obtain ⟨hid, hnew⟩ := hunique unique rfl
    exact h.create hindex hid hnew name stock data
  | save id name stock data => exact h.save hread name stock data
  | delete id => exact h.delete hindex fun hid => hdelete (congrArg Call.delete hid)
  | reorder ids => exact h.reorder hindex ids
  | list => exact h.list hindex
  | load id => exact h.load hread fun hid => hload (congrArg Call.load hid)

/-- One call of any kind: the store goes on to represent what the book becomes. -/
theorem step (hunique : ∀ unique, c.unique? = some unique → isId ("logic-" ++ unique) = true ∧
    ∀ r ∈ book, r.id ≠ "logic-" ++ unique) :
    Represents (c.run s).2 (c.after book) ∧ Follows c s book := by
  by_cases hload : c = .load (.text "index")
  · subst hload
    have hnone : Book.find? book "index" = none :=
      Book.find?_eq_none_iff.mpr fun r hr => (h.named r hr).2
    have hon : (Call.load (.text "index")).on book = none := by simp [Call.on, Value.text?, hnone]
    refine ⟨?_, fun hne => absurd rfl hne, fun e _ => ⟨rfl, rfl⟩⟩
    rw [Call.after, hon]
    exact h
  by_cases hdelete : c = .delete (.text "index")
  · subst hdelete
    have hid : isId "index" = true := rfl
    obtain ⟨s', hdeletes, hs'⟩ := h.represents_delete (hread _ List.mem_cons_self) hid
    have hrun : (Call.delete (.text "index")).run s =
        (.ok (.bool (s.textOf? "index").isSome), s') := by
      rw [Call.run, ExceptT.exec_map, hdeletes]
      rfl
    have hon : ((Call.delete (.text "index")).on book).map (·.2) =
        some (Book.remove book "index") := rfl
    refine ⟨?_, fun _ hne => absurd rfl hne, fun e he => ?_⟩
    · rw [Call.after, hon, hrun]
      exact hs'
    · rw [hrun] at he
      cases he
  have hl := h.lands hread hunique hload hdelete
  exact ⟨hl.represents_after h, hl.follows⟩

end Represents

theorem represents_nil : Represents {} [] where
  distinct := List.nodup_nil
  named := by simp
  encodable := by simp
  index := .inr ⟨rfl, rfl⟩
  files _ _ := rfl

theorem exists_unique_of_mem {r : Record} (hr : r ∈ Book.afterCalls calls) :
    ∃ unique ∈ calls.filterMap Call.unique?, r.id = "logic-" ++ unique := by
  induction calls using List.reverseRecOn generalizing r with
  | nil => cases hr
  | append_singleton calls c ih =>
    rw [Book.afterCalls, List.foldl_concat] at hr
    rw [List.filterMap_append]
    rcases Call.id_mem_after hr with hid | ⟨unique, hunique, hid⟩
    · obtain ⟨old, hold, hid⟩ := List.mem_map.mp hid
      obtain ⟨unique, hmem, hunique⟩ := ih hold
      exact ⟨unique, List.mem_append_left _ hmem, hid ▸ hunique⟩
    · refine ⟨unique, List.mem_append_right _ ?_, hid⟩
      simp [hunique]

/-- What an id is made of is not that of a record, and the id is valid. -/
theorem isId_and_new {early : List Call} (hextends : early ++ [c] <+: calls)
    (hdistinct : (calls.filterMap Call.unique?).Nodup)
    (hids : ∀ unique ∈ calls.filterMap Call.unique?, isId ("logic-" ++ unique) = true)
    {unique : String} (hunique : c.unique? = some unique) :
    isId ("logic-" ++ unique) = true ∧
      ∀ r ∈ Book.afterCalls early, r.id ≠ "logic-" ++ unique := by
  obtain ⟨rest, rfl⟩ := hextends
  rw [List.filterMap_append, List.filterMap_append, List.filterMap_cons_some hunique] at hdistinct
  refine ⟨hids unique ?_, fun r hr hid => ?_⟩
  · simp [List.filterMap_append, hunique]
  · obtain ⟨other, hother, hrid⟩ := exists_unique_of_mem hr
    rw [hrid, String.append_right_inj] at hid
    have hboth := (List.nodup_append.mp (List.nodup_append.mp hdistinct).1).2.2
    exact hboth other hother unique List.mem_cons_self hid

theorem represents_afterCalls (hdistinct : (calls.filterMap Call.unique?).Nodup)
    (hids : ∀ unique ∈ calls.filterMap Call.unique?, isId ("logic-" ++ unique) = true)
    (hjson : ∀ early, early <+: calls →
      ∀ v ∈ Book.documents (Book.afterCalls early), Json.ReadsBack v) {early : List Call}
    (hearly : early <+: calls) : Represents (afterCalls early) (Book.afterCalls early) := by
  induction early using List.reverseRecOn with
  | nil => exact represents_nil
  | append_singleton early c ih =>
    have hbefore := (List.prefix_append early [c]).trans hearly
    rw [afterCalls, Book.afterCalls, List.foldl_concat, List.foldl_concat]
    exact ((ih hbefore).step (hjson early hbefore) fun unique =>
      isId_and_new hearly hdistinct hids).1

/-- However a store is called, it shows the book that the calls come to, and answers each call as
the book does. -/
theorem store_refines_book (calls : List Call)
    (hdistinct : (calls.filterMap Call.unique?).Nodup)
    (hids : ∀ unique ∈ calls.filterMap Call.unique?, isId ("logic-" ++ unique) = true)
    (hjson : ∀ early, early <+: calls →
      ∀ v ∈ Book.documents (Book.afterCalls early), Json.ReadsBack v) :
    (∀ early, early <+: calls → Shows (afterCalls early) (Book.afterCalls early)) ∧
      ∀ early c, early ++ [c] <+: calls →
        Follows c (afterCalls early) (Book.afterCalls early) := by
  refine ⟨fun early hearly =>
    (represents_afterCalls hdistinct hids hjson hearly).shows (hjson early hearly), ?_⟩
  intro early c hextends
  have hearly := (List.prefix_append early [c]).trans hextends
  exact ((represents_afterCalls hdistinct hids hjson hearly).step (hjson early hearly) fun unique =>
    isId_and_new hextends hdistinct hids).2

/-- A logic is created without a stock, and then saved with one. -/
def drafted : Record := ⟨"logic-1", .text "Dip", .text "", .object []⟩

def completed : Record := ⟨"logic-1", .text "Dip", .text "KRW", .object []⟩

def drafting : List Call := [
  .create "1" (.text "Dip") .null .null,
  .save (.text "logic-1") .null (.text "KRW") .null]

theorem drafting_readsBack : ∀ early, early <+: drafting →
    ∀ v ∈ Book.documents (Book.afterCalls early), Json.ReadsBack v := by
  intro early hearly
  have hbook : Book.afterCalls early ∈ [[], [drafted], [completed]] := by
    simp only [drafting, List.prefix_cons_iff, List.prefix_nil] at hearly
    rcases hearly with rfl | ⟨_, rfl, rfl | ⟨_, rfl, rfl⟩⟩
    · exact .head _
    · exact .tail _ (.head _)
    · exact .tail _ (.tail _ (.head _))
  have hread : ∀ book ∈ [[], [drafted], [completed]],
      ∀ v ∈ Book.documents book, Json.ReadsBack v := by
    simp only [List.forall_mem_cons, Book.documents, List.map_cons, List.map_nil]
    have hnone : ∀ v ∈ ([] : List Value), Json.ReadsBack v := by simp
    exact ⟨⟨Json.readsBack_of_eq rfl, hnone⟩,
      ⟨Json.readsBack_of_eq rfl, Json.readsBack_of_eq rfl, hnone⟩,
      ⟨Json.readsBack_of_eq rfl, Json.readsBack_of_eq rfl, hnone⟩, by simp⟩
  exact hread _ hbook

theorem completed_logic_is_shown :
    (drafting.filterMap Call.unique?).Nodup ∧
    (∀ unique ∈ drafting.filterMap Call.unique?, isId ("logic-" ++ unique) = true) ∧
    (∀ early, early <+: drafting →
      ∀ v ∈ Book.documents (Book.afterCalls early), Json.ReadsBack v) ∧
    Shows (afterCalls drafting) [completed] := by
  have hdistinct : (drafting.filterMap Call.unique?).Nodup := by decide
  have hids : ∀ unique ∈ drafting.filterMap Call.unique?, isId ("logic-" ++ unique) = true := by
    decide
  have hshows := (store_refines_book drafting hdistinct hids drafting_readsBack).1 drafting
    (List.prefix_refl drafting)
  exact ⟨hdistinct, hids, drafting_readsBack, hshows⟩

end TradingRules.Store
