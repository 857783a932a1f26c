import TradingRules.Proofs.Store.Refinement

/-!
# Which logics exist

That a logic exists is recorded twice: there is a file of its name, and an entry in the list of all
logics. Loading and deleting go by the file. However a store was called, the two records agree on
every id but one: the list itself is kept in a file, and the name of that file is an id as well.
-/

namespace TradingRules.Store

variable {s : Store} {book : Book} {id : String}

/-- Is there an entry of this id in the list of a store? -/
def Lists (s : Store) (id : String) : Prop :=
  ∃ entries, s.list = .ok entries ∧ ∃ e ∈ entries, Store.idOf e = .ok (.text id)

theorem lists_iff : s.Lists id ↔
    ∃ entries ∈ s.list.toOption, ∃ e ∈ entries,
      (Store.idOf e).toOption.bind Value.text? = some id := by
  have hid : ∀ e, Store.idOf e = .ok (.text id) ↔
      (Store.idOf e).toOption.bind Value.text? = some id := by
    intro e
    cases Store.idOf e with
    | error fault => simp [Except.toOption]
    | ok v => cases v <;> simp [Except.toOption, Value.text?]
  cases hlist : s.list with
  | error fault => simp [Lists, hlist, Except.toOption]
  | ok entries => simp [Lists, hlist, hid, Except.toOption]

instance (s : Store) (id : String) : Decidable (s.Lists id) :=
  decidable_of_iff _ lists_iff.symm

namespace Represents

variable (h : Represents s book) (hread : ∀ v ∈ Book.documents book, Json.ReadsBack v)
include h hread

theorem lists_iff_mem : s.Lists id ↔ id ∈ book.map (·.id) := by
  have hlist := (h.shows hread).list
  constructor
  · rintro ⟨entries, hentries, e, he, hid⟩
    obtain rfl := Except.ok.inj (hlist.symm.trans hentries)
    obtain ⟨p, hp, rfl⟩ := List.mem_map.mp he
    rw [idOf_entryOf] at hid
    cases hid
    exact List.mem_map_of_mem (List.fst_mem_of_mem_zipIdx hp)
  · intro hmem
    obtain ⟨r, hr, rfl⟩ := List.mem_map.mp hmem
    obtain ⟨k, hk⟩ := List.getElem?_of_mem hr
    have hentry : (r, k) ∈ book.zipIdx := List.mk_mem_zipIdx_iff_getElem?.mpr hk
    exact ⟨_, hlist, _, List.mem_map_of_mem hentry, idOf_entryOf (r, k)⟩

theorem lists (hid : id ∈ book.map (·.id)) : s.Lists id :=
  (h.lists_iff_mem hread).mpr hid

theorem not_lists_index : ¬ s.Lists "index" := by
  rw [h.lists_iff_mem hread]
  intro hmem
  obtain ⟨r, hr, hid⟩ := List.mem_map.mp hmem
  exact (h.named r hr).2 hid

/-- The file of each logic, and no other, is under its id; but the index is a file, too. -/
theorem isSome_textOf?_iff : (s.textOf? id).isSome = true ↔
    s.Lists id ∨ id = "index" ∧ (s.textOf? "index").isSome = true := by
  by_cases hindex : id = "index"
  · subst hindex
    simp [h.not_lists_index hread]
  · rw [h.files id hindex, Option.isSome_map, h.lists_iff_mem hread, Option.isSome_iff_exists]
    simp [Book.find?_eq_some_iff h.distinct, hindex]

theorem exists_load_iff (hid : isId id = true) :
    (∃ logic, s.load (.text id) = .ok logic) ↔ (s.textOf? id).isSome = true := by
  constructor
  · rintro ⟨logic, hload⟩
    cases htext : s.textOf? id with
    | some text => rfl
    | none =>
      rw [load_of_textOf?_none hid htext] at hload
      cases hload
  · intro hsome
    rcases (h.isSome_textOf?_iff hread).mp hsome with hlists | ⟨rfl, -⟩
    · obtain ⟨r, hr, rfl⟩ := List.mem_map.mp ((h.lists_iff_mem hread).mp hlists)
      exact ⟨r.file, (h.shows hread).load r hr⟩
    · -- The index is a list that can be read back, and not null, so it passes for a logic.
      have htext : s.textOf? "index" = some (Json.write .indented (.list (Book.entries book))) := by
        rcases h.index with htext | ⟨-, hnone⟩
        · exact htext
        · rw [hnone] at hsome
          cases hsome
      refine ⟨.list (Book.entries book), ?_⟩
      rw [Store.load, fileOf, if_pos hid, Outcome.ok_bind, value?_of_textOf?
        (hread _ List.mem_cons_self) (encodable_entries h.encodable) htext]
      rfl

end Represents

/-- However a store was called, take any id that it accepts. There is a logic to be loaded under the
id exactly if the list has an entry of it, and deleting what the id names never fails and tells just
that. The one exception is the name of the file that the list is kept in. That is never listed, but
once the file is there it is loaded and deleted as a logic would be. -/
theorem files_agree_with_list_unless_index (calls : List Call)
    (hdistinct : (calls.filterMap Call.unique?).Nodup)
    (hids : ∀ unique ∈ calls.filterMap Call.unique?, isId ("logic-" ++ unique) = true)
    (hjson : ∀ early, early <+: calls →
      ∀ v ∈ Book.documents (Book.afterCalls early), Json.ReadsBack v)
    (id : String) (hid : isId id = true) :
    let s := afterCalls calls
    let found := s.Lists id ∨ id = "index" ∧ (s.textOf? "index").isSome = true
    ((∃ logic, s.load (.text id) = .ok logic) ↔ found) ∧
      (¬ found → s.load (.text id) = .error (.logicNotFound (.text id))) ∧
      (∃ present, ((Store.delete (.text id)).exec s).1 = .ok present ∧ (present = true ↔ found)) ∧
      ¬ s.Lists "index" := by
  intro s found
  have hrepresents : Represents s (Book.afterCalls calls) :=
    represents_afterCalls hdistinct hids hjson (List.prefix_refl calls)
  have hread := hjson calls (List.prefix_refl calls)
  have hfound : (s.textOf? id).isSome = true ↔ found := hrepresents.isSome_textOf?_iff hread
  obtain ⟨s', hdelete, -⟩ := hrepresents.represents_delete (hread _ List.mem_cons_self) hid
  refine ⟨?_, ?_, ?_, hrepresents.not_lists_index hread⟩
  · exact (hrepresents.exists_load_iff hread hid).trans hfound
  · intro hnone
    apply load_of_textOf?_none hid
    rw [← Option.not_isSome_iff_eq_none, hfound]
    exact hnone
  · rw [hdelete]
    exact ⟨_, rfl, hfound⟩

theorem represents_drafting {early : List Call} (hearly : early <+: drafting) :
    Represents (afterCalls early) (Book.afterCalls early) :=
  represents_afterCalls (by decide) (by decide) drafting_readsBack hearly

/-- The completed draft is loaded. Nothing is found to be deleted under another id. -/
theorem completed_logic_exists : (drafting.filterMap Call.unique?).Nodup ∧
    (∀ unique ∈ drafting.filterMap Call.unique?, isId ("logic-" ++ unique) = true) ∧
    (∀ early, early <+: drafting →
      ∀ v ∈ Book.documents (Book.afterCalls early), Json.ReadsBack v) ∧
    isId "logic-1" = true ∧ (∃ logic, (afterCalls drafting).load (.text "logic-1") = .ok logic) ∧
    isId "logic-2" = true ∧
      ((Store.delete (.text "logic-2")).exec (afterCalls drafting)).1 = .ok false := by
  have hdistinct : (drafting.filterMap Call.unique?).Nodup := by decide
  have hids : ∀ unique ∈ drafting.filterMap Call.unique?, isId ("logic-" ++ unique) = true := by
    decide
  obtain ⟨hload, -⟩ := files_agree_with_list_unless_index drafting hdistinct hids
    drafting_readsBack "logic-1" rfl
  obtain ⟨-, -, ⟨present, hdelete, hpresent⟩, -⟩ := files_agree_with_list_unless_index drafting
    hdistinct hids drafting_readsBack "logic-2" rfl
  have hlists (id : String) : (afterCalls drafting).Lists id ↔ id ∈ [completed.id] :=
    (represents_drafting (List.prefix_refl _)).lists_iff_mem
      (drafting_readsBack _ (List.prefix_refl _))
  refine ⟨hdistinct, hids, drafting_readsBack, rfl, hload.mpr (.inl ?_), rfl, ?_⟩
  · rw [hlists]
    decide
  · have hnone : present = false := by
      rw [← Bool.not_eq_true, hpresent, hlists]
      decide
    rw [hdelete, hnone]

/-- Once a logic was created, the index is loaded and deleted as a logic, though it is not
listed. -/
theorem index_passes_for_logic : let s := afterCalls (drafting.take 1)
    isId "index" = true ∧ ¬ s.Lists "index" ∧ (∃ logic, s.load (.text "index") = .ok logic) ∧
      ((Store.delete (.text "index")).exec s).1 = .ok true := by
  intro s
  have hearly : drafting.take 1 <+: drafting := List.take_prefix 1 drafting
  have hrepresents := represents_drafting hearly
  have hread := drafting_readsBack _ hearly
  have hfile : (s.textOf? "index").isSome = true := by
    rcases hrepresents.index with htext | ⟨hempty, -⟩
    · rw [htext, Option.isSome_some]
    · cases hempty
  have hid : isId "index" = true := rfl
  obtain ⟨s', hdelete, -⟩ := hrepresents.represents_delete (hread _ List.mem_cons_self) hid
  refine ⟨hid, hrepresents.not_lists_index hread, ?_, ?_⟩
  · exact (hrepresents.exists_load_iff hread hid).mpr hfile
  · rw [hdelete, hfile]

end TradingRules.Store
