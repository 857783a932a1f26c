import TradingRules.Proofs.Store.Index

/-!
# What the calls come to

When the index is that of a book, each call that changes a store comes to a few steps: the file of
one logic is written or removed, and then the index of another book is written. An index can always
be written if the files of its records can.
-/

namespace TradingRules.Store

variable {s s' : Store} {book : Book} {r : Record}

theorem encodable_file_iff : Json.Encodable r.file ↔ Json.Encodable (.text r.id) ∧
    Json.Encodable r.name ∧ Json.Encodable r.stock ∧ Json.Encodable r.data := by
  have hkeys : ∀ key ∈ ["id", "name", "stock", "data"],
      Text.Whole (Json.textToken false key) := by decide
  simp only [List.forall_mem_cons] at hkeys
  simp [Record.file, Json.encodable_object, hkeys]

theorem encodable_entries (h : ∀ r ∈ book, Json.Encodable r.file) :
    Json.Encodable (.list (Book.entries book)) := by
  have hkeys : ∀ key ∈ ["id", "name", "stock", "order"],
      Text.Whole (Json.textToken false key) := by decide
  simp only [List.forall_mem_cons] at hkeys
  refine Json.encodable_list.mpr fun e he => ?_
  obtain ⟨p, hp, rfl⟩ := List.mem_map.mp he
  obtain ⟨hid, hname, hstock, -⟩ := encodable_file_iff.mp (h p.1 (List.fst_mem_of_mem_zipIdx hp))
  simp [entryOf, entry, Json.encodable_object, hkeys, hid, hname, hstock, Json.encodable_natCast]

theorem putIndex_entries (s : Store) (h : ∀ r ∈ book, Json.Encodable r.file) :
    ∃ s', (putIndex (Book.entries book)).exec s = (.ok (), s') ∧ s'.textOf? =
      Function.update s.textOf? "index" (some (Json.write .indented (.list (Book.entries book)))) :=
  put_of_encodable s "index" (encodable_entries h)

theorem newId_ne_index (unique : String) : "logic-" ++ unique ≠ "index" := by
  intro h
  have hfirst := congrArg (fun s : String => s.toList.head?) h
  simp at hfirst

/-- With the index as it is read, creating a logic is writing its file and then the index. -/
theorem exec_create (hindex : s.index = .ok (Book.entries book)) {unique : String}
    {name stock data : Value} (hr : Record.fresh unique name stock data = r)
    (hid : isId r.id = true) : (Store.create unique name stock data).exec s = (do
      put (r.id ++ ".json") r.file
      putIndex (Book.entries (book ++ [r]))
      return r.file : Action Value).exec s := by
  subst hr
  have hfile : fileOf (newId unique) = .ok ((Record.fresh unique name stock data).id ++ ".json") :=
    if_pos hid
  rw [Store.create, ExceptT.exec_bind_ok (ExceptT.exec_get s), ExceptT.exec_liftM_bind_ok hindex,
    ExceptT.exec_liftM_bind_ok hfile, entries_concat, length_entries]
  rfl

theorem update_file (r : Record) (v : Value) :
    Store.update r.file "name" v = .ok (r.revised v .null .null).file ∧
      Store.update r.file "stock" v = .ok (r.revised .null v .null).file ∧
      Store.update r.file "data" v = .ok (r.revised .null .null v).file := by
  cases v <;> exact ⟨rfl, rfl, rfl⟩

/-- With a logic as it is loaded, saving it is writing the revised file and then the index. -/
theorem exec_save (hload : s.load (.text r.id) = .ok r.file) (hid : isId r.id = true)
    {name stock data : Value} {r' : Record} (hr : r.revised name stock data = r') :
    (Store.save (.text r.id) name stock data).exec s = (do
      put (r'.id ++ ".json") r'.file
      let entries ← (← get).index
      let entries ← updateEntries (.text r'.id) r'.file entries.length entries
      putIndex entries
      return r'.file : Action Value).exec s := by
  subst hr
  have hfile : fileOf (.text r.id) = .ok ((r.revised name stock data).id ++ ".json") := if_pos hid
  rw [Store.save, ExceptT.exec_bind_ok (ExceptT.exec_get s), ExceptT.exec_liftM_bind_ok hload,
    ExceptT.exec_liftM_bind_ok (update_file _ name).1,
    ExceptT.exec_liftM_bind_ok (update_file _ stock).2.1,
    ExceptT.exec_liftM_bind_ok (update_file _ data).2.2,
    ExceptT.exec_liftM_bind_ok hfile]
  rfl

theorem exec_save_of_load_eq_error {id name stock data : Value} {e : Fault}
    (hload : s.load id = .error e) : (Store.save id name stock data).exec s = (.error e, s) := by
  rw [Store.save, ExceptT.exec_bind_ok (ExceptT.exec_get s), ExceptT.exec_liftM_bind_error hload]

theorem update_list (items : List Value) (key : String) (v : Value) :
    Store.update (.list items) key v =
      if v.isNull then .ok (.list items) else .error Value.listIndexFault := by
  cases v <;> rfl

/-- A list in the place of a logic stands only a saving that replaces nothing. -/
theorem exec_save_of_load_eq_list {id : Value} {items : List Value}
    (hload : s.load id = .ok (.list items)) (name stock data : Value) :
    (Store.save id name stock data).exec s = (if name.isNull && stock.isNull && data.isNull then do
        put (← fileOf id) (.list items)
        let entries ← (← get).index
        let entries ← updateEntries id (.list items) entries.length entries
        putIndex entries
        return .list items
      else throw Value.listIndexFault : Action Value).exec s := by
  rw [Store.save, ExceptT.exec_bind_ok (ExceptT.exec_get s), ExceptT.exec_liftM_bind_ok hload,
    update_list]
  cases name.isNull with
  | false => rfl
  | true =>
    rw [if_pos rfl, ExceptT.exec_bind_ok (ExceptT.exec_liftM s _), update_list]
    cases stock.isNull with
    | false => rfl
    | true =>
      rw [if_pos rfl, ExceptT.exec_bind_ok (ExceptT.exec_liftM s _), update_list]
      cases data.isNull with
      | false => rfl
      | true => rfl

theorem eq_text_of_text?_eq_some {id : Value} {t : String} (h : id.text? = some t) :
    id = .text t := by
  cases id with
  | text u => exact congrArg Value.text (Option.some.inj h)
  | null | bool | int | real | undefined | list | object => cases h

theorem fileOf_of_not_text {id : Value} (h : id.text? = none) : ∃ e, fileOf id = .error e := by
  cases id with
  | text t => cases h
  | null | bool | int | real | undefined | list | object =>
    simp only [fileOf]
    split <;> exact ⟨_, rfl⟩

theorem load_of_not_text {id : Value} (h : id.text? = none) : ∃ e, s.load id = .error e := by
  obtain ⟨e, he⟩ := fileOf_of_not_text h
  exact ⟨e, by rw [load, he, Outcome.error_bind]⟩

theorem load_of_textOf?_none {id : String} (hid : isId id = true) (htext : s.textOf? id = none) :
    s.load (.text id) = .error (.logicNotFound (.text id)) := by
  rw [load, fileOf, if_pos hid, Outcome.ok_bind, value?_of_textOf?_none htext]
  rfl

/-- The index is what it was if the text of it is. -/
theorem index_congr (h : s'.textOf? "index" = s.textOf? "index") : s'.index = s.index := by
  have htext : s'.read? indexFile = s.read? indexFile := h
  rw [Store.index, Store.index, value?, value?, htext]

/-- With the index as it is read, reordering is picking entries and writing the index. -/
theorem exec_reorder (hindex : s.index = .ok (Book.entries book))
    (hdistinct : (book.map (·.id)).Nodup) (ids : Value) : (Store.reorder ids).exec s = (do
      let (picked, left) ← pickByIds (← ids.items) (book.zipIdx.map keyed)
      let rest ← sortByOrder (left.map fun f => (f.2, ()))
      let entries := numbered (picked ++ rest.map (·.1))
      putIndex entries
      return entries : Action (List Value)).exec s := by
  rw [← map_id_zipIdx] at hdistinct
  have hfold : (Book.entries book).foldlM addById [] = .ok (book.zipIdx.map keyed) :=
    foldlM_addById [] book.zipIdx hdistinct
  rw [Store.reorder, ExceptT.exec_bind_ok (ExceptT.exec_get s),
    ExceptT.exec_liftM_bind_ok hindex, ExceptT.exec_liftM_bind_ok hfold]

theorem exec_reorder_of_items (hindex : s.index = .ok (Book.entries book))
    (hdistinct : (book.map (·.id)).Nodup) {ids : Value} {items : List Value}
    (hitems : ids.items = .ok items) (hkeys : ∀ id ∈ items, id.isKey = true) :
    (Store.reorder ids).exec s = (do
      let entries := Book.entries (Book.arranged book (items.filterMap Value.text?))
      putIndex entries
      return entries : Action (List Value)).exec s := by
  have hpicked := pickByIds_map_keyed hkeys book.zipIdx
  have hsorted := sortByOrder_left book fun r => !(items.filterMap Value.text?).contains r.id
  have hnumbered := numbered_picked book (items.filterMap Value.text?)
  rw [exec_reorder hindex hdistinct, ExceptT.exec_liftM_bind_ok hitems,
    ExceptT.exec_liftM_bind_ok hpicked]
  dsimp only
  rw [ExceptT.exec_liftM_bind_ok hsorted, List.map_map,
    show (fun f => f.1) ∘ (fun q : Record × Nat => (entryOf q, ())) = entryOf from rfl, hnumbered]

/-- With the index as it is read, deleting a logic is removing its file and writing the index. -/
theorem exec_delete (hindex : s.index = .ok (Book.entries book)) {id : String}
    (hid : isId id = true) : (Store.delete (.text id)).exec s = (do
      modify (·.remove (id ++ ".json"))
      putIndex (Book.entries (Book.remove book id))
      return (s.textOf? id).isSome || (Book.remove book id).length != book.length
        : Action Bool).exec s := by
  have hfile : fileOf (.text id) = .ok (id ++ ".json") := if_pos hid
  have hkept := filterM_entries book id
  have hsorted := sortByOrder_zipIdx (l := book.zipIdx.filter fun p => p.1.id != id)
    ((pairwise_zipIdx book).filter _)
  have hremoved := map_fst_filter_zipIdx book fun r => r.id != id
  have hlength : ((book.zipIdx.filter fun p => p.1.id != id).map entryOf).length =
      (Book.remove book id).length := by
    rw [Book.remove, ← hremoved, List.length_map, List.length_map]
  rw [Store.delete, ExceptT.exec_liftM_bind_ok hfile, ExceptT.exec_bind_ok (ExceptT.exec_get s),
    ExceptT.exec_liftM_bind_ok hindex, hkept, pure_bind,
    ExceptT.exec_bind_ok (ExceptT.exec_get s), ExceptT.exec_bind_ok (ExceptT.exec_modify s _),
    ExceptT.exec_liftM_bind_ok hsorted, renumber_zipIdx, numbered_map_entryOf, hremoved,
    length_entries, hlength, ExceptT.exec_bind_ok (ExceptT.exec_modify s _)]
  rfl

end TradingRules.Store
