import TradingRules.Proofs.Store.Steps

/-!
# A store is a book

A store represents a book if the file of each record, and the index with an entry for each, are as
they would be written for it. Each call keeps this up: the store becomes one that represents what
the book becomes, and a call that is refused changes no text under an id.
-/

namespace TradingRules.Store

variable {s s' : Store} {book : Book} {r : Record}

structure Represents (s : Store) (book : Book) : Prop where
  distinct : (book.map (·.id)).Nodup
  named : ∀ r ∈ book, isId r.id = true ∧ r.id ≠ "index"
  encodable : ∀ r ∈ book, Json.Encodable r.file
  /-- There may be no index yet, but then there is no record either. -/
  index : s.textOf? "index" = some (Json.write .indented (.list (Book.entries book))) ∨
    book = [] ∧ s.textOf? "index" = none
  files : ∀ id, id ≠ "index" → s.textOf? id =
    (Book.find? book id).map fun r => Json.write .indented r.file

/-- A call lands if the store answers as the book does and represents what the book becomes, or if
both refuse it and every text under an id stays. -/
inductive Lands (c : Call) (s : Store) (book : Book) : Prop where
  | answered {answer : Value} {book' : Book} {s' : Store} (on : c.on book = some (answer, book'))
    (run : c.run s = (.ok answer, s')) (represents : Represents s' book')
  | refused {e : Fault} {s' : Store} (on : c.on book = none) (run : c.run s = (.error e, s'))
    (texts : s'.textOf? = s.textOf?)

namespace Represents

variable (h : Represents s book)
include h

theorem of_textOf?_eq (hs : s'.textOf? = s.textOf?) : Represents s' book where
  distinct := h.distinct
  named := h.named
  encodable := h.encodable
  index := hs ▸ h.index
  files := hs ▸ h.files

theorem index_eq (hread : Json.ReadsBack (.list (Book.entries book))) :
    s.index = .ok (Book.entries book) := by
  rw [Store.index, show indexFile = "index" ++ ".json" from rfl]
  rcases h.index with htext | ⟨rfl, htext⟩
  · rw [value?_of_textOf? hread (encodable_entries h.encodable) htext]
    rfl
  · rw [value?_of_textOf?_none htext]
    rfl

theorem load_eq (hr : r ∈ book) (hread : Json.ReadsBack r.file) :
    s.load (.text r.id) = .ok r.file := by
  obtain ⟨hid, hindex⟩ := h.named r hr
  have htext : s.textOf? r.id = some (Json.write .indented r.file) := by
    rw [h.files r.id hindex, (Book.find?_eq_some_iff h.distinct).mpr ⟨hr, rfl⟩, Option.map_some]
  rw [load, fileOf, if_pos hid, Outcome.ok_bind,
    value?_of_textOf? hread (h.encodable r hr) htext]
  rfl

/-- Where there is no file there is no record. -/
theorem find?_of_textOf?_none {id : String} (htext : s.textOf? id = none) :
    Book.find? book id = none := by
  by_cases hindex : id = "index"
  · subst hindex
    exact Book.find?_eq_none_iff.mpr fun r hr => (h.named r hr).2
  · rw [h.files id hindex] at htext
    exact Option.map_eq_none_iff.mp htext

theorem load_of_unlisted {id : String} (hindex : id ≠ "index")
    (hunlisted : Book.find? book id = none) : ∃ e, s.load (.text id) = .error e := by
  have htext : s.textOf? id = none := by rw [h.files id hindex, hunlisted, Option.map_none]
  cases hid : isId id with
  | false =>
    rw [load, fileOf, hid]
    exact ⟨_, rfl⟩
  | true => exact ⟨_, load_of_textOf?_none hid htext⟩

/-- When the text under one id is that of its record in another book, and so is the index, the
other book is represented. -/
theorem written {book' : Book} {s₁ s₂ : Store} (id : String)
    (hdistinct : (book'.map (·.id)).Nodup) (hnamed : ∀ r ∈ book', isId r.id = true ∧ r.id ≠ "index")
    (hencodable : ∀ r ∈ book', Json.Encodable r.file)
    (hothers : ∀ other, other ≠ id → Book.find? book' other = Book.find? book other)
    (hfile : s₁.textOf? = Function.update s.textOf? id
      ((Book.find? book' id).map fun r => Json.write .indented r.file))
    (hindex : s₂.textOf? = Function.update s₁.textOf? "index"
      (some (Json.write .indented (.list (Book.entries book'))))) : Represents s₂ book' where
  distinct := hdistinct
  named := hnamed
  encodable := hencodable
  index := .inl (by rw [hindex, Function.update_self])
  files := by
    intro other hother
    rw [hindex, Function.update_of_ne hother, hfile]
    by_cases hid : other = id
    · rw [hid, Function.update_self]
    · rw [Function.update_of_ne hid, hothers other hid, h.files other hother]

/-- A new logic comes last in the index. -/
theorem create (hread : Json.ReadsBack (.list (Book.entries book))) {unique : String}
    (hid : isId ("logic-" ++ unique) = true) (hnew : ∀ r ∈ book, r.id ≠ "logic-" ++ unique)
    (name stock data : Value) : Lands (.create unique name stock data) s book := by
  generalize hr : Record.fresh unique name stock data = r
  have hrid : r.id = "logic-" ++ unique := by rw [← hr]; rfl
  rw [← hrid] at hid hnew
  have hon := Call.on_create book hr
  have hexec := exec_create (h.index_eq hread) hr hid
  by_cases hencodable : Json.Encodable r.file
  · have hall : ∀ r' ∈ book ++ [r], Json.Encodable r'.file :=
      List.forall_mem_append.mpr ⟨h.encodable, List.forall_mem_singleton.mpr hencodable⟩
    obtain ⟨s₁, hput, htext₁⟩ := put_of_encodable s r.id hencodable
    obtain ⟨s₂, hputIndex, htext₂⟩ := putIndex_entries s₁ hall
    have hrun : (Call.create unique name stock data).run s = (.ok r.file, s₂) := by
      rw [Call.run, hexec, ExceptT.exec_bind_ok hput, ExceptT.exec_bind_ok hputIndex]
      rfl
    rw [if_pos hencodable] at hon
    refine .answered hon hrun ?_
    refine h.written r.id ?_ ?_ hall (fun other => Book.find?_concat_of_ne) ?_ htext₂
    · rw [List.map_append, List.nodup_append]
      refine ⟨h.distinct, List.nodup_singleton _, ?_⟩
      simpa using hnew
    · refine List.forall_mem_append.mpr ⟨h.named, List.forall_mem_singleton.mpr ⟨hid, ?_⟩⟩
      rw [hrid]
      exact newId_ne_index unique
    · rw [htext₁, Book.find?_concat_self hnew, Option.map_some]
  · obtain ⟨e, s₁, hput, htext₁⟩ := put_of_not_encodable s r.id hencodable
    have hrun : (Call.create unique name stock data).run s = (.error e, s₁) := by
      rw [Call.run, hexec, ExceptT.exec_bind_error hput]
    rw [if_neg hencodable] at hon
    exact .refused hon hrun htext₁

/-- A logic that is saved keeps its place in the index. -/
theorem save_listed (hread : ∀ v ∈ Book.documents book, Json.ReadsBack v) {id : String}
    (hfind : Book.find? book id = some r) (name stock data : Value) :
    Lands (.save (.text id) name stock data) s book := by
  obtain ⟨hmem, rfl⟩ := (Book.find?_eq_some_iff h.distinct).mp hfind
  have hindex := h.index_eq (hread _ List.mem_cons_self)
  have hload := h.load_eq hmem (hread _ (List.mem_cons_of_mem _ (List.mem_map_of_mem hmem)))
  obtain ⟨hid, hne⟩ := h.named r hmem
  generalize hr : r.revised name stock data = r'
  have hrid : r'.id = r.id := by rw [← hr]; rfl
  have hon := Call.on_save hfind hr
  have hexec := exec_save hload hid hr
  by_cases hencodable : Json.Encodable r'.file
  · have hall := Book.forall_mem_replace (p := fun r => Json.Encodable r.file) hencodable
      h.encodable
    rw [← hrid] at hfind hne
    have hsome : (Book.find? book r'.id).isSome := by rw [hfind, Option.isSome_some]
    obtain ⟨s₁, hput, htext₁⟩ := put_of_encodable s r'.id hencodable
    obtain ⟨s₂, hputIndex, htext₂⟩ := putIndex_entries s₁ hall
    have hindex₁ : s₁.index = .ok (Book.entries book) := by
      rw [← hindex]
      exact index_congr (by rw [htext₁, Function.update_of_ne hne.symm])
    have hrun : (Call.save (.text r.id) name stock data).run s = (.ok r'.file, s₂) := by
      rw [Call.run, hexec, ExceptT.exec_bind_ok hput, ExceptT.exec_bind_ok (ExceptT.exec_get s₁),
        ExceptT.exec_liftM_bind_ok hindex₁,
        ExceptT.exec_liftM_bind_ok (updateEntries_entries h.distinct hsome _),
        ExceptT.exec_bind_ok hputIndex]
      rfl
    rw [if_pos hencodable] at hon
    refine .answered hon hrun ?_
    refine h.written r'.id ?_ ?_ hall (fun other => Book.find?_replace_of_ne) ?_ htext₂
    · rw [Book.map_id_replace]
      exact h.distinct
    · exact Book.forall_mem_replace ⟨hrid ▸ hid, hne⟩ h.named
    · rw [htext₁, Book.find?_replace_self hsome, Option.map_some]
  · obtain ⟨e, s₁, hput, htext₁⟩ := put_of_not_encodable s r'.id hencodable
    have hrun : (Call.save (.text r.id) name stock data).run s = (.error e, s₁) := by
      rw [Call.run, hexec, ExceptT.exec_bind_error hput]
    rw [if_neg hencodable] at hon
    exact .refused hon hrun htext₁

theorem represents_delete {id : String} (hread : Json.ReadsBack (.list (Book.entries book)))
    (hid : isId id = true) : ∃ s',
      (Store.delete (.text id)).exec s = (.ok (s.textOf? id).isSome, s') ∧
      Represents s' (Book.remove book id) := by
  have hall : ∀ r ∈ Book.remove book id, Json.Encodable r.file := fun r hr =>
    h.encodable r (List.mem_of_mem_filter hr)
  obtain ⟨s', hputIndex, htext⟩ := putIndex_entries (s.remove (id ++ ".json")) hall
  have hanswer : ((s.textOf? id).isSome || (Book.remove book id).length != book.length) =
      (s.textOf? id).isSome := by
    cases htext : s.textOf? id with
    | some text => rfl
    | none =>
      rw [Book.remove_of_find?_eq_none (h.find?_of_textOf?_none htext)]
      simp
  refine ⟨s', ?_, ?_⟩
  · rw [exec_delete (h.index_eq hread) hid, hanswer,
      ExceptT.exec_bind_ok (ExceptT.exec_modify s _), ExceptT.exec_bind_ok hputIndex]
    rfl
  · refine h.written id ?_ ?_ hall (fun other => Book.find?_remove_of_ne) ?_ htext
    · exact h.distinct.sublist (List.filter_sublist.map _)
    · exact fun r hr => h.named r (List.mem_of_mem_filter hr)
    · rw [textOf?_remove, Book.find?_remove_self, Option.map_none]

theorem delete {id : Value} (hread : Json.ReadsBack (.list (Book.entries book)))
    (hindex : id ≠ .text "index") : Lands (.delete id) s book := by
  cases hid : id.text? with
  | none =>
    obtain ⟨e, he⟩ := fileOf_of_not_text hid
    have hrun : (Call.delete id).run s = (.error e, s) := by
      rw [Call.run, ExceptT.exec_map, Store.delete,
        ExceptT.exec_liftM_bind_error he]
      rfl
    exact .refused (by simp [Call.on, hid]) hrun rfl
  | some t =>
    obtain rfl := eq_text_of_text?_eq_some hid
    cases hvalid : isId t with
    | false =>
      have hrun : ∃ e, (Call.delete (.text t)).run s = (.error e, s) := by
        rw [Call.run, ExceptT.exec_map, Store.delete, fileOf, hvalid]
        exact ⟨_, rfl⟩
      obtain ⟨e, hrun⟩ := hrun
      exact .refused (by simp [Call.on, Value.text?, hvalid]) hrun rfl
    | true =>
      obtain ⟨s', hdelete, hs'⟩ := h.represents_delete hread hvalid
      have hrun : (Call.delete (.text t)).run s =
          (.ok (.bool (Book.find? book t).isSome), s') := by
        rw [Call.run, ExceptT.exec_map, hdelete,
          h.files t fun ht => hindex (congrArg Value.text ht), Option.isSome_map]
        rfl
      exact .answered (by simp [Call.on, Value.text?, hvalid]) hrun hs'

theorem list (hread : Json.ReadsBack (.list (Book.entries book))) : Lands .list s book := by
  have hrun : Call.list.run s = (.ok (.list (Book.entries book)), s) := by
    rw [Call.run, list_eq (h.index_eq hread)]
    rfl
  exact .answered rfl hrun h

theorem load {id : Value} (hread : ∀ v ∈ Book.documents book, Json.ReadsBack v)
    (hindex : id ≠ .text "index") : Lands (.load id) s book := by
  cases hid : id.text? with
  | none =>
    obtain ⟨e, he⟩ := load_of_not_text (s := s) hid
    have hrun : (Call.load id).run s = (.error e, s) := by rw [Call.run, he]
    exact .refused (by simp [Call.on, hid]) hrun rfl
  | some t =>
    obtain rfl := eq_text_of_text?_eq_some hid
    cases hfind : Book.find? book t with
    | none =>
      obtain ⟨e, he⟩ := h.load_of_unlisted (fun ht => hindex (congrArg Value.text ht)) hfind
      have hrun : (Call.load (.text t)).run s = (.error e, s) := by rw [Call.run, he]
      exact .refused (by simp [Call.on, Value.text?, hfind]) hrun rfl
    | some r =>
      obtain ⟨hmem, rfl⟩ := (Book.find?_eq_some_iff h.distinct).mp hfind
      have hread := hread _ (List.mem_cons_of_mem _ (List.mem_map_of_mem hmem))
      have hrun : (Call.load (.text r.id)).run s = (.ok r.file, s) := by
        rw [Call.run, h.load_eq hmem hread]
      exact .answered (by simp [Call.on, Value.text?, hfind]) hrun h

/-- Where the index is, there is no logic to be saved. At worst the index is written as it was. -/
theorem save_index (hread : Json.ReadsBack (.list (Book.entries book))) (name stock data : Value) :
    Lands (.save (.text "index") name stock data) s book := by
  have hnone : Book.find? book "index" = none :=
    Book.find?_eq_none_iff.mpr fun r hr => (h.named r hr).2
  have hon : (Call.save (.text "index") name stock data).on book = none := by
    simp [Call.on, Value.text?, hnone]
  have hfile : fileOf (.text "index") = .ok ("index" ++ ".json") := rfl
  rcases h.index with htext | ⟨-, htext⟩
  · have hvalue := value?_of_textOf? hread (encodable_entries h.encodable) htext
    have hload : s.load (.text "index") = .ok (.list (Book.entries book)) := by
      rw [Store.load, hfile, Outcome.ok_bind, hvalue]
      rfl
    have hexec := exec_save_of_load_eq_list hload name stock data
    cases hnull : name.isNull && stock.isNull && data.isNull with
    | false =>
      rw [hnull] at hexec
      exact .refused hon hexec rfl
    | true =>
      obtain ⟨s₁, hput, htext₁⟩ := put_of_encodable s "index" (encodable_entries h.encodable)
      rw [← htext, Function.update_eq_self] at htext₁
      have hindex₁ : s₁.index = .ok (Book.entries book) := by
        rw [index_congr (congrFun htext₁ "index"), h.index_eq hread]
      have hitem : (Value.list (Book.entries book)).item "name" = .error Value.listIndexFault := rfl
      have hunlisted : ∀ p ∈ book.zipIdx, p.1.id ≠ "index" := fun p hp =>
        (h.named p.1 (List.fst_mem_of_mem_zipIdx hp)).2
      have hentries := updateEntries_of_unlisted (Book.entries book).length hitem hunlisted
      rw [← Book.entries] at hentries
      rw [hnull, if_pos rfl, hfile, ExceptT.exec_bind_ok (ExceptT.exec_liftM s _),
        ExceptT.exec_bind_ok hput, ExceptT.exec_bind_ok (ExceptT.exec_get s₁),
        ExceptT.exec_liftM_bind_ok hindex₁,
        ExceptT.exec_liftM_bind_error hentries] at hexec
      exact .refused hon hexec htext₁
  · have hload : s.load (.text "index") = .error (.logicNotFound (.text "index")) := by
      rw [Store.load, hfile, Outcome.ok_bind, value?_of_textOf?_none htext]
      rfl
    exact .refused hon (exec_save_of_load_eq_error hload) rfl

theorem save {id : Value} (hread : ∀ v ∈ Book.documents book, Json.ReadsBack v)
    (name stock data : Value) : Lands (.save id name stock data) s book := by
  cases hid : id.text? with
  | none =>
    obtain ⟨e, he⟩ := load_of_not_text (s := s) hid
    exact .refused (by simp [Call.on, hid]) (exec_save_of_load_eq_error he) rfl
  | some t =>
    obtain rfl := eq_text_of_text?_eq_some hid
    cases hfind : Book.find? book t with
    | some r => exact h.save_listed hread hfind name stock data
    | none =>
      by_cases hindex : t = "index"
      · subst hindex
        exact h.save_index (hread _ List.mem_cons_self) name stock data
      · obtain ⟨e, he⟩ := h.load_of_unlisted hindex hfind
        exact .refused (by simp [Call.on, Value.text?, hfind]) (exec_save_of_load_eq_error he) rfl

/-- Reordering brings the entries of the named ids to the front and numbers all of them anew. -/
theorem reorder (hread : Json.ReadsBack (.list (Book.entries book))) (ids : Value) :
    Lands (.reorder ids) s book := by
  cases hitems : ids.items with
  | error e =>
    have hrun : (Call.reorder ids).run s = (.error e, s) := by
      rw [Call.run, ExceptT.exec_map, exec_reorder (h.index_eq hread) h.distinct,
        ExceptT.exec_liftM_bind_error hitems]
      rfl
    exact .refused (by simp [Call.on, hitems]) hrun rfl
  | ok items =>
    cases hkeys : items.all Value.isKey with
    | false =>
      have hbad : ∃ id ∈ items, id.isKey = false := by simpa using hkeys
      obtain ⟨e, he⟩ := pickByIds_of_not_isKey hbad (book.zipIdx.map keyed)
      have hrun : (Call.reorder ids).run s = (.error e, s) := by
        rw [Call.run, ExceptT.exec_map, exec_reorder (h.index_eq hread) h.distinct,
          ExceptT.exec_liftM_bind_ok hitems,
          ExceptT.exec_liftM_bind_error he]
        rfl
      exact .refused (by simp [Call.on, hitems, hkeys]) hrun rfl
    | true =>
      have hdistinct := Book.nodup_map_id_arranged h.distinct (items.filterMap Value.text?)
      have hmem (r : Record) : r ∈ Book.arranged book (items.filterMap Value.text?) ↔ r ∈ book :=
        Book.mem_arranged h.distinct
      have hsame := Book.find?_congr hdistinct h.distinct hmem
      have hall : ∀ r ∈ Book.arranged book (items.filterMap Value.text?), Json.Encodable r.file :=
        fun r hr => h.encodable r ((hmem r).mp hr)
      obtain ⟨s', hputIndex, htext⟩ := putIndex_entries s hall
      have hrun : (Call.reorder ids).run s =
          (.ok (.list (Book.entries (Book.arranged book (items.filterMap Value.text?)))), s') := by
        rw [Call.run, ExceptT.exec_map,
          exec_reorder_of_items (h.index_eq hread) h.distinct hitems (List.all_eq_true.mp hkeys),
          ExceptT.exec_bind_ok hputIndex]
        rfl
      have hon : (Call.reorder ids).on book =
          some (.list (Book.entries (Book.arranged book (items.filterMap Value.text?))),
            Book.arranged book (items.filterMap Value.text?)) := by
        simp [Call.on, hitems, hkeys]
      refine .answered hon hrun ?_
      refine h.written "" hdistinct (fun r hr => h.named r ((hmem r).mp hr)) hall
        (fun other _ => hsame other) ?_ htext
      rw [hsame, ← h.files "" (by decide), Function.update_eq_self]

end Represents

end TradingRules.Store
