import TradingRules.Proofs.Store.Files

/-!
# Books of logics

What a store stands for is a book: an ordered list of records. Calls change a book as a list is
changed. A new record comes last, a revised one stays where it is, the others close up where one is
deleted, and records are brought to the front in the order in which they are named. A call can also
be refused, and then it changes nothing.
-/

namespace TradingRules

def Value.text? : Value → Option String
  | .text s => some s
  | _ => none

namespace Store

/-- A logic with its id, its name, the stock it trades and its graphs. -/
structure Record where
  id : String
  name : Value
  stock : Value
  data : Value

abbrev Book := List Record

namespace Record

/-- What stands in the file of a logic. -/
def file (r : Record) : Value :=
  .object [("id", .text r.id), ("name", r.name), ("stock", r.stock), ("data", r.data)]

/-- A new record; whatever counts as false gives way to a default. -/
def fresh (unique : String) (name stock data : Value) : Record where
  id := "logic-" ++ unique
  name := name.orElse (.text "Untitled")
  stock := stock.orElse (.text "")
  data := data.orElse (.object [])

/-- A record with the parts that are given, which are those that are not null. -/
def revised (r : Record) (name stock data : Value) : Record where
  id := r.id
  name := if name.isNull then r.name else name
  stock := if stock.isNull then r.stock else stock
  data := if data.isNull then r.data else data

end Record

/-- The entry of a record in the index, with its place as the order. -/
def entryOf (p : Record × Nat) : Value :=
  entry (.text p.1.id) p.1.name p.1.stock (.int p.2)

namespace Book

def entries (book : Book) : List Value :=
  book.zipIdx.map entryOf

/-- All that is written for a book: the index and the file of each record. -/
def documents (book : Book) : List Value :=
  .list (entries book) :: book.map Record.file

def find? (book : Book) (id : String) : Option Record :=
  List.find? (·.id == id) book

/-- Puts a record in the place of the one with its id. -/
def replace (book : Book) (r : Record) : Book :=
  book.map fun other => if other.id == r.id then r else other

def remove (book : Book) (id : String) : Book :=
  book.filter fun r => r.id != id

/-- The records of the named ids in the order in which these are first named, and behind them the
other records in the order they had. -/
def arranged (book : Book) (ids : List String) : Book :=
  ids.eraseDups.filterMap (find? book) ++ book.filter fun r => !ids.contains r.id

end Book

inductive Call where
  /-- Unique is what the id of the new logic is made of. -/
  | create (unique : String) (name stock data : Value)
  | save (id name stock data : Value)
  | delete (id : Value)
  | reorder (ids : Value)
  | list
  | load (id : Value)

namespace Call

/-- The answer of a store, and the store that it leaves behind. -/
def run : Call → Store → Outcome Value × Store
  | create unique name stock data, s => (Store.create unique name stock data).exec s
  | save id name stock data, s => (Store.save id name stock data).exec s
  | delete id, s => (Value.bool <$> Store.delete id).exec s
  | reorder ids, s => (Value.list <$> Store.reorder ids).exec s
  | list, s => (s.list.map .list, s)
  | load id, s => (s.load id, s)

/-- The answer of a book, and the book that it becomes; nothing if the call is refused. -/
def on (book : Book) : Call → Option (Value × Book)
  | create unique name stock data =>
    let r := Record.fresh unique name stock data
    if Json.Encodable r.file then some (r.file, book ++ [r]) else none
  | save id name stock data => do
    let r := (← Book.find? book (← id.text?)).revised name stock data
    if Json.Encodable r.file then some (r.file, Book.replace book r) else none
  | delete id => do
    let id ← id.text?
    if isId id then some (.bool (Book.find? book id).isSome, Book.remove book id) else none
  | reorder ids =>
    match ids.items with
    | .ok ids =>
      let arranged := Book.arranged book (ids.filterMap Value.text?)
      if ids.all Value.isKey then some (.list (Book.entries arranged), arranged) else none
    | .error _ => none
  | list => some (.list (Book.entries book), book)
  | load id => do return ((← Book.find? book (← id.text?)).file, book)

variable {book : Book} {r r' : Record} {unique id : String} {name stock data : Value}

theorem on_create (book : Book) (hr : Record.fresh unique name stock data = r) :
    (create unique name stock data).on book =
      if Json.Encodable r.file then some (r.file, book ++ [r]) else none := by
  rw [on, hr]

theorem on_save (hfind : Book.find? book id = some r) (hr : r.revised name stock data = r') :
    (save (.text id) name stock data).on book =
      if Json.Encodable r'.file then some (r'.file, Book.replace book r') else none := by
  simp [on, Value.text?, hfind, hr]

/-- The book after a call; one that is refused leaves it as it is. -/
def after (book : Book) (c : Call) : Book :=
  ((c.on book).map (·.2)).getD book

def unique? : Call → Option String
  | create unique _ _ _ => some unique
  | _ => none

end Call

/-- The store after calls; in the beginning there is no directory. -/
def afterCalls (calls : List Call) : Store :=
  calls.foldl (fun s c => (c.run s).2) {}

def Book.afterCalls (calls : List Call) : Book :=
  calls.foldl Call.after []

namespace Book

variable {book book' : Book} {r : Record} {id : String}

theorem find?_eq_none_iff : find? book id = none ↔ ∀ r ∈ book, r.id ≠ id := by
  simp [find?]

theorem find?_eq_some_iff (hdistinct : (book.map (·.id)).Nodup) :
    find? book id = some r ↔ r ∈ book ∧ r.id = id := by
  constructor
  · intro h
    exact ⟨List.mem_of_find?_eq_some h, by simpa using List.find?_some h⟩
  · rintro ⟨hr, rfl⟩
    cases hfind : find? book r.id with
    | none => exact absurd rfl (find?_eq_none_iff.mp hfind r hr)
    | some other =>
      have hid : other.id = r.id := by simpa using List.find?_some hfind
      rw [List.inj_on_of_nodup_map hdistinct (List.mem_of_find?_eq_some hfind) hr hid]

/-- Which record has an id does not hang on the order of the records. -/
theorem find?_congr (hdistinct : (book.map (·.id)).Nodup) (hdistinct' : (book'.map (·.id)).Nodup)
    (hmem : ∀ r, r ∈ book ↔ r ∈ book') (id : String) : find? book id = find? book' id := by
  refine Option.ext fun r => ?_
  rw [find?_eq_some_iff hdistinct, find?_eq_some_iff hdistinct', hmem]

theorem find?_concat_of_ne (h : id ≠ r.id) : find? (book ++ [r]) id = find? book id := by
  simp [find?, Ne.symm h]

theorem find?_concat_self (hnew : ∀ other ∈ book, other.id ≠ r.id) :
    find? (book ++ [r]) r.id = some r := by
  rw [find?, List.find?_append, ← find?, find?_eq_none_iff.mpr hnew]
  simp

theorem find?_replace_self (hr : (find? book r.id).isSome) :
    find? (replace book r) r.id = some r := by
  obtain ⟨other, hother⟩ := Option.isSome_iff_exists.mp hr
  rw [find?, replace, List.find?_replaced Record.id r book r.id, if_pos rfl, ← find?, hother,
    Option.map_some]

theorem find?_remove_self (book : Book) (id : String) : find? (remove book id) id = none := by
  simp [find?_eq_none_iff, remove]

theorem find?_replace_of_ne (h : id ≠ r.id) : find? (replace book r) id = find? book id := by
  rw [find?, replace, List.find?_replaced Record.id r book id, if_neg h, find?]

theorem remove_of_find?_eq_none (h : find? book id = none) : remove book id = book :=
  List.filter_eq_self.mpr (by simpa using find?_eq_none_iff.mp h)

theorem find?_remove_of_ne {other : String} (h : other ≠ id) :
    find? (remove book id) other = find? book other := by
  rw [find?, find?, remove, List.find?_filter]
  refine congrArg (List.find? · book) (funext fun r => ?_)
  by_cases hr : r.id = other <;> simp [hr, h]

theorem map_id_replace (book : Book) (r : Record) :
    (replace book r).map (·.id) = book.map (·.id) := by
  rw [replace, List.map_map]
  refine List.map_congr_left fun other _ => ?_
  by_cases hid : other.id = r.id <;> simp [hid]

theorem forall_mem_replace {p : Record → Prop} (hr : p r) (h : ∀ other ∈ book, p other) :
    ∀ other ∈ replace book r, p other := by
  intro other hother
  obtain ⟨kept, hkept, rfl⟩ := List.mem_map.mp hother
  split
  · exact hr
  · exact h kept hkept

theorem arranged_subset (book : Book) (ids : List String) : arranged book ids ⊆ book := by
  intro r hr
  rcases List.mem_append.mp hr with hr | hr
  · obtain ⟨id, -, hfind⟩ := List.mem_filterMap.mp hr
    exact List.mem_of_find?_eq_some hfind
  · exact List.mem_of_mem_filter hr

theorem mem_arranged (hdistinct : (book.map (·.id)).Nodup) {ids : List String} :
    r ∈ arranged book ids ↔ r ∈ book := by
  simp only [arranged, List.mem_append, List.mem_filterMap, List.mem_eraseDups,
    find?_eq_some_iff hdistinct, List.mem_filter]
  by_cases h : r.id ∈ ids
  · simp [h]
  · simp [h]

theorem nodup_map_id_arranged (hdistinct : (book.map (·.id)).Nodup) (ids : List String) :
    ((arranged book ids).map (·.id)).Nodup := by
  have hfound : ∀ {id found}, found ∈ (find? book id).map (·.id) → id = found := by
    intro id found h
    obtain ⟨r, hr, rfl⟩ := Option.map_eq_some_iff.mp h
    exact ((find?_eq_some_iff hdistinct).mp hr).2.symm
  rw [arranged, List.map_append, List.map_filterMap, List.nodup_append]
  refine ⟨(List.nodup_eraseDups ids).filterMap fun a b c ha hb =>
    (hfound ha).trans (hfound hb).symm, hdistinct.sublist (List.filter_sublist.map _), ?_⟩
  intro named hnamed other hother heq
  subst heq
  obtain ⟨id, hid, hname⟩ := List.mem_filterMap.mp hnamed
  obtain ⟨r, hr, hrest⟩ := List.mem_map.mp hother
  have hnot := (List.mem_filter.mp hr).2
  rw [hrest, ← hfound hname] at hnot
  simp [List.mem_eraseDups.mp hid] at hnot

end Book

/-- A record has the id of one that was there, or the id that was made for it. -/
theorem Call.id_mem_after {book : Book} {c : Call} {r : Record} (hr : r ∈ c.after book) :
    r.id ∈ book.map (·.id) ∨ ∃ unique, c.unique? = some unique ∧ r.id = "logic-" ++ unique := by
  rw [after] at hr
  cases hon : c.on book with
  | none =>
    rw [hon] at hr
    exact .inl (List.mem_map_of_mem hr)
  | some result =>
    obtain ⟨answer, book'⟩ := result
    rw [hon] at hr
    replace hr : r ∈ book' := hr
    cases c with
    | create unique name stock data =>
      simp only [on, Option.ite_none_right_eq_some, Option.some.injEq, Prod.mk.injEq] at hon
      obtain ⟨-, -, rfl⟩ := hon
      rcases List.mem_append.mp hr with hr | hr
      · exact .inl (List.mem_map_of_mem hr)
      · exact .inr ⟨unique, rfl, by rw [List.mem_singleton.mp hr]; rfl⟩
    | save id name stock data =>
      simp only [on, Option.bind_eq_bind, Option.bind_eq_some_iff, Option.ite_none_right_eq_some,
        Option.some.injEq, Prod.mk.injEq] at hon
      obtain ⟨t, -, old, -, -, -, rfl⟩ := hon
      have hid := List.mem_map_of_mem (f := Record.id) hr
      rw [Book.map_id_replace] at hid
      exact .inl hid
    | delete id =>
      simp only [on, Option.bind_eq_bind, Option.bind_eq_some_iff, Option.ite_none_right_eq_some,
        Option.some.injEq, Prod.mk.injEq] at hon
      obtain ⟨t, -, -, -, rfl⟩ := hon
      exact .inl (List.mem_map_of_mem (List.mem_of_mem_filter hr))
    | reorder ids =>
      rw [on] at hon
      split at hon
      · simp only [Option.ite_none_right_eq_some, Option.some.injEq, Prod.mk.injEq] at hon
        obtain ⟨-, -, rfl⟩ := hon
        exact .inl (List.mem_map_of_mem (Book.arranged_subset _ _ hr))
      · cases hon
    | list =>
      obtain rfl := (Prod.mk.inj (Option.some.inj hon)).2
      exact .inl (List.mem_map_of_mem hr)
    | load id =>
      simp only [on, Option.bind_eq_bind, Option.bind_eq_some_iff, Option.pure_def,
        Option.some.injEq, Prod.mk.injEq] at hon
      obtain ⟨t, -, old, -, -, rfl⟩ := hon
      exact .inl (List.mem_map_of_mem hr)

end Store

end TradingRules
