import Mathlib.Data.List.Basic
import Mathlib.Data.List.Nodup
import TradingRules.Proofs.Sorting.Stable
import TradingRules.Proofs.Store.Book
import TradingRules.Proofs.Value.Outcome

/-!
# Operations on the index

Entries of records whose orders rise are in order already, so that sorting them does nothing. What
is done to the entries of an index is said here of the records and places they stand for.
-/

namespace TradingRules

namespace Store

variable {p : Record × Nat} {l : List (Record × Nat)}

@[simp] theorem idOf_entryOf (p : Record × Nat) : idOf (entryOf p) = .ok (.text p.1.id) := rfl

@[simp] theorem orderOf_entryOf (p : Record × Nat) : orderOf (entryOf p) = .ok (.int p.2) := rfl

theorem text_beq (s : String) (v : Value) : (Value.text s == v) = (v.text? == some s) := by
  show Value.equal (.text s) v = _
  cases v with
  | text t => simp [Value.equal, Value.equalLeaves, Value.text?, Bool.beq_eq_decide_eq, eq_comm]
  | null | bool | int | real | undefined | list | object =>
    simp [Value.equal, Value.equalLeaves, Value.numeric?, Value.text?]

theorem text_isSame (s : String) (v : Value) :
    (Value.text s).isSame v = (v.text? == some s) := by
  rw [Value.isSame, text_beq]
  simp [Value.isOneNaN]

/-- Items whose orders rise stay where they are. -/
theorem sortByOrder_eq_self {α β : Type} {l : List β} {f : β → Value × α} {order : β → Nat}
    (horder : ∀ b ∈ l, orderOf (f b).1 = .ok (.int (order b)))
    (hrise : l.Pairwise fun a b => order a ≤ order b) :
    sortByOrder (l.map f) = .ok (l.map f) := by
  have hkeyed : (l.map f).mapM (fun e => return (← orderOf e.1, e) : _ → Outcome _) =
      .ok (l.map fun b => (Value.int (order b), f b)) := by
    rw [List.mapM_map]
    refine Outcome.mapM_eq_ok fun b hb => ?_
    simp [horder b hb]
  have hordered : ∀ item ∈ l.map fun b => (Value.int (order b), f b), item.1.isOrdered := by
    simp [Value.isOrdered, Value.numeric?]
  have hsorted : (l.map fun b => (Value.int (order b), f b)).Pairwise fun a b =>
      decide (a.1.position ≤ b.1.position) = true := by
    refine List.pairwise_map.mpr (hrise.imp fun h => decide_eq_true ?_)
    exact Number.point_strictMono.monotone (by exact_mod_cast h)
  rw [sortByOrder, hkeyed, Outcome.ok_bind, Value.sortByKey_of_isOrdered hordered,
    Outcome.ok_bind, Sorting.sortBy, List.mergeSort_of_pairwise hsorted]
  simp

theorem pairwise_zipIdx (book : Book) : book.zipIdx.Pairwise fun a b => a.2 ≤ b.2 := by
  have hplaces : (book.zipIdx.map (·.2)).Pairwise (· < ·) := by
    rw [List.zipIdx_map_snd]
    exact List.pairwise_lt_range'
  exact (List.pairwise_map.mp hplaces).imp Nat.le_of_lt

theorem map_id_zipIdx (book : Book) : book.zipIdx.map (·.1.id) = book.map (·.id) := by
  have hmap := List.map_map (f := Prod.fst) (g := Record.id) (l := book.zipIdx)
  rw [List.zipIdx_map_fst] at hmap
  exact hmap.symm

theorem map_fst_filter_zipIdx (book : Book) (p : Record → Bool) :
    (book.zipIdx.filter fun q => p q.1).map (·.1) = book.filter p := by
  have hmap := List.filter_map (f := Prod.fst) (p := p) (l := book.zipIdx)
  rw [List.zipIdx_map_fst] at hmap
  exact hmap.symm

/-- Numbering takes no account of the places that entries had. -/
theorem numbered_map_entryOf (l : List (Record × Nat)) :
    numbered (l.map entryOf) = Book.entries (l.map (·.1)) := by
  have hplace : ∀ i < l.length, (List.range l.length).idxOf i = i := by
    intro i hi
    have h := List.nodup_range.idxOf_getElem i (by simpa using hi)
    simpa using h
  rw [numbered, renumber, Book.entries, List.zipIdx_map, List.zipIdx_map, List.map_map,
    List.map_map, List.length_map]
  refine List.map_congr_left fun q hq => ?_
  have hi := (List.mem_zipIdx hq).2.1
  simp [entryOf, entry, Fields.set, Fields.has, hplace q.2 (by omega)]

/-- Numbering by order gives entries that are in order their places. -/
theorem sortByOrder_zipIdx {l : List (Record × Nat)} (hrise : l.Pairwise fun a b => a.2 ≤ b.2) :
    sortByOrder (l.map entryOf).zipIdx = .ok (l.map entryOf).zipIdx := by
  have hplaced : l.zipIdx.Pairwise fun a b => a.1.2 ≤ b.1.2 := by
    rw [← List.zipIdx_map_fst 0 l] at hrise
    exact (List.pairwise_map (R := fun a b : Record × Nat => a.2 ≤ b.2)).mp hrise
  rw [List.zipIdx_map]
  exact sortByOrder_eq_self (fun b _ => rfl) hplaced

theorem renumber_zipIdx (entries : List Value) :
    renumber entries (entries.zipIdx.map (·.2)) = numbered entries := by
  rw [List.zipIdx_map_snd, numbered, List.range_eq_range']

theorem list_eq {s : Store} {book : Book} (h : s.index = .ok (Book.entries book)) :
    s.list = .ok (Book.entries book) := by
  have hsorted := sortByOrder_eq_self (f := fun p => (entryOf p, ()))
    (fun p _ => rfl) (pairwise_zipIdx book)
  rw [list, h, Outcome.ok_bind, Book.entries, List.map_map]
  rw [show (fun e => (e, ())) ∘ entryOf = fun p => (entryOf p, ()) from rfl, hsorted,
    Outcome.ok_bind, List.map_map]
  rfl

/-- The entry of a revised record is found by its id and takes its name and its stock. -/
theorem updateEntries_map_entryOf (r : Record) (count : Nat) {l : List (Record × Nat)}
    (hdistinct : (l.map (·.1.id)).Nodup) (hmem : r.id ∈ l.map (·.1.id)) :
    updateEntries (.text r.id) r.file count (l.map entryOf) =
      .ok (l.map fun p => entryOf (if p.1.id == r.id then r else p.1, p.2)) := by
  induction l with
  | nil => cases hmem
  | cons p l ih =>
    rw [List.map_cons, List.nodup_cons] at hdistinct
    rw [List.map_cons, List.map_cons, updateEntries, idOf_entryOf, Outcome.ok_bind, text_beq]
    by_cases hp : p.1.id = r.id
    · have hothers : l.map (fun q => entryOf (if q.1.id == r.id then r else q.1, q.2)) =
          l.map entryOf := by
        refine List.map_congr_left fun q hq => ?_
        rw [if_neg]
        simp only [beq_iff_eq]
        exact fun h => hdistinct.1 (List.mem_map.mpr ⟨q, hq, h.trans hp.symm⟩)
      rw [hothers, if_pos (by simp [Value.text?, hp]), if_pos (by simpa using hp)]
      simp [entryOf, entry, Record.file, Value.item, Value.withItem, Fields.get?, Fields.set,
        Fields.has, hp]
    · have hrest := ih hdistinct.2 (by simpa [Ne.symm hp] using hmem)
      rw [if_neg (by simpa [Value.text?] using Ne.symm hp), hrest, if_neg (by simpa using hp)]
      rfl

theorem updateEntries_of_unlisted {v : Value} {id : String} (count : Nat)
    {l : List (Record × Nat)} {e : Fault} (hv : v.item "name" = .error e)
    (hunlisted : ∀ p ∈ l, p.1.id ≠ id) :
    updateEntries (.text id) v count (l.map entryOf) = .error e := by
  induction l with
  | nil => rw [List.map_nil, updateEntries, hv, Outcome.error_bind]
  | cons p l ih =>
    rw [List.forall_mem_cons] at hunlisted
    rw [List.map_cons, updateEntries, idOf_entryOf, Outcome.ok_bind, text_beq,
      if_neg (by simpa [Value.text?] using Ne.symm hunlisted.1), ih hunlisted.2, Outcome.error_bind]

/-- An entry with its id, as reordering keeps them. -/
def keyed (p : Record × Nat) : Value × Value :=
  (.text p.1.id, entryOf p)

theorem foldlM_addById (done l : List (Record × Nat))
    (hdistinct : ((done ++ l).map (·.1.id)).Nodup) :
    (l.map entryOf).foldlM addById (done.map keyed) = .ok ((done ++ l).map keyed) := by
  induction l generalizing done with
  | nil =>
    rw [List.append_nil]
    rfl
  | cons p l ih =>
    have hnew : (done.map keyed).any (fun f => f.1.isSame (.text p.1.id)) = false := by
      rw [List.map_append, List.nodup_append] at hdistinct
      rw [List.any_map, List.any_eq_false]
      intro q hq hsame
      have hid : p.1.id = q.1.id := by simpa [keyed, text_isSame, Value.text?] using hsame
      exact hdistinct.2.2 _ (List.mem_map_of_mem hq) _ (by simp) hid.symm
    have hadd : addById (done.map keyed) (entryOf p) = .ok ((done ++ [p]).map keyed) := by
      rw [addById, idOf_entryOf, Outcome.ok_bind]
      simp [hnew, Value.isKey, keyed]
    rw [List.append_cons] at hdistinct ⊢
    rw [List.map_cons, List.foldlM_cons, hadd, Outcome.ok_bind, ih _ hdistinct]

theorem pickByIds_of_find?_eq_none {id : Value} {ids : List Value} {left : List (Value × Value)}
    (hkey : id.isKey = true) (hfind : left.find? (·.1.isSame id) = none) :
    pickByIds (id :: ids) left = pickByIds ids left := by
  rw [pickByIds, hkey, hfind]
  rfl

theorem pickByIds_of_find?_eq_some {id : Value} {ids picked : List Value} {f : Value × Value}
    {left rest : List (Value × Value)} (hkey : id.isKey = true)
    (hfind : left.find? (·.1.isSame id) = some f)
    (hrest : pickByIds ids (left.filter fun f => !f.1.isSame id) = .ok (picked, rest)) :
    pickByIds (id :: ids) left = .ok (f.2 :: picked, rest) := by
  rw [pickByIds, hkey, hfind]
  dsimp only
  rw [hrest]
  rfl

theorem find?_keyed_of_not_text {v : Value} (hv : v.text? = none) (l : List (Record × Nat)) :
    (l.map keyed).find? (·.1.isSame v) = none := by
  rw [List.find?_map, Option.map_eq_none_iff, List.find?_eq_none]
  simp [keyed, text_isSame, hv]

section

variable {v : Value} {id : String} (hv : v.text? = some id) (l : List (Record × Nat))
include hv

theorem find?_keyed :
    (l.map keyed).find? (·.1.isSame v) = (l.find? (·.1.id == id)).map keyed := by
  rw [List.find?_map]
  refine congrArg (fun p => (l.find? p).map keyed) (funext fun p => ?_)
  simp [keyed, text_isSame, hv, BEq.comm]

theorem filter_keyed : (l.map keyed).filter (fun f => !f.1.isSame v) =
    (l.filter fun p => !p.1.id == id).map keyed := by
  rw [List.filter_map]
  refine congrArg (List.map keyed) (List.filter_congr fun p _ => ?_)
  simp [keyed, text_isSame, hv, BEq.comm]

end

/-- Each id takes the entry that has it out of those that are left. -/
theorem pickByIds_map_keyed {ids : List Value} (hkeys : ∀ id ∈ ids, id.isKey = true)
    (l : List (Record × Nat)) : pickByIds ids (l.map keyed) = .ok (
      ((ids.filterMap Value.text?).eraseDups.filterMap fun id =>
        l.find? (·.1.id == id)).map entryOf,
      (l.filter fun p => !(ids.filterMap Value.text?).contains p.1.id).map keyed) := by
  induction ids generalizing l with
  | nil => simp [pickByIds]
  | cons v ids ih =>
    rw [List.forall_mem_cons] at hkeys
    cases hv : v.text? with
    | none =>
      rw [pickByIds_of_find?_eq_none hkeys.1 (find?_keyed_of_not_text hv l),
        List.filterMap_cons_none hv]
      exact ih hkeys.2 l
    | some id =>
      -- Whether the id is found or not, it is as if its records were taken out of the list first.
      have hrest := ih hkeys.2 (l.filter fun p => !p.1.id == id)
      have hfilter : (l.filter fun p => !p.1.id == id).filter
          (fun p => !(ids.filterMap Value.text?).contains p.1.id) =
            l.filter fun p => !(id :: ids.filterMap Value.text?).contains p.1.id := by
        rw [List.filter_filter]
        refine List.filter_congr fun p _ => ?_
        rw [List.contains_cons, Bool.not_or, Bool.and_comm]
      rw [← List.filterMap_find?_eraseDups (fun p : Record × Nat => p.1.id) id, hfilter] at hrest
      have hfind := find?_keyed hv l
      rw [List.filterMap_cons_some hv, List.eraseDups_cons, List.filterMap_cons]
      cases hq : l.find? fun p => p.1.id == id with
      | none =>
        have hself : (l.filter fun p => !p.1.id == id) = l := by
          refine List.filter_eq_self.mpr fun p hp => ?_
          simpa using List.find?_eq_none.mp hq p hp
        rw [hself] at hrest
        rw [hq] at hfind
        exact (pickByIds_of_find?_eq_none hkeys.1 hfind).trans hrest
      | some q =>
        rw [← filter_keyed hv] at hrest
        rw [hq] at hfind
        exact pickByIds_of_find?_eq_some hkeys.1 hfind hrest

theorem pickByIds_of_not_isKey {ids : List Value} (h : ∃ id ∈ ids, id.isKey = false)
    (left : List (Value × Value)) : ∃ e, pickByIds ids left = .error e := by
  induction ids generalizing left with
  | nil => simp at h
  | cons v ids ih =>
    cases hv : v.isKey with
    | false => exact ⟨.unhashable v, by rw [pickByIds, hv]; rfl⟩
    | true =>
      have hrest : ∃ id ∈ ids, id.isKey = false := by simpa [hv] using h
      rw [pickByIds, hv]
      cases left.find? fun f => f.1.isSame v with
      | none => exact ih hrest left
      | some f =>
        obtain ⟨e, he⟩ := ih hrest (left.filter fun f => !f.1.isSame v)
        dsimp only
        rw [he]
        exact ⟨e, rfl⟩

theorem length_entries (book : Book) : (Book.entries book).length = book.length := by
  simp [Book.entries]

theorem entries_concat (book : Book) (r : Record) :
    Book.entries (book ++ [r]) = Book.entries book ++ [entryOf (r, book.length)] := by
  simp [Book.entries, List.zipIdx_append]

theorem updateEntries_entries (hdistinct : (book.map (·.id)).Nodup)
    (hr : (Book.find? book r.id).isSome) (count : Nat) :
    updateEntries (.text r.id) r.file count (Book.entries book) =
      .ok (Book.entries (Book.replace book r)) := by
  have hids := map_id_zipIdx book
  have hmem : r.id ∈ book.map (·.id) := by
    obtain ⟨other, hother⟩ := Option.isSome_iff_exists.mp hr
    exact List.mem_map.mpr ⟨other, (Book.find?_eq_some_iff hdistinct).mp hother⟩
  rw [← hids] at hdistinct hmem
  rw [Book.entries, updateEntries_map_entryOf r count hdistinct hmem, Book.entries, Book.replace,
    List.zipIdx_map, List.map_map]
  rfl

/-- The index without the entries of an id. -/
theorem filterM_entries (book : Book) (id : String) :
    (Book.entries book).filterM (fun e => return !((← idOf e) == Value.text id) : _ → Action Bool) =
      pure ((book.zipIdx.filter fun p => p.1.id != id).map entryOf) := by
  have hkept : ∀ e ∈ Book.entries book,
      (do return !((← idOf e) == Value.text id) : Action Bool) =
        pure ((idOf e).toOption.all fun found => !(found == Value.text id)) := by
    intro e he
    obtain ⟨p, hp, rfl⟩ := List.mem_map.mp he
    rfl
  rw [Outcome.filterM_eq_pure hkept, Book.entries, List.filter_map]
  refine congrArg (fun l => pure (List.map entryOf l)) (List.filter_congr fun p _ => ?_)
  simp [Except.toOption, text_beq, Value.text?, bne, BEq.comm]

/-- What is left of the index is in order. -/
theorem sortByOrder_left (book : Book) (p : Record → Bool) :
    sortByOrder (((book.zipIdx.filter fun q => p q.1).map keyed).map fun f => (f.2, ())) =
      .ok ((book.zipIdx.filter fun q => p q.1).map fun q => (entryOf q, ())) := by
  rw [List.map_map]
  exact sortByOrder_eq_self (fun q _ => rfl) ((pairwise_zipIdx book).filter _)

theorem numbered_picked (book : Book) (ids : List String) :
    numbered ((ids.eraseDups.filterMap fun id => book.zipIdx.find? (·.1.id == id)).map entryOf ++
      (book.zipIdx.filter fun p => !ids.contains p.1.id).map entryOf) =
        Book.entries (Book.arranged book ids) := by
  have hfind (id : String) :
      (book.zipIdx.find? (·.1.id == id)).map (·.1) = Book.find? book id := by
    have hmap := List.find?_map (f := Prod.fst) (p := fun r => r.id == id) (l := book.zipIdx)
    rw [List.zipIdx_map_fst] at hmap
    exact hmap.symm
  rw [← List.map_append, numbered_map_entryOf, List.map_append, List.map_filterMap,
    map_fst_filter_zipIdx book fun r => !ids.contains r.id, Book.arranged]
  simp only [hfind]

end Store

end TradingRules
