import Mathlib.Data.List.Basic
import TradingRules.Proofs.Value.Outcome
import TradingRules.Sorting.Basic

/-!
# Sorting loses nothing

Whatever the comparison says, what is sorted has the same items as before: runs are cut off, turned
round and merged by strides, and at each step the items that are out of the way and those that are
still to come are together those of the start.
-/

namespace TradingRules.Sorting

variable {α : Type} {less : α → α → Outcome Bool} {back : Bool}

/-! ### Merging -/

/-- All items of what a step leaves. -/
def Rest.items : Rest α → List α
  | .none merged => merged
  | .some held fed merged => merged ++ (held ++ fed)

theorem takeHeld_perm {held fed merged : List α} {n : Nat} {rest : Rest α}
    (h : takeHeld less back held fed merged = .ok (n, rest)) :
    rest.items.Perm (merged ++ (held ++ fed)) := by
  classical
  cases fed with
  | nil =>
    obtain ⟨-, rfl⟩ := Prod.mk.inj (Except.ok.inj h)
    simpa [Rest.items] using (List.reverse_perm merged).append_right held
  | cons f fed =>
    obtain ⟨k, -, h⟩ := Outcome.bind_eq_ok.mp h
    obtain ⟨-, rfl⟩ := Prod.mk.inj (Except.ok.inj h)
    have hcut := List.take_append_drop k held
    generalize held.take k = taken at *
    generalize held.drop k = left at *
    subst hcut
    refine List.perm_iff_count.mpr fun a => ?_
    split <;> simp [Rest.items, List.count_cons] <;> omega

theorem takeFed_perm {held fed merged : List α} {n : Nat} {rest : Rest α}
    (h : takeFed less back held fed merged = .ok (n, rest)) :
    rest.items.Perm (merged ++ (held ++ fed)) := by
  classical
  cases held with
  | nil =>
    obtain ⟨-, rfl⟩ := Prod.mk.inj (Except.ok.inj h)
    simpa [Rest.items] using (List.reverse_perm merged).append_right fed
  | cons f held =>
    obtain ⟨k, -, h⟩ := Outcome.bind_eq_ok.mp h
    obtain ⟨-, rfl⟩ := Prod.mk.inj (Except.ok.inj h)
    have hcut := List.take_append_drop k fed
    generalize fed.take k = taken at *
    generalize fed.drop k = left at *
    subst hcut
    refine List.perm_iff_count.mpr fun a => ?_
    split <;> simp [Rest.items, List.count_cons] <;> omega

theorem takeRows_perm {held fed merged : List α} {n : Nat} {rest : Rest α}
    (h : takeRows less back held fed merged = .ok (n, rest)) :
    rest.items.Perm (merged ++ (held ++ fed)) := by
  rw [takeRows] at h
  generalize hrows : (if back then (takeFed less back, takeHeld less back)
    else (takeHeld less back, takeFed less back)) = rows at h
  obtain ⟨first, second⟩ := rows
  have hfirst : ∀ {h f m n r}, first h f m = .ok (n, r) → r.items.Perm (m ++ (h ++ f)) := by
    cases back with
    | true => exact (Prod.mk.inj hrows).1 ▸ takeFed_perm
    | false => exact (Prod.mk.inj hrows).1 ▸ takeHeld_perm
  have hsecond : ∀ {h f m n r}, second h f m = .ok (n, r) → r.items.Perm (m ++ (h ++ f)) := by
    cases back with
    | true => exact (Prod.mk.inj hrows).2 ▸ takeHeld_perm
    | false => exact (Prod.mk.inj hrows).2 ▸ takeFed_perm
  obtain ⟨⟨k, taken⟩, htaken, h⟩ := Outcome.bind_eq_ok.mp h
  cases taken with
  | none all =>
    obtain ⟨-, rfl⟩ := Prod.mk.inj (Except.ok.inj h)
    exact hfirst htaken
  | some held' fed' merged' =>
    obtain ⟨⟨m, rest'⟩, hrest, h⟩ := Outcome.bind_eq_ok.mp h
    obtain ⟨-, rfl⟩ := Prod.mk.inj (Except.ok.inj h)
    exact (hsecond hrest).trans (hfirst htaken)

theorem mergeItems_perm {fuel : Nat} {gait : Gait} {patience patience' : Nat}
    {held fed merged out : List α}
    (h : mergeItems less back fuel gait patience held fed merged = .ok (out, patience')) :
    out.Perm (merged ++ (held ++ fed)) := by
  induction fuel generalizing gait patience held fed merged with
  | zero =>
    obtain ⟨rfl, -⟩ := Prod.mk.inj (Except.ok.inj h)
    simpa using (List.reverse_perm merged).append_right (held ++ fed)
  | succ fuel ih =>
    cases gait with
    | striding =>
      obtain ⟨⟨n, rest⟩, hrest, h⟩ := Outcome.bind_eq_ok.mp h
      have hrows := takeRows_perm hrest
      cases rest with
      | none all =>
        obtain ⟨rfl, -⟩ := Prod.mk.inj (Except.ok.inj h)
        exact hrows
      | some held' fed' merged' =>
        dsimp only at h
        split at h
        · exact (ih h).trans hrows
        · exact (ih h).trans hrows
    | single heldRow fedRow =>
      cases held with
      | nil =>
        obtain ⟨rfl, -⟩ := Prod.mk.inj (Except.ok.inj h)
        simpa using (List.reverse_perm merged).append_right fed
      | cons x held =>
        cases fed with
        | nil =>
          obtain ⟨rfl, -⟩ := Prod.mk.inj (Except.ok.inj h)
          simpa using (List.reverse_perm merged).append_right (x :: held)
        | cons y fed =>
          obtain ⟨first, -, h⟩ := Outcome.bind_eq_ok.mp h
          have hback := List.reverse_perm merged
          have hfed : (y :: merged ++ (x :: held ++ fed)).Perm
              (merged ++ (x :: held ++ y :: fed)) := by
            have hmiddle : (y :: (x :: held ++ fed)).Perm (x :: held ++ y :: fed) :=
              List.perm_middle.symm
            exact List.perm_middle.symm.trans (hmiddle.append_left merged)
          have hheld : (x :: merged ++ (held ++ y :: fed)).Perm
              (merged ++ (x :: held ++ y :: fed)) := List.perm_middle.symm
          cases first with
          | true =>
            rw [if_pos rfl] at h
            split at h
            · rename_i hlast
              obtain ⟨rfl, -⟩ := Prod.mk.inj (Except.ok.inj h)
              obtain rfl := List.isEmpty_iff.mp hlast
              exact hback.append (List.perm_append_singleton y (x :: held)).symm
            · split at h
              · exact (ih h).trans hfed
              · exact (ih h).trans hfed
          | false =>
            rw [if_neg Bool.false_ne_true] at h
            split at h
            · obtain ⟨rfl, -⟩ := Prod.mk.inj (Except.ok.inj h)
              rw [List.append_assoc]
              refine hback.append (List.Perm.cons x ?_)
              exact List.perm_append_comm.trans (List.Perm.refl (held ++ y :: fed))
            · split at h
              · exact (ih h).trans hheld
              · exact (ih h).trans hheld

theorem mergeInto_perm {patience patience' : Nat} {held fed out : List α}
    (h : mergeInto less back patience held fed = .ok (out, patience')) :
    out.Perm (held ++ fed) := by
  unfold mergeInto at h
  split at h
  · obtain ⟨rfl, -⟩ := Prod.mk.inj (Except.ok.inj h)
    exact List.perm_append_comm
  · obtain ⟨rfl, -⟩ := Prod.mk.inj (Except.ok.inj h)
    exact (List.perm_append_singleton _ _).symm
  · refine (mergeItems_perm h).trans ?_
    rw [List.singleton_append]
    exact List.perm_middle.symm
  · obtain ⟨rfl, -⟩ := Prod.mk.inj (Except.ok.inj h)
    simp

theorem mergeRuns_perm {patience patience' : Nat} {xs ys out : List α}
    (h : mergeRuns less patience xs ys = .ok (out, patience')) : out.Perm (xs ++ ys) := by
  unfold mergeRuns at h
  split at h
  · obtain ⟨rfl, -⟩ := Prod.mk.inj (Except.ok.inj h)
    simp
  · rename_i y ys'
    obtain ⟨n, -, h⟩ := Outcome.bind_eq_ok.mp h
    have hxs := List.take_append_drop n xs
    dsimp only at h
    generalize xs.take n = front at h hxs
    generalize xs.drop n = left at h hxs
    rw [← hxs]
    split at h
    · rename_i hnone
      obtain ⟨rfl, -⟩ := Prod.mk.inj (Except.ok.inj h)
      simp [List.getLast?_eq_none_iff.mp hnone]
    · obtain ⟨m, -, h⟩ := Outcome.bind_eq_ok.mp h
      have hys := List.take_append_drop ((y :: ys').length - m) (y :: ys')
      generalize (y :: ys').take ((y :: ys').length - m) = middle at h hys
      generalize (y :: ys').drop ((y :: ys').length - m) = behind at h hys
      rw [← hys]
      have hmiddle : ∀ {merged : List α}, merged.Perm (left ++ middle) →
          (front ++ merged ++ behind).Perm (front ++ left ++ (middle ++ behind)) := by
        intro merged hmerged
        simpa using (hmerged.append_left front).append_right behind
      split at h
      · rename_i hempty
        obtain ⟨rfl, -⟩ := Prod.mk.inj (Except.ok.inj h)
        simp [List.isEmpty_iff.mp hempty]
      · split at h
        · obtain ⟨⟨merged, patience''⟩, hmerged, h⟩ := Outcome.bind_eq_ok.mp h
          obtain ⟨rfl, -⟩ := Prod.mk.inj (Except.ok.inj h)
          exact hmiddle (mergeInto_perm hmerged)
        · obtain ⟨⟨merged, patience''⟩, hmerged, h⟩ := Outcome.bind_eq_ok.mp h
          obtain ⟨rfl, -⟩ := Prod.mk.inj (Except.ok.inj h)
          refine hmiddle ((List.reverse_perm merged).trans ((mergeInto_perm hmerged).trans ?_))
          rw [← List.reverse_append]
          exact List.reverse_perm _

/-! ### Runs -/

theorem naturalRun_perm {items run : List α} (h : naturalRun less items = .ok run) :
    ∃ n > 0, run.Perm (items.take n) := by
  unfold naturalRun at h
  split at h
  · obtain ⟨falling, -, h⟩ := Outcome.bind_eq_ok.mp h
    obtain ⟨n, -, h⟩ := Outcome.bind_eq_ok.mp h
    obtain rfl := Except.ok.inj h
    refine ⟨2 + n, by omega, ?_⟩
    split
    · exact List.reverse_perm _
    · exact List.Perm.refl _
  · obtain rfl := Except.ok.inj h
    exact ⟨items.length + 1, by omega, by rw [List.take_of_length_le (by omega)]⟩

theorem insert_perm {run out : List α} {x : α} (h : insert less run x = .ok out) :
    out.Perm (x :: run) := by
  obtain ⟨n, -, h⟩ := Outcome.bind_eq_ok.mp h
  obtain rfl := Except.ok.inj h
  have hcut : (run.take n ++ x :: run.drop n).Perm (x :: (run.take n ++ run.drop n)) :=
    List.perm_middle
  rwa [List.take_append_drop] at hcut

theorem foldlM_insert_perm {items run out : List α}
    (h : items.foldlM (insert less) run = .ok out) : out.Perm (run ++ items) := by
  induction items generalizing run with
  | nil =>
    obtain rfl := Except.ok.inj h
    simp
  | cons x items ih =>
    obtain ⟨next, hnext, h⟩ := Outcome.bind_eq_ok.mp h
    refine (ih h).trans (((insert_perm hnext).append_right items).trans ?_)
    exact List.perm_middle.symm

theorem longRun_perm {least : Nat} {items run : List α} (h : longRun less least items = .ok run) :
    ∃ n > 0, run.Perm (items.take n) := by
  obtain ⟨natural, hnatural, h⟩ := Outcome.bind_eq_ok.mp h
  obtain ⟨n, hpos, hn⟩ := naturalRun_perm hnatural
  refine ⟨max n least, by omega, ?_⟩
  have hlength : natural.length = min n items.length := by simpa using hn.length_eq
  have hwhole : items.take (max n least) =
      items.take n ++ (items.take least).drop natural.length := by
    rw [hlength]
    rcases Nat.le_total n items.length with hn | hn
    · rw [Nat.min_eq_left hn, List.drop_take, ← List.take_add]
      exact congrArg items.take (by omega)
    · rw [List.take_of_length_le hn, List.take_of_length_le (by omega),
        List.drop_eq_nil_of_le (by simp; omega), List.append_nil]
  rw [hwhole]
  exact (foldlM_insert_perm h).trans (hn.append_right _)

/-- All items of a stack of runs, from its bottom to its top. -/
def itemsOf (runs : List (Run α)) : List α :=
  runs.reverse.flatMap Run.items

theorem append_perm {patience patience' : Nat} {a b run : Run α}
    (h : a.append less patience b = .ok (run, patience')) :
    run.items.Perm (a.items ++ b.items) := by
  obtain ⟨⟨items, patience''⟩, hmerged, h⟩ := Outcome.bind_eq_ok.mp h
  obtain ⟨rfl, -⟩ := Prod.mk.inj (Except.ok.inj h)
  exact mergeRuns_perm hmerged

theorem settleRuns_perm {depth patience patience' : Nat} {last : Run α} {before out : List (Run α)}
    (h : settleRuns less depth last before patience = .ok (out, patience')) :
    (itemsOf out).Perm (itemsOf (last :: before)) := by
  induction before generalizing last patience with
  | nil =>
    obtain ⟨rfl, -⟩ := Prod.mk.inj (Except.ok.inj h)
    exact List.Perm.refl _
  | cons first rest ih =>
    rw [settleRuns] at h
    split at h
    · obtain ⟨⟨run, patience''⟩, hrun, h⟩ := Outcome.bind_eq_ok.mp h
      refine (ih h).trans ?_
      simpa [itemsOf] using (append_perm hrun).append_left _
    · obtain ⟨rfl, -⟩ := Prod.mk.inj (Except.ok.inj h)
      exact List.Perm.refl _

theorem addRun_perm {size patience patience' : Nat} {run : Run α} {runs out : List (Run α)}
    (h : addRun less size runs patience run = .ok (out, patience')) :
    (itemsOf out).Perm (itemsOf runs ++ run.items) := by
  cases runs with
  | nil =>
    obtain ⟨rfl, -⟩ := Prod.mk.inj (Except.ok.inj h)
    simp [itemsOf]
  | cons last rest =>
    obtain ⟨⟨settled, patience''⟩, hsettled, h⟩ := Outcome.bind_eq_ok.mp h
    obtain ⟨rfl, -⟩ := Prod.mk.inj (Except.ok.inj h)
    have hperm := (settleRuns_perm hsettled).append_right run.items
    cases settled with
    | nil => simpa [itemsOf] using hperm
    | cons last' rest' => simpa [itemsOf] using hperm

theorem collectRuns_perm {size fuel start patience patience' : Nat} {items : List α}
    {runs out : List (Run α)} (hfuel : items.length ≤ fuel)
    (h : collectRuns less size fuel start items runs patience = .ok (out, patience')) :
    (itemsOf out).Perm (itemsOf runs ++ items) := by
  induction fuel generalizing start items runs patience with
  | zero =>
    obtain rfl := List.length_eq_zero_iff.mp (Nat.le_zero.mp hfuel)
    obtain ⟨rfl, -⟩ := Prod.mk.inj (Except.ok.inj h)
    simp
  | succ fuel ih =>
    cases items with
    | nil =>
      obtain ⟨rfl, -⟩ := Prod.mk.inj (Except.ok.inj h)
      simp
    | cons x rest =>
      obtain ⟨run, hrun, h⟩ := Outcome.bind_eq_ok.mp h
      obtain ⟨⟨runs', patience''⟩, hadd, h⟩ := Outcome.bind_eq_ok.mp h
      obtain ⟨n, hpos, hn⟩ := longRun_perm hrun
      have hlength : run.length = min n (rest.length + 1) := by simpa using hn.length_eq
      rw [List.length_cons] at hfuel
      refine (ih (by simp; omega) h).trans ?_
      have hrest : (x :: rest).drop run.length = (x :: rest).drop n := by
        rw [hlength]
        rcases Nat.le_total n (rest.length + 1) with hn | hn
        · rw [Nat.min_eq_left hn]
        · rw [Nat.min_eq_right hn, List.drop_eq_nil_of_le (by simp),
            List.drop_eq_nil_of_le (by simpa using hn)]
      have hrun : (run ++ (x :: rest).drop run.length).Perm (x :: rest) := by
        have hparts := hn.append_right ((x :: rest).drop n)
        rwa [List.take_append_drop, ← hrest] at hparts
      refine ((addRun_perm hadd).append_right _).trans ?_
      rw [List.append_assoc]
      exact hrun.append_left _

theorem mergeAll_perm {last : Run α} {before : List (Run α)} {patience : Nat} {out : List α}
    (h : mergeAll less last before patience = .ok out) : out.Perm (itemsOf (last :: before)) := by
  fun_induction mergeAll less last before patience with
  | case1 last patience =>
    obtain rfl := Except.ok.inj h
    simp [itemsOf]
  | case2 last patience first =>
    obtain ⟨⟨run, patience'⟩, hrun, h⟩ := Outcome.bind_eq_ok.mp h
    obtain rfl := Except.ok.inj h
    simpa [itemsOf] using append_perm hrun
  | case3 last patience b a rest _ ih =>
    obtain ⟨⟨run, patience'⟩, hrun, h⟩ := Outcome.bind_eq_ok.mp h
    refine (ih run patience' h).trans ?_
    simpa [itemsOf] using ((append_perm hrun).append_left _).append_right last.items
  | case4 last patience b a rest _ ih =>
    obtain ⟨⟨run, patience'⟩, hrun, h⟩ := Outcome.bind_eq_ok.mp h
    refine (ih run patience' h).trans ?_
    simpa [itemsOf] using (append_perm hrun).append_left (itemsOf rest ++ a.items)

/-- What is sorted has the items that it had before. -/
theorem sort_perm {items out : List α} (h : sort less items = .ok out) : out.Perm items := by
  obtain ⟨⟨runs, patience⟩, hruns, h⟩ := Outcome.bind_eq_ok.mp h
  have hperm := collectRuns_perm (Nat.le_refl _) hruns
  cases runs with
  | nil =>
    obtain rfl := Except.ok.inj h
    simpa [itemsOf] using hperm
  | cons last before => exact (mergeAll_perm h).trans (by simpa [itemsOf] using hperm)

end TradingRules.Sorting
