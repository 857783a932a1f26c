import TradingRules.Proofs.Market.Consolidation

/-!
# Batches that come again

The refresh loop asks for the newest candles over and over, so most of a batch was merged before.
The bars of a batch come in the order of their times. After the batch its last bar is the newest one
kept, or all of them lie below the newest; either way they settle as before when they come again.
-/

namespace TradingRules.Market

namespace Bar

variable {older : List Bar} {b newest : Bar}

theorem place_of_lt (h : b.position < newest.position) :
    place (older ++ [newest]) b = older ++ [newest] := by
  rw [place, List.getLast?_concat]
  exact if_pos h

/-- A bar of the newest time takes the place of the newest one. -/
theorem place_of_eq (h : b.position = newest.position) :
    place (older ++ [newest]) b = older ++ [b] := by
  rw [place, List.getLast?_concat]
  dsimp only
  rw [if_neg h.not_lt, if_pos h, List.dropLast_concat]

/-- Placing a bar leaves a newer one on top, and all as it was, or puts the bar on top. -/
theorem exists_place (kept : List Bar) (b : Bar) :
    (∃ older newest, kept = older ++ [newest] ∧ b.position < newest.position ∧
      place kept b = kept) ∨ ∃ older, place kept b = older ++ [b] := by
  cases hnewest : kept.getLast? with
  | none => exact .inr ⟨[], by rw [place, hnewest]; rfl⟩
  | some newest =>
    obtain ⟨older, rfl⟩ := List.getLast?_eq_some_iff.mp hnewest
    rcases lt_trichotomy b.position newest.position with hlt | heq | hgt
    · exact .inl ⟨older, newest, rfl, hlt, place_of_lt hlt⟩
    · exact .inr ⟨older, place_of_eq heq⟩
    · refine .inr ⟨older ++ [newest], ?_⟩
      rw [place, hnewest]
      dsimp only
      rw [if_neg hgt.not_gt, if_neg hgt.ne']

theorem settled_append (bars new : List Bar) :
    settled (bars ++ new) = new.foldl place (settled bars) := by
  induction new generalizing bars with
  | nil => rw [List.append_nil, List.foldl_nil]
  | cons b rest ih =>
    rw [List.append_cons, ih, settled_concat (settles bars), List.foldl_cons]

theorem foldl_place_of_lt {new : List Bar} (h : ∀ b ∈ new, b.position < newest.position) :
    new.foldl place (older ++ [newest]) = older ++ [newest] := by
  induction new with
  | nil => rfl
  | cons b rest ih =>
    rw [List.foldl_cons, place_of_lt (h b List.mem_cons_self)]
    exact ih fun c hc => h c (List.mem_cons_of_mem b hc)

/-- Bars up to the newest time change at most which bar stands there. -/
theorem exists_foldl_place {new : List Bar} (h : ∀ b ∈ new, b.position ≤ newest.position) :
    ∃ last : Bar, last.position = newest.position ∧
      new.foldl place (older ++ [newest]) = older ++ [last] := by
  induction new generalizing newest with
  | nil => exact ⟨newest, rfl, rfl⟩
  | cons b rest ih =>
    have hrest := fun c hc => h c (List.mem_cons_of_mem b hc)
    rw [List.foldl_cons]
    rcases (h b List.mem_cons_self).lt_or_eq with hlt | heq
    · rw [place_of_lt hlt]
      exact ih hrest
    · rw [place_of_eq heq]
      have hnext : ∀ c ∈ rest, c.position ≤ b.position := fun c hc => (hrest c hc).trans heq.ge
      obtain ⟨last, hlast, hplaced⟩ := ih hnext
      exact ⟨last, hlast.trans heq, hplaced⟩

/-- Bars in the order of their times settle as before when they come again. -/
theorem foldl_place_again {new : List Bar}
    (h : new.Pairwise fun a b => a.position ≤ b.position) (kept : List Bar) :
    new.foldl place (new.foldl place kept) = new.foldl place kept := by
  rcases List.eq_nil_or_concat new with rfl | ⟨init, b, rfl⟩
  · rfl
  · rw [List.concat_eq_append] at h ⊢
    have hinit : ∀ a ∈ init, a.position ≤ b.position := fun a ha =>
      (List.pairwise_append.mp h).2.2 a ha b List.mem_cons_self
    have hplace : (init ++ [b]).foldl place kept = place (init.foldl place kept) b := by simp
    rw [hplace]
    rcases exists_place (init.foldl place kept) b with ⟨older, newest, hkept, hlt, hsame⟩ | htop
    · rw [hsame, hkept]
      refine foldl_place_of_lt fun a ha => ?_
      rcases List.mem_append.mp ha with ha | ha
      · exact (hinit a ha).trans_lt hlt
      · rwa [List.mem_singleton.mp ha]
    · obtain ⟨older, htop⟩ := htop
      obtain ⟨last, hlast, hagain⟩ : ∃ last : Bar, last.position = b.position ∧
          init.foldl place (older ++ [b]) = older ++ [last] := exists_foldl_place hinit
      rw [htop, List.foldl_append, hagain]
      exact place_of_eq hlast.symm

theorem settled_again {new : List Bar} (h : new.Pairwise fun a b => a.position ≤ b.position)
    (bars : List Bar) : settled (bars ++ new ++ new) = settled (bars ++ new) := by
  rw [settled_append, settled_append, foldl_place_again h]

end Bar

/-- A batch that is merged twice in a row leaves the market data as it is after the first time,
whatever was merged before: repeated timestamps, candles older than the history and batches longer
than its bound make no difference. -/
theorem redelivery_changes_nothing (settings : Settings) (connected : Bool)
    (hlimit : 0 < settings.limit) (batches : List (List Fields)) (batch : List Fields)
    (hbatches : ∀ b ∈ batches, ∀ candle ∈ b, History.isRegular candle = true)
    (hbatch : ∀ candle ∈ batch, History.isRegular candle = true) :
    ∃ before once, (Market.new settings connected).ingestBatches (batches.map batchOf) =
        (.ok (), before) ∧
      before.ingest (batchOf batch) = (.ok (), once) ∧
      once.ingest (batchOf batch) = (.ok (), once) := by
  obtain ⟨before, hbefore, hhistory⟩ :=
    exists_ingestBatches_new settings connected hlimit hbatches
  have hordered : ∀ b ∈ batches.flatMap History.barsOf, b.time.isOrdered = true := fun b =>
    isOrdered_of_mem_barsOf hbatches
  have hsorted : (History.barsOf batch).Pairwise fun a b => a.position ≤ b.position :=
    Sorting.pairwise_sortBy Bar.position (batch.filterMap Fields.bar?)
  have hfirst := History.ingest_settled hlimit hordered hbatch
  have hagain := History.ingest_settled hlimit
    (History.isOrdered_append_barsOf _ hordered hbatch) hbatch
  rw [Bar.settled_again hsorted] at hagain
  rw [← hhistory] at hfirst
  generalize History.ofBars settings.limit ((Bar.settled (batches.flatMap History.barsOf ++
    History.barsOf batch)).rtake settings.limit) = next at hfirst hagain
  refine ⟨before, { before with history := next }, hbefore, ?_, ?_⟩
  · rw [ingest, batchOf, hfirst]
  · rw [ingest, batchOf, hagain]

/-- A history of two candles, and a longer batch with an old candle, a repeated timestamp, and a
candle without a price. -/
theorem overlapping_batch_changes_nothing_again :
    let batch : List Fields := [[("timestamp", .int 4), ("price", .int 40)],
      [("timestamp", .int 1), ("price", .int 12)], [("timestamp", .real 4.0), ("price", .int 41)],
      [("timestamp", .int 3), ("price", .int 30)], [("timestamp", .int 9)]]
    (∀ candle ∈ batch, History.isRegular candle = true) ∧ ∃ before once,
      (Market.new { stock := .text "KRW-BTC", limit := 2 } false).ingestBatches
        (overlapping.map batchOf) = (.ok (), before) ∧
      before.ingest (batchOf batch) = (.ok (), once) ∧
      once.ingest (batchOf batch) = (.ok (), once) := by
  intro batch
  have hbatch : ∀ candle ∈ batch, History.isRegular candle = true := by decide +kernel
  have hbatches : ∀ b ∈ overlapping, ∀ candle ∈ b, History.isRegular candle = true := by
    decide +kernel
  exact ⟨hbatch, redelivery_changes_nothing { stock := .text "KRW-BTC", limit := 2 } false
    (by decide) overlapping batch hbatches hbatch⟩

end TradingRules.Market
