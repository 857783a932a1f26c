import TradingRules.Market.Threads
import TradingRules.Proofs.Market.Lookups

/-!
# Turns

What happens to market data and to their threads happens one turn after the other. This module says
what each turn needs and what it does, and that what every turn keeps is kept by all that happens.
-/

namespace TradingRules.Market

namespace Threads

/-- What can happen, and what comes of it. -/
inductive Takes (t : Threads) : Happening → Threads → Prop
  | start : Takes t .start t.start
  | warmUp (unit length : Value) : Takes t (.warmUp unit length) (t.warmUp unit length)
  | ingest (batch : Value) : Takes t (.ingest batch) { t with market := (t.market.ingest batch).2 }
  | setLive (price : Value) :
      Takes t (.setLive price) { t with market := (t.market.setLive price).2 }
  | retire : Takes t .retire t.retire
  | halt (hdisposed : t.market.disposed = true) : Takes t .halt { t with halted := true }
  | close (hhalted : t.halted = true) (hopen : t.closed = false) : Takes t .close t.close
  | ask {chore : Chore} (hnext : t.loop.next? t.halted = some chore) :
      Takes t .ask (t.ask chore)
  | reply {chore : Chore} (answer : Outcome Value) (hasking : t.loop = .asking chore) :
      Takes t (.reply answer) (t.reply chore answer)
  | rest (hpolled : t.loop = .polled) : Takes t .rest { t with loop := .resting }
  | leave (hresting : t.loop = .resting) (hhalted : t.halted = true) :
      Takes t .leave { t with loop := .ended }
  | lookUp {i : Nat} {j : Job} (hj : t.jobs[i]? = some j) (hqueued : j.isQueued = true) :
      Takes t (.lookUp i) (t.lookUp i j)
  | answer {i : Nat} {j : Job} (answer : Outcome Value) (hj : t.jobs[i]? = some j)
      (hasking : j.progress = .asking) : Takes t (.answer i answer) (t.answer i j answer)
  | land {i : Nat} {j : Job} {answer : Outcome Value} (hj : t.jobs[i]? = some j)
      (hanswered : j.progress = .answered answer) : Takes t (.land i) (t.land i j answer)

variable {t t' : Threads} {h : Happening}

theorem takes_of_step? (hstep : t.step? h = some t') : t.Takes h t' := by
  cases h with
  | start => cases hstep; exact .start
  | warmUp unit length => cases hstep; exact .warmUp unit length
  | ingest batch => cases hstep; exact .ingest batch
  | setLive price => cases hstep; exact .setLive price
  | retire => cases hstep; exact .retire
  | halt =>
    rw [step?] at hstep
    split at hstep
    · rename_i hdisposed
      cases hstep
      exact .halt hdisposed
    · cases hstep
  | close =>
    rw [step?] at hstep
    split at hstep
    · rename_i hnow
      rw [Bool.and_eq_true, Bool.not_eq_true'] at hnow
      cases hstep
      exact .close hnow.1 hnow.2
    · cases hstep
  | ask =>
    obtain ⟨chore, hnext, rfl⟩ := Option.map_eq_some_iff.mp hstep
    exact .ask hnext
  | reply answer =>
    rw [step?] at hstep
    split at hstep
    · rename_i chore hasking
      cases hstep
      exact .reply answer hasking
    · cases hstep
  | rest =>
    rw [step?] at hstep
    split at hstep
    · rename_i hpolled
      cases hstep
      exact .rest hpolled
    · cases hstep
  | leave =>
    rw [step?] at hstep
    split at hstep
    · rename_i hresting
      split at hstep
      · rename_i hhalted
        cases hstep
        exact .leave hresting hhalted
      · cases hstep
    · cases hstep
  | lookUp i =>
    rw [step?] at hstep
    split at hstep
    · rename_i j hj
      split at hstep
      · rename_i hqueued
        cases hstep
        exact .lookUp hj hqueued
      · cases hstep
    · cases hstep
  | answer i answer =>
    rw [step?] at hstep
    split at hstep
    · rename_i j hj
      split at hstep
      · rename_i hasking
        cases hstep
        exact .answer answer hj hasking
      · cases hstep
    · cases hstep
  | land i =>
    rw [step?] at hstep
    split at hstep
    · rename_i j hj
      split at hstep
      · rename_i answer hanswered
        cases hstep
        exact .land hj hanswered
      · cases hstep
    · cases hstep

theorem run?_cons {rest : List Happening} : run? (h :: rest) t = some t' ↔
    ∃ next, t.step? h = some next ∧ run? rest next = some t' :=
  Option.bind_eq_some_iff

/-- What each step keeps of the state and of what has happened, a run keeps. -/
theorem run?_induction {P : List Happening → Threads → Prop}
    (hkeeps : ∀ {past t h t'}, P past t → t.Takes h t' → P (past ++ [h]) t')
    (past : List Happening) {happenings : List Happening} (ht : P past t)
    (hrun : run? happenings t = some t') : P (past ++ happenings) t' := by
  induction happenings generalizing past t with
  | nil =>
    cases hrun
    rwa [List.append_nil]
  | cons h rest ih =>
    obtain ⟨next, hstep, hrest⟩ := run?_cons.mp hrun
    rw [List.append_cons]
    exact ih (past ++ [h]) (hkeeps ht (takes_of_step? hstep)) hrest

end Threads

/-! ### What the turns do -/

namespace Job

variable {j : Job}

theorem isQueued_iff : j.isQueued = true ↔ j.progress = .queued := by
  rw [isQueued]
  split
  · exact iff_of_true rfl ‹_›
  · exact iff_of_false Bool.false_ne_true ‹_›

theorem shutDown_cases (pool : Option Nat) (j : Job) : j.shutDown pool = j ∨
    j.progress = .queued ∧ j.shutDown pool = { j with progress := .cancelled } := by
  rw [shutDown]
  split
  · rename_i hnow
    exact .inr ⟨isQueued_iff.mp (Bool.and_eq_true_iff.mp hnow).2, rfl⟩
  · exact .inl rfl

@[simp] theorem period_shutDown (pool : Option Nat) (j : Job) :
    (j.shutDown pool).period = j.period := by
  rcases shutDown_cases pool j with h | ⟨-, h⟩ <;> rw [h]

end Job

theorem unaffected_refresh {σ : Type} (source : Source σ) (count : Value) (m : Market) (s : σ) :
    m.Unaffected (m.refresh source count s).1 := by
  rw [refresh]
  rcases source.answer (m.candleRequest count) s with ⟨e | batch, s'⟩ <;>
    exact ⟨rfl, rfl, rfl, rfl, rfl⟩

theorem unaffected_poll {σ : Type} (source : Source σ) (m : Market) (s : σ) :
    m.Unaffected (m.poll source s).1 := by
  rw [poll]
  split
  · exact ⟨rfl, rfl, rfl, rfl, rfl⟩
  · exact unaffected_setLive m _
  · exact ⟨rfl, rfl, rfl, rfl, rfl⟩

namespace Threads

theorem unaffected_told (m : Market) (answer : Outcome Value) (chore : Chore) :
    m.Unaffected (told m answer chore) := by
  cases chore with
  | firstCandles =>
    obtain ⟨hsettings, hconnected, hdisposed, hlookups, hhighest⟩ :=
      unaffected_refresh (.always answer) m.settings.historySize m ()
    exact ⟨hsettings, hconnected, hdisposed, hlookups, hhighest⟩
  | price => exact unaffected_poll _ m ()
  | candles => exact unaffected_refresh _ refreshCount m ()

variable {t : Threads}

theorem started?_self (m : Market) : started? m m = none := by
  simp [started?]

/-- A call for a period without an entry leaves its lookup to the pool. -/
theorem warmUp_of_new (hconnected : t.market.connected = true) {unit length : Value} {p : Period}
    (hperiod : periodOf unit length = .ok p)
    (hnew : ∀ l ∈ t.market.lookups, (l.1 == p) = false) : t.warmUp unit length =
      submit { t with market :=
        { t.market with lookups := t.market.lookups ++ [(p, .pending)] } } p := by
  have hnone : t.market.lookups.find? (fun l => l.1 == p) = none :=
    List.find?_eq_none.mpr fun l hl => by simp [hnew l hl]
  rw [warmUp, Market.warmUp, hperiod]
  simp [hnone, started?, hconnected]

/-- A call leaves a lookup to the pool if there is none of its period, and does nothing else. -/
theorem warmUp_cases (hconnected : t.market.connected = true) (unit length : Value) :
    t.warmUp unit length = t ∨ ∃ p, periodOf unit length = .ok p ∧
      (∀ l ∈ t.market.lookups, (l.1 == p) = false) ∧ t.warmUp unit length =
        submit { t with market :=
          { t.market with lookups := t.market.lookups ++ [(p, .pending)] } } p := by
  cases hperiod : periodOf unit length with
  | error e =>
    rw [warmUp, Market.warmUp, hperiod]
    exact .inl (by simp only [started?_self])
  | ok p =>
    cases hfound : t.market.lookups.find? fun l => l.1 == p with
    | some l =>
      rw [warmUp, Market.warmUp, hperiod]
      exact .inl (by simp only [hfound, started?_self])
    | none =>
      have hnew : ∀ l ∈ t.market.lookups, (l.1 == p) = false := fun l hl => by
        simpa using List.find?_eq_none.mp hfound l hl
      exact .inr ⟨p, rfl, hnew, warmUp_of_new hconnected hperiod hnew⟩

end Threads

end TradingRules.Market
