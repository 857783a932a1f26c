import TradingRules.Proofs.Market.Alignment
import TradingRules.Supervisor.Basic

/-!
# Using a market

A market is fed, its lookups are started and carried out, and it is read. All that it takes from its
source are values: of a request that fails it does not look at the fault. So two sources that give
the same values, and fail together for whatever reasons, leave a market in the same state after
each use.
-/

namespace TradingRules.Market

variable {σ τ : Type}

/-! ### Uses -/

inductive Reading where
  | isReady
  | latestPrice
  | prices (count : Value)
  | volumes
  | times
  | isHighestReady (unit length : Value)
  | highestPrice (unit length : Value)

def Reading.of (m : Market) : Reading → Outcome Value
  | isReady => .ok (.bool m.ready)
  | latestPrice => .ok (.real m.latestPrice)
  | prices count => (m.history.pricesBy count).map fun xs => .list (xs.map .real)
  | volumes => .ok (.list (m.history.volumes.map .real))
  | times => .ok (.list m.history.times)
  | isHighestReady unit length => (m.isHighestReady unit length).map .bool
  | highestPrice unit length => (m.highestPrice unit length).map .real

inductive Use where
  | feed (feed : Feed)
  | warmUp (unit length : Value)
  /-- Carries out a lookup, at any time after it was started. -/
  | lookUp (p : Period)
  | read (reading : Reading)

section

variable (source : Source σ)

/-- What a market is fed from outside can fail; the refresh loop tells nobody. -/
def Feed.told (m : Market) : Feed → Outcome Value
  | .ingest batch => (m.ingest batch).1.map fun _ => .null
  | _ => .ok .null

def Use.perform (m : Market) (s : σ) : Use → Outcome Value × Market × σ
  | .feed f => (f.told m, f.run source m s)
  | .warmUp unit length =>
    let (finished, m) := m.warmUp unit length
    (finished.map .bool, m, s)
  | .lookUp p => (.ok .null, if m.pending.contains p then m.runLookup source p s else (m, s))
  | .read reading => (reading.of m, m, s)

/-- What each use in turn comes to, and the state it leaves. -/
def usage : List Use → Market → σ → List (Outcome Value × Market × σ)
  | [], _, _ => []
  | use :: rest, m, s =>
    let after := use.perform source m s
    after :: usage rest after.2.1 after.2.2

end

/-! ### Sources that answer alike -/

/-- In related surroundings each request gets the same value from both sources, or a fault from
both, and the surroundings stay related. -/
def Alike (R : σ → τ → Prop) (P : Source σ) (Q : Source τ) : Prop :=
  ∀ request s t, request.method ∈ Supervisor.methods → R s t →
    (P.answer request s).1.toOption = (Q.answer request t).1.toOption ∧
      R (P.answer request s).2 (Q.answer request t).2

/-- Two markets are in the same state, and their surroundings are related. -/
structure Agree (R : σ → τ → Prop) (x : Market × σ) (y : Market × τ) : Prop where
  market : x.1 = y.1
  outer : R x.2 y.2

namespace Alike

variable {R : σ → τ → Prop} {P : Source σ} {Q : Source τ}

theorem answers (h : Alike R P Q) {request : Request} {s : σ} {t : τ}
    (hmethod : request.method ∈ Supervisor.methods) (hr : R s t) :
    (∃ v s' t', P.answer request s = (.ok v, s') ∧ Q.answer request t = (.ok v, t') ∧ R s' t') ∨
    ∃ e e' s' t', P.answer request s = (.error e, s') ∧ Q.answer request t = (.error e', t') ∧
      R s' t' := by
  obtain ⟨hvalue, hrest⟩ := h request s t hmethod hr
  rcases hp : P.answer request s with ⟨e | v, s'⟩ <;>
  rcases hq : Q.answer request t with ⟨e' | w, t'⟩ <;>
  rw [hp, hq] at hvalue hrest
  · exact .inr ⟨e, e', s', t', rfl, rfl, hrest⟩
  · cases hvalue
  · cases hvalue
  · obtain rfl := Option.some.inj hvalue
    exact .inl ⟨v, s', t', rfl, rfl, hrest⟩

variable (h : Alike R P Q) (m : Market) {s : σ} {t : τ} (hr : R s t)

include h hr

theorem refresh (count : Value) : Agree R (m.refresh P count s) (m.refresh Q count t) := by
  have hmethod : (m.candleRequest count).method ∈ Supervisor.methods := by
    simp [candleRequest, Supervisor.methods]
  unfold Market.refresh
  rcases h.answers hmethod hr with ⟨v, s', t', hp, hq, hr'⟩ | ⟨e, e', s', t', hp, hq, hr'⟩ <;>
  · rw [hp, hq]
    exact ⟨rfl, hr'⟩

theorem fetchFirst : Agree R (m.fetchFirst P s) (m.fetchFirst Q t) := by
  obtain ⟨hmarket, hrest⟩ := h.refresh m hr m.settings.historySize
  unfold Market.fetchFirst
  exact ⟨by dsimp only; rw [hmarket], hrest⟩

theorem poll : Agree R (m.poll P s) (m.poll Q t) := by
  have hmethod : m.priceRequest.method ∈ Supervisor.methods := by
    simp [priceRequest, Supervisor.methods]
  unfold Market.poll
  rcases h.answers hmethod hr with ⟨v, s', t', hp, hq, hr'⟩ | ⟨e, e', s', t', hp, hq, hr'⟩ <;>
  rw [hp, hq]
  · cases v <;> exact ⟨rfl, hr'⟩
  · exact ⟨rfl, hr'⟩

theorem runLookup (p : Period) : Agree R (m.runLookup P p s) (m.runLookup Q p t) := by
  have hmethod : (m.highestRequest p).method ∈ Supervisor.methods := by
    simp [highestRequest, Supervisor.methods]
  unfold Market.runLookup
  rcases h.answers hmethod hr with ⟨v, s', t', hp, hq, hr'⟩ | ⟨e, e', s', t', hp, hq, hr'⟩ <;>
  rw [hp, hq]
  · dsimp only
    cases v.toFloat <;> exact ⟨rfl, hr'⟩
  · exact ⟨rfl, hr'⟩

theorem feed (f : Feed) : Agree R (f.run P m s) (f.run Q m t) := by
  cases f with
  | ingest batch => exact ⟨rfl, hr⟩
  | fetchFirst => exact h.fetchFirst m hr
  | refresh count => exact h.refresh m hr count
  | poll => exact h.poll m hr

theorem perform (use : Use) : (use.perform P m s).1 = (use.perform Q m t).1 ∧
    Agree R (use.perform P m s).2 (use.perform Q m t).2 := by
  cases use with
  | feed f => exact ⟨rfl, h.feed m hr f⟩
  | warmUp unit length => exact ⟨rfl, rfl, hr⟩
  | lookUp p =>
    refine ⟨rfl, ?_⟩
    unfold Use.perform
    dsimp only
    split
    · exact h.runLookup m hr p
    · exact ⟨rfl, hr⟩
  | read reading => exact ⟨rfl, rfl, hr⟩

/-- Sources that answer alike cannot be told apart by any use of a market. -/
theorem usage (uses : List Use) :
    List.Forall₂ (fun x y => x.1 = y.1 ∧ Agree R x.2 y.2)
      (usage P uses m s) (usage Q uses m t) := by
  induction uses generalizing m s t with
  | nil => exact .nil
  | cons use rest ih =>
    obtain ⟨htold, hagree⟩ := h.perform m hr use
    have hrest := ih (use.perform P m s).2.1 hagree.outer
    rw [Market.usage, Market.usage]
    refine .cons ⟨htold, hagree⟩ ?_
    rw [← hagree.market]
    exact hrest

end Alike

end TradingRules.Market
