import TradingRules.Graph.Basic
import TradingRules.Value.Item
import TradingRules.Value.Sorted

/-!
# Candle history

A bounded history of candles as three series: timestamps, closing prices and volumes, oldest first.
Candles are merged by timestamp: the timestamp of the newest candle replaces it, a newer one is
appended, an older one is ignored. A candle enters the series one after the other, so one that
cannot be read leaves the series with different lengths. Highest prices are no part of it: they are
looked up for a period, so many days, weeks, months or years.
-/

namespace TradingRules.Market

structure Period where
  unit : Value
  length : Int
  deriving Inhabited

instance : BEq Period := ⟨fun p q => p.unit.isSame q.unit && p.length == q.length⟩

/-- The series of a history and their common bound. -/
structure History where
  limit : Nat
  times : List Value := []
  prices : List Float := []
  volumes : List Float := []

def pushBounded {α : Type} (limit : Nat) (xs : List α) (x : α) : List α :=
  let ys := xs ++ [x]
  ys.drop (ys.length - limit)

theorem length_pushBounded {α : Type} (limit : Nat) (xs : List α) (x : α) :
    (pushBounded limit xs x).length = min limit (xs.length + 1) := by
  simp [pushBounded]
  omega

namespace History

/-- Removes the newest item of each series in turn; an empty one fails. -/
def popNewest (h : History) : Outcome Unit × History :=
  if h.times.isEmpty then (.error .emptySequence, h)
  else
    let h := { h with times := h.times.dropLast }
    if h.prices.isEmpty then (.error .emptySequence, h)
    else
      let h := { h with prices := h.prices.dropLast }
      if h.volumes.isEmpty then (.error .emptySequence, h)
      else (.ok (), { h with volumes := h.volumes.dropLast })

/-- Appends a candle to each series in turn; a price or volume that cannot be read fails. -/
def append (h : History) (time price volume : Value) : Outcome Unit × History :=
  let h := { h with times := pushBounded h.limit h.times time }
  match price.toFloat with
  | .error e => (.error e, h)
  | .ok p =>
    let h := { h with prices := pushBounded h.limit h.prices p }
    match volume.toFloat with
    | .error e => (.error e, h)
    | .ok v => (.ok (), { h with volumes := pushBounded h.limit h.volumes v })

def merge (h : History) (candle : Fields) : Outcome Unit × History :=
  let time := candle.get "timestamp"
  let price := candle.get "price"
  if time.isNull || price.isNull then (.ok (), h)
  else
    let volume := (candle.get "volume").orElse (.real 0.0)
    match h.times.getLast? with
    | none => h.append time price volume
    | some newest =>
      match Value.compareBy .less time newest with
      | .error e => (.error e, h)
      | .ok true => (.ok (), h)
      | .ok false =>
        if time == newest then
          match h.popNewest with
          | (.ok _, h) => h.append time price volume
          | failed => failed
        else h.append time price volume

/-- Merges candles in order up to the first that fails. -/
def mergeAll (h : History) : List Fields → Outcome Unit × History
  | [] => (.ok (), h)
  | candle :: rest =>
    match h.merge candle with
    | (.ok _, h) => h.mergeAll rest
    | failed => failed

/-- The objects of a batch with their timestamps, where a missing one counts as zero. -/
def keyed (batch : List Value) : Outcome (List (Value × Fields)) :=
  batch.mapM fun candle => do
    let f ← candle.asFields
    return ((f.get "timestamp").orElse (.int 0), f)

def ordered (batch : Value) : Outcome (List Fields) := do
  let sorted ← Value.sortByKey (← keyed (← batch.items))
  return sorted.map (·.2)

def ingest (h : History) (batch : Value) : Outcome Unit × History :=
  if !batch.isTruthy then (.ok (), h)
  else match ordered batch with
    | .error e => (.error e, h)
    | .ok candles => h.mergeAll candles

def lastPrices (h : History) (count : Int) : List Float :=
  h.prices.drop (h.prices.length - count.toNat)

/-- The last prices by a count of any kind; null asks for all of them, and so does a number that is
too large, whole or not. -/
def pricesBy (h : History) (count : Value) : Outcome (List Float) := do
  if count.isNull then return h.prices
  if ← Value.compareBy .greaterEqual count (.int h.prices.length) then return h.prices
  if ← Value.compareBy .lessEqual count (.int 0) then return []
  match count with
  | .int n => return h.lastPrices n
  | .bool _ => return h.lastPrices 1
  | v => .error (.wrongKind s!"'{v.kindName}' object cannot be interpreted as an integer")

end History

end TradingRules.Market
