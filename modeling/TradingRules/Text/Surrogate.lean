/-!
# Halves of surrogate pairs

A code point beyond the first plane is two units of sixteen bits. An escape in a text can name one
of the two without the other. Such a half is no character, but a text keeps it: it is represented by
one of the last 2048 private characters. In order and in messages it counts as the unit it is, and
bytes cannot be made of it.
-/

namespace TradingRules.Text

/-- The first of the characters that represent halves. -/
def halvesFrom : Nat := 0x10f800

def isHalf (unit : Nat) : Bool :=
  0xd800 ≤ unit && unit < 0xe000

def unitChar (unit : Nat) : Char :=
  if isHalf unit then Char.ofNat (halvesFrom + (unit - 0xd800)) else Char.ofNat unit

def joinPair (high low : Nat) : Char :=
  Char.ofNat (0x10000 + (high - 0xd800) * 0x400 + (low - 0xdc00))

/-- The characters of units of sixteen bits; halves that belong together are joined. -/
def joinUnits : List Nat → List Char
  | high :: low :: rest =>
    if 0xd800 ≤ high && high < 0xdc00 && 0xdc00 ≤ low && low < 0xe000 then
      joinPair high low :: joinUnits rest
    else unitChar high :: joinUnits (low :: rest)
  | [unit] => [unitChar unit]
  | [] => []

def half? (c : Char) : Option Nat :=
  if c.toNat < halvesFrom then none else some (0xd800 + (c.toNat - halvesFrom))

/-- The code point that a character counts as. -/
def codePoint (c : Char) : Nat :=
  (half? c).getD c.toNat

def compareTexts (s t : String) : Ordering :=
  compare (s.toList.map codePoint) (t.toList.map codePoint)

/-- Halves in a row: where the row starts and stops, and its first half. -/
structure HalfRun where
  start : Nat
  stop : Nat
  first : Nat
  deriving DecidableEq, Repr

/-- The first row of halves in a text, of which no bytes can be made. -/
def firstHalves? (s : String) : Option HalfRun :=
  let before := s.toList.takeWhile fun c => (half? c).isNone
  let halves := (s.toList.drop before.length).takeWhile fun c => (half? c).isSome
  halves.head?.map fun c => ⟨before.length, before.length + halves.length, codePoint c⟩

end TradingRules.Text
