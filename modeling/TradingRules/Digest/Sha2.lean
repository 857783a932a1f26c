/-!
# SHA-2

The hash functions SHA-256 and SHA-512. They are one construction over words of 32 and of 64 bits:
the message is padded to whole blocks of sixteen words, and each block is mixed into eight registers
in a number of rounds. The constants are the leading bits of the fractional parts of the square and
cube roots of the first primes. In a keyed hash the key is mixed with one pad in front of the
message, and with another in front of the hash of that.
-/

namespace TradingRules.Digest

/-- The largest number of at most that many bits whose power does not exceed the target. -/
def rootBelow (degree bits target : Nat) : Nat :=
  (List.range bits).foldr (fun i root =>
    if Nat.pow (root + Nat.pow 2 i) degree ≤ target then root + Nat.pow 2 i else root) 0

/-- The leading bits of the fractional part of the root of a number below a thousand. -/
def fractionBits (degree bits n : Nat) : Nat :=
  rootBelow degree (bits + 10) (n * Nat.pow 2 (degree * bits)) % Nat.pow 2 bits

def isPrime (n : Nat) : Bool :=
  2 ≤ n && (List.range n).all fun d => d < 2 || n % d != 0

def primes : List Nat :=
  (List.range 410).filter isPrime

/-- Three amounts by which a word is turned or shifted. -/
structure Mix where
  first : Nat
  second : Nat
  third : Nat

structure Sha2 where
  wordBytes : Nat
  rounds : Nat
  near : Mix
  far : Mix
  upper : Mix
  lower : Mix

namespace Sha2

def sha256 : Sha2 where
  wordBytes := 4
  rounds := 64
  near := ⟨7, 18, 3⟩
  far := ⟨17, 19, 10⟩
  upper := ⟨2, 13, 22⟩
  lower := ⟨6, 11, 25⟩

def sha512 : Sha2 where
  wordBytes := 8
  rounds := 80
  near := ⟨1, 8, 7⟩
  far := ⟨19, 61, 6⟩
  upper := ⟨28, 34, 39⟩
  lower := ⟨14, 18, 41⟩

variable (sha : Sha2)

abbrev width : Nat := 8 * sha.wordBytes

abbrev Word := BitVec sha.width

abbrev blockBytes : Nat := 16 * sha.wordBytes

structure Registers where
  a : sha.Word
  b : sha.Word
  c : sha.Word
  d : sha.Word
  e : sha.Word
  f : sha.Word
  g : sha.Word
  h : sha.Word

def constants : List sha.Word :=
  (primes.take sha.rounds).map fun p => .ofNat _ (fractionBits 3 sha.width p)

def rootWord (n : Nat) : sha.Word :=
  .ofNat _ (fractionBits 2 sha.width n)

def initial : sha.Registers :=
  ⟨sha.rootWord 2, sha.rootWord 3, sha.rootWord 5, sha.rootWord 7, sha.rootWord 11, sha.rootWord 13,
    sha.rootWord 17, sha.rootWord 19⟩

def turn (m : Mix) (w : sha.Word) : sha.Word :=
  w.rotateRight m.first ^^^ w.rotateRight m.second ^^^ w.rotateRight m.third

def shift (m : Mix) (w : sha.Word) : sha.Word :=
  w.rotateRight m.first ^^^ w.rotateRight m.second ^^^ (w >>> m.third)

def nextWord (window : List sha.Word) : sha.Word :=
  let word (i : Nat) : sha.Word := window.getD i 0
  sha.shift sha.far (word 14) + word 9 + sha.shift sha.near (word 1) + word 0

def round (r : sha.Registers) (k w : sha.Word) : sha.Registers :=
  let choice := (r.e &&& r.f) ^^^ (~~~r.e &&& r.g)
  let majority := (r.a &&& r.b) ^^^ (r.a &&& r.c) ^^^ (r.b &&& r.c)
  let added := r.h + sha.turn sha.lower r.e + choice + k + w
  { a := added + sha.turn sha.upper r.a + majority
    b := r.a, c := r.b, d := r.c, e := r.d + added, f := r.e, g := r.f, h := r.g }

/-- The rounds with the listed constants; the window of message words moves on with them. -/
def runRounds : List sha.Word → List sha.Word → sha.Registers → sha.Registers
  | [], _, r => r
  | k :: ks, window, r =>
    runRounds ks (window.tail ++ [sha.nextWord window]) (sha.round r k (window.headD 0))

def Registers.add {sha : Sha2} (x y : sha.Registers) : sha.Registers :=
  ⟨x.a + y.a, x.b + y.b, x.c + y.c, x.d + y.d, x.e + y.e, x.f + y.f, x.g + y.g, x.h + y.h⟩

def numberOf (bytes : List UInt8) : Nat :=
  bytes.foldl (fun n b => 256 * n + b.toNat) 0

def bytesOf : Nat → Nat → List UInt8
  | 0, _ => []
  | count + 1, n => bytesOf count (n / 256) ++ [UInt8.ofNat n]

def pieces {α : Type} (size : Nat) : Nat → List α → List (List α)
  | 0, _ => []
  | count + 1, xs => xs.take size :: pieces size count (xs.drop size)

def absorb (constants : List sha.Word) (r : sha.Registers) (block : List UInt8) : sha.Registers :=
  let words := (pieces sha.wordBytes 16 block).map fun bytes => .ofNat _ (numberOf bytes)
  r.add (sha.runRounds constants words r)

/-- A message with the padding behind it: a bit that is set, zeros, and the length in bits in two
words. -/
def pad (message : List UInt8) : List UInt8 :=
  let used := message.length + 1 + 2 * sha.wordBytes
  let zeros := (sha.blockBytes - used % sha.blockBytes) % sha.blockBytes
  message ++ 0x80 :: List.replicate zeros 0 ++ bytesOf (2 * sha.wordBytes) (8 * message.length)

def Registers.bytes {sha : Sha2} (r : sha.Registers) : List UInt8 :=
  [r.a, r.b, r.c, r.d, r.e, r.f, r.g, r.h].flatMap fun w => bytesOf sha.wordBytes w.toNat

def hash (message : List UInt8) : List UInt8 :=
  let padded := sha.pad message
  let blocks := pieces sha.blockBytes (padded.length / sha.blockBytes) padded
  (blocks.foldl (sha.absorb sha.constants) sha.initial).bytes

/-- A key filled up to a block; one that is longer than a block is hashed first. -/
def blockKey (key : List UInt8) : List UInt8 :=
  let key := if sha.blockBytes < key.length then sha.hash key else key
  key ++ List.replicate (sha.blockBytes - key.length) 0

def hmac (key message : List UInt8) : List UInt8 :=
  let key := sha.blockKey key
  sha.hash (key.map (· ^^^ 0x5c) ++ sha.hash (key.map (· ^^^ 0x36) ++ message))

end Sha2

end TradingRules.Digest
