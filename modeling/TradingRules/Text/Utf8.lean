/-!
# Lossy decoding of UTF-8

Bytes are read as UTF-8. Wherever they are none, the longest beginning of a character, or else one
byte, is replaced by the replacement character. In an address a byte can be written as a percent
sign and two hexadecimal digits; a percent sign that no two digits follow stands for itself.
-/

namespace TradingRules.Text

/-- What a first byte calls for: the number of bytes that follow, the least and the greatest second
byte, and its own bits. -/
structure LeadByte where
  following : Nat
  low : Nat
  high : Nat
  bits : Nat

/-- What a first byte calls for; none if no character starts with it. -/
def leadByte? (b : UInt8) : Option LeadByte :=
  let n := b.toNat
  if n < 0x80 then some ⟨0, 0, 0, n⟩
  else if n < 0xC2 then none
  else if n < 0xE0 then some ⟨1, 0x80, 0xBF, n - 0xC0⟩
  else if n < 0xF0 then
    some ⟨2, if n = 0xE0 then 0xA0 else 0x80, if n = 0xED then 0x9F else 0xBF, n - 0xE0⟩
  else if n < 0xF5 then
    some ⟨3, if n = 0xF0 then 0x90 else 0x80, if n = 0xF4 then 0x8F else 0xBF, n - 0xF0⟩
  else none

def replacement : Char := Char.ofNat 0xFFFD

/-- Decodes bytes. A character under way has a number of bytes still to come, bounds for the next of
them and its bits so far. -/
def decodeBytes : Option LeadByte → List UInt8 → List Char
  | none, [] => []
  | some _, [] => [replacement]
  | none, b :: rest =>
    match leadByte? b with
    | none => replacement :: decodeBytes none rest
    | some ⟨0, _, _, bits⟩ => Char.ofNat bits :: decodeBytes none rest
    | some lead => decodeBytes (some lead) rest
  | some lead, b :: rest =>
    if lead.low ≤ b.toNat && b.toNat ≤ lead.high then
      let bits := lead.bits * 64 + (b.toNat - 0x80)
      if lead.following ≤ 1 then Char.ofNat bits :: decodeBytes none rest
      else decodeBytes (some ⟨lead.following - 1, 0x80, 0xBF, bits⟩) rest
    else
      replacement :: match leadByte? b with
        | none => replacement :: decodeBytes none rest
        | some ⟨0, _, _, bits⟩ => Char.ofNat bits :: decodeBytes none rest
        | some lead => decodeBytes (some lead) rest

def decodeLossy (bytes : List UInt8) : String :=
  String.ofList (decodeBytes none bytes)

def hexDigit? (b : UInt8) : Option UInt8 :=
  if 0x30 ≤ b && b ≤ 0x39 then some (b - 0x30)
  else if 0x41 ≤ b && b ≤ 0x46 then some (b - 0x37)
  else if 0x61 ≤ b && b ≤ 0x66 then some (b - 0x57)
  else none

def percentBytes : List UInt8 → List UInt8
  | 0x25 :: a :: b :: rest =>
    match hexDigit? a, hexDigit? b with
    | some high, some low => (high * 16 + low) :: percentBytes rest
    | _, _ => 0x25 :: percentBytes (a :: b :: rest)
  | b :: rest => b :: percentBytes rest
  | [] => []

def percentDecode (s : String) : String :=
  decodeLossy (percentBytes s.toUTF8.toList)

end TradingRules.Text
