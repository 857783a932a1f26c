import TradingRules.Text.Surrogate

/-!
# Encodings of texts

A text travels as bytes in units of one, two or four bytes. The bytes of a text that starts with
two ASCII characters tell which: the zeros among the first four show the size of a unit and the
order of its bytes.
-/

namespace TradingRules.Text

inductive ByteOrder where
  | big
  | little
  deriving DecidableEq, Repr, Inhabited

inductive Encoding where
  | utf8
  | utf16 (order : ByteOrder)
  | utf32 (order : ByteOrder)
  deriving DecidableEq, Repr, Inhabited

def Encoding.detect : List UInt8 → Encoding
  | 0 :: b :: _ :: _ :: _ => if b = 0 then .utf32 .big else .utf16 .big
  | _ :: 0 :: c :: d :: _ => if c = 0 && d = 0 then .utf32 .little else .utf16 .little
  | [0, _] => .utf16 .big
  | [_, 0] => .utf16 .little
  | _ => .utf8

def ByteOrder.unit (bytes : List UInt8) : ByteOrder → Nat
  | .big => bytes.foldl (fun n b => 256 * n + b.toNat) 0
  | .little => bytes.foldr (fun b n => 256 * n + b.toNat) 0

/-- The units of two bytes, none if a byte is left over. -/
def units16? (order : ByteOrder) : List UInt8 → Option (List Nat)
  | a :: b :: rest => (units16? order rest).map (order.unit [a, b] :: ·)
  | [] => some []
  | _ => none

/-- The units of four bytes, none if bytes are left over or a unit is no code point. -/
def units32? (order : ByteOrder) : List UInt8 → Option (List Nat)
  | a :: b :: c :: d :: rest =>
    let unit := order.unit [a, b, c, d]
    if unit < 0x110000 then (units32? order rest).map (unit :: ·) else none
  | [] => some []
  | _ => none

def byteOrderMark : Char := Char.ofNat 0xfeff

/-- The text that bytes stand for by their own account, if they are one; they are given as the text
that they are in UTF-8. -/
def decodeDetected? (content : String) : Option String :=
  let bytes := content.toUTF8.toList
  match Encoding.detect bytes with
  | .utf8 =>
    match content.toList with
    | c :: rest => some (if c = byteOrderMark then String.ofList rest else content)
    | [] => some content
  | .utf16 order => (units16? order bytes).map fun units => String.ofList (joinUnits units)
  | .utf32 order => (units32? order bytes).map fun units => String.ofList (units.map unitChar)

end TradingRules.Text
