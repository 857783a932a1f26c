import TradingRules.Digest.Sha2
import TradingRules.Exchange.Secret
import TradingRules.Json.Writer
import TradingRules.Text.Base64

/-!
# Signed tokens

A request to the private part of the exchange carries a token. It names the key of the account and
a number used once and, when the request has parameters, the hash of its query text; all this is
signed with the secret of the account. The query text has the parameters in one line: names and
values in plain characters, joined by an equals sign, parameters joined by an ampersand, and a plus
sign for every blank. A list, and likewise an object by its names, gives one parameter for each
item. A text of which no bytes can be made cannot be part of an address.
-/

namespace TradingRules.Exchange

def plusForBlank (s : String) : Outcome String := do
  let _ ← encode s
  return s.map fun c => if c == ' ' then '+' else c

def parameterTexts (key : String) (value : Value) : Outcome (List String) := do
  let key ← plusForBlank key
  let texts : List String := match value with
    | .list items => items.map Value.shown
    | .object fields => fields.map fun f => f.1
    | v => [v.shown]
  texts.mapM fun text => return key ++ "=" ++ (← plusForBlank text)

def queryText (params : Fields) : Outcome String := do
  return "&".intercalate (← params.mapM fun f => parameterTexts f.1 f.2).flatten

/-- The key of an account and its secret, as they were given. -/
structure Credentials where
  access : Value
  secret : Value
  deriving Inhabited

structure Token where
  claims : Fields
  text : String
  deriving Inhabited

def bytesOf (s : String) : List UInt8 :=
  s.toUTF8.toList

def hexText (bytes : List UInt8) : String :=
  String.ofList (bytes.flatMap fun b => Text.hexDigits 2 b.toNat)

def tokenPart (v : Value) : String :=
  Text.Base64.encode (bytesOf (Json.write .compact v))

def tokenHeader : Value :=
  .object [("alg", .text "HS256"), ("typ", .text "JWT")]

def Token.sign (secret : Value) (claims : Fields) : Outcome Token := do
  let signed := tokenPart tokenHeader ++ "." ++ tokenPart (.object claims)
  let signature := Digest.Sha2.sha256.hmac (← secretBytes secret) (bytesOf signed)
  return ⟨claims, signed ++ "." ++ Text.Base64.encode signature⟩

def queryClaims (params : Fields) : Outcome Fields := do
  let query ← queryText params
  return [("query_hash", .text (hexText (Digest.Sha2.sha512.hash (bytesOf query)))),
    ("query_hash_alg", .text "SHA512")]

def claimsOf (access : Value) (nonce : String) (params : Fields) : Outcome Fields := do
  return [("access_key", access), ("nonce", .text nonce)] ++
    (← if params.isEmpty then pure [] else queryClaims params)

end TradingRules.Exchange
