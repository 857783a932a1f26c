import TradingRules.Value.Fault

/-!
# Secrets

A token is signed with the bytes of a secret that both sides share. A text that looks like a public
or private key of another scheme, or like a certificate, is refused as a secret: whoever gives it
has mixed up two kinds of keys.
-/

namespace TradingRules.Exchange

def shellKeyStarts : List String :=
  ["ssh-ed25519", "ssh-rsa", "ssh-dss", "ecdsa-sha2-nistp256", "ecdsa-sha2-nistp384",
    "ecdsa-sha2-nistp521"]

def armourNames : List String :=
  ["CERTIFICATE", "TRUSTED CERTIFICATE", "PRIVATE KEY", "PUBLIC KEY", "ENCRYPTED PRIVATE KEY",
    "OPENSSH PRIVATE KEY", "DSA PRIVATE KEY", "RSA PRIVATE KEY", "RSA PUBLIC KEY",
    "EC PRIVATE KEY", "DH PARAMETERS", "NEW CERTIFICATE REQUEST", "CERTIFICATE REQUEST",
    "SSH2 PUBLIC KEY", "SSH2 ENCRYPTED PRIVATE KEY", "X509 CRL"]

def after? (front : String) (s : List Char) : Option (List Char) :=
  if front.toList.isPrefixOf s then some (s.drop front.length) else none

def afterRule? : List Char → Option (List Char)
  | '-' :: rest => some rest
  | ' ' :: rest => some rest
  | _ => none

/-- What follows a line of an armoured block at the front: four hyphens, a hyphen or a blank, a word
and a name, and the same the other way round. -/
def afterArmourLine? (word name : String) (s : List Char) : Option (List Char) := do
  after? "----" (← afterRule? (← after? (word ++ name) (← afterRule? (← after? "----" s))))

def afterBreak? : List Char → Option (List Char)
  | '\r' :: '\n' :: rest => some rest
  | '\n' :: rest => some rest
  | _ => none

def tails {α : Type} : List α → List (List α)
  | [] => [[]]
  | x :: xs => (x :: xs) :: tails xs

/-- Does the last line of a block stand somewhere behind the first character? -/
def isArmourClosed (name : String) (s : List Char) : Bool :=
  (tails (s.drop 1)).any fun rest => match rest with
    | '\n' :: line => (afterArmourLine? "END " name line).isSome
    | _ => false

def startsArmour (s : List Char) (name : String) : Bool :=
  match (afterArmourLine? "BEGIN " name s).bind afterBreak? with
  | some body => isArmourClosed name body
  | none => false

def looksLikeKey (secret : String) : Bool :=
  (tails secret.toList).any (fun s => armourNames.any (startsArmour s)) ||
    shellKeyStarts.any fun start => secret.startsWith start

def encode (s : String) : Outcome (List UInt8) :=
  match Text.firstHalves? s with
  | some halves => .error (.unencodable halves)
  | none => .ok s.toUTF8.toList

def secretBytes : Value → Outcome (List UInt8)
  | .text secret => do
    let bytes ← encode secret
    if looksLikeKey secret then throw .unfitKey else return bytes
  | _ => .error (.wrongKind "Expected string value")

end TradingRules.Exchange
