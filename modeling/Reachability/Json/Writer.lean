import Reachability.Json
import Reachability.Decimal

/-!
# Writing JSON documents

`Json.write` writes a document without blanks.  In strings, quotes, backslashes and control
characters are escaped and nothing else.

A whole number is written with its digits and any other number in scientific notation, whatever
its size.  So the text of a document need not be the one that other writers give it: these may put
`0.001` where `Json.write` puts `1e-3`, or escape a backspace by a letter where it has a number.
Such texts name the same numbers and strings, and `Json.read?` reads either.
-/

namespace Reachability

/-- The text of a numeral: the digits of a whole number, and scientific notation for any other. -/
def Numeral.write (n : Numeral) : String :=
  if n.whole then Decimal.sign n.negative ++ toString n.digits
  else (Decimal.finite n.negative n.digits n.exponent).scientific

namespace Json

/-- A hexadecimal digit. -/
def hexChar (n : Nat) : Char := if n < 10 then Char.ofNat (48 + n) else Char.ofNat (87 + n)

/-- What is written in a string for a character. -/
def escape (c : Char) : List Char :=
  if c = '"' then ['\\', '"']
  else if c = '\\' then ['\\', '\\']
  else if c = '\n' then ['\\', 'n']
  else if c = '\t' then ['\\', 't']
  else if c = '\r' then ['\\', 'r']
  else if c.toNat < 32 then ['\\', 'u', '0', '0', hexChar (c.toNat / 16), hexChar (c.toNat % 16)]
  else [c]

/-- The text of a string with its quotes. -/
def quote (text : String) : String :=
  String.ofList ('"' :: text.toList.flatMap escape ++ ['"'])

mutual

/-- The text of a document. -/
def write : Json → String
  | null => "null"
  | bool true => "true"
  | bool false => "false"
  | number n => n.write
  | string text => quote text
  | array items => "[" ++ ",".intercalate (writeItems items) ++ "]"
  | object fields => "\x7b" ++ ",".intercalate (writeFields fields) ++ "\x7d"

/-- The texts of the items of an array. -/
def writeItems : List Json → List String
  | [] => []
  | item :: items => write item :: writeItems items

/-- The texts of the fields of an object. -/
def writeFields : List (String × Json) → List String
  | [] => []
  | (name, value) :: fields => (quote name ++ ":" ++ write value) :: writeFields fields

end

end Json

end Reachability
