import Reachability.Json

/-!
# Reading JSON documents

`Json.read?` reads a text as a document, and fails if the text is none.  Each reader takes the
characters that are left and returns those it leaves; the nested readers are bounded by a fuel,
which `Json.read?` chooses larger than the text is long.
-/

namespace Reachability

namespace Json

/-- The four characters that may stand between the parts of a document. -/
def isBlank (c : Char) : Bool := c == ' ' || c == '\t' || c == '\n' || c == '\r'

/-- The characters without the blanks in front of them. -/
def skipBlanks (cs : List Char) : List Char := cs.dropWhile isBlank

/-- The natural number that a list of digits denotes. -/
def natOfDigits (cs : List Char) : Nat :=
  cs.foldl (fun n c => 10 * n + (c.toNat - 48)) 0

/-- The digits in front, and the rest. -/
def splitDigits (cs : List Char) : List Char × List Char :=
  (cs.takeWhile Char.isDigit, cs.dropWhile Char.isDigit)

/-- The digits after a point in front, if there is a point. -/
def readFraction? : List Char → Option (List Char × List Char)
  | '.' :: cs =>
    let (digits, rest) := splitDigits cs
    if digits.isEmpty then none else some (digits, rest)
  | cs => some ([], cs)

/-- The exponent in front, if there is one, and whether there is one. -/
def readExponent? (cs : List Char) : Option (Int × Bool × List Char) :=
  match cs with
  | c :: cs' =>
    if c == 'e' || c == 'E' then
      let (negative, body) : Bool × List Char :=
        match cs' with
        | '-' :: r => (true, r)
        | '+' :: r => (false, r)
        | r => (false, r)
      let (digits, rest) := splitDigits body
      if digits.isEmpty then none
      else
        let magnitude : Int := natOfDigits digits
        some (if negative then -magnitude else magnitude, true, rest)
    else some (0, false, cs)
  | [] => some (0, false, [])

/-- The numeral in front.  A whole part of several digits must not start with a zero. -/
def readNumeral? (cs : List Char) : Option (Numeral × List Char) := do
  let (negative, body) : Bool × List Char :=
    match cs with
    | '-' :: r => (true, r)
    | r => (false, r)
  let (whole, afterWhole) := splitDigits body
  if whole.isEmpty || (whole.head? == some '0' && whole.length > 1) then none
  else
    let (fraction, afterFraction) ← readFraction? afterWhole
    let (exponent, hasExponent, rest) ← readExponent? afterFraction
    some (⟨negative, natOfDigits (whole ++ fraction), exponent - fraction.length,
      fraction.isEmpty && !hasExponent⟩, rest)

/-- The value of a hexadecimal digit. -/
def hexDigit? (c : Char) : Option Nat :=
  if c.isDigit then some (c.toNat - 48)
  else if 'a' ≤ c ∧ c ≤ 'f' then some (c.toNat - 87)
  else if 'A' ≤ c ∧ c ≤ 'F' then some (c.toNat - 55)
  else none

/-- The number that the four hexadecimal digits in front denote. -/
def readHex? : List Char → Option (Nat × List Char)
  | a :: b :: c :: d :: rest => do
    let a ← hexDigit? a
    let b ← hexDigit? b
    let c ← hexDigit? c
    let d ← hexDigit? d
    some (((a * 16 + b) * 16 + c) * 16 + d, rest)
  | _ => none

/-- The character of an escape with hexadecimal digits; a character beyond the first plane
takes two of them. -/
def readUnicode? (cs : List Char) : Option (Char × List Char) := do
  let (high, rest) ← readHex? cs
  if high < 0xD800 || high > 0xDFFF then some (Char.ofNat high, rest)
  else if high > 0xDBFF then none
  else
    match rest with
    | '\\' :: 'u' :: rest' =>
      let (low, rest'') ← readHex? rest'
      if low < 0xDC00 || low > 0xDFFF then none
      else some (Char.ofNat (0x10000 + (high - 0xD800) * 0x400 + (low - 0xDC00)), rest'')
    | _ => none

/-- The character of an escape, whose backslash has been read. -/
def readEscape? : List Char → Option (Char × List Char)
  | '"' :: cs => some ('"', cs)
  | '\\' :: cs => some ('\\', cs)
  | '/' :: cs => some ('/', cs)
  | 'b' :: cs => some (Char.ofNat 8, cs)
  | 'f' :: cs => some (Char.ofNat 12, cs)
  | 'n' :: cs => some ('\n', cs)
  | 'r' :: cs => some ('\r', cs)
  | 't' :: cs => some ('\t', cs)
  | 'u' :: cs => readUnicode? cs
  | _ => none

/-- The rest of a string whose opening quote has been read; `seen` holds its characters so far,
the last one first. -/
def readString? : Nat → List Char → List Char → Option (String × List Char)
  | 0, _, _ => none
  | fuel + 1, seen, cs =>
    match cs with
    | [] => none
    | '"' :: rest => some (String.ofList seen.reverse, rest)
    | '\\' :: rest =>
      match readEscape? rest with
      | some (c, rest') => readString? fuel (c :: seen) rest'
      | none => none
    | c :: rest => if c.toNat < 32 then none else readString? fuel (c :: seen) rest

/-- The characters after the given ones, if those are in front. -/
def dropWord? : List Char → List Char → Option (List Char)
  | [], cs => some cs
  | w :: ws, c :: cs => if w == c then dropWord? ws cs else none
  | _ :: _, [] => none

mutual

/-- The document in front. -/
def readValue? : Nat → List Char → Option (Json × List Char)
  | 0, _ => none
  | fuel + 1, cs =>
    match skipBlanks cs with
    | [] => none
    | '"' :: rest => (readString? (fuel + 1) [] rest).map fun (text, rest') => (string text, rest')
    | '[' :: rest =>
      match skipBlanks rest with
      | ']' :: rest' => some (array [], rest')
      | rest' => (readItems? fuel rest').map fun (items, rest'') => (array items, rest'')
    | '\x7b' :: rest =>
      match skipBlanks rest with
      | '\x7d' :: rest' => some (object [], rest')
      | rest' => (readFields? fuel rest').map fun (fields, rest'') => (object fields, rest'')
    | 't' :: rest => (dropWord? ['r', 'u', 'e'] rest).map fun rest' => (bool true, rest')
    | 'f' :: rest => (dropWord? ['a', 'l', 's', 'e'] rest).map fun rest' => (bool false, rest')
    | 'n' :: rest => (dropWord? ['u', 'l', 'l'] rest).map fun rest' => (null, rest')
    | rest => (readNumeral? rest).map fun (n, rest') => (number n, rest')

/-- The items of an array up to its closing bracket; there is at least one. -/
def readItems? : Nat → List Char → Option (List Json × List Char)
  | 0, _ => none
  | fuel + 1, cs =>
    match readValue? fuel cs with
    | none => none
    | some (item, rest) =>
      match skipBlanks rest with
      | ',' :: rest' =>
        (readItems? fuel rest').map fun (items, rest'') => (item :: items, rest'')
      | ']' :: rest' => some ([item], rest')
      | _ => none

/-- The fields of an object up to its closing brace; there is at least one. -/
def readFields? : Nat → List Char → Option (List (String × Json) × List Char)
  | 0, _ => none
  | fuel + 1, cs =>
    match skipBlanks cs with
    | '"' :: afterQuote =>
      match readString? (fuel + 1) [] afterQuote with
      | none => none
      | some (name, afterName) =>
        match skipBlanks afterName with
        | ':' :: afterColon =>
          match readValue? fuel afterColon with
          | none => none
          | some (value, rest) =>
            match skipBlanks rest with
            | ',' :: rest' =>
              (readFields? fuel rest').map fun (fields, rest'') => ((name, value) :: fields, rest'')
            | '\x7d' :: rest' => some ([(name, value)], rest')
            | _ => none
        | _ => none
    | _ => none

end

/-- The document that a text holds; nothing but blanks may follow it. -/
def read? (text : String) : Option Json :=
  let cs := text.toList
  match readValue? (2 * cs.length + 2) cs with
  | some (document, rest) => if (skipBlanks rest).isEmpty then some document else none
  | none => none

end Json

end Reachability
