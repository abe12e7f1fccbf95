import QuorumFinality.Bytes
import QuorumFinality.Json.Value

/-!
# Reading JSON text

A step takes characters from the front and gives what they stand for and the characters behind
them. Every value takes at least one character, so the length of the text bounds the recursion.

## Main definitions

* `JsonValue.readValue`: the value at the front of a text.
* `JsonValue.parse?`: the value that a whole text stands for.
-/

namespace QuorumFinality

namespace JsonValue

/-- Whether a character may stand between values. -/
def isBlank (c : Char) : Bool :=
  c = ' ' || c = '\n' || c = '\t' || c = '\r'

/-- The characters behind the blanks in front. -/
def skipBlanks (chars : List Char) : List Char :=
  chars.dropWhile isBlank

/-! ### Numbers -/

/-- The digits in front and the characters behind them. -/
def spanDigits (chars : List Char) : List Char × List Char :=
  (chars.takeWhile Char.isDigit, chars.dropWhile Char.isDigit)

/-- The number of decimal digits. -/
def natOfDigits (digits : List Char) : Nat :=
  digits.foldl (fun n c => 10 * n + (c.toNat - 48)) 0

/-- The digits in front, of which there has to be one at least. -/
def readDigits (chars : List Char) : Option (List Char × List Char) :=
  match spanDigits chars with
  | ([], _) => none
  | found => some found

/-- The characters behind a fraction in front, and whether there is one. -/
def readFraction : List Char → Option (Bool × List Char)
  | '.' :: rest => do
    let (_, rest) ← readDigits rest
    return (true, rest)
  | chars => some (false, chars)

/-- The characters behind a sign in front. -/
def skipSign : List Char → List Char
  | '+' :: rest => rest
  | '-' :: rest => rest
  | chars => chars

/-- The characters behind an exponent in front, and whether there is one. -/
def readExponent : List Char → Option (Bool × List Char)
  | c :: rest =>
    if c = 'e' ∨ c = 'E' then do
      let (_, rest) ← readDigits (skipSign rest)
      return (true, rest)
    else some (false, c :: rest)
  | [] => some (false, [])

/-- A number without its sign. Its whole part has no leading zeros. -/
def readNumber (isNegative : Bool) (chars : List Char) : Option (JsonValue × List Char) := do
  let (digits, rest) ← readDigits chars
  guard ¬(digits.head? = some '0' ∧ 1 < digits.length)
  let (hasFraction, rest) ← readFraction rest
  let (hasExponent, rest) ← readExponent rest
  let n := natOfDigits digits
  if hasFraction || hasExponent || (isNegative && n = 0) then return (real, rest)
  else return (int (if isNegative then -(n : Int) else n), rest)

/-! ### Strings -/

/-- The number of four hexadecimal digits in front. -/
def readHexUnit : List Char → Option (Nat × List Char)
  | a :: b :: c :: d :: rest => do
    let a ← hexValue? a
    let b ← hexValue? b
    let c ← hexValue? c
    let d ← hexValue? d
    return (4096 * a + 256 * b + 16 * c + d, rest)
  | _ => none

/-- The second half of a surrogate pair in front. -/
def readLowSurrogate : List Char → Option (Nat × List Char)
  | '\\' :: 'u' :: rest => do
    let (unit, rest) ← readHexUnit rest
    if 0xDC00 ≤ unit ∧ unit < 0xE000 then return (unit, rest) else none
  | _ => none

/-- The character of an escape by number behind its `u`; `none` stands for half of a pair. -/
def readNumericEscape (chars : List Char) : Option (Option Char × List Char) := do
  let (unit, rest) ← readHexUnit chars
  if 0xD800 ≤ unit ∧ unit < 0xDC00 then
    match readLowSurrogate rest with
    | some (low, rest) =>
      return (some (Char.ofNat (0x10000 + 0x400 * (unit - 0xD800) + (low - 0xDC00))), rest)
    | none => return (none, rest)
  else if 0xDC00 ≤ unit ∧ unit < 0xE000 then return (none, rest)
  else return (some (Char.ofNat unit), rest)

/-- The character of an escape behind its backslash. -/
def readEscape : List Char → Option (Option Char × List Char)
  | '"' :: rest => some (some '"', rest)
  | '\\' :: rest => some (some '\\', rest)
  | '/' :: rest => some (some '/', rest)
  | 'b' :: rest => some (some (Char.ofNat 8), rest)
  | 'f' :: rest => some (some (Char.ofNat 12), rest)
  | 'n' :: rest => some (some '\n', rest)
  | 'r' :: rest => some (some '\r', rest)
  | 't' :: rest => some (some '\t', rest)
  | 'u' :: rest => readNumericEscape rest
  | _ => none

/-- A string up to its closing quote. The characters read so far are given latest first, and
`isText` is false once half of a surrogate pair stood alone. -/
def readString (fuel : Nat) (read : List Char) (isText : Bool) (chars : List Char) :
    Option (Option String × List Char) :=
  match fuel with
  | 0 => none
  | fuel + 1 =>
    match chars with
    | [] => none
    | '"' :: rest => some (if isText then some (String.ofList read.reverse) else none, rest)
    | '\\' :: rest =>
      match readEscape rest with
      | none => none
      | some (some c, rest) => readString fuel (c :: read) isText rest
      | some (none, rest) => readString fuel read false rest
    | c :: rest => if c.toNat < 32 then none else readString fuel (c :: read) isText rest

/-- A string with its quotes. -/
def readQuoted : List Char → Option (Option String × List Char)
  | '"' :: rest => readString (rest.length + 1) [] true rest
  | _ => none

/-! ### Values -/

mutual

/-- The value in front, behind blanks. -/
def readValue (fuel : Nat) (chars : List Char) : Option (JsonValue × List Char) :=
  match fuel with
  | 0 => none
  | fuel + 1 =>
    match skipBlanks chars with
    | 'n' :: 'u' :: 'l' :: 'l' :: rest => some (null, rest)
    | 't' :: 'r' :: 'u' :: 'e' :: rest => some (bool true, rest)
    | 'f' :: 'a' :: 'l' :: 's' :: 'e' :: rest => some (bool false, rest)
    | '"' :: rest => do
      let (s, rest) ← readQuoted ('"' :: rest)
      return (string s, rest)
    | '[' :: rest =>
      match skipBlanks rest with
      | ']' :: rest => some (array [], rest)
      | rest => do
        let (items, rest) ← readItems fuel rest
        return (array items, rest)
    | '\x7b' :: rest =>
      match skipBlanks rest with
      | '\x7d' :: rest => some (object [], rest)
      | rest => do
        let (members, rest) ← readMembers fuel rest
        return (object members, rest)
    | '-' :: rest => readNumber true rest
    | rest => readNumber false rest

/-- The elements of an array up to its closing bracket. -/
def readItems (fuel : Nat) (chars : List Char) : Option (List JsonValue × List Char) :=
  match fuel with
  | 0 => none
  | fuel + 1 =>
    match readValue fuel chars with
    | none => none
    | some (v, rest) =>
      match skipBlanks rest with
      | ']' :: rest => some ([v], rest)
      | ',' :: rest => do
        let (items, rest) ← readItems fuel rest
        return (v :: items, rest)
      | _ => none

/-- The members of an object up to its closing brace. -/
def readMembers (fuel : Nat) (chars : List Char) :
    Option (List (Option String × JsonValue) × List Char) :=
  match fuel with
  | 0 => none
  | fuel + 1 =>
    match readQuoted (skipBlanks chars) with
    | none => none
    | some (k, rest) =>
      match skipBlanks rest with
      | ':' :: rest =>
        match readValue fuel rest with
        | none => none
        | some (v, rest) =>
          match skipBlanks rest with
          | '\x7d' :: rest => some ([(k, v)], rest)
          | ',' :: rest => do
            let (members, rest) ← readMembers fuel rest
            return ((k, v) :: members, rest)
          | _ => none
      | _ => none

end

/-- The value that a whole text stands for, with blanks around it. -/
def parse? (text : String) : Option JsonValue :=
  let chars := text.toList
  match readValue (2 * chars.length + 2) chars with
  | some (v, rest) => if (skipBlanks rest).isEmpty then some v else none
  | none => none

end JsonValue

end QuorumFinality
