/-!
# JSON values and how they are written

A JSON value is kept as far as the library can tell two of them apart: a number is a whole number
or it is not, and a string in which one half of a surrogate pair stands alone has no text. The
members of an object keep their order and may repeat a key.

Values are written without blanks. In a string only quotes, backslashes and control characters
are escaped.

## Main definitions

* `JsonValue`: a value.
* `JsonValue.chars`, `JsonValue.render`: the written form.
-/

namespace QuorumFinality

/-- A JSON value. -/
inductive JsonValue where
  /-- The value `null`. -/
  | null
  /-- A truth value. -/
  | bool (b : Bool)
  /-- A number without fraction and exponent. -/
  | int (n : Int)
  /-- A number with a fraction or an exponent, or a zero with a minus sign. -/
  | real
  /-- A string, or `none` if its escapes are no text. -/
  | string (s : Option String)
  /-- The elements of an array. -/
  | array (items : List JsonValue)
  /-- The members of an object, in order. -/
  | object (members : List (Option String × JsonValue))

namespace JsonValue

/-- A string with a text. -/
def ofString (s : String) : JsonValue :=
  string (some s)

/-- An object whose keys have a text. -/
def ofMembers (members : List (String × JsonValue)) : JsonValue :=
  object (members.map fun m => (some m.1, m.2))

/-! ### Strings -/

/-- The escape of a character by its number. -/
def numericEscape (c : Char) : List Char :=
  let digit := fun n => Char.ofNat (if n < 10 then 48 + n else 87 + n)
  ['\\', 'u', '0', '0', digit (c.toNat / 16), digit (c.toNat % 16)]

/-- A character inside a string. -/
def escapeChar (c : Char) : List Char :=
  if c = '"' then ['\\', '"']
  else if c = '\\' then ['\\', '\\']
  else if c = '\n' then ['\\', 'n']
  else if c = '\r' then ['\\', 'r']
  else if c = '\t' then ['\\', 't']
  else if c = Char.ofNat 8 then ['\\', 'b']
  else if c = Char.ofNat 12 then ['\\', 'f']
  else if c.toNat < 32 then numericEscape c
  else [c]

/-- A string between quotes. One without a text is written as half of a surrogate pair. -/
def stringChars : Option String → List Char
  | some s => '"' :: (s.toList.flatMap escapeChar ++ ['"'])
  | none => ['"', '\\', 'u', 'd', '8', '0', '0', '"']

/-! ### Values -/

/-- The digits of a number, with a minus sign before those of a negative one. -/
def intChars (n : Int) : List Char :=
  match n with
  | .ofNat n => Nat.toDigits 10 n
  | .negSucc n => '-' :: Nat.toDigits 10 (n + 1)

mutual

/-- The written form of a value. -/
def chars : JsonValue → List Char
  | null => ['n', 'u', 'l', 'l']
  | bool true => ['t', 'r', 'u', 'e']
  | bool false => ['f', 'a', 'l', 's', 'e']
  | int n => intChars n
  | real => ['-', '0']
  | string s => stringChars s
  | array items => '[' :: (itemChars items ++ [']'])
  | object members => '\x7b' :: (memberChars members ++ ['\x7d'])

/-- The written forms of elements, with commas between. -/
def itemChars : List JsonValue → List Char
  | [] => []
  | [v] => chars v
  | v :: rest => chars v ++ ',' :: itemChars rest

/-- The written forms of members, with commas between. -/
def memberChars : List (Option String × JsonValue) → List Char
  | [] => []
  | [(k, v)] => stringChars k ++ ':' :: chars v
  | (k, v) :: rest => stringChars k ++ ':' :: (chars v ++ ',' :: memberChars rest)

end

/-- The text of a value. -/
def render (v : JsonValue) : String :=
  String.ofList (chars v)

end JsonValue

end QuorumFinality
