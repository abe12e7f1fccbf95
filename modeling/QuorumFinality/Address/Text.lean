import QuorumFinality.Address

/-!
# The text of addresses

An address of the older family is four decimal numbers between dots. One of the newer family is
eight hexadecimal groups between colons in which the longest run of at least two zero groups, the
first such run when several are equally long, is left out and leaves `::`; an address that stands
for one of the older family is written with that one's text behind `::ffff:`.

Reading is more generous than writing: groups may have leading zeros, any run of zero groups may
be left out, and the last two groups may be written as an address of the older family. Decimal
numbers have no leading zeros.

## Main definitions

* `IpAddress.text`, `ServiceAddress.text`: the text of an address.
* `IpAddress.ofText?`: the address that a text stands for.
-/

namespace QuorumFinality

namespace IpAddress

/-! ### Writing -/

/-- Four numbers between dots. -/
def dottedText (a : FixedBytes 4) : String :=
  ".".intercalate (a.toList.map fun b => toString b.toNat)

/-- The numbers of two bytes each that a byte string holds, high byte first. -/
def groupsOf : Bytes → List Nat
  | high :: low :: rest => (256 * high.toNat + low.toNat) :: groupsOf rest
  | _ => []

/-- The lowercase hexadecimal digits of a number without leading zeros. -/
def groupText (n : Nat) : String :=
  String.ofList (Nat.toDigits 16 n)

/-- Groups between colons. -/
def groupsText (groups : List Nat) : String :=
  ":".intercalate (groups.map groupText)

/-- How many zeros a list starts with. -/
def leadingZeros (groups : List Nat) : Nat :=
  (groups.takeWhile (· == 0)).length

/-- Where the longest run of zeros starts and how long it is, the first one of several. -/
def longestZeroRun : List Nat → Nat × Nat
  | [] => (0, 0)
  | g :: rest =>
    let here := leadingZeros (g :: rest)
    let (start, length) := longestZeroRun rest
    if length ≤ here then (0, here) else (start + 1, length)

/-- Eight groups, with the longest run of at least two zeros left out. -/
def colonText (a : FixedBytes 16) : String :=
  let groups := groupsOf a.toList
  let (start, length) := longestZeroRun groups
  if 2 ≤ length then
    groupsText (groups.take start) ++ "::" ++ groupsText (groups.drop (start + length))
  else groupsText groups

/-- The text of an address. -/
def text : IpAddress → String
  | v4 a => dottedText a
  | v6 a =>
    match mapped? a with
    | some b => "::ffff:" ++ dottedText b
    | none => colonText a

/-! ### Reading

A step takes characters from the front and gives what they stand for and the characters behind
them. -/

/-- The longest run of digits of the given base in front, as a number, if it has one to
`maxDigits` digits. -/
def readNumber (base maxDigits : Nat) (chars : List Char) : Option (Nat × List Char) :=
  let isDigit := fun c => match hexValue? c with
    | some value => value < base
    | none => false
  let digits := chars.takeWhile isDigit
  if 1 ≤ digits.length ∧ digits.length ≤ maxDigits then
    let value := digits.foldl (fun n c => base * n + (hexValue? c).getD 0) 0
    some (value, chars.drop digits.length)
  else none

/-- A decimal number below 256 without leading zeros. -/
def readByte (chars : List Char) : Option (UInt8 × List Char) := do
  let (value, rest) ← readNumber 10 3 chars
  let digits := chars.length - rest.length
  if value < 256 ∧ ¬ (chars.head? = some '0' ∧ 1 < digits) then
    return (UInt8.ofNat value, rest)
  else none

/-- The characters behind the given one. -/
def skip (c : Char) : List Char → Option (List Char)
  | d :: rest => if d = c then some rest else none
  | [] => none

/-- Four decimal numbers between dots. -/
def readDotted (chars : List Char) : Option (FixedBytes 4 × List Char) := do
  let (a, rest) ← readByte chars
  let (b, rest) ← readByte (← skip '.' rest)
  let (c, rest) ← readByte (← skip '.' rest)
  let (d, rest) ← readByte (← skip '.' rest)
  return (⟨[a, b, c, d], rfl⟩, rest)

/-- As many groups as can be read, at most `limit`, and whether they end with an address of the
older family, which counts for two groups. The first group has no colon before it. -/
def readGroups (limit : Nat) (isFirst : Bool) (chars : List Char) :
    List Nat × Bool × List Char :=
  match limit with
  | 0 => ([], false, chars)
  | limit + 1 =>
    match if isFirst then some chars else skip ':' chars with
    | none => ([], false, chars)
    | some inner =>
      match if 1 ≤ limit then readDotted inner else none with
      | some (a, rest) => (groupsOf a.toList, true, rest)
      | none =>
        match readNumber 16 4 inner with
        | none => ([], false, chars)
        | some (group, rest) =>
          let (groups, dotted, rest) := readGroups limit false rest
          (group :: groups, dotted, rest)

/-- The sixteen bytes of eight groups. -/
def octetsOfGroups (groups : List Nat) : Bytes :=
  groups.flatMap fun g => [UInt8.ofNat (g / 256), UInt8.ofNat g]

/-- Eight groups, or fewer groups around `::` that stands for at least one zero group. -/
def readColons (chars : List Char) : Option (FixedBytes 16 × List Char) := do
  let (front, dotted, rest) := readGroups 8 true chars
  if front.length = 8 then
    return (← FixedBytes.ofList? 16 (octetsOfGroups front), rest)
  guard !dotted
  let rest ← skip ':' (← skip ':' rest)
  let (back, _, rest) := readGroups (7 - front.length) true rest
  let zeros := List.replicate (8 - front.length - back.length) 0
  return (← FixedBytes.ofList? 16 (octetsOfGroups (front ++ zeros ++ back)), rest)

/-- The address that a whole text stands for. -/
def ofText? (text : String) : Option IpAddress :=
  match readDotted text.toList with
  | some (a, rest) => if rest.isEmpty then some (v4 a) else none
  | none =>
    match readColons text.toList with
    | some (a, rest) => if rest.isEmpty then some (v6 a) else none
    | none => none

end IpAddress

/-- Address and port with a colon between; an address of the newer family stands in brackets. -/
def ServiceAddress.text (s : ServiceAddress) : String :=
  match s.ip with
  | .v4 _ => s.ip.text ++ ":" ++ toString s.port.toNat
  | .v6 _ => "[" ++ s.ip.text ++ "]:" ++ toString s.port.toNat

end QuorumFinality
