import QuorumFinality.Wire.Basic

/-!
# Keys and signatures as bytes

A public key travels as forty-eight bytes and a signature as ninety-six. Whether the bytes are a
point of the curve is only asked when a signature is checked, so the two types hold any bytes.

## Main definitions

* `KeyBytes`, `SignatureBytes`: the bytes of a public key and of a signature.
* `KeyBytes.ofText?`, `SignatureBytes.ofText?`: reading hexadecimal text of either case.
-/

namespace QuorumFinality

/-- The bytes of a public key, be they a point or not. -/
abbrev KeyBytes := FixedBytes 48

/-- The bytes of a signature, be they a point or not. -/
abbrev SignatureBytes := FixedBytes 96

/-- The bytes of a hexadecimal text that have to be `n`. The text is checked before the length. -/
def FixedBytes.ofText? (n : Nat) (digits length : Malformed) (text : String) :
    Except DecodeError (FixedBytes n) :=
  match Bytes.ofHex? text with
  | none => .error (.malformed digits)
  | some bytes =>
    match FixedBytes.ofList? n bytes with
    | none => .error (.malformed length)
    | some fixed => .ok fixed

/-- Lowercase hexadecimal text, two digits per byte. -/
def FixedBytes.text {n : Nat} (a : FixedBytes n) : String :=
  a.toList.toHex

namespace KeyBytes

/-- A byte string as a public key, when it has forty-eight bytes. -/
def ofBytes? (bytes : Bytes) : Except DecodeError KeyBytes :=
  match FixedBytes.ofList? 48 bytes with
  | none => .error (.malformed .publicKeyLength)
  | some key => .ok key

/-- Reads the hexadecimal text of a public key. -/
def ofText? (text : String) : Except DecodeError KeyBytes :=
  FixedBytes.ofText? 48 .publicKeyDigits .publicKeyLength text

end KeyBytes

namespace SignatureBytes

/-- A byte string as a signature, when it has ninety-six bytes. -/
def ofBytes? (bytes : Bytes) : Except DecodeError SignatureBytes :=
  match FixedBytes.ofList? 96 bytes with
  | none => .error (.malformed .signatureLength)
  | some signature => .ok signature

/-- Reads the hexadecimal text of a signature. -/
def ofText? (text : String) : Except DecodeError SignatureBytes :=
  FixedBytes.ofText? 96 .signatureDigits .signatureLength text

end SignatureBytes

end QuorumFinality
