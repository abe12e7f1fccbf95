import QuorumFinality.Wire.Basic

/-!
# Where a masternode is reached

A service address is an IP address and a port. On the wire every IP address has the sixteen bytes
of the newer family: an address of the older family is written behind ten zero bytes and two
bytes `ff`, and sixteen such bytes are read as an address of the older family. The port, unlike
every other number, has its most significant byte first.

## Main definitions

* `IpAddress`, `ServiceAddress`: the two kinds of address.
* `IpAddress.octets`, `IpAddress.ofOctets`: the sixteen bytes of an IP address.
-/

namespace QuorumFinality

/-- An address of one of the two families. -/
inductive IpAddress where
  /-- Four bytes. -/
  | v4 (bytes : FixedBytes 4)
  /-- Sixteen bytes. -/
  | v6 (bytes : FixedBytes 16)
  deriving DecidableEq, Ord

namespace IpAddress

/-- What stands before an address of the older family among sixteen bytes. -/
def mappedMarker : Bytes :=
  [0, 0, 0, 0, 0, 0, 0, 0, 0, 0, 0xFF, 0xFF]

/-- The sixteen bytes of an address. -/
def octets : IpAddress → FixedBytes 16
  | v4 a => ⟨mappedMarker ++ a.toList, by simp [mappedMarker, a.length_toList]⟩
  | v6 a => a

/-- The last four of sixteen bytes, if the first twelve are those before an address of the older
family. -/
def mapped? (a : FixedBytes 16) : Option (FixedBytes 4) :=
  if a.toList.take 12 = mappedMarker then
    some ⟨a.toList.drop 12, by simp [a.length_toList]⟩
  else none

/-- The address of sixteen bytes, in the older family where that is possible. -/
def ofOctets (a : FixedBytes 16) : IpAddress :=
  match mapped? a with
  | some b => v4 b
  | none => v6 a

end IpAddress

/-- An IP address and a port. -/
structure ServiceAddress where
  /-- The address of the host. -/
  ip : IpAddress
  /-- The port on the host. -/
  port : UInt16
  deriving DecidableEq, Ord

/-- Sixteen bytes of address and two bytes of port, the port with its high byte first. -/
instance : Wire ServiceAddress where
  encode s := s.ip.octets.toList ++ (littleEndian 2 s.port.toNat).reverse
  decode := do
    let octets : FixedBytes 16 ← Wire.decode
    let port ← Decoder.take 2
    return ⟨IpAddress.ofOctets octets, UInt16.ofNat (ofLittleEndian port.reverse)⟩
  size _ := 18

end QuorumFinality
