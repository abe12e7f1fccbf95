import QuorumFinality.ListDiff
import QuorumFinality.Proofs.Wire.Canonical

/-!
# The entries of lists on the wire

The entry of a quorum is canonical: its bit sets are as long as its type says, and it has a position
if its version is one of rotated quorums.

The entry of a masternode is almost canonical. An address of the older family has one form only,
because its mapped form is never read as one of the newer family, and a registration that is not
confirmed is the null hash. But the last byte, which says whether the masternode is in good
standing, may be any byte but zero instead of one.

## Main definitions

* `MasternodeEntry.encodeHead` — the bytes of an entry before its flag
* `MasternodeEntry.IsCode` — the byte strings from which an entry is read

## Main results

* `MasternodeEntry.reads_decode` — what is read as the entry of a masternode
-/

namespace QuorumFinality

open Decoder

/-! ### Quorums -/

instance : CanonicalWire QuorumType where
  Readable _ := True
  reads_decode := by
    refine Reads.congr (.bind reads_decode fun byte =>
      (?_ : Reads _ fun t code => byte.toNat = t.number ∧ code = [])) fun t code => ?_
    · simp only [← QuorumType.ofNumber?_eq_some_iff]
      cases QuorumType.ofNumber? byte.toNat with
      | none => exact (reads_ofExcept (.error _)).congr fun t code => by simp
      | some t => exact (Reads.pure t).congr fun t' code => by rw [Option.some.injEq]
    · constructor
      · rintro ⟨byte, _, ⟨-, rfl⟩, _, ⟨hnumber, rfl⟩, rfl⟩
        exact ⟨trivial, congrArg (fun n => [UInt8.ofNat n]) hnumber⟩
      · rintro ⟨-, rfl⟩
        have hnumber : (UInt8.ofNat t.number).toNat = t.number := by cases t <;> rfl
        exact exists_code_last ⟨trivial, congrArg (fun n => [UInt8.ofNat n]) hnumber.symm⟩ hnumber

instance : SizedWire QuorumType := ⟨fun _ => rfl⟩

instance : CanonicalWire DeletedQuorum where
  Readable _ := True
  reads_decode := by
    refine Reads.congr (.bind reads_decode fun type => .bind reads_decode fun quorumHash =>
      .pure _) ?_
    rintro ⟨type, quorumHash⟩ code
    change _ ↔ True ∧ code = Wire.encode type ++ Wire.encode quorumHash
    simp [Readable]

namespace FullQuorumEntry

/-- The bit sets are as long as the type says, and there is a position if the version asks for
one. -/
structure Fits (e : FullQuorumEntry) : Prop where
  /-- The set of signers has the length of the type. -/
  length_signers : e.signers.length = e.type.bitsetLength
  /-- The set of valid members has the length of the type. -/
  length_validMembers : e.validMembers.length = e.type.bitsetLength
  /-- There is a position exactly if the version is one of rotated quorums. -/
  isSome_quorumIndex : e.quorumIndex.isSome = isRotatedVersion e.version

theorem bitsetLength_le (type : QuorumType) : type.bitsetLength ≤ maxListMemory := by
  cases type <;> decide

end FullQuorumEntry

instance : CanonicalWire FullQuorumEntry where
  Readable := FullQuorumEntry.Fits
  reads_decode := by
    refine Reads.congr (.bind reads_decode fun version => .bind reads_decode fun type =>
      .bind reads_decode fun quorumHash => .ite_bind (.map _ reads_decode) (.pure _)
        fun quorumIndex => .bind CompactSize.reads_decode fun signersCount =>
          .bind (reads_bytes _) fun signers => .bind CompactSize.reads_decode
            fun validMembersCount => .bind (reads_bytes _) fun validMembers =>
              .bind reads_decode fun publicKey => .bind reads_decode fun vvecHash =>
                .bind reads_decode fun thresholdSignature => .bind reads_decode
                  fun membersSignature => .pure _) fun e code => ?_
    constructor
    · rintro ⟨version, _, ⟨-, rfl⟩, _, ⟨type, _, ⟨-, rfl⟩, _, ⟨quorumHash, _, ⟨-, rfl⟩, _,
        ⟨quorumIndex, index, hindex, _, hbits, rfl⟩, rfl⟩, rfl⟩, rfl⟩
      obtain ⟨signersCount, _, rfl, _, ⟨signers, _, ⟨hsigners, rfl⟩, _, ⟨validMembersCount, _,
        rfl, _, ⟨validMembers, _, ⟨hvalid, rfl⟩, _, hkeys, rfl⟩, rfl⟩, rfl⟩, rfl⟩ := hbits
      obtain ⟨publicKey, _, ⟨-, rfl⟩, _, ⟨vvecHash, _, ⟨-, rfl⟩, _, ⟨thresholdSignature, _,
        ⟨-, rfl⟩, _, ⟨membersSignature, _, ⟨-, rfl⟩, _, ⟨rfl, rfl⟩, rfl⟩, rfl⟩, rfl⟩, rfl⟩ := hkeys
      obtain ⟨hrotated, position, ⟨-, rfl⟩, rfl⟩ | ⟨hrotated, rfl, rfl⟩ := hindex
      all_goals
        refine ⟨⟨hsigners.2, hvalid.2, by simp [hrotated]⟩, ?_⟩
        change _ = FullQuorumEntry.encodeWithCounts _ _ _
        simp [FullQuorumEntry.encodeWithCounts, hrotated]
    · rintro ⟨⟨hsigners, hvalid, hindex⟩, hcode⟩
      obtain rfl : code = e.encodeWithCounts e.signersCount e.validMembersCount := hcode
      have hlength := FullQuorumEntry.bitsetLength_le e.type
      simp only [FullQuorumEntry.encodeWithCounts, List.append_assoc]
      refine exists_code_append ⟨trivial, rfl⟩ <| exists_code_append ⟨trivial, rfl⟩ <|
        exists_code_append ⟨trivial, rfl⟩ <| exists_code_append (a := e.quorumIndex) ?_ <|
        exists_code_append rfl <| exists_code_append ⟨⟨hlength, hsigners⟩, rfl⟩ <|
        exists_code_append rfl <| exists_code_append ⟨⟨hlength, hvalid⟩, rfl⟩ <|
        exists_code_append ⟨trivial, rfl⟩ <| exists_code_append ⟨trivial, rfl⟩ <|
        exists_code_append ⟨trivial, rfl⟩ <| exists_code_last ⟨trivial, rfl⟩ rfl
      by_cases hrotated : isRotatedVersion e.version
      · rw [hrotated, Option.isSome_iff_exists] at hindex
        obtain ⟨position, hposition⟩ := hindex
        exact .inl ⟨hrotated, position, ⟨trivial, by simp [hrotated, hposition]⟩, hposition.symm⟩
      · rw [Bool.not_eq_true] at hrotated
        rw [hrotated, Option.isSome_eq_false_iff, Option.isNone_iff_eq_none] at hindex
        exact .inr ⟨by simp [hrotated], hindex.symm, by simp [hrotated]⟩

/-- An entry that is read has the full form. -/
instance : CanonicalWire QuorumEntry where
  Readable q := ∃ e, q = .full e ∧ e.Fits
  reads_decode := by
    refine Reads.congr (.map _ reads_decode) fun q code => ?_
    constructor
    · rintro ⟨e, ⟨hfits, rfl⟩, rfl⟩
      exact ⟨⟨e, rfl, hfits⟩, rfl⟩
    · rintro ⟨⟨e, rfl, hfits⟩, rfl⟩
      exact ⟨e, ⟨hfits, rfl⟩, rfl⟩

/-! ### Addresses -/

namespace IpAddress

/-- The address is not one of the newer family that stands for one of the older family. -/
def IsPlain : IpAddress → Prop
  | v4 _ => True
  | v6 a => mapped? a = none

theorem mapped?_eq_some_iff {a : FixedBytes 16} {b : FixedBytes 4} :
    mapped? a = some b ↔ a = (v4 b).octets := by
  constructor
  · intro h
    unfold mapped? at h
    split at h
    · rename_i hmarker
      obtain rfl := Option.some.inj h
      ext1
      exact (List.take_append_drop 12 a.toList).symm.trans (congrArg (· ++ _) hmarker)
    · contradiction
  · rintro rfl
    simp [mapped?, octets, mappedMarker]

/-- **Sixteen bytes stand for one address,** and they are those of every address that is not
mapped. -/
theorem ofOctets_eq_iff {a : FixedBytes 16} {ip : IpAddress} :
    ofOctets a = ip ↔ ip.IsPlain ∧ a = ip.octets := by
  unfold ofOctets
  cases ip with
  | v4 b =>
    rw [← mapped?_eq_some_iff]
    cases mapped? a <;> simp [IsPlain]
  | v6 b =>
    change _ ↔ mapped? b = none ∧ a = b
    constructor
    · intro h
      split at h
      · contradiction
      · obtain rfl := IpAddress.v6.inj h
        exact ⟨‹_›, rfl⟩
    · rintro ⟨hmapped, rfl⟩
      rw [hmapped]

end IpAddress

instance : CanonicalWire ServiceAddress where
  Readable s := s.ip.IsPlain
  reads_decode := by
    refine Reads.congr (.bind reads_decode fun octets => .bind (reads_take 2) fun port =>
      .pure _) ?_
    rintro ⟨ip, port⟩ code
    change _ ↔ ip.IsPlain ∧ code = ip.octets.toList ++ (littleEndian 2 port.toNat).reverse
    constructor
    · rintro ⟨octets, _, ⟨-, rfl⟩, _, ⟨_, head, ⟨hlength, rfl⟩, _, ⟨h, rfl⟩, rfl⟩, rfl⟩
      obtain ⟨hip, rfl⟩ := ServiceAddress.mk.inj h
      obtain ⟨hplain, rfl⟩ := IpAddress.ofOctets_eq_iff.mp hip
      have hreverse : head.reverse.length = 2 := List.length_reverse.trans hlength
      have hlt := ofLittleEndian_lt head.reverse
      rw [hreverse] at hlt
      have hhead : littleEndian 2 (ofLittleEndian head.reverse) = head.reverse := by
        rw [← hreverse, littleEndian_ofLittleEndian]
      rw [UInt16.toNat_ofNat_of_lt' hlt, hhead, List.reverse_reverse, List.append_nil]
      exact ⟨hplain, rfl⟩
    · rintro ⟨hplain, rfl⟩
      refine exists_code_append (a := ip.octets) ⟨trivial, rfl⟩ <|
        exists_code_last ⟨by simp, rfl⟩ ?_
      rw [List.reverse_reverse, ofLittleEndian_littleEndian_of_lt port.toNat_lt,
        UInt16.ofNat_toNat, IpAddress.ofOctets_eq_iff.mpr ⟨hplain, rfl⟩]

instance : SizedWire ServiceAddress where
  size_eq s := by
    change 18 = (s.ip.octets.toList ++ (littleEndian 2 s.port.toNat).reverse).length
    simp [FixedBytes.length_toList]

/-! ### Masternodes -/

namespace MasternodeEntry

/-- The bytes of an entry before its flag, which says whether the masternode is in good
standing. -/
def encodeHead (e : MasternodeEntry) : Bytes :=
  Wire.encode e.proTxHash ++ Wire.encode (e.confirmedHash.getD Hash.null) ++
    Wire.encode e.service ++ Wire.encode e.operatorKey ++ Wire.encode e.votingKeyId

@[simp] theorem length_encodeHead (e : MasternodeEntry) : e.encodeHead.length = 150 := by
  simp [encodeHead, Wire.size]

/-- The bytes before the flag do not depend on it. -/
theorem getElem?_encodeHead_append {e : MasternodeEntry} {j : Nat} (hj : j < 150) (flag : UInt8) :
    (e.encodeHead ++ [flag])[j]? = e.encodeHead[j]? :=
  List.getElem?_append_left (by rwa [length_encodeHead])

theorem getElem?_encodeHead_append_last {e : MasternodeEntry} (flag : UInt8) :
    (e.encodeHead ++ [flag])[150]? = some flag := by
  rw [← e.length_encodeHead, List.getElem?_concat_length]

/-- What is written for a flag that is read. -/
def flagByte (flag : UInt8) : UInt8 :=
  if flag = 0 then 0 else 1

/-- The entry can be read: a registration is not confirmed by the null hash, and the address is not
mapped. -/
structure Fits (e : MasternodeEntry) : Prop where
  /-- No registration is confirmed by the null hash. -/
  confirmedHash_ne : e.confirmedHash ≠ some Hash.null
  /-- The address is not mapped. -/
  isPlain : e.service.ip.IsPlain

/-- The byte string is one of those from which the entry is read: its last byte is zero exactly if
the masternode is not in good standing. -/
def IsCode (e : MasternodeEntry) (code : Bytes) : Prop :=
  e.Fits ∧ ∃ flag : UInt8, (flag != 0) = e.isValid ∧ code = e.encodeHead ++ [flag]

/-- **What is read as the entry of a masternode.** -/
protected theorem reads_decode : (Wire.decode : Decoder MasternodeEntry).Reads IsCode := by
  refine Reads.congr (.bind reads_decode fun proTxHash => .bind reads_decode fun confirmed =>
    .bind reads_decode fun service => .bind reads_decode fun operatorKey =>
      .bind reads_decode fun votingKeyId => .bind (.bind reads_decode fun flag => .pure _)
        fun isValid => .pure _) ?_
  rintro ⟨proTxHash, confirmedHash, service, operatorKey, votingKeyId, isValid⟩ code
  constructor
  · rintro ⟨_, _, ⟨-, rfl⟩, _, ⟨confirmed, _, ⟨-, rfl⟩, _, ⟨_, _, ⟨hplain, rfl⟩, _,
      ⟨_, _, ⟨-, rfl⟩, _, ⟨_, _, ⟨-, rfl⟩, _, ⟨_, _, ⟨flag, _, ⟨-, rfl⟩, _, ⟨rfl, rfl⟩, rfl⟩,
        _, ⟨h, rfl⟩, rfl⟩, rfl⟩, rfl⟩, rfl⟩, rfl⟩, rfl⟩
    obtain ⟨rfl, rfl, rfl, rfl, rfl, rfl⟩ := MasternodeEntry.mk.inj h
    refine ⟨⟨by simp, hplain⟩, flag, rfl, ?_⟩
    by_cases hnull : confirmed = Hash.null <;> simp [encodeHead, hnull]
  · rintro ⟨⟨hconfirmed, hplain⟩, flag, hflag, rfl⟩
    simp only [encodeHead, List.append_assoc]
    refine exists_code_append ⟨trivial, rfl⟩ <| exists_code_append ⟨trivial, rfl⟩ <|
      exists_code_append ⟨hplain, rfl⟩ <| exists_code_append ⟨trivial, rfl⟩ <|
      exists_code_append ⟨trivial, rfl⟩ <|
      exists_code_last ⟨flag, [flag], ⟨trivial, by simp⟩, [], ⟨hflag, rfl⟩, rfl⟩ ?_
    cases confirmedHash with
    | none => simp
    | some hash => simp_all

variable {e : MasternodeEntry} {code : Bytes}

theorem encode_eq (e : MasternodeEntry) :
    Wire.encode e = e.encodeHead ++ [if e.isValid then 1 else 0] :=
  rfl

/-- The entry is read from what is written for it. -/
theorem Fits.isCode_encode (h : e.Fits) : e.IsCode (Wire.encode e) :=
  ⟨h, if e.isValid then 1 else 0, by cases e.isValid <;> rfl, e.encode_eq⟩

/-- What is written for an entry differs from what is read in the flag only. -/
theorem IsCode.exists_flag (h : e.IsCode code) :
    ∃ flag, code = e.encodeHead ++ [flag] ∧ (flag != 0) = e.isValid ∧
      Wire.encode e = e.encodeHead ++ [flagByte flag] := by
  obtain ⟨-, flag, hflag, rfl⟩ := h
  refine ⟨flag, rfl, hflag, ?_⟩
  rw [encode_eq, ← hflag, flagByte]
  by_cases hzero : flag = 0 <;> simp [hzero]

end MasternodeEntry

end QuorumFinality
