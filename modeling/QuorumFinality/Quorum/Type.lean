import QuorumFinality.Wire.Basic

/-!
# Quorum types

A quorum type fixes how many masternodes form a quorum, how many of them have to sign, and how
many quorums of the type are active at once. It is known by a number of one byte.

## Main definitions

* `QuorumType`: the types.
* `QuorumType.params`: the table of their sizes.
* `QuorumType.number`, `QuorumType.ofNumber?`: the byte that names a type.
* `QuorumType.bitsetLength`: the bytes of a set of members.

## Main results

* `QuorumType.ofNumber?_eq_some_iff`: a number names at most one type, and each type has one.
-/

namespace QuorumFinality

/-- A kind of quorum: the members, the share of them that has to sign, and where it is used. -/
inductive QuorumType where
  /-- Fifty members, of which sixty in a hundred sign. -/
  | llmq50_60
  /-- Four hundred members, of which sixty in a hundred sign. -/
  | llmq400_60
  /-- Four hundred members, of which eighty-five in a hundred sign. -/
  | llmq400_85
  /-- A hundred members, of which sixty-seven in a hundred sign. -/
  | llmq100_67
  /-- Sixty members, of which seventy-five in a hundred sign. -/
  | llmq60_75
  /-- Twenty-five members, of which sixty-seven in a hundred sign. -/
  | llmq25_67
  /-- Quorums of a test chain. -/
  | test
  /-- Quorums of a development chain. -/
  | devnet
  /-- A second kind of quorums of a test chain. -/
  | testV17
  /-- Rotated quorums of a test chain. -/
  | testRotation
  /-- Quorums of a test chain that sign instant locks. -/
  | testInstantSend
  /-- Rotated quorums of a development chain. -/
  | devnetRotation
  /-- Quorums of a test chain that sign for the platform. -/
  | testPlatform
  /-- Quorums of a development chain that sign for the platform. -/
  | devnetPlatform
  deriving DecidableEq

namespace QuorumType

/-- What a quorum type fixes. -/
structure Params where
  /-- The name of the parameter set. -/
  name : String
  /-- How many masternodes form a quorum. -/
  size : Nat
  /-- How many of them have to take part for the quorum to form. -/
  minSize : Nat
  /-- How many of them have to sign. -/
  threshold : Nat
  /-- How many quorums of the type are active at once. -/
  activeCount : Nat
  deriving DecidableEq

/-- The table of the quorum types. -/
def params : QuorumType → Params
  | llmq50_60 => ⟨"llmq_50_60", 50, 40, 30, 24⟩
  | llmq400_60 => ⟨"llmq_400_60", 400, 300, 240, 4⟩
  | llmq400_85 => ⟨"llmq_400_85", 400, 350, 340, 4⟩
  | llmq100_67 => ⟨"llmq_100_67", 100, 80, 67, 24⟩
  | llmq60_75 => ⟨"llmq_60_75", 60, 50, 45, 32⟩
  | llmq25_67 => ⟨"llmq_25_67", 25, 22, 17, 24⟩
  | test => ⟨"llmq_test", 3, 2, 2, 2⟩
  | devnet => ⟨"llmq_devnet", 10, 7, 6, 3⟩
  | testV17 => ⟨"llmq_test_v17", 3, 2, 2, 2⟩
  | testRotation => ⟨"llmq_test_dip0024", 4, 3, 2, 2⟩
  | testInstantSend => ⟨"llmq_test_instantsend", 3, 2, 2, 2⟩
  | devnetRotation => ⟨"llmq_devnet_dip0024", 8, 6, 4, 2⟩
  | testPlatform => ⟨"llmq_test_platform", 3, 2, 2, 2⟩
  | devnetPlatform => ⟨"llmq_dev_platform", 12, 9, 8, 4⟩

/-- How many masternodes form a quorum of the type. -/
def memberCount (t : QuorumType) : Nat := t.params.size

/-- How many quorums of the type are active at once. -/
def activeCount (t : QuorumType) : Nat := t.params.activeCount

/-- The number that names the type. -/
def number : QuorumType → Nat
  | llmq50_60 => 1
  | llmq400_60 => 2
  | llmq400_85 => 3
  | llmq100_67 => 4
  | llmq60_75 => 5
  | llmq25_67 => 6
  | test => 100
  | devnet => 101
  | testV17 => 102
  | testRotation => 103
  | testInstantSend => 104
  | devnetRotation => 105
  | testPlatform => 106
  | devnetPlatform => 107

/-- The type that a number names. -/
def ofNumber? : Nat → Option QuorumType
  | 1 => some llmq50_60
  | 2 => some llmq400_60
  | 3 => some llmq400_85
  | 4 => some llmq100_67
  | 5 => some llmq60_75
  | 6 => some llmq25_67
  | 100 => some test
  | 101 => some devnet
  | 102 => some testV17
  | 103 => some testRotation
  | 104 => some testInstantSend
  | 105 => some devnetRotation
  | 106 => some testPlatform
  | 107 => some devnetPlatform
  | _ => none

theorem ofNumber?_number (t : QuorumType) : ofNumber? t.number = some t := by
  cases t <;> rfl

theorem number_injective {s t : QuorumType} (h : s.number = t.number) : s = t := by
  have := congrArg ofNumber? h
  simpa [ofNumber?_number] using this

/-- A number names at most one type, and each type has one. -/
theorem ofNumber?_eq_some_iff {n : Nat} {t : QuorumType} :
    ofNumber? n = some t ↔ n = t.number := by
  constructor
  · intro h
    unfold ofNumber? at h
    split at h <;> cases h <;> rfl
  · rintro rfl
    exact ofNumber?_number t

theorem number_lt (t : QuorumType) : t.number < 256 := by
  cases t <;> decide

/-- The bytes of a set of members, one bit per member. -/
def bitsetLength (t : QuorumType) : Nat :=
  max 1 ((t.memberCount + 7) / 8)

/-- The name that messages give to the type. -/
def label : QuorumType → String
  | llmq50_60 => "1_50/60"
  | llmq400_60 => "2_400/60"
  | llmq400_85 => "3_400/85"
  | llmq100_67 => "4_100/67"
  | llmq60_75 => "5_60/75"
  | llmq25_67 => "6_25/67"
  | test => "100_Test"
  | devnet => "101_Dev"
  | testV17 => "102_Test-v17"
  | testRotation => "103_Test-dip-24"
  | testInstantSend => "104_Test-IS"
  | devnetRotation => "105_Dev-dip-24"
  | testPlatform => "106_Test-Platform"
  | devnetPlatform => "107_Dev-Platform"

/-- Quorum types are ordered by number. -/
instance : Ord QuorumType where
  compare s t := compare s.number t.number

theorem compare_def (s t : QuorumType) : compare s t = compare s.number t.number :=
  rfl

instance : Std.TransOrd QuorumType where
  eq_swap {s t} := Std.OrientedOrd.eq_swap (a := s.number) (b := t.number)
  isLE_trans {s t u} := Std.TransOrd.isLE_trans (a := s.number) (b := t.number) (c := u.number)

instance : Std.LawfulEqOrd QuorumType where
  eq_of_compare h := number_injective (Std.LawfulEqOrd.eq_of_compare h)

/-- A quorum type is the byte of its number, and any other byte is refused. -/
instance : Wire QuorumType where
  encode t := [UInt8.ofNat t.number]
  decode := do
    let byte : UInt8 ← Wire.decode
    match ofNumber? byte.toNat with
    | some t => return t
    | none => throw (.unknownQuorumType byte.toNat)
  size _ := 1

end QuorumType

end QuorumFinality
