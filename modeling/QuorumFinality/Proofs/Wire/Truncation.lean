import QuorumFinality.Lock.ChainLock
import QuorumFinality.Proofs.Lock.Forms
import QuorumFinality.Proofs.Wire.ReadBack

/-!
# Bytes that end too early or go on

Bytes arrive in pieces, so a reader may be given the first part of a message, or a message and the
start of the next one. What follows a message must not change what is read. And a part of a message
must be told apart from bytes that are no message at all: the only thing that is wrong with it is
that it ends too early.

Both are properties of a single step. A step that only looks at the bytes that it takes says the
same whatever comes behind them, and whatever it has to say of a first part, it also says of the
whole, unless it asks for more bytes. Steps of which this is true can be put together freely. A step
that looks at how many bytes are left is not one of them, and the deterministic form of an instant
lock has such a step.

## Main definitions

* `Decoder.Streams` — what is said of a first part stands, unless it is that the bytes have ended
* `StreamingWire` — types that are read in this way
* `Decoder.IsDelimited` — a value ends where it ends, whatever follows, and cannot end earlier

## Main results

* `Decoder.Streams.bind` — a step after another one
* `Decoder.Reads.isDelimited` — from the code of the values and the reading of a first part
* `isDelimited_messages` — everything that is received ends where it ends
-/

namespace QuorumFinality

namespace Decoder

variable {α β : Type} {d : Decoder α} {IsCode : α → Bytes → Prop}

/-- What the decoder says of the first part of an input stands when the input goes on, unless it is
that the input has ended. -/
def Streams (d : Decoder α) : Prop :=
  ∀ front back, d.run front = .error .unexpectedEnd ∨
    d.run (front ++ back) = (d.run front).map fun r => (r.1, r.2 ++ back)

/-! ### Steps -/

theorem streams_pure (a : α) : (pure a : Decoder α).Streams :=
  fun _ _ => .inr rfl

theorem streams_ofExcept (result : Except DecodeError α) : (ofExcept result).Streams := by
  intro front back
  cases result with
  | ok a => exact .inr rfl
  | error error => exact .inr rfl

theorem streams_require (rule : Prop) [Decidable rule] (error : DecodeError) :
    (require rule error).Streams := by
  by_cases h : rule
  · rw [require, if_pos h]
    exact streams_pure ()
  · rw [require, if_neg h]
    exact streams_ofExcept (.error error)

/-- **A step after another one.** If the first step asks for more bytes, so do both together. -/
theorem Streams.bind {f : α → Decoder β} (h : d.Streams) (hf : ∀ a, (f a).Streams) :
    (d >>= f).Streams := by
  intro front back
  rw [StateT.run_bind, StateT.run_bind]
  have hd := h front back
  cases hrun : d.run front with
  | error error =>
    rw [hrun] at hd
    rcases hd with hend | hstands
    · obtain rfl := Except.error.inj hend
      exact .inl rfl
    · rw [hstands]
      exact .inr rfl
  | ok r =>
    rw [hrun] at hd
    have hstands := hd.resolve_left nofun
    rw [hstands]
    exact hf r.1 r.2 back

theorem Streams.map (g : α → β) (h : d.Streams) : (g <$> d).Streams := by
  rw [map_eq_pure_bind]
  exact h.bind fun a => streams_pure (g a)

theorem Streams.ite {c : Prop} {_ : Decidable c} {d' : Decoder α} (h : d.Streams)
    (h' : d'.Streams) : (if c then d else d').Streams := by
  split
  · exact h
  · exact h'

/-- Bytes that are there are taken from the front; if there are not enough, more are asked for. -/
theorem streams_take (n : Nat) : (take n).Streams := by
  intro front back
  rw [run_take, run_take]
  by_cases hshort : front.length < n
  · exact .inl (if_pos hshort)
  · have hle : n ≤ front.length := Nat.not_lt.mp hshort
    have hlong : ¬ (front ++ back).length < n := by
      rw [List.length_append]
      omega
    rw [if_neg hlong, if_neg hshort, List.take_append_of_le_length hle,
      List.drop_append_of_le_length hle]
    exact .inr rfl

theorem streams_fixed (n : Nat) : (fixed n).Streams := by
  intro front back
  simp only [fixed, StateT.run]
  by_cases hlength : (front.take n).length = n
  · have hle : n ≤ front.length := by
      rw [List.length_take] at hlength
      omega
    simp only [List.take_append_of_le_length hle, List.drop_append_of_le_length hle, hlength]
    exact .inr rfl
  · exact .inl (dif_neg hlength)

theorem streams_nat (width : Nat) : (nat width).Streams :=
  (streams_take width).map ofLittleEndian

/-- **Values in a row.** -/
theorem Streams.times (h : d.Streams) (n : Nat) : (d.times n).Streams := by
  suffices hgo : ∀ read, (times.go d n read).Streams from hgo []
  induction n with
  | zero => exact fun read => streams_pure read.reverse
  | succ n ih => exact fun read => h.bind fun a => ih (a :: read)

theorem streams_bytes (n : Nat) : (bytes n).Streams :=
  (streams_require _ _).bind fun _ => streams_take n

end Decoder

open Decoder

theorem CompactSize.streams_decode : CompactSize.decode.Streams := by
  have hwide (width least : Nat) : (decodeWide width least).Streams :=
    (streams_nat width).bind fun n => (streams_require _ _).bind fun _ => streams_pure _
  exact (streams_nat 1).bind fun marker =>
    (hwide 8 _).ite ((hwide 4 _).ite ((hwide 2 _).ite (streams_pure _)))

/-- The count comes first, so a list that claims too much is refused before its end is missed. -/
theorem Decoder.Streams.list {α : Type} {d : Decoder α} (h : d.Streams) (weight : Nat) :
    (Decoder.list weight d).Streams :=
  CompactSize.streams_decode.bind fun count => (streams_require _ _).bind fun _ =>
    h.times count.toNat

/-! ### Types -/

/-- A type whose values are read from the front, without a look at what follows. -/
class StreamingWire (α : Type) [Wire α] : Prop where
  /-- What is said of a first part stands, unless it is that the bytes have ended. -/
  streams_decode : (Wire.decode : Decoder α).Streams

export StreamingWire (streams_decode)

instance : StreamingWire UInt8 := ⟨(streams_nat 1).map _⟩

instance : StreamingWire UInt16 := ⟨(streams_nat 2).map _⟩

instance : StreamingWire UInt32 := ⟨(streams_nat 4).map _⟩

instance : StreamingWire UInt64 := ⟨(streams_nat 8).map _⟩

instance : StreamingWire Int16 := ⟨(streams_decode (α := UInt16)).map _⟩

instance : StreamingWire Bool :=
  ⟨(streams_decode (α := UInt8)).bind fun _ => streams_pure _⟩

instance {n : Nat} : StreamingWire (FixedBytes n) := ⟨streams_fixed n⟩

instance {role : HashRole} : StreamingWire (Hash role) :=
  ⟨(streams_decode (α := FixedBytes 32)).map _⟩

instance : StreamingWire Bytes :=
  ⟨CompactSize.streams_decode.bind fun count => streams_bytes count.toNat⟩

instance {α : Type} [ListElement α] [StreamingWire α] : StreamingWire (List α) :=
  ⟨streams_decode.list _⟩

instance : StreamingWire OutPoint :=
  ⟨.bind streams_decode fun _ => .bind streams_decode fun _ => streams_pure _⟩

instance : StreamingWire TxIn :=
  ⟨.bind streams_decode fun _ => .bind streams_decode fun _ => .bind streams_decode fun _ =>
    streams_pure _⟩

instance : StreamingWire TxOut :=
  ⟨.bind streams_decode fun _ => .bind streams_decode fun _ => streams_pure _⟩

instance : StreamingWire QuorumType where
  streams_decode := by
    refine .bind streams_decode fun byte => ?_
    cases QuorumType.ofNumber? byte.toNat with
    | none => exact streams_ofExcept (.error _)
    | some t => exact streams_pure t

instance : StreamingWire DeletedQuorum :=
  ⟨.bind streams_decode fun _ => .bind streams_decode fun _ => streams_pure _⟩

instance : StreamingWire FullQuorumEntry where
  streams_decode :=
    .bind streams_decode fun version => .bind streams_decode fun type =>
      .bind streams_decode fun quorumHash =>
        have hrest (quorumIndex : Option Int16) := CompactSize.streams_decode.bind
          fun signersCount => (streams_bytes type.bitsetLength).bind fun signers =>
            CompactSize.streams_decode.bind fun validMembersCount =>
              (streams_bytes type.bitsetLength).bind fun validMembers =>
                .bind streams_decode fun publicKey => .bind streams_decode fun vvecHash =>
                  .bind streams_decode fun thresholdSignature => .bind streams_decode
                    fun membersSignature => streams_pure (FullQuorumEntry.mk version type quorumHash
                      quorumIndex signersCount signers validMembersCount validMembers publicKey
                      vvecHash thresholdSignature membersSignature)
        .ite ((streams_decode.map some).bind hrest) ((streams_pure none).bind hrest)

instance : StreamingWire QuorumEntry :=
  ⟨(streams_decode (α := FullQuorumEntry)).map _⟩

instance : StreamingWire ServiceAddress :=
  ⟨.bind streams_decode fun _ => .bind (streams_take 2) fun _ => streams_pure _⟩

instance : StreamingWire MasternodeEntry :=
  ⟨.bind streams_decode fun _ => .bind streams_decode fun _ => .bind streams_decode fun _ =>
    .bind streams_decode fun _ => .bind streams_decode fun _ => .bind streams_decode fun _ =>
      streams_pure _⟩

instance : StreamingWire ChainLock :=
  ⟨.bind streams_decode fun _ => .bind streams_decode fun _ => .bind streams_decode fun _ =>
    streams_pure _⟩

/-! ### Messages -/

/-- The payload is a byte string with a length of its own, so it is complete before it is looked
into. -/
protected theorem Transaction.streams_decode : Transaction.decode.Streams :=
  .bind streams_decode fun _ => (streams_nat 2).bind fun _ => (streams_ofExcept _).bind fun _ =>
    (streams_require _ _).bind fun _ => .bind streams_decode fun _ => .bind streams_decode fun _ =>
      .bind streams_decode fun _ => .ite ((streams_pure none).bind fun _ => streams_pure _)
        (.bind streams_decode fun _ => ((streams_ofExcept _).map _).bind fun _ => streams_pure _)

protected theorem ListDiff.streams_decode : ListDiff.decode.Streams :=
  .bind streams_decode fun _ => .bind streams_decode fun _ => .bind streams_decode fun _ =>
    .bind streams_decode fun _ => .bind streams_decode fun _ =>
      Transaction.streams_decode.bind fun _ => .bind streams_decode fun _ =>
        .bind streams_decode fun _ => .bind streams_decode fun _ => .bind streams_decode fun _ =>
          streams_pure _

protected theorem InstantLock.streams_decode : InstantLock.decode.Streams :=
  .bind (.bind streams_decode fun _ => (streams_require _ _).bind fun _ => streams_pure _)
    fun _ => .bind streams_decode fun _ => .bind streams_decode fun _ => streams_pure _

instance : CanonicalWire ChainLock where
  Readable _ := True
  reads_decode := by
    refine Reads.congr (.bind reads_decode fun height => .bind reads_decode fun blockHash =>
      .bind reads_decode fun signature => .pure _) ?_
    rintro ⟨height, blockHash, signature⟩ code
    change _ ↔ True ∧ code = Wire.encode height ++ Wire.encode blockHash ++ Wire.encode signature
    simp [Readable]

/-! ### Where a value ends -/

namespace Decoder

variable {α : Type} {d : Decoder α} {IsCode : α → Bytes → Prop} {bytes : Bytes} {a : α} {n m : Nat}

/-- A first part that is too short for the value has no other fault than that. -/
theorem Streams.run_take_eq_error (h : d.Streams) (hfront : d.front bytes = .ok (a, n))
    (hlength : n ≤ bytes.length) (hm : m < n) : d.run (bytes.take m) = .error .unexpectedEnd := by
  obtain ⟨⟨a', rest⟩, hrun, heq⟩ := bind_eq_ok_iff.mp hfront
  obtain ⟨rfl, rfl⟩ := Prod.mk.inj (Except.ok.inj heq)
  refine (h (bytes.take m) (bytes.drop m)).resolve_right fun hstands => ?_
  rw [List.take_append_drop, hrun] at hstands
  -- the part that was left out would have to be left over
  obtain ⟨⟨a'', rest'⟩, -, heq'⟩ := map_eq_ok_iff.mp hstands.symm
  have hrest := congrArg List.length (Prod.mk.inj heq').2
  rw [List.length_append, List.length_drop] at hrest
  omega

/-- A value that is found at the front of some bytes ends within them. Whatever is put behind the
bytes that it takes, the same value is found and as many bytes are taken; it is then the value of
all bytes only if nothing is put there, and if something is, the error says how much. If any of the
bytes that it takes is cut off, the error is that the bytes end too early. -/
structure IsDelimited (d : Decoder α) : Prop where
  /-- No more bytes are taken than there are. -/
  le_length : ∀ {bytes a n}, d.front bytes = .ok (a, n) → n ≤ bytes.length
  /-- What follows does not matter. -/
  front_append : ∀ {bytes a n}, d.front bytes = .ok (a, n) → ∀ rest,
    d.front (bytes.take n ++ rest) = .ok (a, n)
  /-- What follows is counted if nothing should follow. -/
  all_append : ∀ {bytes a n}, d.front bytes = .ok (a, n) → ∀ rest, rest ≠ [] →
    d.all (bytes.take n ++ rest) = .error (.trailing rest.length)
  /-- A first part ends too early. -/
  all_take : ∀ {bytes a n}, d.front bytes = .ok (a, n) → ∀ m < n,
    d.all (bytes.take m) = .error .unexpectedEnd

/-- **Values with a code of their own that are read from the front end where they end.** -/
theorem Reads.isDelimited (h : d.Reads IsCode) (hstreams : d.Streams) : d.IsDelimited where
  le_length hfront := (h.front_eq_ok_iff.mp hfront).1
  front_append {bytes a n} hfront rest := by
    obtain ⟨hle, hcode⟩ := h.front_eq_ok_iff.mp hfront
    have happend := h.front_append hcode rest
    rwa [List.length_take_of_le hle] at happend
  all_append {bytes a n} hfront rest hne := by
    obtain ⟨-, hcode⟩ := h.front_eq_ok_iff.mp hfront
    have hrun : d.run (bytes.take n ++ rest) = .ok (a, rest) := (h _ _ _).mpr ⟨_, hcode, rfl⟩
    have hempty : ¬ rest.isEmpty := by rwa [List.isEmpty_iff]
    rw [all, hrun]
    exact if_neg hempty
  all_take {bytes a n} hfront m hm := by
    have hle := (h.front_eq_ok_iff.mp hfront).1
    rw [all, hstreams.run_take_eq_error hfront hle hm]
    rfl

end Decoder

/-- **Everything that is received ends where it ends:** differences, transactions, chain locks,
quorum entries in the full form and instant locks in the plain form. -/
theorem isDelimited_messages :
    ListDiff.decode.IsDelimited ∧ Transaction.decode.IsDelimited ∧
      (Wire.decode : Decoder ChainLock).IsDelimited ∧
      (Wire.decode : Decoder FullQuorumEntry).IsDelimited ∧ InstantLock.decode.IsDelimited :=
  ⟨ListDiff.reads_decode.isDelimited ListDiff.streams_decode,
    Transaction.reads_decode.isDelimited Transaction.streams_decode,
    Reads.isDelimited reads_decode streams_decode, Reads.isDelimited reads_decode streams_decode,
    InstantLock.reads_decode.isDelimited InstantLock.streams_decode⟩

/-- Wherever the sample is cut off, the bytes end too early. -/
theorem isDelimited_messages_sample : ∃ code, ListDiff.sampleDiff.encode = .ok code ∧
    ListDiff.decode.front code = .ok (ListDiff.sampleDiff, code.length) ∧ 1 < code.length ∧
    ∀ m < code.length, ListDiff.decode.all (code.take m) = .error .unexpectedEnd := by
  obtain ⟨code, hencode, hlength⟩ := any_toOption_iff.mp (by decide +kernel :
    ListDiff.sampleDiff.encode.toOption.any fun code => 1 < code.length)
  have hcode := ListDiff.isCanonical_sampleDiff.isCode hencode
  have hfront := ListDiff.reads_decode.front_append hcode []
  rw [List.append_nil] at hfront
  exact ⟨code, hencode, hfront, of_decide_eq_true hlength,
    isDelimited_messages.1.all_take hfront⟩

end QuorumFinality
