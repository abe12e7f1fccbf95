import QuorumFinality.Proofs.Wire.Entry
import QuorumFinality.Proofs.Wire.Transaction

/-!
# Differences on the wire

A difference that was received may be passed on, and what is passed on should be what was received:
otherwise the digests of its entries and the identifier of its coinbase would not be those that the
sender computed.

All parts of a difference are canonical but one. The flag of a new masternode is written as zero or
one, whatever byte it was read from. As every entry of a masternode takes the same number of bytes,
the places of the flags are known from the sizes of what comes before them, and nothing moves.

## Main definitions

* `ListDiff.IsCode` — the byte strings from which a difference is read
* `ListDiff.flagIndex` — where the flag of a new masternode stands
* `ListDiff.Normalizes` — the same bytes, up to the flags

## Main results

* `ListDiff.reads_decode` — what is read as a difference
* `ListDiff.encode_of_decode_eq_ok` — a difference is passed on as it was received
-/

namespace QuorumFinality

open Decoder

/-! ### Rows of one length -/

section

variable {α : Type} {width k j : Nat} {rows : List (List α)} {row before after : List α}

theorem length_flatten_of_forall_length (h : ∀ row ∈ rows, row.length = width) :
    rows.flatten.length = width * rows.length := by
  induction rows with
  | nil => rfl
  | cons row rows ih =>
    obtain ⟨hrow, hrows⟩ := List.forall_mem_cons.mp h
    rw [List.flatten_cons, List.length_append, hrow, ih hrows, List.length_cons, Nat.mul_succ,
      Nat.add_comm]

/-- What stands in a row is found at its place behind the rows before it. -/
theorem getElem?_flatten_of_forall_length (h : ∀ row ∈ rows, row.length = width)
    (hrow : rows[k]? = some row) (hj : j < width) : rows.flatten[width * k + j]? = row[j]? := by
  induction rows generalizing k with
  | nil => simp at hrow
  | cons first rows ih =>
    obtain ⟨hfirst, hrows⟩ := List.forall_mem_cons.mp h
    cases k with
    | zero =>
      obtain rfl : first = row := Option.some.inj hrow
      rw [Nat.mul_zero, Nat.zero_add, List.flatten_cons, List.getElem?_append_left (by omega)]
    | succ k =>
      have hindex : width * (k + 1) + j - first.length = width * k + j := by
        rw [hfirst, Nat.mul_succ]
        omega
      rw [List.flatten_cons, List.getElem?_append_right (by rw [hfirst, Nat.mul_succ]; omega),
        hindex]
      exact ih hrows hrow

theorem getElem?_append_flatten_of_forall_length (h : ∀ row ∈ rows, row.length = width)
    (hrow : rows[k]? = some row) (hj : j < width) :
    (before ++ rows.flatten ++ after)[before.length + (width * k + j)]? = row[j]? := by
  have hk : k < rows.length := (List.getElem?_eq_some_iff.mp hrow).1
  have hflatten : width * k + j < rows.flatten.length := by
    rw [length_flatten_of_forall_length h]
    have hle := Nat.mul_le_mul_left width hk
    rw [Nat.mul_succ] at hle
    omega
  rw [List.append_assoc, List.getElem?_append_right (Nat.le_add_right _ _),
    Nat.add_sub_cancel_left, List.getElem?_append_left hflatten,
    getElem?_flatten_of_forall_length h hrow hj]

/-- Outside of what is replaced by as much, nothing changes. -/
theorem getElem?_append_append_congr {mid mid' : List α} {i : Nat} (h : mid.length = mid'.length)
    (hi : i < before.length ∨ before.length + mid.length ≤ i) :
    (before ++ mid ++ after)[i]? = (before ++ mid' ++ after)[i]? := by
  rcases hi with hlt | hle
  · rw [List.append_assoc, List.append_assoc, List.getElem?_append_left hlt,
      List.getElem?_append_left hlt]
  · have hle' : (before ++ mid).length ≤ i := List.length_append.trans_le hle
    have hlength : (before ++ mid').length = (before ++ mid).length := by
      rw [List.length_append, List.length_append, h]
    rw [List.getElem?_append_right hle', List.getElem?_append_right (hlength.trans_le hle'),
      hlength]

end

/-! ### Entries of masternodes in a row -/

namespace MasternodeEntry

variable {e : MasternodeEntry} {code : Bytes} {entries : List MasternodeEntry}
  {rows : List Bytes} {k : Nat}

theorem IsCode.length_eq (h : e.IsCode code) : code.length = 151 := by
  obtain ⟨flag, rfl, -, -⟩ := h.exists_flag
  simp

theorem forall_length_of_forall₂ (h : List.Forall₂ IsCode entries rows) :
    ∀ row ∈ rows, row.length = 151 := by
  induction h with
  | nil => simp
  | cons hcode _ ih => exact List.forall_mem_cons.mpr ⟨hcode.length_eq, ih⟩

theorem exists_row_of_forall₂ (h : List.Forall₂ IsCode entries rows)
    (he : entries[k]? = some e) : ∃ row, rows[k]? = some row ∧ e.IsCode row := by
  induction h generalizing k with
  | nil => simp at he
  | cons hcode _ ih =>
    cases k with
    | zero =>
      obtain rfl := Option.some.inj he
      exact ⟨_, rfl, hcode⟩
    | succ k => exact ih he

/-- Entries that can be read are read from what is written for them. -/
theorem forall₂_isCode_map_encode (h : List.Forall₂ IsCode entries rows) :
    List.Forall₂ IsCode entries (entries.map Wire.encode) := by
  induction h with
  | nil => exact .nil
  | cons hcode _ ih => exact .cons hcode.1.isCode_encode ih

theorem length_flatten_of_forall₂ (h : List.Forall₂ IsCode entries rows) :
    rows.flatten.length = 151 * entries.length := by
  rw [length_flatten_of_forall_length (forall_length_of_forall₂ h), h.length_eq]

/-- The bytes of an entry in a row, and those that are written for it, share all but the flag. -/
theorem exists_flag_of_forall₂ {before after : Bytes} (h : List.Forall₂ IsCode entries rows)
    (he : entries[k]? = some e) : ∃ flag, (flag != 0) = e.isValid ∧ ∀ j < 151,
      (before ++ rows.flatten ++ after)[before.length + (151 * k + j)]? =
        (e.encodeHead ++ [flag])[j]? ∧
      (before ++ (entries.map Wire.encode).flatten ++ after)[before.length + (151 * k + j)]? =
        (e.encodeHead ++ [flagByte flag])[j]? := by
  have hwritten := forall₂_isCode_map_encode h
  obtain ⟨row, hrow, hcode⟩ := exists_row_of_forall₂ h he
  obtain ⟨flag, rfl, hvalid, hencode⟩ := hcode.exists_flag
  have hrow' : (entries.map Wire.encode)[k]? = some (e.encodeHead ++ [flagByte flag]) := by
    rw [List.getElem?_map, he, Option.map_some, hencode]
  exact ⟨flag, hvalid, fun j hj =>
    ⟨getElem?_append_flatten_of_forall_length (forall_length_of_forall₂ h) hrow hj,
      getElem?_append_flatten_of_forall_length (forall_length_of_forall₂ hwritten) hrow' hj⟩⟩

end MasternodeEntry

namespace ListDiff

variable {d : ListDiff} {bytes code coinbase written : Bytes}

/-! ### What is read as a difference -/

/-- Every part of the difference can be read. -/
structure Fits (d : ListDiff) : Prop where
  /-- There are not too many hashes in the proof. -/
  merkleHashes : Readable d.merkleHashes
  /-- There are not too many flags in the proof. -/
  merkleFlags : Readable d.merkleFlags
  /-- The coinbase can be read. -/
  coinbaseTx : d.coinbaseTx.Fits
  /-- There are not too many masternodes that are gone. -/
  deletedMasternodes : Readable d.deletedMasternodes
  /-- There are not too many masternodes that are new. -/
  length_newMasternodes :
    d.newMasternodes.length ≤ maxListMemory / ListElement.weight MasternodeEntry
  /-- There are not too many quorums that are no longer active. -/
  deletedQuorums : Readable d.deletedQuorums
  /-- The quorums that have become active can be read, and there are not too many of them. -/
  newQuorums : Readable d.newQuorums

/-- The bytes before the new masternodes, around those of a coinbase. -/
def encodeBefore (d : ListDiff) (coinbase : Bytes) : Bytes :=
  d.encodeHead ++ coinbase ++ Wire.encode d.deletedMasternodes ++
    CompactSize.encode (UInt64.ofNat d.newMasternodes.length)

/-- The bytes behind the new masternodes. -/
def encodeAfter (d : ListDiff) : Bytes :=
  Wire.encode d.deletedQuorums ++ Wire.encode d.newQuorums

theorem encode_eq_ok_iff : d.encode = .ok written ↔ ∃ coinbase,
    d.coinbaseTx.encode = .ok coinbase ∧ written = d.encodeBefore coinbase ++
      (d.newMasternodes.map Wire.encode).flatten ++ d.encodeAfter := by
  unfold encode
  simp only [bind_eq_ok_iff, pure, Except.pure, Except.ok.injEq]
  refine exists_congr fun coinbase => and_congr_right fun _ => ?_
  rw [eq_comm]
  simp only [encodeBefore, encodeAfter, encodeChanges, encode_list d.newMasternodes,
    List.append_assoc]

/-- The byte string is one of those from which the difference is read: every new masternode has one
of its codes, and every other part has the one that is written for it. -/
def IsCode (d : ListDiff) (code : Bytes) : Prop :=
  d.Fits ∧ ∃ coinbase rows, d.coinbaseTx.encode = .ok coinbase ∧
    List.Forall₂ MasternodeEntry.IsCode d.newMasternodes rows ∧
    code = d.encodeBefore coinbase ++ rows.flatten ++ d.encodeAfter

/-- **What is read as a difference.** -/
protected theorem reads_decode : decode.Reads IsCode := by
  refine Reads.congr (.bind reads_decode fun baseBlockHash => .bind reads_decode fun blockHash =>
    .bind reads_decode fun totalTransactions => .bind reads_decode fun merkleHashes =>
      .bind reads_decode fun merkleFlags => .bind Transaction.reads_decode fun coinbaseTx =>
        .bind reads_decode fun deletedMasternodes =>
          .bind (MasternodeEntry.reads_decode.list _) fun newMasternodes =>
            .bind reads_decode fun deletedQuorums => .bind reads_decode fun newQuorums =>
              .pure _) fun d code => ?_
  constructor
  · rintro ⟨baseBlockHash, _, ⟨-, rfl⟩, _, ⟨blockHash, _, ⟨-, rfl⟩, _, ⟨totalTransactions, _,
      ⟨-, rfl⟩, _, ⟨merkleHashes, _, ⟨hhashes, rfl⟩, _, ⟨merkleFlags, _, ⟨hflags, rfl⟩, _,
        hchanges, rfl⟩, rfl⟩, rfl⟩, rfl⟩, rfl⟩
    obtain ⟨coinbaseTx, coinbase, ⟨htx, hcoinbase⟩, _, ⟨deletedMasternodes, _, ⟨hdeleted, rfl⟩, _,
      ⟨newMasternodes, _, ⟨hlength, rows, hrows, rfl⟩, _, ⟨deletedQuorums, _, ⟨hgone, rfl⟩, _,
        ⟨newQuorums, _, ⟨hnew, rfl⟩, _, ⟨rfl, rfl⟩, rfl⟩, rfl⟩, rfl⟩, rfl⟩, rfl⟩ := hchanges
    refine ⟨⟨hhashes, hflags, htx, hdeleted, hlength, hgone, hnew⟩, coinbase, rows, hcoinbase,
      hrows, ?_⟩
    simp [encodeBefore, encodeHead, encodeAfter]
  · rintro ⟨⟨hhashes, hflags, htx, hdeleted, hlength, hgone, hnew⟩, coinbase, rows, hcoinbase,
      hrows, rfl⟩
    simp only [encodeBefore, encodeHead, encodeAfter, List.append_assoc]
    refine exists_code_append ⟨trivial, rfl⟩ <| exists_code_append ⟨trivial, rfl⟩ <|
      exists_code_append ⟨trivial, rfl⟩ <| exists_code_append ⟨hhashes, rfl⟩ <|
      exists_code_append ⟨hflags, rfl⟩ <| exists_code_append ⟨htx, hcoinbase⟩ <|
      exists_code_append ⟨hdeleted, rfl⟩ ?_
    rw [← List.append_assoc (CompactSize.encode _)]
    exact exists_code_append ⟨hlength, rows, hrows, rfl⟩ <|
      exists_code_append ⟨hgone, rfl⟩ <| exists_code_last ⟨hnew, rfl⟩ rfl

/-! ### The flags of the new masternodes -/

/-- How many bytes come before the new masternodes. -/
def sizeBefore (d : ListDiff) : Nat :=
  Wire.size d.baseBlockHash + Wire.size d.blockHash + Wire.size d.totalTransactions +
    Wire.size d.merkleHashes + Wire.size d.merkleFlags + d.coinbaseTx.size +
    Wire.size d.deletedMasternodes + CompactSize.size (UInt64.ofNat d.newMasternodes.length)

theorem length_encodeBefore (h : d.coinbaseTx.encode = .ok coinbase) :
    (d.encodeBefore coinbase).length = d.sizeBefore := by
  simp only [encodeBefore, encodeHead, List.length_append, length_encode,
    CompactSize.length_encode, Transaction.length_of_encode h, sizeBefore]

/-- Where the flag of a new masternode stands: at the end of an entry of 151 bytes. -/
def flagIndex (d : ListDiff) (k : Nat) : Nat :=
  d.sizeBefore + (151 * k + 150)

/-- The second byte string is the first one with the flags of the new masternodes as they are
written. -/
structure Normalizes (d : ListDiff) (bytes written : Bytes) : Prop where
  /-- No byte is added or lost. -/
  length_eq : written.length = bytes.length
  /-- Every byte that is not a flag is kept. -/
  getElem?_eq : ∀ i, (∀ k < d.newMasternodes.length, i ≠ d.flagIndex k) →
    written[i]? = bytes[i]?
  /-- Every byte from which a flag was read is replaced by what is written for the flag. -/
  flag : ∀ k e, d.newMasternodes[k]? = some e → ∃ flag, bytes[d.flagIndex k]? = some flag ∧
    (flag != 0) = e.isValid ∧ written[d.flagIndex k]? = some (MasternodeEntry.flagByte flag)

/-- The entries of the new masternodes can be replaced by what is written for them. -/
theorem normalizes_of_forall₂ {before after : Bytes} {rows : List Bytes}
    (hbefore : before.length = d.sizeBefore)
    (h : List.Forall₂ MasternodeEntry.IsCode d.newMasternodes rows) :
    d.Normalizes (before ++ rows.flatten ++ after)
      (before ++ (d.newMasternodes.map Wire.encode).flatten ++ after) := by
  have hrows := MasternodeEntry.length_flatten_of_forall₂ h
  have hwritten := MasternodeEntry.length_flatten_of_forall₂
    (MasternodeEntry.forall₂_isCode_map_encode h)
  refine ⟨by simp only [List.length_append, hrows, hwritten], fun i hi => ?_, fun k e he => ?_⟩
  · by_cases hout : i < before.length ∨ before.length + 151 * d.newMasternodes.length ≤ i
    · refine getElem?_append_append_congr (hwritten.trans hrows.symm) ?_
      rwa [hwritten]
    · -- the place is one in the entry of a new masternode, and not the last one there
      obtain ⟨k, j, hk, hj, rfl⟩ : ∃ k j, k < d.newMasternodes.length ∧ j < 151 ∧
          i = before.length + (151 * k + j) :=
        ⟨(i - before.length) / 151, (i - before.length) % 151, by omega, by omega, by omega⟩
      have hlast : j ≠ 150 := by
        rintro rfl
        exact hi k hk (congrArg (· + _) hbefore)
      obtain ⟨flag, -, hbytes⟩ :=
        MasternodeEntry.exists_flag_of_forall₂ h (List.getElem?_eq_getElem hk)
      rw [(hbytes j hj).1, (hbytes j hj).2,
        MasternodeEntry.getElem?_encodeHead_append (by omega),
        MasternodeEntry.getElem?_encodeHead_append (by omega)]
  · obtain ⟨flag, hvalid, hbytes⟩ := MasternodeEntry.exists_flag_of_forall₂ h he
    obtain ⟨hread, hwrite⟩ := hbytes 150 (by decide)
    rw [MasternodeEntry.getElem?_encodeHead_append_last, hbefore] at hread hwrite
    exact ⟨flag, hread, hvalid, hwrite⟩

/-- What is written for a difference that is read is one of its codes. -/
theorem IsCode.exists_written (h : d.IsCode bytes) :
    ∃ written, d.encode = .ok written ∧ d.IsCode written ∧ d.Normalizes bytes written := by
  obtain ⟨hfits, coinbase, rows, hcoinbase, hrows, rfl⟩ := h
  have hwritten := MasternodeEntry.forall₂_isCode_map_encode hrows
  exact ⟨_, encode_eq_ok_iff.mpr ⟨coinbase, hcoinbase, rfl⟩,
    ⟨hfits, coinbase, _, hcoinbase, hwritten, rfl⟩,
    normalizes_of_forall₂ (length_encodeBefore hcoinbase) hrows⟩

/-- **A difference is passed on as it was received,** up to the flags of new masternodes: it can be
written, which takes as many bytes, no other byte changes, and it is read from these bytes again. -/
theorem encode_of_decode_eq_ok (h : decode.all bytes = .ok d) :
    ∃ written, d.encode = .ok written ∧ d.Normalizes bytes written ∧
      decode.all written = .ok d := by
  obtain ⟨written, hencode, hcode, hnormalizes⟩ :=
    (ListDiff.reads_decode.all_eq_ok_iff.mp h).exists_written
  exact ⟨written, hencode, hnormalizes, ListDiff.reads_decode.all_eq_ok_iff.mpr hcode⟩

/-- A difference with a coinbase and one new masternode, whose flag is set by a byte that is never
written. -/
def flaggedBytes : Bytes :=
  List.replicate 32 0 ++ List.replicate 32 1 ++ [1, 0, 0, 0] ++ [0] ++ [0] ++
    -- the coinbase with the payload of its second version
    [3, 0, 5, 0, 0, 0, 0, 0, 0, 0, 70, 2, 0, 100, 0, 0, 0] ++ List.replicate 64 7 ++
    -- no masternode is gone, and one that is not confirmed is new
    [0, 1] ++ List.replicate 32 3 ++ List.replicate 32 0 ++
    List.replicate 10 0 ++ [0xFF, 0xFF, 10, 0, 0, 1, 39, 15] ++ List.replicate 68 6 ++ [2] ++
    -- the quorums stay as they are
    [0, 0]

/-- The flag is written as one. -/
theorem encode_of_decode_eq_ok_sample : ∃ d, decode.all flaggedBytes = .ok d ∧
    flaggedBytes[d.flagIndex 0]? = some 2 ∧ ∃ written, d.encode = .ok written ∧
      d.Normalizes flaggedBytes written ∧ decode.all written = .ok d := by
  obtain ⟨d, hdecode, hflag⟩ := any_toOption_iff.mp (by decide +kernel :
    (decode.all flaggedBytes).toOption.any fun d => flaggedBytes[d.flagIndex 0]? == some 2)
  exact ⟨d, hdecode, beq_iff_eq.mp hflag, encode_of_decode_eq_ok hdecode⟩

end ListDiff

end QuorumFinality
