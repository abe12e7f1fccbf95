import QuorumFinality.Proofs.Wire.Canonical

/-!
# Counts, and bytes that begin with none

The first byte of a count stands for itself, or it is a marker and says how many bytes hold the
number that follows. So there are two things only that can be wrong with bytes that begin with no
count: they end too early, or a marker is used where fewer bytes would do.

How many bytes would do is said in three places: by the writer, by the size of a count, and by the
least number that the reader takes behind a marker. The three agree at every bound, so what is read
is exactly what is written. As the first byte also says where a count ends, no count begins with
another one.

## Main definitions

* `CompactSize.IsMarker` — a marker and the number of bytes behind it
* `CompactSize.IsOverlong` — bytes that begin with a wider form than their number needs

## Main results

* `CompactSize.run_decode_of_isMarker` — what is made of the bytes behind a marker
* `CompactSize.run_decode_error_cases` — what can be wrong with bytes
* `CompactSize.front_decode_iff` — what is read of any bytes, and that counts are a prefix code
-/

namespace QuorumFinality

namespace CompactSize

open Decoder

/-! ### Markers -/

/-- A first byte that is not the count itself, and the number of bytes behind it. -/
inductive IsMarker : (marker : UInt8) → (width : Nat) → Prop
  | two : IsMarker 0xFD 2
  | four : IsMarker 0xFE 4
  | eight : IsMarker 0xFF 8

/-- The bytes begin with a marker and all the bytes that belong to it, and the number that these
hold fits a narrower form. -/
def IsOverlong (bytes : Bytes) : Prop :=
  ∃ marker width payload rest, IsMarker marker width ∧ bytes = marker :: (payload ++ rest) ∧
    payload.length = width ∧ size (UInt64.ofNat (ofLittleEndian payload)) < 1 + width

variable {marker : UInt8} {width : Nat}

theorem lt_or_exists_isMarker (marker : UInt8) :
    marker.toNat < 0xFD ∨ ∃ width, IsMarker marker width := by
  have hlt := marker.toNat_lt
  by_cases hbyte : marker.toNat < 0xFD
  · exact .inl hbyte
  · obtain h | h | h : marker.toNat = 0xFD ∨ marker.toNat = 0xFE ∨ marker.toNat = 0xFF := by omega
    · obtain rfl : marker = 0xFD := UInt8.toNat.inj h
      exact .inr ⟨2, .two⟩
    · obtain rfl : marker = 0xFE := UInt8.toNat.inj h
      exact .inr ⟨4, .four⟩
    · obtain rfl : marker = 0xFF := UInt8.toNat.inj h
      exact .inr ⟨8, .eight⟩

/-- The payload of a marker is a number of sixty-four bits at most. -/
theorem IsMarker.toNat_payload (h : IsMarker marker width) {payload : Bytes}
    (hlength : payload.length ≤ width) :
    (UInt64.ofNat (ofLittleEndian payload)).toNat = ofLittleEndian payload := by
  have hwidth : width ≤ 8 := by cases h <;> decide
  refine UInt64.toNat_ofNat_of_lt' ((ofLittleEndian_lt payload).trans_le ?_)
  exact Nat.pow_le_pow_right (by decide) (hlength.trans hwidth)

/-- The least number that the reader takes behind a marker is the least one whose size calls for
that marker. -/
theorem IsMarker.exists_least (h : IsMarker marker width) : ∃ least,
    (∀ rest, decode.run (marker :: rest) = (decodeWide width least).run rest) ∧
      ∀ n, size n < 1 + width ↔ n.toNat < least := by
  cases h with
  | two =>
    refine ⟨0xFD, fun rest => rfl, fun n => ?_⟩
    rw [size]
    split_ifs <;> omega
  | four =>
    refine ⟨0x10000, fun rest => rfl, fun n => ?_⟩
    rw [size]
    split_ifs <;> omega
  | eight =>
    refine ⟨0x100000000, fun rest => rfl, fun n => ?_⟩
    rw [size]
    split_ifs <;> omega

/-! ### Reading -/

/-- The end of the bytes is noticed before the number is looked at. -/
theorem run_decodeWide (width least : Nat) (bytes : Bytes) :
    (decodeWide width least).run bytes =
      if bytes.length < width then .error .unexpectedEnd
      else if ofLittleEndian (bytes.take width) < least then .error .nonMinimalSize
      else .ok (UInt64.ofNat (ofLittleEndian (bytes.take width)), bytes.drop width) := by
  have hnat := run_nat width bytes
  rw [decodeWide]
  split_ifs at hnat with hshort
  · rw [StateT.run_bind, hnat, if_pos hshort]
    rfl
  · rw [run_bind_of_eq_ok hnat, run_require_bind, if_neg hshort]
    by_cases hleast : least ≤ ofLittleEndian (bytes.take width)
    · rw [if_pos hleast, if_neg (Nat.not_lt.mpr hleast)]
      rfl
    · rw [if_neg hleast, if_pos (Nat.not_le.mp hleast)]

/-- **What is made of the bytes behind a marker:** there are too few of them, or their number fits a
narrower form, or it is the count. -/
theorem run_decode_of_isMarker (h : IsMarker marker width) (rest : Bytes) :
    decode.run (marker :: rest) =
      if rest.length < width then .error .unexpectedEnd
      else if size (UInt64.ofNat (ofLittleEndian (rest.take width))) < 1 + width then
        .error .nonMinimalSize
      else .ok (UInt64.ofNat (ofLittleEndian (rest.take width)), rest.drop width) := by
  obtain ⟨least, hrun, hsize⟩ := h.exists_least
  rw [hrun, run_decodeWide]
  simp only [hsize, h.toNat_payload (List.length_take_le width rest)]

theorem run_decode_of_lt (h : marker.toNat < 0xFD) (rest : Bytes) :
    decode.run (marker :: rest) = .ok (UInt64.ofNat marker.toNat, rest) := by
  have hnat : (nat 1).run (marker :: rest) = .ok (marker.toNat, rest) := rfl
  rw [decode, run_bind_of_eq_ok hnat, if_neg (by omega), if_neg (by omega), if_neg (by omega)]
  rfl

/-- **What can be wrong with bytes:** they end too early, or they are overlong. -/
theorem run_decode_error_cases {bytes : Bytes} {error : DecodeError}
    (h : decode.run bytes = .error error) :
    error = .unexpectedEnd ∨ error = .nonMinimalSize ∧ IsOverlong bytes := by
  cases bytes with
  | nil => exact .inl (Except.error.inj h).symm
  | cons marker rest =>
    obtain hbyte | ⟨width, hmarker⟩ := lt_or_exists_isMarker marker
    · rw [run_decode_of_lt hbyte] at h
      contradiction
    · rw [run_decode_of_isMarker hmarker] at h
      split_ifs at h with hshort hsize
      · exact .inl (Except.error.inj h).symm
      · exact .inr ⟨(Except.error.inj h).symm, marker, width, rest.take width, rest.drop width,
          hmarker, by rw [List.take_append_drop],
          List.length_take_of_le (Nat.not_lt.mp hshort), hsize⟩

/-- Overlong bytes are refused whatever follows them. -/
theorem IsOverlong.run_decode {bytes : Bytes} (h : IsOverlong bytes) :
    decode.run bytes = .error .nonMinimalSize := by
  obtain ⟨marker, width, payload, rest, hmarker, rfl, rfl, hsize⟩ := h
  have hshort : ¬ (payload ++ rest).length < payload.length := by
    rw [List.length_append]
    omega
  rw [run_decode_of_isMarker hmarker, if_neg hshort, List.take_left, if_pos hsize]

/-! ### The code -/

/-- A count stands at the front of bytes exactly if what is written for it does. -/
theorem front_decode_eq_ok_iff {bytes : Bytes} {n : UInt64} {consumed : Nat} :
    decode.front bytes = .ok (n, consumed) ↔
      bytes.take consumed = encode n ∧ consumed = size n := by
  rw [CompactSize.reads_decode.front_eq_ok_iff]
  constructor
  · rintro ⟨hle, hcode⟩
    refine ⟨hcode, ?_⟩
    rw [← length_encode, ← hcode, List.length_take_of_le hle]
  · rintro ⟨hcode, rfl⟩
    have hlength := congrArg List.length hcode
    rw [length_encode, List.length_take] at hlength
    exact ⟨by omega, hcode⟩

/-- **A count is refused for its width** exactly if all its bytes are there and fewer would do. -/
theorem front_decode_eq_nonMinimalSize_iff {bytes : Bytes} :
    decode.front bytes = .error .nonMinimalSize ↔ IsOverlong bytes := by
  rw [front_eq_error_iff]
  constructor
  · intro h
    obtain hend | ⟨-, hoverlong⟩ := run_decode_error_cases h
    · contradiction
    · exact hoverlong
  · exact fun h => h.run_decode

/-- Bytes that begin with no count and are not overlong end too early. -/
theorem front_decode_eq_unexpectedEnd_iff {bytes : Bytes} :
    decode.front bytes = .error .unexpectedEnd ↔
      (∀ n, ¬ encode n <+: bytes) ∧ ¬ IsOverlong bytes := by
  constructor
  · intro hend
    refine ⟨fun n hprefix => ?_, fun hoverlong => ?_⟩
    · have htake : bytes.take (size n) = encode n := by
        rw [← length_encode, ← List.prefix_iff_eq_take.mp hprefix]
      rw [front_decode_eq_ok_iff.mpr ⟨htake, rfl⟩] at hend
      contradiction
    · rw [front_decode_eq_nonMinimalSize_iff.mpr hoverlong] at hend
      contradiction
  · rintro ⟨hnone, hoverlong⟩
    cases hfront : decode.front bytes with
    | ok r =>
      have hcode := (front_decode_eq_ok_iff.mp hfront).1
      exact absurd (hcode ▸ List.take_prefix r.2 bytes) (hnone r.1)
    | error error =>
      obtain rfl | ⟨-, h⟩ := run_decode_error_cases (front_eq_error_iff.mp hfront)
      · rfl
      · exact absurd h hoverlong

/-- No count is written as the beginning of another one. -/
theorem encode_isPrefix_encode_iff {n m : UInt64} : encode n <+: encode m ↔ n = m := by
  constructor
  · rintro ⟨rest, heq⟩
    exact (CompactSize.reads_decode.append_inj rfl rfl (heq.trans (List.append_nil _).symm)).1
  · rintro rfl
    exact List.prefix_refl _

/-- **Counts are a canonical prefix code.** Whatever the bytes are: a count is read from them
exactly if they begin with what is written for it, and so many bytes are taken as its size says.
Otherwise they are refused, for their width if they begin with an overlong form, and for ending too
early if not. So no two byte strings stand for the same count, and no count is written as the
beginning of another one. -/
theorem front_decode_iff :
    (∀ bytes n consumed, decode.front bytes = .ok (n, consumed) ↔
      bytes.take consumed = encode n ∧ consumed = size n) ∧
    (∀ bytes, decode.front bytes = .error .nonMinimalSize ↔ IsOverlong bytes) ∧
    (∀ bytes, decode.front bytes = .error .unexpectedEnd ↔
      (∀ n, ¬ encode n <+: bytes) ∧ ¬ IsOverlong bytes) ∧
    (∀ bytes bytes' n, decode.all bytes = .ok n → decode.all bytes' = .ok n → bytes = bytes') ∧
    ∀ n m, encode n <+: encode m ↔ n = m := by
  refine ⟨fun _ _ _ => front_decode_eq_ok_iff, fun _ => front_decode_eq_nonMinimalSize_iff,
    fun _ => front_decode_eq_unexpectedEnd_iff, fun bytes bytes' n h h' => ?_,
    fun _ _ => encode_isPrefix_encode_iff⟩
  rw [CompactSize.reads_decode.all_eq_ok_iff] at h h'
  rw [h, h']

/-- At the bound between one byte and three: a count in three bytes, a count that has three bytes
and needs one, and bytes that are cut off. -/
theorem front_decode_iff_sample :
    decode.front [0xFD, 0xFD, 0x00, 0x07] = .ok (0xFD, 3) ∧
      decode.front [0xFD, 0xFC, 0x00, 0x07] = .error .nonMinimalSize ∧
      ∀ n, ¬ encode n <+: [0xFD, 0xFD] := by
  obtain ⟨hok, hwide, hend, -, -⟩ := front_decode_iff
  refine ⟨(hok _ _ _).mpr ⟨by decide, by decide⟩, (hwide _).mpr ?_, ((hend _).mp (by decide)).1⟩
  exact ⟨0xFD, 2, [0xFC, 0x00], [0x07], .two, rfl, rfl, by decide⟩

end CompactSize

end QuorumFinality
