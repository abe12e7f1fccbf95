import QuorumFinality.Address.Text
import QuorumFinality.Proofs.Text.Digits
import QuorumFinality.Proofs.Wire.Entry

/-!
# Addresses are read back from their texts

A group is read up to the first character that is no digit, so what stands behind it decides where
it ends: a dot, a colon or nothing. An address of the newer family has no dot in it unless it stands
for one of the older family, and where there is no dot the reader never takes the last two groups
for such an address.

## Main results

* `IpAddress.readDotted_dottedText` — four decimal numbers are read back
* `IpAddress.readGroups_groupsText` — groups are read back, as many as there are
* `IpAddress.take_append_replicate_append_drop` — what is left out for `::` are zeros
* `IpAddress.ofText?_text` — an address is read back from its text
-/

namespace QuorumFinality

namespace IpAddress

variable {rest : List Char}

/-! ### Numbers -/

/-- A text in front of which a group may end. -/
def EndsGroup (chars : List Char) : Prop :=
  ∀ c ∈ chars.head?, hexValue? c = none

theorem endsGroup_nil : EndsGroup [] := by
  simp [EndsGroup]

theorem endsGroup_dot (chars : List Char) : EndsGroup ('.' :: chars) := by
  simp [EndsGroup, show hexValue? '.' = none by decide]

theorem endsGroup_colon (chars : List Char) : EndsGroup (':' :: chars) := by
  simp [EndsGroup, show hexValue? ':' = none by decide]

/-- A number that has few enough digits is read back. -/
theorem readNumber_toDigits {base maxDigits n : Nat} (hbase : 1 < base) (hle : base ≤ 16)
    (hmax : 0 < maxDigits) (hn : n < base ^ maxDigits) (hrest : EndsGroup rest) :
    readNumber base maxDigits (Nat.toDigits base n ++ rest) = some (n, rest) := by
  have hlength : 1 ≤ (Nat.toDigits base n).length ∧ (Nat.toDigits base n).length ≤ maxDigits :=
    ⟨List.length_pos_of_ne_nil Nat.toDigits_ne_nil, (Nat.length_toDigits_le_iff hbase hmax).mpr hn⟩
  simp only [readNumber]
  rw [takeWhile_toDigits hbase]
  · rw [if_pos hlength, foldl_toDigits hbase hle, List.drop_left]
  · intro d hd
    simp [hexValue?_digitChar (hd.trans_le hle), hd]
  · intro c hc
    simp [hrest c hc]

theorem readByte_toDigits (b : UInt8) (hrest : EndsGroup rest) :
    readByte (Nat.toDigits 10 b.toNat ++ rest) = some (b, rest) := by
  have hb := b.toNat_lt
  have hread := readNumber_toDigits (n := b.toNat) (by decide : 1 < 10) (by decide)
    (by decide : 0 < 3) (by omega) hrest
  have hzeros : ¬((Nat.toDigits 10 b.toNat ++ rest).head? = some '0' ∧
      1 < (Nat.toDigits 10 b.toNat ++ rest).length - rest.length) := by
    rw [List.head?_append_of_ne_nil _ Nat.toDigits_ne_nil, List.length_append, Nat.add_sub_cancel]
    intro h
    exact absurd (length_toDigits_of_head? (by decide) h.1) (Nat.ne_of_gt h.2)
  rw [readByte, hread]
  simp only [Option.bind_eq_bind, Option.bind_some]
  rw [if_pos ⟨hb, hzeros⟩, UInt8.ofNat_toNat]
  rfl

theorem skip_cons (c : Char) (chars : List Char) : skip c (c :: chars) = some chars :=
  if_pos rfl

/-! ### Four decimal numbers -/

theorem toList_dottedText (a b c d : UInt8) :
    (dottedText ⟨[a, b, c, d], rfl⟩).toList =
      Nat.toDigits 10 a.toNat ++ '.' :: (Nat.toDigits 10 b.toNat ++ '.' ::
        (Nat.toDigits 10 c.toNat ++ '.' :: Nat.toDigits 10 d.toNat)) := by
  simp [dottedText, Nat.toList_repr]

/-- **Four decimal numbers are read back.** -/
theorem readDotted_dottedText (a : FixedBytes 4) :
    readDotted (dottedText a).toList = some (a, []) := by
  match a with
  | ⟨[a, b, c, d], _⟩ =>
    have hd := readByte_toDigits d endsGroup_nil
    rw [List.append_nil] at hd
    rw [toList_dottedText, readDotted, readByte_toDigits a (endsGroup_dot _)]
    simp [skip_cons, readByte_toDigits b (endsGroup_dot _), readByte_toDigits c (endsGroup_dot _),
      hd]

theorem subset_of_readNumber {base maxDigits n : Nat} {chars : List Char}
    (h : readNumber base maxDigits chars = some (n, rest)) : rest ⊆ chars := by
  simp only [readNumber] at h
  split at h
  · cases h
    exact List.drop_subset _ _
  · cases h

theorem subset_of_readByte {chars : List Char} {b : UInt8} (h : readByte chars = some (b, rest)) :
    rest ⊆ chars := by
  rw [readByte, Option.bind_eq_bind, Option.bind_eq_some_iff] at h
  obtain ⟨⟨n, tail⟩, hnumber, h⟩ := h
  simp only [Option.pure_def, Option.ite_none_right_eq_some, Option.some.injEq, Prod.mk.injEq] at h
  obtain ⟨-, -, rfl⟩ := h
  exact subset_of_readNumber hnumber

theorem skip_eq_none {c : Char} {chars : List Char} (h : c ∉ chars) : skip c chars = none := by
  cases chars with
  | nil => rfl
  | cons d chars =>
    refine if_neg ?_
    rintro rfl
    exact h List.mem_cons_self

/-- Where there is no dot there are no numbers between dots. -/
theorem readDotted_eq_none {chars : List Char} (h : '.' ∉ chars) : readDotted chars = none := by
  rw [readDotted]
  cases hb : readByte chars with
  | none => rfl
  | some found =>
    have hskip : skip '.' found.2 = none := skip_eq_none fun hc => h (subset_of_readByte hb hc)
    simp [hskip]

/-! ### Groups -/

/-- Groups with a colon before each of them. -/
def colonChars (groups : List Nat) : List Char :=
  groups.flatMap fun g => ':' :: Nat.toDigits 16 g

theorem toList_groupsText (g : Nat) (groups : List Nat) :
    (groupsText (g :: groups)).toList = Nat.toDigits 16 g ++ colonChars groups := by
  induction groups generalizing g with
  | nil => simp [groupsText, groupText, colonChars]
  | cons h groups ih =>
    have ih := ih h
    simp only [groupsText, String.toList_intercalate, List.map_cons] at ih ⊢
    rw [List.intercalate_cons_cons, ih]
    simp [groupText, colonChars]

theorem dot_notMem_toDigits (n : Nat) : '.' ∉ Nat.toDigits 16 n := by
  intro h
  obtain ⟨d, hd, hdot⟩ := exists_digitChar_of_mem_toDigits (by decide) h
  have hvalue := hexValue?_digitChar hd
  rw [← hdot, show hexValue? '.' = none by decide] at hvalue
  exact nomatch hvalue

theorem dot_notMem_colonChars (groups : List Nat) : '.' ∉ colonChars groups := by
  simp [colonChars, dot_notMem_toDigits]

theorem dot_notMem_groupsText (groups : List Nat) : '.' ∉ (groupsText groups).toList := by
  cases groups with
  | nil => simp [groupsText]
  | cons g groups =>
    rw [toList_groupsText, List.mem_append]
    exact not_or.mpr ⟨dot_notMem_toDigits g, dot_notMem_colonChars groups⟩

/-- A group that is not an address of the older family. -/
theorem readGroups_succ {limit : Nat} {isFirst dotted : Bool} {chars inner tail : List Char}
    {g : Nat} {groups : List Nat}
    (hinner : (if isFirst then some chars else skip ':' chars) = some inner)
    (hdotted : readDotted inner = none) (hnumber : readNumber 16 4 inner = some (g, tail))
    (htail : readGroups limit false tail = (groups, dotted, rest)) :
    readGroups (limit + 1) isFirst chars = (g :: groups, dotted, rest) := by
  rw [readGroups, hinner]
  simp only [hdotted, ite_self, hnumber, htail]

/-- A text at which no group starts, whether one would be the first or not. -/
def StopsGroups (chars : List Char) : Prop :=
  ∀ limit isFirst, readGroups limit isFirst chars = ([], false, chars)

theorem readNumber_of_endsGroup {base maxDigits : Nat} {chars : List Char} (h : EndsGroup chars) :
    readNumber base maxDigits chars = none := by
  cases chars with
  | nil => rfl
  | cons c chars =>
    have hc : hexValue? c = none := h c rfl
    simp [readNumber, hc]

theorem readDotted_of_endsGroup {chars : List Char} (h : EndsGroup chars) :
    readDotted chars = none := by
  rw [readDotted, readByte, readNumber_of_endsGroup h]
  rfl

theorem stopsGroups_nil : StopsGroups [] := by
  intro limit isFirst
  cases limit with
  | zero => rfl
  | succ limit =>
    cases isFirst <;>
      simp [readGroups, skip, readDotted_of_endsGroup endsGroup_nil,
        readNumber_of_endsGroup endsGroup_nil]

theorem stopsGroups_colons (chars : List Char) : StopsGroups (':' :: ':' :: chars) := by
  intro limit isFirst
  cases limit with
  | zero => rfl
  | succ limit =>
    cases isFirst <;>
      simp [readGroups, skip_cons, readDotted_of_endsGroup (endsGroup_colon _),
        readNumber_of_endsGroup (endsGroup_colon _)]

section

variable {groups : List Nat} {limit : Nat}

theorem endsGroup_colonChars (hends : EndsGroup rest) : EndsGroup (colonChars groups ++ rest) := by
  cases groups with
  | nil => exact hends
  | cons g groups => exact endsGroup_colon _

/-- Groups behind a first one are read back. -/
theorem readGroups_colonChars (hends : EndsGroup rest) (hstop : StopsGroups rest)
    (hdot : '.' ∉ rest) (hgroups : ∀ g ∈ groups, g < 16 ^ 4) (hlimit : groups.length ≤ limit) :
    readGroups limit false (colonChars groups ++ rest) = (groups, false, rest) := by
  induction groups generalizing limit with
  | nil => exact hstop limit false
  | cons g groups ih =>
    obtain ⟨limit, rfl⟩ := Nat.exists_eq_succ_of_ne_zero (Nat.ne_zero_of_lt hlimit)
    obtain ⟨hg, hgroups⟩ := List.forall_mem_cons.mp hgroups
    have hchars : colonChars (g :: groups) ++ rest =
        ':' :: (Nat.toDigits 16 g ++ (colonChars groups ++ rest)) := by
      simp [colonChars]
    rw [hchars]
    refine readGroups_succ (by simp [skip_cons]) (readDotted_eq_none ?_)
      (readNumber_toDigits (by decide) (by decide) (by decide) hg (endsGroup_colonChars hends))
      (ih hgroups (Nat.le_of_succ_le_succ hlimit))
    simp [dot_notMem_toDigits, dot_notMem_colonChars, hdot]

/-- **Groups are read back,** as many as there are, where none can start behind them. -/
theorem readGroups_groupsText (hends : EndsGroup rest) (hstop : StopsGroups rest)
    (hdot : '.' ∉ rest) (hgroups : ∀ g ∈ groups, g < 16 ^ 4) (hlimit : groups.length ≤ limit) :
    readGroups limit true ((groupsText groups).toList ++ rest) = (groups, false, rest) := by
  cases groups with
  | nil =>
    have htext : (groupsText []).toList = [] := by simp [groupsText]
    rw [htext]
    exact hstop limit true
  | cons g groups =>
    obtain ⟨limit, rfl⟩ := Nat.exists_eq_succ_of_ne_zero (Nat.ne_zero_of_lt hlimit)
    obtain ⟨hg, hgroups⟩ := List.forall_mem_cons.mp hgroups
    rw [toList_groupsText, List.append_assoc]
    refine readGroups_succ rfl (readDotted_eq_none ?_)
      (readNumber_toDigits (by decide) (by decide) (by decide) hg (endsGroup_colonChars hends))
      (readGroups_colonChars hends hstop hdot hgroups (Nat.le_of_succ_le_succ hlimit))
    simp [dot_notMem_toDigits, dot_notMem_colonChars, hdot]

theorem readGroups_groupsText_end (hgroups : ∀ g ∈ groups, g < 16 ^ 4)
    (hlimit : groups.length ≤ limit) :
    readGroups limit true (groupsText groups).toList = (groups, false, []) := by
  have hread := readGroups_groupsText endsGroup_nil stopsGroups_nil List.not_mem_nil hgroups hlimit
  rwa [List.append_nil] at hread

end

/-! ### Bytes and groups -/

/-- An even number of bytes is read back from its groups. -/
theorem octetsOfGroups_groupsOf :
    ∀ bytes : Bytes, bytes.length % 2 = 0 → octetsOfGroups (groupsOf bytes) = bytes
  | [], _ => rfl
  | [_], h => nomatch h
  | high :: low :: rest, h => by
    have hlow := low.toNat_lt
    have ih := octetsOfGroups_groupsOf rest (by rw [← h]; exact (Nat.add_mod_right _ 2).symm)
    have hdiv : (256 * high.toNat + low.toNat) / 256 = high.toNat := by omega
    have hmod : UInt8.ofNat (256 * high.toNat + low.toNat) = low :=
      UInt8.toNat.inj (by simp)
    rw [octetsOfGroups] at ih
    rw [groupsOf, octetsOfGroups, List.flatMap_cons, ih, hdiv, hmod, UInt8.ofNat_toNat]
    rfl

theorem lt_of_mem_groupsOf : ∀ bytes : Bytes, ∀ g ∈ groupsOf bytes, g < 16 ^ 4
  | [] => by simp [groupsOf]
  | [_] => by simp [groupsOf]
  | high :: low :: rest => by
    have hhigh := high.toNat_lt
    have hlow := low.toNat_lt
    rw [groupsOf, List.forall_mem_cons]
    exact ⟨by omega, lt_of_mem_groupsOf rest⟩

theorem length_groupsOf : ∀ bytes : Bytes, (groupsOf bytes).length = bytes.length / 2
  | [] => rfl
  | [_] => by simp [groupsOf]
  | _ :: _ :: rest => by
    rw [groupsOf, List.length_cons, length_groupsOf rest]
    exact (Nat.add_div_right rest.length (by decide : 0 < 2)).symm

/-! ### The groups that are left out -/

theorem replicate_leadingZeros_append_drop (groups : List Nat) :
    List.replicate (leadingZeros groups) 0 ++ groups.drop (leadingZeros groups) = groups := by
  induction groups with
  | nil => rfl
  | cons g groups ih =>
    by_cases hg : g = 0
    · have hzeros : leadingZeros (g :: groups) = leadingZeros groups + 1 := by
        simp [leadingZeros, hg]
      rw [hzeros, List.replicate_succ, List.drop_succ_cons, List.cons_append, ih, hg]
    · have hzeros : leadingZeros (g :: groups) = 0 := by simp [leadingZeros, hg]
      rw [hzeros]
      rfl

/-- **What is left out are zeros.** -/
theorem take_append_replicate_append_drop (groups : List Nat) :
    groups.take (longestZeroRun groups).1 ++ (List.replicate (longestZeroRun groups).2 0 ++
      groups.drop ((longestZeroRun groups).1 + (longestZeroRun groups).2)) = groups := by
  induction groups with
  | nil => rfl
  | cons g groups ih =>
    rw [longestZeroRun]
    by_cases h : (longestZeroRun groups).2 ≤ leadingZeros (g :: groups)
    · simp only [if_pos h, List.take_zero, List.nil_append, Nat.zero_add]
      exact replicate_leadingZeros_append_drop (g :: groups)
    · simp only [if_neg h, List.take_succ_cons, List.cons_append, Nat.add_right_comm _ 1,
        List.drop_succ_cons, ih]

-- Of two runs of one length it is the first one.
example : longestZeroRun [0x2001, 0xdb8, 0, 0, 1, 0, 0, 1] = (2, 2) := by
  decide

/-! ### Addresses -/

section

variable {a : FixedBytes 16}

/-- Groups with `::` among them stand for as many zeros as are missing. -/
theorem readColons_of_readGroups {front back : List Nat} {dotted : Bool} {text chars : List Char}
    (hfront : readGroups 8 true text = (front, false, ':' :: ':' :: chars))
    (hlength : front.length < 8)
    (hback : readGroups (7 - front.length) true chars = (back, dotted, rest))
    (hoctets : octetsOfGroups
      (front ++ (List.replicate (8 - front.length - back.length) 0 ++ back)) = a.toList) :
    readColons text = some (a, rest) := by
  simp [readColons, hfront, Nat.ne_of_lt hlength, skip_cons, hback, hoctets,
    FixedBytes.ofList?_toList]

/-- Groups of which a run of zeros was left out are read back. -/
theorem readColons_leftOut {front back : List Nat} {length : Nat}
    (hfront : ∀ g ∈ front, g < 16 ^ 4) (hback : ∀ g ∈ back, g < 16 ^ 4) (hpos : 0 < length)
    (hlength : front.length + (length + back.length) = 8)
    (hoctets : octetsOfGroups (front ++ (List.replicate length 0 ++ back)) = a.toList) :
    readColons ((groupsText front).toList ++ ':' :: ':' :: (groupsText back).toList) =
      some (a, []) := by
  have hmissing : 8 - front.length - back.length = length := by omega
  have hdot : '.' ∉ ':' :: ':' :: (groupsText back).toList := by simp [dot_notMem_groupsText]
  refine readColons_of_readGroups
    (readGroups_groupsText (endsGroup_colon _) (stopsGroups_colons _) hdot hfront (by omega))
    (by omega) (readGroups_groupsText_end hback (by omega)) ?_
  rw [hmissing, hoctets]

/-- **An address of the newer family is read back,** with or without groups left out. -/
theorem readColons_colonText (a : FixedBytes 16) :
    readColons (colonText a).toList = some (a, []) := by
  have hlength : (groupsOf a.toList).length = 8 := by rw [length_groupsOf, a.length_toList]
  have hgroups := lt_of_mem_groupsOf a.toList
  have hoctets := octetsOfGroups_groupsOf a.toList (by rw [a.length_toList])
  simp only [colonText]
  split
  · rename_i hlong
    have hrun := take_append_replicate_append_drop (groupsOf a.toList)
    have hsum := congrArg List.length hrun
    rw [List.length_append, List.length_append, List.length_replicate, hlength] at hsum
    rw [String.toList_append, String.toList_append, List.append_assoc]
    exact readColons_leftOut (fun g hg => hgroups g (List.mem_of_mem_take hg))
      (fun g hg => hgroups g (List.mem_of_mem_drop hg)) (Nat.zero_lt_of_lt hlong) hsum
      (by rw [hrun, hoctets])
  · have hread := readGroups_groupsText_end hgroups (Nat.le_of_eq hlength)
    simp [readColons, hread, hlength, hoctets, FixedBytes.ofList?_toList]

/-- So is one that stands for an address of the older family. -/
theorem readColons_mapped {b : FixedBytes 4} (h : mapped? a = some b) :
    readColons ("::ffff:" ++ dottedText b).toList = some (a, []) := by
  have hdotted : readGroups 6 false (':' :: (dottedText b).toList) =
      (groupsOf b.toList, true, []) := by
    rw [readGroups]
    simp [skip_cons, readDotted_dottedText]
  have hmarker : readNumber 16 4 (Nat.toDigits 16 0xffff ++ ':' :: (dottedText b).toList) =
      some (0xffff, ':' :: (dottedText b).toList) :=
    readNumber_toDigits (by decide) (by decide) (by decide) (by decide) (endsGroup_colon _)
  have hback : readGroups 7 true (Nat.toDigits 16 0xffff ++ ':' :: (dottedText b).toList) =
      (0xffff :: groupsOf b.toList, true, []) :=
    readGroups_succ rfl rfl hmarker hdotted
  have hlength : (groupsOf b.toList).length = 2 := by rw [length_groupsOf, b.length_toList]
  rw [String.toList_append]
  refine readColons_of_readGroups (stopsGroups_colons _ 8 true) (by decide) hback ?_
  have hoctets := octetsOfGroups_groupsOf b.toList (by rw [b.length_toList])
  rw [List.length_cons, hlength, mapped?_eq_some_iff.mp h]
  exact congrArg (mappedMarker ++ ·) hoctets

end

theorem dot_notMem_colonText (a : FixedBytes 16) : '.' ∉ (colonText a).toList := by
  simp only [colonText]
  split <;> simp [dot_notMem_groupsText]

/-- **An address is read back from its text.** -/
theorem ofText?_text (ip : IpAddress) : ofText? ip.text = some ip := by
  cases ip with
  | v4 a => simp [text, ofText?, readDotted_dottedText]
  | v6 a =>
    rw [text]
    cases h : mapped? a with
    | some b =>
      have hdotted : readDotted ("::ffff:" ++ dottedText b).toList = none := by
        rw [String.toList_append]
        exact readDotted_of_endsGroup (endsGroup_colon _)
      simp only [ofText?, hdotted, readColons_mapped h]
      rfl
    | none =>
      simp only [ofText?, readDotted_eq_none (dot_notMem_colonText a), readColons_colonText]
      rfl

end IpAddress

end QuorumFinality
