import Mathlib.Data.FinEnum
import QuorumFinality.Bls.Group

/-!
# What the translation of old points keeps

The first byte of an abscissa has five bits of its own and room for three flags. In the present
layout two of these are the same for all points but the identity, and the third one says which
ordinate is meant. In the old layout there is only this one, at the top, and the two bits below it
are free. So in either layout a first byte is made of five bits and a flag. To translate a key is to
put the same five bits and the same flag together in the other way. In a signature the halves are
swapped too, so the flag leaves the byte where it was and joins the five bits of the other half.

Nothing is lost. A point can be translated exactly if the bits that have to be free are free, it
becomes any point with the flags of one that is not the identity, and it can be taken back.

## Main definitions

* `Bls.Legacy.oldMark` — five bits and a flag as a first byte in the old layout
* `Bls.Legacy.oldKey`, `Bls.Legacy.oldSignature` — the way back to the old layout
* `Bls.Legacy.IsBijection` — a translation of some values that can be undone

## Main results

* `Bls.Legacy.modernKey?_oldMark`, `Bls.Legacy.modernSignature?_oldMark` — the five bits and the
  flag stay
* `Bls.Legacy.isBijection_modern` — which bytes are translated, into which, and back
-/

namespace QuorumFinality

namespace Bls

namespace Legacy

/-! ### First bytes

A byte has so few values that what becomes of its bits can be seen for each of them. -/

/-- The flags of a point that is not the identity. -/
def flagsFor (isLarge : Bool) : Flags :=
  ⟨true, false, isLarge⟩

/-- The first byte of an abscissa in the old layout. -/
def oldMark (isLarge : Bool) (low : UInt8) : UInt8 :=
  low ||| if isLarge then compressedFlag else 0

/-- The flag of a first byte in the present layout, at its place in the old one. -/
def oldFlag (first : UInt8) : UInt8 :=
  if first &&& largeFlag ≠ 0 then compressedFlag else 0

section

variable {low : UInt8} (isLarge : Bool)

theorem oldMark_and_not_compressedFlag (hlow : low &&& 0xE0 = 0) :
    oldMark isLarge low &&& ~~~compressedFlag = low := by
  revert low isLarge
  decide +kernel

theorem flags?_oldMark (hlow : low &&& 0xE0 = 0) : flags? (oldMark isLarge low) =
    some (compressedFlag ||| if isLarge then largeFlag else 0) := by
  revert low isLarge
  decide +kernel

theorem flagsFor_mark (low : UInt8) :
    (flagsFor isLarge).mark low = low ||| (compressedFlag ||| if isLarge then largeFlag else 0) := by
  cases isLarge <;> simp [flagsFor, Flags.mark, UInt8.or_assoc]

theorem flagsFor_mark_and_eq (hlow : low &&& 0xE0 = 0) :
    (flagsFor isLarge).mark low &&& 0xC0 = 0x80 := by
  revert low isLarge
  decide +kernel

theorem flagsFor_mark_and_not_allFlags (hlow : low &&& 0xE0 = 0) :
    (flagsFor isLarge).mark low &&& ~~~allFlags = low := by
  revert low isLarge
  decide +kernel

theorem oldFlag_flagsFor_mark (hlow : low &&& 0xE0 = 0) :
    oldFlag ((flagsFor isLarge).mark low) = if isLarge then compressedFlag else 0 := by
  revert low isLarge
  decide +kernel

end

/-- A first byte with two free bits is made of five bits and a flag. -/
theorem exists_eq_oldMark {first : UInt8} (h : first &&& 0x60 = 0) :
    ∃ isLarge low, low &&& 0xE0 = 0 ∧ first = oldMark isLarge low := by
  refine ⟨first &&& compressedFlag != 0, first &&& ~~~compressedFlag, ?_⟩
  revert first
  decide +kernel

/-- So is a first byte with the flags of a point that is not the identity. -/
theorem exists_eq_flagsFor_mark {first : UInt8} (h : first &&& 0xC0 = 0x80) :
    ∃ isLarge low, low &&& 0xE0 = 0 ∧ first = (flagsFor isLarge).mark low := by
  refine ⟨first &&& largeFlag != 0, first &&& ~~~allFlags, ?_⟩
  revert first
  decide +kernel

theorem flags?_eq_none {first : UInt8} (h : ¬ first &&& 0x60 = 0) : flags? first = none :=
  if_pos h

/-! ### Keys and signatures by their first bytes -/

/-- A key by its first byte and the others. -/
def keyOf (first : UInt8) (rest : FixedBytes 47) : KeyBytes :=
  ⟨first :: rest.toList, congrArg (· + 1) rest.length_toList⟩

/-- A signature by the first bytes of its halves and the others. -/
def signatureOf (first : UInt8) (front : FixedBytes 47) (lead : UInt8) (back : FixedBytes 47) :
    SignatureBytes :=
  ⟨(first :: front.toList) ++ lead :: back.toList,
    by simp [front.length_toList, back.length_toList]⟩

section

variable (first lead : UInt8) (rest front back : FixedBytes 47)

theorem exists_eq_keyOf (key : KeyBytes) : ∃ first rest, key = keyOf first rest := by
  obtain ⟨first, rest, hkey⟩ := List.exists_cons_of_length_eq_add_one key.length_toList
  have hrest : rest.length = 47 := by
    have hlength := key.length_toList
    rw [hkey] at hlength
    exact Nat.succ.inj hlength
  exact ⟨first, ⟨rest, hrest⟩, FixedBytes.ext hkey⟩

theorem exists_eq_signatureOf (signature : SignatureBytes) :
    ∃ first front lead back, signature = signatureOf first front lead back := by
  have htake : (signature.toList.take 48).length = 48 := by
    rw [List.length_take, signature.length_toList]
    rfl
  have hdrop : (signature.toList.drop 48).length = 48 := by
    rw [List.length_drop, signature.length_toList]
  obtain ⟨first, front, hfront⟩ := List.exists_cons_of_length_eq_add_one htake
  obtain ⟨lead, back, hback⟩ := List.exists_cons_of_length_eq_add_one hdrop
  rw [hfront] at htake
  rw [hback] at hdrop
  refine ⟨first, ⟨front, Nat.succ.inj htake⟩, lead, ⟨back, Nat.succ.inj hdrop⟩, FixedBytes.ext ?_⟩
  rw [← List.take_append_drop 48 signature.toList, hfront, hback]
  rfl

@[simp] theorem get_keyOf : (keyOf first rest).get 0 = first :=
  FixedBytes.get_eq_of_toList_eq [] rfl rfl

@[simp] theorem get_zero_signatureOf : (signatureOf first front lead back).get 0 = first :=
  FixedBytes.get_eq_of_toList_eq [] rfl rfl

@[simp] theorem get_lead_signatureOf : (signatureOf first front lead back).get 48 = lead :=
  FixedBytes.get_eq_of_toList_eq (first :: front.toList) rfl
    (congrArg (· + 1) front.length_toList)

end

/-! ### The two translations -/

/-- A key in the old layout. -/
def oldKey (key : KeyBytes) : KeyBytes :=
  ⟨key.toList.modifyHead fun first => (first &&& ~~~allFlags) ||| oldFlag first,
    by rw [List.length_modifyHead, key.length_toList]⟩

/-- A signature in the old layout: the halves are swapped, the flags cleared, and the one that is
kept is put at the top of the first byte. -/
def oldSignature (signature : SignatureBytes) : SignatureBytes :=
  ⟨(signature.toList.drop 48).modifyHead (· ||| oldFlag (signature.get 0)) ++
      (signature.toList.take 48).modifyHead (· &&& ~~~allFlags),
    by simp [signature.length_toList]⟩

section

variable (first lead : UInt8) (rest front back : FixedBytes 47)

theorem take_signatureOf :
    (signatureOf first front lead back).toList.take 48 = first :: front.toList :=
  List.take_left' (congrArg (· + 1) front.length_toList)

theorem drop_signatureOf :
    (signatureOf first front lead back).toList.drop 48 = lead :: back.toList :=
  List.drop_left' (congrArg (· + 1) front.length_toList)

theorem modernKey?_keyOf : modernKey? (keyOf first rest) =
    (flags? first).map fun flags => keyOf ((first &&& ~~~compressedFlag) ||| flags) rest := by
  rw [modernKey?, keyOf, modernKeyBytes?]
  cases flags? first with
  | none => rfl
  | some flags => exact FixedBytes.ofList?_toList (keyOf _ rest)

theorem modernSignature?_signatureOf : modernSignature? (signatureOf first front lead back) =
    (flags? first).bind fun flags => if lead &&& 0xE0 = 0
      then some (signatureOf (lead ||| flags) back (first &&& ~~~compressedFlag) front)
      else none := by
  rw [modernSignature?, take_signatureOf, drop_signatureOf, modernSignatureBytes?]
  cases flags? first with
  | none => rfl
  | some flags =>
    by_cases hlead : lead &&& 0xE0 = 0
    · have hfree : ¬ lead &&& allFlags ≠ 0 := not_not_intro hlead
      simp only [Option.bind_eq_bind, Option.bind_some, if_neg hfree, if_pos hlead]
      exact FixedBytes.ofList?_toList (signatureOf _ back _ front)
    · have hfree : lead &&& allFlags ≠ 0 := hlead
      simp only [Option.bind_eq_bind, Option.bind_some, if_pos hfree, if_neg hlead]
      rfl

theorem oldKey_keyOf :
    oldKey (keyOf first rest) = keyOf ((first &&& ~~~allFlags) ||| oldFlag first) rest :=
  rfl

theorem oldSignature_signatureOf : oldSignature (signatureOf first front lead back) =
    signatureOf (lead ||| oldFlag first) back (first &&& ~~~allFlags) front := by
  refine FixedBytes.ext ?_
  change ((signatureOf first front lead back).toList.drop 48).modifyHead _ ++
    ((signatureOf first front lead back).toList.take 48).modifyHead _ = _
  rw [take_signatureOf, drop_signatureOf, get_zero_signatureOf]
  rfl

end

section

variable {low lead : UInt8} (isLarge : Bool) (rest front back : FixedBytes 47)

/-- **A key keeps its five bits and its flag.** -/
theorem modernKey?_oldMark (hlow : low &&& 0xE0 = 0) :
    modernKey? (keyOf (oldMark isLarge low) rest) =
      some (keyOf ((flagsFor isLarge).mark low) rest) := by
  rw [modernKey?_keyOf, flags?_oldMark isLarge hlow, Option.map_some,
    oldMark_and_not_compressedFlag isLarge hlow, flagsFor_mark]

theorem oldKey_mark (hlow : low &&& 0xE0 = 0) :
    oldKey (keyOf ((flagsFor isLarge).mark low) rest) = keyOf (oldMark isLarge low) rest := by
  rw [oldKey_keyOf, flagsFor_mark_and_not_allFlags isLarge hlow,
    oldFlag_flagsFor_mark isLarge hlow, oldMark]

/-- **A signature keeps its five bits and its flag,** which come to stand in the other half. -/
theorem modernSignature?_oldMark (hlow : low &&& 0xE0 = 0) (hlead : lead &&& 0xE0 = 0) :
    modernSignature? (signatureOf (oldMark isLarge low) front lead back) =
      some (signatureOf ((flagsFor isLarge).mark lead) back low front) := by
  rw [modernSignature?_signatureOf, flags?_oldMark isLarge hlow, Option.bind_some,
    if_pos hlead, oldMark_and_not_compressedFlag isLarge hlow, flagsFor_mark]

theorem oldSignature_mark (hlead : lead &&& 0xE0 = 0) :
    oldSignature (signatureOf ((flagsFor isLarge).mark lead) back low front) =
      signatureOf (oldMark isLarge low) front lead back := by
  rw [oldSignature_signatureOf, flagsFor_mark_and_not_allFlags isLarge hlead,
    oldFlag_flagsFor_mark isLarge hlead, oldMark]

end

/-! ### Bijections -/

/-- A translation of some values that can be undone. -/
structure IsBijection {α β : Type} (translate? : α → Option β) (IsOld : α → Prop)
    (IsModern : β → Prop) (back : β → α) : Prop where
  /-- Which values can be translated. -/
  isSome_iff : ∀ a, (translate? a).isSome ↔ IsOld a
  /-- No two of them become the same. -/
  injective : ∀ {a a' b}, translate? a = some b → translate? a' = some b → a = a'
  /-- What they become. -/
  exists_iff : ∀ b, (∃ a, translate? a = some b) ↔ IsModern b
  /-- What they have been. -/
  back_eq : ∀ {a b}, translate? a = some b → back b = a

theorem IsBijection.of_forall {α β : Type} {translate? : α → Option β} {IsOld : α → Prop}
    {IsModern : β → Prop} {back : β → α} (hnone : ∀ a, ¬ IsOld a → translate? a = none)
    (hold : ∀ a, IsOld a → ∃ b, translate? a = some b ∧ IsModern b ∧ back b = a)
    (hmodern : ∀ b, IsModern b → translate? (back b) = some b) :
    IsBijection translate? IsOld IsModern back := by
  have hsome {a b} (h : translate? a = some b) : IsModern b ∧ back b = a := by
    by_cases ha : IsOld a
    · obtain ⟨b', hb', hlaws⟩ := hold a ha
      rwa [Option.some.inj (h.symm.trans hb')]
    · rw [hnone a ha] at h
      contradiction
  refine ⟨fun a => ?_, fun h h' => ?_, fun b => ?_, fun h => (hsome h).2⟩
  · constructor
    · intro h
      by_contra ha
      rw [hnone a ha] at h
      contradiction
    · intro ha
      obtain ⟨b, hb, -⟩ := hold a ha
      rw [hb]
      rfl
  · rw [← (hsome h).2, ← (hsome h').2]
  · constructor
    · rintro ⟨a, h⟩
      exact (hsome h).1
    · exact fun hb => ⟨back b, hmodern b hb⟩

theorem isBijection_modernKey? : IsBijection modernKey? (fun key => key.get 0 &&& 0x60 = 0)
    (fun key => key.get 0 &&& 0xC0 = 0x80) oldKey := by
  refine .of_forall ?none ?old ?modern
  case none =>
    intro key hfree
    obtain ⟨first, rest, rfl⟩ := exists_eq_keyOf key
    rw [get_keyOf] at hfree
    rw [modernKey?_keyOf, flags?_eq_none hfree, Option.map_none]
  case old =>
    intro key hfree
    obtain ⟨first, rest, rfl⟩ := exists_eq_keyOf key
    rw [get_keyOf] at hfree
    obtain ⟨isLarge, low, hlow, rfl⟩ := exists_eq_oldMark hfree
    refine ⟨_, modernKey?_oldMark isLarge rest hlow, ?_, oldKey_mark isLarge rest hlow⟩
    rw [get_keyOf, flagsFor_mark_and_eq isLarge hlow]
  case modern =>
    intro key hflags
    obtain ⟨first, rest, rfl⟩ := exists_eq_keyOf key
    rw [get_keyOf] at hflags
    obtain ⟨isLarge, low, hlow, rfl⟩ := exists_eq_flagsFor_mark hflags
    rw [oldKey_mark isLarge rest hlow, modernKey?_oldMark isLarge rest hlow]

theorem isBijection_modernSignature? : IsBijection modernSignature?
    (fun signature => signature.get 0 &&& 0x60 = 0 ∧ signature.get 48 &&& 0xE0 = 0)
    (fun signature => signature.get 0 &&& 0xC0 = 0x80 ∧ signature.get 48 &&& 0xE0 = 0)
    oldSignature := by
  refine .of_forall ?none ?old ?modern
  case none =>
    intro signature hfree
    obtain ⟨first, front, lead, back, rfl⟩ := exists_eq_signatureOf signature
    rw [get_zero_signatureOf, get_lead_signatureOf] at hfree
    rw [modernSignature?_signatureOf]
    by_cases hfirst : first &&& 0x60 = 0
    · cases flags? first with
      | none => rfl
      | some flags => exact if_neg fun hlead => hfree ⟨hfirst, hlead⟩
    · rw [flags?_eq_none hfirst, Option.bind_none]
  case old =>
    intro signature hfree
    obtain ⟨first, front, lead, back, rfl⟩ := exists_eq_signatureOf signature
    rw [get_zero_signatureOf, get_lead_signatureOf] at hfree
    obtain ⟨hfirst, hlead⟩ := hfree
    obtain ⟨isLarge, low, hlow, rfl⟩ := exists_eq_oldMark hfirst
    refine ⟨_, modernSignature?_oldMark isLarge front back hlow hlead, ?_,
      oldSignature_mark isLarge front back hlead⟩
    rw [get_zero_signatureOf, get_lead_signatureOf]
    exact ⟨flagsFor_mark_and_eq isLarge hlead, hlow⟩
  case modern =>
    intro signature hflags
    obtain ⟨first, front, lead, back, rfl⟩ := exists_eq_signatureOf signature
    rw [get_zero_signatureOf, get_lead_signatureOf] at hflags
    obtain ⟨hfirst, hlow⟩ := hflags
    -- the five bits of the first half have been those of the second one
    obtain ⟨isLarge, low, hlead, rfl⟩ := exists_eq_flagsFor_mark hfirst
    rw [oldSignature_mark isLarge back front hlead,
      modernSignature?_oldMark isLarge back front hlow hlead]

/-- **Old points are translated one to one.** A key can be translated exactly if two bits of its
first byte are free, and it becomes any key with the flags of a point that is not the identity. A
signature also has to have three bits free at the head of its second half, and so has what it
becomes. -/
theorem isBijection_modern :
    IsBijection modernKey? (fun key => key.get 0 &&& 0x60 = 0)
      (fun key => key.get 0 &&& 0xC0 = 0x80) oldKey ∧
    IsBijection modernSignature?
      (fun signature => signature.get 0 &&& 0x60 = 0 ∧ signature.get 48 &&& 0xE0 = 0)
      (fun signature => signature.get 0 &&& 0xC0 = 0x80 ∧ signature.get 48 &&& 0xE0 = 0)
      oldSignature :=
  ⟨isBijection_modernKey?, isBijection_modernSignature?⟩

end Legacy

end Bls

end QuorumFinality
