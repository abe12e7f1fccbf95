import QuorumFinality.Json.Quorums
import QuorumFinality.OrderedMap.Lemmas
import QuorumFinality.Proofs.Json.Lawful
import QuorumFinality.Proofs.Text.Address

/-!
# A masternode list is read back from its JSON text

The JSON form of a list is read back part by part. A structure needs only that its parts are read
back and that its fields have different names; a choice needs that its name is not one of another.
The keys of a map are texts, which are read back, and reading a map puts its members in order, which
they are in already. Nothing is asked of the values: texts of errors may hold any characters, bytes
and numbers are any of their size, and addresses are of either family.

## Main results

* `OrderedMap.ofJsonWith?_toJsonWith` — a map is read back if its keys are
* `MasternodeList.read?_write` — a list is read back, whatever it holds
-/

namespace QuorumFinality

open JsonCodec JsonValue

/-! ### Values that are texts -/

instance {role : HashRole} : LawfulJson (Hash role) where
  ofJson?_toJson h := by
    change (Hash.ofText? h.text).toOption = some h
    rw [Hash.ofText?_text]
    rfl

instance : LawfulJson KeyBytes where
  ofJson?_toJson key := by
    change (KeyBytes.ofText? key.text).toOption = some key
    rw [KeyBytes.ofText?, FixedBytes.ofText?_text]
    rfl

instance : LawfulJson SignatureBytes where
  ofJson?_toJson signature := by
    change (SignatureBytes.ofText? signature.text).toOption = some signature
    rw [SignatureBytes.ofText?, FixedBytes.ofText?_text]
    rfl

instance : LawfulJson IpAddress where
  ofJson?_toJson := IpAddress.ofText?_text

instance {role : HashRole} : NeverNull (Hash role) where
  toJson_ne_null _ := nofun

instance : NeverNull SignatureBytes where
  toJson_ne_null _ := nofun

/-! ### Names

No two choices of one of these types have the same name, so each is found again by its own. -/

instance : LawfulJson Network where
  ofJson?_toJson network := by cases network <;> rfl

instance : LawfulJson QuorumType where
  ofJson?_toJson type := by cases type <;> rfl

instance : LawfulJson TransactionType where
  ofJson?_toJson type := by cases type <;> rfl

/-! ### Transactions

The fields of a structure have different names, which is decided, and are then read back one by one;
a choice with content hands its content on. -/

instance : LawfulJson OutPoint where
  ofJson?_toJson _ := (bind_fields?_ofMembers (by simp) _).trans (by simp)

instance : LawfulJson TxIn where
  ofJson?_toJson _ := (bind_fields?_ofMembers (by simp) _).trans (by simp)

instance : LawfulJson TxOut where
  ofJson?_toJson _ := (bind_fields?_ofMembers (by simp) _).trans (by simp)

instance : LawfulJson CoinbasePayload where
  ofJson?_toJson _ := (bind_fields?_ofMembers (by simp) _).trans (by simp)

instance : LawfulJson TransactionPayload where
  ofJson?_toJson
    | .coinbase _ => (bind_variant?_ofVariant _ _ _).trans (by simp)
    | .raw _ _ =>
      (bind_variant?_ofVariant _ _ _).trans
        ((bind_fields?_ofMembers (by simp) _).trans (by simp))

instance : NeverNull TransactionPayload where
  toJson_ne_null payload := by cases payload <;> nofun

instance : LawfulJson Transaction where
  ofJson?_toJson _ := (bind_fields?_ofMembers (by simp) _).trans (by simp)

instance : NeverNull Transaction where
  toJson_ne_null _ := nofun

/-! ### Masternodes -/

instance : LawfulJson ServiceAddress where
  ofJson?_toJson _ := (bind_fields?_ofMembers (by simp) _).trans (by simp)

instance : LawfulJson MasternodeEntry where
  ofJson?_toJson _ := (bind_fields?_ofMembers (by simp) _).trans (by simp)

instance : LawfulJson Masternode where
  ofJson?_toJson _ := (bind_fields?_ofMembers (by simp) _).trans (by simp)

/-! ### Quorums -/

instance : LawfulJson LegacyQuorumEntry where
  ofJson?_toJson _ := (bind_fields?_ofMembers (by simp) _).trans (by simp)

instance : LawfulJson FullQuorumEntry where
  ofJson?_toJson _ := (bind_fields?_ofMembers (by simp) _).trans (by simp)

instance : LawfulJson QuorumEntry where
  ofJson?_toJson
    | .legacy _ => (bind_variant?_ofVariant _ _ _).trans (by simp)
    | .full _ => (bind_variant?_ofVariant _ _ _).trans (by simp)

instance : LawfulJson QuorumFault where
  ofJson?_toJson
    | .wrongList _ _ =>
      (bind_variant?_ofVariant _ _ _).trans
        ((bind_fields?_ofMembers (by simp) _).trans (by simp))
    | .outdatedEncoding => rfl
    | .noSigners => rfl
    | .publicKey _ => (bind_variant?_ofVariant _ _ _).trans (by simp)
    | .signature _ => (bind_variant?_ofVariant _ _ _).trans (by simp)
    | .membersSignature _ => (bind_variant?_ofVariant _ _ _).trans (by simp)
    | .thresholdSignature _ => (bind_variant?_ofVariant _ _ _).trans (by simp)

instance : LawfulJson SkipReason where
  ofJson?_toJson
    | .notMarked => rfl
    | .missedList _ => (bind_variant?_ofVariant _ _ _).trans (by simp)
    | .other _ => (bind_variant?_ofVariant _ _ _).trans (by simp)

instance : LawfulJson VerificationStatus where
  ofJson?_toJson
    | .unknown => rfl
    | .verified => rfl
    | .skipped _ => (bind_variant?_ofVariant _ _ _).trans (by simp)
    | .invalid _ => (bind_variant?_ofVariant _ _ _).trans (by simp)

instance : LawfulJson Quorum where
  ofJson?_toJson _ := (bind_fields?_ofMembers (by simp) _).trans (by simp)

/-! ### Maps and lists -/

/-- **A map is read back** if its keys are read back from their texts. -/
theorem OrderedMap.ofJsonWith?_toJsonWith {κ α : Type} [Ord κ] [Std.TransOrd κ]
    [Std.LawfulEqOrd κ] [JsonCodec α] [LawfulJson α] {keyText : κ → String}
    {keyOf? : String → Option κ} (h : ∀ k, keyOf? (keyText k) = some k) (m : OrderedMap κ α) :
    OrderedMap.ofJsonWith? keyOf? (m.toJsonWith keyText) = some m := by
  rw [toJsonWith, ofMembers, ofJsonWith?, List.map_map, List.mapM_map,
    mapM_eq_some_map (g := id)]
  · rw [List.map_id]
    exact congrArg some (OrderedMap.ofList_entries m)
  · intro e _
    simp [h]

instance : LawfulJson MasternodeMap where
  ofJson?_toJson := OrderedMap.ofJsonWith?_toJsonWith fun h => by
    rw [Hash.ofText?_text]
    rfl

instance : LawfulJson QuorumMap where
  ofJson?_toJson := OrderedMap.ofJsonWith?_toJsonWith fun type => by cases type <;> rfl

instance : LawfulJson CoinbaseProof where
  ofJson?_toJson _ := (bind_fields?_ofMembers (by simp) _).trans (by simp)

instance : NeverNull CoinbaseProof where
  toJson_ne_null _ := nofun

instance : LawfulJson MasternodeList where
  ofJson?_toJson _ := (bind_fields?_ofMembers (by simp) _).trans (by simp)

/-- **A masternode list is read back from its JSON text,** whatever it holds. -/
theorem MasternodeList.read?_write (l : MasternodeList) : read? (write l) = some l :=
  read?_write_of_lawful l

/-! ### Locks and configurations -/

instance : LawfulJson ChainLock where
  ofJson?_toJson _ := (bind_fields?_ofMembers (by simp) _).trans (by simp)

instance : LawfulJson InstantLock where
  ofJson?_toJson _ := (bind_fields?_ofMembers (by simp) _).trans (by simp)

instance : LawfulJson StoreConfig where
  ofJson?_toJson _ := (bind_fields?_ofMembers (by simp) _).trans (by simp)

end QuorumFinality
