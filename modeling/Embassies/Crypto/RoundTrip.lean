import Embassies.Crypto.CanonicalRecord
import Embassies.Crypto.Spawn

/-!
# Which records survive serialization

A record survives when its serializer fills a buffer of the record's size and
`ZRecord::spawn`, given exactly those bytes, returns an equal record.  This
module settles for every record whether it does.

Binary records never survive, since the parser reads one byte more than the
serializer wrote.  Key links never do, since their serializer returns the
length of the last key.  Delegation records are never accepted by the parser.
Signature and key records survive exactly when their names are canonical and
their recorded size is right.
-/

namespace Embassies.Crypto

open Library Library.Buffer Library.Checked RecordHeader List DomainName ZPubKeyRecord ZRecord

/-! ## Survival -/

namespace ZRecord

/-- The record can be written and read back: its serializer fills a buffer of
its size, whatever the buffer held, and `spawn` on those bytes alone returns a
record that is equal in either order of comparison. -/
def RoundTrips (record : ZRecord) : Prop :=
  ∃ bytes, bytes.length = record.size ∧
    (∀ garbage, garbage.length = record.size →
      record.serialize garbage 0 = .ok (bytes, record.size)) ∧
    ∃ again, spawn bytes record.size = .ok (some again) ∧
      record.isEqual again = .ok true ∧ again.isEqual record = .ok true

/-- What a record that survives looks like. -/
def Faithful : ZRecord → Prop
  | .sig record =>
    record.header.type = typeSig ∧ record.header.Consistent ∧
      record.headerSize ≤ record.header.dataLength.toNat ∧
      record.header.dataLength.toNat - record.headerSize ≤
        record.sigBytes.length ∧
      record.header.owner.Canonical ∧ record.signerName.Canonical
  | .key record =>
    record.header.type = typeKey ∧ record.header.Consistent ∧
      4 ≤ record.header.dataLength.toNat ∧
      record.header.dataLength.toNat - 4 ≤ record.key.length ∧
      record.header.owner.Canonical
  | _ => False

end ZRecord

theorem compareBytes_take_self {count : Nat} {bytes : List UInt8} (enough : count ≤ bytes.length) :
    compareBytes count bytes (bytes.take count) = .ok true ∧
      compareBytes count (bytes.take count) bytes = .ok true := by
  simp [compareBytes_eq_ok_true_iff, enough]

variable {record : ZPubKeyRecord}

theorem ZPubKeyRecord.roundTrips (faithful : (ZRecord.key record).Faithful) :
    (ZRecord.key record).RoundTrips := by
  obtain ⟨type, consistent, four, enough, canonical⟩ := faithful
  obtain ⟨wire, owned, encoded⟩ := canonical.exists_wire
  have bounded := record.header.dataLength.toNat_lt
  have compared : sub32 record.header.dataLength.toNat 4 =
      record.header.dataLength.toNat - 4 := sub32_of_le four (by omega)
  have taken := length_take_of_le enough
  have length : (record.header.encodeWith record.fields record.key).length = record.header.size :=
    (encodeWith_length canonical record.fields_length four enough).trans consistent.symm
  refine ⟨_, length, fun garbage size => ?_, .key ⟨record.header, record.flags, record.protocol,
    record.algorithm, record.key.take (record.header.dataLength.toNat - 4)⟩, ?_, ?_, ?_⟩
  · have size : garbage.length = record.header.size := size
    rw [ZRecord.serialize, serialize_eq_serializeWith,
      serializeWith_canonical canonical record.fields_length four enough, store_eq_ok_iff]
    exact ⟨by omega, (patch_whole (by omega)).symm, consistent⟩
  · rw [spawn_eq_some_iff]
    refine ⟨ZPubKeyRecord.parse_eq_ok_iff.mpr ⟨wire, [], ?_, owned, consistent, le_rfl, ?_⟩, type⟩
    · simp [encodeWith, RecordHeader.encode, encoded, fields]
    · rw [taken]
      show record.header.dataLength.toNat = _
      omega
  · refine ZPubKeyRecord.isEqual_eq_true_iff.mpr ⟨equal_self _, type, rfl, rfl, rfl, ?_⟩
    rw [compared]
    exact (compareBytes_take_self enough).1
  · refine ZPubKeyRecord.isEqual_eq_true_iff.mpr ⟨equal_self _, type, rfl, rfl, rfl, ?_⟩
    rw [compared]
    exact (compareBytes_take_self enough).2

theorem ZSigRecord.roundTrips {record : ZSigRecord} (faithful : (ZRecord.sig record).Faithful) :
    (ZRecord.sig record).RoundTrips := by
  obtain ⟨type, consistent, head, enough, canonical, signerCanonical⟩ := faithful
  obtain ⟨wire, owned, encoded⟩ := canonical.exists_wire
  obtain ⟨signer, signed, signerEncoded⟩ := signerCanonical.exists_wire
  have bounded := record.header.dataLength.toNat_lt
  have compared : sub32 record.header.dataLength.toNat record.headerSize =
      record.header.dataLength.toNat - record.headerSize :=
    sub32_of_le head (by omega)
  have headSize : record.headerSize = ZSigRecord.constSize + signer.encode.length := by
    rw [headerSize, signed, signer.toDomainName_size]
  have taken := length_take_of_le enough
  have length : (record.header.encode ++ (record.encodeHead ++ record.sigBytes.take
      (record.header.dataLength.toNat - record.headerSize))).length = record.header.size := by
    simp only [length_append, RecordHeader.encode_length canonical,
      encodeHead_length signerCanonical, taken]
    rw [consistent, Nat.add_sub_cancel' head]
  refine ⟨_, length, fun garbage size => ?_, .sig ⟨record.header, record.typeCovered,
    record.algorithm, record.labels, record.originalTtl, record.expires, record.inception,
    record.keyTag, record.signerName, some (record.sigBytes.take
      (record.header.dataLength.toNat - record.headerSize))⟩, ?_, ?_, ?_⟩
  · have size : garbage.length = record.header.size := size
    rw [ZRecord.serialize, ZSigRecord.serialize_taken signerCanonical canonical head enough,
      store_eq_ok_iff]
    exact ⟨by omega, (patch_whole (by omega)).symm, consistent⟩
  · rw [spawn_eq_some_iff]
    refine ⟨ZSigRecord.parse_eq_ok_iff.mpr ⟨wire, signer, _, [], ?_, owned,
      signed, rfl, consistent, le_rfl, ?_⟩, type⟩
    · simp [encodeHead, RecordHeader.encode, encoded, signerEncoded, fields]
    · show record.header.dataLength.toNat = _
      omega
  · refine ZSigRecord.isEqual_eq_true_iff.mpr ⟨equal_self _, type,
      rfl, rfl, rfl, rfl, rfl, rfl, rfl, equals_self _, ?_⟩
    rw [compared]
    exact (compareBytes_take_self enough).1
  · refine ZSigRecord.isEqual_eq_true_iff.mpr ⟨equal_self _, type,
      rfl, rfl, rfl, rfl, rfl, rfl, rfl, equals_self _, ?_⟩
    show compareBytes (sub32 record.header.dataLength.toNat record.headerSize) _ _ = _
    rw [compared]
    exact (compareBytes_take_self enough).2

/-! ## Nothing else survives -/

theorem ZPubKeyRecord.faithful_of_roundTrips (survives : (ZRecord.key record).RoundTrips) :
    (ZRecord.key record).Faithful := by
  obtain ⟨bytes, length, written, again, spawned, forth, back⟩ := survives
  have size : (ZRecord.key record).size = record.header.size := rfl
  have stored := written (List.replicate record.header.size 0) (by simp [size])
  rw [ZRecord.serialize, serialize_eq_serializeWith] at stored
  have enough := serializeWith_enough stored
  rw [serializeWith_eq_store record.fields_length enough, store_eq_ok_iff] at stored
  obtain ⟨room, rfl, consistent⟩ := stored
  have taken := length_take_of_le enough
  simp only [RecordHeader.body, length_append, length_replicate,
    written_length, RecordHeader.fields_length, fields_length, taken] at room
  have bounded := record.header.dataLength.toNat_lt
  have four : 4 ≤ record.header.dataLength.toNat := by
    omega
  have data := sub16_of_le four bounded
  rw [patch_whole (by
    simp only [RecordHeader.body, length_append, length_replicate,
      written_length, RecordHeader.fields_length, fields_length, taken]
    omega)] at spawned
  rw [spawn_eq_some_iff] at spawned
  cases again with
  | key again =>
    obtain ⟨wire, tail, read, owned, -⟩ := ZPubKeyRecord.parse_eq_ok_iff.mp spawned.1
    obtain ⟨sameHeader, -⟩ := ZPubKeyRecord.isEqual_eq_true_iff.mp forth
    obtain ⟨-, type, -⟩ := ZPubKeyRecord.isEqual_eq_true_iff.mp back
    have sameOwner := (equal_iff.mp sameHeader).1
    rw [owned] at sameOwner
    have canonical := (written_canonical rfl (by simp; omega) read sameOwner).1
    exact ⟨type, consistent, four, by omega, canonical⟩
  | _ => cases forth

theorem ZSigRecord.faithful_of_roundTrips
    {record : ZSigRecord} (survives : (ZRecord.sig record).RoundTrips) :
    (ZRecord.sig record).Faithful := by
  obtain ⟨bytes, length, written, again, spawned, forth, back⟩ := survives
  have size : (ZRecord.sig record).size = record.header.size := rfl
  have stored := written (List.replicate record.header.size 0) (by simp [size])
  rw [ZRecord.serialize] at stored
  have enough := serialize_enough stored
  rw [serialize_eq_store enough, store_eq_ok_iff] at stored
  obtain ⟨room, rfl, consistent⟩ := stored
  have taken := length_take_of_le enough
  have headSize : record.headerSize = ZSigRecord.constSize + record.signerName.size := rfl
  simp only [body, length_append, length_replicate, written_length,
    RecordHeader.fields_length, fields_length, taken] at room
  have bounded := record.header.dataLength.toNat_lt
  have head : record.headerSize ≤ record.header.dataLength.toNat := by
    omega
  have data := sub16_of_le head bounded
  rw [patch_whole (by
    simp only [body, length_append, length_replicate, written_length,
      RecordHeader.fields_length, fields_length, taken]
    omega)] at spawned
  rw [spawn_eq_some_iff] at spawned
  cases again with
  | sig again =>
    obtain ⟨wire, signer, sig, tail, read, owned, signerRead, -⟩ :=
      ZSigRecord.parse_eq_ok_iff.mp spawned.1
    obtain ⟨sameHeader, -, -, -, -, -, -, -, -, sameSigner, -⟩ :=
      ZSigRecord.isEqual_eq_true_iff.mp forth
    obtain ⟨-, type, -⟩ := ZSigRecord.isEqual_eq_true_iff.mp back
    have sameOwner := (equal_iff.mp sameHeader).1
    rw [owned] at sameOwner
    rw [signerRead] at sameSigner
    obtain ⟨canonical, same⟩ := written_canonical rfl (by simp; omega) read sameOwner
    rw [same, body] at read
    obtain ⟨-, -, -, -, read⟩ := RecordHeader.fields_append_inj (append_cancel_left read)
    obtain ⟨-, -, -, -, -, -, -, read⟩ := fields_append_inj read
    have length : 0 + (wire.encode ++ (record.header.fields ++ record.fields)).length =
        0 + (record.header.owner.size + RecordHeader.constSize) + ZSigRecord.constSize := by
      rw [← same]
      simp only [length_append, written_length, RecordHeader.fields_length, fields_length]
      omega
    have signerCanonical := (written_canonical (drop_patch_replicate (by omega) length)
      (by rw [patch_length] <;> rw [length_replicate] <;> omega) read sameSigner).1
    exact ⟨type, consistent, head, by omega, canonical, signerCanonical⟩
  | _ => cases forth

/-- No binary record survives: its parser reads more than its size. -/
theorem ZBinaryRecord.not_roundTrips (record : ZBinaryRecord) :
    ¬ (ZRecord.binary record).RoundTrips := by
  rintro ⟨bytes, length, -, again, spawned, forth, -⟩
  rw [spawn_eq_some_iff] at spawned
  cases again with
  | binary again =>
    obtain ⟨wire, tail, rfl, owned, consistent, fits, digest⟩ :=
      ZBinaryRecord.parse_eq_ok_iff.mp spawned.1
    obtain ⟨sameHeader, -⟩ := ZBinaryRecord.isEqual_eq_true_iff.mp forth
    have sameSize : record.header.size = again.header.size := (equal_iff.mp sameHeader).2.2.2.2.2
    have size : (ZRecord.binary record).size = record.header.size := rfl
    have bounded := again.header.dataLength.toNat_lt
    rw [Consistent, owned, wire.toDomainName_size] at consistent
    simp only [length_append, RecordHeader.fields_length, fields_length, digest, size] at length
    unfold sub16 at length
    omega
  | _ => cases forth

/-- No delegation record survives: the parser accepts none. -/
theorem ZDelegationRecord.not_roundTrips (record : ZDelegationRecord) :
    ¬ (ZRecord.delegation record).RoundTrips := by
  rintro ⟨bytes, length, -, again, spawned, forth, -⟩
  rw [spawn_eq_some_iff] at spawned
  cases again with
  | delegation again => exact spawned
  | _ => cases forth

theorem ZPubKeyRecord.serialize_count {buffer after : List UInt8} {base count : Nat}
    (stored : record.serialize buffer base = .ok (after, count)) :
    base + count ≤ buffer.length ∧ after.length = buffer.length := by
  rw [serialize_eq_serializeWith] at stored
  have enough := serializeWith_enough stored
  rw [serializeWith_eq_store record.fields_length enough, store_eq_ok_iff] at stored
  obtain ⟨fits, rfl, rfl⟩ := stored
  have taken := length_take_of_le enough
  have bounded := record.header.dataLength.toNat_lt
  refine ⟨?_, patch_length fits⟩
  simp only [RecordHeader.body, length_append, written_length,
    RecordHeader.fields_length, fields_length, taken] at fits
  unfold sub16 at fits
  omega

/-- No key link survives: its serializer returns less than its size. -/
theorem ZKeyLinkRecord.not_roundTrips (record : ZKeyLinkRecord) :
    ¬ (ZRecord.keyLink record).RoundTrips := by
  rintro ⟨bytes, -, written, -⟩
  have stored := written (List.replicate record.header.size 0) (by
    rw [length_replicate]
    rfl)
  simp only [ZRecord.serialize, ZKeyLinkRecord.serialize, bind_eq_ok_iff, Prod.exists] at stored
  obtain ⟨first, headerLen, header, second, speakerLen, speaker, spokenFor⟩ := stored
  rw [RecordHeader.serialize_eq_store, store_eq_ok_iff] at header
  obtain ⟨fits, rfl, rfl⟩ := header
  have firstLength := patch_length fits
  rw [length_replicate] at fits firstLength
  obtain ⟨speakerFits, secondLength⟩ := serialize_count speaker
  obtain ⟨spokenForFits, -⟩ := serialize_count spokenFor
  have size : (ZRecord.keyLink record).size = record.header.size := rfl
  have const : RecordHeader.constSize = 10 := rfl
  omega

/-- A record survives exactly when it is faithful. -/
theorem ZRecord.roundTrips_iff_faithful (record : ZRecord) :
    record.RoundTrips ↔ record.Faithful := by
  cases record with
  | sig record =>
    exact ⟨ZSigRecord.faithful_of_roundTrips, ZSigRecord.roundTrips⟩
  | key record =>
    exact ⟨ZPubKeyRecord.faithful_of_roundTrips, ZPubKeyRecord.roundTrips⟩
  | binary record | delegation record | keyLink record =>
    exact iff_of_false record.not_roundTrips id

/-- A binary record with one digest byte is accepted together with the byte
after it, is fifteen bytes long when written, and cannot be read from these. -/
theorem ZBinaryRecord.short_digest_does_not_survive : ∃ record,
      ZRecord.spawn [0, 0, 16, 0, 1, 0, 0, 0, 0, 0, 4, 0, 0, 0, 1, 99] 16 = .ok (some record) ∧
        record.serialize (List.replicate 15 0) 0 =
          .ok ([0, 0, 16, 0, 1, 0, 0, 0, 0, 0, 4, 0, 0, 0, 1], 15) ∧
        ZRecord.spawn [0, 0, 16, 0, 1, 0, 0, 0, 0, 0, 4, 0, 0, 0, 1] 15 =
          .error (.fault .outOfBoundsRead) ∧
        ¬ record.RoundTrips :=
  ⟨.binary ⟨⟨WireName.root.toDomainName, 16, 1, 0, 4, 15⟩, 0, 1, [99]⟩,
    by decide, by decide, by decide, ZBinaryRecord.not_roundTrips _⟩

end Embassies.Crypto
