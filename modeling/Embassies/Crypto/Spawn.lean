import Embassies.Crypto.RecordCodec

/-!
# Comparing records and choosing their kind

This module states when the comparison of two records of one kind returns
true, and that `ZRecord::spawn` returns a record exactly when the constructor
for the type in the generic fields accepts the buffer.
-/

namespace Embassies.Crypto

open Library Library.Buffer Library.Checked RecordHeader

/-! ## Comparison -/

theorem RecordHeader.equal_iff {left right : RecordHeader} : left.equal right = true ↔
      left.owner.equals right.owner = true ∧ left.type = right.type ∧
        left.recordClass = right.recordClass ∧ left.ttl = right.ttl ∧
        left.dataLength = right.dataLength ∧ left.size = right.size := by
  simp [RecordHeader.equal, and_assoc]

theorem RecordHeader.equal_self (header : RecordHeader) : header.equal header = true := by
  simp [RecordHeader.equal_iff, DomainName.equals_self]

theorem ite_ok_false_eq_true_iff {checks : Bool} {rest : Except Halt Bool} :
    (if checks then rest else .ok false) = .ok true ↔ checks = true ∧ rest = .ok true := by
  cases checks <;> simp

theorem ZPubKeyRecord.isEqual_eq_true_iff {left right : ZPubKeyRecord} :
    left.isEqual right = .ok true ↔
      left.header.equal right.header = true ∧ right.header.type = typeKey ∧
        left.flags = right.flags ∧ left.protocol = right.protocol ∧
        left.algorithm = right.algorithm ∧
        compareBytes (sub32 left.header.dataLength.toNat 4) left.key right.key = .ok true := by
  rw [ZPubKeyRecord.isEqual, ite_ok_false_eq_true_iff]
  simp only [Bool.and_eq_true, beq_iff_eq, and_assoc]

theorem ZSigRecord.isEqual_eq_true_iff {left right : ZSigRecord} : left.isEqual right = .ok true ↔
      left.header.equal right.header = true ∧ right.header.type = typeSig ∧
        left.typeCovered = right.typeCovered ∧
        left.algorithm = right.algorithm ∧ left.labels = right.labels ∧
        left.originalTtl = right.originalTtl ∧ left.expires = right.expires ∧
        left.inception = right.inception ∧ left.keyTag = right.keyTag ∧
        left.signerName.equals right.signerName = true ∧
        compareBytes (sub32 left.header.dataLength.toNat left.headerSize)
          left.sigBytes right.sigBytes = .ok true := by
  rw [ZSigRecord.isEqual, ite_ok_false_eq_true_iff]
  simp only [Bool.and_eq_true, beq_iff_eq, and_assoc]

theorem ZBinaryRecord.isEqual_eq_true_iff {left right : ZBinaryRecord} :
    left.isEqual right = .ok true ↔
      left.header.equal right.header = true ∧ right.header.type = typeBinary ∧
        left.flags = right.flags ∧ left.digestType = right.digestType ∧
        compareBytes (sub32 left.header.dataLength.toNat 4) left.digest
          right.digest = .ok true := by
  rw [ZBinaryRecord.isEqual, ite_ok_false_eq_true_iff]
  simp only [Bool.and_eq_true, beq_iff_eq, and_assoc]

/-! ## Spawning -/

variable {memory : List UInt8} {size : Nat} {record : ZRecord}

theorem ZBinaryRecord.header_of_parse {record : ZBinaryRecord}
    (parsed : ZBinaryRecord.parse memory size = .ok record) :
    ∃ rest, RecordHeader.parse memory size = .ok (record.header, rest) := by
  obtain ⟨wire, tail, rfl, owned, consistent, fits, -⟩ := ZBinaryRecord.parse_eq_ok_iff.mp parsed
  exact ⟨_, RecordHeader.parse_eq_ok_iff.mpr ⟨wire, rfl, owned, consistent, fits⟩⟩

theorem ZSigRecord.header_of_parse {record : ZSigRecord}
    (parsed : ZSigRecord.parse memory size = .ok record) :
    ∃ rest, RecordHeader.parse memory size = .ok (record.header, rest) := by
  obtain ⟨wire, signer, sig, tail, rfl, owned, -, -, consistent, fits, -⟩ :=
    ZSigRecord.parse_eq_ok_iff.mp parsed
  exact ⟨_, RecordHeader.parse_eq_ok_iff.mpr ⟨wire, rfl, owned, consistent, fits⟩⟩

theorem ZPubKeyRecord.header_of_parse {record : ZPubKeyRecord}
    (parsed : ZPubKeyRecord.parse memory size = .ok record) :
    ∃ rest, RecordHeader.parse memory size = .ok (record.header, rest) := by
  obtain ⟨wire, tail, rfl, owned, consistent, fits, -⟩ := ZPubKeyRecord.parse_eq_ok_iff.mp parsed
  exact ⟨_, RecordHeader.parse_eq_ok_iff.mpr ⟨wire, rfl, owned, consistent, fits⟩⟩

theorem ZKeyLinkRecord.header_of_parse {record : ZKeyLinkRecord}
    (parsed : ZKeyLinkRecord.parse memory size = .ok record) :
    ∃ rest, RecordHeader.parse memory size = .ok (record.header, rest) := by
  obtain ⟨wire, rest, rfl, owned, consistent, fits, -⟩ := ZKeyLinkRecord.parse_eq_ok_iff.mp parsed
  exact ⟨_, RecordHeader.parse_eq_ok_iff.mpr ⟨wire, rfl, owned, consistent, fits⟩⟩

namespace ZRecord

/-- The constructor of the record's kind accepts the buffer. -/
def ParsedFrom (memory : List UInt8) (size : Nat) : ZRecord → Prop
  | .binary record =>
    ZBinaryRecord.parse memory size = .ok record ∧
      record.header.type = typeBinary
  | .sig record =>
    ZSigRecord.parse memory size = .ok record ∧ record.header.type = typeSig
  | .key record =>
    ZPubKeyRecord.parse memory size = .ok record ∧
      record.header.type = typeKey
  | .delegation _ => False
  | .keyLink record =>
    ZKeyLinkRecord.parse memory size = .ok record ∧
      record.header.type = typeKeyLink

theorem spawn_of_header {rest : List UInt8} {header : RecordHeader}
    (parsed : RecordHeader.parse memory size = .ok (header, rest)) :
    spawn memory size = spawnAs header.type memory size := by
  obtain ⟨wire, rfl, owned, consistent, fits⟩ := RecordHeader.parse_eq_ok_iff.mp parsed
  rw [Consistent, owned, WireName.toDomainName_size, RecordHeader.constSize] at consistent
  have named : DomainName.ofWire (wire.encode ++ (header.fields ++ rest)) size =
        .ok wire.toDomainName :=
    DomainName.ofWire_eq_ok_iff.mpr ⟨wire, _, rfl, by omega, rfl⟩
  rw [spawn, named, ok_bind, WireName.toDomainName_size,
    ensure_true (by omega), ok_bind, List.drop_left, RecordHeader.fields]
  have read : ∀ rest, parseShort (short header.type ++ rest) = .ok (header.type, rest) :=
    fun rest => parseShort_eq_ok_iff.mpr rfl
  simp only [List.append_assoc, read, ok_bind]

theorem ParsedFrom.header (parsed : record.ParsedFrom memory size) :
    ∃ rest, RecordHeader.parse memory size = .ok (record.header, rest) := by
  cases record with
  | binary record => exact ZBinaryRecord.header_of_parse parsed.1
  | sig record => exact ZSigRecord.header_of_parse parsed.1
  | key record => exact ZPubKeyRecord.header_of_parse parsed.1
  | delegation record => exact parsed.elim
  | keyLink record => exact ZKeyLinkRecord.header_of_parse parsed.1

theorem spawnAs_eq_some {type : UInt16} (spawned : spawnAs type memory size = .ok (some record)) :
    (type = typeBinary ∧ ∃ binary, record = .binary binary ∧
        ZBinaryRecord.parse memory size = .ok binary) ∨
      (type = typeSig ∧ ∃ sig, record = .sig sig ∧ ZSigRecord.parse memory size = .ok sig) ∨
      (type = typeKey ∧ ∃ key, record = .key key ∧ ZPubKeyRecord.parse memory size = .ok key) ∨
      (type = typeKeyLink ∧ ∃ link, record = .keyLink link ∧
        ZKeyLinkRecord.parse memory size = .ok link) := by
  unfold spawnAs at spawned
  split at spawned
  · obtain ⟨binary, read, returned⟩ := of_bind spawned
    cases returned
    exact .inl ⟨‹_›, binary, rfl, read⟩
  · split at spawned
    · obtain ⟨sig, read, returned⟩ := of_bind spawned
      cases returned
      exact .inr (.inl ⟨‹_›, sig, rfl, read⟩)
    · split at spawned
      · obtain ⟨key, read, returned⟩ := of_bind spawned
        cases returned
        exact .inr (.inr (.inl ⟨‹_›, key, rfl, read⟩))
      · split at spawned
        · obtain ⟨delegation, read, -⟩ := of_bind spawned
          exact absurd read (ZDelegationRecord.parse_ne_ok _ _ _)
        · split at spawned
          · obtain ⟨link, read, returned⟩ := of_bind spawned
            cases returned
            exact .inr (.inr (.inr ⟨‹_›, link, rfl, read⟩))
          · cases spawned

theorem header_of_spawn (spawned : spawn memory size = .ok (some record)) :
    ∃ rest, RecordHeader.parse memory size = .ok (record.header, rest) := by
  obtain ⟨owner, -, checked⟩ := of_bind spawned
  obtain ⟨_, -, typed⟩ := of_bind checked
  obtain ⟨⟨type, rest⟩, -, switched⟩ := of_bind typed
  rcases spawnAs_eq_some switched with
    ⟨-, binary, rfl, read⟩ | ⟨-, sig, rfl, read⟩ | ⟨-, key, rfl, read⟩ |
      ⟨-, link, rfl, read⟩
  · exact ZBinaryRecord.header_of_parse read
  · exact ZSigRecord.header_of_parse read
  · exact ZPubKeyRecord.header_of_parse read
  · exact ZKeyLinkRecord.header_of_parse read

/-- `spawn` returns the record that the constructor of its type reads. -/
theorem spawn_eq_some_iff :
    spawn memory size = .ok (some record) ↔ record.ParsedFrom memory size := by
  constructor
  · intro spawned
    obtain ⟨rest, readHeader⟩ := header_of_spawn spawned
    rw [spawn_of_header readHeader] at spawned
    rcases spawnAs_eq_some spawned with
      ⟨type, binary, rfl, read⟩ | ⟨type, sig, rfl, read⟩ |
        ⟨type, key, rfl, read⟩ | ⟨type, link, rfl, read⟩
    · exact ⟨read, type⟩
    · exact ⟨read, type⟩
    · exact ⟨read, type⟩
    · exact ⟨read, type⟩
  · intro parsed
    obtain ⟨rest, readHeader⟩ := parsed.header
    rw [spawn_of_header readHeader]
    cases record with
    | binary record =>
      obtain ⟨read, type⟩ := parsed
      rw [show (ZRecord.binary record).header.type = typeBinary from type]
      simp [spawnAs, read]
    | sig record =>
      obtain ⟨read, type⟩ := parsed
      rw [show (ZRecord.sig record).header.type = typeSig from type]
      simp [spawnAs, read, typeSig, typeBinary]
    | key record =>
      obtain ⟨read, type⟩ := parsed
      rw [show (ZRecord.key record).header.type = typeKey from type]
      simp [spawnAs, read, typeKey, typeSig, typeBinary]
    | delegation record => exact parsed.elim
    | keyLink record =>
      obtain ⟨read, type⟩ := parsed
      rw [show (ZRecord.keyLink record).header.type = typeKeyLink from type]
      simp [spawnAs, read, typeKeyLink, typeDelegation, typeKey, typeSig, typeBinary]

end ZRecord

end Embassies.Crypto
