import Embassies.Crypto.NameCodec
import Embassies.Crypto.Record

/-!
# The layout of records

For each kind of record this module states what a buffer must look like for
the parsing constructor to accept it, and what a serializer leaves in its
buffer.  Both are equivalences, so that later results about reading, writing
or comparing records do not look into the code of the constructors and
serializers again.
-/

namespace Embassies.Crypto

open Library Library.Buffer Library.Checked List DomainName WireName

variable {memory buffer leftTail rightTail : List UInt8} {size base : Nat}

namespace RecordHeader

/-- The recorded size counts the name, the generic fields and the data. -/
def Consistent (header : RecordHeader) : Prop :=
  header.size = header.owner.size + constSize + header.dataLength.toNat

instance (header : RecordHeader) : Decidable header.Consistent :=
  inferInstanceAs (Decidable (_ = _))

@[simp]
theorem fields_length (header : RecordHeader) : header.fields.length = constSize := by
  simp [fields, constSize]

theorem fields_append_inj {left right : RecordHeader}
    (equal : left.fields ++ leftTail = right.fields ++ rightTail) :
    left.type = right.type ∧ left.recordClass = right.recordClass ∧
      left.ttl = right.ttl ∧ left.dataLength = right.dataLength ∧
      leftTail = rightTail := by
  obtain ⟨type, equal⟩ := short_append_inj equal
  obtain ⟨recordClass, equal⟩ := short_append_inj equal
  obtain ⟨ttl, equal⟩ := int_append_inj equal
  obtain ⟨dataLength, equal⟩ := short_append_inj equal
  exact ⟨type, recordClass, ttl, dataLength, equal⟩

/-- A buffer is accepted when it starts with a name and the generic fields and
has the size that they announce. -/
theorem parse_eq_ok_iff {rest : List UInt8} {header : RecordHeader} :
    RecordHeader.parse memory size = .ok (header, rest) ↔ ∃ wire : WireName,
        memory = wire.encode ++ (header.fields ++ rest) ∧
        header.owner = wire.toDomainName ∧ header.Consistent ∧
        header.size ≤ size := by
  simp only [RecordHeader.parse, bind_eq_ok_iff, ofWire_eq_ok_iff,
    Prod.exists, ensure_eq_ok_iff, parseShort_eq_ok_iff, parseInt_eq_ok_iff,
    pure_eq_ok, Except.ok.injEq, Prod.mk.injEq]
  constructor
  · rintro ⟨_, ⟨wire, tail, rfl, -, rfl⟩, _, -, type, _, readType,
      recordClass, _, rfl, ttl, _, rfl, dataLength, _, rfl, _, fits, rfl, rfl⟩
    rw [toDomainName_size, drop_left] at readType
    refine ⟨wire, ?_, rfl, rfl, fits⟩
    simp only [fields, readType, append_assoc]
  · rintro ⟨wire, rfl, owned, consistent, fits⟩
    have total := consistent
    rw [Consistent, owned, toDomainName_size] at total
    refine ⟨wire.toDomainName, ⟨wire, _, rfl, by omega, rfl⟩, ⟨⟩, ?_,
      header.type, _, ?_, header.recordClass, _, rfl, header.ttl, _, rfl,
      header.dataLength, rest, rfl, ⟨⟩, ?_, ?_, rfl⟩
    · rw [toDomainName_size]
      omega
    · rw [toDomainName_size, drop_left, fields]
      simp only [append_assoc]
    · rw [toDomainName_size]
      omega
    · ext <;> simp [owned, total]

theorem serialize_eq_store (header : RecordHeader) (buffer : List UInt8) (base : Nat) :
    header.serialize buffer base =
      store buffer base (header.owner.written buffer base ++ header.fields)
        (header.owner.size + constSize) := by
  simp only [serialize, DomainName.serialize_eq_store, store, bind_assoc, pure_bind]
  exact writeBytes_append (by rw [written_length]) (fun _ => header.fields) _

/-- The bytes after the owner name of a record with four bytes of fields. -/
def body (header : RecordHeader) (fields data : List UInt8) : List UInt8 :=
  header.fields ++ (fields ++ data.take (sub16 header.dataLength.toNat 4))

variable {header : RecordHeader} {fields data : List UInt8}

theorem serializeWith_eq_store (four : fields.length = 4)
    (enough : sub16 header.dataLength.toNat 4 ≤ data.length) (buffer : List UInt8) (base : Nat) :
    header.serializeWith fields data buffer base =
      store buffer base (header.owner.written buffer base ++ header.body fields data)
        (header.owner.size + constSize + header.dataLength.toNat) := by
  simp only [serializeWith, serialize_eq_store, parseBytes_of_le enough, store, bind_assoc,
    pure_bind, ok_bind]
  rw [writeBytes_append (by simp) (fun _ => fields),
    writeBytes_append (by simp [four, Nat.add_assoc])]
  simp only [body, append_assoc]

theorem serializeWith_enough {result : List UInt8 × Nat}
    (stored : header.serializeWith fields data buffer base = .ok result) :
    sub16 header.dataLength.toNat 4 ≤ data.length := by
  obtain ⟨_, -, stored⟩ := of_bind stored
  obtain ⟨_, -, stored⟩ := of_bind stored
  obtain ⟨_, parsed, -⟩ := of_bind stored
  exact le_of_parseBytes parsed

end RecordHeader

open RecordHeader

/-! ## Key records -/

namespace ZPubKeyRecord

@[simp]
theorem fields_length (record : ZPubKeyRecord) : record.fields.length = 4 := by
  simp [fields]

theorem fields_append_inj {left right : ZPubKeyRecord}
    (equal : left.fields ++ leftTail = right.fields ++ rightTail) :
    left.flags = right.flags ∧ left.protocol = right.protocol ∧
      left.algorithm = right.algorithm ∧ leftTail = rightTail := by
  simp only [fields, append_assoc] at equal
  obtain ⟨flags, equal⟩ := short_append_inj equal
  simp only [cons_append, nil_append, List.cons.injEq] at equal
  exact ⟨flags, equal.1, equal.2.1, equal.2.2⟩

theorem parse_eq_ok_iff {record : ZPubKeyRecord} :
    ZPubKeyRecord.parse memory size = .ok record ↔ ∃ wire : WireName, ∃ tail,
        memory = wire.encode ++ (record.header.fields ++ (record.fields ++ (record.key ++ tail))) ∧
        record.header.owner = wire.toDomainName ∧
        record.header.Consistent ∧ record.header.size ≤ size ∧
        record.header.dataLength.toNat = 4 + record.key.length := by
  simp only [ZPubKeyRecord.parse, bind_eq_ok_iff, Prod.exists,
    RecordHeader.parse_eq_ok_iff, parseShort_eq_ok_iff, parseByte_eq_ok_iff,
    parseBytes_eq_ok_iff, ensure_eq_ok_iff, pure_eq_ok, Except.ok.injEq]
  constructor
  · rintro ⟨header, _, ⟨wire, rfl, owned, consistent, fits⟩, flags, _, rfl,
      protocol, _, rfl, algorithm, _, rfl, _, enough, key, tail,
      ⟨rfl, length⟩, rfl⟩
    refine ⟨wire, tail, ?_, owned, consistent, fits, ?_⟩
    · simp [fields]
    · dsimp only
      omega
  · rintro ⟨wire, tail, rfl, owned, consistent, fits, length⟩
    refine ⟨record.header, _, ⟨wire, rfl, owned, consistent, fits⟩,
      record.flags, _, ?_, record.protocol, _, rfl, record.algorithm, _, rfl,
      ⟨⟩, by omega, record.key, tail, ⟨rfl, by omega⟩, rfl⟩
    simp [fields]

theorem serialize_eq_serializeWith (record : ZPubKeyRecord) (buffer : List UInt8) (base : Nat) :
    record.serialize buffer base =
      record.header.serializeWith record.fields record.key buffer base := by
  simp [serialize, serializeKey, serializeWith, bind_assoc]

end ZPubKeyRecord

/-! ## Key links -/

theorem ZKeyLinkRecord.parse_eq_ok_iff {record : ZKeyLinkRecord} :
    ZKeyLinkRecord.parse memory size = .ok record ↔ ∃ wire : WireName, ∃ rest,
        memory = wire.encode ++ (record.header.fields ++ rest) ∧
        record.header.owner = wire.toDomainName ∧
        record.header.Consistent ∧ record.header.size ≤ size ∧
        ZPubKeyRecord.parse rest (size - (record.header.owner.size + RecordHeader.constSize)) =
          .ok record.keySpeaker ∧
        ZPubKeyRecord.parse (rest.drop record.keySpeaker.size)
            (size - (record.header.owner.size + RecordHeader.constSize) - record.keySpeaker.size) =
          .ok record.keySpokenFor := by
  simp only [ZKeyLinkRecord.parse, bind_eq_ok_iff, Prod.exists,
    RecordHeader.parse_eq_ok_iff, pure_eq_ok, Except.ok.injEq]
  constructor
  · rintro ⟨header, rest, ⟨wire, rfl, owned, consistent, fits⟩, speaker,
      speakerRead, spokenFor, spokenForRead, rfl⟩
    exact ⟨wire, rest, rfl, owned, consistent, fits, speakerRead, spokenForRead⟩
  · rintro ⟨wire, rest, rfl, owned, consistent, fits, speakerRead, spokenForRead⟩
    exact ⟨record.header, rest, ⟨wire, rfl, owned, consistent, fits⟩,
      record.keySpeaker, speakerRead, record.keySpokenFor, spokenForRead, rfl⟩

/-! ## Binary and delegation records -/

namespace ZBinaryRecord

@[simp]
theorem fields_length (record : ZBinaryRecord) : record.fields.length = 4 := by
  simp [fields]

theorem fields_append_inj {left right : ZBinaryRecord}
    (equal : left.fields ++ leftTail = right.fields ++ rightTail) :
    left.flags = right.flags ∧ left.digestType = right.digestType ∧ leftTail = rightTail := by
  obtain ⟨flags, equal⟩ := short_append_inj equal
  obtain ⟨digestType, equal⟩ := short_append_inj equal
  exact ⟨flags, digestType, equal⟩

theorem parse_eq_ok_iff {record : ZBinaryRecord} :
    ZBinaryRecord.parse memory size = .ok record ↔ ∃ wire : WireName, ∃ tail,
        memory = wire.encode ++
          (record.header.fields ++ (record.fields ++ (record.digest ++ tail))) ∧
        record.header.owner = wire.toDomainName ∧
        record.header.Consistent ∧ record.header.size ≤ size ∧
        record.digest.length = sub16 record.header.dataLength.toNat 3 := by
  simp only [ZBinaryRecord.parse, bind_eq_ok_iff, Prod.exists,
    RecordHeader.parse_eq_ok_iff, parseShort_eq_ok_iff, parseBytes_eq_ok_iff,
    pure_eq_ok, Except.ok.injEq]
  constructor
  · rintro ⟨header, _, ⟨wire, rfl, owned, consistent, fits⟩, flags, _, rfl,
      digestType, _, rfl, digest, tail, ⟨rfl, length⟩, rfl⟩
    refine ⟨wire, tail, ?_, owned, consistent, fits, length⟩
    simp [fields]
  · rintro ⟨wire, tail, rfl, owned, consistent, fits, length⟩
    refine ⟨record.header, _, ⟨wire, rfl, owned, consistent, fits⟩,
      record.flags, _, ?_, record.digestType, _, rfl, record.digest, tail,
      ⟨rfl, length⟩, rfl⟩
    simp [fields]

end ZBinaryRecord

namespace ZDelegationRecord

/-- No buffer holds a delegation record that is accepted. -/
theorem parse_ne_ok (memory : List UInt8) (size : Nat) (record : ZDelegationRecord) :
    ZDelegationRecord.parse memory size ≠ .ok record := by
  intro parsed
  obtain ⟨⟨header, data⟩, readHeader, checked⟩ := of_bind parsed
  obtain ⟨wire, -, -, consistent, fits⟩ := RecordHeader.parse_eq_ok_iff.mp readHeader
  obtain ⟨_, enough, -⟩ := of_bind checked
  rw [ensure_eq_ok_iff] at enough
  simp only [Consistent, RecordHeader.constSize] at consistent
  omega

end ZDelegationRecord

/-! ## Signature records -/

namespace ZSigRecord

@[simp]
theorem fields_length (record : ZSigRecord) : record.fields.length = ZSigRecord.constSize := by
  simp [fields, ZSigRecord.constSize]

theorem fields_append_inj {left right : ZSigRecord}
    (equal : left.fields ++ leftTail = right.fields ++ rightTail) :
    left.typeCovered = right.typeCovered ∧ left.algorithm = right.algorithm ∧
      left.labels = right.labels ∧ left.originalTtl = right.originalTtl ∧
      left.expires = right.expires ∧ left.inception = right.inception ∧
      left.keyTag = right.keyTag ∧ leftTail = rightTail := by
  simp only [fields, append_assoc] at equal
  obtain ⟨typeCovered, equal⟩ := short_append_inj equal
  simp only [cons_append, nil_append, List.cons.injEq] at equal
  obtain ⟨algorithm, labels, equal⟩ := equal
  obtain ⟨originalTtl, equal⟩ := int_append_inj equal
  obtain ⟨expires, equal⟩ := int_append_inj equal
  obtain ⟨inception, equal⟩ := int_append_inj equal
  obtain ⟨keyTag, equal⟩ := short_append_inj equal
  exact ⟨typeCovered, algorithm, labels, originalTtl, expires, inception, keyTag, equal⟩

theorem parse_eq_ok_iff {record : ZSigRecord} :
    ZSigRecord.parse memory size = .ok record ↔ ∃ wire signer : WireName, ∃ sig tail,
        memory = wire.encode ++ (record.header.fields ++
          (record.fields ++ (signer.encode ++ (sig ++ tail)))) ∧
        record.header.owner = wire.toDomainName ∧
        record.signerName = signer.toDomainName ∧ record.sig = some sig ∧
        record.header.Consistent ∧ record.header.size ≤ size ∧
        record.header.dataLength.toNat =
          ZSigRecord.constSize + signer.encode.length + sig.length := by
  simp only [ZSigRecord.parse, bind_eq_ok_iff, Prod.exists,
    RecordHeader.parse_eq_ok_iff, parseShort_eq_ok_iff, parseByte_eq_ok_iff,
    parseInt_eq_ok_iff, parseBytes_eq_ok_iff, ensure_eq_ok_iff,
    ofWire_eq_ok_iff, pure_eq_ok, Except.ok.injEq]
  constructor
  · rintro ⟨header, _, ⟨wire, rfl, owned, consistent, fits⟩, _, enough,
      typeCovered, _, rfl, algorithm, _, rfl, labels, _, rfl, originalTtl, _,
      rfl, expires, _, rfl, inception, _, rfl, keyTag, _, rfl, _,
      ⟨signer, rest, rfl, room, rfl⟩, sig, tail, ⟨split, length⟩, rfl⟩
    have bounded := header.dataLength.toNat_lt
    rw [toDomainName_size] at length split
    rw [drop_left] at split
    rw [sub16_of_le (by omega) (by omega)] at length
    refine ⟨wire, signer, sig, tail, ?_, owned, rfl, rfl, consistent, fits, ?_⟩
    · simp [fields, split]
    · dsimp only
      omega
  · rintro ⟨wire, signer, sig, tail, rfl, owned, signed, present, consistent, fits, length⟩
    have bounded := record.header.dataLength.toNat_lt
    refine ⟨record.header, _, ⟨wire, rfl, owned, consistent, fits⟩, ⟨⟩,
      by omega, record.typeCovered, _, ?_, record.algorithm, _, rfl,
      record.labels, _, rfl, record.originalTtl, _, rfl, record.expires, _, rfl,
      record.inception, _, rfl, record.keyTag, _, rfl, record.signerName,
      ⟨signer, sig ++ tail, rfl, by omega, signed⟩, sig, tail, ⟨?_, ?_⟩, ?_⟩
    · simp [fields]
    · rw [signed, toDomainName_size, drop_left]
    · rw [signed, toDomainName_size, sub16_of_le (by omega) (by omega)]
      omega
    · ext <;> simp [present]

/-- The bytes after the owner name, when the signer name is stored as
`signerBytes`. -/
def body (record : ZSigRecord) (signerBytes : List UInt8) : List UInt8 :=
  record.header.fields ++ (record.fields ++ (signerBytes ++
    record.sigBytes.take
      (sub16 record.header.dataLength.toNat record.headerSize)))

variable {record : ZSigRecord}

theorem serialize_eq_store
    (enough : sub16 record.header.dataLength.toNat record.headerSize ≤ record.sigBytes.length)
    (buffer : List UInt8) (base : Nat) :
    record.serialize buffer base =
      store buffer base (record.header.owner.written buffer base ++ record.body
        (record.signerName.written (patch buffer base (record.header.owner.written buffer base ++
            (record.header.fields ++ record.fields)))
          (base + (record.header.owner.size + RecordHeader.constSize) + ZSigRecord.constSize)))
        (record.header.owner.size + RecordHeader.constSize + record.header.dataLength.toNat) := by
  simp only [serialize, serializeHead, RecordHeader.serialize_eq_store,
    DomainName.serialize_eq_store, parseBytes_of_le enough, store, bind_assoc, pure_bind, ok_bind]
  rw [writeBytes_append (by simp) (fun _ => record.fields),
    writeBytes_append (by simp [Nat.add_assoc]),
    writeBytes_append (by simp [headerSize, Nat.add_assoc])]
  simp only [body, append_assoc]

theorem serialize_enough {result : List UInt8 × Nat}
    (stored : record.serialize buffer base = .ok result) :
    sub16 record.header.dataLength.toNat record.headerSize ≤ record.sigBytes.length := by
  obtain ⟨_, -, stored⟩ := of_bind stored
  obtain ⟨_, head, stored⟩ := of_bind stored
  obtain ⟨_, parsed, -⟩ := of_bind stored
  obtain ⟨_, -, head⟩ := of_bind head
  obtain ⟨_, -, head⟩ := of_bind head
  cases head
  exact le_of_parseBytes parsed

end ZSigRecord

end Embassies.Crypto
