import Embassies.Crypto.RecordCodec

/-!
# What records with canonical names are written as

When its names are canonical, a record is written as one fixed string of
bytes, whatever the buffer held before.  This module computes that string for
every kind of record and shows that the serializers write it and nothing else.
-/

namespace Embassies.Crypto

open Library Library.Buffer Library.Checked List

namespace DomainName

/-! ## Names -/

/-- The wire encoding of a name, label by label. -/
def encode (name : DomainName) : List UInt8 :=
  encodeLabels name.labels ++ [0]

theorem encode_toDomainName {wire : WireName} (clean : wire.Clean) :
    wire.toDomainName.encode = wire.encode := by
  rw [encode, (spells_wire clean.plain).labels_eq, WireName.encode]

namespace Canonical

variable {name left right : DomainName}

theorem encode_length (canonical : name.Canonical) : name.encode.length = name.size := by
  obtain ⟨wire, clean, rfl⟩ := canonical
  rw [encode_toDomainName clean, wire.toDomainName_size]

theorem serialize_eq_store (canonical : name.Canonical) (buffer : List UInt8) (base : Nat) :
    name.serialize buffer base = store buffer base name.encode name.size := by
  have length := canonical.encode_length
  by_cases fits : base + name.size ≤ buffer.length
  · obtain ⟨wire, clean, rfl⟩ := canonical
    rw [encode_toDomainName clean] at length ⊢
    rw [serialize_clean clean (by omega), length]
    exact (store_eq_ok_iff.mpr ⟨by omega, rfl, rfl⟩).symm
  · rw [serialize_overflows (by omega), store, writeBytes_overflows (by omega)]
    rfl

theorem exists_wire (canonical : name.Canonical) :
    ∃ wire : WireName, name = wire.toDomainName ∧ name.encode = wire.encode := by
  obtain ⟨wire, clean, rfl⟩ := canonical
  exact ⟨wire, rfl, encode_toDomainName clean⟩

theorem encode_append_inj {leftTail rightTail : List UInt8}
    (leftCanonical : left.Canonical) (rightCanonical : right.Canonical)
    (equal : left.encode ++ leftTail = right.encode ++ rightTail) :
    left = right ∧ leftTail = rightTail := by
  obtain ⟨leftWire, leftClean, rfl⟩ := leftCanonical
  obtain ⟨rightWire, rightClean, rfl⟩ := rightCanonical
  rw [encode_toDomainName leftClean, encode_toDomainName rightClean] at equal
  obtain ⟨same, tails⟩ := WireName.encode_append_inj equal
  exact ⟨by rw [same], tails⟩

end Canonical

end DomainName

open DomainName

/-! ## Generic fields -/

namespace RecordHeader

/-- The owner name and the generic fields. -/
def encode (header : RecordHeader) : List UInt8 :=
  header.owner.encode ++ header.fields

theorem encode_length {header : RecordHeader} (canonical : header.owner.Canonical) :
    header.encode.length = header.owner.size + constSize := by
  rw [encode, length_append, canonical.encode_length, fields_length]

theorem serialize_canonical {header : RecordHeader} (canonical : header.owner.Canonical)
    (buffer : List UInt8) (base : Nat) :
    header.serialize buffer base =
      store buffer base header.encode (header.owner.size + constSize) := by
  simp only [serialize, canonical.serialize_eq_store, store, bind_assoc, pure_bind]
  exact writeBytes_append (by rw [canonical.encode_length]) (fun _ => header.fields) _

/-- A record with four bytes of fields and an array. -/
def encodeWith (header : RecordHeader) (fields data : List UInt8) :
    List UInt8 :=
  header.encode ++ (fields ++ data.take (header.dataLength.toNat - 4))

section EncodeWith

variable {header : RecordHeader} {fields data : List UInt8}
  (canonical : header.owner.Canonical) (four : fields.length = 4)
  (covers : 4 ≤ header.dataLength.toNat) (enough : header.dataLength.toNat - 4 ≤ data.length)
include canonical four covers enough

theorem encodeWith_length : (header.encodeWith fields data).length =
      header.owner.size + constSize + header.dataLength.toNat := by
  have taken := length_take_of_le enough
  simp only [encodeWith, length_append, encode_length canonical, four, taken]
  omega

theorem serializeWith_canonical (buffer : List UInt8) (base : Nat) :
    header.serializeWith fields data buffer base = store buffer base (header.encodeWith fields data)
        (header.owner.size + constSize + header.dataLength.toNat) := by
  have length := encode_length canonical
  simp only [serializeWith, serialize_canonical canonical,
    sub16_of_le covers header.dataLength.toNat_lt, parseBytes_of_le enough, store, bind_assoc,
    pure_bind, ok_bind]
  rw [writeBytes_append (by rw [length]) (fun _ => fields),
    writeBytes_append (by rw [length_append, length, four, Nat.add_assoc])]
  simp only [encodeWith, append_assoc]

end EncodeWith

end RecordHeader

open RecordHeader

/-! ## Key records -/

namespace ZPubKeyRecord

/-- The data length counts the key bytes that are stored. -/
def Exact (record : ZPubKeyRecord) : Prop :=
  record.header.dataLength.toNat = 4 + record.key.length

/-- The bytes of a key record. -/
def encode (record : ZPubKeyRecord) : List UInt8 :=
  record.header.encode ++ (record.fields ++ record.key)

variable {record : ZPubKeyRecord}

theorem encodeWith_eq_encode (exact : record.Exact) :
    record.header.encodeWith record.fields record.key = record.encode := by
  have whole : record.key.length ≤ record.header.dataLength.toNat - 4 := by
    rw [Exact] at exact
    omega
  rw [RecordHeader.encodeWith, take_of_length_le whole, encode]

theorem encode_length (canonical : record.header.owner.Canonical) (exact : record.Exact) :
    record.encode.length =
      record.header.owner.size + constSize + record.header.dataLength.toNat := by
  rw [Exact] at exact
  simp only [encode, length_append, RecordHeader.encode_length canonical, fields_length]
  omega

theorem serialize_canonical (canonical : record.header.owner.Canonical) (exact : record.Exact)
    (buffer : List UInt8) (base : Nat) :
    record.serialize buffer base = store buffer base record.encode
      (record.header.owner.size + constSize + record.header.dataLength.toNat) := by
  have length := exact
  rw [Exact] at length
  rw [serialize_eq_serializeWith, serializeWith_canonical canonical record.fields_length
    (by omega) (by omega), encodeWith_eq_encode exact]

end ZPubKeyRecord

/-! ## Signature records -/

namespace ZSigRecord

/-- The data length counts the signature bytes that are stored. -/
def Exact (record : ZSigRecord) : Prop :=
  record.header.dataLength.toNat = record.headerSize + record.sigBytes.length

/-- The bytes of a signature record before the signature. -/
def encodeHead (record : ZSigRecord) : List UInt8 :=
  record.fields ++ record.signerName.encode

/-- The bytes of a signature record. -/
def encode (record : ZSigRecord) : List UInt8 :=
  record.header.encode ++ (record.encodeHead ++ record.sigBytes)

variable {record : ZSigRecord}

section Signer

variable (signer : record.signerName.Canonical)

include signer

theorem encodeHead_length : record.encodeHead.length = record.headerSize := by
  rw [encodeHead, length_append, fields_length, signer.encode_length, headerSize]

theorem serializeHead_canonical (buffer : List UInt8) (base : Nat) :
    record.serializeHead buffer base = store buffer base record.encodeHead record.headerSize := by
  simp only [serializeHead, signer.serialize_eq_store, store, bind_assoc, pure_bind]
  exact writeBytes_append (by rw [fields_length]) (fun _ => record.signerName.encode) _

variable (canonical : record.header.owner.Canonical)

include canonical

theorem encode_length (exact : record.Exact) :
    record.encode.length = record.header.owner.size + RecordHeader.constSize +
        record.header.dataLength.toNat := by
  rw [Exact] at exact
  simp only [encode, length_append, RecordHeader.encode_length canonical, encodeHead_length signer]
  omega

/-- A signature record is written with as much of the signature as its data
length says. -/
theorem serialize_taken (head : record.headerSize ≤ record.header.dataLength.toNat)
    (enough : record.header.dataLength.toNat - record.headerSize ≤ record.sigBytes.length)
    (buffer : List UInt8) (base : Nat) :
    record.serialize buffer base = store buffer base (record.header.encode ++ (record.encodeHead ++
        record.sigBytes.take (record.header.dataLength.toNat - record.headerSize)))
      (record.header.owner.size + RecordHeader.constSize + record.header.dataLength.toNat) := by
  have header := RecordHeader.encode_length canonical
  simp only [serialize, RecordHeader.serialize_canonical canonical, serializeHead_canonical signer,
    sub16_of_le head record.header.dataLength.toNat_lt, parseBytes_of_le enough, store,
    bind_assoc, pure_bind, ok_bind]
  rw [writeBytes_append (by rw [header]) (fun _ => record.encodeHead), writeBytes_append
    (by rw [length_append, header, encodeHead_length signer, Nat.add_assoc])]
  simp only [append_assoc]

theorem serialize_canonical (exact : record.Exact) (buffer : List UInt8) (base : Nat) :
    record.serialize buffer base = store buffer base record.encode
      (record.header.owner.size + RecordHeader.constSize + record.header.dataLength.toNat) := by
  rw [Exact] at exact
  rw [serialize_taken signer canonical (by omega) (by omega), take_of_length_le (by omega), encode]

end Signer

end ZSigRecord

/-! ## Key links -/

namespace ZKeyLinkRecord

/-- The bytes of a key link. -/
def encode (record : ZKeyLinkRecord) : List UInt8 :=
  record.header.encode ++ (record.keySpeaker.encode ++ record.keySpokenFor.encode)

theorem serialize_canonical {record : ZKeyLinkRecord} (canonical : record.header.owner.Canonical)
    (speaker : record.keySpeaker.header.owner.Canonical)
    (spokenFor : record.keySpokenFor.header.owner.Canonical)
    (speakerExact : record.keySpeaker.Exact)
    (spokenForExact : record.keySpokenFor.Exact) (buffer : List UInt8) (base : Nat) :
    record.serialize buffer base = store buffer base record.encode
      (record.keySpokenFor.header.owner.size + constSize +
        record.keySpokenFor.header.dataLength.toNat) := by
  have header := RecordHeader.encode_length canonical
  simp only [serialize, RecordHeader.serialize_canonical canonical,
    ZPubKeyRecord.serialize_canonical speaker speakerExact,
    ZPubKeyRecord.serialize_canonical spokenFor spokenForExact, store, bind_assoc, pure_bind]
  rw [writeBytes_append (by rw [header]) (fun _ => record.keySpeaker.encode), writeBytes_append
    (by rw [length_append, header, ZPubKeyRecord.encode_length speaker speakerExact,
      Nat.add_assoc])]
  simp only [encode, append_assoc]

end ZKeyLinkRecord

/-! ## Records of any kind -/

namespace ZRecord

/-- Every name in the record is canonical. -/
def Canonical : ZRecord → Prop
  | .binary record => record.header.owner.Canonical
  | .sig record =>
    record.header.owner.Canonical ∧ record.signerName.Canonical
  | .key record => record.header.owner.Canonical
  | .delegation record => record.header.owner.Canonical
  | .keyLink record =>
    record.header.owner.Canonical ∧
      record.keySpeaker.header.owner.Canonical ∧
      record.keySpokenFor.header.owner.Canonical

/-- The data lengths in the record agree with the bytes that are stored. -/
def Whole : ZRecord → Prop
  | .binary record =>
    4 ≤ record.header.dataLength.toNat ∧
      record.header.dataLength.toNat - 4 ≤ record.digest.length
  | .sig record => record.Exact
  | .key record => record.Exact
  | .delegation record =>
    4 ≤ record.header.dataLength.toNat ∧
      record.header.dataLength.toNat - 4 ≤ record.digest.length
  | .keyLink record => record.keySpeaker.Exact ∧ record.keySpokenFor.Exact

/-- The bytes of a record. -/
def encode : ZRecord → List UInt8
  | .binary record => record.header.encodeWith record.fields record.digest
  | .sig record => record.encode
  | .key record => record.encode
  | .delegation record => record.header.encodeWith record.fields record.digest
  | .keyLink record => record.encode

theorem Canonical.owner {record : ZRecord} (canonical : record.Canonical) :
    record.header.owner.Canonical := by
  cases record with
  | binary record => exact canonical
  | sig record => exact canonical.1
  | key record => exact canonical
  | delegation record => exact canonical
  | keyLink record => exact canonical.1

theorem exists_encode_eq (record : ZRecord) :
    ∃ body, record.encode = record.header.encode ++ body := by
  cases record <;> exact ⟨_, rfl⟩

theorem serialize_canonical {record : ZRecord} (canonical : record.Canonical)
    (whole : record.Whole) :
    ∃ count, ∀ buffer base,
      record.serialize buffer base = store buffer base record.encode count := by
  cases record with
  | binary record =>
    exact ⟨_, serializeWith_canonical canonical record.fields_length whole.1 whole.2⟩
  | sig record =>
    exact ⟨_, ZSigRecord.serialize_canonical canonical.2 canonical.1 whole⟩
  | key record =>
    exact ⟨_, ZPubKeyRecord.serialize_canonical canonical whole⟩
  | delegation record =>
    have four : record.fields.length = 4 := by
      simp [ZDelegationRecord.fields]
    exact ⟨_, serializeWith_canonical canonical four whole.1 whole.2⟩
  | keyLink record =>
    exact ⟨_, ZKeyLinkRecord.serialize_canonical canonical.1 canonical.2.1 canonical.2.2
      whole.1 whole.2⟩

end ZRecord

end Embassies.Crypto
