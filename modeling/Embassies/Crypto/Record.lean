import Embassies.Crypto.DomainName

/-!
# Records

A certificate is made of records in the layout of DNS resource records: an
owner name, four generic fields and data whose layout depends on the record
type.  Each kind of record has a constructor that parses a buffer, one that
builds it in memory, a serializer and a comparison, embedded here one by one
with the width of every field and the order of every check.

The class `ZRecord` is split in two: `RecordHeader` holds its fields, and
`ZRecord` is a pointer to a record of any kind.  Key records cache the key
made from them; the cache changes no result and is left out.
-/

namespace Embassies.Crypto

open Library Library.Checked

/-- Subtraction whose result is kept in a `uint16_t`. -/
def sub16 (left right : Nat) : Nat :=
  (left + (2 ^ 16 - right % 2 ^ 16)) % 2 ^ 16

theorem sub16_of_le {left right : Nat} (ordered : right ≤ left) (bounded : left < 2 ^ 16) :
    sub16 left right = left - right := by
  unfold sub16
  omega

/-! ## Generic fields -/

/-- The fields of the class `ZRecord`.  `size` is `_size`, a `uint32_t`. -/
@[ext]
structure RecordHeader where
  owner : DomainName
  type : UInt16
  recordClass : UInt16
  ttl : UInt32
  dataLength : UInt16
  size : Nat
deriving DecidableEq

namespace RecordHeader

/-- `ZOOG_RECORD_TYPE_BINARY`. -/
def typeBinary : UInt16 := 16

/-- `ZOOG_RECORD_TYPE_SIG`. -/
def typeSig : UInt16 := 43

/-- `ZOOG_RECORD_TYPE_KEY`. -/
def typeKey : UInt16 := 46

/-- `ZOOG_RECORD_TYPE_DELEGATION`. -/
def typeDelegation : UInt16 := 48

/-- `ZOOG_RECORD_TYPE_KEYLINK`. -/
def typeKeyLink : UInt16 := 64

/-- The size of the four fields after the owner name. -/
def constSize : Nat := 10

/-- `ZRecord::ZRecord(const DomainName *label, uint16_t type)`; the text
`ZOOG` owns a record without a label. -/
def new (label : Option DomainName) (type : UInt16) :
    Except Halt RecordHeader := do
  let owner ←
    match label with
    | none => DomainName.parse [90, 79, 79, 71, 0] 5
    | some label => label.copy
  return {
    owner
    type
    recordClass := 1
    ttl := 86400
    dataLength := 0
    size := owner.size + constSize }

/-- `ZRecord::parse`.  The result stands at the first byte of the data. -/
def parse (record : List UInt8) (size : Nat) :
    Except Halt (RecordHeader × List UInt8) := do
  let owner ← DomainName.ofWire record size
  let record := record.drop owner.size
  ensure (owner.size + constSize ≤ size) (.badInput "ZRecord too short")
  let (type, record) ← parseShort record
  let (recordClass, record) ← parseShort record
  let (ttl, record) ← parseInt record
  let (dataLength, record) ← parseShort record
  let total := owner.size + constSize + dataLength.toNat
  ensure (total ≤ size) (.badInput "ZRecord too short")
  return ({ owner, type, recordClass, ttl, dataLength, size := total }, record)

/-- The bytes of the four fields after the owner name. -/
def fields (header : RecordHeader) : List UInt8 :=
  short header.type ++ short header.recordClass ++ int header.ttl ++
    short header.dataLength

/-- `ZRecord::serialize`, storing at offset `base`. -/
def serialize (header : RecordHeader) (buffer : List UInt8) (base : Nat) :
    Except Halt (List UInt8 × Nat) := do
  let (buffer, len) ← header.owner.serialize buffer base
  let buffer ← writeBytes buffer (base + len) header.fields
  return (buffer, len + constSize)

/-- The serializers of records whose data is four bytes of fields and an
array: the generic fields, then `fields`, then as much of `data` as the data
length says. -/
def serializeWith (header : RecordHeader) (fields data : List UInt8)
    (buffer : List UInt8) (base : Nat) : Except Halt (List UInt8 × Nat) := do
  let (buffer, len) ← header.serialize buffer base
  let buffer ← writeBytes buffer (base + len) fields
  let (data, _) ← parseBytes (sub16 header.dataLength.toNat 4) data
  let buffer ← writeBytes buffer (base + len + 4) data
  return (buffer, len + header.dataLength.toNat)

/-- `ZRecord::addDataLength(short len)`; the argument is converted to a
signed sixteen-bit value and added to both lengths. -/
def addDataLength (header : RecordHeader) (len : Nat) : RecordHeader :=
  let bits := len % 2 ^ 16
  { header with
    dataLength := header.dataLength + UInt16.ofNat bits
    size := (header.size +
      if bits < 2 ^ 15 then bits else bits + (2 ^ 32 - 2 ^ 16)) % 2 ^ 32 }

/-- `ZRecord::equal`. -/
def equal (left right : RecordHeader) : Bool :=
  left.owner.equals right.owner && left.type == right.type &&
    left.recordClass == right.recordClass && left.ttl == right.ttl &&
    left.dataLength == right.dataLength && left.size == right.size

end RecordHeader

open RecordHeader

/-! ## Binary records -/

/-- `ZBinaryRecord`. -/
@[ext]
structure ZBinaryRecord where
  header : RecordHeader
  flags : UInt16
  digestType : UInt16
  digest : List UInt8
deriving DecidableEq

namespace ZBinaryRecord

/-- `ZOOG_DIGEST_DEFAULT`. -/
def digestDefault : UInt16 := 3

/-- `ZBinaryRecord(uint8_t *, uint32_t, int)`.  One byte less is subtracted
from the data length than was read. -/
def parse (record : List UInt8) (size : Nat) : Except Halt ZBinaryRecord := do
  let (header, record) ← RecordHeader.parse record size
  let (flags, record) ← parseShort record
  let (digestType, record) ← parseShort record
  let digestLen := sub16 header.dataLength.toNat 3
  let (digest, _) ← parseBytes digestLen record
  return { header, flags, digestType, digest }

/-- `ZBinaryRecord(const uint8_t *, uint32_t)`. -/
def ofBinary (zhash : List UInt8 → Hash) (binary : List UInt8) :
    Except Halt ZBinaryRecord := do
  let header ← RecordHeader.new none typeBinary
  return {
    header := header.addDataLength (4 + 20)
    flags := 0
    digestType := digestDefault
    digest := (zhash binary).bytes }

/-- The bytes of the fields before the digest. -/
def fields (record : ZBinaryRecord) : List UInt8 :=
  short record.flags ++ short record.digestType

/-- `ZBinaryRecord::serialize`. -/
def serialize (record : ZBinaryRecord) (buffer : List UInt8) (base : Nat) :
    Except Halt (List UInt8 × Nat) :=
  record.header.serializeWith record.fields record.digest buffer base

/-- `ZBinaryRecord::isEqual`. -/
def isEqual (left right : ZBinaryRecord) : Except Halt Bool :=
  if left.header.equal right.header && right.header.type == typeBinary &&
      left.flags == right.flags && left.digestType == right.digestType then
    compareBytes (sub32 left.header.dataLength.toNat 4) left.digest right.digest
  else
    .ok false

end ZBinaryRecord

/-! ## Signature records -/

/-- `ZSigRecord`.  The pointer `sig` is null until the record is signed. -/
@[ext]
structure ZSigRecord where
  header : RecordHeader
  typeCovered : UInt16
  algorithm : UInt8
  labels : UInt8
  originalTtl : UInt32
  expires : UInt32
  inception : UInt32
  keyTag : UInt16
  signerName : DomainName
  sig : Option (List UInt8)
deriving DecidableEq

/-- `SIG_ALG_ID`. -/
def sigAlgId : UInt8 := 5

/-- `ZKey::SIGNATURE_SIZE`. -/
def signatureSize : Nat := 256

namespace ZSigRecord

/-- The size of the fields before the signer name. -/
def constSize : Nat := 18

/-- `ZRecord::size`. -/
def size (record : ZSigRecord) : Nat := record.header.size

/-- `ZSigRecord(uint8_t *, uint32_t)`. -/
def parse (sigRecord : List UInt8) (size : Nat) : Except Halt ZSigRecord := do
  let (header, sigRecord) ← RecordHeader.parse sigRecord size
  ensure (constSize ≤ header.dataLength.toNat) (.badInput "sigRecord too short")
  let (typeCovered, sigRecord) ← parseShort sigRecord
  let (algorithm, sigRecord) ← parseByte sigRecord
  let (labels, sigRecord) ← parseByte sigRecord
  let (originalTtl, sigRecord) ← parseInt sigRecord
  let (expires, sigRecord) ← parseInt sigRecord
  let (inception, sigRecord) ← parseInt sigRecord
  let (keyTag, sigRecord) ← parseShort sigRecord
  let signerName ←
    DomainName.ofWire sigRecord (header.dataLength.toNat - constSize)
  let sigRecord := sigRecord.drop signerName.size
  let sigLen :=
    sub16 header.dataLength.toNat (constSize + signerName.size)
  let (sig, _) ← parseBytes sigLen sigRecord
  return {
    header, typeCovered, algorithm, labels, originalTtl, expires, inception
    keyTag, signerName, sig := some sig }

/-- `ZSigRecord(uint16_t, const DomainName *, uint32_t, uint32_t)`. -/
def new (typeCovered : UInt16) (label : Option DomainName)
    (inception expires : UInt32) : Except Halt ZSigRecord := do
  let header ← RecordHeader.new label typeSig
  ensure
    (typeCovered = typeBinary ∨ typeCovered = typeDelegation ∨
      typeCovered = typeKey ∨ typeCovered = typeSig ∨
      typeCovered = typeKeyLink)
    (.badInput "Invalid sig record type")
  ensure (inception ≤ expires) (.badInput "Signature will never be valid!")
  let signerName ← DomainName.parse [32, 0] 2
  return {
    header := header.addDataLength (constSize + signerName.size)
    typeCovered
    algorithm := sigAlgId
    labels := UInt8.ofNat header.owner.numLabels
    originalTtl := 86400
    expires
    inception
    keyTag := 0
    signerName
    sig := none }

/-- The bytes that can be read through `sig`. -/
def sigBytes (record : ZSigRecord) : List UInt8 :=
  record.sig.getD []

/-- `ZSigRecord::headerSize`. -/
def headerSize (record : ZSigRecord) : Nat :=
  constSize + record.signerName.size

/-- The bytes of the fields before the signer name. -/
def fields (record : ZSigRecord) : List UInt8 :=
  short record.typeCovered ++ [record.algorithm, record.labels] ++
    int record.originalTtl ++ int record.expires ++ int record.inception ++
    short record.keyTag

/-- `ZSigRecord::serializeHead`. -/
def serializeHead (record : ZSigRecord) (buffer : List UInt8) (base : Nat) :
    Except Halt (List UInt8 × Nat) := do
  let buffer ← writeBytes buffer base record.fields
  let (buffer, _) ← record.signerName.serialize buffer (base + constSize)
  return (buffer, record.headerSize)

/-- `ZSigRecord::serialize`. -/
def serialize (record : ZSigRecord) (buffer : List UInt8) (base : Nat) :
    Except Halt (List UInt8 × Nat) := do
  let (buffer, len) ← record.header.serialize buffer base
  let (buffer, headLen) ← record.serializeHead buffer (base + len)
  let sigLen := sub16 record.header.dataLength.toNat headLen
  let (sig, _) ← parseBytes sigLen record.sigBytes
  let buffer ← writeBytes buffer (base + len + headLen) sig
  return (buffer, len + record.header.dataLength.toNat)

/-- `ZSigRecord::setKeyTag`. -/
def setKeyTag (record : ZSigRecord) (tag : UInt16) : ZSigRecord :=
  { record with keyTag := tag }

/-- `ZSigRecord::setSignerName`: the signer also becomes the owner. -/
def setSignerName (record : ZSigRecord) (name : DomainName) :
    Except Halt ZSigRecord := do
  let shorter := record.header.addDataLength (sub32 0 record.signerName.size)
  let signerName ← name.copy
  let header := shorter.addDataLength signerName.size
  let owner ← name.copy
  return { record with
    header := { header with
      owner
      size := (sub32 header.size record.header.owner.size + owner.size) % 2 ^ 32 }
    signerName
    labels := UInt8.ofNat owner.numLabels }

/-- `ZSigRecord::setSig`. -/
def setSig (record : ZSigRecord) (sig : List UInt8) : Except Halt ZSigRecord := do
  ensure (sig.length ≤ signatureSize) (.fault .assertion)
  let header :=
    match record.sig with
    | none => record.header
    | some _ => record.header.addDataLength (sub32 0 sig.length)
  return { record with header := header.addDataLength sig.length, sig := some sig }

/-- `ZSigRecord::isEqual`. -/
def isEqual (left right : ZSigRecord) : Except Halt Bool :=
  if left.header.equal right.header && right.header.type == typeSig &&
      left.typeCovered == right.typeCovered &&
      left.algorithm == right.algorithm && left.labels == right.labels &&
      left.originalTtl == right.originalTtl && left.expires == right.expires &&
      left.inception == right.inception && left.keyTag == right.keyTag &&
      left.signerName.equals right.signerName then
    compareBytes (sub32 left.header.dataLength.toNat left.headerSize)
      left.sigBytes right.sigBytes
  else
    .ok false

end ZSigRecord

/-! ## Key records -/

/-- `ZPubKeyRecord`. -/
@[ext]
structure ZPubKeyRecord where
  header : RecordHeader
  flags : UInt16
  protocol : UInt8
  algorithm : UInt8
  key : List UInt8
deriving DecidableEq

namespace ZPubKeyRecord

/-- `ZRecord::size`. -/
def size (record : ZPubKeyRecord) : Nat := record.header.size

/-- `ZPubKeyRecord(uint8_t *, uint32_t)`. -/
def parse (dnskey : List UInt8) (size : Nat) : Except Halt ZPubKeyRecord := do
  let (header, dnskey) ← RecordHeader.parse dnskey size
  let (flags, dnskey) ← parseShort dnskey
  let (protocol, dnskey) ← parseByte dnskey
  let (algorithm, dnskey) ← parseByte dnskey
  ensure (4 ≤ header.dataLength.toNat) (.fault .assertion)
  let (key, _) ← parseBytes (header.dataLength.toNat - 4) dnskey
  return { header, flags, protocol, algorithm, key }

/-- `ZPubKeyRecord(ZPubKeyRecord *)`. -/
def copy (record : ZPubKeyRecord) : Except Halt ZPubKeyRecord := do
  let owner ← record.header.owner.copy
  let (key, _) ← parseBytes (sub32 record.header.dataLength.toNat 4) record.key
  return { record with header := { record.header with owner }, key }

/-- `ZPubKeyRecord(const DomainName *, uint8_t *, uint32_t)`. -/
def ofKeyBytes (label : Option DomainName) (keyBytes : List UInt8) :
    Except Halt ZPubKeyRecord := do
  let header ← RecordHeader.new label typeKey
  return {
    header := header.addDataLength (4 + keyBytes.length)
    flags := 256
    protocol := 3
    algorithm := sigAlgId
    key := keyBytes }

/-- The bytes of the fields before the key. -/
def fields (record : ZPubKeyRecord) : List UInt8 :=
  short record.flags ++ [record.protocol, record.algorithm]

/-- `ZPubKeyRecord::serializeKey`. -/
def serializeKey (record : ZPubKeyRecord) (buffer : List UInt8) (base : Nat) :
    Except Halt (List UInt8 × Nat) := do
  let buffer ← writeBytes buffer base record.fields
  let keyLen := sub16 record.header.dataLength.toNat 4
  let (key, _) ← parseBytes keyLen record.key
  let buffer ← writeBytes buffer (base + 4) key
  return (buffer, record.header.dataLength.toNat)

/-- `ZPubKeyRecord::serialize`. -/
def serialize (record : ZPubKeyRecord) (buffer : List UInt8) (base : Nat) :
    Except Halt (List UInt8 × Nat) := do
  let (buffer, len) ← record.header.serialize buffer base
  let (buffer, _) ← record.serializeKey buffer (base + len)
  return (buffer, len + record.header.dataLength.toNat)

/-- `ZPubKeyRecord::isEqual`. -/
def isEqual (left right : ZPubKeyRecord) : Except Halt Bool :=
  if left.header.equal right.header && right.header.type == typeKey &&
      left.flags == right.flags && left.protocol == right.protocol &&
      left.algorithm == right.algorithm then
    compareBytes (sub32 left.header.dataLength.toNat 4) left.key right.key
  else
    .ok false

end ZPubKeyRecord

/-! ## Delegation records -/

/-- `ZDelegationRecord`. -/
@[ext]
structure ZDelegationRecord where
  header : RecordHeader
  keyTag : UInt16
  algorithm : UInt8
  digestType : UInt8
  digest : List UInt8
deriving DecidableEq

namespace ZDelegationRecord

/-- `ZDelegationRecord(uint8_t *, uint32_t)`.  The length check compares the
wrong way round. -/
def parse (dsRecord : List UInt8) (size : Nat) :
    Except Halt ZDelegationRecord := do
  let (header, dsRecord) ← RecordHeader.parse dsRecord size
  ensure (size ≤ header.dataLength.toNat + 4)
    (.badInput "Delegation record too short")
  let (keyTag, dsRecord) ← parseShort dsRecord
  let (algorithm, dsRecord) ← parseByte dsRecord
  let (digestType, dsRecord) ← parseByte dsRecord
  let digestLen := sub16 header.dataLength.toNat 4
  let (digest, _) ← parseBytes digestLen dsRecord
  return { header, keyTag, algorithm, digestType, digest }

/-- The bytes of the fields before the digest. -/
def fields (record : ZDelegationRecord) : List UInt8 :=
  short record.keyTag ++ [record.algorithm, record.digestType]

/-- `ZDelegationRecord::serialize`. -/
def serialize (record : ZDelegationRecord) (buffer : List UInt8) (base : Nat) :
    Except Halt (List UInt8 × Nat) :=
  record.header.serializeWith record.fields record.digest buffer base

/-- `ZDelegationRecord::isEqual`. -/
def isEqual (left right : ZDelegationRecord) : Except Halt Bool :=
  if left.header.equal right.header && right.header.type == typeDelegation &&
      left.keyTag == right.keyTag && left.algorithm == right.algorithm &&
      left.digestType == right.digestType then
    compareBytes (sub32 left.header.dataLength.toNat 4) left.digest right.digest
  else
    .ok false

end ZDelegationRecord

/-! ## Key link records -/

/-- `ZKeyLinkRecord`. -/
@[ext]
structure ZKeyLinkRecord where
  header : RecordHeader
  keySpeaker : ZPubKeyRecord
  keySpokenFor : ZPubKeyRecord
deriving DecidableEq

namespace ZKeyLinkRecord

/-- `ZKeyLinkRecord(uint8_t *, uint32_t)`.  The two keys may use whatever is
left of the buffer. -/
def parse (txtRecord : List UInt8) (size : Nat) : Except Halt ZKeyLinkRecord := do
  let (header, txtRecord) ← RecordHeader.parse txtRecord size
  let left := size - (header.owner.size + RecordHeader.constSize)
  let keySpeaker ← ZPubKeyRecord.parse txtRecord left
  let keySpokenFor ←
    ZPubKeyRecord.parse (txtRecord.drop keySpeaker.size) (left - keySpeaker.size)
  return { header, keySpeaker, keySpokenFor }

/-- `ZKeyLinkRecord(ZPubKey *, ZPubKey *)` on the records of the two keys. -/
def ofKeys (keySpeaker keySpokenFor : ZPubKeyRecord) :
    Except Halt ZKeyLinkRecord := do
  let header ← RecordHeader.new none typeKeyLink
  let keySpeaker ← keySpeaker.copy
  let keySpokenFor ← keySpokenFor.copy
  return {
    header := header.addDataLength (keySpeaker.size + keySpokenFor.size)
    keySpeaker
    keySpokenFor }

/-- `ZKeyLinkRecord::serialize`, which returns the length of its last part. -/
def serialize (record : ZKeyLinkRecord) (buffer : List UInt8) (base : Nat) :
    Except Halt (List UInt8 × Nat) := do
  let (buffer, headerLen) ← record.header.serialize buffer base
  let (buffer, speakerLen) ←
    record.keySpeaker.serialize buffer (base + headerLen)
  record.keySpokenFor.serialize buffer (base + headerLen + speakerLen)

/-- `ZKeyLinkRecord::isEqual`, which compares only the two keys. -/
def isEqual (left right : ZKeyLinkRecord) : Except Halt Bool :=
  if right.header.type == typeKeyLink then do
    let speakerEq ← left.keySpeaker.isEqual right.keySpeaker
    let spokenForEq ← left.keySpokenFor.isEqual right.keySpokenFor
    return speakerEq && spokenForEq
  else
    .ok false

end ZKeyLinkRecord

/-! ## Records of any kind -/

/-- A pointer to a record. -/
inductive ZRecord where
  | binary (record : ZBinaryRecord)
  | sig (record : ZSigRecord)
  | key (record : ZPubKeyRecord)
  | delegation (record : ZDelegationRecord)
  | keyLink (record : ZKeyLinkRecord)
deriving DecidableEq

namespace ZRecord

/-- The generic fields of a record. -/
def header : ZRecord → RecordHeader
  | .binary record => record.header
  | .sig record => record.header
  | .key record => record.header
  | .delegation record => record.header
  | .keyLink record => record.header

/-- `ZRecord::size`. -/
def size (record : ZRecord) : Nat := record.header.size

/-- `ZRecord::getType`. -/
def getType (record : ZRecord) : UInt16 := record.header.type

/-- The switch over the record type in `ZRecord::spawn`, with `none` for an
unknown type. -/
def spawnAs (type : UInt16) (record : List UInt8) (size : Nat) :
    Except Halt (Option ZRecord) :=
  if type = typeBinary then do
    let parsed ← ZBinaryRecord.parse record size
    return some (.binary parsed)
  else if type = typeSig then do
    let parsed ← ZSigRecord.parse record size
    return some (.sig parsed)
  else if type = typeKey then do
    let parsed ← ZPubKeyRecord.parse record size
    return some (.key parsed)
  else if type = typeDelegation then do
    let parsed ← ZDelegationRecord.parse record size
    return some (.delegation parsed)
  else if type = typeKeyLink then do
    let parsed ← ZKeyLinkRecord.parse record size
    return some (.keyLink parsed)
  else
    return none

/-- `ZRecord::spawn`. -/
def spawn (record : List UInt8) (size : Nat) : Except Halt (Option ZRecord) := do
  let owner ← DomainName.ofWire record size
  ensure (owner.size + 2 ≤ size) (.badInput "Record too short")
  let (type, _) ← parseShort (record.drop owner.size)
  spawnAs type record size

/-- The virtual `serialize`. -/
def serialize : ZRecord → List UInt8 → Nat → Except Halt (List UInt8 × Nat)
  | .binary record => record.serialize
  | .sig record => record.serialize
  | .key record => record.serialize
  | .delegation record => record.serialize
  | .keyLink record => record.serialize

/-- The virtual `isEqual`; records of different kinds have different types. -/
def isEqual : ZRecord → ZRecord → Except Halt Bool
  | .binary left, .binary right => left.isEqual right
  | .sig left, .sig right => left.isEqual right
  | .key left, .key right => left.isEqual right
  | .delegation left, .delegation right => left.isEqual right
  | .keyLink left, .keyLink right => left.isEqual right
  | _, _ => .ok false

end ZRecord

end Embassies.Crypto
