import Embassies.Crypto.CertCodec

/-!
# What a signature binds

`ZCert::verify` hashes a fresh serialization of the parsed certificate.  Two
certificates whose names are canonical and that have the same signed bytes
state the same thing: their objects are equal and their signature records
agree on every signed field.

Without canonical names the same bytes can stand for two statements, since
serialization writes upper-case letters, dots, spaces and zero bytes inside a
label as something else.
-/

namespace Embassies.Crypto

open Library Library.Buffer Library.Checked RecordHeader List ZSigRecord

/-! ## Encodings determine records -/

theorem RecordHeader.encode_append_inj {left right : RecordHeader} {leftTail rightTail : List UInt8}
    (leftCanonical : left.owner.Canonical)
    (rightCanonical : right.owner.Canonical)
    (leftConsistent : left.Consistent) (rightConsistent : right.Consistent)
    (equal : left.encode ++ leftTail = right.encode ++ rightTail) :
    left = right ∧ leftTail = rightTail := by
  rw [RecordHeader.encode, RecordHeader.encode, append_assoc, append_assoc] at equal
  obtain ⟨owner, equal⟩ := leftCanonical.encode_append_inj rightCanonical equal
  obtain ⟨type, recordClass, ttl, dataLength, equal⟩ := RecordHeader.fields_append_inj equal
  have size : left.size = right.size := by
    rw [leftConsistent, rightConsistent, owner, dataLength]
  exact ⟨RecordHeader.ext owner type recordClass ttl dataLength size, equal⟩

theorem ZPubKeyRecord.encode_append_inj
    {left right : ZPubKeyRecord} {leftTail rightTail : List UInt8}
    (leftCanonical : left.header.owner.Canonical)
    (rightCanonical : right.header.owner.Canonical)
    (leftRead : left.Exact ∧ left.header.Consistent)
    (rightRead : right.Exact ∧ right.header.Consistent)
    (equal : left.encode ++ leftTail = right.encode ++ rightTail) :
    left = right ∧ leftTail = rightTail := by
  simp only [ZPubKeyRecord.encode, append_assoc] at equal
  obtain ⟨header, equal⟩ := RecordHeader.encode_append_inj leftCanonical
    rightCanonical leftRead.2 rightRead.2 equal
  obtain ⟨flags, protocol, algorithm, equal⟩ := ZPubKeyRecord.fields_append_inj equal
  have leftLength := leftRead.1
  have rightLength := rightRead.1
  rw [ZPubKeyRecord.Exact] at leftLength rightLength
  rw [header] at leftLength
  obtain ⟨key, tails⟩ := append_inj equal (by omega)
  exact ⟨ZPubKeyRecord.ext header flags protocol algorithm key, tails⟩

variable {leftTail rightTail : List UInt8}

theorem ZSigRecord.encodeHead_append_inj {left right : ZSigRecord}
    (leftCanonical : left.signerName.Canonical)
    (rightCanonical : right.signerName.Canonical)
    (equal : left.encodeHead ++ leftTail = right.encodeHead ++ rightTail) :
    (left.typeCovered = right.typeCovered ∧ left.algorithm = right.algorithm ∧
      left.labels = right.labels ∧ left.originalTtl = right.originalTtl ∧
      left.expires = right.expires ∧ left.inception = right.inception ∧
      left.keyTag = right.keyTag ∧ left.signerName = right.signerName) ∧
      leftTail = rightTail := by
  simp only [ZSigRecord.encodeHead, append_assoc] at equal
  obtain ⟨typeCovered, algorithm, labels, originalTtl, expires, inception,
    keyTag, equal⟩ := ZSigRecord.fields_append_inj equal
  obtain ⟨signer, tails⟩ := leftCanonical.encode_append_inj rightCanonical equal
  exact ⟨⟨typeCovered, algorithm, labels, originalTtl, expires, inception, keyTag, signer⟩, tails⟩

/-! ## Records that are equal to themselves -/

theorem compareBytes_self {count : Nat} {bytes : List UInt8} (enough : count ≤ bytes.length) :
    compareBytes count bytes bytes = .ok true :=
  compareBytes_eq_ok_true_iff.mpr ⟨enough, enough, rfl⟩

theorem ZPubKeyRecord.isEqual_self {record : ZPubKeyRecord} (typed : record.header.type = typeKey)
    (exact : record.Exact) : record.isEqual record = .ok true := by
  have bounded := record.header.dataLength.toNat_lt
  rw [ZPubKeyRecord.Exact] at exact
  refine ZPubKeyRecord.isEqual_eq_true_iff.mpr
    ⟨equal_self _, typed, rfl, rfl, rfl, compareBytes_self ?_⟩
  rw [sub32_of_le (by omega) (by omega)]
  omega

theorem ZSigRecord.isEqual_self {record : ZSigRecord} (typed : record.header.type = typeSig)
    (exact : record.Exact) : record.isEqual record = .ok true := by
  have bounded := record.header.dataLength.toNat_lt
  rw [ZSigRecord.Exact] at exact
  refine ZSigRecord.isEqual_eq_true_iff.mpr ⟨equal_self _, typed, rfl, rfl, rfl, rfl, rfl, rfl, rfl,
      DomainName.equals_self _, compareBytes_self ?_⟩
  rw [sub32_of_le (by omega) (by omega)]
  omega

/-- The keys in a key link carry the type of key records; elsewhere the type
has already been looked at. -/
def ZRecord.KeysTyped : ZRecord → Prop
  | .keyLink record =>
    record.keySpeaker.header.type = typeKey ∧
      record.keySpokenFor.header.type = typeKey
  | _ => True

theorem ZBinaryRecord.isEqual_of_encode {left right : ZBinaryRecord}
    (header : left.header = right.header)
    (typed : right.header.type = typeBinary)
    (leftWhole : (ZRecord.binary left).Whole)
    (rightWhole : (ZRecord.binary right).Whole)
    (equal : (ZRecord.binary left).encode ++ leftTail =
      (ZRecord.binary right).encode ++ rightTail) :
    left.isEqual right = .ok true := by
  have bounded := right.header.dataLength.toNat_lt
  have leftEnough := leftWhole.2
  simp only [ZRecord.encode, RecordHeader.encodeWith, append_assoc,
    header, append_cancel_left_eq] at equal
  obtain ⟨flags, digestType, equal⟩ := ZBinaryRecord.fields_append_inj equal
  rw [header] at leftEnough
  have digest := append_inj_left equal ((length_take_of_le leftEnough).trans
      (length_take_of_le rightWhole.2).symm)
  refine ZBinaryRecord.isEqual_eq_true_iff.mpr ⟨?_, typed, flags, digestType, ?_⟩
  · rw [header]
    exact equal_self _
  · rw [header, sub32_of_le rightWhole.1 (by omega)]
    exact compareBytes_eq_ok_true_iff.mpr ⟨leftEnough, rightWhole.2, digest⟩

theorem ZSigRecord.eq_of_encode {left right : ZSigRecord} (header : left.header = right.header)
    (leftCanonical : left.signerName.Canonical)
    (rightCanonical : right.signerName.Canonical)
    (leftExact : left.Exact) (rightExact : right.Exact)
    (leftSigned : left.sig.isSome) (rightSigned : right.sig.isSome)
    (equal : left.encode ++ leftTail = right.encode ++ rightTail) :
    left = right := by
  simp only [ZSigRecord.encode, append_assoc, header, append_cancel_left_eq] at equal
  obtain ⟨⟨typeCovered, algorithm, labels, originalTtl, expires, inception,
    keyTag, signer⟩, equal⟩ := encodeHead_append_inj leftCanonical rightCanonical equal
  rw [ZSigRecord.Exact, ZSigRecord.headerSize] at leftExact rightExact
  rw [header, signer] at leftExact
  have sigBytes := append_inj_left equal (by omega)
  obtain ⟨leftSig, leftPresent⟩ := Option.isSome_iff_exists.mp leftSigned
  obtain ⟨rightSig, rightPresent⟩ := Option.isSome_iff_exists.mp rightSigned
  rw [ZSigRecord.sigBytes, ZSigRecord.sigBytes, leftPresent, rightPresent,
    Option.getD_some, Option.getD_some] at sigBytes
  have sig : left.sig = right.sig := by
    rw [leftPresent, rightPresent, sigBytes]
  exact ZSigRecord.ext header typeCovered algorithm labels originalTtl expires
    inception keyTag signer sig

theorem ZKeyLinkRecord.eq_of_encode {left right : ZKeyLinkRecord}
    (header : left.header = right.header)
    (leftCanonical : (ZRecord.keyLink left).Canonical)
    (rightCanonical : (ZRecord.keyLink right).Canonical)
    (leftRead : (ZRecord.keyLink left).Read)
    (rightRead : (ZRecord.keyLink right).Read)
    (equal : left.encode ++ leftTail = right.encode ++ rightTail) :
    left = right := by
  obtain ⟨leftSpeaker, leftSpokenFor⟩ := leftRead.exact left rfl
  obtain ⟨rightSpeaker, rightSpokenFor⟩ := rightRead.exact right rfl
  simp only [ZKeyLinkRecord.encode, append_assoc, header, append_cancel_left_eq] at equal
  obtain ⟨speaker, equal⟩ := ZPubKeyRecord.encode_append_inj leftCanonical.2.1
    rightCanonical.2.1 leftSpeaker rightSpeaker equal
  obtain ⟨spokenFor, -⟩ := ZPubKeyRecord.encode_append_inj leftCanonical.2.2
    rightCanonical.2.2 leftSpokenFor rightSpokenFor equal
  exact ZKeyLinkRecord.ext header speaker spokenFor

theorem ZSigRecord.sig_of_parse {memory : List UInt8} {size : Nat} {record : ZSigRecord}
    (parsed : ZSigRecord.parse memory size = .ok record) :
    record.sig.isSome := by
  obtain ⟨wire, signer, sig, tail, -, -, -, present, -⟩ := ZSigRecord.parse_eq_ok_iff.mp parsed
  rw [present]
  rfl

/-- Two records that were read and have the same encoding in front of any
bytes are equal. -/
theorem ZRecord.isEqual_of_encode {left right : ZRecord} {leftMemory rightMemory : List UInt8}
    {leftSize rightSize : Nat}
    (leftParsed : left.ParsedFrom leftMemory leftSize)
    (rightParsed : right.ParsedFrom rightMemory rightSize)
    (leftCanonical : left.Canonical) (rightCanonical : right.Canonical)
    (leftWhole : left.Whole) (rightWhole : right.Whole)
    (typed : left.KeysTyped)
    (equal : left.encode ++ leftTail = right.encode ++ rightTail) :
    left.isEqual right = .ok true := by
  have leftRead := leftParsed.read
  have rightRead := rightParsed.read
  obtain ⟨leftBody, leftSplit⟩ := left.exists_encode_eq
  obtain ⟨rightBody, rightSplit⟩ := right.exists_encode_eq
  have header : left.header = right.header := by
    rw [leftSplit, rightSplit, append_assoc, append_assoc] at equal
    exact (RecordHeader.encode_append_inj leftCanonical.owner
      rightCanonical.owner leftRead.consistent rightRead.consistent equal).1
  have type : left.header.type = right.header.type := by rw [header]
  -- The type in the generic fields rules out records of different kinds.
  cases left with
  | binary left =>
    rw [show (ZRecord.binary left).header.type = _ from leftParsed.2] at type
    cases right with
    | binary right =>
      exact ZBinaryRecord.isEqual_of_encode header rightParsed.2 leftWhole rightWhole equal
    | delegation right => exact rightParsed.elim
    | _ => exact absurd (type.trans rightParsed.2) (by decide)
  | sig left =>
    rw [show (ZRecord.sig left).header.type = _ from leftParsed.2] at type
    cases right with
    | sig right =>
      obtain rfl := ZSigRecord.eq_of_encode header leftCanonical.2
        rightCanonical.2 leftWhole rightWhole
        (sig_of_parse leftParsed.1)
        (sig_of_parse rightParsed.1) equal
      exact ZSigRecord.isEqual_self leftParsed.2 leftWhole
    | delegation right => exact rightParsed.elim
    | _ => exact absurd (type.trans rightParsed.2) (by decide)
  | key left =>
    rw [show (ZRecord.key left).header.type = _ from leftParsed.2] at type
    cases right with
    | key right =>
      obtain ⟨rfl, -⟩ := ZPubKeyRecord.encode_append_inj leftCanonical
        rightCanonical ⟨leftWhole, leftRead.consistent⟩
        ⟨rightWhole, rightRead.consistent⟩ equal
      exact ZPubKeyRecord.isEqual_self leftParsed.2 leftWhole
    | delegation right => exact rightParsed.elim
    | _ => exact absurd (type.trans rightParsed.2) (by decide)
  | delegation left => exact leftParsed.elim
  | keyLink left =>
    rw [show (ZRecord.keyLink left).header.type = _ from leftParsed.2] at type
    cases right with
    | keyLink right =>
      obtain rfl := ZKeyLinkRecord.eq_of_encode header leftCanonical
        rightCanonical leftRead rightRead equal
      have speaker := ZPubKeyRecord.isEqual_self typed.1 leftWhole.1
      have spokenFor := ZPubKeyRecord.isEqual_self typed.2 leftWhole.2
      simp [ZRecord.isEqual, ZKeyLinkRecord.isEqual, leftParsed.2, speaker, spokenFor]
    | delegation right => exact rightParsed.elim
    | _ => exact absurd (type.trans rightParsed.2) (by decide)

/-! ## Signed bytes -/

namespace ZCert

theorem binary_whole_of_serialize
    {record : ZBinaryRecord} {buffer : List UInt8} {base : Nat} {result : List UInt8 × Nat}
    (consistent : record.header.Consistent)
    (room : buffer.length = base + record.header.size)
    (stored : record.serialize buffer base = .ok result) :
    (ZRecord.binary record).Whole := by
  have bounded := record.header.dataLength.toNat_lt
  rw [ZBinaryRecord.serialize] at stored
  have enough := serializeWith_enough stored
  rw [serializeWith_eq_store record.fields_length enough, store_eq_ok_iff] at stored
  obtain ⟨fits, -⟩ := stored
  have taken := length_take_of_le enough
  rw [Consistent] at consistent
  simp only [RecordHeader.body, length_append, DomainName.written_length,
    RecordHeader.fields_length, ZBinaryRecord.fields_length, taken] at fits
  have covers : 4 ≤ record.header.dataLength.toNat := by
    omega
  rw [sub16_of_le covers bounded] at enough
  exact ⟨covers, enough⟩

section SignedBytes

variable {memory : Allocation} {sig : ZSigRecord} {object : ZRecord}
  (signer : sig.signerName.Canonical) (canonical : object.Canonical)
include signer canonical

theorem signedBytes_canonical (whole : object.Whole) : signedBytes memory sig object =
      writeBytes (memory.cells ((sig.headerSize + object.size) % 2 ^ 32)) 0
        (sig.encodeHead ++ object.encode) := by
  obtain ⟨count, written⟩ := ZRecord.serialize_canonical canonical whole
  simp only [signedBytes, serializeHead_canonical signer, written, store, bind_assoc, pure_bind]
  rw [writeBytes_append (by rw [encodeHead_length signer, Nat.zero_add])
    (fun _ => object.encode), bind_pure]

/-- The signed bytes of a certificate with canonical names start with the
encodings of the signature record and of the object. -/
theorem signedBytes_layout {source bytes : List UInt8} {size : Nat}
    (parsed : object.ParsedFrom source size)
    (signed : signedBytes memory sig object = .ok bytes) :
    object.Whole ∧ ∃ tail, bytes = sig.encodeHead ++ (object.encode ++ tail) := by
  have read := parsed.read
  have whole : object.Whole := by
    cases object with
    | binary record =>
      have bufferLen : (sig.headerSize + record.header.size) % 2 ^ 32 =
          sig.headerSize + record.header.size := by
        have total := read.consistent
        have bounded := record.header.dataLength.toNat_lt
        have ownerShort := record.header.owner.size_le
        have signerShort := sig.signerName.size_le
        have head : sig.headerSize = ZSigRecord.constSize + sig.signerName.size := rfl
        have const : ZSigRecord.constSize = 18 ∧ RecordHeader.constSize = 10 := ⟨rfl, rfl⟩
        simp only [Consistent, ZRecord.header] at total
        exact Nat.mod_eq_of_lt (by omega)
      obtain ⟨⟨headed, headerLen⟩, head, signed⟩ := of_bind signed
      obtain ⟨_, stored, -⟩ := of_bind signed
      rw [serializeHead_canonical signer, store_eq_ok_iff] at head
      obtain ⟨room, rfl, rfl⟩ := head
      refine binary_whole_of_serialize read.consistent ?_ stored
      rw [patch_length room, memory.cells_length]
      exact bufferLen
    | _ => exact read.whole (by simp)
  rw [signedBytes_canonical signer canonical whole, writeBytes_eq_ok_iff] at signed
  obtain ⟨-, rfl⟩ := signed
  rw [patch_zero, append_assoc]
  exact ⟨whole, _, rfl⟩

end SignedBytes

/-- Two parsed certificates with canonical names and the same signed bytes
state the same. -/
theorem signedBytes_binding {leftSource rightSource : List UInt8} {leftSize rightSize : Nat}
    {left right : ZCert} {leftObject rightObject : ZRecord}
    {leftSig rightSig : ZSigRecord} {leftMemory rightMemory : Allocation}
    {bytes : List UInt8}
    (leftParsed : ZCert.parse leftSource leftSize = .ok left)
    (rightParsed : ZCert.parse rightSource rightSize = .ok right)
    (leftPresent : left.object = some leftObject ∧ left.sig = some leftSig)
    (rightPresent : right.object = some rightObject ∧ right.sig = some rightSig)
    (leftCanonical : leftObject.Canonical ∧ leftSig.signerName.Canonical)
    (rightCanonical : rightObject.Canonical ∧ rightSig.signerName.Canonical)
    (typed : leftObject.KeysTyped)
    (leftSigned : signedBytes leftMemory leftSig leftObject = .ok bytes)
    (rightSigned : signedBytes rightMemory rightSig rightObject = .ok bytes) :
    leftObject.isEqual rightObject = .ok true ∧ leftSig.typeCovered = rightSig.typeCovered ∧
      leftSig.algorithm = rightSig.algorithm ∧
      leftSig.labels = rightSig.labels ∧
      leftSig.originalTtl = rightSig.originalTtl ∧
      leftSig.expires = rightSig.expires ∧
      leftSig.inception = rightSig.inception ∧
      leftSig.keyTag = rightSig.keyTag ∧
      leftSig.signerName = rightSig.signerName := by
  obtain ⟨leftBody, leftLeft, leftRead⟩ := object_of_parse leftParsed leftPresent.1
  obtain ⟨rightBody, rightLeft, rightRead⟩ := object_of_parse rightParsed rightPresent.1
  obtain ⟨leftWhole, leftTail, rfl⟩ := signedBytes_layout
    leftCanonical.2 leftCanonical.1 leftRead leftSigned
  obtain ⟨rightWhole, rightTail, same⟩ := signedBytes_layout
    rightCanonical.2 rightCanonical.1 rightRead rightSigned
  obtain ⟨fields, same⟩ := encodeHead_append_inj leftCanonical.2 rightCanonical.2 same
  exact ⟨ZRecord.isEqual_of_encode leftRead rightRead leftCanonical.1
    rightCanonical.1 leftWhole rightWhole typed same, fields⟩

/-! ## Samples -/

/-- A certificate for a binary record, signed by the one-letter name
`letter`.  The lengths in front of the parts are `stamp`. -/
def sample (letter stamp : UInt8) : List UInt8 :=
  [0, 0, 0, stamp, 0, 0, 16, 0, 1, 0, 0, 0, 0, 0, 4, 0, 0, 0, 3,
    0, 0, 0, stamp, 0, 0, 43, 0, 1, 0, 0, 0, 0, 0, 21, 0, 16, 5, 1, 0, 0, 0, 0,
    0, 0, 0, 9, 0, 0, 0, 1, 0, 0, 1, letter, 0, 0, 0, 0, 0]

/-- The object of `sample`. -/
def sampleObject : ZRecord :=
  .binary ⟨⟨WireName.root.toDomainName, 16, 1, 0, 4, 15⟩, 0, 3, [0]⟩

/-- The signature record of `sample`. -/
def sampleSig (letter : UInt8) : ZSigRecord :=
  ⟨⟨WireName.root.toDomainName, 43, 1, 0, 21, 32⟩, 16, 5, 1, 0, 9, 1, 0,
    (⟨[[letter]], by simp, by simp⟩ : WireName).toDomainName, some []⟩

theorem sample_canonical : sampleObject.Canonical ∧ (sampleSig 97).signerName.Canonical := by
  refine ⟨⟨WireName.root, ?_, rfl⟩, ⟨[[97]], by simp, by simp⟩, ?_, rfl⟩
  · decide +kernel
  · decide +kernel

/-- Two certificates that differ in bytes outside the signed part. -/
theorem signedBytes_binding_sample : sample 97 1 ≠ sample 97 15 ∧
      sampleObject.isEqual sampleObject = .ok true := by
  refine ⟨by decide, ?_⟩
  exact (@signedBytes_binding (sample 97 1) (sample 97 15) 59 59
    ⟨some sampleObject, some (sampleSig 97), none⟩
    ⟨some sampleObject, some (sampleSig 97), none⟩
    sampleObject sampleObject (sampleSig 97) (sampleSig 97) .blank .blank
    [0, 16, 5, 1, 0, 0, 0, 0, 0, 0, 0, 9, 0, 0, 0, 1, 0, 0, 1, 97, 0, 0, 0, 16,
      0, 1, 0, 0, 0, 0, 0, 4, 0, 0, 0, 3]
    (by decide) (by decide) ⟨rfl, rfl⟩ ⟨rfl, rfl⟩ sample_canonical
    sample_canonical trivial (by decide) (by decide)).1

/-- The signers `A` and `a` are different names, and a signature over the
certificate of one covers that of the other. -/
theorem signedBytes_upper_case : ZCert.parse (sample 65 1) 59 =
        .ok ⟨some sampleObject, some (sampleSig 65), none⟩ ∧
      ZCert.parse (sample 97 1) 59 = .ok ⟨some sampleObject, some (sampleSig 97), none⟩ ∧
      signedBytes .blank (sampleSig 65) sampleObject =
        signedBytes .blank (sampleSig 97) sampleObject ∧
      (signedBytes .blank (sampleSig 97) sampleObject).isOk ∧
      (sampleSig 65).signerName ≠ (sampleSig 97).signerName ∧
      (sampleSig 65).signerName.equals (sampleSig 97).signerName = false := by
  decide

end ZCert

end Embassies.Crypto
