import Embassies.Crypto.Binding

/-!
# Sending certificates

A record can be sent when its lengths count what its serializer writes and its
names are canonical.  A certificate whose three parts can be sent is written as
one fixed string of bytes and read back as an equal certificate, also as one of
the certificates in a chain.

A binary record comes back with one more digest byte, the first byte after it;
neither the comparison nor the signature looks at that byte.
-/

namespace Embassies.Crypto

open Library Library.Buffer Library.Checked RecordHeader List

/-! ## Records -/

namespace ZPubKeyRecord

/-- A key record that can be sent. -/
structure Sendable (record : ZPubKeyRecord) : Prop where
  type : record.header.type = typeKey
  consistent : record.header.Consistent
  exact : record.Exact
  canonical : record.header.owner.Canonical

variable {record : ZPubKeyRecord}

theorem Sendable.encode_length (sendable : record.Sendable) :
    record.encode.length = record.size := by
  rw [ZPubKeyRecord.encode_length sendable.canonical sendable.exact, size, sendable.consistent]

theorem Sendable.parse (sendable : record.Sendable) {tail : List UInt8} {limit : Nat}
    (fits : record.size ≤ limit) :
    ZPubKeyRecord.parse (record.encode ++ tail) limit = .ok record := by
  obtain ⟨wire, owned, encoded⟩ := sendable.canonical.exists_wire
  refine ZPubKeyRecord.parse_eq_ok_iff.mpr ⟨wire, tail, ?_, owned,
    sendable.consistent, fits, sendable.exact⟩
  simp only [encode, RecordHeader.encode, encoded, append_assoc]

end ZPubKeyRecord

namespace ZSigRecord

/-- A signature record that can be sent. -/
structure Sendable (record : ZSigRecord) : Prop where
  type : record.header.type = typeSig
  consistent : record.header.Consistent
  exact : record.Exact
  signed : record.sig.isSome
  canonical : record.header.owner.Canonical
  signer : record.signerName.Canonical

variable {record : ZSigRecord}

theorem Sendable.encode_length (sendable : record.Sendable) :
    record.encode.length = record.size := by
  rw [ZSigRecord.encode_length sendable.signer sendable.canonical
    sendable.exact, size, sendable.consistent]

theorem Sendable.parse (sendable : record.Sendable) {tail : List UInt8} {limit : Nat}
    (fits : record.size ≤ limit) :
    ZSigRecord.parse (record.encode ++ tail) limit = .ok record := by
  obtain ⟨wire, owned, encoded⟩ := sendable.canonical.exists_wire
  obtain ⟨signer, signed, signerEncoded⟩ := sendable.signer.exists_wire
  obtain ⟨sig, present⟩ := Option.isSome_iff_exists.mp sendable.signed
  have stored : record.sigBytes = sig := by
    rw [sigBytes, present, Option.getD_some]
  have exact := sendable.exact
  rw [Exact, headerSize, signed, signer.toDomainName_size, stored] at exact
  refine ZSigRecord.parse_eq_ok_iff.mpr ⟨wire, signer, sig, tail, ?_, owned,
    signed, present, sendable.consistent, fits, exact⟩
  simp only [encode, encodeHead, RecordHeader.encode, encoded, signerEncoded, stored, append_assoc]

end ZSigRecord

namespace ZRecord

/-- A record that can be sent as the object of a certificate. -/
def Sendable : ZRecord → Prop
  | .binary record =>
    record.header.type = typeBinary ∧ record.header.Consistent ∧
      record.header.owner.Canonical ∧
      record.header.dataLength.toNat = 4 + record.digest.length
  | .key record => record.Sendable
  | .keyLink record =>
    record.header.type = typeKeyLink ∧ record.header.Consistent ∧
      record.header.owner.Canonical ∧
      record.header.dataLength.toNat =
        record.keySpeaker.size + record.keySpokenFor.size ∧
      record.keySpeaker.Sendable ∧ record.keySpokenFor.Sendable
  | _ => False

variable {record : ZRecord} (sendable : record.Sendable)

include sendable

theorem Sendable.canonical : record.Canonical := by
  cases record with
  | binary record => exact sendable.2.2.1
  | sig record => exact sendable.elim
  | key record => exact ZPubKeyRecord.Sendable.canonical sendable
  | delegation record => exact sendable.elim
  | keyLink record =>
    obtain ⟨-, -, owner, -, speaker, spokenFor⟩ := sendable
    exact ⟨owner, speaker.canonical, spokenFor.canonical⟩

theorem Sendable.whole : record.Whole := by
  cases record with
  | binary record =>
    obtain ⟨-, -, -, length⟩ := sendable
    exact ⟨by omega, by omega⟩
  | sig record => exact sendable.elim
  | key record => exact ZPubKeyRecord.Sendable.exact sendable
  | delegation record => exact sendable.elim
  | keyLink record =>
    obtain ⟨-, -, -, -, speaker, spokenFor⟩ := sendable
    exact ⟨speaker.exact, spokenFor.exact⟩

theorem Sendable.consistent : record.header.Consistent := by
  cases record with
  | binary record => exact sendable.2.1
  | sig record => exact sendable.elim
  | key record => exact ZPubKeyRecord.Sendable.consistent sendable
  | delegation record => exact sendable.elim
  | keyLink record => exact sendable.2.1

theorem Sendable.encode_length : record.encode.length = record.size := by
  have whole := sendable.whole
  have consistent := sendable.consistent
  cases record with
  | binary record =>
    rw [encode, encodeWith_length sendable.2.2.1 record.fields_length whole.1 whole.2]
    exact consistent.symm
  | sig record => exact sendable.elim
  | key record => exact ZPubKeyRecord.Sendable.encode_length sendable
  | delegation record => exact sendable.elim
  | keyLink record =>
    obtain ⟨-, -, owner, length, speaker, spokenFor⟩ := sendable
    rw [encode, ZKeyLinkRecord.encode, length_append,
      length_append, RecordHeader.encode_length owner,
      speaker.encode_length, spokenFor.encode_length, ← length]
    exact consistent.symm

/-- What has to agree between a record that was sent and the record that
arrives. -/
structure Echo (record again : ZRecord) : Prop where
  header : again.header = record.header
  encode : again.encode = record.encode
  canonical : again.Canonical
  whole : again.Whole
  forth : record.isEqual again = .ok true
  back : again.isEqual record = .ok true

theorem Sendable.reread {tail : List UInt8}
    {limit : Nat} (more : tail ≠ []) (fits : record.size ≤ limit) :
    ∃ again : ZRecord, again.ParsedFrom (record.encode ++ tail) limit ∧ record.Echo again := by
  cases record with
  | binary record =>
    obtain ⟨type, consistent, canonical, length⟩ := sendable
    obtain ⟨wire, owned, encoded⟩ := canonical.exists_wire
    obtain ⟨extra, rest, rfl⟩ := exists_cons_of_ne_nil more
    have bounded := record.header.dataLength.toNat_lt
    have count : record.header.dataLength.toNat - 4 = record.digest.length := by omega
    have compared : sub32 record.header.dataLength.toNat 4 = record.digest.length := by
      rw [sub32_of_le (by omega) (by omega)]
      omega
    have taken : (record.digest ++ [extra]).take record.digest.length = record.digest := take_left
    refine ⟨.binary ⟨record.header, record.flags, record.digestType,
      record.digest ++ [extra]⟩, ⟨ZBinaryRecord.parse_eq_ok_iff.mpr
        ⟨wire, rest, ?_, owned, consistent, fits, ?_⟩, type⟩, ⟨rfl, ?_,
      canonical, ⟨by show 4 ≤ record.header.dataLength.toNat; omega, ?_⟩,
      ?_, ?_⟩⟩
    · simp [encode, encodeWith, RecordHeader.encode, encoded, count, ZBinaryRecord.fields]
    · rw [sub16_of_le (by omega) bounded, length_append, length_singleton]
      omega
    · simp only [encode, encodeWith, count, taken, take_length]
      rfl
    · show record.header.dataLength.toNat - 4 ≤ (record.digest ++ [extra]).length
      rw [length_append]
      omega
    · refine ZBinaryRecord.isEqual_eq_true_iff.mpr ⟨equal_self _, type, rfl, rfl, ?_⟩
      rw [compared]
      refine compareBytes_eq_ok_true_iff.mpr ⟨le_rfl, ?_, ?_⟩
      · simp
      · rw [taken, take_length]
    · refine ZBinaryRecord.isEqual_eq_true_iff.mpr ⟨equal_self _, type, rfl, rfl, ?_⟩
      rw [compared]
      refine compareBytes_eq_ok_true_iff.mpr ⟨?_, le_rfl, ?_⟩
      · simp
      · rw [taken, take_length]
  | sig record => exact sendable.elim
  | key record =>
    have same := ZPubKeyRecord.isEqual_self sendable.type sendable.exact
    exact ⟨.key record, ⟨sendable.parse fits, sendable.type⟩, ⟨rfl, rfl,
      sendable.canonical, sendable.exact, same, same⟩⟩
  | delegation record => exact sendable.elim
  | keyLink record =>
    have canonical := sendable.canonical
    have whole := sendable.whole
    obtain ⟨type, consistent, owner, counted, speaker, spokenFor⟩ := sendable
    obtain ⟨wire, owned, encoded⟩ := owner.exists_wire
    have total : record.header.size ≤ limit := fits
    have speakerSame := ZPubKeyRecord.isEqual_self speaker.type speaker.exact
    have spokenForSame := ZPubKeyRecord.isEqual_self spokenFor.type spokenFor.exact
    have same : record.isEqual record = .ok true := by
      simp [ZKeyLinkRecord.isEqual, type, speakerSame, spokenForSame]
    rw [Consistent] at consistent
    refine ⟨.keyLink record, ⟨ZKeyLinkRecord.parse_eq_ok_iff.mpr ⟨wire,
      record.keySpeaker.encode ++ (record.keySpokenFor.encode ++ tail), ?_,
      owned, consistent, total, speaker.parse (by omega), ?_⟩, type⟩, ⟨rfl,
      rfl, canonical, whole, same, same⟩⟩
    · simp only [encode, ZKeyLinkRecord.encode, RecordHeader.encode, encoded, append_assoc]
    · rw [drop_left' speaker.encode_length]
      exact spokenFor.parse (by omega)

end ZRecord

/-! ## Certificates -/

namespace ZCert

section Parts

variable {α : Type} {size : α → Nat} {part : α} {encoding : List UInt8}
  {serialize : α → List UInt8 → Nat → Except Halt (List UInt8 × Nat)}

/-- The serializer writes `encoding`. -/
def Writes (serialize : α → List UInt8 → Nat → Except Halt (List UInt8 × Nat))
    (part : α) (encoding : List UInt8) : Prop :=
  ∃ count, ∀ buffer base, serialize part buffer base = store buffer base encoding count

/-- A part in its serialized form. -/
def encodePart (size : α → Nat) (part : α) (encoding : List UInt8) :
    List UInt8 :=
  int (UInt32.ofNat (size part)) ++ encoding

theorem encodePart_length (counts : encoding.length = size part) :
    (encodePart size part encoding).length = 4 + size part := by
  rw [encodePart, length_append, int_length, counts]

theorem serializePart_some (writes : Writes serialize part encoding) (buffer : List UInt8)
    (base : Nat) :
    serializePart size serialize (some part) buffer base =
      store buffer base (encodePart size part encoding) (base + 4 + size part) := by
  obtain ⟨count, written⟩ := writes
  simp only [serializePart, written, store, bind_assoc, pure_bind]
  exact writeBytes_append (by rw [int_length]) (fun _ => encoding) _

theorem parsePart_encodePart {parse : List UInt8 → Nat → Except Halt α} {value : α}
    {rest : List UInt8} {limit : Nat}
    (parsed : parse (encoding ++ rest) (limit - 4) = .ok value)
    (counts : encoding.length = size value)
    (stamp : UInt32.ofNat (size part) ≠ 0) (enough : 4 ≤ limit) :
    parsePart parse size (encodePart size part encoding ++ rest) limit =
      .ok (some value, rest, limit - 4 - size value) := by
  refine parsePart_eq_ok_iff.mpr ⟨enough, _, encoding ++ rest,
    append_assoc .., .inr ⟨stamp, value, parsed, rfl, ?_, rfl⟩⟩
  rw [drop_left' counts]

end Parts

end ZCert

open ZCert

theorem ZRecord.Sendable.writes {record : ZRecord} (sendable : record.Sendable) :
    Writes ZRecord.serialize record record.encode :=
  ZRecord.serialize_canonical sendable.canonical sendable.whole

theorem ZSigRecord.Sendable.writes {record : ZSigRecord} (sendable : record.Sendable) :
    Writes ZSigRecord.serialize record record.encode :=
  ⟨_, ZSigRecord.serialize_canonical sendable.signer sendable.canonical sendable.exact⟩

theorem ZPubKeyRecord.Sendable.writes {record : ZPubKeyRecord} (sendable : record.Sendable) :
    Writes ZPubKeyRecord.serialize record record.encode :=
  ⟨_, ZPubKeyRecord.serialize_canonical sendable.canonical sendable.exact⟩

theorem ZCert.signedBytes_room {memory : Allocation} {sig : ZSigRecord} {object : ZRecord}
    {hashed : List UInt8}
    (signer : sig.signerName.Canonical) (canonical : object.Canonical)
    (whole : object.Whole)
    (computed : signedBytes memory sig object = .ok hashed) :
    sig.headerSize + object.encode.length ≤ (sig.headerSize + object.size) % 2 ^ 32 := by
  rw [signedBytes_canonical signer canonical whole, writeBytes_eq_ok_iff, memory.cells_length,
    length_append, ZSigRecord.encodeHead_length signer, Nat.zero_add] at computed
  exact computed.1

theorem ZCert.signedBytes_eq {memory : Allocation} {sig : ZSigRecord} {object : ZRecord}
    (signer : sig.signerName.Canonical) (canonical : object.Canonical)
    (whole : object.Whole) (counts : object.encode.length = object.size)
    (small : object.size < 65900) :
    signedBytes memory sig object = .ok (sig.encodeHead ++ object.encode) := by
  have bufferLen : (sig.headerSize + object.size) % 2 ^ 32 =
      (sig.encodeHead ++ object.encode).length := by
    have head : sig.headerSize = ZSigRecord.constSize + sig.signerName.size := rfl
    have const : ZSigRecord.constSize = 18 := rfl
    have short := sig.signerName.size_le
    rw [length_append, ZSigRecord.encodeHead_length signer, counts]
    exact Nat.mod_eq_of_lt (by omega)
  have cells := memory.cells_length (sig.encodeHead ++ object.encode).length
  rw [signedBytes_canonical signer canonical whole, bufferLen, writeBytes_eq_ok (by omega),
    patch_whole cells.symm]

/-- The three parts of a certificate that can be sent. -/
structure Parcel where
  object : ZRecord
  sig : ZSigRecord
  signingKey : ZPubKeyRecord
  objectSendable : object.Sendable
  sigSendable : sig.Sendable
  keySendable : signingKey.Sendable

namespace Parcel

/-- The certificate of a parcel. -/
def toCert (parcel : Parcel) : ZCert :=
  ⟨some parcel.object, some parcel.sig, some parcel.signingKey⟩

/-- The bytes of a parcel. -/
def encode (parcel : Parcel) : List UInt8 :=
  encodePart ZRecord.size parcel.object parcel.object.encode ++
    encodePart ZSigRecord.size parcel.sig parcel.sig.encode ++
    encodePart ZPubKeyRecord.size parcel.signingKey parcel.signingKey.encode

variable (parcel : Parcel)

theorem consistent_small {header : RecordHeader} (consistent : header.Consistent) :
    0 < header.size ∧ header.size < 65900 := by
  have bounded := header.dataLength.toNat_lt
  have short := header.owner.size_le
  have const : constSize = 10 := rfl
  rw [Consistent] at consistent
  omega

theorem encode_length : parcel.encode.length =
      4 + parcel.object.size + (4 + parcel.sig.size) + (4 + parcel.signingKey.size) := by
  rw [encode, length_append, length_append, encodePart_length parcel.objectSendable.encode_length,
    encodePart_length parcel.sigSendable.encode_length,
    encodePart_length parcel.keySendable.encode_length]

theorem encode_length_lt : parcel.encode.length < 200000 := by
  have object : parcel.object.size < 65900 := (consistent_small parcel.objectSendable.consistent).2
  have sig : parcel.sig.size < 65900 := (consistent_small parcel.sigSendable.consistent).2
  have key : parcel.signingKey.size < 65900 := (consistent_small parcel.keySendable.consistent).2
  rw [encode_length]
  omega

theorem size_eq : parcel.toCert.size = parcel.encode.length := by
  have small := parcel.encode_length_lt
  have length := parcel.encode_length
  simp only [ZCert.size, toCert, partSize]
  rw [← length]
  exact Nat.mod_eq_of_lt (by omega)

theorem encode_length_pos : 0 < parcel.encode.length := by
  rw [encode_length]
  omega

theorem serialize_eq (buffer : List UInt8) (base : Nat) :
    parcel.toCert.serialize buffer base = writeBytes buffer base parcel.encode := by
  have object := encodePart_length parcel.objectSendable.encode_length
  have sig := encodePart_length parcel.sigSendable.encode_length
  simp only [ZCert.serialize, toCert, serializePart_some parcel.objectSendable.writes,
    serializePart_some parcel.sigSendable.writes, serializePart_some parcel.keySendable.writes,
    store, bind_assoc, pure_bind]
  rw [writeBytes_append (by rw [object, Nat.add_assoc]) (fun _ => encodePart _ _ _),
    writeBytes_append (by rw [length_append, object, sig]; omega), bind_pure, encode]

/-- The certificate that arrives for a parcel. -/
def Arrives (parcel : Parcel) (cert : ZCert) : Prop :=
  ∃ again, cert = ⟨some again, some parcel.sig, some parcel.signingKey⟩ ∧
    parcel.object.Echo again

theorem stamp_ne_zero {size : Nat} (positive : 0 < size) (small : size < 65900) :
    UInt32.ofNat size ≠ 0 := by
  intro zero
  have same := congrArg UInt32.toNat zero
  rw [UInt32.toNat_ofNat'] at same
  simp only [UInt32.toNat_zero] at same
  omega

theorem parse_encode {tail : List UInt8} {limit : Nat} (fits : parcel.encode.length ≤ limit) :
    ∃ cert, ZCert.parse (parcel.encode ++ tail) limit = .ok cert ∧ parcel.Arrives cert := by
  obtain ⟨objectPositive, objectSmall⟩ := consistent_small parcel.objectSendable.consistent
  obtain ⟨sigPositive, sigSmall⟩ := consistent_small parcel.sigSendable.consistent
  obtain ⟨keyPositive, keySmall⟩ := consistent_small parcel.keySendable.consistent
  rw [encode_length] at fits
  obtain ⟨again, parsed, echo⟩ := @ZRecord.Sendable.reread parcel.object parcel.objectSendable
    (encodePart ZSigRecord.size parcel.sig parcel.sig.encode ++
      (encodePart ZPubKeyRecord.size parcel.signingKey parcel.signingKey.encode ++ tail))
    (limit - 4) (by simp [encodePart, int, BigEndian.encode]) (by omega)
  have againSize : again.size = parcel.object.encode.length := by
    rw [ZRecord.size, echo.header, parcel.objectSendable.encode_length]
    rfl
  have size : again.size = parcel.object.size := againSize.trans parcel.objectSendable.encode_length
  refine ⟨_, ?_, again, rfl, echo⟩
  rw [ZCert.parse, encode, append_assoc, append_assoc,
    parsePart_encodePart (parseObject_eq_ok_iff.mpr parsed) againSize.symm
      (stamp_ne_zero objectPositive objectSmall) (by omega), ok_bind]
  dsimp only
  rw [parsePart_encodePart (parcel.sigSendable.parse (by omega))
    parcel.sigSendable.encode_length (stamp_ne_zero sigPositive sigSmall)
    (by omega), ok_bind]
  dsimp only
  rw [parsePart_encodePart (parcel.keySendable.parse (by omega))
    parcel.keySendable.encode_length (stamp_ne_zero keyPositive keySmall)
    (by omega)]
  rfl

/-! ## Chains -/

/-- The bytes of several parcels. -/
def encodeAll (parcels : List Parcel) : List UInt8 :=
  parcels.flatMap encode

variable (parcels : List Parcel)

theorem encodeAll_cons : encodeAll (parcel :: parcels) = parcel.encode ++ encodeAll parcels := rfl

theorem encodeAll_length : (encodeAll parcels).length =
      ((parcels.map toCert).map ZCert.size).sum := by
  induction parcels with
  | nil => rfl
  | cons parcel parcels induction =>
    rw [encodeAll_cons, length_append, induction, ← parcel.size_eq]
    rfl

theorem encodeAll_length_le : (encodeAll parcels).length ≤ 200000 * parcels.length := by
  induction parcels with
  | nil => simp [encodeAll]
  | cons parcel parcels induction =>
    have small := parcel.encode_length_lt
    rw [encodeAll_cons, length_append, length_cons]
    omega

theorem serializeCerts_eq {buffer first : List UInt8} {base offset : Nat}
    (continues : offset = base + first.length) :
    (do
      let buffer ← writeBytes buffer base first
      ZCertChain.serializeCerts (parcels.map toCert) buffer offset) =
      writeBytes buffer base (first ++ encodeAll parcels) := by
  induction parcels generalizing first offset with
  | nil =>
    rw [encodeAll, flatMap_nil, append_nil]
    exact bind_pure _
  | cons parcel parcels induction =>
    simp only [map_cons, ZCertChain.serializeCerts, parcel.serialize_eq]
    rw [writeBytes_append continues (fun _ => parcel.encode),
      induction (by rw [continues, length_append, parcel.size_eq, Nat.add_assoc]),
      encodeAll_cons, append_assoc]

theorem parseCerts_eq {tail : List UInt8} {count remaining : Nat} (counted : count = parcels.length)
    (fits : (encodeAll parcels).length ≤ remaining)
    (small : remaining < 2 ^ 31) :
    ∃ certs, ZCertChain.parseCerts count (encodeAll parcels ++ tail) remaining = .ok certs ∧
      List.Forall₂ Arrives parcels certs.1 := by
  subst counted
  induction parcels generalizing remaining with
  | nil => exact ⟨⟨[], rfl⟩, rfl, .nil⟩
  | cons parcel parcels induction =>
    rw [encodeAll_cons, length_append] at fits
    have positive := parcel.encode_length_pos
    obtain ⟨cert, parsed, arrives⟩ := @parse_encode parcel
      (encodeAll parcels ++ tail) remaining (by omega)
    obtain ⟨rest, others, arrive⟩ := @induction
      (remaining - parcel.encode.length) (by omega) (by omega)
    have size : cert.size = parcel.encode.length := by
      obtain ⟨again, rfl, echo⟩ := arrives
      rw [← parcel.size_eq]
      simp only [ZCert.size, partSize, toCert, ZRecord.size, echo.header]
    have left : (((remaining : Nat) : Int) - (cert.size : Nat)).bmod (2 ^ 32) =
        ((remaining - parcel.encode.length : Nat) : Int) := by
      rw [size, Int.bmod_eq_of_le (by omega) (by omega)]
      omega
    refine ⟨⟨cert :: rest.1, by rw [length_cons, rest.2]; rfl⟩, ?_, .cons arrives arrive⟩
    rw [encodeAll_cons, append_assoc]
    show ZCertChain.parseCerts (parcels.length + 1) _ _ = _
    rw [ZCertChain.parseCerts, ensure_true (by omega), ok_bind,
      Int.toNat_natCast, parsed, ok_bind, left, size,
      drop_left' rfl, others]
    rfl

/-- A chain of parcels is written and read back. -/
theorem chain_roundTrip (chain : ZCertChain) {garbage : List UInt8}
    (same : chain.certs = parcels.map toCert)
    (room : garbage.length = chain.size) :
    ∃ bytes again, chain.serialize garbage = .ok bytes ∧
      ZCertChain.parse bytes chain.size = .ok again ∧
      List.Forall₂ Arrives parcels again.certs := by
  have few : parcels.length ≤ 10 := by
    have bounded := chain.bounded
    rwa [same, length_map] at bounded
  have short := encodeAll_length_le parcels
  have byte : (UInt8.ofNat chain.certs.length).toNat = parcels.length := by
    rw [same, length_map, UInt8.toNat_ofNat']
    omega
  have size : chain.size = 1 + (encodeAll parcels).length := by
    rw [ZCertChain.size, same, ← encodeAll_length]
    exact Nat.mod_eq_of_lt (by omega)
  have stored := @serializeCerts_eq parcels garbage [UInt8.ofNat chain.certs.length] 0 1 rfl
  rw [← same] at stored
  have whole : patch garbage 0 ([UInt8.ofNat chain.certs.length] ++
      encodeAll parcels) = UInt8.ofNat chain.certs.length :: encodeAll parcels := by
    refine patch_whole ?_
    rw [length_append, length_singleton]
    omega
  obtain ⟨certs, parsed, arrive⟩ := @parseCerts_eq parcels []
    (UInt8.ofNat chain.certs.length).toNat (chain.size - 1) byte (by omega)
    (by omega)
  refine ⟨UInt8.ofNat chain.certs.length :: encodeAll parcels,
    ⟨certs.1, by rw [certs.2, byte]; exact few⟩, ?_, ?_, arrive⟩
  · rw [ZCertChain.serialize, stored, writeBytes_eq_ok
      (by rw [length_append, length_singleton]; omega), whole]
  · have remaining : (((chain.size - 1 : Nat)) : Int).bmod (2 ^ 32) =
        ((chain.size - 1 : Nat) : Int) :=
      Int.bmod_eq_of_le (by omega) (by omega)
    rw [append_nil] at parsed
    simp only [ZCertChain.parse, ensure_true (by omega : 1 ≤ chain.size),
      ok_bind, parseByte, remaining]
    rw [dif_pos (by rw [byte]; exact few), parsed]
    rfl

end Parcel

end Embassies.Crypto
