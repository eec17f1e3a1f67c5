import Embassies.Crypto.CanonicalRecord
import Embassies.Crypto.Cert
import Embassies.Crypto.Spawn

/-!
# The layout of certificates

A serialized certificate is a sequence of three parts, each a length followed
by a record.  The parser only looks at whether the length is zero; the record
says itself how long it is.  What is hashed for a signature is laid out from
the parsed records again.
-/

namespace Embassies.Crypto

open Library Library.Buffer Library.Checked

variable {memory : List UInt8} {size : Nat} {cert : ZCert} {object : ZRecord}

theorem deref_eq_ok_iff {α : Type} {pointer : Option α} {value : α} :
    deref pointer = .ok value ↔ pointer = some value := by
  cases pointer <;> simp [deref]

namespace ZCert

/-! ## Parsing -/

theorem parsePart_eq_ok_iff {α : Type} {parse : List UInt8 → Nat → Except Halt α}
    {partSize : α → Nat} {rest : List UInt8} {left : Nat} {part : Option α} :
    parsePart parse partSize memory size = .ok (part, rest, left) ↔
      4 ≤ size ∧ ∃ recordSize body, memory = int recordSize ++ body ∧
        ((recordSize = 0 ∧ part = none ∧ rest = body ∧ left = size - 4) ∨
          (recordSize ≠ 0 ∧ ∃ value, parse body (size - 4) = .ok value ∧
            part = some value ∧ rest = body.drop (partSize value) ∧
            left = size - 4 - partSize value)) := by
  simp only [parsePart, bind_eq_ok_iff, ensure_eq_ok_iff, Prod.exists, parseInt_eq_ok_iff]
  constructor
  · rintro ⟨_, enough, recordSize, body, rfl, read⟩
    refine ⟨enough, recordSize, body, rfl, ?_⟩
    by_cases absent : recordSize = 0
    · rw [if_pos absent] at read
      cases read
      exact .inl ⟨absent, rfl, rfl, rfl⟩
    · rw [if_neg absent] at read
      obtain ⟨value, parsed, returned⟩ := of_bind read
      cases returned
      exact .inr ⟨absent, value, parsed, rfl, rfl, rfl⟩
  · rintro ⟨enough, recordSize, body, rfl, absent | present⟩
    · obtain ⟨absent, rfl, rfl, rfl⟩ := absent
      exact ⟨⟨⟩, enough, recordSize, rest, rfl, if_pos absent⟩
    · obtain ⟨present, value, parsed, rfl, rfl, rfl⟩ := present
      refine ⟨⟨⟩, enough, recordSize, body, rfl, ?_⟩
      rw [if_neg present, parsed]
      rfl

theorem parseObject_eq_ok_iff :
    parseObject memory size = .ok object ↔ object.ParsedFrom memory size := by
  rw [← ZRecord.spawn_eq_some_iff, parseObject]
  cases ZRecord.spawn memory size with
  | error reason => simp
  | ok spawned =>
    cases spawned with
    | none => simp
    | some value => simp

/-- The signature follows the object at the distance that the parsed object
has as its size; a length of zero there means that there is none. -/
theorem sig_after_object (parsed : ZCert.parse memory size = .ok cert)
    (present : cert.object = some object) :
    ∃ stamp body left, memory = int stamp ++ body ∧ object.ParsedFrom body left ∧
      ∃ sigStamp rest, body.drop object.size = int sigStamp ++ rest ∧
        (sigStamp = 0 → cert.sig = none) := by
  simp only [parse, bind_eq_ok_iff, Prod.exists, parsePart_eq_ok_iff] at parsed
  obtain ⟨_, _, _, ⟨_, stamp, body, layout, absent | found⟩, _, _, _,
    ⟨_, sigStamp, rest, next, sigFound⟩, _, _, _, _, returned⟩ := parsed
  · cases returned
    rw [absent.2.1] at present
    cases present
  · obtain ⟨_, value, read, rfl, rfl, _⟩ := found
    cases returned
    cases present
    refine ⟨stamp, body, _, layout, parseObject_eq_ok_iff.mp read, sigStamp, rest, next, ?_⟩
    intro zero
    rcases sigFound with missing | there
    · exact missing.2.1
    · exact absurd zero there.1

theorem object_of_parse (parsed : ZCert.parse memory size = .ok cert)
    (present : cert.object = some object) :
    ∃ body left, object.ParsedFrom body left := by
  obtain ⟨-, body, left, -, read, -⟩ := sig_after_object parsed present
  exact ⟨body, left, read⟩

theorem signingKey_of_parse {key : ZPubKeyRecord} (parsed : ZCert.parse memory size = .ok cert)
    (present : cert.signingKey = some key) :
    ∃ body left, ZPubKeyRecord.parse body left = .ok key := by
  simp only [parse, bind_eq_ok_iff, Prod.exists, parsePart_eq_ok_iff] at parsed
  obtain ⟨_, _, _, _, _, _, _, _, part, _, _, ⟨_, _, body, _, absent | found⟩, returned⟩ := parsed
  · cases returned
    rw [absent.2.1] at present
    cases present
  · obtain ⟨_, value, read, rfl, _⟩ := found
    cases returned
    cases present
    exact ⟨_, _, read⟩

/-! ## Signing, verifying and comparing -/

section Steps

variable {Context : Type} {platform : Platform Context} {memory : Allocation} {cert : ZCert}

theorem sign_eq_ok_iff {key : ZPrivKey Context} {signed : ZCert} :
    cert.sign platform memory key = .ok signed ↔ ∃ fresh, cert.sig = some fresh ∧
      ∃ tag, key.pubKey.record.getTag memory = .ok tag ∧
      ∃ addressed, (fresh.setKeyTag tag).setSignerName key.owner = .ok addressed ∧
      ∃ object, cert.object = some object ∧
      ∃ buffer, signedBytes memory addressed object = .ok buffer ∧
      ∃ sig, addressed.setSig (key.sign platform buffer) = .ok sig ∧
      ∃ signingKey, key.pubKey.record.copy = .ok signingKey ∧
        ⟨some object, some sig, some signingKey⟩ = signed := by
  simp only [sign, bind_eq_ok_iff, deref_eq_ok_iff, pure_eq_ok, Except.ok.injEq]

/-- What a positive verification has checked. -/
theorem verify_eq_true_iff {key : ZPubKey Context} : cert.verify platform memory key = .ok true ↔
      ∃ sig object buffer, cert.sig = some sig ∧ cert.object = some object ∧
        object.getType = sig.typeCovered ∧
        sig.inception < platform.getCurrentTime ∧
        platform.getCurrentTime < sig.expires ∧
        sig.signerName.equals key.owner = true ∧
        signedBytes memory sig object = .ok buffer ∧
        signatureSize ≤ sig.sigBytes.length ∧
        platform.rsaVerify key.context (platform.zhash buffer) sig.sigBytes = true := by
  simp only [verify, bind_eq_ok_iff, deref_eq_ok_iff]
  constructor
  · rintro ⟨sig, signed, object, present, checked⟩
    by_cases accepted : object.getType = sig.typeCovered ∧ sig.inception < platform.getCurrentTime ∧
        platform.getCurrentTime < sig.expires ∧
        sig.signerName.equals key.owner = true
    · rw [if_pos accepted] at checked
      simp only [bind_eq_ok_iff, ZPubKey.verify, ensure_eq_ok_iff, pure_eq_ok,
        Except.ok.injEq] at checked
      obtain ⟨buffer, hashed, _, length, valid⟩ := checked
      exact ⟨sig, object, buffer, signed, present, accepted.1, accepted.2.1,
        accepted.2.2.1, accepted.2.2.2, hashed, length, valid⟩
    · rw [if_neg accepted] at checked
      cases checked
  · rintro ⟨sig, object, buffer, signed, present, type, later, earlier, named,
      hashed, length, valid⟩
    refine ⟨sig, signed, object, present, ?_⟩
    rw [if_pos ⟨type, later, earlier, named⟩, hashed, ok_bind, ZPubKey.verify,
      ensure_true length, ok_bind, valid]
    rfl

theorem equalParts_some_left {α : Type} {isEqual : α → α → Except Halt Bool} {left : α}
    {right : Option α} : equalParts isEqual (some left) right = .ok true ↔
      ∃ part, right = some part ∧ isEqual left part = .ok true := by
  cases right <;> simp [equalParts]

theorem equals_eq_true_iff {left right : ZCert} : left.equals right = .ok true ↔
      equalParts ZRecord.isEqual left.object right.object = .ok true ∧
      equalParts ZSigRecord.isEqual left.sig right.sig = .ok true ∧
      equalParts ZPubKeyRecord.isEqual left.signingKey right.signingKey = .ok true := by
  simp only [equals, bind_eq_ok_iff]
  constructor
  · rintro ⟨object, compared, rest⟩
    cases object with
    | false => cases rest
    | true =>
      obtain ⟨sig, sigCompared, last⟩ := of_bind rest
      cases sig with
      | false => cases last
      | true => exact ⟨compared, sigCompared, last⟩
  · rintro ⟨object, sig, key⟩
    exact ⟨true, object, by rw [if_pos rfl, sig, ok_bind, if_pos rfl, key]⟩

end Steps

end ZCert

/-! ## Parsed records -/

theorem ZPubKeyRecord.exact_of_parse {record : ZPubKeyRecord}
    (parsed : ZPubKeyRecord.parse memory size = .ok record) :
    record.Exact ∧ record.header.Consistent := by
  obtain ⟨wire, tail, -, -, consistent, -, length⟩ := ZPubKeyRecord.parse_eq_ok_iff.mp parsed
  exact ⟨length, consistent⟩

theorem ZSigRecord.exact_of_parse {record : ZSigRecord}
    (parsed : ZSigRecord.parse memory size = .ok record) :
    record.Exact ∧ record.header.Consistent := by
  obtain ⟨wire, signer, sig, tail, -, -, signed, present, consistent, -,
    length⟩ := ZSigRecord.parse_eq_ok_iff.mp parsed
  refine ⟨?_, consistent⟩
  rw [ZSigRecord.Exact, ZSigRecord.headerSize, ZSigRecord.sigBytes, signed,
    signer.toDomainName_size, present, Option.getD_some]
  exact length

/-- What is known of a record that was read: its sizes agree, and the keys in
a key link are complete. -/
structure ZRecord.Read (record : ZRecord) : Prop where
  consistent : record.header.Consistent
  exact : ∀ link, record = .keyLink link →
    (link.keySpeaker.Exact ∧ link.keySpeaker.header.Consistent) ∧
      link.keySpokenFor.Exact ∧ link.keySpokenFor.header.Consistent
  whole : (∀ binary, record ≠ .binary binary) → record.Whole

theorem ZRecord.ParsedFrom.read {record : ZRecord}
    (parsed : record.ParsedFrom memory size) : record.Read := by
  obtain ⟨rest, readHeader⟩ := parsed.header
  obtain ⟨wire, -, -, consistent, -⟩ := RecordHeader.parse_eq_ok_iff.mp readHeader
  refine ⟨consistent, ?_, ?_⟩
  · rintro link rfl
    obtain ⟨wire, rest, -, -, -, -, speaker, spokenFor⟩ :=
      ZKeyLinkRecord.parse_eq_ok_iff.mp parsed.1
    exact ⟨ZPubKeyRecord.exact_of_parse speaker, ZPubKeyRecord.exact_of_parse spokenFor⟩
  · intro other
    cases record with
    | binary record => exact absurd rfl (other record)
    | sig record => exact (ZSigRecord.exact_of_parse parsed.1).1
    | key record => exact (ZPubKeyRecord.exact_of_parse parsed.1).1
    | delegation record => exact parsed.elim
    | keyLink record =>
      obtain ⟨wire, rest, -, -, -, -, speaker, spokenFor⟩ :=
        ZKeyLinkRecord.parse_eq_ok_iff.mp parsed.1
      exact ⟨(ZPubKeyRecord.exact_of_parse speaker).1, (ZPubKeyRecord.exact_of_parse spokenFor).1⟩

end Embassies.Crypto
