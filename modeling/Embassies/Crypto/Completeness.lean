import Embassies.Crypto.Signing
import Embassies.Crypto.Transport

/-!
# Signed certificates are accepted

A certificate is built for one of three statements, signed, written, read and
verified with the public key.  When the lengths of the key records involved
are in order, this succeeds at every time inside the certificate's window and
what arrives equals what was sent, also inside a chain.

Lengths go out of order when a record's data reaches `2 ^ 15` bytes, since
`addDataLength` then subtracts `2 ^ 16` from the size.
-/

namespace Embassies.Crypto

open Library Library.Buffer Library.Checked RecordHeader ZCert ZSigRecord

variable {Context : Type}

/-! ## Statements and issued certificates -/

/-- What a certificate can be built for. -/
inductive Statement (Context : Type) where
  /-- A key speaks for a name. -/
  | label (name : Option DomainName) (key : ZPubKey Context)
  /-- A binary speaks for the signer. -/
  | binary (bytes : List UInt8)
  /-- One key speaks for another. -/
  | link (speaker spokenFor : ZPubKey Context)

namespace Statement

/-- The constructor for the kind of statement. -/
def build (platform : Platform Context) (inception expires : UInt32) :
    Statement Context → Except Halt ZCert
  | .label name key => ZCert.ofKey inception expires name key
  | .binary bytes => ZCert.ofBinary platform inception expires bytes
  | .link speaker spokenFor =>
    ZCert.ofKeyLink inception expires speaker spokenFor

/-- The names are grammatical and have at most 253 characters. -/
def Named : Statement Context → Prop
  | .label name key =>
    (∀ label, name = some label → label.Proper) ∧
      key.record.header.owner.Proper
  | .binary _ => True
  | .link speaker spokenFor =>
    speaker.record.header.owner.Proper ∧
      spokenFor.record.header.owner.Proper

/-- The lengths of the key records are in order and add up to less than
`2 ^ 15`. -/
def Fits : Statement Context → Prop
  | .label _ key => key.record.Sound
  | .binary _ => True
  | .link speaker spokenFor =>
    speaker.record.Sound ∧ spokenFor.record.Sound ∧
      speaker.record.size + spokenFor.record.size < 2 ^ 15

end Statement

/-- A private key with its public key. -/
structure KeyPair (platform : Platform Context) where
  priv : ZPrivKey Context
  pub : ZPubKey Context
  owner : priv.owner.Proper
  same : pub.owner = priv.owner
  recorded : priv.pubKey.record.header.owner.Proper
  /-- Verification accepts what signing produced. -/
  verifies : ∀ digest, platform.rsaVerify pub.context digest
    (platform.rsaSign priv.context digest).1 = true

/-- A certificate that is to be signed. -/
structure Issue (platform : Platform Context) where
  statement : Statement Context
  inception : UInt32
  expires : UInt32
  cert : ZCert
  keys : KeyPair platform
  named : statement.Named
  built : statement.build platform inception expires = .ok cert

namespace Issue

variable {platform : Platform Context}

/-- What is asked of a certificate that arrives for a signed one. -/
def Accepted (issue : Issue platform) (signed again : ZCert) : Prop :=
  (∀ now memory, issue.inception < now → now < issue.expires →
    again.verify { platform with getCurrentTime := now } memory issue.keys.pub =
      .ok true) ∧
    signed.equals again = .ok true ∧ again.equals signed = .ok true

/-- Signing, writing, reading and verifying succeed. -/
def Completes (issue : Issue platform) : Prop :=
  ∀ memory, ∃ signed,
    issue.cert.sign platform memory issue.keys.priv = .ok signed ∧
      ∀ garbage, garbage.length = signed.size →
        ∃ bytes again, signed.serialize garbage 0 = .ok bytes ∧
          ZCert.parse bytes signed.size = .ok again ∧
          issue.Accepted signed again

/-- The same for the signed certificates of a chain. -/
def ChainCompletes (issues : List (Issue platform)) : Prop :=
  ∀ chain : ZCertChain,
    List.Forall₂ (fun issue signed => ∃ memory,
      issue.cert.sign platform memory issue.keys.priv = .ok signed)
        issues chain.certs →
      ∀ garbage, garbage.length = chain.size →
        ∃ bytes again, chain.serialize garbage = .ok bytes ∧
          ZCertChain.parse bytes chain.size = .ok again ∧
          List.Forall₂ (fun pair cert => pair.1.Accepted pair.2 cert)
            (issues.zip chain.certs) again.certs

/-- The lengths of all key records involved are in order. -/
def Fits (issue : Issue platform) : Prop :=
  issue.statement.Fits ∧ issue.keys.priv.pubKey.record.Sound

/-! ## What is built -/

theorem sendable_of_copy {record copied : ZPubKeyRecord} (proper : record.header.owner.Proper)
    (sound : record.Sound) (copy : record.copy = .ok copied) :
    copied.Sendable ∧ copied.header = record.header := by
  obtain ⟨other, made, header, exact⟩ := sound.copy proper.grammatical
  cases Except.ok.inj (made.symm.trans copy)
  refine ⟨⟨?_, ?_, exact, ?_⟩, header⟩
  · rw [header]
    exact sound.type
  · rw [header]
    exact sound.consistent
  · rw [header]
    exact proper.canonical

variable (issue : Issue platform)

/-- The object of a built certificate can be sent, and the signature record
is ready to be signed for it. -/
theorem parts_of_built (fits : issue.statement.Fits) :
    ∃ object sig, issue.cert = ⟨some object, some sig, none⟩ ∧
      object.Sendable ∧ sig.Unsigned ∧ sig.typeCovered = object.getType ∧
      sig.inception = issue.inception ∧ sig.expires = issue.expires := by
  have named := issue.named
  have built := issue.built
  cases stated : issue.statement with
  | label name key =>
    rw [stated] at named fits built
    simp only [Statement.build, ofKey, bind_eq_ok_iff, pure_eq_ok, Except.ok.injEq] at built
    obtain ⟨object, copied, sig, started, same⟩ := built
    obtain ⟨sendable, header⟩ := sendable_of_copy named.2 fits copied
    obtain ⟨unsigned, covers, inception, expires⟩ := new_unsigned started
    exact ⟨.key object, sig, same.symm, sendable, unsigned,
      covers.trans sendable.type.symm, inception, expires⟩
  | binary bytes =>
    rw [stated] at built
    simp only [Statement.build, ofBinary, ZBinaryRecord.ofBinary,
      bind_eq_ok_iff, pure_eq_ok, Except.ok.injEq] at built
    obtain ⟨object, ⟨header, named, rfl⟩, sig, started, same⟩ := built
    obtain ⟨empty, type⟩ := new_empty named
    obtain ⟨-, proper⟩ := new_none_proper named
    obtain ⟨unsigned, covers, inception, expires⟩ := new_unsigned started
    have nothing : header.dataLength.toNat = 0 := by
      rw [empty.empty]
      rfl
    obtain ⟨length, consistent⟩ := @addDataLength_small header
      (4 + 20) empty.consistent (by decide) (by rw [nothing]; decide)
    have digest := (platform.zhash bytes).length_eq
    refine ⟨_, sig, same.symm, ⟨type, consistent, proper.canonical, ?_⟩,
      unsigned, covers.trans type.symm, inception, expires⟩
    rw [length, nothing, digest]
  | link speaker spokenFor =>
    rw [stated] at named fits built
    simp only [Statement.build, ofKeyLink, ZKeyLinkRecord.ofKeys,
      bind_eq_ok_iff, pure_eq_ok, Except.ok.injEq] at built
    obtain ⟨object, ⟨header, ownerless, keySpeaker, speakerCopied,
      keySpokenFor, spokenForCopied, rfl⟩, sig, started, same⟩ := built
    obtain ⟨empty, type⟩ := new_empty ownerless
    obtain ⟨-, proper⟩ := new_none_proper ownerless
    obtain ⟨unsigned, covers, inception, expires⟩ := new_unsigned started
    obtain ⟨speakerSendable, speakerHeader⟩ := sendable_of_copy named.1 fits.1 speakerCopied
    obtain ⟨spokenForSendable, spokenForHeader⟩ := sendable_of_copy named.2 fits.2.1 spokenForCopied
    have small : keySpeaker.size + keySpokenFor.size < 2 ^ 15 := by
      simp only [ZPubKeyRecord.size, speakerHeader, spokenForHeader]
      exact fits.2.2
    have nothing : header.dataLength.toNat = 0 := by
      rw [empty.empty]
      rfl
    obtain ⟨length, consistent⟩ := @addDataLength_small header
      (keySpeaker.size + keySpokenFor.size) empty.consistent small (by omega)
    refine ⟨_, sig, same.symm, ⟨type, consistent, proper.canonical, ?_,
      speakerSendable, spokenForSendable⟩, unsigned,
      covers.trans type.symm, inception, expires⟩
    rw [length, nothing, Nat.zero_add]

/-! ## Signing -/

/-- What signing puts into the signature record. -/
structure Signed (issue : Issue platform) (parcel : Parcel) : Prop where
  signer : parcel.sig.signerName = issue.keys.priv.owner
  covers : parcel.sig.typeCovered = parcel.object.getType
  inception : parcel.sig.inception = issue.inception
  expires : parcel.sig.expires = issue.expires
  signature : parcel.sig.sigBytes = issue.keys.priv.sign platform
    (parcel.sig.encodeHead ++ parcel.object.encode)

theorem sendable_of_signing {fresh addressed sig : ZSigRecord} {tag : UInt16} {name : DomainName}
    {signature : List UInt8} (unsigned : fresh.Unsigned) (proper : name.Proper)
    (length : signature.length = signatureSize)
    (named : (fresh.setKeyTag tag).setSignerName name = .ok addressed)
    (completed : addressed.setSig signature = .ok sig) :
    sig.Sendable ∧ sig.sigBytes = signature ∧ addressed.signerName = name ∧ sig.signerName = name ∧
      sig.encodeHead = addressed.encodeHead ∧
      sig.typeCovered = fresh.typeCovered ∧
      sig.inception = fresh.inception ∧ sig.expires = fresh.expires := by
  have tagged : (fresh.setKeyTag tag).Unsigned :=
    ⟨unsigned.type, unsigned.consistent, unsigned.exact, unsigned.unset⟩
  obtain ⟨next, made, ready, owner, signer, covers, inception, expires⟩ :=
    setSignerName_unsigned tagged proper
  cases Except.ok.inj (made.symm.trans named)
  obtain ⟨last, set, type, consistent, exact, bytes, sigOwner, sigSigner, head,
    sigCovers, sigInception, sigExpires⟩ := setSig_unsigned ready length
  cases Except.ok.inj (set.symm.trans completed)
  have present : sig.sig.isSome := by
    cases stored : sig.sig with
    | some value => rfl
    | none =>
      rw [sigBytes, stored, Option.getD_none] at bytes
      rw [← bytes] at length
      exact absurd length (by decide)
  refine ⟨⟨type, consistent, exact, present, ?_, ?_⟩, bytes, signer,
    sigSigner.trans signer, head, sigCovers.trans covers,
    sigInception.trans inception, sigExpires.trans expires⟩
  · rw [sigOwner, owner]
    exact proper.canonical
  · rw [sigSigner, signer]
    exact proper.canonical

theorem sign_parcel (fits : issue.Fits) (memory : Allocation) :
    ∃ parcel : Parcel, issue.cert.sign platform memory issue.keys.priv = .ok parcel.toCert ∧
        issue.Signed parcel := by
  obtain ⟨object, fresh, cert, sendable, unsigned, covers, inception, expires⟩ :=
    issue.parts_of_built fits.1
  have proper := issue.keys.owner
  obtain ⟨tag, tagged⟩ := fits.2.getTag memory
  obtain ⟨addressed, named, ready, -, signer, -⟩ := @setSignerName_unsigned (fresh.setKeyTag tag) _
      ⟨unsigned.type, unsigned.consistent, unsigned.exact, unsigned.unset⟩ proper
  have hashed := @signedBytes_eq memory addressed object
    (by rw [signer]; exact proper.canonical) sendable.canonical sendable.whole
    sendable.encode_length (Parcel.consistent_small sendable.consistent).2
  have length := (platform.rsaSign issue.keys.priv.context
    (platform.zhash (addressed.encodeHead ++ object.encode))).2
  obtain ⟨sig, completed, -⟩ := setSig_unsigned ready length
  obtain ⟨sigSendable, bytes, -, sigSigner, head, sigCovers, sigInception,
    sigExpires⟩ := sendable_of_signing unsigned proper length named completed
  obtain ⟨key, copied, -, -⟩ := fits.2.copy issue.keys.recorded.grammatical
  have keySendable := (sendable_of_copy issue.keys.recorded fits.2 copied).1
  refine ⟨⟨object, sig, key, sendable, sigSendable, keySendable⟩, ?_, ?_⟩
  · rw [cert]
    exact sign_eq_ok_iff.mpr ⟨fresh, rfl, tag, tagged, addressed, named, object, rfl, _, hashed,
      sig, completed, key, copied, rfl⟩
  · refine ⟨sigSigner, sigCovers.trans covers, sigInception.trans inception,
      sigExpires.trans expires, ?_⟩
    rw [head]
    exact bytes

/-! ## Verifying -/

theorem accepted_of_arrives {issue : Issue platform} {parcel : Parcel} {cert : ZCert}
    (signed : issue.Signed parcel) (arrives : parcel.Arrives cert) :
    issue.Accepted parcel.toCert cert := by
  obtain ⟨again, rfl, echo⟩ := arrives
  have sigSame := isEqual_self parcel.sigSendable.type parcel.sigSendable.exact
  have keySame := ZPubKeyRecord.isEqual_self parcel.keySendable.type parcel.keySendable.exact
  refine ⟨?_, ?_, ?_⟩
  · intro now memory later earlier
    have counts : again.encode.length = again.size := by
      rw [echo.encode, parcel.objectSendable.encode_length, ZRecord.size, ZRecord.size, echo.header]
    have small : again.size < 65900 := by
      rw [ZRecord.size, echo.header]
      exact (Parcel.consistent_small parcel.objectSendable.consistent).2
    have hashed := @signedBytes_eq memory parcel.sig again
      parcel.sigSendable.signer echo.canonical echo.whole counts small
    have type : again.getType = parcel.sig.typeCovered := by
      rw [signed.covers, ZRecord.getType, ZRecord.getType, echo.header]
    have named : parcel.sig.signerName.equals issue.keys.pub.owner = true := by
      rw [signed.signer, issue.keys.same]
      exact DomainName.equals_self _
    have timely : parcel.sig.inception < now ∧ now < parcel.sig.expires := by
      rw [signed.inception, signed.expires]
      exact ⟨later, earlier⟩
    have length : signatureSize ≤ parcel.sig.sigBytes.length := by
      rw [signed.signature]
      exact Nat.le_of_eq (platform.rsaSign _ _).2.symm
    refine verify_eq_true_iff.mpr ⟨parcel.sig, again, _, rfl, rfl, type,
      timely.1, timely.2, named, hashed, length, ?_⟩
    rw [echo.encode, signed.signature]
    exact issue.keys.verifies _
  · exact equals_eq_true_iff.mpr ⟨echo.forth, sigSame, keySame⟩
  · exact equals_eq_true_iff.mpr ⟨echo.back, sigSame, keySame⟩

/-- The lengths suffice for a single certificate. -/
theorem completes_of_fits (fits : issue.Fits) : issue.Completes := by
  intro memory
  obtain ⟨parcel, made, signed⟩ := issue.sign_parcel fits memory
  refine ⟨parcel.toCert, made, ?_⟩
  intro garbage room
  rw [parcel.size_eq] at room ⊢
  have stored := parcel.serialize_eq garbage 0
  rw [writeBytes_eq_ok (by omega), patch_whole room.symm] at stored
  obtain ⟨cert, parsed, arrives⟩ := @Parcel.parse_encode parcel [] parcel.encode.length le_rfl
  rw [List.append_nil] at parsed
  exact ⟨parcel.encode, cert, stored, parsed, accepted_of_arrives signed arrives⟩

variable {issues : List (Issue platform)}

theorem parcels_of_signed {certs : List ZCert} (fits : ∀ issue ∈ issues, issue.Fits)
    (signed : List.Forall₂ (fun issue cert => ∃ memory,
      issue.cert.sign platform memory issue.keys.priv = .ok cert) issues certs) :
    ∃ parcels : List Parcel, certs = parcels.map Parcel.toCert ∧
      List.Forall₂ Signed issues parcels := by
  induction signed with
  | nil => exact ⟨[], rfl, .nil⟩
  | cons made rest induction =>
    obtain ⟨parcels, rfl, others⟩ := induction fun issue member => fits issue (.tail _ member)
    obtain ⟨memory, made⟩ := made
    obtain ⟨parcel, parcelled, signed⟩ := sign_parcel _ (fits _ (.head _)) memory
    cases Except.ok.inj (made.symm.trans parcelled)
    exact ⟨parcel :: parcels, rfl, .cons signed others⟩

theorem accepted_all {parcels : List Parcel}
    {certs : List ZCert} (signed : List.Forall₂ Signed issues parcels)
    (arrive : List.Forall₂ Parcel.Arrives parcels certs) :
    List.Forall₂ (fun pair cert => Accepted pair.1 pair.2 cert)
      (issues.zip (parcels.map Parcel.toCert)) certs := by
  induction signed generalizing certs with
  | nil =>
    cases arrive
    exact .nil
  | cons one rest induction =>
    cases arrive with
    | cons first others =>
      exact .cons (accepted_of_arrives one first) (induction others)

theorem chainCompletes_of_fits (fits : ∀ issue ∈ issues, issue.Fits) : ChainCompletes issues := by
  intro chain made garbage room
  obtain ⟨parcels, same, signed⟩ := parcels_of_signed fits made
  obtain ⟨bytes, again, stored, parsed, arrive⟩ := Parcel.chain_roundTrip parcels chain same room
  refine ⟨bytes, again, stored, parsed, ?_⟩
  rw [same]
  exact accepted_all signed arrive

end Issue

end Embassies.Crypto
