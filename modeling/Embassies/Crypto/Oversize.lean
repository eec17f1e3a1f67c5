import Embassies.Crypto.Completeness

/-!
# Records that are too long to be signed

A certificate that survives signing, sending and verifying has key records
whose lengths are in order.  For single keys this shows in the comparison with
the certificate that arrives, whose lengths the parser has checked.

A key link compares only its two keys.  When they reach `2 ^ 15` bytes
together, its recorded size is either too small for the hashed buffer, or close
to `2 ^ 32`.  In the second case the signature is written far behind the
object, and the reader finds no signature or cannot verify it.
-/

namespace Embassies.Crypto

open Library Library.Buffer Library.Checked RecordHeader List DomainName ZCert ZKeyLinkRecord
open ZPubKeyRecord

variable {Context : Type}

/-! ## Lengths -/

/-- A key record whose copy equals a parsed record has its lengths in order. -/
theorem ZPubKeyRecord.sound_of_echo {record copied again : ZPubKeyRecord}
    (grammatical : record.header.owner.Grammatical)
    (copy : record.copy = .ok copied)
    (read : again.Exact ∧ again.header.Consistent)
    (forth : copied.isEqual again = .ok true)
    (back : again.isEqual copied = .ok true) : record.Sound := by
  obtain ⟨enough, rfl⟩ := (copy_eq_ok_iff grammatical).mp copy
  obtain ⟨header, -⟩ := isEqual_eq_true_iff.mp forth
  obtain ⟨-, type, -⟩ := isEqual_eq_true_iff.mp back
  obtain ⟨owner, -, -, -, dataLength, size⟩ := equal_iff.mp header
  obtain ⟨exact, consistent⟩ := read
  have same := (equals_iff_eq grammatical.zeroFree).mp owner
  have bounded := record.header.dataLength.toNat_lt
  have length : record.header.dataLength.toNat = 4 + again.key.length := by
    rw [Exact, ← dataLength] at exact
    exact exact
  rw [sub32_of_le (by omega) (by omega)] at enough
  refine ⟨type, ?_, by omega, enough⟩
  rw [Consistent, ← same, ← dataLength, ← size] at consistent
  exact consistent

theorem ZKeyLinkRecord.lengths_of_ofKeys {speaker spokenFor : ZPubKeyRecord} {link : ZKeyLinkRecord}
    (built : ofKeys speaker spokenFor = .ok link) :
    let total := (link.keySpeaker.size + link.keySpokenFor.size) % 2 ^ 16
    link.header.owner = DomainName.zoog ∧ speaker.copy = .ok link.keySpeaker ∧
      spokenFor.copy = .ok link.keySpokenFor ∧ link.header.dataLength.toNat = total ∧
      link.header.size = (16 + if total < 2 ^ 15 then total
        else total + (2 ^ 32 - 2 ^ 16)) % 2 ^ 32 := by
  simp only [ofKeys, bind_eq_ok_iff, pure_eq_ok, Except.ok.injEq] at built
  obtain ⟨header, named, keySpeaker, speakerCopied, keySpokenFor, spokenForCopied, rfl⟩ := built
  obtain ⟨owner, -⟩ := new_none_proper named
  obtain ⟨empty, -⟩ := new_empty named
  have size : header.size = 16 := by
    have consistent := empty.consistent
    rw [Consistent, owner, empty.empty] at consistent
    exact consistent
  refine ⟨owner, speakerCopied, spokenForCopied, ?_, ?_⟩
  · simp only [addDataLength, empty.empty]
    rw [UInt16.zero_add, UInt16.toNat_ofNat', Nat.mod_mod]
  · simp only [addDataLength, size]

theorem ZKeyLinkRecord.isEqual_eq_true_iff {left right : ZKeyLinkRecord} :
    left.isEqual right = .ok true ↔ right.header.type = typeKeyLink ∧
        left.keySpeaker.isEqual right.keySpeaker = .ok true ∧
        left.keySpokenFor.isEqual right.keySpokenFor = .ok true := by
  rw [isEqual]
  by_cases type : right.header.type = typeKeyLink
  · rw [if_pos (by rw [type]; rfl)]
    simp only [bind_eq_ok_iff, pure_eq_ok, Except.ok.injEq, Bool.and_eq_true]
    constructor
    · rintro ⟨_, speaker, _, spokenFor, rfl, rfl⟩
      exact ⟨type, speaker, spokenFor⟩
    · rintro ⟨-, speaker, spokenFor⟩
      exact ⟨true, speaker, true, spokenFor, rfl, rfl⟩
  · simp [type]

theorem ZPubKeyRecord.key_of_isEqual {sent arrived : ZPubKeyRecord}
    (canonical : sent.header.owner.Canonical) (same : sent.isEqual arrived = .ok true) :
    arrived.header.owner.Canonical ∧ arrived.size = sent.size := by
  obtain ⟨header, -⟩ := ZPubKeyRecord.isEqual_eq_true_iff.mp same
  obtain ⟨owner, -, -, -, -, size⟩ := equal_iff.mp header
  rw [← (equals_iff_eq canonical.zeroFree).mp owner]
  exact ⟨canonical, size.symm⟩

theorem ZKeyLinkRecord.arrived_header {link arrived : ZKeyLinkRecord} {tail : List UInt8}
    {left : Nat} (owner : link.header.owner.Canonical)
    (parsed : (ZRecord.keyLink arrived).ParsedFrom ((ZRecord.keyLink link).encode ++ tail) left) :
    arrived.header.owner = link.header.owner ∧
      arrived.header.size = link.header.owner.size + constSize + link.header.dataLength.toNat := by
  obtain ⟨wire, rest, layout, owned, consistent, -⟩ := parse_eq_ok_iff.mp parsed.1
  obtain ⟨sent, named, encoded⟩ := owner.exists_wire
  simp only [ZRecord.encode, ZKeyLinkRecord.encode, RecordHeader.encode,
    encoded, append_assoc] at layout
  obtain ⟨same, fields⟩ := WireName.encode_append_inj layout
  obtain ⟨-, -, -, dataLength, -⟩ := RecordHeader.fields_append_inj fields
  have owners : arrived.header.owner = link.header.owner := by
    rw [owned, named, same]
  rw [Consistent, owners, ← dataLength] at consistent
  exact ⟨owners, consistent⟩

theorem recorded_size_cases {total size : Nat} (big : 2 ^ 15 ≤ total)
    (recorded : size = (16 + if total % 2 ^ 16 < 2 ^ 15
      then total % 2 ^ 16
      else total % 2 ^ 16 + (2 ^ 32 - 2 ^ 16)) % 2 ^ 32) :
    size < 16 + total ∨ 2 ^ 31 ≤ size := by
  by_cases low : total % 2 ^ 16 < 2 ^ 15
  · rw [if_pos low] at recorded
    omega
  · rw [if_neg low] at recorded
    omega

/-! ## One trip -/

namespace Issue

variable {platform : Platform Context}

/-- One run of signing, writing into fresh memory and reading back. -/
structure Trip (issue : Issue platform) where
  object : ZRecord
  fresh : ZSigRecord
  tag : UInt16
  addressed : ZSigRecord
  hashed : List UInt8
  sig : ZSigRecord
  key : ZPubKeyRecord
  bytes : List UInt8
  again : ZCert
  present : issue.cert.object = some object
  set : issue.cert.sig = some fresh
  named : (fresh.setKeyTag tag).setSignerName issue.keys.priv.owner =
    .ok addressed
  computed : ZCert.signedBytes .blank addressed object = .ok hashed
  completed : addressed.setSig (issue.keys.priv.sign platform hashed) = .ok sig
  copied : issue.keys.priv.pubKey.record.copy = .ok key
  stored : ZCert.serialize ⟨some object, some sig, some key⟩
    (List.replicate (ZCert.size ⟨some object, some sig, some key⟩) 0) 0 =
      .ok bytes
  parsed : ZCert.parse bytes
    (ZCert.size ⟨some object, some sig, some key⟩) = .ok again
  accepted : issue.Accepted ⟨some object, some sig, some key⟩ again

theorem Completes.trip {issue : Issue platform} (completes : issue.Completes) :
    Nonempty issue.Trip := by
  obtain ⟨signed, made, carried⟩ := completes .blank
  obtain ⟨fresh, set, tag, -, addressed, named, object, present, hashed, computed, sig, completed,
    key, copied, rfl⟩ := sign_eq_ok_iff.mp made
  obtain ⟨bytes, again, stored, parsed, accepted⟩ := carried (replicate _ 0) length_replicate
  exact ⟨⟨object, fresh, tag, addressed, hashed, sig, key, bytes, again,
    present, set, named, computed, completed, copied, stored, parsed, accepted⟩⟩

namespace Trip

variable {issue : Issue platform} (trip : issue.Trip)

include trip

theorem parts : ∃ object sig key, trip.again = ⟨some object, some sig, some key⟩ ∧
      (trip.object.isEqual object = .ok true ∧ object.isEqual trip.object = .ok true) ∧
      trip.sig.isEqual sig = .ok true ∧
      trip.key.isEqual key = .ok true ∧ key.isEqual trip.key = .ok true := by
  obtain ⟨-, forth, back⟩ := trip.accepted
  obtain ⟨objectForth, sigForth, keyForth⟩ := equals_eq_true_iff.mp forth
  obtain ⟨objectBack, -, keyBack⟩ := equals_eq_true_iff.mp back
  obtain ⟨object, objectArrived, objectForth⟩ := equalParts_some_left.mp objectForth
  obtain ⟨sig, sigArrived, sigForth⟩ := equalParts_some_left.mp sigForth
  obtain ⟨key, keyArrived, keyForth⟩ := equalParts_some_left.mp keyForth
  rw [objectArrived] at objectBack
  rw [keyArrived] at keyBack
  refine ⟨object, sig, key, ?_, ⟨objectForth, objectBack⟩, sigForth, keyForth, keyBack⟩
  cases again : trip.again
  rw [again] at objectArrived sigArrived keyArrived
  cases objectArrived
  cases sigArrived
  cases keyArrived
  rfl

theorem signingKey_sound : issue.keys.priv.pubKey.record.Sound := by
  obtain ⟨object, sig, key, again, -, -, forth, back⟩ := trip.parts
  obtain ⟨body, left, parsed⟩ := signingKey_of_parse trip.parsed (by rw [again])
  exact sound_of_echo issue.keys.recorded.grammatical trip.copied (exact_of_parse parsed) forth back

theorem object_parsed {object : ZRecord} (arrived : trip.again.object = some object) :
    ∃ body left, object.ParsedFrom body left :=
  object_of_parse trip.parsed arrived

theorem sig_sendable (unsigned : trip.fresh.Unsigned) :
    trip.sig.Sendable ∧ trip.addressed.signerName = issue.keys.priv.owner ∧
      trip.sig.signerName = issue.keys.priv.owner := by
  obtain ⟨sendable, -, addressed, signer, -⟩ := sendable_of_signing unsigned
    issue.keys.owner (platform.rsaSign _ _).2 trip.named trip.completed
  exact ⟨sendable, addressed, signer⟩

theorem bytes_of_long (sig : trip.sig.Sendable)
    (canonical : trip.object.Canonical) (whole : trip.object.Whole)
    (gap : trip.object.encode.length + 4 ≤ trip.object.size) :
    ∃ stamp rest, trip.bytes = int stamp ++ (trip.object.encode ++ (int 0 ++ rest)) := by
  have keySendable := (sendable_of_copy issue.keys.recorded trip.signingKey_sound trip.copied).1
  have stored := trip.stored
  generalize ZCert.size _ = size at stored
  simp only [ZCert.serialize, serializePart_some sig.writes,
    serializePart_some (ZRecord.serialize_canonical canonical whole),
    serializePart_some keySendable.writes, store, bind_assoc, pure_bind, bind_pure] at stored
  simp only [bind_eq_ok_iff, writeBytes_eq_ok_iff] at stored
  obtain ⟨_, ⟨room, rfl⟩, _, ⟨sigRoom, rfl⟩, keyRoom, same⟩ := stored
  have length : (encodePart ZRecord.size trip.object
      trip.object.encode).length = 4 + trip.object.encode.length := by
    rw [encodePart, length_append, int_length]
  have objectLength := patch_length room
  rw [length_replicate] at objectLength
  have zeros : replicate 4 (0 : UInt8) = int 0 := rfl
  have front : trip.bytes.take ((encodePart ZRecord.size trip.object
      trip.object.encode).length + 4) =
        encodePart ZRecord.size trip.object trip.object.encode ++ int 0 := by
    rw [same, take_patch (by omega) (by omega), take_patch (by omega) (by omega), patch_zero,
      take_length_add_append, drop_replicate, take_replicate,
      Nat.min_eq_left (by omega), zeros]
  refine ⟨UInt32.ofNat trip.object.size, trip.bytes.drop ((encodePart ZRecord.size trip.object
      trip.object.encode).length + 4), ?_⟩
  rw [← append_assoc, ← append_assoc]
  exact (take_append_drop _ trip.bytes).symm.trans (congrArg (· ++ trip.bytes.drop _) front)

theorem built_eq {object : ZRecord} {sig : ZSigRecord}
    (cert : ⟨some object, some sig, none⟩ = issue.cert) :
    trip.object = object ∧ trip.fresh = sig := by
  have present := trip.present
  have set := trip.set
  rw [← cert] at present set
  exact ⟨(Option.some.inj present).symm, (Option.some.inj set).symm⟩

theorem label_sound {name : Option DomainName} {key : ZPubKey Context}
    (stated : issue.statement = .label name key) : key.record.Sound := by
  have built := issue.built
  have named := issue.named
  rw [stated] at built named
  simp only [Statement.build, ofKey, bind_eq_ok_iff, pure_eq_ok, Except.ok.injEq] at built
  obtain ⟨copied, copy, sig, -, cert⟩ := built
  obtain ⟨sent, -⟩ := trip.built_eq cert
  obtain ⟨object, sig, signer, again, ⟨forth, back⟩, -⟩ := trip.parts
  obtain ⟨body, left, parsed⟩ := trip.object_parsed (by rw [again])
  rw [sent] at forth back
  cases object with
  | key arrived =>
    exact sound_of_echo named.2.grammatical copy (exact_of_parse parsed.1) forth back
  | _ => cases forth

/-! ## Key links -/

/-- Verification has written both keys into a buffer of the parsed size. -/
theorem arrived_counts {now : UInt32} (later : issue.inception < now)
    (earlier : now < issue.expires) {link arrived : ZKeyLinkRecord}
    (signer : trip.sig.signerName.Canonical)
    (canonical : (ZRecord.keyLink link).Canonical)
    (present : trip.again.object = some (.keyLink arrived))
    (forth : link.isEqual arrived = .ok true)
    (owner : arrived.header.owner = link.header.owner) :
    link.header.owner.size + constSize + (link.keySpeaker.size + link.keySpokenFor.size) ≤
      arrived.header.size := by
  obtain ⟨_, sig, _, again, -, sigForth, -⟩ := trip.parts
  obtain ⟨-, -, -, -, -, -, -, -, -, named, -⟩ := ZSigRecord.isEqual_eq_true_iff.mp sigForth
  rw [(equals_iff_eq signer.zeroFree).mp named] at signer
  obtain ⟨-, speakerForth, spokenForForth⟩ := ZKeyLinkRecord.isEqual_eq_true_iff.mp forth
  obtain ⟨speakerCanonical, speakerSize⟩ := key_of_isEqual canonical.2.1 speakerForth
  obtain ⟨spokenForCanonical, spokenForSize⟩ := key_of_isEqual canonical.2.2 spokenForForth
  have ownerCanonical : arrived.header.owner.Canonical := by
    rw [owner]
    exact canonical.1
  obtain ⟨body, left, parsed⟩ := trip.object_parsed present
  obtain ⟨⟨speakerExact, speakerConsistent⟩, spokenForExact,
    spokenForConsistent⟩ := parsed.read.exact arrived rfl
  obtain ⟨_, _, hashed, found, there, -, -, -, -, computed, -⟩ :=
    verify_eq_true_iff.mp (trip.accepted.1 now .blank later earlier)
  rw [again] at found
  cases found
  cases Option.some.inj (present.symm.trans there)
  have room := @signedBytes_room .blank sig (.keyLink arrived) hashed
    signer ⟨ownerCanonical, speakerCanonical, spokenForCanonical⟩
    ⟨speakerExact, spokenForExact⟩ computed
  rw [ZRecord.encode, ZKeyLinkRecord.encode, length_append,
    length_append, RecordHeader.encode_length ownerCanonical,
    ZPubKeyRecord.encode_length speakerCanonical speakerExact,
    ZPubKeyRecord.encode_length spokenForCanonical spokenForExact,
    ← speakerConsistent, ← spokenForConsistent, owner] at room
  have size : (ZRecord.keyLink arrived).size = arrived.header.size := rfl
  rw [← speakerSize, ← spokenForSize, ZPubKeyRecord.size, ZPubKeyRecord.size]
  omega

section Link

variable {speaker spokenFor : ZPubKey Context} (stated : issue.statement = .link speaker spokenFor)

include stated

omit trip in
theorem link_encode {link : ZKeyLinkRecord}
    (linked : ofKeys speaker.record spokenFor.record = .ok link)
    (sound : speaker.record.Sound ∧ spokenFor.record.Sound) :
    (ZRecord.keyLink link).Canonical ∧ (ZRecord.keyLink link).Whole ∧
      link.keySpeaker.size = speaker.record.size ∧
      link.keySpokenFor.size = spokenFor.record.size ∧
      (ZRecord.keyLink link).encode.length =
        16 + (speaker.record.size + spokenFor.record.size) := by
  have named := issue.named
  rw [stated] at named
  obtain ⟨owner, speakerCopied, spokenForCopied, -, -⟩ := lengths_of_ofKeys linked
  obtain ⟨speakerSendable, speakerHeader⟩ := sendable_of_copy named.1 sound.1 speakerCopied
  obtain ⟨spokenForSendable, spokenForHeader⟩ := sendable_of_copy named.2 sound.2 spokenForCopied
  have canonical : link.header.owner.Canonical := by
    rw [owner]
    exact zoog_grammatical.canonical (by decide)
  have speakerSize : link.keySpeaker.size = speaker.record.size := by
    rw [ZPubKeyRecord.size, speakerHeader, ZPubKeyRecord.size]
  have spokenForSize : link.keySpokenFor.size = spokenFor.record.size := by
    rw [ZPubKeyRecord.size, spokenForHeader, ZPubKeyRecord.size]
  refine ⟨⟨canonical, speakerSendable.canonical, spokenForSendable.canonical⟩,
    ⟨speakerSendable.exact, spokenForSendable.exact⟩, speakerSize,
    spokenForSize, ?_⟩
  rw [ZRecord.encode, ZKeyLinkRecord.encode, length_append,
    length_append, RecordHeader.encode_length canonical,
    speakerSendable.encode_length, spokenForSendable.encode_length,
    speakerSize, spokenForSize, owner]
  rfl

theorem links : ∃ link arrived, trip.object = .keyLink link ∧
      ofKeys speaker.record spokenFor.record = .ok link ∧
      trip.fresh.Unsigned ∧ trip.again.object = some (.keyLink arrived) ∧
      link.isEqual arrived = .ok true ∧ arrived.isEqual link = .ok true := by
  have built := issue.built
  rw [stated] at built
  simp only [Statement.build, ofKeyLink, bind_eq_ok_iff, pure_eq_ok, Except.ok.injEq] at built
  obtain ⟨link, linked, sig, started, cert⟩ := built
  obtain ⟨sent, fresh⟩ := trip.built_eq cert
  obtain ⟨object, sig, key, again, ⟨forth, back⟩, -⟩ := trip.parts
  rw [sent] at forth back
  cases object with
  | keyLink arrived =>
    exact ⟨link, arrived, sent, linked,
      fresh ▸ (ZSigRecord.new_unsigned started).1, by rw [again], forth, back⟩
  | _ => cases forth

theorem link_sound : speaker.record.Sound ∧ spokenFor.record.Sound := by
  have named := issue.named
  rw [stated] at named
  obtain ⟨link, arrived, sent, linked, -, present, forth, back⟩ := trip.links stated
  obtain ⟨-, speakerCopied, spokenForCopied, -, -⟩ := lengths_of_ofKeys linked
  obtain ⟨-, speakerForth, spokenForForth⟩ := ZKeyLinkRecord.isEqual_eq_true_iff.mp forth
  obtain ⟨-, speakerBack, spokenForBack⟩ := ZKeyLinkRecord.isEqual_eq_true_iff.mp back
  obtain ⟨body, left, parsed⟩ := trip.object_parsed present
  obtain ⟨speakerRead, spokenForRead⟩ := parsed.read.exact arrived rfl
  exact ⟨sound_of_echo named.1.grammatical speakerCopied speakerRead speakerForth speakerBack,
    sound_of_echo named.2.grammatical spokenForCopied spokenForRead spokenForForth spokenForBack⟩

theorem link_total {now : UInt32} (later : issue.inception < now) (earlier : now < issue.expires) :
    speaker.record.size + spokenFor.record.size < 2 ^ 15 := by
  by_contra big
  have sound := trip.link_sound stated
  obtain ⟨link, arrived, sent, linked, unsigned, present, forth, -⟩ := trip.links stated
  obtain ⟨canonical, whole, speakerSize, spokenForSize, length⟩ := link_encode stated linked sound
  obtain ⟨owner, -, -, dataLength, recorded⟩ := lengths_of_ofKeys linked
  rw [speakerSize, spokenForSize] at dataLength recorded
  obtain ⟨sigSendable, addressed, signer⟩ := trip.sig_sendable unsigned
  have speakerSmall : speaker.record.size < 65900 := (Parcel.consistent_small sound.1.consistent).2
  have spokenForSmall : spokenFor.record.size < 65900 :=
    (Parcel.consistent_small sound.2.consistent).2
  have size : (ZRecord.keyLink link).size = link.header.size := rfl
  rcases recorded_size_cases (by omega) recorded with short | long
  · -- The hashed buffer cannot hold the object.
    have computed := trip.computed
    rw [sent] at computed
    have room := signedBytes_room
      (by rw [addressed]; exact issue.keys.owner.canonical) canonical whole
      computed
    omega
  · obtain ⟨stamp, rest, bytes⟩ := trip.bytes_of_long sigSendable
      (by rw [sent]; exact canonical) (by rw [sent]; exact whole)
      (by rw [sent, length, size]; omega)
    rw [sent] at bytes
    obtain ⟨arrivedStamp, body, left, layout, parsed, sigStamp, tail, next,
      missing⟩ := sig_after_object trip.parsed present
    obtain ⟨-, rfl⟩ := int_append_inj (bytes.symm.trans layout)
    obtain ⟨arrivedOwner, arrivedSize⟩ := arrived_header canonical.1 parsed
    have head : link.header.owner.size + constSize = 16 := by
      rw [owner]
      rfl
    rw [head, dataLength] at arrivedSize
    by_cases once : speaker.record.size + spokenFor.record.size < 2 ^ 16
    · -- The reader looks for the signature right behind the object.
      rw [Nat.mod_eq_of_lt once, ← length] at arrivedSize
      rw [ZRecord.size, ZRecord.header, drop_left' arrivedSize.symm] at next
      obtain ⟨zero, -⟩ := int_append_inj next
      obtain ⟨_, sig, _, again, -⟩ := trip.parts
      have absent := missing zero.symm
      rw [again] at absent
      cases absent
    · -- The reader counts fewer bytes than verification writes.
      have counts := trip.arrived_counts later earlier sigSendable.signer
        canonical present forth arrivedOwner
      omega

end Link

end Trip

/-! ## Exactly when certificates arrive -/

/-- There is a time at which the certificate is valid. -/
def Open (issue : Issue platform) : Prop :=
  ∃ now, issue.inception < now ∧ now < issue.expires

/-- A certificate that survives has its lengths in order. -/
theorem fits_of_completes {issue : Issue platform} (valid : issue.Open)
    (completes : issue.Completes) : issue.Fits := by
  obtain ⟨trip⟩ := completes.trip
  obtain ⟨now, later, earlier⟩ := valid
  refine ⟨?_, trip.signingKey_sound⟩
  cases stated : issue.statement with
  | label name key => exact trip.label_sound stated
  | binary bytes => trivial
  | link speaker spokenFor =>
    obtain ⟨speakerSound, spokenForSound⟩ := trip.link_sound stated
    exact ⟨speakerSound, spokenForSound, trip.link_total stated later earlier⟩

/-- All certificates survive, alone and as a chain. -/
def Delivered (issues : List (Issue platform)) : Prop :=
  (∀ issue ∈ issues, issue.Completes) ∧ ChainCompletes issues

/-- Certificates whose lengths are in order survive signing, sending and
verifying; and only those, as far as they are ever valid. -/
theorem delivered_iff_fits (issues : List (Issue platform)) :
    ((∀ issue ∈ issues, issue.Fits) → Delivered issues) ∧
      ((∀ issue ∈ issues, issue.Open) → Delivered issues → ∀ issue ∈ issues, issue.Fits) := by
  constructor
  · intro fits
    exact ⟨fun issue member => issue.completes_of_fits (fits issue member),
      chainCompletes_of_fits fits⟩
  · intro valid delivered issue member
    exact fits_of_completes (valid issue member) (delivered.1 issue member)

end Issue

/-! ## Two keys of 16384 bytes -/

/-- A platform whose signatures are all zero and always accepted. -/
def Platform.trusting : Platform Unit where
  zhash _ := ⟨List.replicate 20 0, List.length_replicate⟩
  getCurrentTime := 1
  rsaVerify _ _ _ := true
  rsaSign _ _ := ⟨List.replicate 256 0, List.length_replicate⟩

/-- The record of a key of `count` zero bytes. -/
def ZPubKeyRecord.zeros (count : Nat) : ZPubKeyRecord where
  header := (⟨DomainName.zoog, typeKey, 1, 86400, 0, 16⟩ :
    RecordHeader).addDataLength (4 + count)
  flags := 256
  protocol := 3
  algorithm := sigAlgId
  key := List.replicate count 0

theorem DomainName.zoog_proper : DomainName.zoog.Proper := ⟨zoog_grammatical, by decide⟩

theorem ZPubKeyRecord.ofKeyBytes_zeros (count : Nat) :
    ofKeyBytes (some DomainName.zoog) (replicate count 0) = .ok (zeros count) := by
  rw [ofKeyBytes, RecordHeader.new, copy_grammatical zoog_proper.grammatical, ok_bind,
    length_replicate]
  rfl

/-- The key of `count` zero bytes. -/
def ZPubKey.zeros (count : Nat) : ZPubKey Unit :=
  ⟨DomainName.zoog, (), ZPubKeyRecord.zeros count⟩

/-- An empty key as a pair. -/
def KeyPair.zeros : KeyPair Platform.trusting where
  priv := ⟨DomainName.zoog, (), ZPubKey.zeros 0⟩
  pub := ZPubKey.zeros 0
  owner := DomainName.zoog_proper
  same := rfl
  recorded := DomainName.zoog_proper
  verifies _ := rfl

/-- A chain of a label, a link and a binary arrives. -/
theorem Issue.chain_delivered : ∃ label link binary : Issue Platform.trusting,
    label.statement = .label (some DomainName.zoog) (ZPubKey.zeros 4) ∧
      link.statement = .link (ZPubKey.zeros 4) (ZPubKey.zeros 8) ∧
      binary.statement = .binary [1, 2, 3] ∧ Issue.Delivered [label, link, binary] := by
  have signing : (ZPubKeyRecord.zeros 0).Sound := ⟨rfl, by decide, by decide, by decide⟩
  have speaker : (ZPubKeyRecord.zeros 4).Sound := ⟨rfl, by decide, by decide, by decide⟩
  have spokenFor : (ZPubKeyRecord.zeros 8).Sound := ⟨rfl, by decide, by decide, by decide⟩
  obtain ⟨labelCert, labelBuilt⟩ : ∃ cert, Statement.build Platform.trusting 0 2
      (.label (some DomainName.zoog) (ZPubKey.zeros 4)) = .ok cert := by decide +kernel
  obtain ⟨linkCert, linkBuilt⟩ : ∃ cert, Statement.build Platform.trusting 0 2
      (.link (ZPubKey.zeros 4) (ZPubKey.zeros 8)) = .ok cert := by decide +kernel
  obtain ⟨binaryCert, binaryBuilt⟩ : ∃ cert, Statement.build Platform.trusting 0 2
      (.binary [1, 2, 3]) = .ok cert := by decide +kernel
  have named : ∀ label, some DomainName.zoog = some label → label.Proper := by
    rintro label ⟨⟩
    exact zoog_proper
  refine ⟨⟨.label _ _, 0, 2, labelCert, .zeros, ⟨named, zoog_proper⟩, labelBuilt⟩,
    ⟨.link _ _, 0, 2, linkCert, .zeros, ⟨zoog_proper, zoog_proper⟩, linkBuilt⟩,
    ⟨.binary _, 0, 2, binaryCert, .zeros, trivial, binaryBuilt⟩, rfl, rfl, rfl,
    (Issue.delivered_iff_fits _).1 ?_⟩
  intro issue member
  simp only [mem_cons, not_mem_nil, or_false] at member
  rcases member with rfl | rfl | rfl
  · exact ⟨speaker, signing⟩
  · exact ⟨⟨speaker, spokenFor, by decide⟩, signing⟩
  · exact ⟨trivial, signing⟩

theorem exists_bulky_link : ∃ cert, Statement.build Platform.trusting 0 2
      (.link (ZPubKey.zeros 16384) (ZPubKey.zeros 16384)) = .ok cert := by
  decide +kernel

/-- A certificate that links two keys of 16384 bytes does not survive. -/
theorem Issue.bulky_link_not_delivered :
    ZPubKeyRecord.ofKeyBytes (some DomainName.zoog) (List.replicate 16384 0) =
        .ok (ZPubKey.zeros 16384).record ∧
    ∃ issue : Issue Platform.trusting,
      issue.statement = .link (ZPubKey.zeros 16384) (ZPubKey.zeros 16384) ∧
        issue.inception = 0 ∧ issue.expires = 2 ∧
        issue.keys = KeyPair.zeros ∧ ¬Issue.Delivered [issue] := by
  refine ⟨ofKeyBytes_zeros 16384, ?_⟩
  obtain ⟨cert, built⟩ := exists_bulky_link
  refine ⟨⟨.link _ _, 0, 2, cert, .zeros, ⟨zoog_proper, zoog_proper⟩, built⟩, rfl, rfl, rfl,
    rfl, ?_⟩
  intro delivered
  have later : (0 : UInt32) < 1 := by decide
  have earlier : (1 : UInt32) < 2 := by decide
  have fits := (fits_of_completes ⟨1, later, earlier⟩ (delivered.1 _ (.head _))).1
  exact absurd fits.2.2 (by decide)

end Embassies.Crypto
