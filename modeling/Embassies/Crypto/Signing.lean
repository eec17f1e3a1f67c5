import Embassies.Crypto.CertCodec
import Embassies.Crypto.TextName

/-!
# Building and signing records in memory

Records that are built in memory keep their data length and their size with
`addDataLength`, which adds a signed sixteen-bit number to both.  This module
follows the two lengths through the constructors and through signing, and
shows that they count the bytes that are written as long as no summand
reaches `2 ^ 15`.
-/

namespace Embassies.Crypto

open Library Library.Buffer Library.Checked RecordHeader List DomainName

/-- A name that the text constructor builds and that fits on the wire. -/
structure DomainName.Proper (name : DomainName) : Prop where
  grammatical : name.Grammatical
  fits : name.size ≤ 255

theorem DomainName.Proper.canonical {name : DomainName} (proper : name.Proper) : name.Canonical :=
  proper.grammatical.canonical proper.fits

/-- The owner of records that are built without a label. -/
def DomainName.zoog : DomainName :=
  DomainName.ofChars [90, 79, 79, 71] (by decide)

theorem DomainName.parse_zoog : DomainName.parse [90, 79, 79, 71, 0] 5 = .ok DomainName.zoog := by
  decide

/-! ## The two lengths -/

namespace RecordHeader

theorem addDataLength_small {header : RecordHeader} {len : Nat}
    (consistent : header.Consistent) (small : len < 2 ^ 15)
    (room : header.dataLength.toNat + len < 2 ^ 16) :
    (header.addDataLength len).dataLength.toNat = header.dataLength.toNat + len ∧
      (header.addDataLength len).Consistent := by
  have bits : len % 2 ^ 16 = len := Nat.mod_eq_of_lt (by omega)
  have added : (header.addDataLength len).dataLength.toNat = header.dataLength.toNat + len := by
    simp only [addDataLength, bits]
    rw [UInt16.toNat_add, UInt16.toNat_ofNat', Nat.add_mod_mod, Nat.mod_eq_of_lt room]
  refine ⟨added, ?_⟩
  have short := header.owner.size_le
  have const : constSize = 10 := rfl
  rw [Consistent] at consistent
  rw [Consistent, added]
  simp only [addDataLength, bits, if_pos small]
  omega

theorem addDataLength_negative {header : RecordHeader} {len : Nat}
    (consistent : header.Consistent) (positive : 0 < len) (small : len < 2 ^ 15)
    (covered : len ≤ header.dataLength.toNat) :
    (header.addDataLength (sub32 0 len)).dataLength.toNat = header.dataLength.toNat - len ∧
      (header.addDataLength (sub32 0 len)).Consistent := by
  have bounded := header.dataLength.toNat_lt
  have bits : sub32 0 len % 2 ^ 16 = 2 ^ 16 - len := by
    unfold sub32
    omega
  have added : (header.addDataLength (sub32 0 len)).dataLength.toNat =
      header.dataLength.toNat - len := by
    simp only [addDataLength, bits]
    rw [UInt16.toNat_add, UInt16.toNat_ofNat']
    omega
  refine ⟨added, ?_⟩
  have short := header.owner.size_le
  have const : constSize = 10 := rfl
  rw [Consistent] at consistent
  rw [Consistent, added]
  simp only [addDataLength, bits]
  rw [if_neg (by omega)]
  omega

/-- A record without data. -/
structure Empty (header : RecordHeader) : Prop where
  consistent : header.Consistent
  empty : header.dataLength = 0
  grammatical : header.owner.Grammatical

theorem zoog_grammatical : DomainName.zoog.Grammatical := ⟨[90, 79, 79, 71], by decide,
    .inr (.label ⟨by decide, by decide, by decide, by decide +kernel⟩), rfl⟩

theorem new_empty {label : Option DomainName} {type : UInt16} {header : RecordHeader}
    (built : RecordHeader.new label type = .ok header) :
    header.Empty ∧ header.type = type := by
  cases label with
  | none =>
    simp only [RecordHeader.new, parse_zoog, ok_bind, pure_eq_ok, Except.ok.injEq] at built
    subst built
    exact ⟨⟨rfl, rfl, zoog_grammatical⟩, rfl⟩
  | some label =>
    simp only [RecordHeader.new, bind_eq_ok_iff, pure_eq_ok, Except.ok.injEq] at built
    obtain ⟨owner, copied, rfl⟩ := built
    exact ⟨⟨rfl, rfl, grammatical_of_copy copied⟩, rfl⟩

theorem new_none_proper {type : UInt16} {header : RecordHeader}
    (built : RecordHeader.new none type = .ok header) :
    header.owner = DomainName.zoog ∧ header.owner.Proper := by
  simp only [RecordHeader.new, parse_zoog, ok_bind, pure_eq_ok, Except.ok.injEq] at built
  subst built
  have short : DomainName.zoog.size ≤ 255 := by decide
  exact ⟨rfl, zoog_grammatical, short⟩

end RecordHeader

/-! ## Signature records -/

namespace ZSigRecord

/-- A signature record that has not been signed. -/
structure Unsigned (record : ZSigRecord) : Prop where
  type : record.header.type = typeSig
  consistent : record.header.Consistent
  exact : record.header.dataLength.toNat = record.headerSize
  unset : record.sig = none

variable {record : ZSigRecord}

theorem Unsigned.counted (unsigned : record.Unsigned) : record.Exact := by
  rw [Exact, sigBytes, unsigned.unset]
  exact unsigned.exact

theorem new_unsigned {typeCovered : UInt16} {label : Option DomainName} {inception expires : UInt32}
    (built : ZSigRecord.new typeCovered label inception expires = .ok record) :
    record.Unsigned ∧ record.typeCovered = typeCovered ∧
      record.inception = inception ∧ record.expires = expires := by
  unfold ZSigRecord.new at built
  simp only [bind_eq_ok_iff, ensure_eq_ok_iff] at built
  obtain ⟨header, started, _, _, _, _, signer, named, returned⟩ := built
  obtain ⟨empty, type⟩ := new_empty started
  have root : signer = WireName.root.toDomainName := by
    have parsed : DomainName.parse [32, 0] 2 = .ok WireName.root.toDomainName := by decide
    exact Except.ok.inj (named.symm.trans parsed)
  subst root
  cases returned
  have nothing : header.dataLength.toNat = 0 := by
    rw [empty.empty]
    rfl
  have size : WireName.root.toDomainName.size = 1 := rfl
  obtain ⟨length, consistent⟩ := @addDataLength_small header
    (ZSigRecord.constSize + WireName.root.toDomainName.size)
    empty.consistent (by rw [size]; decide) (by rw [nothing, size]; decide)
  refine ⟨⟨type, consistent, ?_, rfl⟩, rfl, rfl, rfl⟩
  rw [length, nothing, Nat.zero_add]
  rfl

theorem setSignerName_exact {name : DomainName}
    (exact : record.Exact) (consistent : record.header.Consistent)
    (grammatical : name.Grammatical) :
    ∃ next, record.setSignerName name = .ok next ∧
      next.header.type = record.header.type ∧ next.sig = record.sig ∧
      next.header.owner = name ∧ next.signerName = name ∧
      next.typeCovered = record.typeCovered ∧
      next.inception = record.inception ∧ next.expires = record.expires ∧
      (ZSigRecord.constSize + name.size + record.sigBytes.length < 2 ^ 16 →
        next.Exact ∧ next.header.Consistent) := by
  have short := name.size_le
  have oldShort := record.signerName.size_le
  have ownerShort := record.header.owner.size_le
  have const : ZSigRecord.constSize = 18 ∧ RecordHeader.constSize = 10 := ⟨rfl, rfl⟩
  have length : record.header.dataLength.toNat =
      ZSigRecord.constSize + record.signerName.size + record.sigBytes.length := exact
  simp only [setSignerName, copy_grammatical grammatical, ok_bind, pure_eq_ok]
  refine ⟨_, rfl, rfl, rfl, rfl, rfl, rfl, rfl, rfl, ?_⟩
  intro room
  obtain ⟨shorterLength, shorter⟩ := @addDataLength_negative
    record.header record.signerName.size consistent record.signerName.size_pos (by omega)
    (by omega)
  obtain ⟨longerLength, longer⟩ := @addDataLength_small _ name.size shorter (by omega) (by omega)
  have owner : ((record.header.addDataLength
      (sub32 0 record.signerName.size)).addDataLength name.size).owner = record.header.owner := rfl
  constructor
  · show ((record.header.addDataLength _).addDataLength _).dataLength.toNat =
      ZSigRecord.constSize + name.size + record.sigBytes.length
    omega
  · rw [RecordHeader.Consistent, owner] at longer
    rw [RecordHeader.Consistent]
    dsimp only
    rw [longer, sub32_of_le (by omega) (by omega)]
    omega

theorem setSignerName_unsigned {record : ZSigRecord} {name : DomainName}
    (unsigned : record.Unsigned) (proper : name.Proper) :
    ∃ next, record.setSignerName name = .ok next ∧ next.Unsigned ∧
      next.header.owner = name ∧ next.signerName = name ∧
      next.typeCovered = record.typeCovered ∧
      next.inception = record.inception ∧ next.expires = record.expires := by
  have fits := proper.fits
  have none : record.sigBytes = [] := by
    rw [sigBytes, unsigned.unset]
    rfl
  obtain ⟨next, run, type, sig, owner, signer, covered, inception, expires, ordered⟩ :=
    setSignerName_exact unsigned.counted unsigned.consistent proper.grammatical
  have const : ZSigRecord.constSize = 18 := rfl
  obtain ⟨length, consistent⟩ := ordered (by rw [none, length_nil]; omega)
  have unset := sig.trans unsigned.unset
  rw [Exact, sigBytes, unset] at length
  exact ⟨next, run, ⟨type.trans unsigned.type, consistent, length, unset⟩, owner, signer,
    covered, inception, expires⟩

theorem setSig_first {sig : List UInt8}
    (exact : record.Exact) (consistent : record.header.Consistent)
    (unset : record.sig = none) (small : sig.length ≤ signatureSize) :
    record.setSig sig = .ok { record with
        header := record.header.addDataLength sig.length, sig := some sig } ∧
      (record.header.addDataLength sig.length).dataLength.toNat = record.headerSize + sig.length ∧
      (record.header.addDataLength sig.length).Consistent := by
  have short := record.signerName.size_le
  have head : record.headerSize = ZSigRecord.constSize + record.signerName.size := rfl
  have const : ZSigRecord.constSize = 18 ∧ signatureSize = 256 := ⟨rfl, rfl⟩
  rw [Exact, sigBytes, unset, Option.getD_none, length_nil, Nat.add_zero] at exact
  obtain ⟨length, longer⟩ := @addDataLength_small
    record.header sig.length consistent (by omega) (by omega)
  rw [exact] at length
  refine ⟨?_, length, longer⟩
  simp only [setSig, unset, ensure_true small, ok_bind, pure_eq_ok]

theorem setSig_unsigned {sig : List UInt8}
    (unsigned : record.Unsigned) (length : sig.length = signatureSize) :
    ∃ next, record.setSig sig = .ok next ∧
      next.header.type = typeSig ∧ next.header.Consistent ∧ next.Exact ∧
      next.sigBytes = sig ∧ next.header.owner = record.header.owner ∧
      next.signerName = record.signerName ∧
      next.encodeHead = record.encodeHead ∧
      next.typeCovered = record.typeCovered ∧
      next.inception = record.inception ∧ next.expires = record.expires := by
  obtain ⟨run, counted, consistent⟩ := setSig_first unsigned.counted unsigned.consistent
    unsigned.unset (Nat.le_of_eq length)
  exact ⟨_, run, unsigned.type, consistent, counted, rfl, rfl, rfl, rfl, rfl, rfl, rfl⟩

end ZSigRecord

/-! ## Key records -/

namespace ZPubKeyRecord

/-- A key record whose type and lengths are in order. -/
structure Sound (record : ZPubKeyRecord) : Prop where
  type : record.header.type = typeKey
  consistent : record.header.Consistent
  covers : 4 ≤ record.header.dataLength.toNat
  enough : record.header.dataLength.toNat - 4 ≤ record.key.length

variable {record : ZPubKeyRecord}

theorem copy_eq_ok_iff {copied : ZPubKeyRecord} (grammatical : record.header.owner.Grammatical) :
    record.copy = .ok copied ↔ sub32 record.header.dataLength.toNat 4 ≤ record.key.length ∧
        copied = { record with
          key := record.key.take (sub32 record.header.dataLength.toNat 4) } := by
  rw [copy, copy_grammatical grammatical, ok_bind]
  generalize sub32 record.header.dataLength.toNat 4 = count
  simp only [bind_eq_ok_iff, Prod.exists, parseBytes_eq_ok_iff, pure_eq_ok, Except.ok.injEq]
  constructor
  · rintro ⟨key, rest, ⟨split, length⟩, rfl⟩
    refine ⟨?_, ?_⟩
    · rw [split, length_append]
      omega
    · rw [split, ← length, take_left]
  · rintro ⟨enough, rfl⟩
    exact ⟨_, _, ⟨(take_append_drop _ _).symm, length_take_of_le enough⟩, rfl⟩

theorem Sound.copy (sound : record.Sound) (grammatical : record.header.owner.Grammatical) :
    ∃ copied, record.copy = .ok copied ∧ copied.header = record.header ∧ copied.Exact := by
  have bounded := record.header.dataLength.toNat_lt
  have covers := sound.covers
  have enough := sound.enough
  have data : sub32 record.header.dataLength.toNat 4 =
      record.header.dataLength.toNat - 4 := sub32_of_le covers (by omega)
  refine ⟨_, (copy_eq_ok_iff grammatical).mpr ⟨by omega, rfl⟩, rfl, ?_⟩
  have taken := length_take_of_le enough
  rw [Exact, data]
  show record.header.dataLength.toNat = 4 + (record.key.take _).length
  omega

theorem Sound.getTag (sound : record.Sound) (memory : Allocation) :
    ∃ tag, record.getTag memory = .ok tag := by
  have bounded := record.header.dataLength.toNat_lt
  have covers := sound.covers
  have enough := sound.enough
  have data := sub16_of_le covers bounded
  have cells := memory.cells_length record.header.dataLength.toNat
  have stored : record.serializeKey (memory.cells record.header.dataLength.toNat) 0 =
        .ok (patch (patch (memory.cells record.header.dataLength.toNat) 0
          record.fields) (0 + 4) (record.key.take (record.header.dataLength.toNat - 4)),
          record.header.dataLength.toNat) := by
    have fields := record.fields_length
    have taken := length_take_of_le enough
    have first : 0 + record.fields.length ≤
        (memory.cells record.header.dataLength.toNat).length := by omega
    have read := parseBytes_eq_ok_iff.mpr ⟨(take_append_drop _ record.key).symm, taken⟩
    simp only [serializeKey, writeBytes_eq_ok first, ok_bind, data, read]
    rw [writeBytes_eq_ok (by rw [patch_length first]; omega)]
    rfl
  rw [ZPubKeyRecord.getTag, stored]
  exact ⟨_, rfl⟩

end ZPubKeyRecord

end Embassies.Crypto
