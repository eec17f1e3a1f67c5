import Embassies.Crypto.Signing

/-!
# The size of a signature record

The data length and the size of a signature record are changed in place when its signer or
its signature is set.  A new signature takes the place of an old one as if both were of the
same length, so the lengths go wrong when they differ.  They also go wrong when a signer
name makes the data of a parsed record reach `2 ^ 16` bytes.
-/

namespace Embassies.Crypto

open Library Library.Checked RecordHeader List

theorem RecordHeader.addDataLength_back
    {header : RecordHeader} {len : Nat} (small : len < 2 ^ 15) (bounded : header.size < 2 ^ 32) :
    (header.addDataLength (sub32 0 len)).addDataLength len = header := by
  have taken : sub32 0 len % 2 ^ 16 = (2 ^ 16 - len) % 2 ^ 16 := by
    unfold sub32
    omega
  have added : len % 2 ^ 16 = len := Nat.mod_eq_of_lt (by omega)
  have data := header.dataLength.toNat_lt
  refine RecordHeader.ext rfl rfl rfl rfl ?_ ?_
  · rw [← UInt16.toNat_inj]
    simp only [addDataLength, taken, added, UInt16.toNat_add, UInt16.toNat_ofNat']
    omega
  · simp only [addDataLength, taken, added]
    split <;> omega

namespace ZSigRecord

/-- The data length counts the stored signature, the size counts the data, and serializing
copies exactly the stored signature. -/
def Accounted (record : ZSigRecord) : Prop :=
  record.header.dataLength.toNat = record.headerSize + record.sigBytes.length ∧
    record.size = record.header.owner.size + 10 + record.header.dataLength.toNat ∧
    parseBytes (sub16 record.header.dataLength.toNat record.headerSize) record.sigBytes =
      .ok (record.sigBytes, [])

variable {record : ZSigRecord}

theorem accounted_iff : record.Accounted ↔ record.Exact ∧ record.header.Consistent := by
  constructor
  · exact fun accounted => ⟨accounted.1, accounted.2.1⟩
  · rintro ⟨exact, consistent⟩
    refine ⟨exact, consistent, parseBytes_eq_ok_iff.mpr ⟨(append_nil _).symm, ?_⟩⟩
    have bounded := record.header.dataLength.toNat_lt
    rw [Exact] at exact
    rw [sub16_of_le (by omega) bounded]
    omega

/-- A call that changes the lengths. -/
inductive Call where
  | setSignerName (name : DomainName)
  | setSig (sig : List UInt8)

namespace Call

/-- Grammatical names and signatures that are not too long. -/
def Allowed : Call → Prop
  | setSignerName name => name.Grammatical
  | setSig sig => sig.length ≤ signatureSize

/-- The call on a record. -/
def run : Call → ZSigRecord → Except Halt ZSigRecord
  | setSignerName name, record => record.setSignerName name
  | setSig sig, record => record.setSig sig

/-- The length of the stored signature after the call. -/
def stored : Call → Option Nat → Option Nat
  | setSignerName _, length => length
  | setSig sig, _ => some sig.length

/-- The lengths stay in order: a signer name leaves room for the stored signature, and a
signature is as long as the one it replaces. -/
def Fits : Call → Option Nat → Prop
  | setSignerName name, length => constSize + name.size + length.getD 0 < 2 ^ 16
  | setSig sig, length => ∀ old, length = some old → old = sig.length

end Call

/-- After each of the calls the record is accounted for. -/
def Accounts : ZSigRecord → List Call → Prop
  | _, [] => True
  | record, call :: calls =>
    ∃ next, call.run record = .ok next ∧ next.Accounted ∧ next.Accounts calls

/-- Each of the calls fits, starting with a stored signature of this length. -/
def AllFit : Option Nat → List Call → Prop
  | _, [] => True
  | length, call :: calls => call.Fits length ∧ AllFit (call.stored length) calls

/-- A call keeps the lengths in order exactly when it fits. -/
theorem Call.run_accounted_iff {call : Call} (allowed : call.Allowed)
    (exact : record.Exact) (consistent : record.header.Consistent) :
    ∃ next, call.run record = .ok next ∧
      next.sig.map List.length = call.stored (record.sig.map List.length) ∧
      (next.Accounted ↔ call.Fits (record.sig.map List.length)) := by
  cases call with
  | setSignerName name =>
    obtain ⟨next, run, -, sig, -, signer, -, -, -, ordered⟩ :=
      setSignerName_exact exact consistent allowed
    have same : next.sigBytes.length = (record.sig.map List.length).getD 0 := by
      rw [sigBytes, sig]
      cases record.sig <;> rfl
    have bytes : next.sigBytes = record.sigBytes := by rw [sigBytes, sig, sigBytes]
    refine ⟨next, run, by rw [sig]; rfl, ?_, ?_⟩
    · intro accounted
      have bounded := next.header.dataLength.toNat_lt
      rw [accounted.1, headerSize, signer, same] at bounded
      exact bounded
    · intro fits
      rw [Fits, ← same, bytes] at fits
      exact accounted_iff.mpr (ordered fits)
  | setSig sig =>
    cases stored : record.sig with
    | none =>
      obtain ⟨run, counted, longer⟩ := setSig_first exact consistent stored allowed
      refine ⟨_, run, rfl, iff_of_true (accounted_iff.mpr ⟨counted, longer⟩) ?_⟩
      intro old none
      cases none
    | some old =>
      have within : sig.length ≤ signatureSize := allowed
      have small : sig.length < 2 ^ 15 := within.trans_lt (by decide)
      have ownerShort := record.header.owner.size_le
      have data := record.header.dataLength.toNat_lt
      have size : record.header.size < 2 ^ 32 := by
        rw [consistent, RecordHeader.constSize]
        omega
      have run : record.setSig sig = .ok { record with sig := some sig } := by
        simp only [ZSigRecord.setSig, ensure_true within, ok_bind, pure_eq_ok, stored,
          addDataLength_back small size]
      have length : record.header.dataLength.toNat = record.headerSize + old.length := by
        rw [exact, sigBytes, stored, Option.getD_some]
      refine ⟨_, run, rfl, ?_⟩
      constructor
      · rintro ⟨counted, -⟩ other same
        obtain rfl := Option.some.inj same
        have total : record.header.dataLength.toNat = record.headerSize + sig.length := counted
        omega
      · intro fits
        refine accounted_iff.mpr ⟨?_, consistent⟩
        rw [fits old.length rfl] at length
        exact length

/-- The lengths stay in order over a run exactly when each call fits. -/
theorem accounts_iff_of_exact {calls : List Call} (allowed : ∀ call ∈ calls, call.Allowed)
    (exact : record.Exact) (consistent : record.header.Consistent) :
    record.Accounts calls ↔ AllFit (record.sig.map List.length) calls := by
  induction calls generalizing record with
  | nil => exact Iff.rfl
  | cons call calls induction =>
    obtain ⟨next, run, stored, counted⟩ :=
      Call.run_accounted_iff (allowed call mem_cons_self) exact consistent
    have later : ∀ other ∈ calls, other.Allowed :=
      fun other member => allowed other (mem_cons_of_mem _ member)
    constructor
    · rintro ⟨other, again, accounted, rest⟩
      obtain rfl := Except.ok.inj (run.symm.trans again)
      have ordered := accounted_iff.mp accounted
      rw [induction later ordered.1 ordered.2, stored] at rest
      exact ⟨counted.mp accounted, rest⟩
    · rintro ⟨fits, rest⟩
      have accounted := counted.mpr fits
      have ordered := accounted_iff.mp accounted
      rw [← stored, ← induction later ordered.1 ordered.2] at rest
      exact ⟨next, run, accounted, rest⟩

/-- The record was built or parsed. -/
def Obtained (record : ZSigRecord) : Prop :=
  (∃ typeCovered label inception expires,
      ZSigRecord.new typeCovered label inception expires = .ok record) ∨
    ∃ memory size, ZSigRecord.parse memory size = .ok record

/-- From a built or parsed record the lengths stay in order over a run of calls exactly when
each call fits. -/
theorem accounts_iff_allFit {record : ZSigRecord} (obtained : record.Obtained) {calls : List Call}
    (allowed : ∀ call ∈ calls, call.Allowed) :
    record.Accounts calls ↔ AllFit (record.sig.map List.length) calls := by
  rcases obtained with ⟨_, _, _, _, built⟩ | ⟨_, _, parsed⟩
  · obtain ⟨unsigned, -⟩ := new_unsigned built
    exact accounts_iff_of_exact allowed unsigned.counted unsigned.consistent
  · obtain ⟨exact, consistent⟩ := exact_of_parse parsed
    exact accounts_iff_of_exact allowed exact consistent

/-- A new record for binaries. -/
def freshRecord : ZSigRecord where
  header := ⟨DomainName.zoog, typeSig, 1, 86400, 19, 35⟩
  typeCovered := typeBinary
  algorithm := sigAlgId
  labels := 1
  originalTtl := 86400
  expires := 2
  inception := 0
  keyTag := 0
  signerName := WireName.root.toDomainName
  sig := none

theorem freshRecord_obtained : freshRecord.Obtained := .inl ⟨typeBinary, none, 0, 2, by decide⟩

/-- A signer and two signatures of the same length. -/
theorem accounts_equal_signatures : freshRecord.Accounts
      [.setSignerName DomainName.zoog, .setSig (List.replicate 256 1),
        .setSig (List.replicate 256 2)] := by
  refine (accounts_iff_allFit freshRecord_obtained ?_).mpr ?_
  · intro call member
    simp only [mem_cons, not_mem_nil, or_false] at member
    rcases member with rfl | rfl | rfl
    · exact zoog_grammatical
    · exact Nat.le_of_eq length_replicate
    · exact Nat.le_of_eq length_replicate
  · refine ⟨show constSize + DomainName.zoog.size + 0 < 2 ^ 16 by decide, ?_, ?_, trivial⟩
    · rintro old none
      cases none
    · rintro old same
      rw [length_replicate]
      exact (Option.some.inj same).symm.trans length_replicate

/-- A signature of two bytes that replaces one of one byte is not counted. -/
theorem accounts_not_longer_signature : freshRecord.Obtained ∧
      ∃ first second, freshRecord.setSig [1] = .ok first ∧ first.setSig [1, 2] = .ok second ∧
        second.header.dataLength = 20 ∧ second.headerSize + second.sigBytes.length = 21 ∧
        ¬ second.Accounted :=
  ⟨freshRecord_obtained, _, _, rfl, rfl, rfl, rfl, fun accounted => absurd accounted.1 (by decide)⟩

end ZSigRecord

end Embassies.Crypto
