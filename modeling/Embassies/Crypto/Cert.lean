import Embassies.Crypto.Record

/-!
# Keys, certificates and certificate chains

A certificate carries an object, a signature record and the record of the key
that signed it; each may be missing.  A chain leads from a trust anchor to the
key whose label is in question.

The RSA code is fetched when the repository is built and is a parameter here,
as are the hash function and the clock.  A buffer from `malloc_array` holds
unspecified bytes until it is written; its contents are a parameter too.
-/

namespace Embassies.Crypto

open Library Library.Checked RecordHeader

/-- The code that the certificates rely on. -/
structure Platform (Context : Type) where
  /-- `zhash`. -/
  zhash : List UInt8 → Hash
  /-- `getCurrentTime`. -/
  getCurrentTime : UInt32
  /-- `rsa_pkcs1_verify` returns zero. -/
  rsaVerify : Context → Hash → List UInt8 → Bool
  /-- `rsa_pkcs1_sign`, which fills a buffer of `SIGNATURE_SIZE` bytes. -/
  rsaSign : Context → Hash → { bytes : List UInt8 // bytes.length = signatureSize }

/-- What `malloc_array` returns for each size. -/
structure Allocation where
  cells : Nat → List UInt8
  cells_length : ∀ size, (cells size).length = size

/-- Memory that holds zeros. -/
def Allocation.blank : Allocation :=
  ⟨fun size => List.replicate size 0, fun _ => List.length_replicate⟩

/-- The value behind a pointer that may be null. -/
def deref {α : Type} : Option α → Except Halt α
  | some value => .ok value
  | none => .error (.fault .nullPointer)

variable {Context : Type}

/-! ## Keys -/

/-- `ZPubKey`. -/
structure ZPubKey (Context : Type) where
  owner : DomainName
  context : Context
  record : ZPubKeyRecord

/-- `ZPrivKey`. -/
structure ZPrivKey (Context : Type) where
  owner : DomainName
  context : Context
  pubKey : ZPubKey Context

namespace ZPubKeyRecord

/-- The loop of `ZPubKeyRecord::getTag`: bytes at even positions count
256-fold. -/
def tagSum : List UInt8 → Nat
  | [] => 0
  | [high] => high.toNat * 256
  | high :: low :: rest => high.toNat * 256 + low.toNat + tagSum rest

/-- `ZPubKeyRecord::getTag`. -/
def getTag (memory : Allocation) (record : ZPubKeyRecord) :
    Except Halt UInt16 := do
  let buffer := memory.cells record.header.dataLength.toNat
  let (buffer, _) ← record.serializeKey buffer 0
  let sum := tagSum buffer
  return UInt16.ofNat (sum + sum / 2 ^ 16 % 2 ^ 16)

end ZPubKeyRecord

namespace ZPubKey

/-- `ZPubKey::verify`.  The header requires `SIGNATURE_SIZE` bytes behind
`signature`. -/
def verify (platform : Platform Context) (key : ZPubKey Context)
    (signature buffer : List UInt8) : Except Halt Bool := do
  ensure (signatureSize ≤ signature.length) (.fault .outOfBoundsRead)
  return platform.rsaVerify key.context (platform.zhash buffer) signature

end ZPubKey

/-- `ZPrivKey::sign`. -/
def ZPrivKey.sign (platform : Platform Context) (key : ZPrivKey Context)
    (buffer : List UInt8) : List UInt8 :=
  (platform.rsaSign key.context (platform.zhash buffer)).1

/-! ## Certificates -/

/-- `ZCert`. -/
structure ZCert where
  object : Option ZRecord
  sig : Option ZSigRecord
  signingKey : Option ZPubKeyRecord
deriving DecidableEq

namespace ZCert

/-- One of the three parts of a serialized certificate: a length that only
says whether the part is there, and the part itself. -/
def parsePart {α : Type} (parse : List UInt8 → Nat → Except Halt α)
    (partSize : α → Nat) (memory : List UInt8) (size : Nat) :
    Except Halt (Option α × List UInt8 × Nat) := do
  ensure (4 ≤ size) (.badInput "Cert too short")
  let (recordSize, memory) ← parseInt memory
  let size := size - 4
  if recordSize = 0 then
    return (none, memory, size)
  else
    let part ← parse memory size
    return (some part, memory.drop (partSize part), size - partSize part)

/-- The object of a certificate; an unknown record type yields no object. -/
def parseObject (memory : List UInt8) (size : Nat) : Except Halt ZRecord := do
  match ← ZRecord.spawn memory size with
  | some object => return object
  | none => .error (.outOfMemory "Failed to allocate object")

/-- `ZCert(uint8_t *, uint32_t)`. -/
def parse (serializedCert : List UInt8) (size : Nat) : Except Halt ZCert := do
  let (object, rest, size) ←
    parsePart parseObject ZRecord.size serializedCert size
  let (sig, rest, size) ←
    parsePart ZSigRecord.parse ZSigRecord.size rest size
  let (signingKey, _, _) ←
    parsePart ZPubKeyRecord.parse ZPubKeyRecord.size rest size
  return { object, sig, signingKey }

/-- `ZCert(uint32_t, uint32_t, const DomainName *, ZPubKey *)`. -/
def ofKey (inception expires : UInt32) (label : Option DomainName)
    (key : ZPubKey Context) : Except Halt ZCert := do
  let object ← key.record.copy
  let sig ← ZSigRecord.new typeKey label inception expires
  return { object := some (.key object), sig := some sig, signingKey := none }

/-- `ZCert(uint32_t, uint32_t, const uint8_t *, uint32_t)`. -/
def ofBinary (platform : Platform Context) (inception expires : UInt32)
    (binary : List UInt8) : Except Halt ZCert := do
  let object ← ZBinaryRecord.ofBinary platform.zhash binary
  let sig ← ZSigRecord.new typeBinary none inception expires
  return { object := some (.binary object), sig := some sig, signingKey := none }

/-- `ZCert(uint32_t, uint32_t, ZPubKey *, ZPubKey *)`. -/
def ofKeyLink (inception expires : UInt32)
    (keySpeaker keySpokenFor : ZPubKey Context) : Except Halt ZCert := do
  let object ← ZKeyLinkRecord.ofKeys keySpeaker.record keySpokenFor.record
  let sig ← ZSigRecord.new typeKeyLink none inception expires
  return { object := some (.keyLink object), sig := some sig, signingKey := none }

/-- The bytes that `sign` and `verify` hash: the signature record without the
signature, then the object. -/
def signedBytes (memory : Allocation) (sig : ZSigRecord) (object : ZRecord) :
    Except Halt (List UInt8) := do
  let bufferLen := (sig.headerSize + object.size) % 2 ^ 32
  let (buffer, headerLen) ← sig.serializeHead (memory.cells bufferLen) 0
  let (buffer, _) ← object.serialize buffer headerLen
  return buffer

/-- `ZCert::sign`. -/
def sign (platform : Platform Context) (memory : Allocation) (cert : ZCert)
    (key : ZPrivKey Context) : Except Halt ZCert := do
  let sig ← deref cert.sig
  let tag ← key.pubKey.record.getTag memory
  let sig ← (sig.setKeyTag tag).setSignerName key.owner
  let object ← deref cert.object
  let buffer ← signedBytes memory sig object
  let sig ← sig.setSig (key.sign platform buffer)
  let signingKey ← key.pubKey.record.copy
  return { object := some object, sig := some sig, signingKey := some signingKey }

/-- `ZCert::verify`, with a key that is not null and has an owner.  The size of
the buffer is computed before the pointers are tested. -/
def verify (platform : Platform Context) (memory : Allocation) (cert : ZCert)
    (key : ZPubKey Context) : Except Halt Bool := do
  let sig ← deref cert.sig
  let object ← deref cert.object
  if object.getType = sig.typeCovered ∧ sig.inception < platform.getCurrentTime ∧
      platform.getCurrentTime < sig.expires ∧
      sig.signerName.equals key.owner = true then
    let buffer ← signedBytes memory sig object
    key.verify platform sig.sigBytes buffer
  else
    return false

/-- The bytes a part needs. -/
def partSize {α : Type} (size : α → Nat) : Option α → Nat
  | some part => 4 + size part
  | none => 4

/-- `ZCert::size`. -/
def size (cert : ZCert) : Nat :=
  (partSize ZRecord.size cert.object +
    partSize ZSigRecord.size cert.sig +
    partSize ZPubKeyRecord.size cert.signingKey) % 2 ^ 32

/-- Write one part; the result stands behind it. -/
def serializePart {α : Type} (size : α → Nat)
    (serialize : α → List UInt8 → Nat → Except Halt (List UInt8 × Nat))
    (part : Option α) (buffer : List UInt8) (base : Nat) :
    Except Halt (List UInt8 × Nat) :=
  match part with
  | none => do
    let buffer ← writeBytes buffer base (int 0)
    return (buffer, base + 4)
  | some part => do
    let buffer ← writeBytes buffer base (int (UInt32.ofNat (size part)))
    let (buffer, _) ← serialize part buffer (base + 4)
    return (buffer, base + 4 + size part)

/-- `ZCert::serialize`. -/
def serialize (cert : ZCert) (buffer : List UInt8) (base : Nat) :
    Except Halt (List UInt8) := do
  let (buffer, base) ←
    serializePart ZRecord.size ZRecord.serialize cert.object buffer base
  let (buffer, base) ←
    serializePart ZSigRecord.size ZSigRecord.serialize cert.sig buffer base
  let (buffer, _) ←
    serializePart ZPubKeyRecord.size ZPubKeyRecord.serialize cert.signingKey
      buffer base
  return buffer

/-- Compare two parts that may be missing. -/
def equalParts {α : Type} (isEqual : α → α → Except Halt Bool) :
    Option α → Option α → Except Halt Bool
  | none, none => .ok true
  | some left, some right => isEqual left right
  | _, _ => .ok false

/-- `operator==(ZCert &, ZCert &)`. -/
def equals (left right : ZCert) : Except Halt Bool := do
  if ← equalParts ZRecord.isEqual left.object right.object then
    if ← equalParts ZSigRecord.isEqual left.sig right.sig then
      equalParts ZPubKeyRecord.isEqual left.signingKey right.signingKey
    else
      return false
  else
    return false

end ZCert

/-! ## Chains -/

/-- `ZCertChain::MAX_NUM_CERTS`. -/
def maxNumCerts : Nat := 10

/-- `ZCertChain`. -/
structure ZCertChain where
  certs : List ZCert
  bounded : certs.length ≤ maxNumCerts

namespace ZCertChain

/-- The loop of `ZCertChain(uint8_t *, uint32_t)`; `sizeRemaining` is an
`int`. -/
def parseCerts : (count : Nat) → List UInt8 → Int →
    Except Halt { certs : List ZCert // certs.length = count }
  | 0, _, _ => .ok ⟨[], rfl⟩
  | count + 1, buffer, sizeRemaining => do
    ensure (0 < sizeRemaining)
      (.badInput "Not enough data left to read a cert")
    let cert ← ZCert.parse buffer sizeRemaining.toNat
    let rest ← parseCerts count (buffer.drop cert.size)
      ((sizeRemaining - cert.size).bmod (2 ^ 32))
    return ⟨cert :: rest.1, by rw [List.length_cons, rest.2]⟩

/-- `ZCertChain(uint8_t *, uint32_t)`. -/
def parse (buffer : List UInt8) (size : Nat) : Except Halt ZCertChain := do
  ensure (1 ≤ size)
    (.badInput "NULL buffer given for deserializing ZCertChain")
  let (numCerts, buffer) ← parseByte buffer
  if few : numCerts.toNat ≤ maxNumCerts then
    let certs ← parseCerts numCerts.toNat buffer
      (((size - 1 : Nat) : Int).bmod (2 ^ 32))
    return ⟨certs.1, by rw [certs.2]; exact few⟩
  else
    .error (.badInput "Tried to parse a ZCertChain with too many certs!")

/-- `ZCertChain::size`. -/
def size (chain : ZCertChain) : Nat :=
  (1 + (chain.certs.map ZCert.size).sum) % 2 ^ 32

/-- The loop of `ZCertChain::serialize`. -/
def serializeCerts : List ZCert → List UInt8 → Nat → Except Halt (List UInt8)
  | [], buffer, _ => .ok buffer
  | cert :: rest, buffer, base => do
    let buffer ← cert.serialize buffer base
    serializeCerts rest buffer (base + cert.size)

/-- `ZCertChain::serialize`. -/
def serialize (chain : ZCertChain) (buffer : List UInt8) :
    Except Halt (List UInt8) := do
  let buffer ← writeBytes buffer 0 [UInt8.ofNat chain.certs.length]
  serializeCerts chain.certs buffer 1

end ZCertChain

end Embassies.Crypto
