import Embassies.Library.Format
import Embassies.Library.Checked

/-!
# The encrypted client of the key-value store

`EncryptedKeyValClient` keeps its values with a server that it does not trust.
To insert a value it encrypts the value together with its key and sends the
ciphertext.  To look a key up it takes whatever bytes the server replies for a
ciphertext, decrypts it, and compares the key that it finds inside.

The structures of the protocol lie in memory as on the i386.  A load outside the
memory that holds the reply is a fault, and so is a store outside an allocation.
The length of the authentication tag belongs to the library for it and is a
parameter.
-/

namespace Embassies.KeyStore

open Library Library.Buffer Library.Checked List

/-- What a run of the code must never do. -/
inductive Fault where
  | assertion
  /-- A load outside the memory of the reply. -/
  | outOfReply
  /-- A load outside the plaintext. -/
  | outOfPlaintext
  /-- A store outside an allocated buffer. -/
  | outOfAllocation
deriving DecidableEq

/-! ## Layouts -/

/-- `Value`, whose `len` is the number of its bytes. -/
structure Value where
  bytes : List UInt8
deriving DecidableEq

/-- `len`. -/
def Value.len (val : Value) : UInt32 := UInt32.ofNat val.bytes.length

/-- The value in memory. -/
def Value.image (val : Value) : List UInt8 :=
  Format.host32.encode val.len ++ val.bytes

/-- `sizeof(Value)`. -/
def valueSize : Nat := Format.host32.size

/-- `sizeof(KeyVal)`. -/
def keyValSize : Nat := Format.host64.size + valueSize

/-- `sizeof(KVRequest)`. -/
def kvRequestSize : Nat := Format.uint8.size + keyValSize

/-- `KeyVal`, an object of an address space of thirty-two bits. -/
structure KeyVal where
  key : UInt64
  val : Value
  fits : keyValSize + val.bytes.length < 2 ^ 32

/-- The object in memory. -/
def KeyVal.image (kv : KeyVal) : List UInt8 :=
  Format.host64.encode kv.key ++ kv.val.image

/-- `type` of a request. -/
inductive RequestType where
  | lookup
  | insert
deriving DecidableEq

/-- `KVRequest`. -/
structure KVRequest where
  type : RequestType
  key : UInt64
  val : Value

/-! ## Encryption -/

/-- `sizeof(Mac)`: two words, the nonce and the tag. -/
def macSize (tagSize : Nat) : Nat := 4 + 4 + 16 + tagSize

/-- `BLOCK_CIPHER_SIZE/8`. -/
def ivSize : Nat := 16

/-- `sizeof(Ciphertext)`. -/
def ciphertextSize (tagSize : Nat) : Nat :=
  Format.host32.size + macSize tagSize + ivSize

theorem ciphertextSize_ge (tagSize : Nat) : 8 ≤ ciphertextSize tagSize := by
  rw [ciphertextSize, macSize, ivSize]
  omega

/-- `Ciphertext`, whose `len` is the number of its bytes. -/
structure Ciphertext (tagSize : Nat) where
  mac : List UInt8
  iv : List UInt8
  bytes : List UInt8
  mac_length : mac.length = macSize tagSize
  iv_length : iv.length = ivSize
  fits : bytes.length < 2 ^ 32
deriving DecidableEq

attribute [ext] Ciphertext

namespace Ciphertext

variable {tagSize : Nat}

/-- `len`. -/
def len (cipher : Ciphertext tagSize) : UInt32 := UInt32.ofNat cipher.bytes.length

/-- The ciphertext in memory. -/
def image (cipher : Ciphertext tagSize) : List UInt8 :=
  Format.host32.encode cipher.len ++ (cipher.mac ++ (cipher.iv ++ cipher.bytes))

/-- The ciphertext with a `len` that lies at a place of a memory. -/
def load (memory : List UInt8) (offset : Nat) (len : UInt32) :
    Except Fault (Ciphertext tagSize) :=
  if inside : offset + ciphertextSize tagSize + len.toNat ≤ memory.length then
    .ok {
      mac := (memory.drop (offset + Format.host32.size)).take (macSize tagSize)
      iv := (memory.drop (offset + Format.host32.size + macSize tagSize)).take ivSize
      bytes := (memory.drop (offset + ciphertextSize tagSize)).take len.toNat
      mac_length := by
        rw [length_take, length_drop]
        rw [ciphertextSize] at inside
        omega
      iv_length := by
        rw [length_take, length_drop]
        rw [ciphertextSize] at inside
        omega
      fits := by
        rw [length_take]
        exact Nat.lt_of_le_of_lt (Nat.min_le_left _ _) len.toNat_lt }
  else
    .error .outOfReply

variable {offset : Nat}

theorem load_eq_ok {memory : List UInt8} {len : UInt32}
    (inside : offset + ciphertextSize tagSize + len.toNat ≤ memory.length) :
    ∃ cipher : Ciphertext tagSize, load memory offset len = .ok cipher := by
  rw [load, dif_pos inside]
  exact ⟨_, rfl⟩

variable (cipher : Ciphertext tagSize)

theorem len_toNat : cipher.len.toNat = cipher.bytes.length := by
  rw [len, UInt32.toNat_ofNat', Nat.mod_eq_of_lt cipher.fits]

theorem image_length : cipher.image.length = ciphertextSize tagSize + cipher.bytes.length := by
  rw [image, length_append, length_append, length_append,
    Format.encode_length, cipher.mac_length, cipher.iv_length, ciphertextSize]
  omega

theorem load_image {front behind : List UInt8} (before : front.length = offset) :
    load (front ++ (cipher.image ++ behind)) offset cipher.len = .ok cipher := by
  subst before
  have size := Format.encode_length Format.host32 cipher.len
  have macLength := cipher.mac_length
  have ivLength := cipher.iv_length
  rw [load, dif_pos (by
    rw [length_append, length_append, image_length, len_toNat]
    omega), Except.ok.injEq]
  have pieces : front ++ (cipher.image ++ behind) = front ++ (Format.host32.encode cipher.len ++
        (cipher.mac ++ (cipher.iv ++ (cipher.bytes ++ behind)))) := by
    simp only [image, append_assoc]
  ext1
  · dsimp only
    rw [pieces, ← drop_drop, drop_left, drop_left' size, take_left' macLength]
  · dsimp only
    rw [pieces, Nat.add_assoc, ← drop_drop, drop_left, ← drop_drop,
      drop_left' size, drop_left' macLength, take_left' ivLength]
  · dsimp only
    rw [pieces, ciphertextSize, Nat.add_assoc, ← drop_drop, drop_left,
      ← drop_drop, drop_left' size, ← drop_drop, drop_left' macLength,
      drop_left' ivLength, len_toNat, take_left]

end Ciphertext

/-- `SymEncKey`.  The ciphertext is as long as the plaintext. -/
structure SymEncKey (tagSize : Nat) (Random : Type) where
  encrypt : Random → List UInt8 → Ciphertext tagSize
  decrypt : Ciphertext tagSize → Option (List UInt8)
  encrypt_length : ∀ random plain, plain.length < 2 ^ 32 →
    (encrypt random plain).bytes.length = plain.length

namespace SymEncKey

/-- A key that leaves the plaintext as it is. -/
def clear (decrypt : Ciphertext 8 → Option (List UInt8)) : SymEncKey 8 Unit where
  encrypt _ plain := {
    mac := List.replicate (macSize 8) 0
    iv := List.replicate ivSize 0
    bytes := if plain.length < 2 ^ 32 then plain else []
    mac_length := length_replicate
    iv_length := length_replicate
    fits := by
      split
      · assumption
      · exact Nat.two_pow_pos 32 }
  decrypt := decrypt
  encrypt_length _ _ fits := congrArg List.length (if_pos fits)

variable {tagSize : Nat} {Random : Type} (key : SymEncKey tagSize Random)

/-! ## Inserting -/

/-- `hash_buf`. -/
def hashBuf (bytes : List UInt8) : UInt32 :=
  bytes.foldl (fun hash byte => hash * 131 + byte.toUInt32) 0

/-- What is encrypted for a key and its value. -/
def plaintext (kv : KeyVal) : List UInt8 :=
  kv.image.take (UInt32.ofNat keyValSize + kv.val.len).toNat

/-- The request that `insert` sends.  The buffers for the ciphertext and for the
request are allocated with the sizes that the sums of thirty-two bits give. -/
def insertRequest (random : Random) (kv : KeyVal) : Except Fault KVRequest := do
  let cipher := key.encrypt random (plaintext kv)
  ensure (ciphertextSize tagSize + cipher.bytes.length < 2 ^ 32) .outOfAllocation
  let cipherSize := UInt32.ofNat (ciphertextSize tagSize) + cipher.len
  ensure (kvRequestSize + cipherSize.toNat < 2 ^ 32) .outOfAllocation
  return ⟨.insert, kv.key, ⟨cipher.image.take cipherSize.toNat⟩⟩

/-- The acknowledgement that `insert` insists upon. -/
def acknowledged (request : KVRequest) (reply : List UInt8) : Except Fault Unit := do
  ensure (reply.length = Format.host32.size) .assertion
  ensure (Format.host32.decode reply = hashBuf request.val.bytes) .assertion

/-! ## Looking up -/

/-- The decrypted object: its key is compared and its value copied. -/
def openPlaintext (wanted : UInt64) (plain : List UInt8) :
    Except Fault (Option (List UInt8)) :=
  if plain.length < keyValSize then
    .ok none
  else if Format.host64.read plain ≠ wanted then
    .ok none
  else do
    let len := Format.host32.read (plain.drop Format.host64.size)
    let image ← Buffer.load .outOfPlaintext plain Format.host64.size
      (UInt32.ofNat valueSize + len).toNat
    return some image

/-- The ciphertext in the reply is decrypted. -/
def openCipher (wanted : UInt64) (memory : List UInt8) (cipherLen : UInt32) :
    Except Fault (Option (List UInt8)) := do
  let cipher ← Ciphertext.load memory valueSize cipherLen
  match key.decrypt cipher with
  | none => return none
  | some plain => openPlaintext wanted plain

/-- The value in the reply is hashed for the log, and the ciphertext in it is
opened. -/
def openValue (wanted : UInt64) (memory : List UInt8) (len : UInt32) :
    Except Fault (Option (List UInt8)) := do
  let _ ← Buffer.load .outOfReply memory valueSize len.toNat
  let cipherLen ← Format.host32.load .outOfReply memory valueSize
  if cipherLen = 0 ∨ len < cipherLen then
    return none
  else
    key.openCipher wanted memory cipherLen

/-- `lookup`, with a reply of `size` bytes at the front of the memory.  The result
is the value in memory. -/
def lookup (wanted : UInt64) (size : Nat) (memory : List UInt8) :
    Except Fault (Option (List UInt8)) :=
  if size < valueSize then
    .ok none
  else do
    let len ← Format.host32.load .outOfReply memory 0
    if len = 0 ∨ size < len.toNat ∨ len.toNat < ciphertextSize tagSize then
      return none
    else
      key.openValue wanted memory len

end SymEncKey

end Embassies.KeyStore
