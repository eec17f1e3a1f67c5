import Embassies.KeyStore.Client

/-!
# What a lookup can return

Clients that share a key insert values and look them up.  If decryption opens only
what the clients have encrypted, a lookup returns only what was inserted under its
key, whatever the server replies and whatever lies behind the reply in memory.  A
server that keeps what it is given makes the lookup return the latest value.
-/

namespace Embassies.KeyStore

open Library Library.Checked List

variable {tagSize : Nat} {Random : Type}

/-- A call of `insert`, with what it draws. -/
structure Insertion (Random : Type) where
  random : Random
  kv : KeyVal

/-- The ciphertext that an insertion makes. -/
def Insertion.cipher (key : SymEncKey tagSize Random) (insertion : Insertion Random) :
    Ciphertext tagSize :=
  key.encrypt insertion.random (SymEncKey.plaintext insertion.kv)

/-- Decryption opens the ciphertexts that the insertions have made, and no others. -/
structure Ideal (key : SymEncKey tagSize Random) (history : List (Insertion Random)) :
    Prop where
  opens : ∀ insertion ∈ history,
    key.decrypt (insertion.cipher key) = some (SymEncKey.plaintext insertion.kv)
  only : ∀ cipher plain, key.decrypt cipher = some plain →
    ∃ insertion ∈ history, cipher = insertion.cipher key

/-! ## A server that keeps what it is given -/

/-- The values that the server has. -/
abbrev Server := UInt64 → Option Value

/-- The server's answer to a request. -/
def Server.handle (server : Server) (request : KVRequest) : Server × List UInt8 :=
  match request.type with
  | .insert =>
    (Function.update server request.key (some request.val),
      Format.host32.encode (SymEncKey.hashBuf request.val.bytes))
  | .lookup =>
    (server, match server request.key with
      | none => (Value.mk []).image
      | some val => val.image)

/-- `insert`, with such a server. -/
def insertAt (key : SymEncKey tagSize Random) (server : Server)
    (insertion : Insertion Random) : Except Fault Server := do
  let request ← key.insertRequest insertion.random insertion.kv
  let (server, reply) := server.handle request
  SymEncKey.acknowledged request reply
  return server

/-- `lookup`, with such a server and something behind its reply in memory. -/
def lookupAt (key : SymEncKey tagSize Random) (server : Server) (wanted : UInt64)
    (behind : List UInt8) : Except Fault (Option (List UInt8)) :=
  let reply := (server.handle ⟨.lookup, wanted, ⟨[]⟩⟩).2
  key.lookup wanted reply.length (reply ++ behind)

/-! ## Objects in memory -/

theorem KeyVal.image_length (kv : KeyVal) : kv.image.length = keyValSize + kv.val.bytes.length := by
  rw [KeyVal.image, Value.image, length_append, length_append,
    Format.encode_length, Format.encode_length, keyValSize, valueSize]
  omega

theorem KeyVal.len_toNat (kv : KeyVal) : kv.val.len.toNat = kv.val.bytes.length := by
  have fits := kv.fits
  rw [Value.len, UInt32.toNat_ofNat', Nat.mod_eq_of_lt (by omega)]

theorem plaintext_eq (kv : KeyVal) : SymEncKey.plaintext kv = kv.image := by
  have fits := kv.fits
  have size : (UInt32.ofNat keyValSize).toNat = keyValSize := rfl
  rw [SymEncKey.plaintext, UInt32.toNat_add, size, kv.len_toNat, Nat.mod_eq_of_lt fits,
    ← kv.image_length, take_length]

theorem openPlaintext_image (wanted : UInt64) (kv : KeyVal) :
    SymEncKey.openPlaintext wanted kv.image =
      .ok (if kv.key = wanted then some kv.val.image else none) := by
  have fits := kv.fits
  have sizes : keyValSize = 12 ∧ valueSize = 4 := ⟨rfl, rfl⟩
  have long : ¬kv.image.length < keyValSize := by
    rw [kv.image_length]
    omega
  have keyRead : Format.host64.read kv.image = kv.key := Format.read_append ..
  rw [SymEncKey.openPlaintext, if_neg long, keyRead]
  by_cases same : kv.key = wanted
  · have behindKey : kv.image.drop Format.host64.size = kv.val.image :=
      drop_left' (Format.encode_length ..)
    have lenRead : Format.host32.read kv.val.image = kv.val.len := Format.read_append ..
    have total : (UInt32.ofNat valueSize + kv.val.len).toNat = kv.val.image.length := by
      have size : (UInt32.ofNat valueSize).toNat = valueSize := rfl
      rw [UInt32.toNat_add, size, kv.len_toNat, Nat.mod_eq_of_lt (by omega), Value.image,
        length_append, Format.encode_length]
      rfl
    have loaded : Buffer.load Fault.outOfPlaintext kv.image Format.host64.size
        kv.val.image.length = .ok kv.val.image := by
      have middle := @Buffer.load_middle UInt8 Fault .outOfPlaintext
        (Format.host64.encode kv.key) kv.val.image [] _ _ (Format.encode_length ..) rfl
      rwa [append_nil] at middle
    rw [if_neg (not_not.mpr same), if_pos same, behindKey, lenRead]
    dsimp only
    rw [total, loaded, ok_bind]
    rfl
  · rw [if_pos same, if_neg same]

/-! ## Any server -/

variable {key : SymEncKey tagSize Random} {insertion : Insertion Random}
  {history : List (Insertion Random)} {server final : Server} {wanted : UInt64}

theorem exists_opened {size : Nat} {memory image : List UInt8}
    (found : key.lookup wanted size memory = .ok (some image)) :
    ∃ cipher plain, key.decrypt cipher = some plain ∧
      SymEncKey.openPlaintext wanted plain = .ok (some image) := by
  rw [SymEncKey.lookup] at found
  split at found
  · cases found
  obtain ⟨len, -, found⟩ := of_bind found
  split at found
  · cases found
  obtain ⟨_, -, found⟩ := of_bind found
  obtain ⟨cipherLen, -, found⟩ := of_bind found
  split at found
  · cases found
  obtain ⟨cipher, -, found⟩ := of_bind found
  split at found
  · cases found
  · rename_i plain opened
    exact ⟨cipher, plain, opened, found⟩

theorem Ideal.lookup_inserted (ideal : Ideal key history) {size : Nat} {memory image : List UInt8}
    (found : key.lookup wanted size memory = .ok (some image)) :
    ∃ insertion ∈ history, insertion.kv.key = wanted ∧ image = insertion.kv.val.image := by
  obtain ⟨cipher, plain, decrypted, opened⟩ := exists_opened found
  obtain ⟨insertion, member, rfl⟩ := ideal.only cipher plain decrypted
  rw [ideal.opens insertion member, plaintext_eq, Option.some.injEq] at decrypted
  rw [← decrypted, openPlaintext_image, Except.ok.injEq] at opened
  split at opened
  · rename_i same
    exact ⟨insertion, member, same, (Option.some.inj opened).symm⟩
  · cases opened

/-! ## Insertions that the server keeps -/

theorem cipher_length (key : SymEncKey tagSize Random) (insertion : Insertion Random) :
    (insertion.cipher key).bytes.length = keyValSize + insertion.kv.val.bytes.length := by
  have fits := insertion.kv.fits
  have length := insertion.kv.image_length
  rw [Insertion.cipher, key.encrypt_length _ _ (by rw [plaintext_eq]; omega), plaintext_eq, length]

theorem insertRequest_eq {request : KVRequest}
    (sent : key.insertRequest insertion.random insertion.kv = .ok request) :
    (insertion.cipher key).image.length < 2 ^ 32 ∧
      request = ⟨.insert, insertion.kv.key, ⟨(insertion.cipher key).image⟩⟩ := by
  obtain ⟨_, allocated, sent⟩ := of_bind sent
  obtain ⟨_, -, sent⟩ := of_bind sent
  have fits : ciphertextSize tagSize + (insertion.cipher key).bytes.length < 2 ^ 32 :=
    ensure_eq_ok_iff.mp allocated
  rw [Ciphertext.image_length]
  refine ⟨fits, ?_⟩
  have size : (UInt32.ofNat (ciphertextSize tagSize) + (insertion.cipher key).len).toNat =
      (insertion.cipher key).image.length := by
    rw [Ciphertext.image_length, UInt32.toNat_add, UInt32.toNat_ofNat',
      Ciphertext.len_toNat, Nat.mod_add_mod, Nat.mod_eq_of_lt fits]
  have whole : (insertion.cipher key).image.take
      (UInt32.ofNat (ciphertextSize tagSize) + (insertion.cipher key).len).toNat =
      (insertion.cipher key).image := by
    rw [size, take_length]
  cases sent
  exact congrArg (fun bytes => KVRequest.mk .insert insertion.kv.key ⟨bytes⟩) whole

theorem insertAt_eq {after : Server} (inserted : insertAt key server insertion = .ok after) :
    (insertion.cipher key).image.length < 2 ^ 32 ∧ after = Function.update server insertion.kv.key
        (some ⟨(insertion.cipher key).image⟩) := by
  obtain ⟨request, sent, rest⟩ := of_bind inserted
  obtain ⟨_, -, returned⟩ := of_bind rest
  obtain ⟨fits, rfl⟩ := insertRequest_eq sent
  cases returned
  exact ⟨fits, rfl⟩

/-- Insertions under other keys leave a stored value alone. -/
theorem insertions_elsewhere (elsewhere : ∀ insertion ∈ history, insertion.kv.key ≠ wanted)
    (done : history.foldlM (insertAt key) server = .ok final) :
    final wanted = server wanted := by
  have kept : ∀ (state : Server) (insertion : Insertion Random) (following : Server),
      insertion ∈ history → state wanted = server wanted →
      insertAt key state insertion = .ok following →
      following wanted = server wanted := by
    intro state insertion following member same inserted
    rw [(insertAt_eq inserted).2, Function.update_of_ne (elsewhere insertion member).symm, same]
  exact @foldlM_invariant Fault Server (Insertion Random) (insertAt key) _ _
    (fun state => state wanted = server wanted) _ kept rfl done

theorem lookup_cipher
    (key : SymEncKey tagSize Random) (wanted : UInt64) (cipher : Ciphertext tagSize)
    (fits : cipher.image.length < 2 ^ 32) (nonempty : cipher.bytes ≠ [])
    (behind : List UInt8) :
    key.lookup wanted (Value.mk cipher.image).image.length
        ((Value.mk cipher.image).image ++ behind) =
      match key.decrypt cipher with
      | none => .ok none
      | some plain => SymEncKey.openPlaintext wanted plain := by
  have length := cipher.image_length
  have positive := length_pos_iff.mpr nonempty
  have header := ciphertextSize_ge tagSize
  have lenNat : (Value.mk cipher.image).len.toNat = cipher.image.length := by
    rw [Value.len, UInt32.toNat_ofNat', Nat.mod_eq_of_lt fits]
  have encoded : (Format.host32.encode (Value.mk cipher.image).len).length = valueSize :=
    Format.encode_length ..
  have size : (Value.mk cipher.image).image.length = valueSize + cipher.image.length := by
    rw [Value.image, length_append, encoded]
  have memory : (Value.mk cipher.image).image ++ behind =
      Format.host32.encode (Value.mk cipher.image).len ++ (cipher.image ++ behind) :=
    append_assoc ..
  have room : (Format.host32.encode (Value.mk cipher.image).len ++
      (cipher.image ++ behind)).length =
      valueSize + (cipher.image.length + behind.length) := by
    rw [length_append, length_append, encoded]
  have hostSize : Format.host32.size = 4 := rfl
  have lenRead : Format.host32.load Fault.outOfReply
      (Format.host32.encode (Value.mk cipher.image).len ++ (cipher.image ++ behind)) 0 =
      .ok (Value.mk cipher.image).len := by
    rw [Format.load_eq_ok _ (by rw [room, hostSize, valueSize]; omega), drop_zero,
      Format.read_append]
  have cipherLenRead : Format.host32.load Fault.outOfReply
      (Format.host32.encode (Value.mk cipher.image).len ++ (cipher.image ++ behind))
      valueSize = .ok cipher.len := by
    rw [Format.load_eq_ok _ (by rw [room, hostSize]; omega), drop_left' encoded,
      Ciphertext.image, append_assoc, Format.read_append]
  have notRejected : ¬((Value.mk cipher.image).len = 0 ∨
      valueSize + cipher.image.length < (Value.mk cipher.image).len.toNat ∨
      (Value.mk cipher.image).len.toNat < ciphertextSize tagSize) := by
    rw [← UInt32.toNat_inj, lenNat, UInt32.toNat_zero]
    omega
  have notEmpty : ¬(cipher.len = 0 ∨ (Value.mk cipher.image).len < cipher.len) := by
    rw [← UInt32.toNat_inj, UInt32.lt_iff_toNat_lt, lenNat, cipher.len_toNat, UInt32.toNat_zero]
    omega
  rw [SymEncKey.lookup, size, memory, if_neg (by omega), lenRead, ok_bind,
    if_neg notRejected, SymEncKey.openValue, lenNat, Buffer.load_middle encoded rfl,
    ok_bind, cipherLenRead, ok_bind, if_neg notEmpty, SymEncKey.openCipher,
    cipher.load_image encoded, ok_bind]
  rfl

theorem lookupAt_stored (fits : (insertion.cipher key).image.length < 2 ^ 32)
    (stored : server insertion.kv.key = some ⟨(insertion.cipher key).image⟩)
    (opens : key.decrypt (insertion.cipher key) = some (SymEncKey.plaintext insertion.kv))
    (behind : List UInt8) :
    lookupAt key server insertion.kv.key behind = .ok (some insertion.kv.val.image) := by
  have nonempty : (insertion.cipher key).bytes ≠ [] := by
    apply ne_nil_of_length_pos
    rw [cipher_length]
    exact Nat.lt_of_lt_of_le (by decide : 0 < keyValSize) (Nat.le_add_right _ _)
  rw [lookupAt, Server.handle, stored]
  rw [lookup_cipher key _ _ fits nonempty, opens]
  dsimp only
  rw [plaintext_eq, openPlaintext_image, if_pos rfl]

theorem lookupAt_latest {start : Server} {before after : List (Insertion Random)}
    (opens : key.decrypt (insertion.cipher key) = some (SymEncKey.plaintext insertion.kv))
    (done : (before ++ insertion :: after).foldlM (insertAt key) start = .ok final)
    (latest : ∀ later ∈ after, later.kv.key ≠ insertion.kv.key)
    (behind : List UInt8) :
    lookupAt key final insertion.kv.key behind = .ok (some insertion.kv.val.image) := by
  rw [foldlM_append, bind_eq_ok_iff] at done
  obtain ⟨middle, -, done⟩ := done
  rw [foldlM_cons, bind_eq_ok_iff] at done
  obtain ⟨next, inserted, done⟩ := done
  obtain ⟨fits, rfl⟩ := insertAt_eq inserted
  apply lookupAt_stored fits _ opens
  rw [insertions_elsewhere latest done, Function.update_self]

/-- A lookup that returns a value returns one that was inserted under its key,
whatever the reply and the memory behind it; and after insertions at a server that
keeps what it is given, it returns the latest value. -/
theorem store_authentic {key : SymEncKey tagSize Random} {history : List (Insertion Random)}
    (ideal : Ideal key history) (wanted : UInt64) :
    (∀ size memory image, key.lookup wanted size memory = .ok (some image) →
      ∃ insertion ∈ history, insertion.kv.key = wanted ∧ image = insertion.kv.val.image) ∧
    (∀ start final, history.foldlM (insertAt key) start = .ok final →
      ∀ before insertion after, history = before ++ insertion :: after → insertion.kv.key = wanted →
        (∀ later ∈ after, later.kv.key ≠ wanted) →
        ∀ behind, lookupAt key final wanted behind = .ok (some insertion.kv.val.image)) := by
  constructor
  · intro size memory image found
    exact ideal.lookup_inserted found
  · rintro start final done before insertion after rfl rfl latest behind
    have opens := ideal.opens insertion (mem_append_cons_self)
    exact lookupAt_latest opens done latest behind

/-- Insertions under the keys seven and nine, and a new value for the key seven. -/
def smallHistory : List (Insertion Unit) :=
  [⟨(), 7, ⟨[1, 2, 3]⟩, by decide⟩, ⟨(), 9, ⟨[4]⟩, by decide⟩, ⟨(), 7, ⟨[5, 6]⟩, by decide⟩]

/-- A key that opens the ciphertexts of these insertions. -/
def smallKey : SymEncKey 8 Unit := .clear fun cipher =>
  (smallHistory.find? (cipher = ·.cipher (.clear fun _ => none))).map
    fun insertion => SymEncKey.plaintext insertion.kv

theorem smallKey_ideal : Ideal smallKey smallHistory where
  opens := by decide +kernel
  only cipher plain opened := by
    obtain ⟨insertion, found, -⟩ := Option.map_eq_some_iff.mp opened
    have same := find?_some found
    exact ⟨insertion, mem_of_find?_eq_some found, of_decide_eq_true same⟩

/-- Under the first key the new value is found, and under the other key its own. -/
theorem store_authentic_overwritten :
    ∃ final, smallHistory.foldlM (insertAt smallKey) (fun _ => none) = .ok final ∧
      lookupAt smallKey final 7 [255] = .ok (some [2, 0, 0, 0, 5, 6]) ∧
      lookupAt smallKey final 9 [255] = .ok (some [1, 0, 0, 0, 4]) := by
  obtain ⟨final, done⟩ : ∃ final, smallHistory.foldlM (insertAt smallKey) (fun _ => none) =
      .ok final := by decide +kernel
  refine ⟨final, done, ?_, ?_⟩
  · exact (store_authentic smallKey_ideal 7).2 _ final done (smallHistory.take 2) _ [] rfl rfl
      nofun [255]
  · exact (store_authentic smallKey_ideal 9).2 _ final done (smallHistory.take 1) _
      (smallHistory.drop 2) rfl rfl (by decide) [255]

end Embassies.KeyStore
