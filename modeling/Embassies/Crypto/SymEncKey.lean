import Embassies.Crypto.MacKey
import Embassies.Library.Format

/-!
# Authenticated encryption

`SymEncKey` encrypts in counter mode and authenticates the initialization vector together
with the ciphertext.  The code depends on where its buffer is, so `decrypt` copies the bytes
to a place of its scratch buffer with the same overhang.
-/

namespace Embassies.Crypto

open Library Library.Buffer Library.Checked

/-- `SymEncKey`, with the function that the block cipher computes. -/
structure SymEncKey (Tag : Type) where
  evaluatePrf : List UInt8 → Vector UInt8 16
  macKey : MacKey Tag

/-- `Ciphertext`, whose `len` is the number of `bytes`. -/
structure Ciphertext (Tag : Type) where
  mac : Mac Tag
  iv : List UInt8
  bytes : List UInt8

namespace SymEncKey

variable {Tag : Type} (key : SymEncKey Tag)

/-- `(*counter)++` on the lower half of the counter bytes. -/
def increment (counterBytes : List UInt8) : List UInt8 :=
  Format.host64.encode (Format.host64.read counterBytes + 1) ++ counterBytes.drop 8

/-- The loop of `SymEncKey::CtrMode` over the blocks of the input. -/
def ctrLoop : Nat → List UInt8 → List UInt8 → List UInt8
  | 0, _, _ => []
  | rounds + 1, counterBytes, input =>
    (input.take 16).zipWith (· ^^^ ·) (key.evaluatePrf counterBytes).toList ++
      ctrLoop rounds (increment counterBytes) (input.drop 16)

/-- `SymEncKey::CtrMode`.  The number of rounds is computed in a `uint32_t`, so there are
rounds without a byte for the empty input. -/
def ctrMode (iv input : List UInt8) : List UInt8 :=
  key.ctrLoop ((input.length + (2 ^ 32 - 1)) % 2 ^ 32 / 16 + 1) iv input

/-- The sixteen bytes that `get_random_bytes` takes from the stream at a position. -/
def randomBlock (random : Nat → UInt8) (position : Nat) : List UInt8 :=
  (List.range 16).map fun index => random (position + index)

/-- `SymEncKey::encrypt`, with the address at which the vector and the ciphertext behind it
are stored. -/
def encrypt (random : Nat → UInt8) (address : Nat) (buffer : List UInt8) : Ciphertext Tag :=
  let iv := randomBlock random 0
  let bytes := key.ctrMode iv buffer
  ⟨key.macKey.computeMac address (iv ++ bytes) (randomBlock random 16), iv, bytes⟩

/-- How far into the scratch buffer `SymEncKey::decrypt` copies. -/
def scratchOffset (cipher : Ciphertext Tag) (scratch : Nat) : Nat :=
  16 - scratch % 16 + (16 - cipher.mac.prefixOverhang % 16)

/-- `SymEncKey::decrypt`, with the address and the bytes of the scratch buffer. -/
def decrypt [DecidableEq Tag] (cipher : Ciphertext Tag) (scratch : Nat) (memory : List UInt8) :
    Except Halt (Option (List UInt8)) := do
  let data := cipher.iv ++ cipher.bytes
  let offset := scratchOffset cipher scratch
  let memory ← writeBytes memory offset data
  if key.macKey.verify cipher.mac ((scratch + offset) % 2 ^ 32)
      ((memory.drop offset).take data.length) then
    return some (key.ctrMode cipher.iv cipher.bytes)
  else
    return none

/-! ## Counter mode -/

/-- The bytes with which the rounds encrypt. -/
def keystream : Nat → List UInt8 → List UInt8
  | 0, _ => []
  | rounds + 1, counterBytes =>
    (key.evaluatePrf counterBytes).toList ++ keystream rounds (increment counterBytes)

theorem keystream_length (rounds : Nat) (counterBytes : List UInt8) :
    (key.keystream rounds counterBytes).length = 16 * rounds := by
  induction rounds generalizing counterBytes with
  | zero => rfl
  | succ rounds induction =>
    rw [keystream, List.length_append, induction, Vector.length_toList]
    omega

theorem ctrLoop_eq (rounds : Nat) (counterBytes input : List UInt8) :
    key.ctrLoop rounds counterBytes input =
      input.zipWith (· ^^^ ·) (key.keystream rounds counterBytes) := by
  induction rounds generalizing counterBytes input with
  | zero => rw [ctrLoop, keystream, List.zipWith_nil_right]
  | succ rounds induction =>
    have block : (key.evaluatePrf counterBytes).toList.length = 16 := Vector.length_toList
    rw [ctrLoop, induction, keystream]
    conv_rhs => rw [← List.take_append_drop 16 (List.zipWith _ _ _)]
    rw [List.take_zipWith, List.drop_zipWith, List.take_left' block, List.drop_left' block]

theorem zipWith_xor_self {input stream : List UInt8} (covers : input.length ≤ stream.length) :
    (input.zipWith (· ^^^ ·) stream).zipWith (· ^^^ ·) stream = input := by
  induction input generalizing stream with
  | nil => rfl
  | cons byte input induction =>
    cases stream with
    | nil => exact absurd covers (by simp)
    | cons mask stream =>
      simp only [List.zipWith_cons_cons]
      rw [induction (by simpa using covers), UInt8.xor_assoc, UInt8.xor_self, UInt8.xor_zero]

theorem ctrMode_ctrMode {iv input : List UInt8} (short : input.length ≤ 2 ^ 31) :
    (key.ctrMode iv input).length = input.length ∧
      key.ctrMode iv (key.ctrMode iv input) = input := by
  have covers : input.length ≤
      (key.keystream ((input.length + (2 ^ 32 - 1)) % 2 ^ 32 / 16 + 1) iv).length := by
    rw [keystream_length]
    omega
  have length : (key.ctrMode iv input).length = input.length := by
    rw [ctrMode, ctrLoop_eq, List.length_zipWith, Nat.min_eq_left covers]
  refine ⟨length, ?_⟩
  rw [ctrMode, length, ctrMode, ctrLoop_eq, ctrLoop_eq]
  exact zipWith_xor_self covers

/-! ## Verification -/

theorem clearBit_clearBit (nonce : List UInt8) :
    MacKey.clearBit (MacKey.clearBit nonce) = MacKey.clearBit nonce := by
  cases nonce with
  | nil => rfl
  | cons byte nonce =>
    simp only [MacKey.clearBit, List.modifyHead_cons, UInt8.and_assoc, UInt8.and_self]

theorem verify_computeMac [DecidableEq Tag] {macKey : MacKey Tag} {address other : Nat}
    {buffer nonce : List UInt8}
    (same : MacKey.overhang other buffer = MacKey.overhang address buffer) :
    macKey.verify (macKey.computeMac address buffer nonce) other buffer = true := by
  refine decide_eq_true ?_
  simp only [MacKey.Agrees, MacKey.computeMac, same, clearBit_clearBit, and_self]

theorem scratchOffset_overhang {cipher : Ciphertext Tag} {address scratch : Nat}
    {data : List UInt8} (block : 16 ≤ data.length)
    (coded : cipher.mac.prefixOverhang = MacKey.overhang address data) :
    scratchOffset cipher scratch ≤ 32 ∧
      MacKey.overhang ((scratch + scratchOffset cipher scratch) % 2 ^ 32) data =
        MacKey.overhang address data := by
  rw [MacKey.overhang, Nat.min_eq_left (by omega)] at coded ⊢
  rw [MacKey.overhang, Nat.min_eq_left (by omega), scratchOffset, coded]
  omega

theorem decrypt_verified [DecidableEq Tag] {cipher : Ciphertext Tag} {scratch : Nat}
    {memory : List UInt8}
    (fits : scratchOffset cipher scratch + (cipher.iv ++ cipher.bytes).length ≤ memory.length)
    (verified : key.macKey.verify cipher.mac ((scratch + scratchOffset cipher scratch) % 2 ^ 32)
      (cipher.iv ++ cipher.bytes) = true) :
    key.decrypt cipher scratch memory = .ok (some (key.ctrMode cipher.iv cipher.bytes)) := by
  simp only [decrypt, writeBytes_eq_ok fits, ok_bind,
    drop_patch_start (Nat.le_of_add_right_le fits), List.take_left]
  rw [if_pos verified, pure_eq_ok]

/-- Decrypting gives back the message, wherever the buffers are. -/
theorem decrypt_encrypt [DecidableEq Tag] (random : Nat → UInt8) (address scratch : Nat)
    {message memory : List UInt8} (short : message.length ≤ 2 ^ 31)
    (room : memory.length = 32 + (16 + message.length)) :
    key.decrypt (key.encrypt random address message) scratch memory = .ok (some message) := by
  obtain ⟨length, undone⟩ := @ctrMode_ctrMode _ key (randomBlock random 0) _ short
  have size : ((key.encrypt random address message).iv ++
      (key.encrypt random address message).bytes).length = 16 + message.length := by
    rw [← length, List.length_append]
    rfl
  have block : 16 ≤ ((key.encrypt random address message).iv ++
      (key.encrypt random address message).bytes).length := by
    omega
  obtain ⟨inside, same⟩ := @scratchOffset_overhang _ (key.encrypt random address message) address
    scratch _ block rfl
  rw [decrypt_verified key (by omega) (verify_computeMac same)]
  exact congrArg (Except.ok ∘ some) undone

end SymEncKey

/-- A short message under a key that encrypts with a constant. -/
theorem SymEncKey.decrypt_encrypt_short :
    SymEncKey.decrypt ⟨fun _ => Vector.replicate 16 5, MacKey.showing⟩
      (SymEncKey.encrypt ⟨fun _ => Vector.replicate 16 5, MacKey.showing⟩ (fun _ => 7) 3 [1, 2])
      9 (List.replicate 50 0) = .ok (some [1, 2]) :=
  SymEncKey.decrypt_encrypt _ _ 3 9 (by decide) (by decide)

end Embassies.Crypto
