import Embassies.Crypto.Memory

/-!
# Message authentication codes

`MacKey` feeds a buffer to VMAC in blocks of `VMAC_NHBYTES` bytes: the bytes before the first aligned
address, the whole blocks behind them and the rest, each padded with zeros.  Without a whole
block a block of zeros is fed in its place, so a short buffer is authenticated like the one
with a block of zeros in it.
-/

namespace Embassies.Crypto

open Library List

/-- `Mac`. -/
structure Mac (Tag : Type) where
  prefixOverhang : Nat
  postfixOverhang : Nat
  nonce : List UInt8
  mac : Tag

/-- `MacKey`, with the function that VMAC computes under the key from the bytes of all the
blocks fed to it and a nonce. -/
structure MacKey (Tag : Type) where
  /-- `VMAC_NHBYTES`. -/
  nhBytes : Nat
  wide : 16 ≤ nhBytes
  vmac : List UInt8 → List UInt8 → Tag

namespace MacKey

section Fed

variable (nhBytes : Nat)

/-- A block cleared by `lite_bzero` into which the bytes are copied. -/
def padded (bytes : List UInt8) : List UInt8 :=
  bytes ++ List.replicate (nhBytes - bytes.length) 0

/-- How many bytes are before the first address that is a multiple of 16. -/
def overhang (address : Nat) (buffer : List UInt8) : Nat :=
  min ((16 - address % 16) % 16) buffer.length

/-- The bytes of the whole blocks. -/
def bodyLen (buffer : List UInt8) : Nat :=
  buffer.length - buffer.length % nhBytes

/-- What is fed for the whole blocks, with padding when there is none. -/
def body (buffer : List UInt8) : List UInt8 :=
  if bodyLen nhBytes buffer < nhBytes then
    padded nhBytes (buffer.take (bodyLen nhBytes buffer))
  else
    buffer.take (bodyLen nhBytes buffer)

/-- What is fed for the aligned part of a buffer. -/
def fedAligned (buffer : List UInt8) : List UInt8 :=
  body nhBytes buffer ++ padded nhBytes (buffer.drop (bodyLen nhBytes buffer))

/-- What is fed for a buffer. -/
def fed (before : Nat) (buffer : List UInt8) : List UInt8 :=
  (if before = 0 then [] else padded nhBytes (buffer.take before)) ++
    fedAligned nhBytes (buffer.drop before)

end Fed

/-- The nonce with its first bit cleared. -/
def clearBit (nonce : List UInt8) : List UInt8 :=
  nonce.modifyHead (· &&& 0xfe)

/-- `MacKey::computeMac`, for a buffer at an address. -/
def computeMac {Tag : Type} (key : MacKey Tag) (address : Nat) (buffer nonce : List UInt8) :
    Mac Tag where
  prefixOverhang := overhang address buffer
  postfixOverhang := (buffer.length - overhang address buffer) % key.nhBytes
  nonce := clearBit nonce
  mac := key.vmac (fed key.nhBytes (overhang address buffer) buffer) (clearBit nonce)

/-- The fields that `MacKey::verify` compares. -/
def Agrees {Tag : Type} (left right : Mac Tag) : Prop :=
  left.prefixOverhang = right.prefixOverhang ∧
    left.postfixOverhang = right.postfixOverhang ∧ left.mac = right.mac

instance {Tag : Type} [DecidableEq Tag] (left right : Mac Tag) :
    Decidable (Agrees left right) :=
  inferInstanceAs (Decidable (_ ∧ _ ∧ _))

/-- `MacKey::verify`. -/
def verify {Tag : Type} [DecidableEq Tag] (key : MacKey Tag) (alleged : Mac Tag)
    (address : Nat) (buffer : List UInt8) : Bool :=
  Agrees (key.computeMac address buffer alleged.nonce) alleged

/-! ## The blocks that are fed -/

/-- A block of zeros. -/
def zeroBlock (nhBytes : Nat) : List UInt8 := List.replicate nhBytes 0

section Blocks

variable {nhBytes : Nat} {left right : List UInt8}

theorem padded_length (fits : left.length ≤ nhBytes) : (padded nhBytes left).length = nhBytes := by
  rw [padded, length_append, length_replicate]
  omega

theorem padded_inj (lengths : left.length = right.length)
    (same : padded nhBytes left = padded nhBytes right) :
    left = right :=
  (append_inj same lengths).1

theorem tail_length (buffer : List UInt8) :
    (buffer.drop (bodyLen nhBytes buffer)).length = buffer.length % nhBytes := by
  have smaller := Nat.mod_le buffer.length nhBytes
  rw [length_drop, bodyLen]
  omega

theorem padded_tail_length (positive : 0 < nhBytes) (buffer : List UInt8) :
    (padded nhBytes (buffer.drop (bodyLen nhBytes buffer))).length = nhBytes := by
  refine padded_length ?_
  rw [tail_length]
  exact (Nat.mod_lt _ positive).le

theorem body_short (short : left.length < nhBytes) :
    bodyLen nhBytes left = 0 ∧ body nhBytes left = zeroBlock nhBytes := by
  have none : bodyLen nhBytes left = 0 := by
    rw [bodyLen, Nat.mod_eq_of_lt short, Nat.sub_self]
  refine ⟨none, ?_⟩
  rw [body, none, if_pos (by omega)]
  rfl

theorem body_long (positive : 0 < nhBytes) (long : nhBytes ≤ left.length) :
    body nhBytes left = left.take (bodyLen nhBytes left) := by
  refine if_neg ?_
  have whole := Nat.div_pos long positive
  have split := Nat.div_add_mod left.length nhBytes
  have block := Nat.le_mul_of_pos_right nhBytes whole
  rw [bodyLen]
  omega

/-- One of two aligned buffers is too short for a block, and the other has a block of zeros
before the same bytes. -/
def Swallows (nhBytes : Nat) (left right : List UInt8) : Prop :=
  left.length < nhBytes ∧ right = zeroBlock nhBytes ++ left

theorem Swallows.length (swallows : Swallows nhBytes left right) :
    right.length = nhBytes + left.length := by
  rw [swallows.2, length_append, zeroBlock, length_replicate]

theorem fedAligned_swallows (swallows : Swallows nhBytes left right) :
    fedAligned nhBytes right = fedAligned nhBytes left ∧
      right.length % nhBytes = left.length % nhBytes := by
  have length := swallows.length
  obtain ⟨short, rfl⟩ := swallows
  have rest : (zeroBlock nhBytes ++ left).length % nhBytes = left.length % nhBytes := by
    rw [length, Nat.add_mod_left]
  have whole : bodyLen nhBytes (zeroBlock nhBytes ++ left) = (zeroBlock nhBytes).length := by
    rw [bodyLen, rest, length, Nat.mod_eq_of_lt short, Nat.add_sub_cancel, zeroBlock,
      length_replicate]
  obtain ⟨none, zeros⟩ := body_short short
  refine ⟨?_, rest⟩
  rw [fedAligned, body_long (by omega) (by omega), whole, take_left, drop_left, fedAligned, zeros,
    none, drop_zero]

theorem fedAligned_inj (positive : 0 < nhBytes)
    (rests : left.length % nhBytes = right.length % nhBytes)
    (same : fedAligned nhBytes left = fedAligned nhBytes right) :
    left = right ∨ Swallows nhBytes left right ∨ Swallows nhBytes right left := by
  obtain ⟨bodies, tails⟩ := append_inj' same
    ((padded_tail_length positive left).trans (padded_tail_length positive right).symm)
  have tail : left.drop (bodyLen nhBytes left) = right.drop (bodyLen nhBytes right) :=
    padded_inj (by rw [tail_length, tail_length, rests]) tails
  rcases Nat.lt_or_ge left.length nhBytes with leftShort | leftLong <;>
    rcases Nat.lt_or_ge right.length nhBytes with rightShort | rightLong
  · rw [(body_short leftShort).1, (body_short rightShort).1] at tail
    exact .inl tail
  · refine .inr (.inl ⟨leftShort, ?_⟩)
    rw [(body_short leftShort).2, body_long positive rightLong] at bodies
    rw [(body_short leftShort).1, drop_zero] at tail
    rw [bodies, tail, take_append_drop]
  · refine .inr (.inr ⟨rightShort, ?_⟩)
    rw [(body_short rightShort).2, body_long positive leftLong] at bodies
    rw [(body_short rightShort).1, drop_zero] at tail
    rw [← bodies, ← tail, take_append_drop]
  · rw [body_long positive leftLong, body_long positive rightLong] at bodies
    left
    rw [← take_append_drop (bodyLen nhBytes left) left, bodies, tail, take_append_drop]

end Blocks

/-! ## Unambiguous codes -/

/-- Behind the same overhang the buffers differ by a block of zeros only, and the one is too
short for a block. -/
def Confused (nhBytes leftAddress : Nat) (left : List UInt8) (rightAddress : Nat)
    (right : List UInt8) : Prop :=
  overhang leftAddress left = overhang rightAddress right ∧
    left.take (overhang leftAddress left) = right.take (overhang leftAddress left) ∧
    Swallows nhBytes (left.drop (overhang leftAddress left))
      (right.drop (overhang leftAddress left))

section Codes

variable {Tag : Type} {key : MacKey Tag} {nhBytes leftAddress rightAddress : Nat}
  {left right : List UInt8}

theorem fed_inj {before : Nat} (leftInside : before ≤ left.length)
    (rightInside : before ≤ right.length)
    (same : fed nhBytes before left = fed nhBytes before right) (small : before ≤ nhBytes) :
    left.take before = right.take before ∧
      fedAligned nhBytes (left.drop before) = fedAligned nhBytes (right.drop before) := by
  have leftLength := length_take_of_le leftInside
  have rightLength := length_take_of_le rightInside
  rw [fed, fed] at same
  split at same
  · rename_i none
    rw [none, take_zero, take_zero]
    exact ⟨rfl, none ▸ same⟩
  · obtain ⟨heads, aligned⟩ := append_inj same
      ((padded_length (by omega)).trans (padded_length (by omega)).symm)
    exact ⟨padded_inj (leftLength.trans rightLength.symm) heads, aligned⟩

theorem Confused.agrees (confused : Confused key.nhBytes leftAddress left rightAddress right)
    (nonce : List UInt8) :
    Agrees (key.computeMac leftAddress left nonce) (key.computeMac rightAddress right nonce) := by
  obtain ⟨same, heads, swallows⟩ := confused
  obtain ⟨aligned, rests⟩ := fedAligned_swallows swallows
  rw [length_drop, length_drop] at rests
  simp only [Agrees, computeMac, ← same, fed, heads, aligned, rests, and_self]

theorem Confused.ne (confused : Confused nhBytes leftAddress left rightAddress right) :
    left ≠ right := by
  rintro rfl
  have short := confused.2.2.1
  have length := confused.2.2.length
  omega

/-- Codes that agree are those of the same bytes, or of confused buffers. -/
theorem eq_or_confused_of_agrees (injective : Function.Injective2 key.vmac) {nonce : List UInt8}
    (agrees : Agrees (key.computeMac leftAddress left nonce)
      (key.computeMac rightAddress right nonce)) :
    left = right ∨ Confused key.nhBytes leftAddress left rightAddress right ∨
      Confused key.nhBytes rightAddress right leftAddress left := by
  obtain ⟨before, after, tags⟩ := agrees
  simp only [computeMac] at before after tags
  have bytes := (injective tags).1
  have leftInside : overhang leftAddress left ≤ left.length := min_le_right _ _
  have rightInside : overhang rightAddress right ≤ right.length := min_le_right _ _
  have wide := key.wide
  have small : overhang leftAddress left ≤ key.nhBytes := by
    rw [overhang]
    omega
  rw [← before] at after bytes rightInside
  obtain ⟨heads, aligned⟩ := fed_inj leftInside rightInside bytes small
  rw [← length_drop, ← length_drop] at after
  rcases fedAligned_inj (by omega) after aligned with same | swallows | swallows
  · left
    rw [← take_append_drop (overhang leftAddress left) left, heads, same, take_append_drop]
  · exact .inr (.inl ⟨before, heads, swallows⟩)
  · exact .inr (.inr ⟨before.symm, before ▸ heads.symm, before ▸ swallows⟩)

/-- With the same nonce the code of a buffer determines it exactly when no block of zeros is
swallowed. -/
theorem unambiguous_iff (injective : Function.Injective2 key.vmac) (nonce : List UInt8) :
    (Agrees (key.computeMac leftAddress left nonce) (key.computeMac rightAddress right nonce) →
        left = right) ↔
      ¬ (Confused key.nhBytes leftAddress left rightAddress right ∨
        Confused key.nhBytes rightAddress right leftAddress left) := by
  constructor
  · rintro determined (confused | confused)
    · exact confused.ne (determined (confused.agrees nonce))
    · obtain ⟨before, after, tags⟩ := @Confused.agrees _ key _ _ _ _ confused nonce
      exact confused.ne (determined ⟨before.symm, after.symm, tags.symm⟩).symm
  · intro apart agrees
    exact (eq_or_confused_of_agrees injective agrees).resolve_right apart

end Codes

/-- The key under which VMAC shows what it was fed, in blocks of 128 bytes. -/
def showing : MacKey (List UInt8 × List UInt8) := ⟨128, by decide, Prod.mk⟩

/-- A short buffer, and the same bytes behind a block that is not of zeros. -/
theorem unambiguous_bytes : ¬ Agrees (showing.computeMac 0 [7, 8, 9] [])
      (showing.computeMac 0 (replicate 128 1 ++ [7, 8, 9]) []) := by
  intro agrees
  have same := (@unambiguous_iff _ showing 0 0 [7, 8, 9] (replicate 128 1 ++ [7, 8, 9])
    (fun _ _ _ _ => Prod.mk.inj) []).mpr ?_ agrees
  · exact absurd same (by decide)
  · rintro (⟨-, -, -, swallowed⟩ | ⟨-, -, short, -⟩)
    · exact absurd (congrArg head? swallowed) (by decide)
    · simp [overhang, showing] at short

/-- The empty buffer has the code of 128 zeros. -/
theorem ambiguous_zeros :
    Agrees (showing.computeMac 0 [] []) (showing.computeMac 0 (zeroBlock 128) []) ∧
      [] ≠ zeroBlock 128 := by
  have confused : Confused 128 0 [] 0 (zeroBlock 128) := by
    refine ⟨?_, rfl, by decide, rfl⟩
    simp [overhang]
  exact ⟨@Confused.agrees _ showing _ _ _ _ confused [], confused.ne⟩

end MacKey

end Embassies.Crypto
