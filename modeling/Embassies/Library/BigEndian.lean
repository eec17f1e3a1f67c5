import Mathlib.Data.List.Induction
import Mathlib.Tactic.Ring

/-!
# Words and their big-endian encodings

A number is written into a fixed number of bytes, most significant byte
first, and read back from a byte list of any length.  The two directions are
inverse to one another on numbers that fit and on byte lists of the right
length, and two encodings of one width followed by arbitrary tails agree
exactly when numbers and tails do.  Sums and differences of 32-bit words wrap around.
-/

namespace Embassies.Library

/-- The sum of two `uint32_t`. -/
def add32 (left right : Nat) : Nat :=
  (left + right) % 2 ^ 32

/-- The difference of two `uint32_t`. -/
def sub32 (left right : Nat) : Nat :=
  (left + (2 ^ 32 - right % 2 ^ 32)) % 2 ^ 32

theorem sub32_of_le {left right : Nat} (ordered : right ≤ left) (bounded : left < 2 ^ 32) :
    sub32 left right = left - right := by
  unfold sub32
  omega

theorem add32_add32 (base left right : Nat) :
    add32 (add32 base left) right = add32 base (left + right) := by
  unfold add32
  omega

theorem sub32_add32 {base value : Nat} (small : value < 2 ^ 32) :
    sub32 (add32 base value) base = value := by
  unfold sub32 add32
  omega

namespace BigEndian

open List

/-- The `width` low-order bytes of `value`, most significant first. -/
def encode : Nat → Nat → List UInt8
  | 0, _ => []
  | width + 1, value =>
    encode width (value / 256) ++ [UInt8.ofNat value]

/-- The number denoted by a byte list, most significant byte first. -/
def decode (bytes : List UInt8) : Nat :=
  bytes.foldl (fun value byte => value * 256 + byte.toNat) 0

@[simp]
theorem encode_length (width value : Nat) : (encode width value).length = width := by
  induction width generalizing value with
  | zero => rfl
  | succ width induction => simp [encode, induction]

@[simp]
theorem decode_nil : decode [] = 0 := rfl

variable (bytes : List UInt8)

theorem decode_append_singleton (byte : UInt8) :
    decode (bytes ++ [byte]) = decode bytes * 256 + byte.toNat := by
  simp [decode]

/-- Reading an encoding back gives the number modulo its width. -/
theorem decode_encode_mod (width value : Nat) :
    decode (encode width value) = value % 256 ^ width := by
  induction width generalizing value with
  | zero => simp [encode, Nat.mod_one]
  | succ width induction =>
    rw [encode, decode_append_singleton, induction]
    have split := Nat.mod_mul_right_div_self value 256 (256 ^ width)
    have low := Nat.mod_mul_right_mod value 256 (256 ^ width)
    rw [pow_succ']
    simp only [UInt8.toNat_ofNat']
    omega

theorem decode_encode {width value : Nat} (fits : value < 256 ^ width) :
    decode (encode width value) = value := by
  rw [decode_encode_mod, Nat.mod_eq_of_lt fits]

theorem decode_lt : decode bytes < 256 ^ bytes.length := by
  induction bytes using List.reverseRecOn with
  | nil => simp
  | append_singleton bytes byte induction =>
    have bound := byte.toNat_lt
    rw [decode_append_singleton, length_append, length_singleton, pow_succ]
    omega

theorem encode_decode : encode bytes.length (decode bytes) = bytes := by
  induction bytes using List.reverseRecOn with
  | nil => rfl
  | append_singleton bytes byte induction =>
    have bound := byte.toNat_lt
    have high : (decode bytes * 256 + byte.toNat) / 256 = decode bytes := by
      omega
    rw [decode_append_singleton, length_append, length_singleton, encode, high, induction]
    simp only [append_cancel_left_eq, List.cons.injEq, and_true]
    apply UInt8.toNat_inj.mp
    simp only [UInt8.toNat_ofNat']
    omega

theorem encode_append_inj {width left right : Nat} {leftTail rightTail : List UInt8}
    (leftFits : left < 256 ^ width)
    (rightFits : right < 256 ^ width)
    (equal : encode width left ++ leftTail = encode width right ++ rightTail) :
    left = right ∧ leftTail = rightTail := by
  have parts := append_inj equal (by simp)
  refine ⟨?_, parts.2⟩
  have same := congrArg decode parts.1
  rwa [decode_encode leftFits, decode_encode rightFits] at same

end BigEndian

end Embassies.Library
