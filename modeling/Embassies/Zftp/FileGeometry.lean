import Embassies.Zftp.MissingSet
import Mathlib.Algebra.Order.Floor.Div

/-!
# The geometry of a file

The number of blocks of a file, the size of its tree and the end of the last block of a
range are computed with numbers of thirty-two bits, by adding a block before dividing or
by subtracting one before rounding down.  The sums wrap around for files that end in the
last block of the address space, and the difference wraps around at position 0.
-/

namespace Embassies.Zftp

open Library Library.Checked

/-- The leaf of a block of a file. -/
def leafLocation (fileLen : UInt32) (blk : Nat) : Except Fault Nat :=
  let depth := computeTreeDepth (computeNumBlocks fileLen)
  treeIndex depth blk (computeTreeSize depth)

/-- Every block of a file is counted and has a leaf of its own. -/
structure Consistent (fileLen : UInt32) : Prop where
  counted : computeNumBlocks fileLen = fileLen.toNat ⌈/⌉ blockSize
  leaf : ∀ blk, blk * blockSize < fileLen.toNat → ∃ location,
    leafLocation fileLen blk = .ok location ∧
      location < computeTreeSize (computeTreeDepth (computeNumBlocks fileLen))
  distinct : ∀ left right location,
    leafLocation fileLen left = .ok location → leafLocation fileLen right = .ok location →
      left = right

/-- The end of a range is moved to the end of a block. -/
def RoundsUp (pos : UInt32) : Prop :=
  IsLeast { finish | blockSize ∣ finish ∧ pos.toNat ≤ finish } (roundUpToBlock pos).toNat

theorem computeNumBlocks_eq_iff (fileLen : UInt32) :
    computeNumBlocks fileLen = fileLen.toNat ⌈/⌉ blockSize ↔ fileLen ≤ 0xffff0000 := by
  rw [Nat.ceilDiv_eq_add_pred_div, computeNumBlocks, blockSize, UInt32.le_iff_toNat_le,
    show (0xffff0000 : UInt32).toNat = 0xffff0000 from rfl]
  constructor
  · intro counted
    by_contra large
    omega
  · intro small
    rw [Nat.mod_eq_of_lt (by omega)]

theorem consistent_iff (fileLen : UInt32) : Consistent fileLen ↔ fileLen ≤ 0xffff0000 := by
  constructor
  · intro consistent
    exact (computeNumBlocks_eq_iff fileLen).mp consistent.counted
  · intro small
    have counted := (computeNumBlocks_eq_iff fileLen).mpr small
    refine ⟨counted, ?_, ?_⟩
    · intro blk inside
      have limit := fileLen.toNat_lt
      rw [Nat.ceilDiv_eq_add_pred_div, blockSize] at counted
      rw [blockSize] at inside
      have known : blk < computeNumBlocks fileLen := by omega
      have leaf := lt_two_pow_computeTreeDepth known (by omega)
      refine ⟨_, treeIndex_leaf_eq_ok_iff.mpr ⟨leaf, rfl⟩, ?_⟩
      rw [computeTreeSize, Nat.pow_succ]
      omega
    · intro left right location leftFound rightFound
      obtain ⟨-, leftEq⟩ := treeIndex_leaf_eq_ok_iff.mp leftFound
      obtain ⟨-, rightEq⟩ := treeIndex_leaf_eq_ok_iff.mp rightFound
      omega

theorem roundsUp_iff (pos : UInt32) : RoundsUp pos ↔ pos ≠ 0 ∧ pos ≤ 0xffff0000 := by
  have zero : pos = 0 ↔ pos.toNat = 0 := UInt32.toNat_inj.symm
  rw [RoundsUp, ZCachedFile.roundUpToBlock_toNat, ne_eq, zero, UInt32.le_iff_toNat_le,
    show (0xffff0000 : UInt32).toNat = 0xffff0000 from rfl]
  constructor
  · rintro ⟨⟨-, behind⟩, least⟩
    by_cases start : pos.toNat = 0
    · have first := least ⟨Nat.dvd_zero blockSize, Nat.le_of_eq start⟩
      rw [if_pos (.inl start)] at first
      omega
    · refine ⟨start, ?_⟩
      by_contra large
      rw [if_pos (.inr (Nat.lt_of_not_le large))] at behind
      omega
  · rintro ⟨start, small⟩
    rw [if_neg (by omega)]
    refine ⟨⟨Nat.dvd_mul_left _ _, ?_⟩, ?_⟩
    · rw [blockSize]
      omega
    · rintro _ ⟨⟨count, rfl⟩, behind⟩
      rw [blockSize] at behind ⊢
      omega

/-- The geometry is right for files that end before the last block of the address space,
and a position is rounded up unless it is 0 or lies in that block. -/
theorem geometry_consistent_iff (fileLen pos : UInt32) :
    (Consistent fileLen ↔ fileLen ≤ 0xffff0000) ∧ (RoundsUp pos ↔ pos ≠ 0 ∧ pos ≤ 0xffff0000) :=
  ⟨consistent_iff fileLen, roundsUp_iff pos⟩

/-- The largest file has no blocks, and position 0 is rounded up to the last block. -/
theorem geometry_wraps_around : computeNumBlocks 0xffffffff = 0 ∧ ¬Consistent 0xffffffff ∧
      roundUpToBlock 0 = 0xffff0000 ∧ ¬RoundsUp 0 := by
  refine ⟨by decide, ?_, by decide, ?_⟩
  · rw [consistent_iff]
    decide
  · rw [roundsUp_iff]
    decide

end Embassies.Zftp
