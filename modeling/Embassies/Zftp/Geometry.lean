import Embassies.Zftp.Protocol

/-!
# Ranges, blocks and tree locations

A file is cut into blocks of 64K, and its Merkle tree is a complete binary tree
in an array: the root is at location 0 and the leaves are the blocks.  Ranges of
bytes are pairs of 32-bit offsets.
-/

namespace Embassies.Zftp

open Library Library.Checked

/-! ## Ranges -/

namespace DataRange

/-- `size`. -/
def size (range : DataRange) : UInt32 :=
  range.finish - range.start

/-- `is_empty`. -/
def IsEmpty (range : DataRange) : Prop :=
  range.start = range.finish

instance (range : DataRange) : Decidable range.IsEmpty :=
  inferInstanceAs (Decidable (_ = _))

/-- `intersect`. -/
def intersect (range other : DataRange) : DataRange :=
  if range.IsEmpty ∨ other.IsEmpty then ⟨0, 0⟩
  else
    let start := if range.start > other.start then range.start else other.start
    let finish := if range.finish < other.finish then range.finish else other.finish
    if start > finish then ⟨0, 0⟩ else ⟨start, finish⟩

theorem intersect_file (range : DataRange) (fileLen : UInt32) :
    (range.intersect ⟨0, fileLen⟩).start ≤ (range.intersect ⟨0, fileLen⟩).finish ∧
      (range.intersect ⟨0, fileLen⟩).finish ≤ fileLen := by
  rw [intersect]
  split
  · exact ⟨UInt32.le_refl _, UInt32.zero_le⟩
  · grind

end DataRange

/-! ## Blocks -/

/-- `ZFTP_BLOCK_SIZE`. -/
def blockSize : Nat := 65536

/-- `compute_num_blocks`. -/
def computeNumBlocks (fileLen : UInt32) : Nat :=
  (fileLen.toNat + blockSize - 1) % 2 ^ 32 / blockSize

/-- The loop of `ceillg2`, on a number of that many bits. -/
def countBits : Nat → Nat → Nat
  | 0, _ => 0
  | bits + 1, n => if n > 0 then countBits bits (n / 2) + 1 else 0

/-- `ceillg2`. -/
def ceillg2 (n : Nat) : Nat := countBits 32 n

/-- `compute_tree_depth`. -/
def computeTreeDepth (numBlocks : Nat) : Nat :=
  if numBlocks = 0 then 0 else ceillg2 (numBlocks - 1)

/-- `compute_tree_size`. -/
def computeTreeSize (depth : Nat) : Nat := 2 ^ (depth + 1) - 1

/-! ## Locations -/

/-- `compute_tree_location`. -/
def computeTreeLocation (level col : Nat) : Except Fault Nat := do
  ensure (col < 2 ^ level) .assertion
  return if level = 0 then 0 else computeTreeSize (level - 1) + col

/-- `_tree_index`. -/
def treeIndex (level col treeSize : Nat) : Except Fault Nat := do
  let index ← computeTreeLocation level col
  ensure (index < treeSize) .assertion
  return index

theorem computeTreeLocation_eq {level col : Nat} (inside : col < 2 ^ level) :
    computeTreeLocation level col = .ok (2 ^ level - 1 + col) := by
  rw [computeTreeLocation, ensure_true inside, ok_bind, pure_eq_ok]
  split
  · rename_i root
    subst root
    have : col = 0 := by omega
    subst this
    rfl
  · rename_i inner
    rw [computeTreeSize, Nat.sub_add_cancel (Nat.pos_of_ne_zero inner)]

theorem treeIndex_leaf_eq_ok_iff {depth col index : Nat} :
    treeIndex depth col (computeTreeSize depth) = .ok index ↔
      col < 2 ^ depth ∧ index = 2 ^ depth - 1 + col := by
  rw [treeIndex]
  by_cases inside : col < 2 ^ depth
  · have fits : 2 ^ depth - 1 + col < computeTreeSize depth := by
      rw [computeTreeSize, Nat.pow_succ]
      omega
    rw [computeTreeLocation_eq inside, ok_bind, ensure_true fits, ok_bind, pure_eq_ok]
    simp [inside, eq_comm]
  · rw [computeTreeLocation]
    simp [ensure, inside]

theorem countBits_le {bits bound n : Nat} (small : n < 2 ^ bound) : countBits bits n ≤ bound := by
  induction bits generalizing n bound with
  | zero => exact Nat.zero_le _
  | succ bits induction =>
    rw [countBits]
    split
    · cases bound with
      | zero => omega
      | succ bound =>
        rw [Nat.pow_succ] at small
        exact Nat.succ_le_succ (induction (by omega))
    · exact Nat.zero_le _

theorem lt_two_pow_countBits {bits n : Nat} (fits : n < 2 ^ bits) : n < 2 ^ countBits bits n := by
  induction bits generalizing n with
  | zero => exact fits
  | succ bits induction =>
    rw [countBits]
    split
    · have half := @induction (n / 2) (by rw [Nat.pow_succ] at fits; omega)
      omega
    · omega

theorem lt_two_pow_computeTreeDepth {numBlocks blockNum : Nat} (known : blockNum < numBlocks)
    (fits : numBlocks ≤ 2 ^ 32) : blockNum < 2 ^ computeTreeDepth numBlocks := by
  have last : numBlocks - 1 < 2 ^ ceillg2 (numBlocks - 1) := lt_two_pow_countBits (by omega)
  rw [computeTreeDepth, if_neg (by omega)]
  omega

end Embassies.Zftp
