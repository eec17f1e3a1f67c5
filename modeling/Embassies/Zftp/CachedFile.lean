import Embassies.Zftp.Geometry

/-!
# Cached files

`ZCachedFile` knows the hash of a file and, as far as they are known, its
metadata and the nodes of its Merkle tree.  The contents of the blocks are in a
cache shared by all files, where each block is kept under its hash.  This module
has the parts that serve a request; `write_blocks_to_buf` is generic in the kind
of buffer that it fills.
-/

namespace Embassies.Zftp

open Library Library.Checked

/-- `ZFTPFileMetadata`. -/
structure ZFTPFileMetadata where
  fileLen : UInt32
  flags : UInt32
deriving DecidableEq

/-- The layout of the metadata. -/
def ZFTPFileMetadata.format : Format ZFTPFileMetadata :=
  (Format.uint32.pair Format.uint32).rename
    ⟨fun metadata => (metadata.fileLen, metadata.flags),
      fun parts => ⟨parts.1, parts.2⟩, fun _ => rfl, fun _ => rfl⟩

/-- `ValidityState`. -/
inductive ValidityState where
  | unknown
  | tentative
  | validated
  /-- A node that no block needs, in a file of an origin. -/
  | margin
deriving DecidableEq

/-- The number by which states are compared. -/
def ValidityState.rank : ValidityState → Nat
  | unknown => 0
  | tentative => 1
  | validated => 2
  | margin => 3

@[simp]
theorem ValidityState.rank_validated : ValidityState.validated.rank = 2 := rfl

/-- `ValidatedMerkleRecord`. -/
structure ValidatedMerkleRecord where
  hash : Hash
  state : ValidityState
deriving DecidableEq

/-- `ZBlockCacheRecord`: the bytes received so far, and whether they are all there
and were verified.  The next gap is where they end. -/
structure ZBlockCacheRecord where
  data : List UInt8
  valid : Bool
  bounded : data.length ≤ blockSize
  whole : valid = true → data.length = blockSize

namespace ZBlockCacheRecord

/-- A record for an expected hash. -/
def new : ZBlockCacheRecord := ⟨[], false, Nat.zero_le _, nofun⟩

/-- `read`. -/
def read (block : ZBlockCacheRecord) (off len : Nat) : Except Fault (List UInt8) := do
  ensure (block.valid = true) .assertion
  ensure (off + len ≤ blockSize) .assertion
  return (block.data.drop off).take len

/-- A block of one byte, repeated. -/
def uniform (byte : UInt8) : ZBlockCacheRecord where
  data := List.replicate blockSize byte
  valid := true
  bounded := Nat.le_of_eq List.length_replicate
  whole _ := List.length_replicate

end ZBlockCacheRecord

/-- `ZBlockCache`, in which a block is kept under its hash. -/
abbrev ZBlockCache := Hash → Option ZBlockCacheRecord

/-- `ZCachedFile`. -/
structure ZCachedFile where
  fileHash : Hash
  metadata : ZFTPFileMetadata
  metadataState : ValidityState
  tree : Nat → ValidatedMerkleRecord
  parentsOfTentativeNodes : List Nat

namespace ZCachedFile

variable {β : Type}

/-- `get_filelen`. -/
def getFilelen (file : ZCachedFile) : UInt32 := file.metadata.fileLen

/-- `num_blocks`. -/
def numBlocks (file : ZCachedFile) : Nat := computeNumBlocks file.getFilelen

/-- `tree_depth`. -/
def treeDepth (file : ZCachedFile) : Nat := computeTreeDepth file.numBlocks

/-- `tree_size`. -/
def treeSize (file : ZCachedFile) : Nat := computeTreeSize file.treeDepth

theorem treeDepth_le (file : ZCachedFile) : file.treeDepth ≤ 16 := by
  rw [treeDepth, computeTreeDepth]
  split
  · exact Nat.zero_le _
  · refine countBits_le ?_
    rw [numBlocks, computeNumBlocks, blockSize]
    omega

/-- `get_file_data_range`. -/
def getFileDataRange (file : ZCachedFile) : Except Fault DataRange := do
  ensure (file.metadataState = .validated) .assertion
  return ⟨0, file.getFilelen⟩

/-- `get_validated_merkle_record`. -/
def getValidatedMerkleRecord (file : ZCachedFile) (location : Nat) :
    Except Fault ValidatedMerkleRecord := do
  ensure (location < file.treeSize) .outOfBounds
  ensure ((file.tree location).state = .validated) .assertion
  return file.tree location

/-- `find_block_hash`. -/
def findBlockHash (file : ZCachedFile) (blockNum : Nat)
    (requiredValidity : ValidityState) : Except Fault (Option Hash) := do
  let leafLoc ← treeIndex file.treeDepth blockNum file.treeSize
  let vmr := file.tree leafLoc
  return if vmr.state.rank < requiredValidity.rank then none else some vmr.hash

/-- `_lookup_block`; the block comes with its hash. -/
def lookupBlock (file : ZCachedFile) (cache : ZBlockCache) (blockNum : Nat)
    (requiredValidity : ValidityState) :
    Except Fault (Option (Hash × ZBlockCacheRecord) × ZBlockCache) := do
  match ← file.findBlockHash blockNum requiredValidity with
  | none => return (none, cache)
  | some hash =>
    match cache hash with
    | some block => return (some (hash, block), cache)
    | none => return (some (hash, .new), Function.update cache hash (some .new))

/-- The block that `write_blocks_to_buf` is about to write. -/
def validBlock (file : ZCachedFile) (cache : ZBlockCache) (blk : Nat) :
    Except Fault (Hash × ZBlockCacheRecord) := do
  match (← file.lookupBlock cache blk .validated).1 with
  | none => .error .assertion
  | some (hash, block) =>
    ensure (block.valid = true) .assertion
    return (hash, block)

/-- How a buffer takes data of a block: the block with its hash, where the data go
in the packet, where they are in the block, and their length. -/
abbrev WriteData (β : Type) :=
  β → Hash → ZBlockCacheRecord → UInt32 → UInt32 → UInt32 → Except Fault β

/-- The loop of `write_blocks_to_buf`.  Without a leaf left for the next block,
`_tree_index` fails. -/
def writeBlocksFrom (writeData : WriteData β) (file : ZCachedFile)
    (cache : ZBlockCache) (packetDataOffset offset size : UInt32) :
    Nat → β → Nat → UInt32 → UInt32 → Except Fault β
  | 0, buf, _, bufOff, fileLastEnded =>
    if bufOff < size then .error .assertion
    else do
      ensure (fileLastEnded = offset + size) .assertion
      return buf
  | leaves + 1, buf, blk, bufOff, fileLastEnded =>
    if bufOff < size then do
      let (hash, block) ← file.validBlock cache blk
      let blkStart := UInt32.ofNat (blk * blockSize)
      let blkOff := if offset > blkStart then offset - blkStart else 0
      let blkEndRequest := offset + size - blkStart
      let blkLen := if blkEndRequest - blkOff < 65536 - blkOff then
        blkEndRequest - blkOff else 65536 - blkOff
      let buf ← writeData buf hash block (bufOff + packetDataOffset) blkOff blkLen
      ensure (blkStart + blkOff = fileLastEnded) .assertion
      writeBlocksFrom writeData file cache packetDataOffset offset size leaves buf
        (blk + 1) (bufOff + blkLen) (blkStart + blkOff + blkLen)
    else do
      ensure (fileLastEnded = offset + size) .assertion
      return buf

/-- `write_blocks_to_buf`. -/
def writeBlocksToBuf (writeData : WriteData β) (file : ZCachedFile)
    (cache : ZBlockCache) (buf : β) (packetDataOffset offset size : UInt32) :
    Except Fault β := do
  ensure (offset + size ≤ file.getFilelen) .assertion
  let firstBlock := offset.toNat / blockSize
  writeBlocksFrom writeData file cache packetDataOffset offset size
    (2 ^ file.treeDepth - firstBlock) buf firstBlock 0 offset

theorem validBlock_eq_ok_iff {file : ZCachedFile} {cache : ZBlockCache} {blk : Nat} {hash : Hash}
    {block : ZBlockCacheRecord} :
    file.validBlock cache blk = .ok (hash, block) ↔ blk < 2 ^ file.treeDepth ∧
        2 ≤ (file.tree (2 ^ file.treeDepth - 1 + blk)).state.rank ∧
        (file.tree (2 ^ file.treeDepth - 1 + blk)).hash = hash ∧
        cache hash = some block ∧ block.valid = true := by
  rw [validBlock, lookupBlock, findBlockHash]
  by_cases leaf : blk < 2 ^ file.treeDepth
  · have index := treeIndex_leaf_eq_ok_iff.mpr ⟨leaf, rfl⟩
    rw [treeSize, index]
    simp only [ok_bind, pure_eq_ok, leaf, true_and, ValidityState.rank_validated]
    by_cases low : (file.tree (2 ^ file.treeDepth - 1 + blk)).state.rank < 2
    · simp only [low, if_true, ok_bind, reduceCtorEq, false_iff, not_and]
      omega
    · simp only [low, if_false]
      cases found : cache (file.tree (2 ^ file.treeDepth - 1 + blk)).hash with
      | none =>
        simp only [ok_bind, ZBlockCacheRecord.new, bind_eq_ok_iff, ensure_eq_ok_iff]
        grind
      | some other =>
        simp only [ok_bind, bind_eq_ok_iff, ensure_eq_ok_iff]
        grind
  · have missing : ∀ index, treeIndex file.treeDepth blk file.treeSize ≠ .ok index :=
      fun index found => leaf (treeIndex_leaf_eq_ok_iff.mp found).1
    cases outcome : treeIndex file.treeDepth blk file.treeSize with
    | ok index => exact absurd outcome (missing index)
    | error reason => simp [leaf]

theorem validBlock_of_no_leaf {file : ZCachedFile} {cache : ZBlockCache} {blk : Nat}
    (beyond : 2 ^ file.treeDepth ≤ blk) :
    file.validBlock cache blk = .error .assertion := by
  have outside : ¬blk < 2 ^ file.treeDepth := by omega
  rw [validBlock, lookupBlock, findBlockHash, treeIndex, computeTreeLocation]
  simp [ensure, outside]

end ZCachedFile

end Embassies.Zftp
