import Embassies.Library.HeapTree
import Embassies.Zftp.ReplyFromServer

/-!
# Installing a reply

A client that caches a file from a server it does not trust installs each reply in
four steps.  The metadata and the root of the tree are accepted when they hash to the
name of the file.  Then the records of the reply are put into the tree as tentative
hashes, and the hash of a parent is computed as soon as both children have one.  Then
the data go into the blocks, each under the hash at its leaf.  Last, every node that
has got its two children is compared with them, and the children of those that match
are marked as validated.

The nodes to compare are kept in a hash table, which is emptied in some order.  Bytes
that are read behind the end of a payload are whatever is there.
-/

namespace Embassies.Zftp

open Library Library.Checked

/-- What a client runs on. -/
structure Environment where
  zhash : List UInt8 → Hash
  /-- The order in which a hash table is emptied. -/
  visit : List Nat → List Nat
  visit_perm : ∀ entries, (visit entries).Perm entries
  /-- The memory behind a payload. -/
  behind : Nat → UInt8
  /-- `get_max_payload`. -/
  maxPayload : UInt32
  /-- The context of the compression, as the client has just set it. -/
  context : CompressionContext
  /-- What allocated memory held before. -/
  uninitialized : Nat → UInt8

/-- A client that does not compress, empties its tables in order and finds `filler` behind
every payload. -/
def Environment.uncompressed (zhash : List UInt8 → Hash) (maxPayload : UInt32)
    (filler : UInt8) : Environment where
  zhash := zhash
  visit entries := entries
  visit_perm _ := .refl _
  behind _ := filler
  maxPayload := maxPayload
  context := ⟨noCompression, 0⟩
  uninitialized _ := 0

/-- `InstallResult`. -/
inductive InstallResult where
  | fail
  | noEffect
  | newData
deriving DecidableEq

/-! ## Locations -/

/-- `_left_child`. -/
def leftChild (location : Nat) : Nat := (location + 1) * 2 - 1

/-- `_right_child`. -/
def rightChild (location : Nat) : Nat := leftChild location + 1

theorem leftChild_eq (location : Nat) : leftChild location = HeapTree.left location := by
  rw [leftChild, HeapTree.left]
  omega

theorem rightChild_eq (location : Nat) : rightChild location = HeapTree.right location := by
  rw [rightChild, leftChild_eq]
  rfl

/-- `_sibling_location`. -/
def siblingLocation (location : Nat) : Nat := ((location + 1) ^^^ 1) - 1

/-- `_parent_location`. -/
def parentLocation (location : Nat) : Nat := (location + 1) / 2 - 1

/-- A round of the loop of `lite_log2`. -/
def log2Round (state : Nat × Nat) (scale : Nat) : Nat × Nat :=
  if state.1 ≥ 2 ^ scale then (state.1 / 2 ^ scale, state.2 + scale) else state

/-- `lite_log2`. -/
def liteLog2 (len : Nat) : Nat := ([16, 8, 4, 2, 1].foldl log2Round (len, 0)).2 + 1

namespace ZCachedFile

/-- The non-origin constructor. -/
def new (fileHash : Hash) : ZCachedFile where
  fileHash := fileHash
  metadata := ⟨0, 0⟩
  metadataState := .unknown
  tree _ := ⟨zeroHash, .unknown⟩
  parentsOfTentativeNodes := []

/-- A node of the tree is stored. -/
def setNode (file : ZCachedFile) (location : Nat) (vmr : ValidatedMerkleRecord) :
    ZCachedFile :=
  { file with tree := Function.update file.tree location vmr }

/-- A node of the tree gets a state. -/
def setState (file : ZCachedFile) (location : Nat) (state : ValidityState) :
    ZCachedFile :=
  file.setNode location ⟨(file.tree location).hash, state⟩

/-! ## Tentative hashes -/

/-- `_hash_children`. -/
def hashChildren (env : Environment) (file : ZCachedFile) (ca cb : Nat) :
    Except Fault Hash := do
  let leftSib := if ca < cb then ca else cb
  let rightSib := if ca < cb then cb else ca
  ensure (leftSib % 2 = 1) .assertion
  ensure (leftSib + 1 = rightSib) .assertion
  return env.zhash ((file.tree leftSib).hash.bytes ++ (file.tree rightSib).hash.bytes)

/-- `_track_parent_of_tentative_nodes`. -/
def trackParentOfTentativeNodes (file : ZCachedFile) (parent : Nat) : ZCachedFile :=
  if (file.tree (leftChild parent)).state = .unknown then file
  else if (file.tree (rightChild parent)).state = .unknown then file
  else if parent ∈ file.parentsOfTentativeNodes then file
  else
    { file with
      parentsOfTentativeNodes := parent :: file.parentsOfTentativeNodes }

/-- `_mark_node_tentative`; a location is more than enough fuel for the way up. -/
def markNodeTentative (env : Environment) :
    Nat → ZCachedFile → Nat → Except Fault ZCachedFile
  | 0, _, _ => .error .assertion
  | fuel + 1, file, location => do
    ensure (location < file.treeSize) .outOfBounds
    ensure ((file.tree location).state ≠ .validated) .assertion
    let file := file.setState location .tentative
    if location > 0 then
      let parentLoc := parentLocation location
      let file := file.trackParentOfTentativeNodes parentLoc
      let siblingLoc := siblingLocation location
      if (file.tree parentLoc).state = .unknown ∧
          (file.tree siblingLoc).state ≠ .unknown then do
        let hash ← file.hashChildren env location siblingLoc
        markNodeTentative env fuel
          (file.setNode parentLoc ⟨hash, (file.tree parentLoc).state⟩) parentLoc
      else
        return file
    else do
      -- `_assert_root_validated`, which has just been marked as tentative
      ensure ((file.tree 0).state = .validated) .assertion
      return file

/-- A round of `install_merkle_records`. -/
def installMerkleRecord (env : Environment) (state : ZCachedFile × Bool)
    (zmr : ZFTPMerkleRecord) : Except Fault (ZCachedFile × Bool) := do
  let (file, causedChange) := state
  let location := zmr.treeLocation.toNat
  ensure (location < file.treeSize) .outOfBounds
  match (file.tree location).state with
  | .validated => do
    ensure ((file.tree location).hash = zmr.hash) .assertion
    return (file, causedChange)
  | .tentative => return (file, causedChange)
  | .unknown => do
    let file ← (file.setNode location ⟨zmr.hash, .unknown⟩).markNodeTentative env
      (location + 1) location
    return (file, true)
  | .margin => .error .assertion

/-- `install_merkle_records`. -/
def installMerkleRecords (env : Environment) (file : ZCachedFile)
    (reply : ZFileReplyFromServer) : Except Fault (ZCachedFile × Bool) :=
  reply.merkleRecords.foldlM (installMerkleRecord env) (file, false)

/-! ## Metadata -/

/-- `_compute_file_hash`. -/
def computeFileHash (env : Environment) (metadata : ZFTPFileMetadata) (rootHash : Hash) :
    Hash :=
  env.zhash (ZFTPFileMetadata.format.encode metadata ++ rootHash.bytes)

/-- `_configure_from_metadata`, with the root that comes with it. -/
def configureFromMetadata (file : ZCachedFile) (metadata : ZFTPFileMetadata)
    (rootHash : Hash) : ZCachedFile :=
  { file with
    metadata := metadata
    metadataState := .validated
    tree := Function.update (fun _ => ⟨zeroHash, .unknown⟩) 0 ⟨rootHash, .validated⟩ }

/-- `_find_root_merkle_record_idx`. -/
def findRootMerkleRecord (reply : ZFileReplyFromServer) : Option ZFTPMerkleRecord :=
  reply.merkleRecords.find? fun zmr => zmr.treeLocation = 0

/-- `_install_metadata`. -/
def installMetadata (env : Environment) (file : ZCachedFile)
    (reply : ZFileReplyFromServer) : InstallResult × ZCachedFile :=
  if file.metadataState = .validated then (.noEffect, file)
  else
    match findRootMerkleRecord reply with
    | none => (.fail, file)
    | some rootZmr =>
      if computeFileHash env reply.zdp.metadata rootZmr.hash ≠ file.fileHash then
        (.fail, file)
      else
        (.newData, file.configureFromMetadata reply.zdp.metadata rootZmr.hash)

/-! ## Validation -/

/-- `_mark_hash_validated`. -/
def markHashValidated (file : ZCachedFile) (location : Nat) :
    Except Fault ZCachedFile := do
  ensure (liteLog2 (location + 1) - 1 ≤ file.treeDepth) .assertion
  return file.setState location .validated

/-- `_validate_children`. -/
def validateChildren (env : Environment) (file : ZCachedFile) (parentLoc : Nat) :
    Except Fault (ZCachedFile × InstallResult) := do
  let leftSib := leftChild parentLoc
  let rightSib := leftSib + 1
  ensure (rightSib < file.treeSize) .assertion
  ensure ((file.tree leftSib).state ≠ .unknown) .assertion
  ensure ((file.tree rightSib).state ≠ .unknown) .assertion
  let parentHashComputed ← file.hashChildren env leftSib rightSib
  if (file.tree parentLoc).hash = parentHashComputed then do
    let file ← file.markHashValidated leftSib
    let file ← file.markHashValidated rightSib
    return (file, .newData)
  else
    return (file, .fail)

/-- A round of `_validate_tentative_hashes`. -/
def validateRound (env : Environment) (state : ZCachedFile × InstallResult)
    (parentLoc : Nat) : Except Fault (ZCachedFile × InstallResult) := do
  let (file, ir) ← state.1.validateChildren env parentLoc
  return (file, if ir = .fail then .fail else .newData)

/-- `_validate_tentative_hashes`. -/
def validateTentativeHashes (env : Environment) (file : ZCachedFile) :
    Except Fault (ZCachedFile × InstallResult) :=
  (env.visit file.parentsOfTentativeNodes).foldlM (validateRound env)
    ({ file with parentsOfTentativeNodes := [] }, .noEffect)

end ZCachedFile

/-! ## Data -/

namespace ZBlockCacheRecord

/-- A record whose data have grown, if there is room for them. -/
def grow (block : ZBlockCacheRecord) (bytes : List UInt8) :
    Except Fault ZBlockCacheRecord :=
  if fits : (block.data ++ bytes).length ≤ blockSize then
    .ok ⟨block.data ++ bytes, block.valid, fits, fun valid => by
      have whole := block.whole valid
      rw [List.length_append] at fits ⊢
      omega⟩
  else .error .assertion

/-- `_load_data_internal`; the bytes at the source are given. -/
def loadDataInternal (block : ZBlockCacheRecord) (source : List UInt8) (logicalSize : Nat) :
    Except Fault ZBlockCacheRecord := do
  let block ← block.grow source
  block.grow (List.replicate (logicalSize - source.length) 0)

/-- `_validate`, for the hash that is expected. -/
def validate (env : Environment) (hash : Hash) (block : ZBlockCacheRecord) :
    Except Fault ZBlockCacheRecord :=
  if whole : block.data.length = blockSize then do
    ensure (block.valid = false) .assertion
    ensure (env.zhash block.data = hash) .assertion
    return ⟨block.data, true, block.bounded, fun _ => whole⟩
  else do
    ensure (block.valid = false) .assertion
    return block

/-- `receive_data`; a repetition changes nothing. -/
def receiveData (env : Environment) (hash : Hash) (block : ZBlockCacheRecord)
    (start finish : Nat) (payload : List UInt8) (offset : UInt32) :
    Except Fault (ZBlockCacheRecord × Bool) :=
  if start < block.data.length then do
    ensure (finish ≤ block.data.length) .assertion
    return (block, false)
  else do
    ensure (block.data.length = start) .assertion
    let available := (UInt32.ofNat payload.length - offset).toNat
    let physical := if available < finish - start then available else finish - start
    let source := (List.range' offset.toNat physical).map fun place =>
      payload.getD place (env.behind place)
    let block ← block.loadDataInternal source (finish - start)
    let block ← block.validate env hash
    return (block, true)

/-- `complete_with_zeros`. -/
def completeWithZeros (env : Environment) (hash : Hash) (block : ZBlockCacheRecord) :
    Except Fault ZBlockCacheRecord :=
  if block.data.length < blockSize then do
    let block ← block.loadDataInternal [] (blockSize - block.data.length)
    block.validate env hash
  else .ok block

end ZBlockCacheRecord

namespace ZCachedFile

/-- A part of the data of a reply goes into its block. -/
def installPiece (env : Environment) (file : ZCachedFile) (cache : ZBlockCache)
    (reply : ZFileReplyFromServer) (blk : Nat) (start finish : UInt32) :
    Except Fault (ZBlockCache × Bool) := do
  let blockStart := UInt32.ofNat (blk * blockSize)
  let (found, cache) ← file.lookupBlock cache blk .tentative
  match found with
  | none => .error .assertion
  | some (hash, block) => do
    let (block, causedChange) ← block.receiveData env hash (start - blockStart).toNat
      (finish - blockStart).toNat reply.getPayload (start - reply.dataRange.start)
    let block ←
      if blk = file.numBlocks - 1 ∧ finish = file.getFilelen then
        block.completeWithZeros env hash
      else .ok block
    return (Function.update cache hash (some block), causedChange)

/-- The loop of `install_data`, with that many blocks left in the file. -/
def installDataFrom (env : Environment) (file : ZCachedFile)
    (reply : ZFileReplyFromServer) :
    Nat → ZBlockCache → UInt32 → Bool → Except Fault (ZBlockCache × Bool)
  | 0, cache, nextStart, causedChange =>
    if nextStart < reply.dataRange.finish then .error .assertion
    else .ok (cache, causedChange)
  | left + 1, cache, nextStart, causedChange =>
    if nextStart < reply.dataRange.finish then do
      let blk := nextStart.toNat / blockSize
      let blockEnd := UInt32.ofNat ((blk + 1) * blockSize)
      let nextEnd :=
        if blockEnd < reply.dataRange.finish then blockEnd else reply.dataRange.finish
      let (cache, changed) ← file.installPiece env cache reply blk nextStart nextEnd
      file.installDataFrom env reply left cache nextEnd (causedChange || changed)
    else .ok (cache, causedChange)

/-- `install_data`. -/
def installData (env : Environment) (file : ZCachedFile) (cache : ZBlockCache)
    (reply : ZFileReplyFromServer) : Except Fault (ZBlockCache × Bool) :=
  file.installDataFrom env reply
    (file.numBlocks - reply.dataRange.start.toNat / blockSize) cache
    reply.dataRange.start false

end ZCachedFile

end Embassies.Zftp
