import Embassies.Zftp.Install

/-!
# Files of an origin

`ZOriginFile` is a cached file that is loaded block by block from a place that is trusted.
Its tree grows from the leaves: a hash is computed as soon as both children have one.  The
blocks do not fill the tree, so a node without blocks below it that is needed as a sibling
gets a value in advance, and the other ones are marked as margin.

At the end the root gives the file its name.
-/

namespace Embassies.Zftp

open Library Library.Checked

/-- Data of a block, filled up with zeros. -/
def zeroPadded (inData : List UInt8) : List UInt8 :=
  inData ++ List.replicate (blockSize - inData.length) 0

theorem length_zeroPadded {inData : List UInt8} (fits : inData.length ≤ blockSize) :
    (zeroPadded inData).length = blockSize := by
  rw [zeroPadded, List.length_append, List.length_replicate]
  omega

/-- The constructor of a block with data. -/
def ZBlockCacheRecord.ofData (inData : List UInt8) : Except Fault ZBlockCacheRecord :=
  if fits : inData.length ≤ blockSize then
    .ok ⟨zeroPadded inData, true, Nat.le_of_eq (length_zeroPadded fits),
      fun _ => length_zeroPadded fits⟩
  else .error .assertion

/-- `insert`; a block that is there already stays. -/
def ZBlockCache.insert (cache : ZBlockCache) (hash : Hash) (block : ZBlockCacheRecord) :
    ZBlockCache :=
  match cache hash with
  | none => Function.update cache hash (some block)
  | some _ => cache

/-- `hash_of_block_of_zeros`, which hashes as many zeros as the block size has bytes. -/
def hashOfBlockOfZeros (env : Environment) : Hash := env.zhash (List.replicate 4 0)

namespace ZOriginFile

/-! ## The constructor -/

/-- A level of `_fill_in_sibling_hashes`. -/
def fillLevel (env : Environment) (file : ZCachedFile) (level : Nat) :
    Except Fault ZCachedFile := do
  let lastcol := (file.numBlocks - 1) / 2 ^ (file.treeDepth - level)
  let lastloc ← treeIndex level lastcol file.treeSize
  let sibling := siblingLocation lastloc
  let (file, marginStart) :=
    if sibling > lastloc then
      (file.setNode sibling ⟨hashOfBlockOfZeros env, .validated⟩, sibling + 1)
    else (file, lastloc + 1)
  let endRow ← treeIndex level (2 ^ level - 1) file.treeSize
  return (List.range' marginStart (endRow + 1 - marginStart)).foldl
    (fun file margin => file.setState margin .margin) file

/-- `_fill_in_sibling_hashes`. -/
def fillInSiblingHashes (env : Environment) (file : ZCachedFile) :
    Except Fault ZCachedFile :=
  if file.numBlocks = 0 then
    .ok (file.setNode 0 ⟨hashOfBlockOfZeros env, .validated⟩)
  else (List.range' 1 file.treeDepth).foldlM (fillLevel env) file

/-- What `_configure_from_metadata` leaves. -/
def blank (fileLen flags : UInt32) : ZCachedFile where
  fileHash := ⟨List.replicate 20 6, rfl⟩
  metadata := ⟨fileLen, flags⟩
  metadataState := .validated
  tree _ := ⟨zeroHash, .unknown⟩
  parentsOfTentativeNodes := []

/-- The origin constructor. -/
def new (env : Environment) (fileLen flags : UInt32) : Except Fault ZCachedFile :=
  fillInSiblingHashes env (blank fileLen flags)

/-! ## Blocks -/

/-- `_mark_node_tentative` of an origin file, which has no queue of parents and no root to
begin with; a location is more than enough fuel for the way up. -/
def markNodeTentative (env : Environment) :
    Nat → ZCachedFile → Nat → Except Fault ZCachedFile
  | 0, _, _ => .error .assertion
  | fuel + 1, file, location => do
    ensure (location < file.treeSize) .outOfBounds
    ensure ((file.tree location).state ≠ .validated) .assertion
    let file := file.setState location .tentative
    if location > 0 then
      let parentLoc := parentLocation location
      let siblingLoc := siblingLocation location
      if (file.tree parentLoc).state = .unknown ∧
          (file.tree siblingLoc).state ≠ .unknown then do
        let hash ← file.hashChildren env location siblingLoc
        markNodeTentative env fuel
          (file.setNode parentLoc ⟨hash, (file.tree parentLoc).state⟩) parentLoc
      else return file
    else return file

/-- `_mark_node_on_block_load`. -/
def markNodeOnBlockLoad (env : Environment) (file : ZCachedFile) (location : Nat) :
    Except Fault ZCachedFile :=
  if location = 0 then .ok (file.setState 0 .validated)
  else markNodeTentative env (location + 1) file location

/-- `origin_load_block`, with `_load_block`. -/
def loadBlock (env : Environment) (state : ZCachedFile × ZBlockCache) (blockNum : Nat)
    (inData : List UInt8) : Except Fault (ZCachedFile × ZBlockCache) := do
  let (file, cache) := state
  let block ← ZBlockCacheRecord.ofData inData
  let hash := env.zhash block.data
  let cache := ZBlockCache.insert cache hash block
  let leafLocation ← treeIndex file.treeDepth blockNum file.treeSize
  if (file.tree leafLocation).state = .validated then return (file, cache)
  else do
    let file := file.setNode leafLocation ⟨hash, (file.tree leafLocation).state⟩
    let file ← markNodeOnBlockLoad env file leafLocation
    return (file, cache)

/-! ## The end -/

/-- A location is marked as validated at the end. -/
def finishNode (file : ZCachedFile) (location : Nat) : Except Fault ZCachedFile := do
  ensure ((file.tree location).state ≠ .unknown) .assertion
  return file.setState location .validated

/-- `origin_finish_load`, up to where the file is handed to the cache. -/
def finishLoad (env : Environment) (file : ZCachedFile) : Except Fault ZCachedFile := do
  ensure ((file.tree 0).state ≠ .unknown) .assertion
  let fileHash := ZCachedFile.computeFileHash env file.metadata (file.tree 0).hash
  let file := { file with fileHash }
  if file.numBlocks > 0 then do
    let lastLocation ← treeIndex file.treeDepth (file.numBlocks - 1) file.treeSize
    (List.range (lastLocation + 1)).foldlM finishNode file
  else do
    ensure (file.treeSize = 1) .assertion
    ensure ((file.tree 0).state = .validated) .assertion
    return file

/-- A file is loaded block by block. -/
def load (env : Environment) (cache : ZBlockCache) (fileLen flags : UInt32)
    (blocks : Nat → List UInt8) (order : List Nat) :
    Except Fault (ZCachedFile × ZBlockCache) := do
  let file ← new env fileLen flags
  let (file, cache) ← order.foldlM
    (fun state blockNum => loadBlock env state blockNum (blocks blockNum)) (file, cache)
  let file ← finishLoad env file
  return (file, cache)

end ZOriginFile

end Embassies.Zftp
