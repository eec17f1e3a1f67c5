import Embassies.Zftp.OriginTree
import Embassies.Zftp.Parts

/-!
# Loading a file of an origin

When each block of a file was loaded once, `origin_finish_load` finds no location unknown and
marks all of them as validated.  The tree and the name of the file do not depend on the
order of the blocks, and every hash that a client can ask for is there.
-/

namespace Embassies.Zftp

open Library Library.Checked Library.HeapTree Library.GrowingTree ZCachedFile List

theorem ZCachedFile.numBlocks_le (file : ZCachedFile) : file.numBlocks ≤ 2 ^ file.treeDepth := by
  by_cases none : file.numBlocks = 0
  · rw [none]
    exact Nat.zero_le _
  · have few : file.numBlocks ≤ 2 ^ 32 := by
      rw [numBlocks, computeNumBlocks, blockSize]
      omega
    have last := lt_two_pow_computeTreeDepth (Nat.sub_one_lt none) few
    rw [treeDepth]
    omega

/-! ## What a client asks for -/

namespace RequestBuilder

variable {env : Environment} {file : ZCachedFile} {builder next : RequestBuilder}
  {blk level location : Nat}

/-- A node above a block, or its sibling. -/
def Askable (file : ZCachedFile) (location : Nat) : Prop :=
  ∃ blk < file.numBlocks, ∃ level, 0 < level ∧ level ≤ file.treeDepth ∧
    (location = file.pathLocation blk level ∨
      location = siblingLocation (file.pathLocation blk level))

theorem Askable.congr {other : ZCachedFile} (askable : Askable file location)
    (same : file.getFilelen = other.getFilelen) : Askable other location := by
  simp only [Askable, pathLocation, treeDepth, numBlocks, same] at askable ⊢
  exact askable

/-- Only nodes above blocks and their siblings were asked for. -/
def OnlyAsks (file : ZCachedFile) (builder : RequestBuilder) : Prop :=
  ∀ location ∈ builder.committedTreeLocations ++ builder.tentativeTreeLocations,
    Askable file location

section Only

variable (only : OnlyAsks file builder)

include only

theorem OnlyAsks.requestHash (askable : Askable file location) :
    OnlyAsks file (builder.requestHash file location).1 := by
  rw [RequestBuilder.requestHash]
  split
  · intro other member
    rw [mem_append, mem_orderedInsert] at member
    rcases member with committed | rfl | tentative
    · exact only other (mem_append_left _ committed)
    · exact askable
    · exact only other (mem_append_right _ tentative)
  · exact only

theorem OnlyAsks.requestAncestorsFrom (used : blk < file.numBlocks) (below : level ≤ file.treeDepth)
    (asks : requestAncestorsFrom file blk level builder = .ok next) : OnlyAsks file next := by
  induction level generalizing builder with
  | zero =>
    obtain rfl : builder = next := Except.ok.inj asks
    exact only
  | succ level induction =>
    have bounded := column_lt below (Nat.lt_of_lt_of_le used file.numBlocks_le)
    rw [RequestBuilder.requestAncestorsFrom, treeSize, treeIndex_eq below bounded, ok_bind] at asks
    have both : OnlyAsks file ((builder.requestHash file (siblingLocation
        (file.pathLocation blk (level + 1)))).1.requestHash file
        (file.pathLocation blk (level + 1))).1 :=
      (only.requestHash ⟨blk, used, level + 1, Nat.succ_pos _, below, .inr rfl⟩).requestHash
        ⟨blk, used, level + 1, Nat.succ_pos _, below, .inl rfl⟩
    dsimp only at asks
    split at asks
    · exact induction both (Nat.le_of_succ_le below) asks
    · obtain rfl := Except.ok.inj asks
      exact both

theorem OnlyAsks.commit : OnlyAsks file builder.commit := by
  intro location member
  have empty : builder.commit.tentativeTreeLocations = [] := rfl
  rw [empty, append_nil] at member
  exact only location (builder.commit_perm.mem_iff.mp member)

theorem OnlyAsks.abort : OnlyAsks file builder.abort := by
  intro location member
  have empty : builder.abort.tentativeTreeLocations = [] := rfl
  rw [empty, append_nil] at member
  exact only location (mem_append_left _ member)

end Only

variable {missing : DataRange}

theorem OnlyAsks.requestData {start endBlk : UInt32} (only : OnlyAsks file builder)
    (asks : builder.requestData env missing start endBlk = .ok next) :
    OnlyAsks file next := by
  simp only [RequestBuilder.requestData, bind_eq_ok_iff, pure_eq_ok, Except.ok.injEq] at asks
  obtain ⟨range, -, rfl⟩ := asks
  exact only

theorem OnlyAsks.buildFrom {leaves : Nat} {start : UInt32} (only : OnlyAsks file builder)
    (inFile : missing.finish ≤ file.getFilelen)
    (short : file.getFilelen.toNat ≤ 0xffff0000)
    (built : buildFrom env file missing leaves builder start = .ok next) :
    OnlyAsks file next := by
  induction leaves generalizing builder start with
  | zero =>
    rw [RequestBuilder.buildFrom] at built
    split at built
    · exact nomatch built
    · obtain rfl := Except.ok.inj built
      exact only
  | succ leaves induction =>
    rw [RequestBuilder.buildFrom] at built
    split at built
    swap
    · obtain rfl := Except.ok.inj built
      exact only
    rename_i goes
    have used : start.toNat / blockSize < file.numBlocks := by
      have before := UInt32.lt_iff_toNat_lt.mp goes.1
      have inside := UInt32.le_iff_toNat_le.mp inFile
      rw [numBlocks, computeNumBlocks, blockSize]
      omega
    rw [bind_eq_ok_iff] at built
    obtain ⟨asked, asks, rest⟩ := built
    have onlyAsked := only.requestAncestorsFrom used (Nat.le_refl _) asks
    split at rest
    · obtain rfl := Except.ok.inj rest
      exact onlyAsked.abort
    · rw [bind_eq_ok_iff] at rest
      obtain ⟨leafLocation, -, rest⟩ := rest
      split at rest
      · obtain ⟨extended, data, later⟩ := of_bind rest
        exact induction (onlyAsked.commit.requestData data) later
      · exact induction onlyAsked.commit rest

/-- `_build_request` asks only for nodes above blocks and their siblings. -/
theorem build_onlyAsks (inFile : missing.finish ≤ file.getFilelen)
    (short : file.getFilelen.toNat ≤ 0xffff0000)
    (built : build env file missing = .ok builder) :
    ∀ location ∈ builder.committedTreeLocations, Askable file location := by
  simp only [build, bind_eq_ok_iff, pure_eq_ok, Except.ok.injEq] at built
  obtain ⟨_, loops, -, -, -, -, rfl⟩ := built
  have nothing : OnlyAsks file ⟨[], [], ⟨0, 0⟩⟩ := fun _ member => nomatch member
  exact fun location member =>
    nothing.buildFrom inFile short loops location (mem_append_left _ member)

end RequestBuilder

namespace ZOriginFile

/-! ## The end -/

variable {env : Environment} {leaf : Nat → Hash} {file : ZCachedFile} {loaded : Finset Nat}

theorem finishNodes_eq {locations : List Nat}
    (known : ∀ location ∈ locations, (file.tree location).state ≠ .unknown) :
    locations.foldlM finishNode file =
      .ok (locations.foldl (fun file location => file.setState location .validated) file) := by
  induction locations generalizing file with
  | nil => rfl
  | cons first locations induction =>
    rw [foldlM_cons, finishNode, ensure_true (known first mem_cons_self), ok_bind,
      pure_eq_ok, ok_bind, foldl_cons]
    refine induction fun location member => ?_
    by_cases same : location = first
    · rw [same, setState_same]
      exact nofun
    · rw [setState_other same]
      exact known location (mem_cons_of_mem _ member)

/-- The record of a column of a level, at the end. -/
def finishedRecord (env : Environment) (leaf : Nat → Hash) (count depth level column : Nat) :
    ValidatedMerkleRecord :=
  if InUse count (depth - level) column then
    ⟨nodeValue env leaf count (depth - level) column, .validated⟩
  else if column % 2 = 1 ∧ InUse count (depth - level) (column - 1) then
    ⟨hashOfBlockOfZeros env, .validated⟩
  else ⟨zeroHash, if level < depth then .validated else .margin⟩

variable {count depth level column : Nat}

theorem nodeRecord_all_known (all : ∀ blk < count, blk ∈ loaded) :
    (nodeRecord env leaf count depth loaded level column).state ≠ .unknown := by
  rw [nodeRecord, if_pos (complete_of_all all)]
  split
  · split <;> simp
  · split <;> simp

theorem finishLoad_eq (known : ∀ location < file.treeSize, (file.tree location).state ≠ .unknown)
    (positive : 0 < file.numBlocks) :
    finishLoad env file = .ok { file with
      fileHash := computeFileHash env file.metadata (file.tree 0).hash
      tree := fun location =>
        if location ∈ range (node file.treeDepth (file.numBlocks - 1) + 1) then
          ⟨(file.tree location).hash, .validated⟩
        else file.tree location } := by
  have bounded : file.numBlocks - 1 < 2 ^ file.treeDepth := by
    have := file.numBlocks_le
    omega
  have last : treeIndex file.treeDepth (file.numBlocks - 1) file.treeSize =
      .ok (node file.treeDepth (file.numBlocks - 1)) := treeIndex_eq (Nat.le_refl _) bounded
  have inside : node file.treeDepth (file.numBlocks - 1) < file.treeSize := node_lt bounded
  have knownRoot := known 0 (Nat.lt_of_le_of_lt (Nat.zero_le _) inside)
  rw [ZOriginFile.finishLoad, ensure_true knownRoot, ok_bind]
  refine (if_pos positive).trans ?_
  change (do
    let lastLocation ← treeIndex file.treeDepth (file.numBlocks - 1) file.treeSize
    _) = _
  rw [last, ok_bind, finishNodes_eq, foldl_setState]
  intro location member
  exact known location (Nat.lt_of_le_of_lt (Nat.le_of_lt_succ (mem_range.mp member)) inside)

/-- `origin_finish_load`, when all blocks were loaded. -/
theorem Holds.finishLoad
    (holds : Holds env leaf file loaded) (all : ∀ blk < file.numBlocks, blk ∈ loaded)
    (positive : 0 < file.numBlocks) :
    ∃ tree, finishLoad env file = .ok { file with
        fileHash := computeFileHash env file.metadata
          (nodeValue env leaf file.numBlocks file.treeDepth 0)
        tree } ∧
      ∀ level ≤ file.treeDepth, ∀ column < 2 ^ level, tree (node level column) =
        finishedRecord env leaf file.numBlocks file.treeDepth level column := by
  have root : (file.tree 0).hash = nodeValue env leaf file.numBlocks file.treeDepth 0 := by
    have rootUsed : InUse file.numBlocks (file.treeDepth - 0) 0 := by
      rw [InUse, Nat.zero_mul]
      exact positive
    have here : file.tree 0 = _ := holds 0 (Nat.zero_le _) 0 Nat.one_pos
    rw [here, nodeRecord_complete rootUsed (complete_of_all all), Nat.sub_zero]
  have known : ∀ location < file.treeSize, (file.tree location).state ≠ .unknown := by
    intro location inside
    obtain ⟨level, column, below, bounded, rfl⟩ := exists_node inside
    rw [holds level below column bounded]
    exact nodeRecord_all_known all
  refine ⟨_, (finishLoad_eq known positive).trans (by rw [root]), ?_⟩
  intro level below column bounded
  have reached : node level column ∈ range (node file.treeDepth (file.numBlocks - 1) + 1) ↔
        level < file.treeDepth ∨ InUse file.numBlocks (file.treeDepth - level) column := by
    rw [mem_range, Nat.lt_succ_iff]
    rcases Nat.lt_or_eq_of_le below with above | rfl
    · exact iff_of_true (Nat.le_of_lt (node_lt_node bounded above)) (.inl above)
    · rw [inUse_iff_le positive, Nat.sub_self, Nat.pow_zero, Nat.div_one, node, node]
      omega
  rw [holds level below column bounded, nodeRecord, if_pos (complete_of_all all), finishedRecord]
  by_cases used : InUse file.numBlocks (file.treeDepth - level) column
  · rw [if_pos (reached.mpr (.inr used)), if_pos used, if_pos used]
  · rw [if_neg used, if_neg used]
    simp only [reached, used, or_false]
    split_ifs <;> rfl

/-! ## Whole loads -/

/-- The hashes of the blocks of a file. -/
def leafHash (env : Environment) (blocks : Nat → List UInt8) (blk : Nat) : Hash :=
  env.zhash (zeroPadded (blocks blk))

/-- The name of a file with these blocks. -/
def contentHash (env : Environment) (fileLen flags : UInt32) (blocks : Nat → List UInt8) :
    Hash :=
  computeFileHash env ⟨fileLen, flags⟩ (nodeValue env (leafHash env blocks)
    (blank fileLen flags).numBlocks (blank fileLen flags).treeDepth 0)

theorem load_eq {cache : ZBlockCache} {fileLen flags : UInt32} {blocks : Nat → List UInt8}
    {order : List Nat} (positive : 0 < (blank fileLen flags).numBlocks)
    (room : ∀ blk < (blank fileLen flags).numBlocks, (blocks blk).length ≤ blockSize)
    (each : order.Perm (range (blank fileLen flags).numBlocks)) :
    ∃ tree cache', load env cache fileLen flags blocks order = .ok ({ blank fileLen flags with
          fileHash := contentHash env fileLen flags blocks
          tree }, cache') ∧
      ∀ level ≤ (blank fileLen flags).treeDepth, ∀ column < 2 ^ level,
        tree (node level column) = finishedRecord env (leafHash env blocks)
          (blank fileLen flags).numBlocks (blank fileLen flags).treeDepth level column := by
  have member : ∀ blk, blk ∈ order ↔ blk < (blank fileLen flags).numBlocks := by
    intro blk
    rw [each.mem_iff, mem_range]
  have fits := (blank fileLen flags).numBlocks_le
  obtain ⟨_, begins, empty⟩ := @fillInSiblingHashes_holds env (blank fileLen flags)
    positive fits (leafHash env blocks) fun _ => rfl
  obtain ⟨_, cache', loads, holds⟩ := @Holds.loadBlocks _ _ _ _ blocks order empty
    (fun blk here => (member blk).mp here) fits (each.nodup_iff.mpr nodup_range)
    (fun _ _ => Finset.notMem_empty _) (fun blk here => room blk ((member blk).mp here))
    (fun _ _ => rfl) cache
  obtain ⟨tree, finishes, records⟩ := holds.finishLoad (fun blk used => by
    rw [Finset.empty_union, mem_toFinset]
    exact (member blk).mpr used) positive
  refine ⟨tree, cache', ?_, records⟩
  rw [load, new, begins, ok_bind, loads, ok_bind]
  exact bind_eq_ok_iff.mpr ⟨_, finishes, rfl⟩

/-- The tree of a file is there for every block. -/
structure Finished (env : Environment) (blocks : Nat → List UInt8) (file : ZCachedFile) :
    Prop where
  root : (file.tree 0).state = .validated
  leaves : ∀ blk < file.numBlocks, file.tree (file.pathLocation blk file.treeDepth) =
    ⟨env.zhash (zeroPadded (blocks blk)), .validated⟩
  ancestors : ∀ blk < file.numBlocks, ∀ level < file.treeDepth,
    file.tree (file.pathLocation blk level) =
      ⟨env.zhash ((file.tree (leftChild (file.pathLocation blk level))).hash.bytes ++
        (file.tree (rightChild (file.pathLocation blk level))).hash.bytes), .validated⟩
  siblings : ∀ blk < file.numBlocks, ∀ level, 0 < level → level ≤ file.treeDepth →
    (file.tree (siblingLocation (file.pathLocation blk level))).state = .validated

theorem finishedRecord_child (used : InUse count (depth - level) (2 * (column / 2))) :
    finishedRecord env leaf count depth level column =
      ⟨nodeValue env leaf count (depth - level) column, .validated⟩ := by
  rw [finishedRecord]
  by_cases inUse : InUse count (depth - level) column
  · rw [if_pos inUse]
  · rw [if_neg inUse, if_pos (right_of_not_inUse used inUse), nodeValue,
      columnValue_of_not_inUse inUse]

section Tree

variable {blocks : Nat → List UInt8}
  (records : ∀ level ≤ file.treeDepth, ∀ column < 2 ^ level, file.tree (node level column) =
    finishedRecord env (leafHash env blocks) file.numBlocks file.treeDepth level column)

include records

theorem tree_child
    {blk level column : Nat} (used : blk < file.numBlocks) (below : level + 1 ≤ file.treeDepth)
    (same : column / 2 = blk / 2 ^ (file.treeDepth - level)) :
    file.tree (node (level + 1) column) = ⟨nodeValue env (leafHash env blocks) file.numBlocks
      (file.treeDepth - (level + 1)) column, .validated⟩ := by
  have bounded : column < 2 ^ (level + 1) := by
    have := column_lt (Nat.le_of_succ_le below) (Nat.lt_of_lt_of_le used file.numBlocks_le)
    omega
  rw [records _ below _ bounded, finishedRecord_child (child_inUse used below same)]

theorem tree_path {blk level : Nat} (used : blk < file.numBlocks) (below : level ≤ file.treeDepth) :
    file.tree (file.pathLocation blk level) = ⟨nodeValue env (leafHash env blocks)
      file.numBlocks (file.treeDepth - level) (blk / 2 ^ (file.treeDepth - level)),
      .validated⟩ := by
  have bounded := column_lt below (Nat.lt_of_lt_of_le used file.numBlocks_le)
  rw [pathLocation, records _ below _ bounded, finishedRecord, if_pos (inUse_of_leaf used)]

theorem finished_of_records (positive : 0 < file.numBlocks) : Finished env blocks file := by
  refine ⟨?_, ?_, ?_, ?_⟩
  · have root := tree_path records positive (Nat.zero_le _)
    rw [pathLocation, Nat.zero_div] at root
    exact congrArg ValidatedMerkleRecord.state root
  · intro blk used
    rw [tree_path records used (Nat.le_refl _), Nat.sub_self, Nat.pow_zero, Nat.div_one,
      nodeValue, columnValue_leaf used, leafHash]
  · intro blk used level below
    have height : file.treeDepth - level = file.treeDepth - (level + 1) + 1 := by omega
    rw [leftChild_eq, rightChild_eq, left_pathLocation, right_pathLocation,
      tree_child records used below (by omega), tree_child records used below (by omega),
      tree_path records used (Nat.le_of_lt below)]
    nth_rewrite 1 [height]
    rw [nodeValue, columnValue_succ (path_inUse used below)]
  · intro blk used level positive below
    obtain ⟨level, rfl⟩ := Nat.exists_eq_add_one_of_ne_zero (Nat.ne_of_gt positive)
    have inner : file.pathLocation blk (level + 1) ≠ 0 := node_succ_ne_zero _ _
    have both := (@both_children_iff (file.pathLocation blk (level + 1))
      (fun location => (file.tree location).state = .validated) inner).mp ?_
    · rw [siblingLocation_eq inner]
      exact both.2
    · rw [pathLocation_parent below, left_pathLocation, right_pathLocation,
        tree_child records used below (by omega), tree_child records used below (by omega)]
      exact ⟨rfl, rfl⟩

end Tree

/-- Whatever a client can ask for is there. -/
theorem Finished.getValidatedMerkleRecord
    {blocks : Nat → List UInt8} {location : Nat} (finished : Finished env blocks file)
    (askable : RequestBuilder.Askable file location) :
    file.getValidatedMerkleRecord location = .ok (file.tree location) := by
  obtain ⟨blk, used, level, positive, below, which⟩ := askable
  have path := @pathLocation_lt_treeSize file blk level below
    (Nat.lt_of_lt_of_le used file.numBlocks_le)
  obtain ⟨above, rfl⟩ := Nat.exists_eq_add_one_of_ne_zero (Nat.ne_of_gt positive)
  have inner : file.pathLocation blk (above + 1) ≠ 0 := node_succ_ne_zero _ _
  have valid : location < file.treeSize ∧ (file.tree location).state = .validated := by
    rcases which with rfl | rfl
    · refine ⟨path, ?_⟩
      rcases Nat.lt_or_eq_of_le below with inside | leaf
      · rw [finished.ancestors blk used _ inside]
      · rw [leaf, finished.leaves blk used]
    · refine ⟨?_, finished.siblings blk used _ positive below⟩
      rw [siblingLocation_eq inner]
      refine sibling_lt ?_ path inner
      rw [treeSize, computeTreeSize, Nat.pow_succ]
      have := Nat.two_pow_pos file.treeDepth
      omega
  rw [ZCachedFile.getValidatedMerkleRecord, ensure_true valid.1, ok_bind, ensure_true valid.2]
  rfl

/-- The tree of an empty file. -/
abbrev emptyFile (env : Environment) (fileLen flags : UInt32) : ZCachedFile :=
  { (blank fileLen flags).setNode 0 ⟨hashOfBlockOfZeros env, .validated⟩ with
    fileHash := computeFileHash env ⟨fileLen, flags⟩ (hashOfBlockOfZeros env) }

theorem load_empty {cache : ZBlockCache} {fileLen flags : UInt32} (blocks : Nat → List UInt8)
    (none : (blank fileLen flags).numBlocks = 0) :
    load env cache fileLen flags blocks [] = .ok (emptyFile env fileLen flags, cache) := by
  have flat : (blank fileLen flags).treeSize = 1 := by
    rw [treeSize, treeDepth, none]
    rfl
  have root : ((blank fileLen flags).setNode 0 ⟨hashOfBlockOfZeros env, .validated⟩).tree 0 =
      ⟨hashOfBlockOfZeros env, .validated⟩ := setNode_same
  have finishes : finishLoad env ((blank fileLen flags).setNode 0
      ⟨hashOfBlockOfZeros env, .validated⟩) = .ok (emptyFile env fileLen flags) := by
    have known : ValidityState.validated ≠ .unknown := by decide
    rw [finishLoad, root, ensure_true known, ok_bind]
    refine (if_neg ?_).trans ?_
    · exact Nat.not_lt.mpr (Nat.le_of_eq none)
    · exact bind_eq_ok_iff.mpr ⟨(), ensure_true flat,
        bind_eq_ok_iff.mpr ⟨(), ensure_true (congrArg _ root), rfl⟩⟩
  rw [load, new, fillInSiblingHashes, if_pos none, ok_bind, foldlM_nil, pure_eq_ok, ok_bind]
  exact bind_eq_ok_iff.mpr ⟨_, finishes, rfl⟩

/-- A file of at most 0xffff0000 bytes can be loaded in any order of its blocks.  Its name
does not depend on the order, and the whole tree above the blocks is there. -/
theorem load_in_any_order
    (env : Environment) (fileLen flags : UInt32) (short : fileLen.toNat ≤ 0xffff0000)
    (blocks : Nat → List UInt8)
    (room : ∀ blk < computeNumBlocks fileLen, (blocks blk).length ≤ blockSize) :
    ∃ fileHash, ∀ (cache : ZBlockCache) (order : List Nat),
      order.Perm (List.range (computeNumBlocks fileLen)) →
      ∃ file cache', load env cache fileLen flags blocks order = .ok (file, cache') ∧
        file.fileHash = fileHash ∧ file.getFilelen = fileLen ∧ Finished env blocks file ∧
        ∀ (other : Environment) (client : ZCachedFile) (missing : DataRange)
          (builder : RequestBuilder), client.getFilelen = fileLen →
          missing.finish ≤ fileLen → RequestBuilder.build other client missing = .ok builder →
          ∀ location ∈ builder.committedTreeLocations,
            file.getValidatedMerkleRecord location = .ok (file.tree location) := by
  have askable : ∀ (file : ZCachedFile), file.getFilelen = fileLen → Finished env blocks file →
      ∀ (other : Environment) (client : ZCachedFile) (missing : DataRange)
        (builder : RequestBuilder), client.getFilelen = fileLen →
        missing.finish ≤ fileLen → RequestBuilder.build other client missing = .ok builder →
        ∀ location ∈ builder.committedTreeLocations,
          file.getValidatedMerkleRecord location = .ok (file.tree location) := by
    intro file same finished other client missing builder len inFile built location member
    rw [← len] at inFile short
    have asked := RequestBuilder.build_onlyAsks inFile short built location member
    exact finished.getValidatedMerkleRecord (asked.congr (len.trans same.symm))
  by_cases none : computeNumBlocks fileLen = 0
  · refine ⟨computeFileHash env ⟨fileLen, flags⟩ (hashOfBlockOfZeros env),
      fun cache order each => ?_⟩
    rw [none, range_zero, perm_nil] at each
    subst each
    have finished : Finished env blocks (emptyFile env fileLen flags) := by
      refine ⟨congrArg ValidatedMerkleRecord.state setNode_same, ?_, ?_, ?_⟩
      all_goals
        intro blk used
        exact absurd (Nat.lt_of_lt_of_le used (Nat.le_of_eq none)) (Nat.not_lt_zero _)
    exact ⟨_, cache, load_empty blocks none, rfl, rfl, finished, askable _ rfl finished⟩
  · refine ⟨contentHash env fileLen flags blocks, fun cache order each => ?_⟩
    obtain ⟨tree, cache', loads, records⟩ := @load_eq env cache fileLen flags blocks order
      (Nat.pos_of_ne_zero none) room each
    have finished := @finished_of_records env { blank fileLen flags with
      fileHash := contentHash env fileLen flags blocks
      tree } blocks records (Nat.pos_of_ne_zero none)
    exact ⟨_, cache', loads, rfl, rfl, finished, askable _ rfl finished⟩

/-- A hash function that keeps the first bytes. -/
def firstBytes : Environment := .uncompressed Hash.format.decode 0x10000 0

/-- The second block of a file of two is loaded first. -/
theorem load_second_block_first :
    ∃ file cache, load firstBytes (fun _ => none) 65537 0 (fun blk => [UInt8.ofNat blk])
        [1, 0] = .ok (file, cache) ∧
      Finished firstBytes (fun blk => [UInt8.ofNat blk]) file := by
  obtain ⟨fileHash, loads⟩ := load_in_any_order firstBytes 65537 0 (by decide)
    (fun blk => [UInt8.ofNat blk]) (fun _ _ => Nat.succ_le_succ (Nat.zero_le _))
  obtain ⟨file, cache, loaded, -, -, finished, -⟩ := loads (fun _ => none) [1, 0] (by decide)
  exact ⟨file, cache, loaded, finished⟩

end ZOriginFile

end Embassies.Zftp
