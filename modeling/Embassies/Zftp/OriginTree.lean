import Embassies.Library.GrowingTree
import Embassies.Zftp.OriginFile
import Embassies.Zftp.RequestPath

/-!
# The tree of an origin file

What is in the tree of an origin file depends only on which blocks were loaded, and not on
their order: a node with blocks below it is known exactly when all of these were loaded, and
its hash is then determined by them.  So when all blocks were loaded, in any order, the tree
is complete, and the name of the file is that of its contents.
-/

namespace Embassies.Zftp

open Library Library.Checked Library.HeapTree Library.GrowingTree ZCachedFile List

theorem parentLocation_node (level column : Nat) :
    parentLocation (node (level + 1) column) = node level (column / 2) := by
  have := Nat.two_pow_pos level
  rw [parentLocation, node, node, Nat.pow_succ]
  omega

namespace ZCachedFile

variable {file : ZCachedFile} {location other : Nat} {vmr : ValidatedMerkleRecord}
  {state : ValidityState}

@[simp]
theorem setNode_same : (file.setNode location vmr).tree location = vmr := Function.update_self ..

theorem setNode_other (apart : other ≠ location) :
    (file.setNode location vmr).tree other = file.tree other :=
  Function.update_of_ne apart _ _

@[simp]
theorem setState_same :
    (file.setState location state).tree location = ⟨(file.tree location).hash, state⟩ :=
  setNode_same

theorem setState_other (apart : other ≠ location) :
    (file.setState location state).tree other = file.tree other :=
  setNode_other apart

theorem left_pathLocation (file : ZCachedFile) (blk level : Nat) :
    left (file.pathLocation blk level) =
      node (level + 1) (2 * (blk / 2 ^ (file.treeDepth - level))) :=
  left_node _ _

theorem right_pathLocation (file : ZCachedFile) (blk level : Nat) :
    right (file.pathLocation blk level) =
      node (level + 1) (2 * (blk / 2 ^ (file.treeDepth - level)) + 1) :=
  right_node _ _

/-- The ancestor of a block at a level becomes tentative. -/
abbrev markAt (file : ZCachedFile) (blk level : Nat) : ZCachedFile :=
  file.setState (file.pathLocation blk level) .tentative

/-- The hash of a parent is that of its left and its right child. -/
theorem hashChildren_sibling (env : Environment) (file : ZCachedFile) (notRoot : location ≠ 0) :
    file.hashChildren env location (sibling location) =
      .ok (env.zhash ((file.tree (left (parent location))).hash.bytes ++
        (file.tree (right (parent location))).hash.bytes)) := by
  have odd : left (parent location) % 2 = 1 := by
    rw [left]
    omega
  have next : left (parent location) + 1 = right (parent location) := rfl
  have order : left (parent location) < right (parent location) := by omega
  rw [hashChildren]
  rcases eq_left_or_right notRoot with same | same
  · rw [same, sibling_left, parent_left, if_pos order, if_pos order, ensure_true odd,
      ok_bind, ensure_true next]
    rfl
  · have behind : ¬right (parent location) < left (parent location) := by omega
    rw [same, sibling_right, parent_right, if_neg behind, if_neg behind, ensure_true odd,
      ok_bind, ensure_true next]
    rfl

end ZCachedFile

namespace ZOriginFile

/-! ## The tree for the blocks that were loaded -/

section Records

variable (env : Environment) (leaf : Nat → Hash) (count depth : Nat)

/-- The hash of a column of a height. -/
def nodeValue : Nat → Nat → Hash :=
  columnValue (fun left right => env.zhash (left.bytes ++ right.bytes))
    (hashOfBlockOfZeros env) leaf count

/-- The record of a column of a level, when some blocks were loaded. -/
def nodeRecord (loaded : Finset Nat) (level column : Nat) : ValidatedMerkleRecord :=
  if InUse count (depth - level) column then
    if Complete count loaded (depth - level) column then
      ⟨nodeValue env leaf count (depth - level) column,
        if depth = 0 then .validated else .tentative⟩
    else ⟨zeroHash, .unknown⟩
  else if column % 2 = 1 ∧ InUse count (depth - level) (column - 1) then
    ⟨hashOfBlockOfZeros env, .validated⟩
  else ⟨zeroHash, .margin⟩

variable {env leaf count depth} {loaded : Finset Nat} {blk level column : Nat}

theorem nodeRecord_complete (used : InUse count (depth - level) column)
    (complete : Complete count loaded (depth - level) column) :
    nodeRecord env leaf count depth loaded level column =
      ⟨nodeValue env leaf count (depth - level) column,
        if depth = 0 then .validated else .tentative⟩ := by
  rw [nodeRecord, if_pos used, if_pos complete]

theorem nodeRecord_incomplete (incomplete : ¬Complete count loaded (depth - level) column) :
    nodeRecord env leaf count depth loaded level column = ⟨zeroHash, .unknown⟩ := by
  have used : InUse count (depth - level) column := by
    by_contra unused
    exact incomplete (complete_of_not_inUse unused)
  rw [nodeRecord, if_pos used, if_neg incomplete]

theorem nodeRecord_child (used : InUse count (depth - level) (2 * (column / 2)))
    (complete : Complete count loaded (depth - level) column) :
    ∃ state, state ≠ .unknown ∧ nodeRecord env leaf count depth loaded level column =
      ⟨nodeValue env leaf count (depth - level) column, state⟩ := by
  by_cases inUse : InUse count (depth - level) column
  · refine ⟨_, ?_, nodeRecord_complete inUse complete⟩
    split <;> exact nofun
  · refine ⟨.validated, nofun, ?_⟩
    rw [nodeRecord, if_neg inUse, if_pos (right_of_not_inUse used inUse), nodeValue,
      columnValue_of_not_inUse inUse]

end Records

/-! ## A block is loaded -/

variable {env : Environment} {leaf : Nat → Hash} {file : ZCachedFile} {loaded : Finset Nat}
  {blk level : Nat}

/-- The tree of a file is that of the blocks that were loaded. -/
def Holds (env : Environment) (leaf : Nat → Hash) (file : ZCachedFile)
    (loaded : Finset Nat) : Prop :=
  ∀ level ≤ file.treeDepth, ∀ column < 2 ^ level, file.tree (node level column) =
    nodeRecord env leaf file.numBlocks file.treeDepth loaded level column

/-- A block is being loaded: its ancestor at a level has got its hash, and the ones above are
still unknown. -/
structure Climbing (env : Environment) (leaf : Nat → Hash) (file : ZCachedFile)
    (loaded : Finset Nat) (blk level : Nat) : Prop where
  aside : ∀ other ≤ file.treeDepth, ∀ column < 2 ^ other,
    level < other ∨ blk / 2 ^ (file.treeDepth - other) ≠ column →
    file.tree (node other column) =
      nodeRecord env leaf file.numBlocks file.treeDepth (insert blk loaded) other column
  above : ∀ other < level, file.tree (file.pathLocation blk other) = ⟨zeroHash, .unknown⟩
  here : file.tree (file.pathLocation blk level) =
    ⟨nodeValue env leaf file.numBlocks (file.treeDepth - level)
      (blk / 2 ^ (file.treeDepth - level)), .unknown⟩
  complete : Complete file.numBlocks (insert blk loaded) (file.treeDepth - level)
    (blk / 2 ^ (file.treeDepth - level))

section Climb

variable (climbing : Climbing env leaf file loaded blk level)
  (used : blk < file.numBlocks) (fits : blk < 2 ^ file.treeDepth)
  (deep : file.treeDepth ≠ 0) (below : level ≤ file.treeDepth)

include climbing used fits deep below

theorem Climbing.marked
    {other column : Nat} (inside : other ≤ file.treeDepth) (bounded : column < 2 ^ other)
    (reached : level ≤ other ∨ blk / 2 ^ (file.treeDepth - other) ≠ column) :
    (file.markAt blk level).tree (node other column) =
      nodeRecord env leaf file.numBlocks file.treeDepth (insert blk loaded) other column := by
  by_cases same : other = level ∧ column = blk / 2 ^ (file.treeDepth - level)
  · obtain ⟨rfl, rfl⟩ := same
    rw [nodeRecord_complete (inUse_of_leaf used) climbing.complete, if_neg deep]
    refine setState_same.trans ?_
    rw [climbing.here]
  · have apart : node other column ≠ file.pathLocation blk level :=
      mt (node_inj bounded (column_lt below fits)).mp same
    rw [setState_other apart]
    refine climbing.aside other inside column bounded ?_
    rcases reached with lower | elsewhere
    · rcases Nat.lt_or_eq_of_le lower with strict | rfl
      · exact .inl strict
      · exact .inr fun here => same ⟨rfl, here.symm⟩
    · exact .inr elsewhere

/-- The climb ends where the ancestors above have to wait for other blocks. -/
theorem Climbing.holds (waits : ∀ other < level, ¬Complete file.numBlocks (insert blk loaded)
      (file.treeDepth - other) (blk / 2 ^ (file.treeDepth - other))) :
    Holds env leaf (file.markAt blk level) (insert blk loaded) := by
  intro other inside column bounded
  by_cases reached : level ≤ other ∨ blk / 2 ^ (file.treeDepth - other) ≠ column
  · exact climbing.marked used fits deep below inside bounded reached
  · obtain ⟨strict, rfl⟩ : other < level ∧ blk / 2 ^ (file.treeDepth - other) = column := by
      rw [not_or, Nat.not_le, not_not] at reached
      exact reached
    have apart : file.pathLocation blk other ≠ file.pathLocation blk level :=
      Nat.ne_of_lt (node_lt_node bounded strict)
    refine (setState_other apart).trans ((climbing.above other strict).trans ?_)
    exact (nodeRecord_incomplete (waits other strict)).symm

end Climb

section Step

variable (climbing : Climbing env leaf file loaded blk (level + 1))
  (used : blk < file.numBlocks) (fits : blk < 2 ^ file.treeDepth)
  (below : level + 1 ≤ file.treeDepth)

include climbing used fits below

omit climbing fits in
theorem path_inUse : InUse file.numBlocks (file.treeDepth - (level + 1) + 1)
    (blk / 2 ^ (file.treeDepth - level)) := by
  have height : file.treeDepth - level = file.treeDepth - (level + 1) + 1 := by omega
  rw [← height]
  exact inUse_of_leaf used

section Child

variable {column : Nat} (same : column / 2 = blk / 2 ^ (file.treeDepth - level))

include same

theorem Climbing.child : (file.markAt blk (level + 1)).tree (node (level + 1) column) =
      nodeRecord env leaf file.numBlocks file.treeDepth (insert blk loaded) (level + 1) column := by
  have bounded : column < 2 ^ (level + 1) := by
    have := column_lt (Nat.le_of_succ_le below) fits
    omega
  exact climbing.marked used fits (Nat.ne_of_gt (Nat.lt_of_lt_of_le (Nat.succ_pos _) below))
    below below bounded (.inl (Nat.le_refl _))

omit climbing fits in
theorem child_inUse : InUse file.numBlocks (file.treeDepth - (level + 1)) (2 * (column / 2)) := by
  rw [same, ← inUse_succ_iff]
  exact path_inUse used below

theorem Climbing.child_known_iff :
    ((file.markAt blk (level + 1)).tree (node (level + 1) column)).state ≠ .unknown ↔
      Complete file.numBlocks (insert blk loaded) (file.treeDepth - (level + 1)) column := by
  rw [climbing.child used fits below same]
  by_cases complete : Complete file.numBlocks (insert blk loaded)
    (file.treeDepth - (level + 1)) column
  · obtain ⟨state, known, found⟩ :=
      @nodeRecord_child env leaf _ _ _ _ _ (child_inUse used below same) complete
    rw [found]
    exact iff_of_true known complete
  · rw [nodeRecord_incomplete complete]
    exact iff_of_false (fun known => known rfl) complete

theorem Climbing.child_hash
    (complete : Complete file.numBlocks (insert blk loaded) (file.treeDepth - (level + 1)) column) :
    ((file.markAt blk (level + 1)).tree (node (level + 1) column)).hash =
      nodeValue env leaf file.numBlocks (file.treeDepth - (level + 1)) column := by
  obtain ⟨state, -, found⟩ :=
    @nodeRecord_child env leaf _ _ _ _ _ (child_inUse used below same) complete
  rw [climbing.child used fits below same, found]

end Child

theorem Climbing.sibling_known_iff : ((file.markAt blk (level + 1)).tree
        (sibling (file.pathLocation blk (level + 1)))).state ≠ .unknown ↔
      Complete file.numBlocks (insert blk loaded) (file.treeDepth - level)
        (blk / 2 ^ (file.treeDepth - level)) := by
  have height : file.treeDepth - level = file.treeDepth - (level + 1) + 1 := by omega
  have here : blk / 2 ^ (file.treeDepth - (level + 1)) / 2 =
      blk / 2 ^ (file.treeDepth - level) := column_succ below
  have self := (climbing.child_known_iff used fits below here).mpr climbing.complete
  have both := @both_children_iff (file.pathLocation blk (level + 1))
    (fun location => ((file.markAt blk (level + 1)).tree
      location).state ≠ .unknown) (node_succ_ne_zero _ _)
  rw [pathLocation_parent below, left_pathLocation, right_pathLocation] at both
  rw [climbing.child_known_iff used fits below (by omega),
    climbing.child_known_iff used fits below (by omega), ← complete_succ_iff, ← height] at both
  exact ⟨fun known => both.mpr ⟨self, known⟩, fun complete => (both.mp complete).2⟩

theorem Climbing.hash_eq
    (complete : Complete file.numBlocks (insert blk loaded) (file.treeDepth - level)
      (blk / 2 ^ (file.treeDepth - level))) :
    env.zhash (((file.markAt blk (level + 1)).tree
          (left (file.pathLocation blk level))).hash.bytes ++
        ((file.markAt blk (level + 1)).tree (right (file.pathLocation blk level))).hash.bytes) =
      nodeValue env leaf file.numBlocks (file.treeDepth - level)
        (blk / 2 ^ (file.treeDepth - level)) := by
  have height : file.treeDepth - level = file.treeDepth - (level + 1) + 1 := by omega
  rw [height, complete_succ_iff, ← height] at complete
  rw [left_pathLocation, right_pathLocation,
    climbing.child_hash used fits below (by omega) complete.1,
    climbing.child_hash used fits below (by omega) complete.2]
  nth_rewrite 3 [height]
  rw [nodeValue, columnValue_succ (path_inUse used below)]

theorem Climbing.next
    (complete : Complete file.numBlocks (insert blk loaded) (file.treeDepth - level)
      (blk / 2 ^ (file.treeDepth - level))) :
    Climbing env leaf ((file.markAt blk (level + 1)).setNode (file.pathLocation blk level)
        ⟨nodeValue env leaf file.numBlocks (file.treeDepth - level)
          (blk / 2 ^ (file.treeDepth - level)), .unknown⟩) loaded blk level := by
  have bounded : blk / 2 ^ (file.treeDepth - level) < 2 ^ level :=
    column_lt (Nat.le_of_succ_le below) fits
  have deep : file.treeDepth ≠ 0 := Nat.ne_of_gt (Nat.lt_of_lt_of_le (Nat.succ_pos _) below)
  refine ⟨?_, ?_, setNode_same, complete⟩
  · intro other inside column room reached
    have apart : node other column ≠ file.pathLocation blk level := by
      intro same
      obtain ⟨rfl, rfl⟩ := (node_inj room bounded).mp same
      rcases reached with lower | elsewhere
      · exact Nat.lt_irrefl _ lower
      · exact elsewhere rfl
    exact (setNode_other apart).trans (climbing.marked used fits deep below inside room reached)
  · intro other strict
    have room : blk / 2 ^ (file.treeDepth - other) < 2 ^ other := column_lt (by omega) fits
    have apart : file.pathLocation blk other ≠ file.pathLocation blk level :=
      Nat.ne_of_lt (node_lt_node room strict)
    have lower : file.pathLocation blk other ≠ file.pathLocation blk (level + 1) :=
      Nat.ne_of_lt (node_lt_node room (Nat.lt_succ_of_lt strict))
    exact (setNode_other apart).trans ((setState_other lower).trans
      (climbing.above other (Nat.lt_succ_of_lt strict)))

end Step

/-- `_mark_node_tentative` goes up as far as all blocks have been loaded. -/
theorem Climbing.markNodeTentative {fuel : Nat} (climbing : Climbing env leaf file loaded blk level)
    (used : blk < file.numBlocks) (fits : blk < 2 ^ file.treeDepth)
    (deep : file.treeDepth ≠ 0) (below : level ≤ file.treeDepth) (enough : level < fuel) :
    ∃ tree, markNodeTentative env fuel file (file.pathLocation blk level) = .ok { file with tree } ∧
      Holds env leaf { file with tree } (insert blk loaded) := by
  induction level generalizing file fuel with
  | zero =>
    obtain ⟨fuel, rfl⟩ := Nat.exists_eq_add_one_of_ne_zero (Nat.ne_of_gt enough)
    have inside := @pathLocation_lt_treeSize file blk 0 below fits
    have root : ¬file.pathLocation blk 0 > 0 := by
      have := @pathLocation_lt file blk 0 below fits
      omega
    have notValid : (file.tree (file.pathLocation blk 0)).state ≠ .validated := by
      rw [climbing.here]
      exact nofun
    refine ⟨_, ?_, climbing.holds used fits deep below nofun⟩
    rw [ZOriginFile.markNodeTentative, ensure_true inside, ok_bind, ensure_true notValid,
      ok_bind, if_neg root]
    rfl
  | succ level induction =>
    obtain ⟨fuel, rfl⟩ := Nat.exists_eq_add_one_of_ne_zero (Nat.ne_of_gt
      (Nat.lt_of_le_of_lt (Nat.zero_le _) enough))
    have inside := @pathLocation_lt_treeSize file blk (level + 1) below fits
    have inner : file.pathLocation blk (level + 1) ≠ 0 := node_succ_ne_zero _ _
    have notValid : (file.tree (file.pathLocation blk (level + 1))).state ≠ .validated := by
      rw [climbing.here]
      exact nofun
    have up : parentLocation (file.pathLocation blk (level + 1)) = file.pathLocation blk level := by
      rw [pathLocation, parentLocation_node, column_succ below, pathLocation]
    have parentUnknown : (file.markAt blk (level + 1)).tree (file.pathLocation blk level) =
        ⟨zeroHash, .unknown⟩ := by
      have apart : file.pathLocation blk level ≠ file.pathLocation blk (level + 1) :=
        Nat.ne_of_lt (node_lt_node (column_lt (Nat.le_of_succ_le below) fits) (Nat.lt_succ_self _))
      exact (setState_other apart).trans (climbing.above level (Nat.lt_succ_self _))
    have sibling_iff := climbing.sibling_known_iff used fits below
    rw [ZOriginFile.markNodeTentative, ensure_true inside, ok_bind, ensure_true notValid,
      ok_bind, if_pos (Nat.pos_of_ne_zero inner)]
    simp only [up, siblingLocation_eq inner, parentUnknown, true_and]
    by_cases complete : Complete file.numBlocks (insert blk loaded)
      (file.treeDepth - level) (blk / 2 ^ (file.treeDepth - level))
    · rw [if_pos (sibling_iff.mpr complete), hashChildren_sibling _ _ inner, ok_bind,
        pathLocation_parent below, climbing.hash_eq used fits below complete]
      exact induction (climbing.next used fits below complete) used fits deep
        (Nat.le_of_succ_le below) (Nat.lt_of_succ_lt_succ enough)
    · rw [if_neg (mt sibling_iff.mp complete)]
      refine ⟨_, rfl, climbing.holds used fits deep below fun other strict all => ?_⟩
      exact complete (all.of_above (by omega))

theorem pathLocation_leaf (file : ZCachedFile) (blk : Nat) :
    file.pathLocation blk file.treeDepth = node file.treeDepth blk := by
  rw [pathLocation, Nat.sub_self, Nat.pow_zero, Nat.div_one]

theorem Holds.climbing (holds : Holds env leaf file loaded) (used : blk < file.numBlocks)
    (fits : blk < 2 ^ file.treeDepth) (absent : blk ∉ loaded) :
    Climbing env leaf (file.setNode (node file.treeDepth blk) ⟨leaf blk, .unknown⟩) loaded
      blk file.treeDepth := by
  refine ⟨?_, ?_, ?_, ?_⟩
  · intro other inside column bounded reached
    have elsewhere := reached.resolve_left (Nat.not_lt.mpr inside)
    have apart : node other column ≠ node file.treeDepth blk := by
      intro same
      obtain ⟨rfl, rfl⟩ := (node_inj bounded fits).mp same
      refine elsewhere ?_
      change column / 2 ^ (file.treeDepth - file.treeDepth) = column
      rw [Nat.sub_self, Nat.pow_zero, Nat.div_one]
    refine (setNode_other apart).trans ((holds other inside column bounded).trans ?_)
    simp only [nodeRecord, complete_insert_iff elsewhere]
    rfl
  · intro other strict
    have bounded := column_lt (Nat.le_of_lt strict) fits
    refine (setNode_other (Nat.ne_of_lt (node_lt_node bounded strict))).trans ?_
    rw [holds other (Nat.le_of_lt strict) _ bounded,
      nodeRecord_incomplete (not_complete used absent)]
  · change (file.setNode (node file.treeDepth blk) ⟨leaf blk, .unknown⟩).tree
        (file.pathLocation blk file.treeDepth) =
      ⟨nodeValue env leaf file.numBlocks (file.treeDepth - file.treeDepth)
        (blk / 2 ^ (file.treeDepth - file.treeDepth)), .unknown⟩
    rw [pathLocation_leaf, setNode_same, Nat.sub_self, Nat.pow_zero, Nat.div_one, nodeValue,
      columnValue_leaf used]
  · change Complete file.numBlocks (insert blk loaded) (file.treeDepth - file.treeDepth)
      (blk / 2 ^ (file.treeDepth - file.treeDepth))
    rw [Nat.sub_self, Nat.pow_zero, Nat.div_one]
    exact complete_leaf

theorem Holds.single (used : blk < file.numBlocks) (fits : blk < 2 ^ file.treeDepth)
    (flat : file.treeDepth = 0) :
    Holds env leaf ((file.setNode 0 ⟨leaf blk, .unknown⟩).setState 0 .validated)
      (insert blk loaded) := by
  have first : blk = 0 := by
    rw [flat] at fits
    exact Nat.lt_one_iff.mp fits
  intro level inside column bounded
  have top : level = 0 := Nat.le_zero.mp (inside.trans (Nat.le_of_eq flat))
  subst top
  have left : column = 0 := Nat.lt_one_iff.mp bounded
  subst left first
  change ((file.setNode 0 ⟨leaf 0, .unknown⟩).setState 0 .validated).tree 0 =
    nodeRecord env leaf file.numBlocks file.treeDepth (insert 0 loaded) 0 0
  have used : InUse file.numBlocks (0 - 0) 0 := by
    exact used
  rw [flat, nodeRecord_complete used complete_leaf, if_pos rfl, setState_same, setNode_same,
    nodeValue, columnValue_leaf (by assumption)]

variable {inData : List UInt8}

theorem loadBlock_of_marks {hash : Hash} {next : ZCachedFile} (fits : blk < 2 ^ file.treeDepth)
    (unknown : file.tree (node file.treeDepth blk) = ⟨zeroHash, .unknown⟩)
    (room : inData.length ≤ blockSize) (hashed : hash = env.zhash (zeroPadded inData))
    (marks : markNodeOnBlockLoad env (file.setNode (node file.treeDepth blk)
      ⟨hash, .unknown⟩) (node file.treeDepth blk) = .ok next) (cache : ZBlockCache) :
    ∃ cache', loadBlock env (file, cache) blk inData = .ok (next, cache') := by
  have found : treeIndex file.treeDepth blk file.treeSize = .ok (node file.treeDepth blk) :=
    treeIndex_eq (Nat.le_refl _) fits
  have waits : (file.tree (node file.treeDepth blk)).state ≠ .validated := by
    rw [unknown]
    decide
  have state : ValidityState.unknown = (file.tree (node file.treeDepth blk)).state := by
    rw [unknown]
  rw [hashed, state] at marks
  exact ⟨_, bind_eq_ok_iff.mpr ⟨_, dif_pos room, bind_eq_ok_iff.mpr ⟨_, found,
    (if_neg waits).trans (bind_eq_ok_iff.mpr ⟨next, marks, rfl⟩)⟩⟩⟩

theorem Holds.loadBlock (holds : Holds env leaf file loaded) (used : blk < file.numBlocks)
    (fits : blk < 2 ^ file.treeDepth) (absent : blk ∉ loaded)
    (room : inData.length ≤ blockSize) (hashed : leaf blk = env.zhash (zeroPadded inData))
    (cache : ZBlockCache) :
    ∃ tree cache', loadBlock env (file, cache) blk inData = .ok ({ file with tree }, cache') ∧
      Holds env leaf { file with tree } (insert blk loaded) := by
  have unknown : file.tree (node file.treeDepth blk) = ⟨zeroHash, .unknown⟩ := by
    have waits : ¬Complete file.numBlocks loaded (file.treeDepth - file.treeDepth) blk := by
      have waiting := @not_complete file.numBlocks 0 blk loaded used absent
      rw [Nat.pow_zero, Nat.div_one] at waiting
      rw [Nat.sub_self]
      exact waiting
    rw [holds _ (Nat.le_refl _) _ fits, nodeRecord_incomplete waits]
  by_cases flat : file.treeDepth = 0
  · have root : node file.treeDepth blk = 0 := by
      rw [flat] at fits
      rw [flat, Nat.lt_one_iff.mp fits]
      rfl
    have marks : markNodeOnBlockLoad env (file.setNode (node file.treeDepth blk)
        ⟨leaf blk, .unknown⟩) (node file.treeDepth blk) =
        .ok ((file.setNode 0 ⟨leaf blk, .unknown⟩).setState 0 .validated) := by
      rw [root, markNodeOnBlockLoad, if_pos rfl]
    obtain ⟨cache', loads⟩ := loadBlock_of_marks fits unknown room hashed marks cache
    exact ⟨_, cache', loads, Holds.single used fits flat⟩
  · have inner : node file.treeDepth blk ≠ 0 := by
      obtain ⟨above, depth⟩ := Nat.exists_eq_add_one_of_ne_zero flat
      rw [depth]
      exact node_succ_ne_zero _ _
    have enough : file.treeDepth < node file.treeDepth blk + 1 := by
      have := @Nat.lt_two_pow_self file.treeDepth
      have := le_node file.treeDepth blk
      omega
    obtain ⟨tree, climbs, grown⟩ := (holds.climbing used fits absent).markNodeTentative used
      fits flat (Nat.le_refl _) enough
    have marks : markNodeOnBlockLoad env (file.setNode (node file.treeDepth blk)
        ⟨leaf blk, .unknown⟩) (node file.treeDepth blk) = .ok { file with tree } := by
      change ZOriginFile.markNodeTentative env _ _ (file.pathLocation blk file.treeDepth) = _
        at climbs
      rw [pathLocation_leaf] at climbs
      rw [markNodeOnBlockLoad, if_neg inner]
      exact climbs
    obtain ⟨cache', loads⟩ := loadBlock_of_marks fits unknown room hashed marks cache
    exact ⟨tree, cache', loads, grown⟩

theorem Holds.loadBlocks
    {blocks : Nat → List UInt8} {order : List Nat} (holds : Holds env leaf file loaded)
    (used : ∀ blk ∈ order, blk < file.numBlocks)
    (fits : file.numBlocks ≤ 2 ^ file.treeDepth)
    (once : order.Nodup) (absent : ∀ blk ∈ order, blk ∉ loaded)
    (room : ∀ blk ∈ order, (blocks blk).length ≤ blockSize)
    (hashed : ∀ blk ∈ order, leaf blk = env.zhash (zeroPadded (blocks blk)))
    (cache : ZBlockCache) :
    ∃ tree cache', order.foldlM (fun state blockNum =>
        ZOriginFile.loadBlock env state blockNum (blocks blockNum)) (file, cache) =
          .ok ({ file with tree }, cache') ∧
      Holds env leaf { file with tree } (loaded ∪ order.toFinset) := by
  induction order generalizing file loaded cache with
  | nil => exact ⟨file.tree, cache, rfl, by rwa [toFinset_nil, Finset.union_empty]⟩
  | cons blk order induction =>
    have here : blk ∈ blk :: order := mem_cons_self
    obtain ⟨tree, next, loads, grown⟩ := holds.loadBlock (used blk here)
      (Nat.lt_of_lt_of_le (used blk here) fits) (absent blk here) (room blk here)
      (hashed blk here) cache
    rw [nodup_cons] at once
    have later : ∀ other ∈ order, other ∉ insert blk loaded := by
      intro other member
      rw [Finset.mem_insert, not_or]
      exact ⟨fun same => once.1 (same ▸ member), absent other (mem_cons_of_mem _ member)⟩
    obtain ⟨last, cache', rest, all⟩ := induction grown
      (fun other member => used other (mem_cons_of_mem _ member)) fits once.2 later
      (fun other member => room other (mem_cons_of_mem _ member))
      (fun other member => hashed other (mem_cons_of_mem _ member)) next
    refine ⟨last, cache', ?_, ?_⟩
    · rw [foldlM_cons, loads, ok_bind]
      exact rest
    · rw [toFinset_cons, Finset.union_insert, ← Finset.insert_union]
      exact all

/-! ## The constructor -/

theorem foldl_setState (file : ZCachedFile) (locations : List Nat) (state : ValidityState) :
    locations.foldl (fun file location => file.setState location state) file =
      { file with tree := fun location =>
          if location ∈ locations then ⟨(file.tree location).hash, state⟩
          else file.tree location } := by
  induction locations generalizing file with
  | nil => rfl
  | cons first locations induction =>
    rw [foldl_cons, induction]
    refine congrArg (fun tree => ({ file with tree } : ZCachedFile)) (funext fun location => ?_)
    by_cases same : location = first
    · subst same
      rw [setState_same, if_pos mem_cons_self, ite_self]
    · rw [setState_other same]
      simp only [mem_cons, same, false_or]

theorem mem_margin_iff {column place row : Nat} (inside : column < 2 ^ level) :
    node level column ∈ range' (node row place)
        (node row (2 ^ row - 1) + 1 - node row place) ↔ level = row ∧ place ≤ column := by
  have positive := Nat.two_pow_pos row
  have length : node row (2 ^ row - 1) + 1 - node row place = 2 ^ row - place := by
    rw [node, node]
    omega
  rw [length, mem_range'_1]
  rcases Nat.lt_trichotomy level row with above | rfl | below
  · have := @node_lt_node level column place row inside above
    omega
  · simp only [node, true_and]
    omega
  · have := @node_lt_node row (2 ^ row - 1) column level (by omega) below
    omega

theorem not_complete_empty {count height column : Nat} (used : InUse count height column) :
    ¬Complete count ∅ height column := by
  intro complete
  have := complete (column * 2 ^ height) used (Nat.mul_div_left _ (Nat.two_pow_pos _))
  exact absurd this (Finset.notMem_empty _)

theorem nodeRecord_empty (env : Environment) (leaf : Nat → Hash) (count depth level column : Nat) :
    nodeRecord env leaf count depth ∅ level column =
      if InUse count (depth - level) column then ⟨zeroHash, .unknown⟩
      else if column % 2 = 1 ∧ InUse count (depth - level) (column - 1) then
        ⟨hashOfBlockOfZeros env, .validated⟩
      else ⟨zeroHash, .margin⟩ := by
  rw [nodeRecord]
  split
  · rename_i used
    rw [if_neg (not_complete_empty used)]
  · rfl

theorem fillMargin_eq (file : ZCachedFile) {row : Nat} (place : Nat)
    (below : row ≤ file.treeDepth) :
    ∃ tree, (do
        let endRow ← treeIndex row (2 ^ row - 1) file.treeSize
        return (range' (node row place) (endRow + 1 - node row place)).foldl
          (fun (file : ZCachedFile) margin => file.setState margin .margin) file) =
          (.ok { file with tree } : Except Fault ZCachedFile) ∧
      ∀ other column, column < 2 ^ other → tree (node other column) =
        if other = row ∧ place ≤ column then
          ⟨(file.tree (node other column)).hash, .margin⟩
        else file.tree (node other column) := by
  have endRow : treeIndex row (2 ^ row - 1) file.treeSize = .ok (node row (2 ^ row - 1)) :=
    treeIndex_eq below (Nat.sub_lt (Nat.two_pow_pos _) Nat.one_pos)
  rw [endRow, ok_bind, foldl_setState]
  refine ⟨_, rfl, fun other column inside => ?_⟩
  simp only [mem_margin_iff inside]

/-- What `_fill_in_sibling_hashes` makes of a level. -/
theorem fillLevel_eq
    {lastcol : Nat} (below : level + 1 ≤ file.treeDepth) (inside : lastcol < 2 ^ (level + 1))
    (last : (file.numBlocks - 1) / 2 ^ (file.treeDepth - (level + 1)) = lastcol) :
    ∃ tree, fillLevel env file (level + 1) = .ok { file with tree } ∧
      ∀ other column, column < 2 ^ other → tree (node other column) =
        if other = level + 1 ∧ lastcol < column then
          if column = lastcol + 1 ∧ column % 2 = 1 then
            ⟨hashOfBlockOfZeros env, .validated⟩
          else ⟨(file.tree (node other column)).hash, .margin⟩
        else file.tree (node other column) := by
  have lastloc : treeIndex (level + 1) lastcol file.treeSize = .ok (node (level + 1) lastcol) :=
    treeIndex_eq below inside
  have sibling_eq := siblingLocation_eq (node_succ_ne_zero level lastcol)
  rw [fillLevel, last, lastloc, ok_bind]
  rcases Nat.mod_two_eq_zero_or_one lastcol with even | odd
  · have stranded : siblingLocation (node (level + 1) lastcol) =
        node (level + 1) (lastcol + 1) := by
      rw [sibling_eq, sibling_node_of_even even]
    have after : node (level + 1) (lastcol + 1) > node (level + 1) lastcol := by
      rw [node, node]
      omega
    have room : lastcol + 1 < 2 ^ (level + 1) := by
      omega
    simp only [stranded, if_pos after]
    obtain ⟨tree, fills, margin⟩ := fillMargin_eq (file.setNode (node (level + 1) (lastcol + 1))
      ⟨hashOfBlockOfZeros env, .validated⟩) (lastcol + 2) below
    refine ⟨tree, fills, fun other column bounded => ?_⟩
    rw [margin other column bounded]
    by_cases same : other = level + 1 ∧ column = lastcol + 1
    · obtain ⟨rfl, rfl⟩ := same
      rw [setNode_same, if_neg (by omega), if_pos (by omega), if_pos (by omega)]
    · rw [setNode_other (mt (node_inj bounded room).mp same)]
      split_ifs <;> first | rfl | omega
  · have paired : siblingLocation (node (level + 1) lastcol) = node (level + 1) (lastcol - 1) := by
      rw [sibling_eq, sibling_node_of_odd odd]
    have before : ¬node (level + 1) (lastcol - 1) > node (level + 1) lastcol := by
      rw [node, node]
      omega
    simp only [paired, if_neg before]
    obtain ⟨tree, fills, margin⟩ := fillMargin_eq file (lastcol + 1) below
    refine ⟨tree, fills, fun other column bounded => ?_⟩
    rw [margin other column bounded]
    split_ifs <;> first | rfl | omega

/-- The levels down to one have been filled in. -/
def Filled (env : Environment) (leaf : Nat → Hash) (file : ZCachedFile) (last : Nat) : Prop :=
  ∀ level ≤ file.treeDepth, ∀ column < 2 ^ level, file.tree (node level column) =
    if level ≤ last then nodeRecord env leaf file.numBlocks file.treeDepth ∅ level column
    else ⟨zeroHash, .unknown⟩

section Levels

variable (positive : 0 < file.numBlocks) (fits : file.numBlocks ≤ 2 ^ file.treeDepth)

include positive fits

theorem Filled.fillLevel (filled : Filled env leaf file level)
    (below : level + 1 ≤ file.treeDepth) :
    ∃ tree, fillLevel env file (level + 1) = .ok { file with tree } ∧
      Filled env leaf { file with tree } (level + 1) := by
  obtain ⟨tree, fills, records⟩ := @fillLevel_eq env file level _ below
    (column_lt below (by omega)) rfl
  refine ⟨tree, fills, fun other inside column bounded => ?_⟩
  have inUse_iff : ∀ column, InUse file.numBlocks (file.treeDepth - (level + 1)) column ↔
      column ≤ (file.numBlocks - 1) / 2 ^ (file.treeDepth - (level + 1)) :=
    fun column => inUse_iff_le positive
  change tree (node other column) = if other ≤ level + 1 then
    nodeRecord env leaf file.numBlocks file.treeDepth ∅ other column else _
  rw [records other column bounded, filled other inside column bounded]
  by_cases same : other = level + 1
  · subst same
    rw [if_neg (Nat.not_succ_le_self level), if_pos (Nat.le_refl _), nodeRecord_empty]
    simp only [inUse_iff, true_and]
    split_ifs <;> first | rfl | omega
  · rw [if_neg fun both => same both.1]
    by_cases lower : other ≤ level
    · rw [if_pos lower, if_pos (Nat.le_succ_of_le lower)]
    · rw [if_neg lower, if_neg (by omega)]

theorem Filled.fillLevels {levels : Nat} (filled : Filled env leaf file level)
    (rest : level + levels = file.treeDepth) :
    ∃ tree, (List.range' (level + 1) levels).foldlM (ZOriginFile.fillLevel env) file =
        .ok { file with tree } ∧ Filled env leaf { file with tree } file.treeDepth := by
  induction levels generalizing file level with
  | zero => exact ⟨file.tree, rfl, by rwa [← rest]⟩
  | succ levels induction =>
    obtain ⟨tree, fills, next⟩ := filled.fillLevel positive fits (by omega)
    obtain ⟨last, run, all⟩ := @induction { file with tree } _ positive fits next
      (show level + 1 + levels = file.treeDepth by omega)
    refine ⟨last, ?_, all⟩
    rw [range'_succ, foldlM_cons, fills, ok_bind]
    exact run

/-- `_fill_in_sibling_hashes` leaves the tree of no blocks. -/
theorem fillInSiblingHashes_holds (leaf : Nat → Hash)
    (empty : ∀ location, file.tree location = ⟨zeroHash, .unknown⟩) :
    ∃ tree, fillInSiblingHashes env file = .ok { file with tree } ∧
      Holds env leaf { file with tree } ∅ := by
  have filled : Filled env leaf file 0 := by
    intro level inside column bounded
    rw [empty]
    by_cases root : level ≤ 0
    · obtain rfl := Nat.le_zero.mp root
      obtain rfl := Nat.lt_one_iff.mp bounded
      have used : InUse file.numBlocks (file.treeDepth - 0) 0 := by
        rw [InUse, Nat.zero_mul]
        exact positive
      rw [if_pos root, nodeRecord_empty, if_pos used]
    · rw [if_neg root]
  obtain ⟨tree, fills, all⟩ := filled.fillLevels positive fits (Nat.zero_add _)
  refine ⟨tree, ?_, fun level inside column bounded => ?_⟩
  · rw [fillInSiblingHashes, if_neg (Nat.ne_of_gt positive)]
    exact fills
  · exact (all level inside column bounded).trans (if_pos inside)

end Levels

end ZOriginFile

end Embassies.Zftp
