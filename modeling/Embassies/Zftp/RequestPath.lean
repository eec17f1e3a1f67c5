import Embassies.Zftp.RequestBuilder
import Mathlib.Data.Finset.Card
import Mathlib.Data.Finset.Dedup
import Mathlib.Data.Nat.Bitwise

/-!
# The hashes on the way to the root

`request_hash_ancestors` asks for the unknown hashes on the way from a leaf to the root,
with their siblings, and stops where a hash is known or was asked for before.  Nothing is
lost by that: the locations that were asked for are closed under siblings and under unknown
parents, so whatever is above has been asked for as well.
-/

namespace Embassies.Zftp

open Library Library.Checked Library.HeapTree List

theorem siblingLocation_eq {location : Nat} (notRoot : location ≠ 0) :
    siblingLocation location = sibling location := by
  rw [siblingLocation]
  rcases eq_left_or_right notRoot with same | same
  · rw [same, sibling_left, left, right, Nat.xor_one_of_even (by grind)]
    omega
  · rw [same, sibling_right, left, right, Nat.xor_one_of_odd (by grind)]
    omega

section Index

variable {level column depth treeSize : Nat}

theorem treeIndex_eq_node (inside : column < 2 ^ level) (fits : node level column < treeSize) :
    treeIndex level column treeSize = .ok (node level column) := by
  rw [treeIndex, computeTreeLocation_eq inside, ok_bind]
  exact bind_eq_ok_iff.mpr ⟨(), ensure_true fits, rfl⟩

theorem treeIndex_eq (below : level ≤ depth) (inside : column < 2 ^ level) :
    treeIndex level column (computeTreeSize depth) = .ok (node level column) := by
  have deep := Nat.pow_le_pow_right Nat.two_pos (Nat.succ_le_succ below)
  exact treeIndex_eq_node inside (Nat.lt_of_lt_of_le (node_lt inside) (Nat.sub_le_sub_right deep 1))

end Index

namespace ZCachedFile

/-- A location whose hash is not known. -/
def Unknown (file : ZCachedFile) (location : Nat) : Prop :=
  (file.tree location).state = .unknown

instance (file : ZCachedFile) (location : Nat) : Decidable (file.Unknown location) :=
  inferInstanceAs (Decidable (_ = _))

/-- Siblings are known together. -/
def Paired (file : ZCachedFile) : Prop :=
  ∀ location, location ≠ 0 → location < file.treeSize →
    (file.Unknown location ↔ file.Unknown (siblingLocation location))

/-- The location above a block at a level. -/
def pathLocation (file : ZCachedFile) (blk level : Nat) : Nat :=
  node level (blk / 2 ^ (file.treeDepth - level))

/-- The unknown locations from a level up to the first known one, with their siblings. -/
def unknownPath (file : ZCachedFile) (blk : Nat) : Nat → List Nat
  | 0 => []
  | level + 1 =>
    let location := file.pathLocation blk (level + 1)
    if file.Unknown location then
      sibling location :: location :: file.unknownPath blk level
    else []

/-- The hashes that have to be asked for to validate a block. -/
def unknownAncestors (file : ZCachedFile) (blk : Nat) : Finset Nat :=
  (file.unknownPath blk file.treeDepth).toFinset

/-- A set of locations that were asked for, with everything above them. -/
structure Closed (file : ZCachedFile) (asked : Finset Nat) : Prop where
  notRoot : ∀ location ∈ asked, location ≠ 0
  siblings : ∀ location ∈ asked, sibling location ∈ asked
  parents : ∀ location ∈ asked, parent location ≠ 0 → file.Unknown (parent location) →
    parent location ∈ asked

variable {file : ZCachedFile} {blk level : Nat} {asked : Finset Nat}

theorem pathLocation_parent (below : level + 1 ≤ file.treeDepth) :
    parent (file.pathLocation blk (level + 1)) = file.pathLocation blk level := by
  rw [pathLocation, parent_node, column_succ below, pathLocation]

theorem pathLocation_lt (below : level ≤ file.treeDepth) (leaf : blk < 2 ^ file.treeDepth) :
    file.pathLocation blk level < 2 ^ (level + 1) - 1 :=
  node_lt (column_lt below leaf)

theorem pathLocation_lt_treeSize
    (below : level ≤ file.treeDepth) (leaf : blk < 2 ^ file.treeDepth) :
    file.pathLocation blk level < file.treeSize := by
  have inside := @pathLocation_lt file blk level below leaf
  have := Nat.pow_le_pow_right Nat.two_pos (Nat.succ_le_succ below)
  rw [treeSize, computeTreeSize]
  omega

/-- A location that was asked for brings its unknown ancestors with it. -/
theorem Closed.unknownPath_subset (closed : file.Closed asked) (below : level ≤ file.treeDepth)
    (member : file.pathLocation blk level ∈ asked) :
    ∀ location ∈ file.unknownPath blk level, location ∈ asked := by
  induction level with
  | zero => exact fun _ none => nomatch none
  | succ level induction =>
    intro location listed
    rw [unknownPath] at listed
    split at listed
    · rcases mem_cons.mp listed with rfl | listed
      · exact closed.siblings _ member
      · rcases mem_cons.mp listed with rfl | listed
        · exact member
        · refine induction (by omega) ?_ location listed
          -- there is something above, so the parent is neither the root nor known
          cases level with
          | zero => exact nomatch listed
          | succ above =>
            have unknown : file.Unknown (file.pathLocation blk (above + 1)) := by
              by_contra known
              rw [unknownPath, if_neg known] at listed
              exact nomatch listed
            rw [← pathLocation_parent below] at unknown ⊢
            refine closed.parents _ member ?_ unknown
            rw [pathLocation_parent below]
            exact node_succ_ne_zero _ _
    · exact nomatch listed

theorem Closed.empty : file.Closed ∅ := ⟨fun _ none => absurd none (Finset.notMem_empty _),
    fun _ none => absurd none (Finset.notMem_empty _),
    fun _ none => absurd none (Finset.notMem_empty _)⟩

theorem Closed.union
    {others : Finset Nat} (closed : file.Closed asked) (otherClosed : file.Closed others) :
    file.Closed (asked ∪ others) := by
  refine ⟨?_, ?_, ?_⟩
  all_goals simp only [Finset.mem_union]
  · rintro location (member | member)
    · exact closed.notRoot location member
    · exact otherClosed.notRoot location member
  · rintro location (member | member)
    · exact .inl (closed.siblings location member)
    · exact .inr (otherClosed.siblings location member)
  · rintro location (member | member) above unknown
    · exact .inl (closed.parents location member above unknown)
    · exact .inr (otherClosed.parents location member above unknown)

theorem unknownPath_closed (leaf : blk < 2 ^ file.treeDepth) (below : level ≤ file.treeDepth) :
    file.Closed (file.unknownPath blk level).toFinset := by
  induction level with
  | zero => exact Closed.empty
  | succ level induction =>
    have rest := induction (by omega)
    have parent_eq := @pathLocation_parent file blk level below
    have notRoot : file.pathLocation blk (level + 1) ≠ 0 := node_succ_ne_zero _ _
    -- the parent of this pair comes next on the way up
    have next : file.pathLocation blk level ≠ 0 → file.Unknown (file.pathLocation blk level) →
        file.pathLocation blk level ∈ file.unknownPath blk level := by
      intro above unknown
      cases level with
      | zero =>
        rw [pathLocation, node, Nat.sub_zero, Nat.div_eq_of_lt leaf] at above
        exact absurd rfl above
      | succ level =>
        rw [unknownPath, if_pos unknown]
        exact mem_cons_of_mem _ mem_cons_self
    rw [unknownPath]
    generalize file.pathLocation blk (level + 1) = location at *
    split
    · refine ⟨?_, ?_, ?_⟩
      all_goals simp only [toFinset_cons, Finset.mem_insert]
      · rintro other (rfl | rfl | member)
        · exact sibling_ne_zero _
        · exact notRoot
        · exact rest.notRoot other member
      · rintro other (rfl | rfl | member)
        · exact .inr (.inl (sibling_sibling notRoot))
        · exact .inl rfl
        · exact .inr (.inr (rest.siblings other member))
      · rintro other (rfl | rfl | member) above unknown
        · rw [parent_sibling, parent_eq] at *
          exact .inr (.inr (mem_toFinset.mpr (next above unknown)))
        · rw [parent_eq] at *
          exact .inr (.inr (mem_toFinset.mpr (next above unknown)))
        · exact .inr (.inr (rest.parents other member above unknown))
    · exact Closed.empty

theorem unknownAncestors_card_le (file : ZCachedFile) (blk : Nat) :
    (file.unknownAncestors blk).card ≤ 2 * file.treeDepth := by
  have bounded : ∀ level, (file.unknownPath blk level).length ≤ 2 * level := by
    intro level
    induction level with
    | zero => exact Nat.le_refl _
    | succ level induction =>
      rw [unknownPath]
      split
      · rw [length_cons, length_cons]
        omega
      · exact Nat.zero_le _
  exact (toFinset_card_le _).trans (bounded _)

end ZCachedFile

namespace RequestBuilder

variable {file : ZCachedFile} {builder : RequestBuilder} {blk level : Nat}

/-- The locations that were asked for. -/
def asked (builder : RequestBuilder) : Finset Nat :=
  (builder.committedTreeLocations ++ builder.tentativeTreeLocations).toFinset

/-- No location was asked for twice. -/
def Distinct (builder : RequestBuilder) : Prop :=
  (builder.committedTreeLocations ++ builder.tentativeTreeLocations).Nodup

/-- A builder that has tentatively asked for more. -/
structure Extends (builder next : RequestBuilder) : Prop where
  distinct : next.Distinct
  committed : next.committedTreeLocations = builder.committedTreeLocations
  range : next.requestRange = builder.requestRange

theorem Extends.trans {middle next : RequestBuilder} (first : builder.Extends middle)
    (second : middle.Extends next) : builder.Extends next :=
  ⟨second.distinct, second.committed.trans first.committed, second.range.trans first.range⟩

theorem mem_asked {location : Nat} :
    location ∈ builder.asked ↔ location ∈ builder.committedTreeLocations ∨
      location ∈ builder.tentativeTreeLocations := by
  rw [asked, mem_toFinset, mem_append]

theorem requestHash_spec {location : Nat} (distinct : builder.Distinct) :
    builder.Extends (builder.requestHash file location).1 ∧
      (builder.requestHash file location).1.asked =
        (if file.Unknown location then insert location builder.asked else builder.asked) ∧
      ((builder.requestHash file location).2 = true ↔
        location ∉ builder.asked ∧ file.Unknown location) := by
  have novel_iff : (location ∉ builder.committedTreeLocations ∧
      location ∉ builder.tentativeTreeLocations ∧
      (file.tree location).state = .unknown) ↔
      location ∉ builder.asked ∧ file.Unknown location := by
    rw [mem_asked, not_or, and_assoc]
    rfl
  by_cases novel : location ∉ builder.asked ∧ file.Unknown location
  · have order : (builder.committedTreeLocations ++
        builder.tentativeTreeLocations.orderedInsert (· ≤ ·) location).Perm
        (location :: (builder.committedTreeLocations ++ builder.tentativeTreeLocations)) :=
      ((perm_orderedInsert _ _ _).append_left _).trans perm_middle
    have fresh : location ∉ builder.committedTreeLocations ++ builder.tentativeTreeLocations := by
      rw [mem_append, ← mem_asked]
      exact novel.1
    rw [requestHash, if_pos (novel_iff.mpr novel), if_pos novel.2]
    refine ⟨⟨?_, rfl, rfl⟩, ?_, iff_of_true rfl novel⟩
    · exact order.nodup_iff.mpr (nodup_cons.mpr ⟨fresh, distinct⟩)
    · rw [asked, asked, toFinset_eq_of_perm _ _ order, toFinset_cons]
  · rw [requestHash, if_neg (mt novel_iff.mp novel)]
    refine ⟨⟨distinct, rfl, rfl⟩, ?_, iff_of_false Bool.false_ne_true novel⟩
    split
    · rename_i unknown
      have present : location ∈ builder.asked := by
        by_contra absent
        exact novel ⟨absent, unknown⟩
      rw [Finset.insert_eq_of_mem present]
    · rfl

/-- `request_hash_ancestors` asks for the unknown locations on the way from a level up,
when the locations that were asked for are closed but for deeper levels. -/
theorem requestAncestorsFrom_spec
    {base : Finset Nat} (paired : file.Paired) (leaf : blk < 2 ^ file.treeDepth)
    (below : level ≤ file.treeDepth) (distinct : builder.Distinct)
    (closed : file.Closed base) (contained : base ⊆ builder.asked)
    (deeper : ∀ location ∈ builder.asked, location ∈ base ∨ 2 ^ (level + 1) - 1 ≤ location) :
    ∃ next, requestAncestorsFrom file blk level builder = .ok next ∧ builder.Extends next ∧
      next.asked = builder.asked ∪ (file.unknownPath blk level).toFinset := by
  induction level generalizing builder with
  | zero =>
    exact ⟨builder, rfl, ⟨distinct, rfl, rfl⟩, by simp [ZCachedFile.unknownPath]⟩
  | succ level induction =>
    have inside := @ZCachedFile.pathLocation_lt file blk (level + 1) below leaf
    have inTree := @ZCachedFile.pathLocation_lt_treeSize file blk (level + 1) below leaf
    have notRoot : file.pathLocation blk (level + 1) ≠ 0 := node_succ_ne_zero _ _
    have index : treeIndex (level + 1) (blk / 2 ^ (file.treeDepth - (level + 1)))
        file.treeSize = .ok (file.pathLocation blk (level + 1)) :=
      treeIndex_eq below (column_lt below leaf)
    have both := paired _ notRoot inTree
    have subset := @ZCachedFile.Closed.unknownPath_subset file blk (level + 1) base closed below
    rw [siblingLocation_eq notRoot] at both
    rw [requestAncestorsFrom, index, ok_bind, siblingLocation_eq notRoot]
    rw [ZCachedFile.unknownPath] at subset ⊢
    have low : 2 ^ (level + 1) - 1 ≤ file.pathLocation blk (level + 1) := le_node _ _
    have lowSibling : 2 ^ (level + 1) - 1 ≤
        sibling (file.pathLocation blk (level + 1)) := le_sibling_node _ _
    generalize file.pathLocation blk (level + 1) = location at *
    obtain ⟨firstExtends, firstAsked, -⟩ :=
      @requestHash_spec file builder (sibling location) distinct
    dsimp only
    generalize builder.requestHash file (sibling location) = first at *
    obtain ⟨secondExtends, secondAsked, secondNovel⟩ :=
      @requestHash_spec file first.1 location firstExtends.distinct
    generalize first.1.requestHash file location = second at *
    have grows := firstExtends.trans secondExtends
    by_cases unknown : file.Unknown location
    · rw [if_pos (both.mp unknown)] at firstAsked
      rw [if_pos unknown, firstAsked] at secondAsked
      rw [if_pos unknown] at subset ⊢
      by_cases before : location ∈ base
      · have stops : second.2 = false := by
          rw [← Bool.not_eq_true, secondNovel, firstAsked]
          exact fun novel => novel.1 (Finset.mem_insert_of_mem (contained before))
        rw [stops]
        refine ⟨second.1, rfl, grows, ?_⟩
        rw [secondAsked, Finset.insert_eq_of_mem (contained (closed.siblings _ before)),
          Finset.insert_eq_of_mem (contained before), eq_comm, Finset.union_eq_left]
        intro other member
        exact contained (subset before other (mem_toFinset.mp member))
      · have absent : location ∉ first.1.asked := by
          rw [firstAsked, Finset.mem_insert, not_or]
          refine ⟨(sibling_ne location).symm, fun member => ?_⟩
          rcases deeper location member with early | deep
          · exact before early
          · omega
        rw [secondNovel.mpr ⟨absent, unknown⟩]
        obtain ⟨next, found, more, all⟩ := @induction second.1 (by omega) secondExtends.distinct (by
            rw [secondAsked]
            exact contained.trans ((Finset.subset_insert _ _).trans (Finset.subset_insert _ _))) (by
            intro other member
            rw [secondAsked, Finset.mem_insert, Finset.mem_insert] at member
            rcases member with rfl | rfl | member
            · exact .inr low
            · exact .inr lowSibling
            · exact (deeper other member).imp_right fun deep => by omega)
        refine ⟨next, found, grows.trans more, ?_⟩
        rw [all, secondAsked, toFinset_cons, toFinset_cons, Finset.union_insert,
          Finset.union_insert, Finset.insert_union, Finset.insert_union, Finset.insert_comm]
    · rw [if_neg (mt both.mpr unknown)] at firstAsked
      rw [if_neg unknown, firstAsked] at secondAsked
      have stops : second.2 = false := by
        rw [← Bool.not_eq_true, secondNovel]
        exact fun novel => unknown novel.2
      rw [stops, if_neg unknown]
      exact ⟨second.1, rfl, grows, by rw [secondAsked, toFinset_nil, Finset.union_empty]⟩

theorem requestHashAncestors_spec
    (paired : file.Paired) (leaf : blk < 2 ^ file.treeDepth) (distinct : builder.Distinct)
    (closed : file.Closed builder.asked) :
    ∃ next, builder.requestHashAncestors file blk = .ok next ∧ builder.Extends next ∧
      next.asked = builder.asked ∪ file.unknownAncestors blk :=
  requestAncestorsFrom_spec paired leaf (Nat.le_refl _) distinct closed
    (Finset.Subset.refl _) fun _ member => .inl member

theorem commit_perm (builder : RequestBuilder) : builder.commit.committedTreeLocations.Perm
      (builder.committedTreeLocations ++ builder.tentativeTreeLocations) := by
  rw [commit]
  generalize builder.committedTreeLocations = committed
  induction builder.tentativeTreeLocations generalizing committed with
  | nil => rw [append_nil, foldl_nil]
  | cons location rest induction =>
    refine (induction _).trans ?_
    exact ((perm_orderedInsert _ _ _).append_right _).trans perm_middle.symm

end RequestBuilder

end Embassies.Zftp
