import Embassies.Kvm.AllocatorSound

/-!
# What allocating and freeing do to the allocated ranges

An allocation adds one element to the tree of allocated ranges.  A free cuts
elements: it replaces an element by what is left of it on both sides of a part
that becomes free.
-/

namespace Embassies.Kvm

open Library Library.Checked List SearchTree

namespace CoalescingAllocator

variable {choice : Choice} {allocator next : CoalescingAllocator}
  {spare : List Range} {range : Range} {elt : RangeByStartElt} {size : UInt32}
  {userObj : Nat}

/-! ## Cutting a range -/

/-- A range, unless it has no bytes. -/
def kept (range : Range) : List Range :=
  if range.start < range.finish then [range] else []

theorem kept_of_lt (nonempty : range.start < range.finish) : kept range = [range] := if_pos nonempty

theorem mem_kept {part : Range} :
    part ∈ kept range ↔ part = range ∧ range.start < range.finish := by
  rw [kept]
  split
  · rename_i nonempty
    rw [mem_singleton, and_iff_left nonempty]
  · rename_i empty
    simp [empty]

theorem tidy_thirds {start left right finish : UInt32} (bound : finish.toNat < 2 ^ 31)
    (second : left ≤ right) (third : right ≤ finish) :
    Tidy (kept ⟨start, left⟩ ++ (kept ⟨left, right⟩ ++ kept ⟨right, finish⟩)) := by
  rw [UInt32.le_iff_toNat_le] at second third
  constructor
  · intro part member
    simp only [mem_append, mem_kept] at member
    rcases member with ⟨rfl, nonempty⟩ | ⟨rfl, nonempty⟩ | ⟨rfl, nonempty⟩
    · exact ⟨nonempty, by simp only; omega⟩
    · exact ⟨nonempty, by simp only; omega⟩
    · exact ⟨nonempty, bound⟩
  · have alone : ∀ range, (kept range).Pairwise Range.Apart := by
      intro range
      rw [kept]
      split
      · exact pairwise_singleton _ _
      · exact .nil
    rw [pairwise_append, pairwise_append]
    refine ⟨alone _, ⟨alone _, alone _, ?_⟩, ?_⟩
    · intro one oneIn other otherIn
      obtain ⟨rfl, -⟩ := mem_kept.mp oneIn
      obtain ⟨rfl, -⟩ := mem_kept.mp otherIn
      exact .inl (UInt32.le_refl right)
    · intro one oneIn other otherIn
      obtain ⟨rfl, -⟩ := mem_kept.mp oneIn
      rcases mem_append.mp otherIn with inside | after
      · obtain ⟨rfl, -⟩ := mem_kept.mp inside
        exact .inl (UInt32.le_refl left)
      · obtain ⟨rfl, -⟩ := mem_kept.mp after
        exact .inl (UInt32.le_iff_toNat_le.mpr second)

theorem Sound.cutThirds (sound : allocator.Sound (range :: spare)) {left right : UInt32}
    (first : range.start ≤ left) (second : left ≤ right)
    (third : right ≤ range.finish) :
    allocator.Sound (kept ⟨range.start, left⟩ ++ (kept ⟨left, right⟩ ++
      (kept ⟨right, range.finish⟩ ++ spare))) := by
  have proper := sound.proper_spare mem_cons_self
  have parts := sound.cut (by
      intro part member
      simp only [mem_append, mem_kept] at member
      rcases member with ⟨rfl, -⟩ | ⟨rfl, -⟩ | ⟨rfl, -⟩
      · exact ⟨UInt32.le_refl _, UInt32.le_trans second third⟩
      · exact ⟨first, third⟩
      · exact ⟨UInt32.le_trans first second, UInt32.le_refl _⟩)
    (tidy_thirds proper.bound second third)
  rwa [append_assoc, append_assoc] at parts

/-! ## Allocating -/

/-- The check of `allocate_range` leaves a first part of the assigned range. -/
theorem consumed_within {assigned : Range} (positive : size ≠ 0)
    (checked : ((⟨assigned.start, assigned.start + size⟩ : Range).intersect assigned).size = size) :
    assigned.start < assigned.start + size ∧ assigned.start + size ≤ assigned.finish := by
  rw [Range.size, Range.intersect] at checked
  by_cases inside : assigned.start + size < assigned.finish
  · split at checked
    · grind
    · grind
  · split at checked
    · grind
    · grind

theorem Sound.createLeftover (sound : allocator.Sound (kept range ++ spare))
    (done : allocator.createLeftover choice range = .ok next) :
    next.Sound spare ∧ next.allocatedTree = allocator.allocatedTree := by
  rw [CoalescingAllocator.createLeftover] at done
  rw [kept] at sound
  simp only [Range.size_pos_iff] at done
  split at done
  · rename_i nonempty
    rw [if_pos nonempty] at sound
    exact Sound.createEmptyRangeNolock sound done
  · rename_i empty
    rw [if_neg empty] at sound
    cases done
    exact ⟨sound, rfl⟩

theorem Sound.consume {assigned consumed : Range} (sound : allocator.Sound spare)
    (positive : size ≠ 0)
    (done : allocator.consume choice assigned size userObj = .ok (consumed, next)) :
    next.Sound spare ∧ consumed.Proper ∧ next.allocatedTree.toList.Perm
        (⟨consumed, some userObj⟩ :: allocator.allocatedTree.toList) := by
  obtain ⟨_, checked, afterCheck⟩ := of_bind done
  obtain ⟨taken, taking, afterTake⟩ := of_bind afterCheck
  obtain ⟨inserted, inserting, afterInsert⟩ := of_bind afterTake
  obtain ⟨final, creating, same⟩ := of_bind afterInsert
  cases same
  obtain ⟨first, within⟩ := consumed_within positive (ensure_eq_ok_iff.mp checked)
  obtain ⟨soundTaken, sameTaken⟩ := sound.takeFreeRange taking
  have parts := soundTaken.cutThirds (UInt32.le_refl _) (UInt32.le_of_lt first) within
  have nothing : kept ⟨assigned.start, assigned.start⟩ = [] := if_neg (UInt32.lt_irrefl _)
  rw [nothing, kept_of_lt first] at parts
  have ready : taken.Sound ((⟨⟨assigned.start, assigned.start + size⟩,
      some userObj⟩ : RangeByStartElt).range ::
        (kept ⟨assigned.start + size, assigned.finish⟩ ++ spare)) := parts
  obtain ⟨soundInserted, grown⟩ := ready.insertAllocated inserting
  obtain ⟨soundFinal, sameFinal⟩ := soundInserted.createLeftover creating
  refine ⟨soundFinal, parts.proper_spare mem_cons_self, ?_⟩
  rw [sameFinal, ← sameTaken]
  exact grown

/-- What `allocate_range` does when it returns. -/
theorem Sound.allocateRange (sound : allocator.Sound spare) {result : Option Range}
    (done : allocator.allocateRange choice size userObj = .ok (result, next)) :
    next.Sound spare ∧
      match result with
      | none => next = allocator
      | some consumed => consumed.Proper ∧
          next.allocatedTree.toList.Perm
            (⟨consumed, some userObj⟩ :: allocator.allocatedTree.toList) := by
  rw [CoalescingAllocator.allocateRange] at done
  split at done
  · cases done
    exact ⟨sound, rfl⟩
  · rename_i positive
    split at done
    · cases done
      exact ⟨sound, rfl⟩
    · obtain ⟨⟨consumed, final⟩, consuming, same⟩ := of_bind done
      cases same
      exact sound.consume positive consuming

/-! ## Looking up -/

theorem Sound.apart_allocated (sound : allocator.Sound spare) {left right : RangeByStartElt}
    (leftIn : left ∈ allocator.allocatedTree.toList)
    (rightIn : right ∈ allocator.allocatedTree.toList) (different : left ≠ right) :
    left.range.Apart right.range := by
  have ranges : left.range ≠ right.range := fun same =>
    different (sound.eq_of_start leftIn rightIn (congrArg Range.start same))
  have place : ∀ elt ∈ allocator.allocatedTree.toList, elt.range ∈
      allocator.freeRanges ++ (allocator.allocatedRanges ++ spare) :=
    fun elt member => mem_append_right _ (mem_append_left _ (mem_map_of_mem member))
  exact sound.tidy.apart.forall (place left leftIn) (place right rightIn) ranges

/-- The range covers an address. -/
def Covers (range : Range) (value : UInt32) : Prop :=
  range.start ≤ value ∧ value < range.finish

theorem Sound.lookupValue_eq_some_iff (sound : allocator.Sound spare) {value : UInt32} :
    allocator.lookupValue value = some elt ↔
      elt ∈ allocator.allocatedTree.toList ∧ Covers elt.range value := by
  rw [lookupValue]
  constructor
  · intro found
    split at found
    · cases found
    · rename_i other search
      rw [ite_eq_iff] at found
      rcases found with ⟨covers, same⟩ | ⟨-, absurd⟩
      · cases same
        exact ⟨mem_of_findFirstLessThanOrEqualTo search, covers⟩
      · cases absurd
  · rintro ⟨member, covers⟩
    have proper := sound.proper_allocated member
    have valueBound : value.toNat < 2 ^ 31 :=
      Nat.lt_trans (UInt32.lt_iff_toNat_lt.mp covers.2) proper.bound
    have greater : ∀ other ∈ allocator.allocatedTree.toList,
        (byStart ⟨value, value + 1⟩ other = .gt ↔ value < other.range.start) :=
      fun other otherIn => byStart_eq_gt_iff valueBound (sound.proper_allocated otherIn).start_bound
    have spec := findFirstLessThanOrEqualTo_sorted
      (@Sound.ascending allocator spare ⟨value, value + 1⟩ sound valueBound) sound.sorted
    have started : ¬value < elt.range.start := UInt32.not_lt.mpr covers.1
    split at spec
    · exact absurd ((greater elt member).mp (spec elt member)) started
    · rename_i found search
      obtain ⟨foundIn, fits, others⟩ := spec
      rw [ne_eq, greater found foundIn] at fits
      obtain rfl : elt = found := by
        by_contra different
        have foundNonempty := (sound.proper_allocated foundIn).nonempty
        have either := (others elt member).resolve_left different
        rw [greater elt member] at either
        rcases sound.apart_allocated member foundIn different with before | after
        · exact absurd (UInt32.lt_of_lt_of_le covers.2 before) fits
        · grind
      rw [search]
      exact if_pos covers

/-! ## Freeing -/

/-- What is left of an element when a part of it becomes free. -/
def fragments (elt : RangeByStartElt) (overlap : Range) : List RangeByStartElt :=
  (kept ⟨elt.range.start, overlap.start⟩ ++
    kept ⟨overlap.finish, elt.range.finish⟩).map fun range => ⟨range, elt.userObj⟩

/-- One element is replaced by what is left of it. -/
def CutsOne (before after : List RangeByStartElt) : Prop :=
  ∃ elt overlap rest, before.Perm (elt :: rest) ∧
    elt.range.start ≤ overlap.start ∧ overlap.start < overlap.finish ∧
    overlap.finish ≤ elt.range.finish ∧
    after.Perm (fragments elt overlap ++ rest)

theorem Sound.insertFragment (sound : allocator.Sound (kept elt.range ++ spare))
    (done : allocator.insertFragment choice elt = .ok next) :
    next.Sound spare ∧ next.allocatedTree.toList.Perm
      ((kept elt.range).map (fun range => ⟨range, elt.userObj⟩) ++
        allocator.allocatedTree.toList) := by
  rw [CoalescingAllocator.insertFragment] at done
  rw [kept] at sound ⊢
  simp only [Range.size_pos_iff] at done
  split at done
  · rename_i nonempty
    rw [if_pos nonempty] at sound ⊢
    exact Sound.insertAllocated sound done
  · rename_i empty
    rw [if_neg empty] at sound ⊢
    cases done
    exact ⟨sound, .refl _⟩

theorem Sound.freeSubrange {overlap : Range} (sound : allocator.Sound spare)
    (member : elt ∈ allocator.allocatedTree.toList)
    (first : elt.range.start ≤ overlap.start)
    (nonempty : overlap.start < overlap.finish)
    (last : overlap.finish ≤ elt.range.finish)
    (done : allocator.freeSubrange choice elt overlap = .ok next) :
    next.Sound spare ∧ CutsOne allocator.allocatedTree.toList next.allocatedTree.toList := by
  obtain ⟨tree, removed, afterRemove⟩ := of_bind done
  obtain ⟨withLeft, insertedLeft, afterLeft⟩ := of_bind afterRemove
  obtain ⟨withRight, insertedRight, created⟩ := of_bind afterLeft
  obtain ⟨soundRemoved, split⟩ := sound.removeAllocated member removed
  have parts := soundRemoved.cutThirds first (UInt32.le_of_lt nonempty) last
  rw [kept_of_lt nonempty, singleton_append] at parts
  -- the part that becomes free stays spare until the fragments are in place
  have ordered : ({ allocator with allocatedTree := tree }).Sound
      (kept ⟨elt.range.start, overlap.start⟩ ++
        (kept ⟨overlap.finish, elt.range.finish⟩ ++ (overlap :: spare))) := by
    apply parts.respare_first
    refine parts.tidy_spare_first.perm (List.Perm.append_right _ ?_)
    refine List.Perm.append_left _ ?_
    exact perm_middle.symm
  obtain ⟨soundLeft, grownLeft⟩ := Sound.insertFragment ordered insertedLeft
  obtain ⟨soundRight, grownRight⟩ := Sound.insertFragment soundLeft insertedRight
  obtain ⟨soundFinal, sameFinal⟩ := (soundRight.dropRef elt.userObj).createEmptyRangeNolock created
  refine ⟨soundFinal, elt, overlap, tree.toList, split, first, nonempty, last, ?_⟩
  rw [sameFinal, dropRef_allocatedTree, fragments, map_append, append_assoc]
  refine grownRight.trans ((grownLeft.append_left _).trans ?_)
  rw [← append_assoc, ← append_assoc]
  exact perm_append_comm.append_right _

theorem intersect_within (range other : Range) :
    (range.intersect other).Within range ∧ (range.intersect other).Within other := by
  simp only [Range.intersect, Range.Within]
  grind

variable {outcome : (CoalescingAllocator × Range) ⊕ CoalescingAllocator}

theorem skipGap_eq_ok (done : allocator.skipGap range = .ok outcome) : outcome = .inr allocator ∨
      ∃ start, outcome = .inl (allocator, ⟨start, range.finish⟩) := by
  obtain ⟨_, -, searched⟩ := of_bind done
  split at searched
  · cases searched
    exact .inl rfl
  · obtain ⟨_, -, returned⟩ := of_bind searched
    cases returned
    exact .inr ⟨_, rfl⟩

/-- A round of `free_range` leaves the allocator as it is or frees a part of an
element. -/
theorem freeRound_eq_ok (done : freeRound choice (allocator, range) = .ok outcome) :
    (outcome = .inr allocator ∨ ∃ start, outcome = .inl (allocator, ⟨start, range.finish⟩)) ∨
      ∃ elt ∈ allocator.allocatedTree.toList, ∃ overlap next,
        overlap.Within elt.range ∧ overlap.Within range ∧ overlap.start < overlap.finish ∧
          allocator.freeSubrange choice elt overlap = .ok next ∧
          outcome = .inl (next, ⟨overlap.finish, range.finish⟩) := by
  rw [freeRound] at done
  split at done
  · split at done
    · exact .inl (skipGap_eq_ok done)
    · rename_i first search
      split at done
      · exact .inl (skipGap_eq_ok done)
      · rename_i overlaps
        obtain ⟨next, freed, returned⟩ := of_bind done
        cases returned
        have nonempty := Range.size_pos_iff.mp (UInt32.pos_iff_ne_zero.mpr overlaps)
        exact .inr ⟨first, mem_of_findFirstLessThanOrEqualTo search, _, next,
          (intersect_within _ _).2, (intersect_within _ _).1, nonempty, freed, rfl⟩
  · cases done
    exact .inl (.inl rfl)

/-- `free_range` cuts elements, one after the other. -/
theorem Sound.freeRange (sound : allocator.Sound spare)
    (done : allocator.freeRange choice range = .ok next) :
    next.Sound spare ∧ Relation.ReflTransGen CutsOne
      allocator.allocatedTree.toList next.allocatedTree.toList := by
  refine Loop.run_invariant (fun state => state.1.Sound spare ∧ Relation.ReflTransGen CutsOne
      allocator.allocatedTree.toList state.1.allocatedTree.toList)
    (fun final => final.Sound spare ∧ Relation.ReflTransGen CutsOne
      allocator.allocatedTree.toList final.allocatedTree.toList) ?_ ?_ ⟨sound, .refl⟩ done
  · rintro ⟨before, range⟩ after ⟨sound, chain⟩ goes
    rcases freeRound_eq_ok goes with (absurd | ⟨_, same⟩) |
      ⟨elt, member, overlap, next, within, -, nonempty, freed, same⟩
    · cases absurd
    · cases same
      exact ⟨sound, chain⟩
    · cases same
      obtain ⟨soundNext, cuts⟩ := sound.freeSubrange member within.1 nonempty within.2 freed
      exact ⟨soundNext, chain.tail cuts⟩
  · rintro ⟨before, range⟩ result kept leaves
    rcases freeRound_eq_ok leaves with (same | ⟨_, absurd⟩) | ⟨_, _, _, _, -, -, -, -, absurd⟩
    · cases same
      exact kept
    · cases absurd
    · cases absurd

end CoalescingAllocator

end Embassies.Kvm
