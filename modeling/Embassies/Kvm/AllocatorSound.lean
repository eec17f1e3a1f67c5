import Embassies.Kvm.Allocator
import Mathlib.Algebra.Group.Nat.Defs
import Mathlib.Data.List.Nodup
import Mathlib.Data.List.Pairwise
import Mathlib.Order.Basic

/-!
# The ranges of the allocator stay apart

The operations of `CoalescingAllocator` move ranges between the trees, split
them and join them.  A range that an operation has taken out of the trees and
not yet put back is called spare here.  Through every step the free, allocated
and spare ranges have bytes, lie below 2^31 and do not overlap, the two trees of
free ranges hold the same ranges, and the allocated ranges are sorted.  It
follows that a lookup finds the allocated range that covers an address.
-/

namespace Embassies.Kvm

open Library Library.Checked List SearchTree

/-! ## Comparisons -/

theorem ordering_eq_eq_iff {difference : Int32} : ordering difference = .eq ↔ difference = 0 := by
  rw [ordering]
  split
  · simp [*]
  · split
    · simp [*]
    · simp [*]

theorem ordering_eq_lt_iff {difference : Int32} : ordering difference = .lt ↔ difference < 0 := by
  rw [ordering]
  split
  · rename_i zero
    simp [zero]
  · split
    · simp [*]
    · simp [*]

variable {left right : UInt32}

theorem difference_eq_zero_iff : (left - right).toInt32 = 0 ↔ left = right := by
  constructor
  · intro zero
    have same : left - right = 0 := congrArg Int32.toUInt32 zero
    grind
  · rintro rfl
    rw [UInt32.sub_self]
    rfl

/-- The sign of the difference tells the order of words that are close enough. -/
theorem difference_neg_iff_of_near (leftNear : left.toNat < right.toNat + 2 ^ 31)
    (rightNear : right.toNat ≤ left.toNat + 2 ^ 31) :
    (left - right).toInt32 < 0 ↔ left < right := by
  have difference : (left - right).toInt32.toInt = (left.toBitVec - right.toBitVec).toInt := rfl
  have zero : (0 : Int32).toInt = 0 := rfl
  have leftSame : left.toBitVec.toNat = left.toNat := rfl
  have rightSame : right.toBitVec.toNat = right.toNat := rfl
  rw [Int32.lt_iff_toInt_lt, UInt32.lt_iff_toNat_lt, difference, zero,
    BitVec.toInt_eq_toNat_cond, BitVec.toNat_sub, leftSame, rightSame]
  split
  · omega
  · omega

/-- Below 2^31 the sign of the difference tells the order. -/
theorem difference_neg_iff (leftBound : left.toNat < 2 ^ 31) (rightBound : right.toNat < 2 ^ 31) :
    (left - right).toInt32 < 0 ↔ left < right :=
  difference_neg_iff_of_near (by omega) (by omega)

theorem byStart_eq_iff {range : Range} {elt : RangeByStartElt} :
    byStart range elt = .eq ↔ elt.range.start = range.start := by
  rw [byStart, ordering_eq_eq_iff, byStartCmp, difference_eq_zero_iff]

namespace Range

/-- A range that has bytes and lies below 2^31. -/
structure Proper (range : Range) : Prop where
  nonempty : range.start < range.finish
  bound : range.finish.toNat < 2 ^ 31

/-- Two ranges without a common byte. -/
def Apart (left right : Range) : Prop :=
  left.finish ≤ right.start ∨ right.finish ≤ left.start

/-- All bytes of a range are bytes of another. -/
def Within (inner outer : Range) : Prop :=
  outer.start ≤ inner.start ∧ inner.finish ≤ outer.finish

theorem Apart.symm {left right : Range} (apart : left.Apart right) : right.Apart left :=
  Or.symm apart

instance : Std.Symm Apart := ⟨fun _ _ => Apart.symm⟩

variable {range : Range}

theorem Proper.start_bound (proper : range.Proper) : range.start.toNat < 2 ^ 31 :=
  Nat.lt_trans (UInt32.lt_iff_toNat_lt.mp proper.nonempty) proper.bound

theorem Proper.size_eq (proper : range.Proper) : range.size = range.finish - range.start := by
  have less := proper.nonempty
  rw [size, if_neg (by grind)]

theorem Proper.size_bound (proper : range.Proper) : range.size.toNat < 2 ^ 31 := by
  rw [proper.size_eq, UInt32.toNat_sub_of_le _ _ (UInt32.le_of_lt proper.nonempty)]
  exact Nat.lt_of_le_of_lt (Nat.sub_le _ _) proper.bound

theorem size_pos_iff : range.size > 0 ↔ range.start < range.finish := by
  rw [size]
  split
  · grind
  · grind

theorem Apart.of_within {inner outer other : Range} (within : inner.Within outer)
    (apart : outer.Apart other) : inner.Apart other := by
  rcases within with ⟨left, right⟩
  rcases apart with before | after
  · exact .inl (UInt32.le_trans right before)
  · exact .inr (UInt32.le_trans after left)

end Range

variable {range : Range} {elt : RangeByStartElt}

theorem byStart_eq_lt_iff (rangeBound : range.start.toNat < 2 ^ 31)
    (eltBound : elt.range.start.toNat < 2 ^ 31) :
    byStart range elt = .lt ↔ elt.range.start < range.start := by
  rw [byStart, ordering_eq_lt_iff, byStartCmp, difference_neg_iff eltBound rangeBound]

theorem byStart_eq_gt_iff (rangeBound : range.start.toNat < 2 ^ 31)
    (eltBound : elt.range.start.toNat < 2 ^ 31) :
    byStart range elt = .gt ↔ range.start < elt.range.start := by
  have same := @byStart_eq_iff range elt
  have less := byStart_eq_lt_iff rangeBound eltBound
  cases outcome : byStart range elt with
  | eq => grind
  | lt => grind
  | gt => grind

theorem eq_of_bySize_eq {elt : Range} (proper : elt.Proper) (equal : bySize range elt = .eq) :
    elt = range := by
  rw [bySize, ordering_eq_eq_iff, bySizeCmp] at equal
  split at equal
  · rename_i different
    exact absurd equal different
  · rename_i sameSize
    have sizes := difference_eq_zero_iff.mp (Decidable.not_not.mp sameSize)
    have starts := difference_eq_zero_iff.mp equal
    have nonempty := proper.nonempty
    rw [proper.size_eq, Range.size] at sizes
    cases elt
    cases range
    split at sizes
    · grind
    · grind

/-! ## Lists of ranges that are apart -/

/-- The ranges of a list are proper and do not overlap. -/
structure Tidy (ranges : List Range) : Prop where
  proper : ∀ range ∈ ranges, range.Proper
  apart : ranges.Pairwise Range.Apart

namespace Tidy

variable {ranges others : List Range} {range left right : Range}

theorem perm (tidy : Tidy ranges) (same : ranges.Perm others) : Tidy others where
  proper range member := tidy.proper range (same.mem_iff.mpr member)
  apart := (same.pairwise_iff fun apart => apart.symm).mp tidy.apart

theorem sublist (tidy : Tidy ranges) (fewer : others.Sublist ranges) : Tidy others where
  proper range member := tidy.proper range (fewer.subset member)
  apart := tidy.apart.sublist fewer

theorem tail (tidy : Tidy (range :: ranges)) : Tidy ranges := tidy.sublist (sublist_cons_self _ _)

theorem eq_of_start (tidy : Tidy ranges) (leftIn : left ∈ ranges) (rightIn : right ∈ ranges)
    (same : left.start = right.start) : left = right := by
  by_contra different
  have apart : left.Apart right := tidy.apart.forall leftIn rightIn different
  have leftProper := (tidy.proper left leftIn).nonempty
  have rightProper := (tidy.proper right rightIn).nonempty
  rcases apart with before | after
  · grind
  · grind

theorem ends_before (tidy : Tidy ranges) (leftIn : left ∈ ranges) (rightIn : right ∈ ranges)
    (less : left.start < right.start) : left.finish ≤ right.start := by
  have different : left ≠ right := fun same => UInt32.ne_of_lt less (congrArg Range.start same)
  have apart : left.Apart right := tidy.apart.forall leftIn rightIn different
  have nonempty := (tidy.proper right rightIn).nonempty
  rw [Range.Apart] at apart
  grind

theorem replace (tidy : Tidy (range :: ranges)) {parts : List Range}
    (within : ∀ part ∈ parts, part.Within range) (partsTidy : Tidy parts) :
    Tidy (parts ++ ranges) where
  proper other member := by
    rcases mem_append.mp member with part | rest
    · exact partsTidy.proper other part
    · exact tidy.tail.proper other rest
  apart := by
    rw [pairwise_append]
    refine ⟨partsTidy.apart, tidy.tail.apart, ?_⟩
    intro part partIn other otherIn
    exact Range.Apart.of_within (within part partIn) ((pairwise_cons.mp tidy.apart).1 other otherIn)

theorem join (tidy : Tidy (left :: right :: ranges)) (touch : left.finish = right.start) :
    Tidy (⟨left.start, right.finish⟩ :: ranges) := by
  have leftProper := tidy.proper left mem_cons_self
  have rightProper := tidy.tail.proper right mem_cons_self
  constructor
  · intro other member
    rcases mem_cons.mp member with rfl | rest
    · refine ⟨?_, rightProper.bound⟩
      have first := leftProper.nonempty
      have second := rightProper.nonempty
      grind
    · exact tidy.tail.tail.proper other rest
  · rw [pairwise_cons]
    refine ⟨?_, tidy.tail.tail.apart⟩
    intro other rest
    have otherProper := (tidy.tail.tail.proper other rest).nonempty
    have first := (pairwise_cons.mp tidy.apart).1 other (mem_cons_of_mem _ rest)
    have second := (pairwise_cons.mp tidy.tail.apart).1 other rest
    rcases first with before | after
    · rcases second with laterBefore | laterAfter
      · exact .inl laterBefore
      · -- the other range would lie between the two, which touch
        grind
    · exact .inr after

end Tidy

/-! ## The trees -/

namespace CoalescingAllocator

/-- The free ranges. -/
def freeRanges (allocator : CoalescingAllocator) : List Range :=
  allocator.freeByStartTree.toList.map RangeByStartElt.range

/-- The allocated ranges and fragments. -/
def allocatedRanges (allocator : CoalescingAllocator) : List Range :=
  allocator.allocatedTree.toList.map RangeByStartElt.range

/-- An allocator with ranges that are in none of its trees. -/
structure Sound (allocator : CoalescingAllocator) (spare : List Range) : Prop where
  same : allocator.freeBySizeTree.toList.Perm allocator.freeRanges
  tidy : Tidy (allocator.freeRanges ++ (allocator.allocatedRanges ++ spare))
  sorted : allocator.allocatedTree.toList.Pairwise fun earlier later =>
    earlier.range.start < later.range.start

variable {choice : Choice} {allocator next : CoalescingAllocator}
  {spare : List Range} {range : Range} {elt : RangeByStartElt}

/-! ## The free trees -/

theorem takeFreeRange_eq_ok (same : allocator.freeBySizeTree.toList.Perm allocator.freeRanges)
    (tidy : Tidy allocator.freeRanges)
    (done : allocator.takeFreeRange choice range = .ok next) :
    next.freeBySizeTree.toList.Perm next.freeRanges ∧
      allocator.freeRanges.Perm (range :: next.freeRanges) ∧
      next.freeByStartTree.toList.Sublist allocator.freeByStartTree.toList ∧
      next.freeBySizeTree.toList.Sublist allocator.freeBySizeTree.toList ∧
      next.allocatedTree = allocator.allocatedTree := by
  obtain ⟨bySizeTree, removedSize, rest⟩ := of_bind done
  obtain ⟨byStartTree, removedStart, returned⟩ := of_bind rest
  cases returned
  obtain ⟨found, foundIn, sizeEqual, sizeList⟩ := remove_eq_ok removedSize
  obtain ⟨startElt, startIn, startEqual, startList⟩ := remove_eq_ok removedStart
  have foundFree : found ∈ allocator.freeRanges := same.mem_iff.mp foundIn
  obtain rfl := eq_of_bySize_eq (tidy.proper found foundFree) sizeEqual
  obtain rfl : startElt.range = found := tidy.eq_of_start (mem_map_of_mem startIn) foundFree
    (byStart_eq_iff.mp startEqual)
  have split : allocator.freeRanges.Perm
      (startElt.range :: byStartTree.toList.map RangeByStartElt.range) := by
    rw [startList]
    exact (perm_cons_erase startIn).map RangeByStartElt.range
  refine ⟨List.Perm.cons_inv (a := startElt.range) ?_, split, startList ▸ erase_sublist,
    sizeList ▸ erase_sublist, rfl⟩
  rw [sizeList]
  exact ((perm_cons_erase foundIn).symm.trans same).trans split

theorem insertCoalescedFreeRange_eq_ok
    (same : allocator.freeBySizeTree.toList.Perm allocator.freeRanges)
    (done : allocator.insertCoalescedFreeRange choice range = .ok next) :
    next.freeBySizeTree.toList.Perm next.freeRanges ∧
      next.freeRanges.Perm (range :: allocator.freeRanges) ∧ range.start < range.finish ∧
      allocator.freeByStartTree.insert choice.balanceElt (byStart range) ⟨range, none⟩
        Stop.assertion = .ok next.freeByStartTree ∧
      allocator.freeBySizeTree.insert choice.balanceRange (bySize range) range
        Stop.assertion = .ok next.freeBySizeTree ∧
      next.allocatedTree = allocator.allocatedTree := by
  obtain ⟨_, checked, afterCheck⟩ := of_bind done
  obtain ⟨bySizeTree, insertedSize, rest⟩ := of_bind afterCheck
  obtain ⟨byStartTree, insertedStart, returned⟩ := of_bind rest
  cases returned
  have ranges := (perm_of_insert insertedStart).map RangeByStartElt.range
  refine ⟨?_, ranges, Range.size_pos_iff.mp (ensure_eq_ok_iff.mp checked), insertedStart,
    insertedSize, rfl⟩
  exact (perm_of_insert insertedSize).trans ((same.cons range).trans ranges.symm)

namespace Sound

section Spare

variable (sound : allocator.Sound spare)

include sound

theorem proper_allocated (member : elt ∈ allocator.allocatedTree.toList) : elt.range.Proper :=
  sound.tidy.proper elt.range (mem_append_right _ (mem_append_left _ (mem_map_of_mem member)))

theorem proper_spare (member : range ∈ spare) : range.Proper :=
  sound.tidy.proper range (mem_append_right _ (mem_append_right _ member))

theorem tidy_spare_first : Tidy (spare ++ (allocator.freeRanges ++ allocator.allocatedRanges)) := by
  refine sound.tidy.perm ?_
  rw [← append_assoc]
  exact perm_append_comm

theorem respare_first {others : List Range}
    (tidy : Tidy (others ++ (allocator.freeRanges ++ allocator.allocatedRanges))) :
    allocator.Sound others := by
  refine ⟨sound.same, ?_, sound.sorted⟩
  rw [← append_assoc]
  exact tidy.perm perm_append_comm

end Spare

theorem cut (sound : allocator.Sound (range :: spare)) {parts : List Range}
    (within : ∀ part ∈ parts, part.Within range) (partsTidy : Tidy parts) :
    allocator.Sound (parts ++ spare) := by
  apply sound.respare_first
  rw [append_assoc]
  exact sound.tidy_spare_first.replace within partsTidy

theorem join {left right : Range} (sound : allocator.Sound (left :: right :: spare))
    (touch : left.finish = right.start) :
    allocator.Sound (⟨left.start, right.finish⟩ :: spare) :=
  sound.respare_first (sound.tidy_spare_first.join touch)

theorem swap {left right : Range} (sound : allocator.Sound (left :: right :: spare)) :
    allocator.Sound (right :: left :: spare) := by
  apply sound.respare_first
  exact sound.tidy_spare_first.perm (List.Perm.swap right left _)

/-! ## Free ranges -/

theorem takeFreeRange (sound : allocator.Sound spare)
    (done : allocator.takeFreeRange choice range = .ok next) :
    next.Sound (range :: spare) ∧ next.allocatedTree = allocator.allocatedTree := by
  obtain ⟨same, split, -, -, allocated⟩ := takeFreeRange_eq_ok sound.same
    (sound.tidy.sublist (sublist_append_left _ _)) done
  refine ⟨⟨same, ?_, allocated ▸ sound.sorted⟩, allocated⟩
  rw [allocatedRanges, allocated]
  refine sound.tidy.perm ((split.append_right _).trans ?_)
  rw [cons_append, ← append_assoc, ← append_assoc]
  exact perm_middle.symm

theorem insertCoalescedFreeRange (sound : allocator.Sound (range :: spare))
    (done : allocator.insertCoalescedFreeRange choice range = .ok next) :
    next.Sound spare ∧ next.allocatedTree = allocator.allocatedTree := by
  obtain ⟨same, split, -, -, -, allocated⟩ := insertCoalescedFreeRange_eq_ok sound.same done
  refine ⟨⟨same, ?_, allocated ▸ sound.sorted⟩, allocated⟩
  rw [allocatedRanges, allocated]
  refine sound.tidy.perm (List.Perm.trans ?_ (split.symm.append_right _))
  rw [cons_append, ← append_assoc, ← append_assoc]
  exact perm_middle

theorem coalesceLeft (sound : allocator.Sound (range :: spare))
    (done : allocator.coalesceLeft choice range = .ok next) :
    next.Sound spare ∧ next.allocatedTree = allocator.allocatedTree := by
  rw [CoalescingAllocator.coalesceLeft] at done
  split at done
  · exact sound.insertCoalescedFreeRange done
  · obtain ⟨_, -, rest⟩ := of_bind done
    split at rest
    · rename_i touch
      obtain ⟨middle, taken, inserted⟩ := of_bind rest
      obtain ⟨soundMiddle, sameMiddle⟩ := sound.takeFreeRange taken
      obtain ⟨soundNext, sameNext⟩ := (soundMiddle.join touch).insertCoalescedFreeRange inserted
      exact ⟨soundNext, sameNext.trans sameMiddle⟩
    · exact sound.insertCoalescedFreeRange rest

/-- A spare range becomes free, joined with the free ranges that it touches. -/
theorem createEmptyRangeNolock {fuel : Nat} (sound : allocator.Sound (range :: spare))
    (done : CoalescingAllocator.createEmptyRangeNolock choice fuel allocator range = .ok next) :
    next.Sound spare ∧ next.allocatedTree = allocator.allocatedTree := by
  induction fuel generalizing allocator range with
  | zero => cases done
  | succ fuel induction =>
    rw [CoalescingAllocator.createEmptyRangeNolock] at done
    split at done
    · exact sound.coalesceLeft done
    · obtain ⟨_, -, rest⟩ := of_bind done
      split at rest
      · rename_i touch
        obtain ⟨middle, taken, created⟩ := of_bind rest
        obtain ⟨soundMiddle, sameMiddle⟩ := sound.takeFreeRange taken
        obtain ⟨soundNext, sameNext⟩ := induction (soundMiddle.swap.join touch.symm) created
        exact ⟨soundNext, sameNext.trans sameMiddle⟩
      · exact sound.coalesceLeft rest

/-! ## Allocated ranges -/

theorem addRef (sound : allocator.Sound spare) (obj : Option Nat) :
    (allocator.addRef obj).Sound spare := by
  cases obj with
  | none => exact sound
  | some obj => exact ⟨sound.same, sound.tidy, sound.sorted⟩

theorem dropRef (sound : allocator.Sound spare) (obj : Option Nat) :
    (allocator.dropRef obj).Sound spare := by
  cases obj with
  | none => exact sound
  | some obj => exact ⟨sound.same, sound.tidy, sound.sorted⟩

end Sound

theorem addRef_allocatedTree (obj : Option Nat) :
    (allocator.addRef obj).allocatedTree = allocator.allocatedTree := by
  cases obj with
  | none => rfl
  | some obj => rfl

theorem dropRef_allocatedTree (obj : Option Nat) :
    (allocator.dropRef obj).allocatedTree = allocator.allocatedTree := by
  cases obj with
  | none => rfl
  | some obj => rfl

namespace Sound

theorem ascending (sound : allocator.Sound spare) (bound : range.start.toNat < 2 ^ 31) :
    SearchTree.Ascending (byStart range) allocator.allocatedTree.toList := by
  refine sound.sorted.imp_of_mem fun {earlier later} earlierIn laterIn less => ?_
  rw [byStart_eq_lt_iff bound (sound.proper_allocated earlierIn).start_bound,
    byStart_eq_gt_iff bound (sound.proper_allocated laterIn).start_bound]
  grind

theorem insertAllocated (sound : allocator.Sound (elt.range :: spare))
    (done : allocator.insertAllocated choice elt = .ok next) :
    next.Sound spare ∧ next.allocatedTree.toList.Perm (elt :: allocator.allocatedTree.toList) := by
  obtain ⟨tree, inserted, same⟩ := of_bind done
  cases same
  rw [addRef_allocatedTree] at inserted
  have bound := (sound.proper_spare mem_cons_self).start_bound
  have counted := sound.addRef elt.userObj
  have spec := @insert_spec _ _ _ _ choice.balanceElt elt Stop.assertion _
    (sound.ascending bound) sound.sorted
    (fun other member => (byStart_eq_lt_iff bound (sound.proper_allocated member).start_bound).mp)
    (fun other member => (byStart_eq_gt_iff bound (sound.proper_allocated member).start_bound).mp)
  rw [inserted] at spec
  obtain ⟨grown, sorted⟩ := spec
  refine ⟨⟨counted.same, ?_, sorted⟩, grown⟩
  refine counted.tidy.perm (List.Perm.append_left _ ?_)
  have ranges : (tree.toList.map RangeByStartElt.range).Perm
      (elt.range :: (allocator.addRef elt.userObj).allocatedRanges) := by
    rw [allocatedRanges, addRef_allocatedTree]
    exact grown.map RangeByStartElt.range
  exact List.Perm.trans perm_middle (ranges.symm.append_right _)

theorem eq_of_start (sound : allocator.Sound spare) {left right : RangeByStartElt}
    (leftIn : left ∈ allocator.allocatedTree.toList)
    (rightIn : right ∈ allocator.allocatedTree.toList)
    (same : left.range.start = right.range.start) : left = right := by
  have distinct : (allocator.allocatedTree.toList.map fun elt => elt.range.start).Nodup := by
    rw [List.Nodup, pairwise_map]
    exact sound.sorted.imp fun less => UInt32.ne_of_lt less
  exact inj_on_of_nodup_map distinct leftIn rightIn same

theorem removeAllocated
    (sound : allocator.Sound spare) (member : elt ∈ allocator.allocatedTree.toList)
    {tree : SearchTree RangeByStartElt}
    (removed : allocator.allocatedTree.remove choice.balanceElt
      (byStart elt.range) Stop.assertion = .ok tree) :
    ({ allocator with allocatedTree := tree }).Sound (elt.range :: spare) ∧
      allocator.allocatedTree.toList.Perm (elt :: tree.toList) := by
  obtain ⟨found, foundIn, equal, list⟩ := remove_eq_ok removed
  obtain rfl := sound.eq_of_start foundIn member (byStart_eq_iff.mp equal)
  have split : allocator.allocatedTree.toList.Perm (found :: tree.toList) := by
    rw [list]
    exact perm_cons_erase foundIn
  refine ⟨⟨sound.same, ?_, ?_⟩, split⟩
  · refine sound.tidy.perm (List.Perm.append_left _ ?_)
    refine ((split.map RangeByStartElt.range).append_right _).trans ?_
    exact perm_middle.symm
  · simp only [list]
    exact sound.sorted.sublist erase_sublist

end Sound

end CoalescingAllocator

end Embassies.Kvm
