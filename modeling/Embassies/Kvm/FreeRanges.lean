import Embassies.Kvm.AllocatorOps

/-!
# What `create_empty_range` rejects

The free ranges stay apart and both trees stay sorted, whatever ranges are created.
So the neighbours that `create_empty_range` looks at tell whether the new range
overlaps a free one, and nothing else stops it.  It never looks at the allocated
ranges.
-/

namespace Embassies.Kvm

open Library Library.Checked List SearchTree

namespace CoalescingAllocator

variable {choice : Choice} {allocator next : CoalescingAllocator} {range : Range}

/-- The order of the tree by size: equal sizes are told apart by the starts. -/
def SizeBefore (left right : Range) : Prop :=
  left.size < right.size ∨ left.size = right.size ∧ left.start < right.start

/-- Both trees hold the free ranges, which are apart and sorted by their keys. -/
structure FreeSorted (allocator : CoalescingAllocator) : Prop where
  same : allocator.freeBySizeTree.toList.Perm allocator.freeRanges
  tidy : Tidy allocator.freeRanges
  sorted : allocator.freeByStartTree.toList.Pairwise fun earlier later =>
    earlier.range.start < later.range.start
  sortedBySize : allocator.freeBySizeTree.toList.Pairwise SizeBefore

/-- A range overlaps no free range. -/
def Clear (allocator : CoalescingAllocator) (range : Range) : Prop :=
  ∀ free ∈ allocator.freeRanges, range.Apart free

theorem bySize_self (range : Range) : bySize range range = .eq := by
  rw [bySize, ordering_eq_eq_iff, bySizeCmp, UInt32.sub_self, UInt32.sub_self]
  rfl

section Compare

variable {elt : Range} (proper : elt.Proper) (rangeProper : range.Proper)

include proper rangeProper

theorem bySize_eq_lt_iff : bySize range elt = .lt ↔ SizeBefore elt range := by
  rw [bySize, ordering_eq_lt_iff, bySizeCmp, SizeBefore]
  by_cases same : elt.size = range.size
  · rw [if_neg (not_not.mpr (difference_eq_zero_iff.mpr same)),
      difference_neg_iff proper.start_bound rangeProper.start_bound]
    grind
  · rw [if_pos (mt difference_eq_zero_iff.mp same),
      difference_neg_iff proper.size_bound rangeProper.size_bound]
    grind

theorem bySize_eq_gt_iff : bySize range elt = .gt ↔ SizeBefore range elt := by
  have less := bySize_eq_lt_iff proper rangeProper
  rw [SizeBefore] at less ⊢
  cases outcome : bySize range elt with
  | eq =>
    obtain rfl := eq_of_bySize_eq proper outcome
    grind
  | lt => grind
  | gt =>
    -- equal keys would compare equal
    have keys : elt.size = range.size → elt.start ≠ range.start := by
      intro sizes starts
      rw [bySize, bySizeCmp, sizes, starts, ← bySizeCmp, ← bySize, bySize_self] at outcome
      cases outcome
    grind

end Compare

namespace FreeSorted

theorem new (allowRedundantFrees : Bool) :
    (CoalescingAllocator.new allowRedundantFrees).FreeSorted where
  same := .nil
  tidy := ⟨(fun _ member => nomatch member), .nil⟩
  sorted := .nil
  sortedBySize := .nil

variable {elt : RangeByStartElt}

variable (free : allocator.FreeSorted)

include free

theorem start_bound
    (member : elt ∈ allocator.freeByStartTree.toList) : elt.range.start.toNat < 2 ^ 31 :=
  (free.tidy.proper _ (mem_map_of_mem member)).start_bound

theorem ascending (bound : range.start.toNat < 2 ^ 31) :
    SearchTree.Ascending (byStart range) allocator.freeByStartTree.toList := by
  refine free.sorted.imp_of_mem fun {earlier later} earlierIn laterIn less => ?_
  rw [byStart_eq_lt_iff bound (free.start_bound earlierIn),
    byStart_eq_gt_iff bound (free.start_bound laterIn)]
  grind

theorem proper_bySize {elt : Range} (member : elt ∈ allocator.freeBySizeTree.toList) : elt.Proper :=
  free.tidy.proper _ (free.same.mem_iff.mp member)

theorem ascendingBySize (proper : range.Proper) :
    SearchTree.Ascending (bySize range) allocator.freeBySizeTree.toList := by
  refine free.sortedBySize.imp_of_mem fun {earlier later} earlierIn laterIn before => ?_
  rw [bySize_eq_lt_iff (free.proper_bySize earlierIn) proper,
    bySize_eq_gt_iff (free.proper_bySize laterIn) proper]
  simp only [SizeBefore] at *
  grind

theorem takeFreeRange (done : allocator.takeFreeRange choice range = .ok next) :
    next.FreeSorted ∧ allocator.freeRanges.Perm (range :: next.freeRanges) := by
  obtain ⟨same, split, fewer, fewerBySize, -⟩ := takeFreeRange_eq_ok free.same free.tidy done
  exact ⟨⟨same, (free.tidy.perm split).tail, free.sorted.sublist fewer,
    free.sortedBySize.sublist fewerBySize⟩, split⟩

theorem exists_takeFreeRange (member : range ∈ allocator.freeRanges) :
    ∃ next, allocator.takeFreeRange choice range = .ok next := by
  have proper := free.tidy.proper _ member
  obtain ⟨elt, eltIn, rfl⟩ := mem_map.mp member
  obtain ⟨bySizeTree, removedSize, -⟩ := @remove_of_ascending _ _ _ _ choice.balanceRange
    Stop.assertion _ (free.ascendingBySize proper) _ (free.same.mem_iff.mpr member)
    (bySize_self elt.range)
  obtain ⟨byStartTree, removedStart, -⟩ := @remove_of_ascending _ _ _ _ choice.balanceElt
    Stop.assertion _ (free.ascending proper.start_bound) _ eltIn (byStart_eq_iff.mpr rfl)
  rw [CoalescingAllocator.takeFreeRange, removedSize, ok_bind, removedStart]
  exact ⟨_, rfl⟩

theorem insertCoalescedFreeRange (done : allocator.insertCoalescedFreeRange choice range = .ok next)
    (bound : range.finish.toNat < 2 ^ 31) (clear : Clear allocator range) : next.FreeSorted := by
  obtain ⟨same, split, nonempty, inserted, insertedSize, -⟩ :=
    insertCoalescedFreeRange_eq_ok free.same done
  have proper : range.Proper := ⟨nonempty, bound⟩
  have byStart := @insert_spec _ _ _ _ choice.balanceElt ⟨range, none⟩ Stop.assertion _
    (free.ascending proper.start_bound) free.sorted
    (fun _ member => (byStart_eq_lt_iff proper.start_bound (free.start_bound member)).mp)
    (fun _ member => (byStart_eq_gt_iff proper.start_bound (free.start_bound member)).mp)
  have bySize := @insert_spec _ _ _ _ choice.balanceRange range Stop.assertion _
    (free.ascendingBySize proper) free.sortedBySize
    (fun _ member => (bySize_eq_lt_iff (free.proper_bySize member) proper).mp)
    (fun _ member => (bySize_eq_gt_iff (free.proper_bySize member) proper).mp)
  rw [inserted] at byStart
  rw [insertedSize] at bySize
  refine ⟨same, Tidy.perm ⟨?_, ?_⟩ split.symm, byStart.2, bySize.2⟩
  · exact forall_mem_cons.mpr ⟨proper, free.tidy.proper⟩
  · exact pairwise_cons.mpr ⟨clear, free.tidy.apart⟩

theorem exists_insertCoalescedFreeRange (proper : range.Proper) (clear : Clear allocator range) :
    ∃ next, allocator.insertCoalescedFreeRange choice range = .ok next := by
  -- an element of the same key would be a free range that overlaps the new one
  have starts : ∀ other ∈ allocator.freeRanges, other.start ≠ range.start := by
    intro other member same
    have apart := clear other member
    have nonempty := proper.nonempty
    have otherNonempty := (free.tidy.proper other member).nonempty
    rw [Range.Apart] at apart
    grind
  obtain ⟨bySizeTree, insertedSize⟩ := @insert_of_ascending _ _ _ _ choice.balanceRange
    range Stop.assertion (free.ascendingBySize proper) fun elt member equal => by
      have known := free.same.mem_iff.mp member
      obtain rfl := eq_of_bySize_eq (free.tidy.proper elt known) equal
      exact starts elt known rfl
  obtain ⟨byStartTree, insertedStart⟩ := @insert_of_ascending _ _ _ _ choice.balanceElt
    ⟨range, none⟩ Stop.assertion (free.ascending proper.start_bound) fun elt member equal =>
      starts _ (mem_map_of_mem member) (byStart_eq_iff.mp equal)
  rw [CoalescingAllocator.insertCoalescedFreeRange,
    ensure_true (Range.size_pos_iff.mpr proper.nonempty), ok_bind, insertedSize, ok_bind,
    insertedStart]
  exact ⟨_, rfl⟩

/-- A range that overlaps no free range can be joined with one that it touches. -/
theorem clear_join {piece left right : Range} {middle : CoalescingAllocator}
    (split : allocator.freeRanges.Perm (piece :: middle.freeRanges)) (clear : Clear allocator range)
    (touch : left.finish = right.start)
    (parts : left = piece ∧ right = range ∨ left = range ∧ right = piece) :
    Clear middle ⟨left.start, right.finish⟩ := by
  intro other otherIn
  have tidy := free.tidy.perm split
  have apart := (pairwise_cons.mp tidy.apart).1 other otherIn
  have nonempty := (tidy.tail.proper other otherIn).nonempty
  have rangeApart := clear other (split.mem_iff.mpr (mem_cons_of_mem _ otherIn))
  simp only [Range.Apart] at *
  grind

/-- A range that no free range follows within its bytes is joined with the one that
precedes it. -/
theorem coalesceLeft (startBound : range.start.toNat < 2 ^ 31) (bound : range.finish.toNat < 2 ^ 31)
    (after : ∀ other ∈ allocator.freeRanges, range.start ≤ other.start → range.finish ≤ other.start)
    (done : allocator.coalesceLeft choice range = .ok next) :
    next.FreeSorted ∧ (range.start < range.finish → Clear allocator range) := by
  have searched := findFirstLessThanOrEqualTo_sorted (free.ascending startBound) free.sorted
  have greater : ∀ elt ∈ allocator.freeByStartTree.toList, byStart range elt = .gt →
      range.finish ≤ elt.range.start := fun elt member later => by
    have less := (byStart_eq_gt_iff startBound (free.start_bound member)).mp later
    exact after _ (mem_map_of_mem member) (UInt32.le_of_lt less)
  rw [CoalescingAllocator.coalesceLeft] at done
  split at done
  · rename_i search
    rw [search] at searched
    have clear : Clear allocator range := forall_mem_map.mpr fun elt member =>
      .inl (greater elt member (searched elt member))
    exact ⟨free.insertCoalescedFreeRange done bound clear, fun _ => clear⟩
  · rename_i preceding search
    rw [search] at searched
    obtain ⟨member, starts, others⟩ := searched
    have known : preceding.range ∈ allocator.freeRanges := mem_map_of_mem member
    have nonempty := (free.tidy.proper _ known).nonempty
    obtain ⟨_, checked, rest⟩ := of_bind done
    have before : preceding.range.finish ≤ range.start := ensure_eq_ok_iff.mp checked
    have clear : Clear allocator range := forall_mem_map.mpr fun elt eltIn => by
      rcases others elt eltIn with rfl | earlier | later
      · exact .inr before
      · have ends := free.tidy.ends_before (mem_map_of_mem eltIn) known earlier
        exact .inr (by grind)
      · exact .inl (greater elt eltIn later)
    split at rest
    · rename_i touch
      obtain ⟨middle, taken, inserted⟩ := of_bind rest
      obtain ⟨freeMiddle, split⟩ := free.takeFreeRange taken
      have joined := free.clear_join split clear touch (.inl ⟨rfl, rfl⟩)
      exact ⟨freeMiddle.insertCoalescedFreeRange inserted bound joined, fun _ => clear⟩
    · exact ⟨free.insertCoalescedFreeRange rest bound clear, fun _ => clear⟩

theorem exists_coalesceLeft (proper : range.Proper) (clear : Clear allocator range) :
    ∃ next, allocator.coalesceLeft choice range = .ok next := by
  have searched := findFirstLessThanOrEqualTo_sorted (free.ascending proper.start_bound) free.sorted
  rw [CoalescingAllocator.coalesceLeft]
  split
  · exact free.exists_insertCoalescedFreeRange proper clear
  · rename_i preceding search
    rw [search] at searched
    obtain ⟨member, starts, -⟩ := searched
    have known : preceding.range ∈ allocator.freeRanges := mem_map_of_mem member
    have rangeNonempty := proper.nonempty
    rw [ne_eq, byStart_eq_gt_iff proper.start_bound (free.start_bound member)] at starts
    have before : preceding.range.finish ≤ range.start := by
      have apart := clear _ known
      rw [Range.Apart] at apart
      grind
    rw [ensure_true before, ok_bind]
    split
    · rename_i touch
      obtain ⟨middle, taken⟩ := @exists_takeFreeRange choice _ _ free known
      obtain ⟨freeMiddle, split⟩ := free.takeFreeRange taken
      have joined := free.clear_join split clear touch (.inl ⟨rfl, rfl⟩)
      rw [removeFreeRangeByStartElt, taken, ok_bind]
      exact freeMiddle.exists_insertCoalescedFreeRange ⟨by grind, proper.bound⟩ joined
    · exact free.exists_insertCoalescedFreeRange proper clear

theorem createEmptyRangeNolock {fuel : Nat}
    (done : CoalescingAllocator.createEmptyRangeNolock choice fuel allocator range = .ok next)
    (startBound : range.start.toNat < 2 ^ 31) (bound : range.finish.toNat < 2 ^ 31) :
    next.FreeSorted ∧ (range.start < range.finish → Clear allocator range) := by
  induction fuel generalizing allocator range with
  | zero => cases done
  | succ fuel induction =>
    have searched := findFirstGreaterThanOrEqualTo_sorted (free.ascending startBound) free.sorted
    have less : ∀ elt ∈ allocator.freeByStartTree.toList, byStart range elt = .lt →
        ¬range.start ≤ elt.range.start := fun elt member earlier =>
      UInt32.not_le.mpr ((byStart_eq_lt_iff startBound (free.start_bound member)).mp earlier)
    rw [CoalescingAllocator.createEmptyRangeNolock] at done
    split at done
    · rename_i search
      rw [search] at searched
      exact free.coalesceLeft startBound bound (forall_mem_map.mpr fun elt member starts =>
        absurd starts (less elt member (searched elt member))) done
    · rename_i following search
      rw [search] at searched
      obtain ⟨member, -, others⟩ := searched
      have known : following.range ∈ allocator.freeRanges := mem_map_of_mem member
      have proper := free.tidy.proper _ known
      obtain ⟨_, checked, rest⟩ := of_bind done
      have beyond : following.range.start ≥ range.finish := ensure_eq_ok_iff.mp checked
      split at rest
      · obtain ⟨middle, taken, created⟩ := of_bind rest
        obtain ⟨freeMiddle, split⟩ := free.takeFreeRange taken
        obtain ⟨freeNext, clear⟩ := induction freeMiddle created startBound proper.bound
        refine ⟨freeNext, fun nonempty other otherIn => ?_⟩
        rcases mem_cons.mp (split.mem_iff.mp otherIn) with rfl | inMiddle
        · exact .inl beyond
        · have follows := UInt32.lt_of_le_of_lt beyond proper.nonempty
          have within : range.Within ⟨range.start, following.range.finish⟩ :=
            ⟨UInt32.le_refl _, UInt32.le_of_lt follows⟩
          exact (clear (UInt32.lt_trans nonempty follows) other inMiddle).of_within within
      · refine free.coalesceLeft startBound bound (forall_mem_map.mpr fun elt eltIn starts => ?_)
          rest
        rcases others elt eltIn with rfl | later | earlier
        · exact beyond
        · exact UInt32.le_trans beyond (UInt32.le_of_lt later)
        · exact absurd starts (less elt eltIn earlier)

/-- A range that overlaps no free range is accepted: each round takes a free range
that the new one touches. -/
theorem exists_createEmptyRangeNolock {fuel : Nat} (enough : allocator.freeRanges.length < fuel)
    (proper : range.Proper) (clear : Clear allocator range) :
    ∃ next, CoalescingAllocator.createEmptyRangeNolock choice fuel allocator range = .ok next := by
  induction fuel generalizing allocator range with
  | zero => cases enough
  | succ fuel induction =>
    have searched := findFirstGreaterThanOrEqualTo_sorted (free.ascending proper.start_bound)
      free.sorted
    rw [CoalescingAllocator.createEmptyRangeNolock]
    split
    · exact free.exists_coalesceLeft proper clear
    · rename_i following search
      rw [search] at searched
      obtain ⟨member, starts, -⟩ := searched
      have known : following.range ∈ allocator.freeRanges := mem_map_of_mem member
      have followingProper := free.tidy.proper _ known
      have nonempty := followingProper.nonempty
      rw [ne_eq, byStart_eq_lt_iff proper.start_bound (free.start_bound member)] at starts
      have beyond : following.range.start ≥ range.finish := by
        have apart := clear _ known
        rw [Range.Apart] at apart
        grind
      rw [ensure_true beyond, ok_bind]
      split
      · rename_i touch
        obtain ⟨middle, taken⟩ := @exists_takeFreeRange choice _ _ free known
        obtain ⟨freeMiddle, split⟩ := free.takeFreeRange taken
        have joined := free.clear_join split clear touch.symm (.inr ⟨rfl, rfl⟩)
        have fewer : middle.freeRanges.length < fuel := by
          have lengths := split.length_eq
          rw [length_cons] at lengths
          omega
        rw [removeFreeRangeByStartElt, taken, ok_bind]
        exact induction freeMiddle fewer ⟨by grind, followingProper.bound⟩ joined
      · exact free.exists_coalesceLeft proper clear

/-! ## Every reachable state -/

theorem congr (bySize : next.freeBySizeTree = allocator.freeBySizeTree)
    (byStart : next.freeByStartTree = allocator.freeByStartTree) : next.FreeSorted := by
  have ranges : next.freeRanges = allocator.freeRanges := by rw [freeRanges, freeRanges, byStart]
  exact ⟨by rw [bySize, ranges]; exact free.same, ranges ▸ free.tidy, byStart ▸ free.sorted,
    bySize ▸ free.sortedBySize⟩

theorem insertAllocated
    (done : allocator.insertAllocated choice elt = .ok next) : next.FreeSorted := by
  obtain ⟨tree, -, same⟩ := of_bind done
  cases same
  cases elt.userObj with
  | none => exact free.congr rfl rfl
  | some obj => exact free.congr rfl rfl

theorem allocateRange {size : UInt32} {userObj : Nat} {result : Option Range}
    (done : allocator.allocateRange choice size userObj = .ok (result, next)) :
    next.FreeSorted := by
  rw [CoalescingAllocator.allocateRange] at done
  split at done
  · cases done
    exact free
  · rename_i positive
    split at done
    · cases done
      exact free
    · rename_i assigned search
      obtain ⟨⟨consumed, final⟩, consuming, same⟩ := of_bind done
      cases same
      have known : assigned ∈ allocator.freeRanges :=
        free.same.mem_iff.mp (mem_of_findFirstGreaterThanOrEqualTo search)
      have bound := (free.tidy.proper _ known).bound
      obtain ⟨_, checked, afterCheck⟩ := of_bind consuming
      obtain ⟨taken, taking, afterTake⟩ := of_bind afterCheck
      obtain ⟨inserted, inserting, afterInsert⟩ := of_bind afterTake
      obtain ⟨leftover, creating, same⟩ := of_bind afterInsert
      cases same
      have within := (consumed_within positive (ensure_eq_ok_iff.mp checked)).2
      have freeInserted := (free.takeFreeRange taking).1.insertAllocated inserting
      rw [createLeftover] at creating
      split at creating
      · refine (freeInserted.createEmptyRangeNolock creating ?_ bound).1
        exact Nat.lt_of_le_of_lt (UInt32.le_iff_toNat_le.mp within) bound
      · cases creating
        exact freeInserted

theorem insertFragment
    (done : allocator.insertFragment choice elt = .ok next) : next.FreeSorted := by
  rw [CoalescingAllocator.insertFragment] at done
  split at done
  · exact free.insertAllocated done
  · cases done
    exact free

theorem freeSubrange
    (done : allocator.freeSubrange choice elt range = .ok next) (proper : range.Proper) :
    next.FreeSorted := by
  obtain ⟨tree, -, afterRemove⟩ := of_bind done
  obtain ⟨withLeft, insertedLeft, afterLeft⟩ := of_bind afterRemove
  obtain ⟨withRight, insertedRight, created⟩ := of_bind afterLeft
  have removed : ({ allocator with allocatedTree := tree }).FreeSorted := free.congr rfl rfl
  have inserted := (removed.insertFragment insertedLeft).insertFragment insertedRight
  have dropped : (withRight.dropRef elt.userObj).FreeSorted := by
    cases elt.userObj with
    | none => exact inserted
    | some obj => exact inserted.congr rfl rfl
  exact (dropped.createEmptyRangeNolock created proper.start_bound proper.bound).1

theorem freeRange (bound : range.finish.toNat < 2 ^ 31)
    (done : allocator.freeRange choice range = .ok next) : next.FreeSorted := by
  refine Loop.run_invariant (fun state => state.1.FreeSorted ∧ state.2.finish.toNat < 2 ^ 31)
    FreeSorted ?_ ?_ ⟨free, bound⟩ done
  · rintro ⟨before, range⟩ after ⟨free, bound⟩ goes
    rcases freeRound_eq_ok goes with (absurd | ⟨_, same⟩) |
      ⟨elt, -, overlap, next, -, within, nonempty, freed, same⟩
    · cases absurd
    · cases same
      exact ⟨free, bound⟩
    · cases same
      have overlapBound := Nat.lt_of_le_of_lt (UInt32.le_iff_toNat_le.mp within.2) bound
      exact ⟨free.freeSubrange freed ⟨nonempty, overlapBound⟩, bound⟩
  · rintro ⟨before, range⟩ result ⟨free, -⟩ leaves
    rcases freeRound_eq_ok leaves with (same | ⟨_, absurd⟩) | ⟨_, _, _, _, -, -, -, -, absurd⟩
    · cases same
      exact free
    · cases absurd
    · cases absurd

end FreeSorted

/-- The states after calls that completed, with ranges below 2^31. -/
inductive Reachable : CoalescingAllocator → Prop
  | new (allowRedundantFrees : Bool) : Reachable (new allowRedundantFrees)
  | create {allocator next : CoalescingAllocator} {choice : Choice} {range : Range}
      (reached : Reachable allocator) (startBound : range.start.toNat < 2 ^ 31)
      (bound : range.finish.toNat < 2 ^ 31)
      (done : allocator.createEmptyRange choice range = .ok next) : Reachable next
  | allocate {allocator next : CoalescingAllocator} {choice : Choice} {size : UInt32}
      {userObj : Nat} {result : Option Range} (reached : Reachable allocator)
      (done : allocator.allocateRange choice size userObj = .ok (result, next)) : Reachable next
  | free {allocator next : CoalescingAllocator} {choice : Choice} {range : Range}
      (reached : Reachable allocator) (bound : range.finish.toNat < 2 ^ 31)
      (done : allocator.freeRange choice range = .ok next) : Reachable next

theorem Reachable.freeSorted (reached : Reachable allocator) : allocator.FreeSorted := by
  induction reached with
  | new allowRedundantFrees => exact FreeSorted.new allowRedundantFrees
  | create _ startBound bound done induction =>
    exact (induction.createEmptyRangeNolock done startBound bound).1
  | allocate _ done induction => exact induction.allocateRange done
  | free _ bound done induction => exact induction.freeRange bound done

/-- What the comment on `create_empty_range` promises of a range: the call asserts that
the range overlaps no existing free or allocated range, so it completes only then. -/
def RejectsOverlap (choice : Choice) (allocator : CoalescingAllocator) (range : Range) : Prop :=
  (∃ next, allocator.createEmptyRange choice range = .ok next) →
    (∀ free ∈ allocator.freeRanges, range.Apart free) ∧
      ∀ allocated ∈ allocator.allocatedRanges, range.Apart allocated

/-- In every reachable state the promise holds of exactly the ranges that overlap no
allocated range or overlap a free one. -/
theorem create_rejects_overlap_iff (reached : Reachable allocator) (proper : range.Proper)
    (enough : allocator.freeRanges.length < choice.fuel) :
    RejectsOverlap choice allocator range ↔
      (∀ allocated ∈ allocator.allocatedRanges, range.Apart allocated) ∨
        ∃ free ∈ allocator.freeRanges, ¬range.Apart free := by
  have sorted := reached.freeSorted
  constructor
  · intro rejects
    by_cases clear : Clear allocator range
    · exact .inl (rejects (sorted.exists_createEmptyRangeNolock enough proper clear)).2
    · rw [Clear] at clear
      push Not at clear
      exact .inr clear
  · rintro condition ⟨next, done⟩
    have clear := (sorted.createEmptyRangeNolock done proper.start_bound proper.bound).2
      proper.nonempty
    refine ⟨clear, condition.resolve_right ?_⟩
    rintro ⟨free, member, overlaps⟩
    exact overlaps (clear free member)

/-- The allocator after ten bytes became free. -/
def tenFree : CoalescingAllocator :=
  { new true with
    freeBySizeTree := .node .empty ⟨0, 10⟩ .empty
    freeByStartTree := .node .empty ⟨⟨0, 10⟩, none⟩ .empty }

theorem reachable_tenFree : Reachable tenFree :=
  @Reachable.create _ _ ⟨.spine, .spine, 2⟩ ⟨0, 10⟩ (.new true) (by decide) (by decide) rfl

/-- A range that overlaps free bytes is rejected. -/
theorem create_rejects_overlap_free : RejectsOverlap ⟨.spine, .spine, 2⟩ tenFree ⟨5, 15⟩ :=
  (create_rejects_overlap_iff reachable_tenFree ⟨by decide, by decide⟩ (by decide)).mpr
    (.inr ⟨⟨0, 10⟩, mem_singleton_self _, by rw [Range.Apart]; decide⟩)

/-- Allocated bytes are created again. -/
theorem create_accepts_allocated :
    ∃ allocator, Reachable allocator ∧ ¬RejectsOverlap ⟨.spine, .spine, 2⟩ allocator ⟨0, 10⟩ := by
  refine ⟨_, @Reachable.allocate _ _ ⟨.spine, .spine, 2⟩ 10 0 (some ⟨0, 10⟩) reachable_tenFree rfl,
    fun rejects => ?_⟩
  have apart := (rejects ⟨_, rfl⟩).2 ⟨0, 10⟩ (mem_singleton_self _)
  rw [Range.Apart] at apart
  revert apart
  decide

end CoalescingAllocator

end Embassies.Kvm
