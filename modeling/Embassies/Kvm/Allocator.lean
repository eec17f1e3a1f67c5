import Embassies.Library.Loop
import Embassies.Library.SearchTree
import Mathlib.Logic.Function.Basic

/-!
# The coalescing allocator

`CoalescingAllocator` hands out ranges of 32-bit addresses.  The free ranges
are kept in two trees, by size and by start, and the allocated ranges in a
third.  A free may cover any part of the allocated ranges: what is left of an
allocation stays in the tree as one or two fragments that share the user's
object.

The trees compare the starts, and the sizes, by the sign of their difference as
an `int`.  An operation takes a `Choice`, which says how the trees are balanced
and how many rounds a loop is given.
-/

namespace Embassies.Kvm

open Library Library.Checked

/-- `Range`. -/
structure Range where
  start : UInt32
  finish : UInt32
deriving DecidableEq

namespace Range

/-- `size`. -/
def size (range : Range) : UInt32 :=
  if range.finish < range.start then 0 else range.finish - range.start

/-- `intersect`. -/
def intersect (range other : Range) : Range where
  start := if range.start > other.start then range.start else other.start
  finish := if range.finish < other.finish then range.finish else other.finish

end Range

/-- The outcome of a comparison that returns a difference. -/
def ordering (difference : Int32) : Ordering :=
  if difference = 0 then .eq else if difference < 0 then .lt else .gt

/-- `RangeBySizeKey::cmp`. -/
def bySizeCmp (left right : Range) : Int32 :=
  let difference := (left.size - right.size).toInt32
  if difference ≠ 0 then difference else (left.start - right.start).toInt32

/-- `RangeByStartKey::cmp`. -/
def byStartCmp (left right : Range) : Int32 :=
  (left.start - right.start).toInt32

/-- `RangeByStartElt`; the user's objects are numbered and a free range has
none. -/
structure RangeByStartElt where
  range : Range
  userObj : Option Nat
deriving DecidableEq

/-- The comparison of an element of a tree by size with a range. -/
def bySize (range : Range) (elt : Range) : Ordering :=
  ordering (bySizeCmp elt range)

/-- The comparison of an element of a tree by start with a range. -/
def byStart (range : Range) (elt : RangeByStartElt) : Ordering :=
  ordering (byStartCmp elt.range range)

/-- `CoalescingAllocator`, with the reference counts of the user's objects and
the objects that were deleted. -/
structure CoalescingAllocator where
  allowRedundantFrees : Bool
  freeBySizeTree : SearchTree Range
  freeByStartTree : SearchTree RangeByStartElt
  allocatedTree : SearchTree RangeByStartElt
  refcount : Nat → Nat
  deleted : List Nat

/-- What the environment of an operation chooses. -/
structure Choice where
  balanceRange : SearchTree.Balance Range
  balanceElt : SearchTree.Balance RangeByStartElt
  fuel : Nat

/-- What stops a run of the code. -/
inductive Stop where
  /-- A `lite_assert` whose condition is false. -/
  | assertion
  | nullPointer
  /-- A loop was not given enough rounds. -/
  | exhausted
deriving DecidableEq

namespace CoalescingAllocator

/-- The constructor. -/
def new (allowRedundantFrees : Bool) : CoalescingAllocator :=
  ⟨allowRedundantFrees, .empty, .empty, .empty, fun _ => 0, []⟩

/-! ## References -/

/-- `add_ref`, from the constructor of an element. -/
def addRef (allocator : CoalescingAllocator) : Option Nat → CoalescingAllocator
  | none => allocator
  | some obj =>
    { allocator with
      refcount := Function.update allocator.refcount obj
        (allocator.refcount obj + 1) }

/-- `drop_ref`, from the destructor of an element. -/
def dropRef (allocator : CoalescingAllocator) : Option Nat → CoalescingAllocator
  | none => allocator
  | some obj =>
    { allocator with
      refcount := Function.update allocator.refcount obj
        (allocator.refcount obj - 1)
      deleted :=
        if allocator.refcount obj = 1 then obj :: allocator.deleted
        else allocator.deleted }

/-! ## Free ranges -/

/-- A free range is taken out of both trees. -/
def takeFreeRange (choice : Choice) (allocator : CoalescingAllocator)
    (range : Range) : Except Stop CoalescingAllocator := do
  let freeBySizeTree ← allocator.freeBySizeTree.remove choice.balanceRange
    (bySize range) .assertion
  let freeByStartTree ← allocator.freeByStartTree.remove choice.balanceElt
    (byStart range) .assertion
  return { allocator with freeBySizeTree, freeByStartTree }

/-- `_remove_free_range_by_start_elt`. -/
def removeFreeRangeByStartElt (choice : Choice) (allocator : CoalescingAllocator)
    (startElt : RangeByStartElt) : Except Stop CoalescingAllocator :=
  allocator.takeFreeRange choice startElt.range

/-- `_insert_coalesced_free_range`. -/
def insertCoalescedFreeRange (choice : Choice) (allocator : CoalescingAllocator)
    (range : Range) : Except Stop CoalescingAllocator := do
  ensure (range.size > 0) .assertion
  let freeBySizeTree ← allocator.freeBySizeTree.insert choice.balanceRange
    (bySize range) range .assertion
  let freeByStartTree ← allocator.freeByStartTree.insert choice.balanceElt
    (byStart range) ⟨range, none⟩ .assertion
  return { allocator with freeBySizeTree, freeByStartTree }

/-- The second half of `_create_empty_range_nolock`: the new range is joined
with the free range that precedes it, if they touch. -/
def coalesceLeft (choice : Choice) (allocator : CoalescingAllocator)
    (newRange : Range) : Except Stop CoalescingAllocator :=
  match allocator.freeByStartTree.findFirstLessThanOrEqualTo (byStart newRange) with
  | none => allocator.insertCoalescedFreeRange choice newRange
  | some preceding => do
    ensure (preceding.range.finish ≤ newRange.start) .assertion
    if preceding.range.finish = newRange.start then do
      let allocator ← allocator.removeFreeRangeByStartElt choice preceding
      allocator.insertCoalescedFreeRange choice
        ⟨preceding.range.start, newRange.finish⟩
    else
      allocator.insertCoalescedFreeRange choice newRange

/-- `_create_empty_range_nolock`. -/
def createEmptyRangeNolock (choice : Choice) :
    Nat → CoalescingAllocator → Range → Except Stop CoalescingAllocator
  | 0, _, _ => .error .exhausted
  | fuel + 1, allocator, newRange =>
    match allocator.freeByStartTree.findFirstGreaterThanOrEqualTo
        (byStart newRange) with
    | none => allocator.coalesceLeft choice newRange
    | some following => do
      ensure (following.range.start ≥ newRange.finish) .assertion
      if following.range.start = newRange.finish then do
        let allocator ← allocator.removeFreeRangeByStartElt choice following
        createEmptyRangeNolock choice fuel allocator
          ⟨newRange.start, following.range.finish⟩
      else
        allocator.coalesceLeft choice newRange

/-- `create_empty_range`. -/
def createEmptyRange (choice : Choice) (allocator : CoalescingAllocator)
    (range : Range) : Except Stop CoalescingAllocator :=
  createEmptyRangeNolock choice choice.fuel allocator range

/-! ## Allocating -/

/-- An element is put into the tree of allocated ranges. -/
def insertAllocated (choice : Choice) (allocator : CoalescingAllocator)
    (elt : RangeByStartElt) : Except Stop CoalescingAllocator := do
  let allocator := allocator.addRef elt.userObj
  let allocatedTree ← allocator.allocatedTree.insert choice.balanceElt
    (byStart elt.range) elt .assertion
  return { allocator with allocatedTree }

/-- A range that has no bytes is not put back. -/
def createLeftover (choice : Choice) (allocator : CoalescingAllocator)
    (leftover : Range) : Except Stop CoalescingAllocator :=
  if leftover.size > 0 then
    createEmptyRangeNolock choice choice.fuel allocator leftover
  else
    .ok allocator

/-- The first bytes of a free range are allocated and the others put back. -/
def consume (choice : Choice) (allocator : CoalescingAllocator) (assigned : Range)
    (size : UInt32) (userObj : Nat) : Except Stop (Range × CoalescingAllocator) := do
  let consumed : Range := ⟨assigned.start, assigned.start + size⟩
  ensure ((consumed.intersect assigned).size = size) .assertion
  let allocator ← allocator.takeFreeRange choice assigned
  let allocator ← allocator.insertAllocated choice ⟨consumed, some userObj⟩
  let allocator ← allocator.createLeftover choice ⟨consumed.finish, assigned.finish⟩
  return (consumed, allocator)

/-- `allocate_range`; there is no range when it returns false. -/
def allocateRange (choice : Choice) (allocator : CoalescingAllocator)
    (size : UInt32) (userObj : Nat) :
    Except Stop (Option Range × CoalescingAllocator) :=
  if size = 0 then
    .ok (none, allocator)
  else
    match allocator.freeBySizeTree.findFirstGreaterThanOrEqualTo
        (bySize ⟨0, size⟩) with
    | none => .ok (none, allocator)
    | some assigned => do
      let (consumed, allocator) ← allocator.consume choice assigned size userObj
      return (some consumed, allocator)

/-- `lookup_value`. -/
def lookupValue (allocator : CoalescingAllocator) (value : UInt32) :
    Option RangeByStartElt :=
  match allocator.allocatedTree.findFirstLessThanOrEqualTo
      (byStart ⟨value, value + 1⟩) with
  | none => none
  | some elt =>
    if elt.range.start ≤ value ∧ value < elt.range.finish then some elt else none

/-! ## Freeing -/

/-- A fragment that has no bytes is not kept. -/
def insertFragment (choice : Choice) (allocator : CoalescingAllocator)
    (fragment : RangeByStartElt) : Except Stop CoalescingAllocator :=
  if fragment.range.size > 0 then allocator.insertAllocated choice fragment
  else .ok allocator

/-- `_free_subrange`. -/
def freeSubrange (choice : Choice) (allocator : CoalescingAllocator)
    (allocated : RangeByStartElt) (overlap : Range) :
    Except Stop CoalescingAllocator := do
  let allocatedTree ← allocator.allocatedTree.remove choice.balanceElt
    (byStart allocated.range) .assertion
  let allocator ← { allocator with allocatedTree }.insertFragment choice
    ⟨⟨allocated.range.start, overlap.start⟩, allocated.userObj⟩
  let allocator ← allocator.insertFragment choice
    ⟨⟨overlap.finish, allocated.range.finish⟩, allocated.userObj⟩
  let allocator := allocator.dropRef allocated.userObj
  createEmptyRangeNolock choice choice.fuel allocator overlap

/-- What a round of `free_range` does when nothing is allocated at the start of
the range: go on at the next allocated range, or leave. -/
def skipGap (allocator : CoalescingAllocator) (range : Range) :
    Except Stop ((CoalescingAllocator × Range) ⊕ CoalescingAllocator) := do
  ensure (allocator.allowRedundantFrees = true) .assertion
  match allocator.allocatedTree.findFirstGreaterThanOrEqualTo (byStart range) with
  | none => return .inr allocator
  | some next =>
    ensure (byStart range next = .gt) .assertion
    return .inl (allocator, ⟨next.range.start, range.finish⟩)

/-- One round of `free_range`. -/
def freeRound (choice : Choice) (state : CoalescingAllocator × Range) :
    Except Stop ((CoalescingAllocator × Range) ⊕ CoalescingAllocator) :=
  if state.2.size > 0 then
    match state.1.allocatedTree.findFirstLessThanOrEqualTo (byStart state.2) with
    | none => state.1.skipGap state.2
    | some first =>
      if (state.2.intersect first.range).size = 0 then
        state.1.skipGap state.2
      else do
        let allocator ← state.1.freeSubrange choice first
          (state.2.intersect first.range)
        return .inl (allocator,
          ⟨(state.2.intersect first.range).finish, state.2.finish⟩)
  else
    .ok (.inr state.1)

/-- `free_range`. -/
def freeRange (choice : Choice) (allocator : CoalescingAllocator)
    (range : Range) : Except Stop CoalescingAllocator :=
  Loop.run .exhausted (freeRound choice) choice.fuel (allocator, range)

end CoalescingAllocator

end Embassies.Kvm
