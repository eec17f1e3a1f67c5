import Embassies.Kvm.Allocator

/-!
# The memory of the guest

`ZoogVM` gives parts of one region of its own memory to the guest.  Each
allocation is a `MemSlot`, which remembers the range it was given, also after
the guest has freed a part of it.  `map_region_to_host` translates a region of
the guest to an address of the host.  It compares the end of the region, which
may have wrapped around, with the end of the slot, which may have been freed,
and takes a region that ends where its slot ends for one that is too long.
-/

namespace Embassies.Kvm

open Library Library.Checked

/-- `MemSlot`, after it was configured. -/
structure MemSlot where
  guestRange : Range
  hostAddr : UInt32
deriving DecidableEq

/-- `PAGE_SIZE`. -/
def pageSize : UInt32 := 0x1000

/-- `round_up_to_page`. -/
def roundUpToPage (reqSize : UInt32) : UInt32 :=
  ((reqSize - 1) ||| (pageSize - 1)) + 1

/-- `round_down_to_page`. -/
def roundDownToPage (reqSize : UInt32) : UInt32 :=
  reqSize &&& ~~~(pageSize - 1)

/-- `host_phys_memory`, where the region is mapped. -/
def hostPhysMemory : UInt32 := 0x18000000

/-- `host_phys_memory_size`. -/
def hostPhysMemorySize : UInt32 := (3 : UInt32) <<< 29

/-- `ZoogVM`, as far as the memory of the guest is concerned; a pointer to a
slot is its place in the order of allocation. -/
structure ZoogVM where
  guestMemoryAllocator : CoalescingAllocator
  slots : Nat → MemSlot
  numSlots : Nat
  hostAlarmsPage : Nat

namespace ZoogVM

/-- A new slot is configured. -/
def configure (vm : ZoogVM) (guestRange : Range) : ZoogVM :=
  { vm with
    slots := Function.update vm.slots vm.numSlots
      ⟨guestRange, hostPhysMemory + guestRange.start⟩
    numSlots := vm.numSlots + 1 }

/-- The checks of `allocate_guest_memory` on the range that it got. -/
def acceptRange (vm : ZoogVM) (roundSize : UInt32) :
    Option Range → Except Stop (Option Nat × ZoogVM)
  | none => .ok (none, vm)
  | some guestRange => do
    ensure (guestRange.finish ≤ hostPhysMemorySize) .assertion
    ensure (guestRange.size = roundSize) .assertion
    return (some vm.numSlots, vm.configure guestRange)

/-- `allocate_guest_memory`. -/
def allocateGuestMemory (choice : Choice) (vm : ZoogVM) (reqSize : UInt32) :
    Except Stop (Option Nat × ZoogVM) := do
  let (guestRange, guestMemoryAllocator) ←
    vm.guestMemoryAllocator.allocateRange choice (roundUpToPage reqSize) vm.numSlots
  { vm with guestMemoryAllocator }.acceptRange (roundUpToPage reqSize) guestRange

/-- The range that `free_guest_memory` frees, in whole pages. -/
def freedRange (guestStart size : UInt32) : Range :=
  ⟨roundDownToPage guestStart, roundUpToPage (guestStart + size)⟩

/-- `free_guest_memory`. -/
def freeGuestMemory (choice : Choice) (vm : ZoogVM) (guestStart size : UInt32) :
    Except Stop ZoogVM := do
  ensure (((freedRange guestStart size).intersect
    (vm.slots vm.hostAlarmsPage).guestRange).size = 0) .assertion
  let guestMemoryAllocator ← vm.guestMemoryAllocator.freeRange choice
    (freedRange guestStart size)
  return { vm with guestMemoryAllocator }

/-- A page that the constructor needs. -/
def allocatePage (choice : Choice) (vm : ZoogVM) : Except Stop (Nat × ZoogVM) := do
  let (slot, vm) ← vm.allocateGuestMemory choice pageSize
  match slot with
  | none => .error .nullPointer
  | some slot => return (slot, vm)

/-- `_map_physical_memory`. -/
def mapPhysicalMemory (choice : Choice) : Except Stop ZoogVM := do
  let guestMemoryAllocator ← (CoalescingAllocator.new true).createEmptyRange choice
    ⟨0x10001000, hostPhysMemorySize⟩
  return ⟨guestMemoryAllocator, fun _ => ⟨⟨0, 0⟩, 0⟩, 0, 0⟩

/-- The constructor: the pages for the alarms and for the interrupts. -/
def new (first second third : Choice) : Except Stop ZoogVM := do
  let vm ← mapPhysicalMemory first
  let (hostAlarmsPage, vm) ← vm.allocatePage second
  let (_, vm) ← { vm with hostAlarmsPage }.allocatePage third
  return vm

/-- `map_region_to_host`. -/
def mapRegionToHost (vm : ZoogVM) (guestStart size : UInt32) :
    Except Stop (Option UInt32) :=
  match (vm.guestMemoryAllocator.lookupValue guestStart).bind
      RangeByStartElt.userObj with
  | none => .ok none
  | some slot => do
    let memSlot := vm.slots slot
    ensure (guestStart ≥ memSlot.guestRange.start) .assertion
    return if guestStart + size <
        memSlot.guestRange.start + memSlot.guestRange.size then
      some (memSlot.hostAddr + (guestStart - memSlot.guestRange.start))
    else none

/-- The states that the monitor can reach. -/
inductive Reached : ZoogVM → Prop where
  | new {vm : ZoogVM} (first second third : Choice)
      (done : ZoogVM.new first second third = .ok vm) : Reached vm
  | allocate {vm next : ZoogVM} {result : Option Nat} (choice : Choice)
      (reqSize : UInt32) (before : Reached vm)
      (done : vm.allocateGuestMemory choice reqSize = .ok (result, next)) :
      Reached next
  | free {vm next : ZoogVM} (choice : Choice) (guestStart size : UInt32)
      (before : Reached vm)
      (done : vm.freeGuestMemory choice guestStart size = .ok next) : Reached next

/-- The elements that are allocated. -/
def allocated (vm : ZoogVM) : List RangeByStartElt :=
  vm.guestMemoryAllocator.allocatedTree.toList

end ZoogVM

end Embassies.Kvm
