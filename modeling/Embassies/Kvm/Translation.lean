import Embassies.Kvm.AllocatorOps
import Embassies.Kvm.GuestMemory

/-!
# The translation of guest memory

In every state of the monitor the allocated elements are parts of the ranges of
their slots, and fragments of one slot do not touch.  So a region of the guest
is allocated inside one slot exactly when it lies inside one element, and it can
be said exactly for which regions `map_region_to_host` is right.
-/

namespace Embassies.Kvm

open Library Library.Checked List Function CoalescingAllocator UInt32

namespace ZoogVM

/-! ## Slots and fragments -/

/-- Two elements do not overlap, and fragments of one slot do not touch. -/
def Separate (left right : RangeByStartElt) : Prop :=
  left.range.Apart right.range ∧
    (left.userObj = right.userObj →
      left.range.finish ≠ right.range.start ∧ right.range.finish ≠ left.range.start)

theorem Separate.symm {left right : RangeByStartElt}
    (separate : Separate left right) : Separate right left :=
  ⟨separate.1.symm, fun same => (separate.2 same.symm).symm⟩

instance : Std.Symm Separate := ⟨fun _ _ => Separate.symm⟩

/-- Every element is a part of the range of its slot. -/
def Placed (slots : Nat → MemSlot) (numSlots : Nat) (elt : RangeByStartElt) : Prop :=
  ∃ slot, elt.userObj = some slot ∧ slot < numSlots ∧
    (slots slot).guestRange.Proper ∧ elt.range.Within (slots slot).guestRange

/-- The allocated elements are parts of their slots and apart from each other. -/
structure Fragmented (slots : Nat → MemSlot) (numSlots : Nat)
    (elts : List RangeByStartElt) : Prop where
  nonempty : ∀ elt ∈ elts, elt.range.start < elt.range.finish
  placed : ∀ elt ∈ elts, Placed slots numSlots elt
  separate : elts.Pairwise Separate

namespace Fragmented

variable {slots : Nat → MemSlot} {numSlots : Nat}
  {elts others : List RangeByStartElt} {elt : RangeByStartElt}

theorem perm (fragmented : Fragmented slots numSlots elts) (same : elts.Perm others) :
    Fragmented slots numSlots others where
  nonempty elt member := fragmented.nonempty elt (same.mem_iff.mpr member)
  placed elt member := fragmented.placed elt (same.mem_iff.mpr member)
  separate := (same.pairwise_iff fun separate => separate.symm).mp fragmented.separate

variable {fragment : RangeByStartElt} {overlap : Range}

theorem mem_fragments : fragment ∈ fragments elt overlap ↔ fragment.userObj = elt.userObj ∧
        fragment.range.start < fragment.range.finish ∧
        (fragment.range = ⟨elt.range.start, overlap.start⟩ ∨
          fragment.range = ⟨overlap.finish, elt.range.finish⟩) := by
  rw [fragments, mem_map]
  constructor
  · rintro ⟨range, member, rfl⟩
    rcases mem_append.mp member with left | right
    · obtain ⟨rfl, nonempty⟩ := mem_kept.mp left
      exact ⟨rfl, nonempty, .inl rfl⟩
    · obtain ⟨rfl, nonempty⟩ := mem_kept.mp right
      exact ⟨rfl, nonempty, .inr rfl⟩
  · rintro ⟨sameObj, nonempty, place⟩
    refine ⟨fragment.range, mem_append.mpr ?_, ?_⟩
    · rcases place with left | right
      · exact .inl (mem_kept.mpr ⟨left, left ▸ nonempty⟩)
      · exact .inr (mem_kept.mpr ⟨right, right ▸ nonempty⟩)
    · rw [← sameObj]

theorem separate_fragments (nonempty : elt.range.start < elt.range.finish)
    (middle : overlap.start < overlap.finish) :
    (fragments elt overlap).Pairwise Separate := by
  have alone : ∀ range : Range, ((kept range).map
      fun range => (⟨range, elt.userObj⟩ : RangeByStartElt)).Pairwise Separate := by
    intro range
    rw [kept]
    split
    · exact pairwise_singleton _ _
    · exact .nil
  rw [fragments, map_append, pairwise_append]
  refine ⟨alone _, alone _, ?_⟩
  intro left leftIn right rightIn
  obtain ⟨_, leftKept, rfl⟩ := mem_map.mp leftIn
  obtain ⟨_, rightKept, rfl⟩ := mem_map.mp rightIn
  obtain ⟨rfl, -⟩ := mem_kept.mp leftKept
  obtain ⟨rfl, -⟩ := mem_kept.mp rightKept
  refine ⟨.inl (UInt32.le_of_lt middle), fun _ => ⟨?_, ?_⟩⟩
  · exact UInt32.ne_of_lt middle
  · exact (UInt32.ne_of_lt nonempty).symm

theorem separate_fragment {other : RangeByStartElt} (member : fragment ∈ fragments elt overlap)
    (first : elt.range.start ≤ overlap.start)
    (middle : overlap.start < overlap.finish)
    (last : overlap.finish ≤ elt.range.finish)
    (otherNonempty : other.range.start < other.range.finish)
    (separate : Separate elt other) : Separate fragment other := by
  obtain ⟨sameObj, nonempty, place⟩ := mem_fragments.mp member
  obtain ⟨apart, untouched⟩ := separate
  have within : fragment.range.Within elt.range := by
    rcases place with left | right
    · rw [left]
      exact ⟨UInt32.le_refl _, UInt32.le_trans (UInt32.le_of_lt middle) last⟩
    · rw [right]
      exact ⟨UInt32.le_trans first (UInt32.le_of_lt middle), UInt32.le_refl _⟩
  refine ⟨apart.of_within within, fun same => ?_⟩
  obtain ⟨before, after⟩ := untouched (sameObj.symm.trans same)
  -- the new ends lie inside the element, where no other element is
  rcases place with left | right
  · rw [left]
    refine ⟨?_, after⟩
    intro touch
    rcases apart with beyond | earlier
    · grind
    · grind
  · rw [right]
    refine ⟨before, ?_⟩
    intro touch
    rcases apart with beyond | earlier
    · grind
    · grind

theorem cutsOne (fragmented : Fragmented slots numSlots elts)
    (cuts : CoalescingAllocator.CutsOne elts others) :
    Fragmented slots numSlots others := by
  obtain ⟨elt, overlap, rest, split, first, middle, last, result⟩ := cuts
  have whole := fragmented.perm split
  obtain ⟨eltSeparate, restSeparate⟩ := pairwise_cons.mp whole.separate
  have eltNonempty := whole.nonempty elt mem_cons_self
  obtain ⟨slot, owner, known, slotProper, eltWithin⟩ := whole.placed elt mem_cons_self
  refine Fragmented.perm ⟨?_, ?_, ?_⟩ result.symm
  · intro part member
    rcases mem_append.mp member with fragment | other
    · exact (mem_fragments.mp fragment).2.1
    · exact whole.nonempty part (mem_cons_of_mem _ other)
  · intro part member
    rcases mem_append.mp member with fragment | other
    · obtain ⟨sameObj, -, place⟩ := mem_fragments.mp fragment
      refine ⟨slot, sameObj.trans owner, known, slotProper, ?_⟩
      rcases place with left | right
      · rw [left]
        exact ⟨eltWithin.1, UInt32.le_trans (UInt32.le_trans
          (UInt32.le_of_lt middle) last) eltWithin.2⟩
      · rw [right]
        exact ⟨UInt32.le_trans (UInt32.le_trans eltWithin.1 first)
          (UInt32.le_of_lt middle), eltWithin.2⟩
    · exact whole.placed part (mem_cons_of_mem _ other)
  · rw [pairwise_append]
    refine ⟨separate_fragments eltNonempty middle, restSeparate, ?_⟩
    intro fragment fragmentIn other otherIn
    exact separate_fragment fragmentIn first middle last
      (whole.nonempty other (mem_cons_of_mem _ otherIn))
      (eltSeparate other otherIn)

theorem cuts (fragmented : Fragmented slots numSlots elts)
    (chain : Relation.ReflTransGen CoalescingAllocator.CutsOne elts others) :
    Fragmented slots numSlots others := by
  induction chain with
  | refl => exact fragmented
  | tail _ last induction => exact induction.cutsOne last

end Fragmented

/-! ## Reachable states -/

/-- The ranges of the allocator are apart and the slots have their fragments. -/
structure Sound (vm : ZoogVM) : Prop where
  allocator : vm.guestMemoryAllocator.Sound []
  fragmented : Fragmented vm.slots vm.numSlots vm.allocated

namespace Sound

variable {vm next : ZoogVM} {choice : Choice} {result : Option Nat}

theorem allocateGuestMemory {reqSize : UInt32} (sound : vm.Sound)
    (done : vm.allocateGuestMemory choice reqSize = .ok (result, next)) :
    next.Sound := by
  obtain ⟨⟨guestRange, allocator⟩, allocating, accepting⟩ := of_bind done
  obtain ⟨allocatorSound, outcome⟩ := sound.allocator.allocateRange allocating
  cases guestRange with
  | none =>
    cases accepting
    dsimp only at outcome
    subst outcome
    exact sound
  | some guestRange =>
    obtain ⟨proper, grown⟩ := outcome
    obtain ⟨_, -, afterBound⟩ := of_bind accepting
    obtain ⟨_, -, returned⟩ := of_bind afterBound
    cases returned
    refine ⟨allocatorSound, Fragmented.perm ⟨?_, ?_, ?_⟩ grown.symm⟩
    · intro elt member
      rcases mem_cons.mp member with rfl | earlier
      · exact proper.nonempty
      · exact sound.fragmented.nonempty elt earlier
    · intro elt member
      rcases mem_cons.mp member with rfl | earlier
      · refine ⟨vm.numSlots, rfl, Nat.lt_succ_self _, ?_, ?_⟩
        · simp only [configure, update_self]
          exact proper
        · simp only [configure, update_self]
          exact ⟨UInt32.le_refl _, UInt32.le_refl _⟩
      · obtain ⟨slot, owner, known, slotProper, within⟩ := sound.fragmented.placed elt earlier
        have apart : slot ≠ vm.numSlots := Nat.ne_of_lt known
        refine ⟨slot, owner, Nat.lt_succ_of_lt known, ?_, ?_⟩
        · simp only [configure, update_of_ne apart]
          exact slotProper
        · simp only [configure, update_of_ne apart]
          exact within
    · refine pairwise_cons.mpr ⟨?_, sound.fragmented.separate⟩
      intro elt member
      obtain ⟨slot, owner, known, -, -⟩ := sound.fragmented.placed elt member
      have newIn := grown.mem_iff.mpr mem_cons_self
      have oldIn := grown.mem_iff.mpr (mem_cons_of_mem _ member)
      have different : (⟨guestRange, some vm.numSlots⟩ : RangeByStartElt) ≠ elt := by
        rintro rfl
        obtain rfl := Option.some.inj owner
        exact Nat.lt_irrefl _ known
      refine ⟨allocatorSound.apart_allocated newIn oldIn different, fun same => ?_⟩
      rw [owner] at same
      obtain rfl := Option.some.inj same
      exact absurd known (Nat.lt_irrefl _)

theorem freeGuestMemory {guestStart size : UInt32} (sound : vm.Sound)
    (done : vm.freeGuestMemory choice guestStart size = .ok next) : next.Sound := by
  obtain ⟨_, -, afterCheck⟩ := of_bind done
  obtain ⟨allocator, freed, returned⟩ := of_bind afterCheck
  cases returned
  obtain ⟨allocatorSound, chain⟩ := sound.allocator.freeRange freed
  exact ⟨allocatorSound, sound.fragmented.cuts chain⟩

theorem allocatePage {slot : Nat} (sound : vm.Sound)
    (done : vm.allocatePage choice = .ok (slot, next)) : next.Sound := by
  obtain ⟨⟨found, after⟩, allocating, followed⟩ := of_bind done
  cases found with
  | none => cases followed
  | some found =>
    cases followed
    exact sound.allocateGuestMemory allocating

theorem mapPhysicalMemory (done : ZoogVM.mapPhysicalMemory choice = .ok vm) : vm.Sound := by
  obtain ⟨allocator, created, returned⟩ := of_bind done
  cases returned
  have start : (CoalescingAllocator.new true).Sound [⟨0x10001000, hostPhysMemorySize⟩] := by
    refine ⟨.nil, ⟨?_, pairwise_singleton _ _⟩, .nil⟩
    intro range member
    obtain rfl := mem_singleton.mp member
    exact ⟨by decide, by decide⟩
  obtain ⟨allocatorSound, same⟩ := start.createEmptyRangeNolock created
  refine ⟨allocatorSound, ?_⟩
  rw [allocated]
  rw [same]
  exact ⟨(fun _ member => nomatch member), (fun _ member => nomatch member), .nil⟩

theorem new {first second third : Choice}
    (done : ZoogVM.new first second third = .ok vm) : vm.Sound := by
  obtain ⟨start, mapped, afterMap⟩ := of_bind done
  obtain ⟨⟨alarms, withAlarms⟩, allocating, afterAlarms⟩ := of_bind afterMap
  obtain ⟨⟨_, withIdt⟩, allocatingIdt, returned⟩ := of_bind afterAlarms
  cases returned
  have soundAlarms := (Sound.mapPhysicalMemory mapped).allocatePage allocating
  have marked : ({ withAlarms with hostAlarmsPage := alarms }).Sound :=
    ⟨soundAlarms.allocator, soundAlarms.fragmented⟩
  exact marked.allocatePage allocatingIdt

end Sound

theorem Reached.sound {vm : ZoogVM} (reached : vm.Reached) : vm.Sound := by
  induction reached with
  | new first second third done => exact Sound.new done
  | allocate choice reqSize _ done sound => exact sound.allocateGuestMemory done
  | free choice guestStart size _ done sound => exact sound.freeGuestMemory done

/-! ## Regions of the guest -/

section Regions

variable {vm : ZoogVM} {elt : RangeByStartElt} {slot : Nat} {guestStart size : UInt32}

/-- Every byte of a region, which does not wrap around, is allocated in the slot. -/
def CoveredBy (vm : ZoogVM) (slot : Nat) (guestStart size : UInt32) : Prop :=
  ∀ byte : Nat, guestStart.toNat ≤ byte → byte < guestStart.toNat + size.toNat →
    ∃ elt ∈ vm.allocated, elt.userObj = some slot ∧
      elt.range.start.toNat ≤ byte ∧ byte < elt.range.finish.toNat

/-- A region is translated exactly when it is allocated inside one slot, and then
to its place in that slot. -/
def TranslatesExactly (vm : ZoogVM) (guestStart size : UInt32) : Prop :=
  ∃ result, vm.mapRegionToHost guestStart size = .ok result ∧
    match result with
    | none => ¬∃ slot, vm.CoveredBy slot guestStart size
    | some address => ∃ slot, vm.CoveredBy slot guestStart size ∧
        address = (vm.slots slot).hostAddr +
          (guestStart - (vm.slots slot).guestRange.start)

/-- The region does not end with its slot, and one that leaves the allocated part
where it starts also leaves the slot, as far as a word can tell. -/
def EndsClearly (vm : ZoogVM) (guestStart size : UInt32) : Prop :=
  ∀ elt ∈ vm.allocated, CoalescingAllocator.Covers elt.range guestStart →
    ∀ slot, elt.userObj = some slot →
      (guestStart.toNat + size.toNat ≤ elt.range.finish.toNat →
        guestStart.toNat + size.toNat ≠ (vm.slots slot).guestRange.finish.toNat) ∧
      (elt.range.finish.toNat < guestStart.toNat + size.toNat →
        (vm.slots slot).guestRange.finish.toNat ≤
          (guestStart.toNat + size.toNat) % 2 ^ 32)

theorem Sound.eq_of_byte {other : RangeByStartElt} {byte : Nat} (sound : vm.Sound)
    (member : elt ∈ vm.allocated) (otherIn : other ∈ vm.allocated)
    (first : elt.range.start.toNat ≤ byte) (last : byte < elt.range.finish.toNat)
    (otherFirst : other.range.start.toNat ≤ byte)
    (otherLast : byte < other.range.finish.toNat) : other = elt := by
  by_contra different
  rcases sound.allocator.apart_allocated otherIn member different with before | after
  · rw [le_iff_toNat_le] at before
    omega
  · rw [le_iff_toNat_le] at after
    omega

theorem Sound.coveredBy_iff {owner : Nat} (sound : vm.Sound) (member : elt ∈ vm.allocated)
    (covers : CoalescingAllocator.Covers elt.range guestStart)
    (owned : elt.userObj = some owner) (nonempty : 1 ≤ size.toNat) :
    vm.CoveredBy slot guestStart size ↔ slot = owner ∧
        guestStart.toNat + size.toNat ≤ elt.range.finish.toNat := by
  have first := le_iff_toNat_le.mp covers.1
  have last := lt_iff_toNat_lt.mp covers.2
  constructor
  · intro covered
    obtain ⟨start, startIn, startOwner, startFirst, startLast⟩ :=
      covered guestStart.toNat (Nat.le_refl _) (by omega)
    obtain rfl := sound.eq_of_byte member startIn first last startFirst startLast
    rw [owned] at startOwner
    obtain rfl := Option.some.inj startOwner
    refine ⟨rfl, ?_⟩
    by_contra beyond
    -- the byte after the element would be in a fragment of the same slot
    obtain ⟨next, nextIn, nextOwner, nextFirst, nextLast⟩ :=
      covered start.range.finish.toNat (by omega) (by omega)
    have different : start ≠ next := by
      rintro rfl
      omega
    obtain ⟨apart, untouched⟩ := sound.fragmented.separate.forall member nextIn different
    rcases apart with before | after
    · refine (untouched (owned.trans nextOwner.symm)).1 (UInt32.le_antisymm before ?_)
      exact le_iff_toNat_le.mpr nextFirst
    · rw [le_iff_toNat_le] at after
      omega
  · rintro ⟨rfl, fits⟩ byte byteFirst byteLast
    exact ⟨elt, member, owned, by omega, by omega⟩

theorem Sound.mapRegionToHost_of_covers (sound : vm.Sound) (member : elt ∈ vm.allocated)
    (covers : CoalescingAllocator.Covers elt.range guestStart)
    (owned : elt.userObj = some slot) :
    vm.mapRegionToHost guestStart size = .ok (if (guestStart.toNat + size.toNat) % 2 ^ 32 <
          (vm.slots slot).guestRange.finish.toNat then
        some ((vm.slots slot).hostAddr + (guestStart - (vm.slots slot).guestRange.start))
      else none) := by
  have found : vm.guestMemoryAllocator.lookupValue guestStart = some elt :=
    sound.allocator.lookupValue_eq_some_iff.mpr ⟨member, covers⟩
  obtain ⟨owner, ownedBy, -, proper, within⟩ := sound.fragmented.placed elt member
  obtain rfl := Option.some.inj (owned.symm.trans ownedBy)
  have above : guestStart ≥ (vm.slots slot).guestRange.start := UInt32.le_trans within.1 covers.1
  have whole : (vm.slots slot).guestRange.start + (vm.slots slot).guestRange.size =
      (vm.slots slot).guestRange.finish := by
    rw [proper.size_eq]
    grind
  have ending : (guestStart + size).toNat =
      (guestStart.toNat + size.toNat) % 2 ^ 32 := UInt32.toNat_add _ _
  rw [mapRegionToHost, found, Option.bind_some, owned]
  dsimp only
  rw [ensure_true above, ok_bind, whole, pure_eq_ok]
  simp only [lt_iff_toNat_lt, ending]

theorem Sound.mapRegionToHost_of_uncovered (sound : vm.Sound)
    (uncovered : ∀ elt ∈ vm.allocated, ¬CoalescingAllocator.Covers elt.range guestStart) :
    vm.mapRegionToHost guestStart size = .ok none := by
  have missing : vm.guestMemoryAllocator.lookupValue guestStart = none := by
    rw [Option.eq_none_iff_forall_ne_some]
    intro elt found
    obtain ⟨member, covers⟩ := sound.allocator.lookupValue_eq_some_iff.mp found
    exact uncovered elt member covers
  rw [mapRegionToHost, missing]
  rfl

theorem Sound.translatesExactly_of_covers (sound : vm.Sound) (member : elt ∈ vm.allocated)
    (covers : CoalescingAllocator.Covers elt.range guestStart)
    (owned : elt.userObj = some slot) (nonempty : 1 ≤ size.toNat) :
    vm.TranslatesExactly guestStart size ↔ ((guestStart.toNat + size.toNat) % 2 ^ 32 <
          (vm.slots slot).guestRange.finish.toNat ↔
        guestStart.toNat + size.toNat ≤ elt.range.finish.toNat) := by
  have covered : ∀ other, vm.CoveredBy other guestStart size ↔ other = slot ∧
      guestStart.toNat + size.toNat ≤ elt.range.finish.toNat := fun _ =>
    sound.coveredBy_iff member covers owned nonempty
  rw [TranslatesExactly, sound.mapRegionToHost_of_covers member covers owned]
  simp only [Except.ok.injEq, exists_eq_left', covered]
  split
  · rename_i result rejected
    rw [ite_eq_iff] at rejected
    rcases rejected with ⟨-, absurd⟩ | ⟨beyond, -⟩
    · cases absurd
    · simp only [beyond, exists_eq_left, false_iff]
  · rename_i result address accepted
    rw [ite_eq_iff] at accepted
    rcases accepted with ⟨before, same⟩ | ⟨-, absurd⟩
    · obtain rfl := Option.some.inj same
      simp only [before, true_iff]
      constructor
      · rintro ⟨_, ⟨-, fits⟩, -⟩
        exact fits
      · intro fits
        exact ⟨slot, ⟨rfl, fits⟩, rfl⟩
    · cases absurd

/-- In every state of the monitor, `map_region_to_host` translates a region exactly
when the region ends clearly. -/
theorem translation_exact_iff (reached : vm.Reached) (nonempty : 1 ≤ size.toNat) :
    vm.TranslatesExactly guestStart size ↔ vm.EndsClearly guestStart size := by
  have sound := reached.sound
  by_cases located : ∃ elt ∈ vm.allocated, CoalescingAllocator.Covers elt.range guestStart
  · obtain ⟨elt, member, covers⟩ := located
    obtain ⟨slot, owned, -, -, within⟩ := sound.fragmented.placed elt member
    have inside := le_iff_toNat_le.mp within.2
    have bounded := (sound.allocator.proper_allocated member).bound
    rw [sound.translatesExactly_of_covers member covers owned nonempty]
    constructor
    · intro exact other otherIn otherCovers owner otherOwned
      obtain rfl := sound.eq_of_byte member otherIn
        (le_iff_toNat_le.mp covers.1) (lt_iff_toNat_lt.mp covers.2)
        (le_iff_toNat_le.mp otherCovers.1)
        (lt_iff_toNat_lt.mp otherCovers.2)
      obtain rfl := Option.some.inj (owned.symm.trans otherOwned)
      omega
    · intro clear
      have := clear elt member covers slot owned
      omega
  · push Not at located
    constructor
    · intro _ elt member covers
      exact absurd covers (located elt member)
    · intro _
      refine ⟨none, sound.mapRegionToHost_of_uncovered located, ?_⟩
      rintro ⟨slot, covered⟩
      obtain ⟨elt, member, -, first, last⟩ := covered guestStart.toNat (Nat.le_refl _) (by omega)
      exact located elt member ⟨le_iff_toNat_le.mpr first, lt_iff_toNat_lt.mpr last⟩

end Regions

/-- A monitor that has just started, whose trees are spines: the two pages that the
constructor needs are allocated. -/
theorem exists_fresh : ∃ vm : ZoogVM, vm.Reached ∧
      vm.allocated = [⟨⟨0x10001000, 0x10002000⟩, some 0⟩, ⟨⟨0x10002000, 0x10003000⟩, some 1⟩] ∧
      vm.slots 0 = ⟨⟨0x10001000, 0x10002000⟩, 0x28001000⟩ := by
  refine ⟨_, .new ⟨.spine, .spine, 4⟩ ⟨.spine, .spine, 4⟩ ⟨.spine, .spine, 4⟩ rfl, ?_, ?_⟩
  · rfl
  · rfl

/-- The first word of the page for the alarms is translated exactly. -/
theorem translation_exact_first_word :
    ∃ vm : ZoogVM, vm.Reached ∧ vm.TranslatesExactly 0x10001000 4 := by
  obtain ⟨vm, reached, contents, slot⟩ := exists_fresh
  refine ⟨vm, reached, (translation_exact_iff reached (by decide)).mpr ?_⟩
  intro elt member covers owner owned
  rw [contents] at member
  rcases mem_pair.mp member with rfl | rfl
  · obtain rfl := Option.some.inj owned
    rw [slot]
    decide
  · exact absurd covers (by rw [CoalescingAllocator.Covers]; decide)

/-- A region that runs from the page for the alarms past the end of the addresses is
translated, and a region that is exactly this page is not. -/
theorem alarms_page_not_exact : ∃ vm : ZoogVM, vm.Reached ∧
      ¬vm.TranslatesExactly 0x10001000 0xF0000000 ∧
      ¬vm.TranslatesExactly 0x10001000 0x1000 := by
  obtain ⟨vm, reached, contents, slot⟩ := exists_fresh
  have page : ⟨⟨0x10001000, 0x10002000⟩, some 0⟩ ∈ vm.allocated := by
    rw [contents]
    exact mem_cons_self
  have covers : CoalescingAllocator.Covers ⟨0x10001000, 0x10002000⟩ 0x10001000 := by
    rw [CoalescingAllocator.Covers]
    decide
  refine ⟨vm, reached, ?_, ?_⟩
  · rw [reached.sound.translatesExactly_of_covers page covers rfl (by decide), slot]
    decide
  · rw [reached.sound.translatesExactly_of_covers page covers rfl (by decide), slot]
    decide

end ZoogVM

end Embassies.Kvm
