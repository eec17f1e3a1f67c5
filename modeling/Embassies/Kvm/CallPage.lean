import Embassies.Kvm.ZutexTable
import Mathlib.Algebra.Group.Nat.Defs
import Mathlib.Data.UInt

/-!
# Wait lists in the call page

A guest calls the monitor by filling in a structure that lies in a page both of
them can write.  For `zutex_wait` the structure is an opcode, a count and as many
wait specifications.  The monitor checks that the count fits and then walks
through the specifications, which stay in the page.

All fields of the structure are words.  An entry that does not lie inside the
page is a fault.
-/

namespace Embassies.Kvm

open Library.Checked List

/-- `call_page_capacity`: what the table of six descriptors and the three words
before the structure leave of a page. -/
def callPageCapacity : UInt32 := 0x1000 - (8 * 6 + 4 * 3)

/-- `sizeof(xa_zutex_wait)`. -/
def zutexWaitSize : UInt32 := 8

/-- `sizeof(ZutexWaitSpec)`. -/
def zutexWaitSpecSize : UInt32 := 8

/-- The structure of a call. -/
structure CallPage where
  words : List UInt32
  capacity : 4 * words.length = callPageCapacity.toNat

/-- What can go wrong in a call. -/
inductive CallFault where
  /-- An entry that does not lie in the page is read. -/
  | outOfPage
  | table (fault : Fault)
deriving DecidableEq

namespace CallPage

variable {page : CallPage} {memory : UInt32 → Option UInt32} {waiter count index : Nat}

/-- `in_count`. -/
def inCount (page : CallPage) : UInt32 := page.words.getD 1 0

/-- An entry of `in_specs`. -/
def inSpecs (page : CallPage) (index : Nat) : Except CallFault ZutexWaitSpec :=
  match page.words[2 + 2 * index]?, page.words[3 + 2 * index]? with
  | some zutex, some matchVal => .ok ⟨zutex, matchVal⟩
  | _, _ => .error .outOfPage

/-! ## The call -/

/-- The first loop of `ZutexTable::wait`, with the entries that are left. -/
def allMatch (page : CallPage) (memory : UInt32 → Option UInt32) :
    Nat → Nat → Except CallFault Bool
  | 0, _ => .ok true
  | count + 1, index => do
    let spec ← page.inSpecs index
    if memory spec.zutex = some spec.matchVal then
      page.allMatch memory count (index + 1)
    else
      return false

/-- The second loop of `ZutexTable::wait`, with the entries that are left. -/
def enqueueAll (page : CallPage) (waiter : Nat) :
    Nat → Nat → ZutexTable → Except CallFault ZutexTable
  | 0, _, ztable => .ok ztable
  | count + 1, index, ztable => do
    let spec ← page.inSpecs index
    let ztable ← (ZutexTable.enqueue waiter ztable spec.zutex).mapError .table
    page.enqueueAll waiter count (index + 1) ztable

/-- `ZutexTable::wait` on the entries of the page, up to the point where the
thread blocks. -/
def wait (page : CallPage) (memory : UInt32 → Option UInt32) (ztable : ZutexTable)
    (count waiter : Nat) : Except CallFault ZutexTable := do
  let all ← page.allMatch memory count 0
  if all then
    let ztable ← page.enqueueAll waiter count 0 ztable
    return { ztable with asleep := Function.update ztable.asleep waiter true }
  else
    return ztable

/-- The condition that `zutex_wait` checks, in the arithmetic of the monitor. -/
def safetyCheck (page : CallPage) : Bool :=
  page.inCount * zutexWaitSpecSize ≤ callPageCapacity - zutexWaitSize

/-- `ZoogVCPU::zutex_wait`. -/
def zutexWait (page : CallPage) (memory : UInt32 → Option UInt32)
    (ztable : ZutexTable) (waiter : Nat) : Except CallFault ZutexTable :=
  if page.safetyCheck then
    page.wait memory ztable page.inCount.toNat waiter
  else
    .ok ztable

/-! ## Entries -/

/-- The number of entries that lie in the page. -/
def numSpecs : Nat := (callPageCapacity.toNat - zutexWaitSize.toNat) / 8

theorem numSpecs_eq : numSpecs = 503 := rfl

theorem words_length (page : CallPage) : page.words.length = 1009 := by
  have capacity := page.capacity
  have size : callPageCapacity.toNat = 4036 := rfl
  omega

theorem inSpecs_inside (page : CallPage) (inside : index < numSpecs) :
    ∃ spec, page.inSpecs index = .ok spec := by
  have length := page.words_length
  rw [numSpecs_eq] at inside
  have first : 2 + 2 * index < page.words.length := by omega
  have second : 3 + 2 * index < page.words.length := by omega
  rw [inSpecs, getElem?_eq_getElem first, getElem?_eq_getElem second]
  exact ⟨_, rfl⟩

theorem inSpecs_outside (page : CallPage) (outside : numSpecs ≤ index) :
    page.inSpecs index = .error .outOfPage := by
  have length := page.words_length
  rw [numSpecs_eq] at outside
  have second : page.words.length ≤ 3 + 2 * index := by omega
  rw [inSpecs, getElem?_eq_none second]
  split
  · rename_i absurd
    cases absurd
  · rfl

theorem inCount_le_numSpecs
    (checked : page.safetyCheck = true) (small : page.inCount.toNat < 2 ^ 29) :
    page.inCount.toNat ≤ numSpecs := by
  rw [safetyCheck, decide_eq_true_eq, UInt32.le_iff_toNat_le, UInt32.toNat_mul] at checked
  have size : zutexWaitSpecSize.toNat = 8 := rfl
  have room : (callPageCapacity - zutexWaitSize).toNat = 4028 := rfl
  rw [size, room, Nat.mod_eq_of_lt (by omega)] at checked
  rw [numSpecs_eq]
  omega

/-! ## The loops -/

/-- The guest's memory has the expected value at an entry of the page. -/
def Matches (page : CallPage) (memory : UInt32 → Option UInt32) (index : Nat) : Prop :=
  ∃ spec, page.inSpecs index = .ok spec ∧ memory spec.zutex = some spec.matchVal

theorem allMatch_matching (matching : page.Matches memory index) :
    page.allMatch memory (count + 1) index = page.allMatch memory count (index + 1) := by
  obtain ⟨spec, read, same⟩ := matching
  rw [allMatch, read, ok_bind, if_pos same]

theorem allMatch_mismatch (inside : index < numSpecs) (mismatch : ¬page.Matches memory index) :
    page.allMatch memory (count + 1) index = .ok false := by
  obtain ⟨spec, read⟩ := page.inSpecs_inside inside
  rw [allMatch, read, ok_bind, if_neg (fun same => mismatch ⟨spec, read, same⟩)]
  rfl

theorem allMatch_outOfPage (matching : ∀ place, place < numSpecs → page.Matches memory place)
    (outside : numSpecs < index + count) (inside : index ≤ numSpecs) :
    page.allMatch memory count index = .error .outOfPage := by
  induction count generalizing index with
  | zero => exact absurd outside (Nat.not_lt_of_le inside)
  | succ count induction =>
    rcases Nat.lt_or_eq_of_le inside with inside | rfl
    · rw [allMatch_matching (matching index inside)]
      exact induction (by omega) inside
    · rw [allMatch, inSpecs_outside page (Nat.le_refl _)]
      rfl

/-- The first loop ends in the page when the count fits or an entry stops it;
if it finds no mismatch, the count fits. -/
theorem allMatch_inside (stops : index + count ≤ numSpecs ∨
      ∃ place, index ≤ place ∧ place < numSpecs ∧ ¬page.Matches memory place) :
    ∃ all, page.allMatch memory count index = .ok all ∧
      (all = true → index + count ≤ numSpecs ∨ count = 0) := by
  induction count generalizing index with
  | zero => exact ⟨true, rfl, fun _ => .inr rfl⟩
  | succ count induction =>
    have inside : index < numSpecs := by
      rcases stops with fits | ⟨place, behind, inside, -⟩
      · omega
      · exact Nat.lt_of_le_of_lt behind inside
    by_cases matching : page.Matches memory index
    · have later : index + 1 + count ≤ numSpecs ∨ ∃ place, index + 1 ≤ place ∧ place < numSpecs ∧
            ¬page.Matches memory place := by
        rcases stops with fits | ⟨place, behind, inside, mismatch⟩
        · exact .inl (by omega)
        · refine .inr ⟨place, ?_, inside, mismatch⟩
          rcases Nat.lt_or_eq_of_le behind with behind | rfl
          · exact behind
          · exact absurd matching mismatch
      obtain ⟨all, done, fits⟩ := induction later
      refine ⟨all, (allMatch_matching matching).trans done, ?_⟩
      intro allTrue
      rcases fits allTrue with fits | rfl
      · exact .inl (by omega)
      · exact .inl inside
    · exact ⟨false, allMatch_mismatch inside matching, nofun⟩

theorem enqueueAll_inside (fits : index + count ≤ numSpecs) (ztable : ZutexTable) :
    page.enqueueAll waiter count index ztable ≠ .error .outOfPage := by
  induction count generalizing index ztable with
  | zero => exact nofun
  | succ count induction =>
    obtain ⟨spec, read⟩ := page.inSpecs_inside (by omega : index < numSpecs)
    rw [enqueueAll, read, ok_bind]
    cases ZutexTable.enqueue waiter ztable spec.zutex with
    | error fault => exact nofun
    | ok next => exact induction (by omega) next

theorem wait_inside (stops : count ≤ numSpecs ∨
      ∃ place, place < numSpecs ∧ ¬page.Matches memory place)
    (ztable : ZutexTable) :
    page.wait memory ztable count waiter ≠ .error .outOfPage := by
  have stopsFrom : 0 + count ≤ numSpecs ∨
      ∃ place, 0 ≤ place ∧ place < numSpecs ∧ ¬page.Matches memory place := by
    rw [Nat.zero_add]
    exact stops.imp_right fun ⟨place, found⟩ => ⟨place, Nat.zero_le place, found⟩
  obtain ⟨all, done, fits⟩ := allMatch_inside stopsFrom
  rw [wait, done, ok_bind]
  cases all with
  | false => exact nofun
  | true =>
    have room : 0 + count ≤ numSpecs := by
      rcases fits rfl with room | rfl
      · exact room
      · exact Nat.zero_le _
    have inside := @enqueueAll_inside page waiter count 0 room ztable
    cases enqueued : page.enqueueAll waiter count 0 ztable with
    | error fault =>
      rw [enqueued] at inside
      intro outside
      cases outside
      exact inside rfl
    | ok next => exact nofun

/-- All entries that `zutex_wait` reads lie in the page exactly when the check
fails, or the count times eight fits into a word, or an entry of the page stops
the first loop. -/
theorem zutexWait_inside_iff
    (page : CallPage) (memory : UInt32 → Option UInt32) (ztable : ZutexTable)
    (waiter : Nat) :
    page.zutexWait memory ztable waiter ≠ .error .outOfPage ↔
      (page.safetyCheck = true → page.inCount.toNat < 2 ^ 29 ∨
        ∃ place, place < numSpecs ∧ ¬page.Matches memory place) := by
  rw [zutexWait]
  by_cases checked : page.safetyCheck = true
  · rw [if_pos checked]
    constructor
    · intro inside _
      by_contra neither
      obtain ⟨large, matching⟩ := not_or.mp neither
      have outside : numSpecs < 0 + page.inCount.toNat := by
        rw [numSpecs_eq]
        omega
      have wrong : page.allMatch memory page.inCount.toNat 0 = .error .outOfPage := by
        apply allMatch_outOfPage _ outside (Nat.zero_le _)
        intro place bound
        by_contra mismatch
        exact matching ⟨place, bound, mismatch⟩
      apply inside
      rw [wait, wrong]
      rfl
    · intro stops
      exact wait_inside ((stops checked).imp_left (inCount_le_numSpecs checked)) ztable
  · rw [if_neg checked]
    exact ⟨fun _ passed => absurd passed checked, fun _ => nofun⟩

/-- A page with a count that wraps. -/
def wrappingPage : CallPage where
  words := 0 :: 2 ^ 29 :: List.replicate 1007 0
  capacity := by
    rw [length_cons, length_cons, length_replicate]
    rfl

theorem wrappingPage_word (place : Nat) (first : 2 ≤ place) (last : place < 1009) :
    wrappingPage.words[place]? = some 0 := by
  obtain ⟨place, rfl⟩ := Nat.exists_eq_add_of_le' first
  have rest : wrappingPage.words[place + 2]? = (List.replicate 1007 (0 : UInt32))[place]? := rfl
  rw [rest, getElem?_replicate, if_pos (by omega)]

/-- The count passes the check and the first loop leaves the page. -/
theorem wrappingPage_leaves : wrappingPage.inCount = 2 ^ 29 ∧ wrappingPage.safetyCheck = true ∧
      wrappingPage.zutexWait (fun _ => some 0) .new 0 = .error .outOfPage := by
  have checked : wrappingPage.safetyCheck = true := by decide
  have matching : ∀ place, place < numSpecs → wrappingPage.Matches (fun _ => some 0) place := by
    intro place inside
    rw [numSpecs_eq] at inside
    refine ⟨⟨0, 0⟩, ?_, rfl⟩
    rw [inSpecs, wrappingPage_word _ (by omega) (by omega),
      wrappingPage_word _ (by omega) (by omega)]
  have outside : numSpecs < 0 + wrappingPage.inCount.toNat := by decide
  refine ⟨rfl, checked, ?_⟩
  rw [zutexWait, if_pos checked, wait, allMatch_outOfPage matching outside (Nat.zero_le _)]
  rfl

end CallPage

end Embassies.Kvm
