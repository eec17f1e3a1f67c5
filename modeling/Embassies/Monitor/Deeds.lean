import Embassies.Monitor.BlitterSteps
import Mathlib.Data.UInt

/-!
# Deeds as capabilities

A deed is made when a viewport is sublet or transferred, and it is to be
accepted once, by whoever presents exactly that number.  The ledger is the
record of what has been offered in this way and not been accepted.

The table of deeds compares only the low halves of two deeds, and it keeps the
deed of every top-level viewport, which nobody is offered.  This module says
for which numbers accepting a deed agrees with the ledger.
-/

namespace Embassies.Monitor

open Library Library.Checked KeyedTable BlitterManager

/-! ## Runs of the manager -/

/-- A call of `BlitterManager`, with the numbers that it draws. -/
inductive Operation where
  | newToplevelViewport (processId : UInt32) (deed deedKey : UInt64)
  | sublet (parent : Nat) (processId : UInt32) (deed deedKey : UInt64)
  | transfer (pointer : Nat) (deed deedKey : UInt64)
  | acceptViewport (deed : UInt64) (processId : UInt32)
  | mapCanvas (pointer : Nat) (palifc : UInt32) (truecolor : Bool)
      (windowLabel : List UInt8)
  | unmap (canvasId : UInt32)
  | updateCanvas (canvasId : UInt32)
  | closeWindow (canvasId : UInt32)
  | unregisterPalifc (palifc : UInt32)

namespace Operation

/-- The result of a call has the viewport that it returns. -/
def apply (manager : BlitterManager) :
    Operation → Except Fault (Option Nat × BlitterManager)
  | .newToplevelViewport processId deed deedKey => do
    let manager ← manager.newToplevelViewport processId deed deedKey
    return (none, manager)
  | .sublet parent processId deed deedKey => do
    let (pointer, manager) ← manager.sublet parent processId deed deedKey
    return (some pointer, manager)
  | .transfer pointer deed deedKey => do
    let manager ← manager.transfer pointer deed deedKey
    return (some pointer, manager)
  | .acceptViewport deed processId => manager.acceptViewport deed processId
  | .mapCanvas pointer palifc truecolor windowLabel => do
    let manager ← manager.mapCanvas pointer palifc truecolor windowLabel
    return (none, manager)
  | .unmap canvasId => do
    let manager ← manager.unmapId canvasId
    return (none, manager)
  | .updateCanvas canvasId => do
    let _ ← manager.updateCanvas canvasId
    return (none, manager)
  | .closeWindow canvasId => .ok (none, manager.closeWindow canvasId)
  | .unregisterPalifc palifc => do
    let manager ← manager.unregisterPalifc palifc
    return (none, manager)

/-- The ledger after a call: what is sublet or transferred is offered, and what
is accepted is not offered any more. -/
def record (ledger : List DeedEntry) :
    Operation → Option Nat → List DeedEntry
  | .sublet _ _ deed _, some pointer => ⟨deed, pointer⟩ :: ledger
  | .transfer _ deed _, some pointer => ⟨deed, pointer⟩ :: ledger
  | .acceptViewport deed _, some pointer =>
    ledger.filter fun entry => entry ≠ ⟨deed, pointer⟩
  | _, _ => ledger

/-- The call offers a deed. -/
def Offers (deed : UInt64) : Operation → Prop
  | .sublet _ _ drawn _ => drawn = deed
  | .transfer _ drawn _ => drawn = deed
  | _ => False

end Operation

/-- Every entry of the table whose low half is that of the deed is the deed
itself and was offered; if there is one, the handle that the next tenant gets is
not in use. -/
structure Unambiguous (manager : BlitterManager) (ledger : List DeedEntry)
    (deed : UInt64) (processId : UInt32) : Prop where
  offered : ∀ entry ∈ manager.deeds, entry.deed.toUInt32 = deed.toUInt32 →
    entry.deed = deed ∧ entry ∈ ledger
  handle : (∃ entry ∈ manager.deeds, entry.deed = deed) →
    ∀ handle ∈ manager.viewportHandles,
      handle.key ≠ (processId, manager.nextViewportId)

/-- The deed that a call presents is unambiguous. -/
def Operation.Presents (manager : BlitterManager) (ledger : List DeedEntry) :
    Operation → Prop
  | .acceptViewport deed processId => Unambiguous manager ledger deed processId
  | _ => True

/-- A manager with its ledger. -/
abbrev Book := BlitterManager × List DeedEntry

/-- A call with an unambiguous deed. -/
def Moves (operation : Operation) (before after : Book) : Prop :=
  operation.Presents before.1 before.2 ∧
    ∃ result, operation.apply before.1 = .ok (result, after.1) ∧
      operation.record before.2 result = after.2

/-- The books that runs with unambiguous deeds come to. -/
def Reached (book : Book) : Prop :=
  Relation.ReflTransGen (fun before after => ∃ operation,
    Moves operation before after) (.new, []) book

/-- A run in which a deed is not offered. -/
def LaterWithout (deed : UInt64) (before after : Book) : Prop :=
  Relation.ReflTransGen (fun before after => ∃ operation : Operation,
    ¬operation.Offers deed ∧ Moves operation before after) before after

/-- Accepting a deed agrees with the ledger: the result is the viewport that the
deed was offered for, which gets a tenant, and any other number changes
nothing. -/
def Exact (manager : BlitterManager) (ledger : List DeedEntry) (deed : UInt64)
    (processId : UInt32) : Prop :=
  ∃ result next, manager.acceptViewport deed processId = .ok (result, next) ∧
    (∀ pointer, result = some pointer ↔ ⟨deed, pointer⟩ ∈ ledger) ∧
    (∀ pointer, result = some pointer →
      ((next.viewports pointer).tenantHandle.map ViewportHandle.processId) =
        some processId) ∧
    (result = none → next = manager)

/-! ## The table of deeds -/

section Deeds

variable {manager next : BlitterManager} {pointer : Nat} {processId : UInt32}
  {deed deedKey : UInt64}
  {ledger : List DeedEntry} {entry : DeedEntry}

theorem becomeTenant_deeds (tenant : manager.becomeTenant pointer processId = .ok next) :
    next.deeds = manager.deeds := by
  obtain ⟨_, -, rfl⟩ := becomeTenant_eq_ok_iff.mp tenant
  rfl

theorem newViewport_deeds {parent : Option Nat}
    (made : manager.newViewport processId parent deed deedKey = .ok (pointer, next)) :
    ∀ entry, entry ∈ next.deeds ↔ entry = ⟨deed, pointer⟩ ∨ entry ∈ manager.deeds := by
  obtain ⟨_, _, -, inserted, rfl, rfl⟩ := newViewport_eq_ok_iff.mp made
  intro entry
  exact mem_insert inserted

theorem unmaps_deeds (unmaps : manager.Unmaps next) : next.deeds = manager.deeds := by
  induction unmaps with
  | refl => rfl
  | tail _ step induction =>
    obtain ⟨_, -, rfl⟩ := step
    exact induction

theorem transfer_deeds (transferred : manager.transfer pointer deed deedKey = .ok next) :
    ∀ entry, entry ∈ next.deeds ↔ entry = ⟨deed, pointer⟩ ∨ entry ∈ manager.deeds := by
  obtain ⟨unmapped, handle, deeds, free, -, -, inserted, rfl⟩ := transfer_eq_ok_iff.mp transferred
  intro entry
  rw [← unmaps_deeds (unmapMapped_unmaps free)]
  exact mem_insert inserted

/-- Every offered deed is in the table. -/
def Synced (book : Book) : Prop :=
  ∀ entry ∈ book.2, entry ∈ book.1.deeds

theorem Unambiguous.accepted (unambiguous : Unambiguous manager ledger deed processId)
    (member : entry ∈ manager.deeds) (same : entry.hash = deed.toUInt32) :
    entry = ⟨deed, entry.viewport⟩ ∧ entry ∈ ledger := by
  obtain ⟨equal, offered⟩ := unambiguous.offered entry member same
  refine ⟨?_, offered⟩
  cases entry
  cases equal
  rfl

theorem Synced.accept {result : Option Nat} (synced : Synced (manager, ledger))
    (unambiguous : Unambiguous manager ledger deed processId)
    (accepted : manager.acceptViewport deed processId = .ok (result, next)) :
    Synced (next, (Operation.acceptViewport deed processId).record ledger result) := by
  cases result with
  | none =>
    obtain ⟨-, rfl⟩ := acceptViewport_eq_none_iff.mp accepted
    exact synced
  | some pointer =>
    obtain ⟨value, member, same, rfl, tenant⟩ := acceptViewport_eq_some_iff.mp accepted
    obtain ⟨equal, -⟩ := unambiguous.accepted member same
    intro entry kept
    obtain ⟨offered, other⟩ := List.mem_filter.mp kept
    rw [becomeTenant_deeds tenant]
    refine mem_filter.mpr ⟨synced entry offered, decide_eq_true ?_⟩
    intro collides
    rw [eq_of_key (synced entry offered) member collides, ← equal] at other
    simp at other

theorem Synced.offer (synced : Synced (manager, ledger))
    (deeds : ∀ other, other ∈ next.deeds ↔ other = entry ∨ other ∈ manager.deeds) :
    Synced (next, entry :: ledger) := by
  intro other offered
  rcases List.mem_cons.mp offered with rfl | offered
  · exact (deeds other).mpr (.inl rfl)
  · exact (deeds other).mpr (.inr (synced other offered))

theorem Synced.moves {operation : Operation} {before after : Book}
    (synced : Synced before) (moves : Moves operation before after) :
    Synced after := by
  obtain ⟨next, record⟩ := after
  obtain ⟨presents, result, applied, rfl⟩ := moves
  cases operation with
  | newToplevelViewport processId deed deedKey =>
    obtain ⟨_, created, returned⟩ := of_bind applied
    cases returned
    obtain ⟨made, viewport, tenant⟩ := newToplevelViewport_eq_ok_iff.mp created
    intro entry offered
    rw [becomeTenant_deeds tenant]
    exact (newViewport_deeds viewport entry).mpr (.inr (synced entry offered))
  | sublet parent processId deed deedKey =>
    obtain ⟨⟨pointer, made⟩, created, returned⟩ := of_bind applied
    cases returned
    exact synced.offer (newViewport_deeds created)
  | transfer pointer deed deedKey =>
    obtain ⟨_, transferred, returned⟩ := of_bind applied
    cases returned
    exact synced.offer (transfer_deeds transferred)
  | acceptViewport deed processId => exact synced.accept presents applied
  | mapCanvas pointer palifc truecolor windowLabel =>
    obtain ⟨_, mapped, returned⟩ := of_bind applied
    cases returned
    obtain ⟨-, -, -, canvases, -, rfl⟩ := mapCanvas_eq_ok_iff.mp mapped
    exact synced
  | unmap canvasId =>
    obtain ⟨_, unmapped, returned⟩ := of_bind applied
    cases returned
    obtain ⟨canvas, -, -, -, rfl⟩ := unmapId_eq_ok_iff.mp unmapped
    exact synced
  | updateCanvas canvasId =>
    obtain ⟨_, -, returned⟩ := of_bind applied
    cases returned
    exact synced
  | closeWindow canvasId =>
    cases applied
    exact synced
  | unregisterPalifc palifc =>
    obtain ⟨_, unregistered, returned⟩ := of_bind applied
    cases returned
    intro entry offered
    rw [unmaps_deeds (unregisterPalifc_unmaps unregistered)]
    exact synced entry offered

theorem Reached.synced {book : Book} (reached : Reached book) : Synced book := by
  induction reached with
  | refl => exact fun entry member => nomatch member
  | tail _ moves induction =>
    obtain ⟨operation, moves⟩ := moves
    exact induction.moves moves

end Deeds

/-! ## Accepting -/

/-- Accepting a deed agrees with the ledger exactly when it is unambiguous. -/
theorem Synced.exact_iff {manager : BlitterManager} {ledger : List DeedEntry}
    (synced : Synced (manager, ledger)) (deed : UInt64) (processId : UInt32) :
    Exact manager ledger deed processId ↔ Unambiguous manager ledger deed processId := by
  constructor
  · rintro ⟨result, next, accepted, agrees, -, -⟩
    cases result with
    | none =>
      obtain ⟨absent, -⟩ := acceptViewport_eq_none_iff.mp accepted
      refine ⟨?_, ?_⟩
      · intro entry member same
        exact absurd same (absent entry member)
      · rintro ⟨entry, member, rfl⟩
        exact absurd rfl (absent entry member)
    | some pointer =>
      obtain ⟨value, member, same, rfl, tenant⟩ := acceptViewport_eq_some_iff.mp accepted
      have offered : ⟨deed, value.viewport⟩ ∈ ledger := (agrees _).mp rfl
      have equal : value = ⟨deed, value.viewport⟩ := eq_of_key member (synced _ offered) same
      refine ⟨?_, ?_⟩
      · intro entry entryIn collides
        have identical : entry = value := eq_of_key entryIn member (Eq.trans collides same.symm)
        rw [identical]
        exact ⟨congrArg DeedEntry.deed equal, equal ▸ offered⟩
      · intro _ handle handleIn
        obtain ⟨_, inserted, -⟩ := becomeTenant_eq_ok_iff.mp tenant
        exact (insert_eq_ok_iff.mp inserted).1 handle handleIn
  · intro unambiguous
    by_cases present : ∃ entry ∈ manager.deeds, entry.hash = deed.toUInt32
    · obtain ⟨entry, member, same⟩ := present
      obtain ⟨equal, offered⟩ := unambiguous.accepted member same
      have exactDeed : entry.deed = deed := congrArg DeedEntry.deed equal
      have fresh := unambiguous.handle ⟨entry, member, exactDeed⟩
      obtain ⟨handles, inserted⟩ := @exists_insert _ _ _ _ _ Fault.assertion
        (manager.withoutDeed entry).viewportHandles
        ⟨manager.nextViewportId, processId, entry.viewport⟩ fresh
      have accepted := acceptViewport_eq_some_iff.mpr ⟨entry, member, same, rfl,
          becomeTenant_eq_ok_iff.mpr ⟨handles, inserted, rfl⟩⟩
      refine ⟨_, _, accepted, ?_, ?_, ?_⟩
      · intro pointer
        rw [Option.some.injEq]
        constructor
        · rintro rfl
          exact equal ▸ offered
        · intro other
          have identical := eq_of_key (synced _ other) member same.symm
          exact (congrArg DeedEntry.viewport identical).symm
      · rintro pointer ⟨⟩
        rw [withTenant]
        rw [setViewport_self]
        rfl
      · intro absent
        cases absent
    · have absent : ∀ entry ∈ manager.deeds, entry.hash ≠ deed.toUInt32 :=
        fun entry member same => present ⟨entry, member, same⟩
      refine ⟨none, manager, acceptViewport_eq_none_iff.mpr ⟨absent, rfl⟩, ?_, ?_, ?_⟩
      · intro pointer
        constructor
        · intro found
          cases found
        · intro offered
          exact absurd rfl (absent _ (synced _ offered))
      · intro pointer found
        cases found
      · exact fun _ => rfl

theorem LaterWithout.not_offered {deed : UInt64} {before after : Book}
    (later : LaterWithout deed before after)
    (absent : ∀ entry ∈ before.2, entry.deed ≠ deed) :
    ∀ entry ∈ after.2, entry.deed ≠ deed := by
  induction later with
  | refl => exact absent
  | tail _ moves induction =>
    obtain ⟨operation, offers, -, result, -, same⟩ := moves
    intro entry member
    rw [← same] at member
    cases operation with
    | sublet parent processId drawn deedKey | transfer pointer drawn deedKey =>
      cases result with
      | none => exact induction entry member
      | some pointer =>
        rcases List.mem_cons.mp member with rfl | member
        · exact offers
        · exact induction entry member
    | acceptViewport presented processId =>
      cases result with
      | none => exact induction entry member
      | some pointer => exact induction entry (List.mem_filter.mp member).1
    | _ => exact induction entry member

theorem accepted_not_offered
    {manager next : BlitterManager} {ledger : List DeedEntry} {deed : UInt64}
    {processId : UInt32} {pointer : Nat} (synced : Synced (manager, ledger))
    (accepted : manager.acceptViewport deed processId = .ok (some pointer, next)) :
    ∀ entry ∈ (Operation.acceptViewport deed processId).record ledger
      (some pointer), entry.deed ≠ deed := by
  obtain ⟨value, member, same, rfl, -⟩ := acceptViewport_eq_some_iff.mp accepted
  rintro entry kept rfl
  obtain ⟨offered, other⟩ := List.mem_filter.mp kept
  have identical := eq_of_key (synced entry offered) member same.symm
  rw [identical] at other
  simp at other

/-- In every run with unambiguous deeds, accepting a number agrees with the
ledger exactly when the number is unambiguous; and a deed that was accepted and
not offered again is refused exactly when it is unambiguous. -/
theorem deeds_exact_iff {manager : BlitterManager} {ledger : List DeedEntry}
    (reached : Reached (manager, ledger)) (deed : UInt64) (processId : UInt32) :
    (Exact manager ledger deed processId ↔ Unambiguous manager ledger deed processId) ∧
    ∀ pointer next, manager.acceptViewport deed processId = .ok (some pointer, next) →
      Unambiguous manager ledger deed processId →
      ∀ later, LaterWithout deed (next, (Operation.acceptViewport deed
          processId).record ledger (some pointer)) later →
      ∀ presenter, later.1.acceptViewport deed presenter = .ok (none, later.1) ↔
          Unambiguous later.1 later.2 deed presenter := by
  refine ⟨reached.synced.exact_iff deed processId, ?_⟩
  intro pointer next accepted unambiguous later run presenter
  have absent := run.not_offered (accepted_not_offered reached.synced accepted)
  rw [acceptViewport_eq_none_iff]
  constructor
  · rintro ⟨unmatched, -⟩
    refine ⟨?_, ?_⟩
    · intro entry member same
      exact False.elim (unmatched entry member same)
    · rintro ⟨entry, member, rfl⟩
      exact False.elim (unmatched entry member rfl)
  · intro clear
    refine ⟨?_, rfl⟩
    intro entry member same
    obtain ⟨equal, offered⟩ := clear.offered entry member same
    exact absent entry offered equal

/-! ## A collision -/

/-- A manager whose only process has a top-level viewport. -/
def toplevelManager : BlitterManager :=
  match BlitterManager.new.newToplevelViewport 1 7 0 with
  | .ok manager => manager
  | .error _ => .new

/-- The process has sublet its viewport. -/
def subletManager : BlitterManager :=
  match toplevelManager.sublet 0 1 5 0 with
  | .ok (_, manager) => manager
  | .error _ => .new

theorem subletManager_reached : Reached (subletManager, [⟨5, 1⟩]) := by
  have toplevel : Moves (.newToplevelViewport 1 7 0) (.new, [])
      (toplevelManager, []) := ⟨trivial, none, rfl, rfl⟩
  have sublet : Moves (.sublet 0 1 5 0) (toplevelManager, [])
      (subletManager, [⟨5, 1⟩]) := ⟨trivial, some 1, rfl, rfl⟩
  exact (Relation.ReflTransGen.single ⟨_, toplevel⟩).tail ⟨_, sublet⟩

/-- The deed that was offered is accepted. -/
theorem deeds_exact_sublet : Exact subletManager [⟨5, 1⟩] 5 2 := by
  refine (deeds_exact_iff subletManager_reached 5 2).1.mpr ⟨?_, ?_⟩
  · intro entry member
    revert entry
    decide
  · intro _ handle member
    revert handle
    decide

/-- A number that agrees with the deed in its low half only is accepted too. -/
theorem colliding_deed_not_exact : Reached (subletManager, [⟨5, 1⟩]) ∧
      ¬Exact subletManager [⟨5, 1⟩] (5 + 2 ^ 32) 2 := by
  refine ⟨subletManager_reached, ?_⟩
  rintro ⟨result, next, accepted, agrees, -⟩
  have found : (subletManager.acceptViewport (5 + 2 ^ 32) 2).map Prod.fst = .ok (some 1) := rfl
  rw [accepted] at found
  have offered := (agrees 1).mp (Except.ok.inj found)
  revert offered
  decide

end Embassies.Monitor
