import Embassies.Monitor.Consistency

/-!
# Isolation between apps

A message of one app should leave alone the canvases that another app mapped
and the viewports of which it is the tenant.  The handlers of `co_unmap_canvas`
and `co_update_canvas` take a canvas of any app, those of the other messages
follow a handle that may lead nowhere, and an old deed still changes the tenant.
For each message this module says exactly when the other app is left alone.
-/

namespace Embassies.Monitor

open Library Library.Checked List Function KeyedTable

namespace BlitterManager

/-- A viewport of which `bystander` is the tenant and `actor` not the landlord. -/
def Guarded (manager : BlitterManager) (actor bystander : UInt32)
    (pointer : Nat) : Prop :=
  (∃ handle, (manager.viewports pointer).tenantHandle = some handle ∧
      handle.processId = bystander) ∧
    (manager.viewports pointer).landlordHandle.processId ≠ actor

/-- A process has a handle to a viewport whose tenant's handle has that number. -/
def HoldsTenancy (manager : BlitterManager) (processId viewportId : UInt32)
    (pointer : Nat) : Prop :=
  ⟨viewportId, processId, pointer⟩ ∈ manager.viewportHandles ∧
    ∃ handle, (manager.viewports pointer).tenantHandle = some handle ∧
      handle.handle = viewportId

/-- The next handle of a process is not in use. -/
def HandleFree (manager : BlitterManager) (processId : UInt32) : Prop :=
  ∀ handle ∈ manager.viewportHandles,
    handle.key ≠ (processId, manager.nextViewportId)

/-- No deed of the table compares equal to a number. -/
def DeedFree (manager : BlitterManager) (deed : UInt64) : Prop :=
  ∀ entry ∈ manager.deeds, entry.hash ≠ deed.toUInt32

/-- The message names what it may name: nothing is missing, and what it changes
is not `bystander`'s. -/
def Harmless (manager : BlitterManager) (actor bystander : UInt32) :
    WindowMessage → Prop
  | .subletViewport tenantViewport deed _ =>
    (∃ pointer, manager.HoldsTenancy actor tenantViewport pointer) ∧
      manager.HandleFree actor ∧ manager.DeedFree deed
  | .acceptViewport deed =>
    manager.HandleFree actor ∧
      ∃ entry ∈ manager.deeds, entry.hash = deed.toUInt32 ∧
        ¬ manager.Guarded actor bystander entry.viewport
  | .transferViewport tenantViewport deed _ =>
    ∃ pointer, manager.HoldsTenancy actor tenantViewport pointer ∧
      manager.DeedFree deed ∧ ¬ manager.Guarded actor bystander pointer ∧
      ∀ canvas ∈ manager.canvases, canvas.viewport = pointer →
        canvas.palifc ≠ bystander
  | .mapCanvas viewportId truecolor =>
    ∃ pointer, manager.HoldsTenancy actor viewportId pointer ∧
      (manager.viewports pointer).mappedCanvas = none ∧ truecolor = true ∧
      (∀ parent, (manager.viewports pointer).parentViewport = some parent →
        (manager.viewports parent).mappedCanvas ≠ none) ∧
      (∀ canvas ∈ manager.canvases, canvas.canvasId ≠ manager.nextCanvasId) ∧
      ¬ manager.Guarded actor bystander pointer
  | .unmapCanvas canvasId =>
    ∃ canvas ∈ manager.canvases, canvas.canvasId = canvasId ∧
      canvas.palifc ≠ bystander ∧
      ¬ manager.Guarded actor bystander canvas.viewport
  | .updateCanvas canvasId =>
    ∃ canvas ∈ manager.canvases, canvas.canvasId = canvasId ∧
      (canvas.windowOpen = true → canvas.palifc ≠ bystander ∧
        ¬ manager.Guarded actor bystander canvas.viewport)

/-- The canvases that `bystander` mapped and its viewports are as before, and
nothing is drawn on them. -/
structure Untouched (before : BlitterManager) (outcome : Outcome)
    (actor bystander : UInt32) : Prop where
  canvases : ∀ canvas ∈ before.canvases, canvas.palifc = bystander →
    canvas ∈ outcome.listener.blitterMgr.canvases ∧
      (outcome.listener.blitterMgr.viewports canvas.viewport).mappedCanvas =
        some canvas.canvasId ∧
      outcome.drawn ≠ some canvas.canvasId
  viewports : ∀ pointer, before.Guarded actor bystander pointer →
    outcome.listener.blitterMgr.viewports pointer = before.viewports pointer ∧
      (∀ handle, (before.viewports pointer).tenantHandle = some handle →
        handle ∈ outcome.listener.blitterMgr.viewportHandles) ∧
      ∀ canvasId, (before.viewports pointer).mappedCanvas = some canvasId →
        outcome.drawn ≠ some canvasId

variable {manager next : BlitterManager} {actor bystander : UInt32}
  {pointer : Nat} {outcome : Outcome} {deed deedKey : UInt64}

theorem untouched_of_others (consistent : outcome.listener.blitterMgr.Consistent)
    (quiet : outcome.drawn = none)
    (unguarded : ¬ manager.Guarded actor bystander pointer)
    (others : ∀ other, other ≠ pointer →
      outcome.listener.blitterMgr.viewports other = manager.viewports other)
    (canvases : ∀ canvas ∈ manager.canvases, canvas.palifc = bystander →
      canvas ∈ outcome.listener.blitterMgr.canvases) :
    manager.Untouched outcome actor bystander where
  canvases canvas member own := by
    have kept := canvases canvas member own
    refine ⟨kept, consistent.mapped_of_mem kept, ?_⟩
    rw [quiet]
    exact (Option.some_ne_none _).symm
  viewports other guarded := by
    have same := others other fun equal => unguarded (equal ▸ guarded)
    refine ⟨same, ?_, ?_⟩
    · intro handle tenant
      rw [← same] at tenant
      exact (consistent.tenant other handle tenant).1
    · intro canvasId _
      rw [quiet]
      exact (Option.some_ne_none _).symm

theorem Untouched.unguarded (untouched : manager.Untouched outcome actor bystander)
    (changed : outcome.listener.blitterMgr.viewports pointer ≠ manager.viewports pointer) :
    ¬ manager.Guarded actor bystander pointer :=
  fun guarded => changed (untouched.viewports pointer guarded).1

/-! ## When the operations succeed -/

theorem holdsTenancy_iff {viewportId : UInt32} :
    manager.getTenantViewport viewportId actor = .ok (some pointer) ↔
      manager.HoldsTenancy actor viewportId pointer :=
  getTenantViewport_eq_some_iff

theorem exists_newViewport_iff {parentViewport : Option Nat} :
    (∃ pointer next, manager.newViewport actor parentViewport deed deedKey = .ok (pointer, next)) ↔
      manager.HandleFree actor ∧ manager.DeedFree deed := by
  constructor
  · rintro ⟨pointer, next, made⟩
    obtain ⟨_, _, handles, deeds, -, -⟩ := newViewport_eq_ok_iff.mp made
    exact ⟨(insert_eq_ok_iff.mp handles).1, (insert_eq_ok_iff.mp deeds).1⟩
  · rintro ⟨handleFree, deedFree⟩
    obtain ⟨handles, inserted⟩ := @exists_insert _ _ _ _ _ Fault.assertion manager.viewportHandles
        ⟨manager.nextViewportId, actor, manager.numViewports⟩ handleFree
    obtain ⟨deeds, made⟩ := @exists_insert _ _ _ _ _ Fault.assertion manager.deeds
        ⟨deed, manager.numViewports⟩ deedFree
    exact ⟨_, _, newViewport_eq_ok_iff.mpr ⟨handles, deeds, inserted, made, rfl, rfl⟩⟩

theorem exists_becomeTenant_iff : (∃ next, manager.becomeTenant pointer actor = .ok next) ↔
      manager.HandleFree actor := by
  constructor
  · rintro ⟨next, done⟩
    obtain ⟨_, inserted, -⟩ := becomeTenant_eq_ok_iff.mp done
    exact (insert_eq_ok_iff.mp inserted).1
  · intro free
    obtain ⟨handles, inserted⟩ := @exists_insert _ _ _ _ _ Fault.assertion manager.viewportHandles
        ⟨manager.nextViewportId, actor, pointer⟩ free
    exact ⟨_, becomeTenant_eq_ok_iff.mpr ⟨handles, inserted, rfl⟩⟩

/-- What stays when a viewport loses the canvas that is mapped into it. -/
structure Freed (before after : BlitterManager) (pointer : Nat) : Prop where
  others : ∀ other, other ≠ pointer →
    after.viewports other = before.viewports other
  tenantHandle : (after.viewports pointer).tenantHandle =
    (before.viewports pointer).tenantHandle
  viewportHandles : after.viewportHandles = before.viewportHandles
  deeds : after.deeds = before.deeds
  canvases : ∀ canvas, canvas ∈ after.canvases ↔
    canvas ∈ before.canvases ∧ canvas.viewport ≠ pointer

theorem Consistent.exists_unmapMapped (consistent : manager.Consistent) (pointer : Nat) :
    ∃ next, manager.unmapMapped pointer = .ok next ∧ manager.Freed next pointer := by
  rw [BlitterManager.unmapMapped]
  cases mapped : (manager.viewports pointer).mappedCanvas with
  | none =>
    refine ⟨manager, rfl, fun _ _ => rfl, rfl, rfl, rfl, fun canvas => ?_⟩
    refine ⟨fun member => ⟨member, fun same => ?_⟩, fun both => both.1⟩
    have elsewhere := consistent.mapped_of_mem member
    rw [same, mapped] at elsewhere
    cases elsewhere
  | some canvasId =>
    obtain ⟨canvas, member, rfl, rfl⟩ := (consistent.mapped _ _).mp mapped
    refine ⟨manager.withoutCanvas canvas, unmapId_eq_ok_iff.mpr
      ⟨canvas, member, rfl, mapped, rfl⟩, ?_, ?_, rfl, rfl, ?_⟩
    · intro other apart
      rw [withoutCanvas_viewports, update_of_ne apart]
    · exact withoutCanvas_tenantHandle canvas canvas.viewport
    · intro other
      rw [Consistent.mem_withoutCanvas]
      refine and_congr_right fun otherIn => not_congr ⟨fun same => ?_, fun same => ?_⟩
      · rw [eq_of_key otherIn member same]
      · have elsewhere := consistent.mapped_of_mem otherIn
        rw [same, mapped] at elsewhere
        exact (Option.some.inj elsewhere).symm

/-- What a transfer leaves as it was. -/
structure Transferred (before after : BlitterManager) (pointer : Nat) : Prop where
  others : ∀ other, other ≠ pointer →
    after.viewports other = before.viewports other
  tenantHandle : (after.viewports pointer).tenantHandle = none
  canvases : ∀ canvas, canvas ∈ after.canvases ↔
    canvas ∈ before.canvases ∧ canvas.viewport ≠ pointer

theorem Consistent.transferred (consistent : manager.Consistent)
    (done : manager.transfer pointer deed deedKey = .ok next) :
    manager.DeedFree deed ∧ manager.Transferred next pointer := by
  obtain ⟨unmapped, handle, deeds, unmapping, -, -, made, rfl⟩ := transfer_eq_ok_iff.mp done
  obtain ⟨_, same, freed⟩ := consistent.exists_unmapMapped pointer
  obtain rfl := Except.ok.inj (same.symm.trans unmapping)
  refine ⟨?_, ?_, ?_, freed.canvases⟩
  · have absent := (insert_eq_ok_iff.mp made).1
    rwa [freed.deeds] at absent
  · intro other apart
    rw [withTransfer_viewports, update_of_ne apart, freed.others other apart]
  · rw [withTransfer_viewports, update_self]

theorem Consistent.exists_transfer (consistent : manager.Consistent) {handle : ViewportHandle}
    (tenant : (manager.viewports pointer).tenantHandle = some handle)
    (deedFree : manager.DeedFree deed) :
    ∃ next, manager.transfer pointer deed deedKey = .ok next := by
  obtain ⟨unmapped, unmapping, freed⟩ := consistent.exists_unmapMapped pointer
  have present := (consistent.tenant pointer handle tenant).1
  rw [← freed.tenantHandle] at tenant
  rw [← freed.viewportHandles] at present
  have absent : ∀ entry ∈ unmapped.deeds, entry.hash ≠ DeedEntry.hash ⟨deed, pointer⟩ := by
    rw [freed.deeds]
    exact deedFree
  obtain ⟨deeds, made⟩ := @exists_insert _ _ _ _ _ Fault.assertion
    unmapped.deeds ⟨deed, pointer⟩ absent
  exact ⟨_, transfer_eq_ok_iff.mpr ⟨unmapped, handle, deeds, unmapping, tenant,
    ⟨handle, present, rfl⟩, made, rfl⟩⟩

end BlitterManager

/-! ## The messages -/

namespace Listener

open BlitterManager

variable {listener : Listener} {app : App} {bystander : UInt32}

/-- An outcome that leaves the other app alone. -/
def Isolates (listener : Listener) (app : App) (bystander : UInt32)
    (result : Except Fault Outcome) : Prop :=
  ∃ outcome, result = .ok outcome ∧
    listener.blitterMgr.Untouched outcome app.getId bystander

section Messages

variable (consistent : listener.Consistent)

include consistent

theorem subletViewport_isolates_iff (tenantViewport : UInt32) (deed deedKey : UInt64) :
    listener.Isolates app bystander (listener.subletViewport app tenantViewport deed deedKey) ↔
      listener.blitterMgr.Harmless app.getId bystander
        (.subletViewport tenantViewport deed deedKey) := by
  constructor
  · rintro ⟨outcome, done, -⟩
    obtain ⟨parent, child, next, tenant, made, -⟩ := subletViewport_eq_ok_iff.mp done
    exact ⟨⟨parent, holdsTenancy_iff.mp tenant⟩, exists_newViewport_iff.mp ⟨child, next, made⟩⟩
  · rintro ⟨⟨parent, tenant⟩, free⟩
    obtain ⟨child, next, made⟩ := exists_newViewport_iff.mpr free
    refine ⟨_, subletViewport_eq_ok_iff.mpr
      ⟨parent, child, next, holdsTenancy_iff.mpr tenant, made, rfl⟩, ?_⟩
    have kept := consistent.blitterMgr.change (newViewport_change made)
    obtain ⟨handles, deeds, -, -, rfl, rfl⟩ := newViewport_eq_ok_iff.mp made
    have unguarded : ¬ listener.blitterMgr.Guarded app.getId bystander
        listener.blitterMgr.numViewports := by
      rintro ⟨⟨handle, own, -⟩, -⟩
      exact absurd (consistent.blitterMgr.bound_of_tenant own) (Nat.lt_irrefl _)
    refine untouched_of_others kept rfl unguarded ?_ fun _ member _ => member
    intro other apart
    exact (congrFun (withViewport_viewports ..) other).trans (update_of_ne apart _ _)

theorem acceptViewport_isolates_iff (apart : app.getId ≠ bystander) (deed : UInt64) :
    listener.Isolates app bystander (listener.acceptViewport app deed) ↔
      listener.blitterMgr.Harmless app.getId bystander (.acceptViewport deed) := by
  constructor
  · rintro ⟨outcome, done, untouched⟩
    obtain ⟨_, next, accepted, rfl⟩ := acceptViewport_eq_ok_iff.mp done
    obtain ⟨entry, member, same, rfl, tenant⟩ := acceptViewport_eq_some_iff.mp accepted
    have free : (listener.blitterMgr.withoutDeed entry).HandleFree app.getId :=
      exists_becomeTenant_iff.mp ⟨next, tenant⟩
    refine ⟨free, entry, member, same, ?_⟩
    intro guarded
    have unchanged := (untouched.viewports _ guarded).1
    obtain ⟨⟨handle, own, foreign⟩, -⟩ := guarded
    obtain ⟨handles, -, rfl⟩ := becomeTenant_eq_ok_iff.mp tenant
    -- the new tenant is the sender and the old one is not
    have tenants := congrArg BlitterViewport.tenantHandle
      ((setViewport_self ..).symm.trans unchanged)
    rw [own] at tenants
    obtain rfl := Option.some.inj tenants
    exact apart foreign
  · rintro ⟨free, entry, member, same, unguarded⟩
    obtain ⟨next, tenant⟩ := exists_becomeTenant_iff.mpr
      (show (listener.blitterMgr.withoutDeed entry).HandleFree app.getId from free)
    have accepted := acceptViewport_eq_some_iff.mpr ⟨entry, member, same, rfl, tenant⟩
    refine ⟨_, acceptViewport_eq_ok_iff.mpr ⟨entry.viewport, next, accepted, rfl⟩, ?_⟩
    have kept := consistent.blitterMgr.change (acceptViewport_change accepted)
    obtain ⟨handles, -, rfl⟩ := becomeTenant_eq_ok_iff.mp tenant
    refine untouched_of_others kept rfl unguarded ?_ fun _ present _ => present
    intro other elsewhere
    exact (congrFun (withTenant_viewports ..) other).trans (update_of_ne elsewhere _ _)

theorem transferViewport_isolates_iff (tenantViewport : UInt32) (deed deedKey : UInt64) :
    listener.Isolates app bystander (listener.transferViewport app tenantViewport deed deedKey) ↔
      listener.blitterMgr.Harmless app.getId bystander
        (.transferViewport tenantViewport deed deedKey) := by
  constructor
  · rintro ⟨outcome, done, untouched⟩
    obtain ⟨pointer, next, tenant, transferring, rfl⟩ := transferViewport_eq_ok_iff.mp done
    obtain ⟨free, transferred⟩ := consistent.blitterMgr.transferred transferring
    refine ⟨pointer, holdsTenancy_iff.mp tenant, free, ?_, ?_⟩
    · obtain ⟨-, handle, own, -⟩ := holdsTenancy_iff.mp tenant
      apply untouched.unguarded
      intro unchanged
      have lost := (congrArg BlitterViewport.tenantHandle unchanged).symm.trans
        transferred.tenantHandle
      rw [own] at lost
      cases lost
    · intro canvas member place own
      have kept := (untouched.canvases canvas member own).1
      exact ((transferred.canvases canvas).mp kept).2 place
  · rintro ⟨pointer, tenant, free, unguarded, canvases⟩
    have held := holdsTenancy_iff.mpr tenant
    obtain ⟨-, handle, own, -⟩ := tenant
    obtain ⟨next, transferring⟩ := @Consistent.exists_transfer _ _ _ deedKey
      consistent.blitterMgr _ own free
    refine ⟨_, transferViewport_eq_ok_iff.mpr ⟨pointer, next, held, transferring, rfl⟩, ?_⟩
    obtain ⟨-, transferred⟩ := consistent.blitterMgr.transferred transferring
    refine untouched_of_others (consistent.blitterMgr.advances (transfer_advances transferring))
      rfl unguarded transferred.others ?_
    intro canvas member foreign
    exact (transferred.canvases canvas).mpr
      ⟨member, fun place => canvases canvas member place foreign⟩

theorem mapCanvas_isolates_iff (viewportId : UInt32) (truecolor : Bool) :
    listener.Isolates app bystander (listener.mapCanvas app viewportId truecolor) ↔
      listener.blitterMgr.Harmless app.getId bystander (.mapCanvas viewportId truecolor) := by
  constructor
  · rintro ⟨outcome, done, untouched⟩
    obtain ⟨pointer, next, tenant, mapped, rfl⟩ := mapCanvas_eq_ok_iff.mp done
    obtain ⟨free, wanted, parent, canvases, inserted, rfl⟩ :=
      BlitterManager.mapCanvas_eq_ok_iff.mp mapped
    refine ⟨pointer, holdsTenancy_iff.mp tenant, free, wanted,
      checkParentCanvas_eq_ok_iff.mp parent,
      (insert_eq_ok_iff.mp inserted).1, ?_⟩
    apply untouched.unguarded
    intro unchanged
    have same := congrArg BlitterViewport.mappedCanvas ((setViewport_self ..).symm.trans unchanged)
    rw [free] at same
    cases same
  · rintro ⟨pointer, tenant, free, wanted, parent, fresh, unguarded⟩
    obtain ⟨canvases, inserted⟩ := @exists_insert _ _ _ _ _
      Fault.assertion listener.blitterMgr.canvases
      ⟨listener.blitterMgr.nextCanvasId, app.getId, pointer, app.owner, true⟩ fresh
    have mapped := BlitterManager.mapCanvas_eq_ok_iff.mpr ⟨free, wanted,
      checkParentCanvas_eq_ok_iff.mpr parent, canvases, inserted, rfl⟩
    have held := holdsTenancy_iff.mpr tenant
    refine ⟨_, mapCanvas_eq_ok_iff.mpr ⟨pointer, _, held, mapped, rfl⟩, ?_⟩
    refine untouched_of_others (consistent.blitterMgr.change
      (mapCanvas_change (consistent.bound_of_tenantViewport held) mapped)) rfl unguarded ?_ ?_
    · intro other elsewhere
      exact (congrFun (withCanvas_viewports ..) other).trans (update_of_ne elsewhere _ _)
    · intro canvas member _
      exact (mem_insert inserted).mpr (.inr member)

theorem unmapCanvas_isolates_iff (canvasId : UInt32) :
    listener.Isolates app bystander (listener.unmapCanvas canvasId) ↔
      listener.blitterMgr.Harmless app.getId bystander (.unmapCanvas canvasId) := by
  constructor
  · rintro ⟨outcome, done, untouched⟩
    obtain ⟨next, unmapped, rfl⟩ := unmapCanvas_eq_ok_iff.mp done
    obtain ⟨canvas, member, rfl, mapped, rfl⟩ := unmapId_eq_ok_iff.mp unmapped
    refine ⟨canvas, member, rfl, ?_, ?_⟩
    · intro own
      have kept := (untouched.canvases canvas member own).1
      exact (Consistent.mem_withoutCanvas.mp kept).2 rfl
    · apply untouched.unguarded
      intro unchanged
      have same := congrArg BlitterViewport.mappedCanvas
        ((setViewport_self ..).symm.trans unchanged)
      rw [mapped] at same
      cases same
  · rintro ⟨canvas, member, rfl, foreign, unguarded⟩
    have unmapped := unmapId_eq_ok_iff.mpr
      ⟨canvas, member, rfl, consistent.blitterMgr.mapped_of_mem member, rfl⟩
    refine ⟨_, unmapCanvas_eq_ok_iff.mpr ⟨_, unmapped, rfl⟩, ?_⟩
    refine untouched_of_others (consistent.blitterMgr.withoutCanvas member) rfl unguarded ?_ ?_
    · intro other elsewhere
      exact (congrFun (withoutCanvas_viewports ..) other).trans (update_of_ne elsewhere _ _)
    · intro other present own
      refine Consistent.mem_withoutCanvas.mpr ⟨present, fun same => ?_⟩
      obtain rfl := eq_of_key present member same
      exact foreign own

theorem updateCanvas_isolates_iff (canvasId : UInt32) :
    listener.Isolates app bystander (listener.updateCanvas canvasId) ↔
      listener.blitterMgr.Harmless app.getId bystander (.updateCanvas canvasId) := by
  constructor
  · rintro ⟨outcome, done, untouched⟩
    obtain ⟨drawn, updated, rfl⟩ := updateCanvas_eq_ok_iff.mp done
    obtain ⟨canvas, member, rfl, same⟩ := BlitterManager.updateCanvas_eq_ok_iff.mp updated
    refine ⟨canvas, member, rfl, fun opened => ?_⟩
    rw [if_pos opened] at same
    constructor
    · intro own
      exact (untouched.canvases canvas member own).2.2 same.symm
    · intro guarded
      exact (untouched.viewports _ guarded).2.2 canvas.canvasId
        (consistent.blitterMgr.mapped_of_mem member) same.symm
  · rintro ⟨canvas, member, rfl, harmless⟩
    have updated := BlitterManager.updateCanvas_eq_ok_iff.mpr ⟨canvas, member, rfl, rfl⟩
    refine ⟨_, updateCanvas_eq_ok_iff.mpr ⟨_, updated, rfl⟩, ?_, ?_⟩
    · intro other present own
      refine ⟨present, consistent.blitterMgr.mapped_of_mem present, ?_⟩
      split
      · rename_i opened
        intro same
        obtain rfl := eq_of_key member present (Option.some.inj same)
        exact (harmless opened).1 own
      · exact (Option.some_ne_none _).symm
    · intro pointer guarded
      refine ⟨rfl, fun handle tenant =>
        (consistent.blitterMgr.tenant pointer handle tenant).1, ?_⟩
      intro mappedId mapped
      split
      · rename_i opened
        intro same
        obtain rfl := Option.some.inj same
        obtain ⟨other, present, named, rfl⟩ := (consistent.blitterMgr.mapped _ _).mp mapped
        obtain rfl := eq_of_key member present named.symm
        exact (harmless opened).2 guarded
      · exact (Option.some_ne_none _).symm

end Messages

end Listener

open Listener

end Embassies.Monitor
