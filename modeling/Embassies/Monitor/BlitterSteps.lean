import Embassies.Monitor.Blitter
import Mathlib.Logic.Relation

/-!
# What the operations on viewports and canvases do

For each operation of `BlitterManager` this module says exactly when it
succeeds and what the manager is afterwards.  Everything that is proved about
runs of the manager uses these rules and not the definitions.
-/

namespace Embassies.Monitor

open Library Library.Checked KeyedTable

namespace BlitterManager

variable {manager next : BlitterManager} {pointer : Nat}
  {viewportId processId canvasId : UInt32} {deed deedKey : UInt64}

/-! ## Handles -/

theorem setViewport_self (manager : BlitterManager) (pointer : Nat) (viewport : BlitterViewport) :
    (manager.setViewport pointer viewport).viewports pointer = viewport :=
  if_pos rfl

theorem setViewport_setViewport
    (manager : BlitterManager) (pointer : Nat) (first second : BlitterViewport) :
    (manager.setViewport pointer first).setViewport pointer second =
      manager.setViewport pointer second := by
  rw [setViewport, setViewport, setViewport]
  congr 1
  funext other
  by_cases same : other = pointer
  · rw [if_pos same, if_pos same]
  · rw [if_neg same, if_neg same]
    exact if_neg same

theorem getViewport_eq_ok_iff : manager.getViewport viewportId processId = .ok pointer ↔
      ⟨viewportId, processId, pointer⟩ ∈ manager.viewportHandles := by
  rw [getViewport]
  constructor
  · intro found
    split at found <;> cases found
    rename_i handle found
    obtain ⟨member, same⟩ := lookup_eq_some_iff.mp found
    cases handle
    cases same
    exact member
  · intro member
    have found : manager.viewportHandles.lookup (processId, viewportId) =
        some ⟨viewportId, processId, pointer⟩ := lookup_eq_some_iff.mpr ⟨member, rfl⟩
    rw [found]

theorem getTenantId_eq_ok_iff {viewport : BlitterViewport} : getTenantId viewport = .ok viewportId ↔
      ∃ handle, viewport.tenantHandle = some handle ∧ handle.handle = viewportId := by
  rw [getTenantId]
  cases viewport.tenantHandle with
  | none => simp
  | some handle => simp

theorem getTenantViewport_eq_some_iff :
    manager.getTenantViewport viewportId processId = .ok (some pointer) ↔
      ⟨viewportId, processId, pointer⟩ ∈ manager.viewportHandles ∧
        ∃ handle, (manager.viewports pointer).tenantHandle = some handle ∧
          handle.handle = viewportId := by
  rw [getTenantViewport, bind_eq_ok_iff]
  constructor
  · rintro ⟨found, lookedUp, rest⟩
    obtain ⟨tenantId, tenant, returned⟩ := of_bind rest
    rw [pure_eq_ok, Except.ok.injEq, ite_eq_iff] at returned
    rcases returned with ⟨rfl, same⟩ | ⟨-, absurd⟩
    · cases same
      exact ⟨getViewport_eq_ok_iff.mp lookedUp, getTenantId_eq_ok_iff.mp tenant⟩
    · cases absurd
  · rintro ⟨member, tenant⟩
    refine ⟨pointer, getViewport_eq_ok_iff.mpr member, ?_⟩
    rw [getTenantId_eq_ok_iff.mpr tenant, ok_bind, if_pos rfl]
    rfl

/-! ## Deeds -/

/-- The manager after a viewport has got a tenant. -/
def withTenant (manager : BlitterManager) (pointer : Nat) (processId : UInt32)
    (viewportHandles : KeyedTable ViewportHandle.key) : BlitterManager :=
  { manager.setViewport pointer { manager.viewports pointer with
      tenantHandle := some ⟨manager.nextViewportId, processId, pointer⟩
      deed := 0 } with
    nextViewportId := manager.nextViewportId + 1
    viewportHandles }

theorem becomeTenant_eq_ok_iff : manager.becomeTenant pointer processId = .ok next ↔
      ∃ viewportHandles, manager.viewportHandles.insert Fault.assertion
          ⟨manager.nextViewportId, processId, pointer⟩ = .ok viewportHandles ∧
        manager.withTenant pointer processId viewportHandles = next := by
  rw [becomeTenant, addViewportHandle, bind_eq_ok_iff]
  simp only [pure_eq_ok, Except.ok.injEq]
  rfl

/-- The manager after a viewport has been made. -/
def withViewport (manager : BlitterManager) (processId : UInt32)
    (parentViewport : Option Nat) (deed deedKey : UInt64)
    (viewportHandles : KeyedTable ViewportHandle.key)
    (deeds : KeyedTable DeedEntry.hash) : BlitterManager :=
  { manager.setViewport manager.numViewports
      ⟨⟨manager.nextViewportId, processId, manager.numViewports⟩, none, deed,
        deedKey, parentViewport, none⟩ with
    nextViewportId := manager.nextViewportId + 1
    numViewports := manager.numViewports + 1
    viewportHandles
    deeds }

theorem newViewport_eq_ok_iff {parentViewport : Option Nat} :
    manager.newViewport processId parentViewport deed deedKey = .ok (pointer, next) ↔
      ∃ viewportHandles deeds, manager.viewportHandles.insert Fault.assertion
          ⟨manager.nextViewportId, processId, manager.numViewports⟩ = .ok viewportHandles ∧
        manager.deeds.insert Fault.assertion ⟨deed, manager.numViewports⟩ = .ok deeds ∧
        manager.numViewports = pointer ∧
        manager.withViewport processId parentViewport deed deedKey viewportHandles
          deeds = next := by
  rw [newViewport]
  simp only [addViewportHandle, bind_eq_ok_iff, pure_eq_ok, Except.ok.injEq,
    manufactureDeed, Prod.mk.injEq]
  constructor
  · rintro ⟨_, ⟨handles, inserted, rfl⟩, _, ⟨deeds, made, rfl⟩, rfl, rfl⟩
    exact ⟨handles, deeds, inserted, made, rfl, rfl⟩
  · rintro ⟨handles, deeds, inserted, made, rfl, rfl⟩
    exact ⟨_, ⟨handles, inserted, rfl⟩, _, ⟨deeds, made, rfl⟩, rfl, rfl⟩

theorem newToplevelViewport_eq_ok_iff :
    manager.newToplevelViewport processId deed deedKey = .ok next ↔
      ∃ made, manager.newViewport processId none deed deedKey = .ok (manager.numViewports, made) ∧
        made.becomeTenant manager.numViewports processId = .ok next := by
  rw [newToplevelViewport, bind_eq_ok_iff]
  constructor
  · rintro ⟨⟨pointer, made⟩, created, tenant⟩
    obtain ⟨_, _, -, -, rfl, -⟩ := newViewport_eq_ok_iff.mp created
    exact ⟨made, created, tenant⟩
  · rintro ⟨made, created, tenant⟩
    exact ⟨_, created, tenant⟩

/-- The manager after an entry has left the table of deeds. -/
def withoutDeed (manager : BlitterManager) (entry : DeedEntry) : BlitterManager :=
  { manager with
    deeds := manager.deeds.filter fun other => other.hash ≠ entry.hash }

theorem acceptViewport_eq_some_iff :
    manager.acceptViewport deed processId = .ok (some pointer, next) ↔
      ∃ entry ∈ manager.deeds, entry.hash = deed.toUInt32 ∧ entry.viewport = pointer ∧
        (manager.withoutDeed entry).becomeTenant pointer processId = .ok next := by
  have key : DeedEntry.hash ⟨deed, 0⟩ = deed.toUInt32 := rfl
  rw [acceptViewport, key, exists_iff_lookup]
  cases found : manager.deeds.lookup deed.toUInt32 with
  | none => simp
  | some value =>
    have removed : manager.deeds.remove Fault.assertion value.hash =
        .ok (manager.withoutDeed value).deeds :=
      remove_eq_ok_iff.mpr ⟨⟨value, (lookup_eq_some_iff.mp found).1, rfl⟩, rfl⟩
    dsimp only
    rw [removed, ok_bind, bind_eq_ok_iff]
    simp only [pure_eq_ok, Except.ok.injEq, Prod.mk.injEq, Option.some.injEq, exists_eq_left']
    constructor
    · rintro ⟨_, tenant, rfl, rfl⟩
      exact ⟨rfl, tenant⟩
    · rintro ⟨rfl, tenant⟩
      exact ⟨next, tenant, rfl, rfl⟩

theorem acceptViewport_eq_none_iff : manager.acceptViewport deed processId = .ok (none, next) ↔
      (∀ entry ∈ manager.deeds, entry.hash ≠ deed.toUInt32) ∧ manager = next := by
  have key : DeedEntry.hash ⟨deed, 0⟩ = deed.toUInt32 := rfl
  rw [acceptViewport, key]
  cases found : manager.deeds.lookup deed.toUInt32 with
  | none =>
    simp only [Except.ok.injEq, Prod.mk.injEq, true_and]
    exact ⟨fun same => ⟨lookup_eq_none_iff.mp found, same⟩, fun both => both.2⟩
  | some value =>
    obtain ⟨member, same⟩ := lookup_eq_some_iff.mp found
    constructor
    · intro accepted
      obtain ⟨_, -, rest⟩ := of_bind accepted
      obtain ⟨_, -, returned⟩ := of_bind rest
      cases returned
    · rintro ⟨absent, -⟩
      exact absurd same (absent value member)

/-! ## Canvases -/

/-- The manager after a canvas has been unmapped. -/
def withoutCanvas (manager : BlitterManager) (canvas : BlitterCanvas) :
    BlitterManager :=
  { manager.setViewport canvas.viewport
      { manager.viewports canvas.viewport with mappedCanvas := none } with
    canvases := manager.canvases.filter fun other =>
      other.canvasId ≠ canvas.canvasId }

theorem unmap_eq_ok_iff {canvas : BlitterCanvas} : manager.unmap canvas = .ok next ↔
      (manager.viewports canvas.viewport).mappedCanvas = some canvas.canvasId ∧
        (∃ other ∈ manager.canvases, other.canvasId = canvas.canvasId) ∧
        manager.withoutCanvas canvas = next := by
  rw [unmap]
  simp only [bind_eq_ok_iff, ensure_eq_ok_iff, pure_eq_ok, Except.ok.injEq]
  constructor
  · rintro ⟨_, mapped, canvases, removed, rfl⟩
    obtain ⟨present, rfl⟩ := remove_eq_ok_iff.mp removed
    exact ⟨mapped, present, rfl⟩
  · rintro ⟨mapped, present, rfl⟩
    exact ⟨⟨⟩, mapped, _, remove_eq_ok_iff.mpr ⟨present, rfl⟩, rfl⟩

theorem unmapId_eq_ok_iff : manager.unmapId canvasId = .ok next ↔
      ∃ canvas ∈ manager.canvases, canvas.canvasId = canvasId ∧
        (manager.viewports canvas.viewport).mappedCanvas = some canvasId ∧
        manager.withoutCanvas canvas = next := by
  rw [unmapId, exists_iff_lookup]
  cases found : manager.canvases.lookup canvasId with
  | none => simp
  | some canvas =>
    obtain ⟨member, rfl⟩ := lookup_eq_some_iff.mp found
    have present : ∃ other ∈ manager.canvases, other.canvasId = canvas.canvasId :=
      ⟨canvas, member, rfl⟩
    simp only [unmap_eq_ok_iff, present, true_and, Option.some.injEq, exists_eq_left']

/-- The manager after a viewport has been transferred. -/
def withTransfer (manager : BlitterManager) (pointer : Nat)
    (handle : ViewportHandle) (deed deedKey : UInt64)
    (deeds : KeyedTable DeedEntry.hash) : BlitterManager :=
  { manager.setViewport pointer { manager.viewports pointer with
      tenantHandle := none
      deed := deed
      deedKey := deedKey } with
    viewportHandles := manager.viewportHandles.filter fun other =>
      other.key ≠ handle.key
    deeds }

theorem evict_eq_ok_iff : manager.evict pointer = .ok next ↔
      ∃ handle, (manager.viewports pointer).tenantHandle = some handle ∧
        (∃ other ∈ manager.viewportHandles, other.key = handle.key) ∧
        ({ manager with
            viewportHandles := manager.viewportHandles.filter fun other =>
              other.key ≠ handle.key }).setViewport pointer
          { manager.viewports pointer with tenantHandle := none } = next := by
  rw [evict]
  cases (manager.viewports pointer).tenantHandle with
  | none => simp
  | some handle =>
    simp only [removeViewportHandle, bind_eq_ok_iff, pure_eq_ok, Except.ok.injEq,
      Option.some.injEq, exists_eq_left']
    constructor
    · rintro ⟨_, ⟨handles, removed, rfl⟩, rfl⟩
      obtain ⟨present, rfl⟩ := remove_eq_ok_iff.mp removed
      exact ⟨present, rfl⟩
    · rintro ⟨present, rfl⟩
      exact ⟨_, ⟨_, remove_eq_ok_iff.mpr ⟨present, rfl⟩, rfl⟩, rfl⟩

theorem transfer_eq_ok_iff : manager.transfer pointer deed deedKey = .ok next ↔
      ∃ unmapped handle deeds, manager.unmapMapped pointer = .ok unmapped ∧
        (unmapped.viewports pointer).tenantHandle = some handle ∧
        (∃ other ∈ unmapped.viewportHandles, other.key = handle.key) ∧
        unmapped.deeds.insert Fault.assertion ⟨deed, pointer⟩ = .ok deeds ∧
        unmapped.withTransfer pointer handle deed deedKey deeds = next := by
  have final : ∀ (unmapped : BlitterManager) (handle : ViewportHandle)
      (deeds : KeyedTable DeedEntry.hash),
      let evicted := ({ unmapped with
          viewportHandles := unmapped.viewportHandles.filter fun other =>
            other.key ≠ handle.key }).setViewport pointer
        { unmapped.viewports pointer with tenantHandle := none }
      ({ evicted with deeds }).setViewport pointer
          { evicted.viewports pointer with deed := deed, deedKey := deedKey } =
        unmapped.withTransfer pointer handle deed deedKey deeds := by
    intro unmapped handle deeds
    dsimp only
    rw [setViewport_self]
    exact setViewport_setViewport { unmapped with
      viewportHandles := unmapped.viewportHandles.filter fun other =>
        other.key ≠ handle.key
      deeds } pointer _ _
  rw [transfer]
  simp only [bind_eq_ok_iff, evict_eq_ok_iff, manufactureDeed, pure_eq_ok, Except.ok.injEq]
  constructor
  · rintro ⟨unmapped, free, _, ⟨handle, tenant, present, rfl⟩, _, ⟨deeds, made, rfl⟩, rfl⟩
    exact ⟨unmapped, handle, deeds, free, tenant, present, made, (final unmapped handle deeds).symm⟩
  · rintro ⟨unmapped, handle, deeds, free, tenant, present, made, rfl⟩
    exact ⟨unmapped, free, _, ⟨handle, tenant, present, rfl⟩, _,
      ⟨deeds, made, rfl⟩, final unmapped handle deeds⟩

/-- The manager after a canvas has been mapped. -/
def withCanvas (manager : BlitterManager) (pointer : Nat)
    (canvases : KeyedTable BlitterCanvas.canvasId) : BlitterManager :=
  { manager.setViewport pointer { manager.viewports pointer with
      mappedCanvas := some manager.nextCanvasId } with
    canvases
    nextCanvasId := manager.nextCanvasId + 1 }

theorem checkParentCanvas_eq_ok_iff : manager.checkParentCanvas pointer = .ok () ↔
      ∀ parent, (manager.viewports pointer).parentViewport = some parent →
        (manager.viewports parent).mappedCanvas ≠ none := by
  rw [checkParentCanvas]
  cases (manager.viewports pointer).parentViewport with
  | none => simp
  | some parent =>
    cases mapped : (manager.viewports parent).mappedCanvas with
    | none => simp [mapped]
    | some canvas => simp [mapped]

variable {palifc : UInt32}

theorem mapCanvas_eq_ok_iff {truecolor : Bool} {windowLabel : List UInt8} :
    manager.mapCanvas pointer palifc truecolor windowLabel = .ok next ↔
      (manager.viewports pointer).mappedCanvas = none ∧ truecolor = true ∧
        manager.checkParentCanvas pointer = .ok () ∧
        ∃ canvases, manager.canvases.insert Fault.assertion
            ⟨manager.nextCanvasId, palifc, pointer, windowLabel, true⟩ = .ok canvases ∧
          manager.withCanvas pointer canvases = next := by
  rw [mapCanvas]
  simp only [bind_eq_ok_iff, ensure_eq_ok_iff, pure_eq_ok, Except.ok.injEq]
  constructor
  · rintro ⟨_, free, _, wanted, ⟨⟩, parent, canvases, inserted, rfl⟩
    exact ⟨free, wanted, parent, canvases, inserted, rfl⟩
  · rintro ⟨free, wanted, parent, canvases, inserted, rfl⟩
    exact ⟨⟨⟩, free, ⟨⟩, wanted, (), parent, canvases, inserted, rfl⟩

theorem updateCanvas_eq_ok_iff {drawn : Option UInt32} : manager.updateCanvas canvasId = .ok drawn ↔
      ∃ canvas ∈ manager.canvases, canvas.canvasId = canvasId ∧
        (if canvas.windowOpen then some canvasId else none) = drawn := by
  rw [updateCanvas, exists_iff_lookup]
  cases manager.canvases.lookup canvasId with
  | none => simp
  | some canvas => simp

/-! ## Changes -/

/-- Canvases are unmapped, one after the other. -/
def Unmaps : BlitterManager → BlitterManager → Prop :=
  Relation.ReflTransGen fun before after =>
    ∃ canvas ∈ before.canvases, before.withoutCanvas canvas = after

/-- What an operation does, apart from unmapping canvases. -/
inductive Change (manager : BlitterManager) : BlitterManager → Prop where
  | viewport {processId : UInt32} {parent : Nat} {deed deedKey : UInt64}
      {viewportHandles : KeyedTable ViewportHandle.key} {deeds : KeyedTable DeedEntry.hash}
      (inserted : manager.viewportHandles.insert Fault.assertion
        ⟨manager.nextViewportId, processId, manager.numViewports⟩ = .ok viewportHandles)
      (made : manager.deeds.insert Fault.assertion ⟨deed, manager.numViewports⟩ = .ok deeds) :
      Change manager
        (manager.withViewport processId (some parent) deed deedKey viewportHandles deeds)
  | toplevel {processId : UInt32} {deed deedKey : UInt64}
      {viewportHandles tenants : KeyedTable ViewportHandle.key} {deeds : KeyedTable DeedEntry.hash}
      (inserted : manager.viewportHandles.insert Fault.assertion
        ⟨manager.nextViewportId, processId, manager.numViewports⟩ = .ok viewportHandles)
      (made : manager.deeds.insert Fault.assertion ⟨deed, manager.numViewports⟩ = .ok deeds)
      (added : viewportHandles.insert Fault.assertion
        ⟨manager.nextViewportId + 1, processId, manager.numViewports⟩ = .ok tenants) :
      Change manager
        ((manager.withViewport processId none deed deedKey viewportHandles deeds).withTenant
          manager.numViewports processId tenants)
  | accept {entry : DeedEntry} {processId : UInt32} {tenants : KeyedTable ViewportHandle.key}
      (member : entry ∈ manager.deeds)
      (added : manager.viewportHandles.insert Fault.assertion
        ⟨manager.nextViewportId, processId, entry.viewport⟩ = .ok tenants) :
      Change manager ((manager.withoutDeed entry).withTenant entry.viewport processId tenants)
  | transfer {pointer : Nat} {handle : ViewportHandle} {deed deedKey : UInt64}
      {deeds : KeyedTable DeedEntry.hash}
      (tenant : (manager.viewports pointer).tenantHandle = some handle)
      (made : manager.deeds.insert Fault.assertion ⟨deed, pointer⟩ = .ok deeds) :
      Change manager (manager.withTransfer pointer handle deed deedKey deeds)
  | canvas {pointer : Nat} {palifc : UInt32} {windowLabel : List UInt8}
      {canvases : KeyedTable BlitterCanvas.canvasId} (bound : pointer < manager.numViewports)
      (free : (manager.viewports pointer).mappedCanvas = none)
      (inserted : manager.canvases.insert Fault.assertion
        ⟨manager.nextCanvasId, palifc, pointer, windowLabel, true⟩ = .ok canvases) :
      Change manager (manager.withCanvas pointer canvases)
  | closed (canvasId : UInt32) : Change manager (manager.closeWindow canvasId)

/-- What an operation does. -/
def Advances (before after : BlitterManager) : Prop :=
  ∃ middle, Unmaps before middle ∧ (middle = after ∨ Change middle after)

theorem Change.advances (change : Change manager next) : Advances manager next :=
  ⟨manager, .refl, .inr change⟩

theorem Unmaps.advances (unmaps : Unmaps manager next) : Advances manager next :=
  ⟨next, unmaps, .inl rfl⟩

theorem newViewport_change {parent : Nat}
    (done : manager.newViewport processId (some parent) deed deedKey = .ok (pointer, next)) :
    Change manager next := by
  obtain ⟨_, _, inserted, made, rfl, rfl⟩ := newViewport_eq_ok_iff.mp done
  exact .viewport inserted made

theorem newToplevelViewport_change
    (done : manager.newToplevelViewport processId deed deedKey = .ok next) :
    Change manager next := by
  obtain ⟨_, created, tenant⟩ := newToplevelViewport_eq_ok_iff.mp done
  obtain ⟨_, _, inserted, made, -, rfl⟩ := newViewport_eq_ok_iff.mp created
  obtain ⟨_, added, rfl⟩ := becomeTenant_eq_ok_iff.mp tenant
  exact .toplevel inserted made added

theorem acceptViewport_change
    (done : manager.acceptViewport deed processId = .ok (some pointer, next)) :
    Change manager next := by
  obtain ⟨entry, member, -, rfl, tenant⟩ := acceptViewport_eq_some_iff.mp done
  obtain ⟨_, added, rfl⟩ := becomeTenant_eq_ok_iff.mp tenant
  exact .accept member added

theorem mapCanvas_change {truecolor : Bool} {windowLabel : List UInt8}
    (bound : pointer < manager.numViewports)
    (done : manager.mapCanvas pointer palifc truecolor windowLabel = .ok next) :
    Change manager next := by
  obtain ⟨free, -, -, _, inserted, rfl⟩ := mapCanvas_eq_ok_iff.mp done
  exact .canvas bound free inserted

theorem unmapId_unmaps (done : manager.unmapId canvasId = .ok next) : Unmaps manager next := by
  obtain ⟨canvas, member, -, -, same⟩ := unmapId_eq_ok_iff.mp done
  exact .single ⟨canvas, member, same⟩

theorem unmapMapped_unmaps (done : manager.unmapMapped pointer = .ok next) :
    Unmaps manager next := by
  rw [unmapMapped] at done
  split at done
  · cases done
    exact .refl
  · exact unmapId_unmaps done

theorem transfer_advances (done : manager.transfer pointer deed deedKey = .ok next) :
    Advances manager next := by
  obtain ⟨unmapped, handle, _, free, tenant, -, made, rfl⟩ := transfer_eq_ok_iff.mp done
  exact ⟨unmapped, unmapMapped_unmaps free, .inr (.transfer tenant made)⟩

theorem unregisterPalifc_unmaps
    (done : manager.unregisterPalifc palifc = .ok next) : Unmaps manager next := by
  refine foldlM_invariant (fun state canvasId after _ unmaps done => ?_) .refl done
  rw [unmapIfPresent] at done
  split at done
  · cases done
    exact unmaps
  · rename_i canvas found
    obtain ⟨-, -, same⟩ := unmap_eq_ok_iff.mp done
    exact unmaps.tail ⟨canvas, (lookup_eq_some_iff.mp found).1, same⟩

end BlitterManager

end Embassies.Monitor
