import Embassies.Library.KeyedTable
import Mathlib.Data.Nat.Notation

/-!
# Viewports and canvases

`BlitterManager` hands out viewports.  The landlord of a viewport gives the
tenancy away by a deed; who presents the deed becomes the tenant, and the
tenant maps a canvas into the viewport or sublets a part of it.

The hash tables are tables with distinct keys.  A pointer to a viewport is its
place in the order of creation, since viewports are never deleted; a pointer to
a canvas is its id, which is the key of the table of canvases.  A random number
is an argument of the operation that draws it.
-/

namespace Embassies.Monitor

open Library Library.Checked

/-- What a run of the code must never do. -/
inductive Fault where
  /-- A `lite_assert` whose condition is false. -/
  | assertion
  | nullPointer
deriving DecidableEq

/-! ## Entries of the tables -/

/-- `ViewportHandle`. -/
structure ViewportHandle where
  handle : UInt32
  processId : UInt32
  viewport : Nat
deriving DecidableEq

/-- What `ViewportHandle::cmp` compares. -/
def ViewportHandle.key (handle : ViewportHandle) : UInt32 × UInt32 :=
  (handle.processId, handle.handle)

/-- `DeedEntry`. -/
structure DeedEntry where
  deed : UInt64
  viewport : Nat
deriving DecidableEq

namespace DeedEntry

/-- `DeedEntry::hash`: the low half of the deed. -/
def hash (entry : DeedEntry) : UInt32 :=
  entry.deed.toUInt32

end DeedEntry

/-- `BlitterCanvas`; the window is gone once the provider has closed it. -/
structure BlitterCanvas where
  canvasId : UInt32
  palifc : UInt32
  viewport : Nat
  windowLabel : List UInt8
  windowOpen : Bool
deriving DecidableEq

/-- `BlitterViewport`. -/
structure BlitterViewport where
  landlordHandle : ViewportHandle
  tenantHandle : Option ViewportHandle
  deed : UInt64
  deedKey : UInt64
  parentViewport : Option Nat
  mappedCanvas : Option UInt32
deriving DecidableEq

/-- `BlitterManager`, and the viewports that were made. -/
structure BlitterManager where
  viewportHandles : KeyedTable ViewportHandle.key
  deeds : KeyedTable DeedEntry.hash
  canvases : KeyedTable BlitterCanvas.canvasId
  nextCanvasId : UInt32
  nextViewportId : UInt32
  viewports : Nat → BlitterViewport
  numViewports : Nat

namespace BlitterManager

/-- A viewport that was never made. -/
def noViewport : BlitterViewport :=
  ⟨⟨0, 0, 0⟩, none, 0, 0, none, none⟩

/-- The constructor. -/
def new : BlitterManager where
  viewportHandles := .empty
  deeds := .empty
  canvases := .empty
  nextCanvasId := 1
  nextViewportId := 1
  viewports := fun _ => noViewport
  numViewports := 0

/-- Store to a viewport. -/
def setViewport (manager : BlitterManager) (pointer : Nat)
    (viewport : BlitterViewport) : BlitterManager :=
  { manager with viewports := fun other =>
      if other = pointer then viewport else manager.viewports other }

/-! ## Handles -/

/-- `add_viewport_handle`. -/
def addViewportHandle (manager : BlitterManager) (handle : ViewportHandle) :
    Except Fault BlitterManager := do
  let viewportHandles ← manager.viewportHandles.insert .assertion handle
  return { manager with viewportHandles }

/-- `remove_viewport_handle`. -/
def removeViewportHandle (manager : BlitterManager) (handle : ViewportHandle) :
    Except Fault BlitterManager := do
  let viewportHandles ← manager.viewportHandles.remove .assertion handle.key
  return { manager with viewportHandles }

/-- `get_viewport`. -/
def getViewport (manager : BlitterManager) (viewportId processId : UInt32) :
    Except Fault Nat :=
  match manager.viewportHandles.lookup (processId, viewportId) with
  | none => .error .nullPointer
  | some handle => .ok handle.viewport

/-- `get_tenant_id`. -/
def getTenantId (viewport : BlitterViewport) : Except Fault UInt32 :=
  match viewport.tenantHandle with
  | none => .error .assertion
  | some handle => .ok handle.handle

/-- `get_tenant_viewport`. -/
def getTenantViewport (manager : BlitterManager)
    (viewportId processId : UInt32) : Except Fault (Option Nat) := do
  let pointer ← manager.getViewport viewportId processId
  let tenantId ← getTenantId (manager.viewports pointer)
  return if tenantId = viewportId then some pointer else none

/-- `get_landlord_viewport`. -/
def getLandlordViewport (manager : BlitterManager)
    (viewportId processId : UInt32) : Except Fault (Option Nat) := do
  let pointer ← manager.getViewport viewportId processId
  return if (manager.viewports pointer).landlordHandle.handle = viewportId then
      some pointer
    else none

/-! ## Deeds -/

/-- `manufacture_deed`, with the numbers that are drawn. -/
def manufactureDeed (manager : BlitterManager) (pointer : Nat)
    (deed : UInt64) : Except Fault BlitterManager := do
  let deeds ← manager.deeds.insert .assertion ⟨deed, pointer⟩
  return { manager with deeds }

/-- The constructor of `BlitterViewport`. -/
def newViewport (manager : BlitterManager) (processId : UInt32)
    (parentViewport : Option Nat) (deed deedKey : UInt64) :
    Except Fault (Nat × BlitterManager) := do
  let pointer := manager.numViewports
  let landlordHandle : ViewportHandle :=
    ⟨manager.nextViewportId, processId, pointer⟩
  let manager := { manager.setViewport pointer
      ⟨landlordHandle, none, deed, deedKey, parentViewport, none⟩ with
    nextViewportId := manager.nextViewportId + 1
    numViewports := manager.numViewports + 1 }
  let manager ← manager.addViewportHandle landlordHandle
  let manager ← manager.manufactureDeed pointer deed
  return (pointer, manager)

/-- `BlitterViewport::accept_viewport`. -/
def becomeTenant (manager : BlitterManager) (pointer : Nat)
    (processId : UInt32) : Except Fault BlitterManager :=
  let tenantHandle : ViewportHandle :=
    ⟨manager.nextViewportId, processId, pointer⟩
  addViewportHandle { manager.setViewport pointer
      { manager.viewports pointer with
        tenantHandle := some tenantHandle
        deed := 0 } with
    nextViewportId := manager.nextViewportId + 1 } tenantHandle

/-- `accept_viewport`; a deed that is not in the table is accepted by nobody. -/
def acceptViewport (manager : BlitterManager) (deed : UInt64)
    (processId : UInt32) : Except Fault (Option Nat × BlitterManager) :=
  match manager.deeds.lookup (DeedEntry.hash ⟨deed, 0⟩) with
  | none => .ok (none, manager)
  | some value => do
    let deeds ← manager.deeds.remove .assertion value.hash
    let manager ← { manager with deeds }.becomeTenant value.viewport processId
    return (some value.viewport, manager)

/-- `new_toplevel_viewport`. -/
def newToplevelViewport (manager : BlitterManager) (processId : UInt32)
    (deed deedKey : UInt64) : Except Fault BlitterManager := do
  let (pointer, manager) ← manager.newViewport processId none deed deedKey
  manager.becomeTenant pointer processId

/-- `sublet`. -/
def sublet (manager : BlitterManager) (parent : Nat) (processId : UInt32)
    (deed deedKey : UInt64) : Except Fault (Nat × BlitterManager) :=
  manager.newViewport processId (some parent) deed deedKey

/-! ## Canvases -/

/-- `unmap` on a canvas. -/
def unmap (manager : BlitterManager) (canvas : BlitterCanvas) :
    Except Fault BlitterManager := do
  let viewport := manager.viewports canvas.viewport
  ensure (viewport.mappedCanvas = some canvas.canvasId) .assertion
  let manager := manager.setViewport canvas.viewport
    { viewport with mappedCanvas := none }
  let canvases ← manager.canvases.remove .assertion canvas.canvasId
  return { manager with canvases }

/-- `unmap` on a pointer to a canvas. -/
def unmapId (manager : BlitterManager) (canvasId : UInt32) :
    Except Fault BlitterManager :=
  match manager.canvases.lookup canvasId with
  | none => .error .nullPointer
  | some canvas => manager.unmap canvas

/-- The unmapping of what is mapped into a viewport. -/
def unmapMapped (manager : BlitterManager) (pointer : Nat) :
    Except Fault BlitterManager :=
  match (manager.viewports pointer).mappedCanvas with
  | none => .ok manager
  | some canvasId => manager.unmapId canvasId

/-- The removal of the tenant of a viewport. -/
def evict (manager : BlitterManager) (pointer : Nat) :
    Except Fault BlitterManager :=
  match (manager.viewports pointer).tenantHandle with
  | none => .error .assertion
  | some handle => do
    let manager ← manager.removeViewportHandle handle
    return manager.setViewport pointer
      { manager.viewports pointer with tenantHandle := none }

/-- `transfer`; the new deed is the one that is drawn. -/
def transfer (manager : BlitterManager) (pointer : Nat)
    (deed deedKey : UInt64) : Except Fault BlitterManager := do
  let manager ← manager.unmapMapped pointer
  let manager ← manager.evict pointer
  let manager ← manager.manufactureDeed pointer deed
  return manager.setViewport pointer
    { manager.viewports pointer with deed := deed, deedKey := deedKey }

/-- `get_parent_canvas`: the window of the parent, if there is one. -/
def checkParentCanvas (manager : BlitterManager) (pointer : Nat) :
    Except Fault Unit :=
  match (manager.viewports pointer).parentViewport with
  | none => .ok ()
  | some parent =>
    match (manager.viewports parent).mappedCanvas with
    | none => .error .nullPointer
    | some _ => .ok ()

/-- `map_canvas` on a viewport; `truecolor` says that a known format is wanted. -/
def mapCanvas (manager : BlitterManager) (pointer : Nat) (palifc : UInt32)
    (truecolor : Bool) (windowLabel : List UInt8) :
    Except Fault BlitterManager := do
  let viewport := manager.viewports pointer
  ensure (viewport.mappedCanvas = none) .assertion
  ensure (truecolor = true) .assertion
  manager.checkParentCanvas pointer
  let canvasId := manager.nextCanvasId
  let canvases ← manager.canvases.insert .assertion
    ⟨canvasId, palifc, pointer, windowLabel, true⟩
  return { manager.setViewport pointer
      { viewport with mappedCanvas := some canvasId } with
    canvases
    nextCanvasId := canvasId + 1 }

/-- `update_canvas`; the result has the canvas that is drawn. -/
def updateCanvas (manager : BlitterManager) (canvasId : UInt32) :
    Except Fault (Option UInt32) :=
  match manager.canvases.lookup canvasId with
  | none => .error .nullPointer
  | some canvas => .ok (if canvas.windowOpen then some canvasId else none)

/-- The provider closes the window of a canvas. -/
def closeWindow (manager : BlitterManager) (canvasId : UInt32) : BlitterManager :=
  let canvases := manager.canvases.modify canvasId
    (fun canvas => { canvas with windowOpen := false }) fun _ => rfl
  { manager with canvases }

/-- The unmapping of a canvas that may have gone already. -/
def unmapIfPresent (manager : BlitterManager) (canvasId : UInt32) :
    Except Fault BlitterManager :=
  match manager.canvases.lookup canvasId with
  | none => .ok manager
  | some canvas => manager.unmap canvas

/-- `unregister_palifc`: the canvases of a process are unmapped. -/
def unregisterPalifc (manager : BlitterManager) (palifc : UInt32) :
    Except Fault BlitterManager :=
  ((manager.canvases.entries.filter fun canvas => canvas.palifc = palifc).map
    BlitterCanvas.canvasId).foldlM unmapIfPresent manager

end BlitterManager

end Embassies.Monitor
