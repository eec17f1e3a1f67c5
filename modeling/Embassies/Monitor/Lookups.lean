import Embassies.Monitor.Consistency
import Embassies.Monitor.Deeds

/-!
# Calls and lookups

What the calls of `BlitterManager` do to handles and deeds is said once here.
Every landlord keeps the handle that it got when the viewport was made.  A handle
that an app presents is looked up in one table for both roles, and the role is
decided from the viewport that was found; this module says for which handles the
lookups give an answer.
-/

namespace Embassies.Monitor

open Library Library.Checked Function KeyedTable

/-- The viewport that a call is made on exists. -/
def Operation.OnViewport (manager : BlitterManager) : Operation → Prop
  | .sublet parent _ _ _ => parent < manager.numViewports
  | .transfer pointer _ _ => pointer < manager.numViewports
  | .mapCanvas pointer _ _ _ => pointer < manager.numViewports
  | _ => True

namespace BlitterManager

/-- A call leads from one state to the next. -/
def Calls (before after : BlitterManager) : Prop :=
  ∃ operation result, Operation.OnViewport before operation ∧
    operation.apply before = .ok (result, after)

/-- A run leads from one state to another. -/
def Leads : BlitterManager → BlitterManager → Prop :=
  Relation.ReflTransGen Calls

/-- A state that a run comes to. -/
def Reachable (manager : BlitterManager) : Prop := new.Leads manager

variable {manager before after next : BlitterManager} {pointer : Nat}
  {viewportId processId canvasId : UInt32} {deed deedKey : UInt64}

/-! ## What a call does to handles and deeds -/

/-- Handles, deeds and who holds them are the same. -/
structure Quiet (before after : BlitterManager) : Prop where
  viewportHandles : after.viewportHandles = before.viewportHandles
  deeds : after.deeds = before.deeds
  numViewports : after.numViewports = before.numViewports
  landlordHandle : ∀ pointer, (after.viewports pointer).landlordHandle =
    (before.viewports pointer).landlordHandle
  tenantHandle : ∀ pointer, (after.viewports pointer).tenantHandle =
    (before.viewports pointer).tenantHandle
  parentViewport : ∀ pointer, (after.viewports pointer).parentViewport =
    (before.viewports pointer).parentViewport

namespace Quiet

theorem refl (manager : BlitterManager) : Quiet manager manager :=
  ⟨rfl, rfl, rfl, fun _ => rfl, fun _ => rfl, fun _ => rfl⟩

theorem trans (first : Quiet before manager) (second : Quiet manager after) :
    Quiet before after where
  viewportHandles := second.viewportHandles.trans first.viewportHandles
  deeds := second.deeds.trans first.deeds
  numViewports := second.numViewports.trans first.numViewports
  landlordHandle pointer := (second.landlordHandle pointer).trans (first.landlordHandle pointer)
  tenantHandle pointer := (second.tenantHandle pointer).trans (first.tenantHandle pointer)
  parentViewport pointer := (second.parentViewport pointer).trans (first.parentViewport pointer)

theorem withoutCanvas (manager : BlitterManager) (canvas : BlitterCanvas) :
    Quiet manager (manager.withoutCanvas canvas) where
  viewportHandles := rfl
  deeds := rfl
  numViewports := rfl
  landlordHandle := field_update BlitterViewport.landlordHandle (withoutCanvas_viewports _) rfl
  tenantHandle := withoutCanvas_tenantHandle canvas
  parentViewport := field_update BlitterViewport.parentViewport (withoutCanvas_viewports _) rfl

theorem withCanvas (manager : BlitterManager) (pointer : Nat)
    (canvases : KeyedTable BlitterCanvas.canvasId) :
    Quiet manager (manager.withCanvas pointer canvases) where
  viewportHandles := rfl
  deeds := rfl
  numViewports := rfl
  landlordHandle := field_update BlitterViewport.landlordHandle (withCanvas_viewports _) rfl
  tenantHandle := withCanvas_tenantHandle canvases
  parentViewport := field_update BlitterViewport.parentViewport (withCanvas_viewports _) rfl

theorem closeWindow (manager : BlitterManager) (canvasId : UInt32) :
    Quiet manager (manager.closeWindow canvasId) :=
  ⟨rfl, rfl, rfl, fun _ => rfl, fun _ => rfl, fun _ => rfl⟩

theorem unmaps (unmaps : Unmaps before after) : Quiet before after := by
  induction unmaps with
  | refl => exact refl before
  | tail _ step induction =>
    obtain ⟨canvas, -, rfl⟩ := step
    exact induction.trans (withoutCanvas _ canvas)

end Quiet

/-- What a call can do. -/
theorem Calls.advances (calls : Calls before after) : Advances before after := by
  obtain ⟨operation, result, onViewport, applied⟩ := calls
  cases operation with
  | newToplevelViewport processId deed deedKey =>
    obtain ⟨_, created, returned⟩ := of_bind applied
    cases returned
    exact (newToplevelViewport_change created).advances
  | sublet parent processId deed deedKey =>
    obtain ⟨⟨pointer, made⟩, created, returned⟩ := of_bind applied
    cases returned
    exact (newViewport_change created).advances
  | transfer pointer deed deedKey =>
    obtain ⟨_, transferred, returned⟩ := of_bind applied
    cases returned
    exact transfer_advances transferred
  | acceptViewport deed processId =>
    cases result with
    | none =>
      obtain ⟨-, rfl⟩ := acceptViewport_eq_none_iff.mp applied
      exact Unmaps.advances .refl
    | some pointer => exact (acceptViewport_change applied).advances
  | mapCanvas pointer palifc truecolor windowLabel =>
    obtain ⟨_, mapped, returned⟩ := of_bind applied
    cases returned
    exact (mapCanvas_change onViewport mapped).advances
  | unmap canvasId =>
    obtain ⟨_, unmapped, returned⟩ := of_bind applied
    cases returned
    exact (unmapId_unmaps unmapped).advances
  | updateCanvas canvasId =>
    obtain ⟨_, -, returned⟩ := of_bind applied
    cases returned
    exact Unmaps.advances .refl
  | closeWindow canvasId =>
    cases applied
    exact (Change.closed canvasId).advances
  | unregisterPalifc palifc =>
    obtain ⟨_, unregistered, returned⟩ := of_bind applied
    cases returned
    exact (unregisterPalifc_unmaps unregistered).advances

theorem Reachable.consistent (reachable : manager.Reachable) : manager.Consistent := by
  induction reachable with
  | refl => exact new_consistent
  | tail _ calls induction => exact induction.advances calls.advances

/-! ## Landlords -/

/-- Every viewport's landlord has a handle of the table, which is not the
tenant's. -/
structure Registered (manager : BlitterManager) : Prop where
  landlord : ∀ pointer, pointer < manager.numViewports →
    (manager.viewports pointer).landlordHandle ∈ manager.viewportHandles ∧
      (manager.viewports pointer).landlordHandle.viewport = pointer
  apart : ∀ pointer handle,
    (manager.viewports pointer).tenantHandle = some handle →
      handle ≠ (manager.viewports pointer).landlordHandle

theorem new_registered : new.Registered where
  landlord pointer absurd := by cases absurd
  apart pointer handle absurd := by cases absurd

namespace Registered

theorem quiet (registered : before.Registered) (quiet : Quiet before after) : after.Registered where
  landlord pointer := by
    rw [quiet.numViewports, quiet.landlordHandle, quiet.viewportHandles]
    exact registered.landlord pointer
  apart pointer handle := by
    rw [quiet.tenantHandle, quiet.landlordHandle]
    exact registered.apart pointer handle

variable (registered : manager.Registered)

include registered

theorem withoutDeed (entry : DeedEntry) : (manager.withoutDeed entry).Registered where
  landlord := registered.landlord
  apart := registered.apart

variable {viewportHandles : KeyedTable ViewportHandle.key}

theorem withTenant (bound : pointer < manager.numViewports)
    (inserted : manager.viewportHandles.insert Fault.assertion
      ⟨manager.nextViewportId, processId, pointer⟩ = .ok viewportHandles) :
    (manager.withTenant pointer processId viewportHandles).Registered := by
  have landlord : ∀ other, ((manager.withTenant pointer processId viewportHandles).viewports
        other).landlordHandle = (manager.viewports other).landlordHandle :=
    field_update BlitterViewport.landlordHandle (withTenant_viewports _) rfl
  constructor
  · intro other made
    rw [landlord]
    obtain ⟨member, same⟩ := registered.landlord other made
    exact ⟨(mem_insert inserted).mpr (.inr member), same⟩
  · intro other handle
    rw [landlord, withTenant_viewports]
    rcases eq_or_ne other pointer with rfl | apart
    · rw [update_self]
      intro tenant equal
      obtain rfl := Option.some.inj tenant
      have member := (registered.landlord other bound).1
      have absent := (insert_eq_ok_iff.mp inserted).1
      exact absent _ member (congrArg ViewportHandle.key equal.symm)
    · rw [update_of_ne apart]
      exact registered.apart other handle

variable {deeds : KeyedTable DeedEntry.hash}

theorem withViewport {parentViewport : Option Nat}
    (inserted : manager.viewportHandles.insert Fault.assertion
      ⟨manager.nextViewportId, processId, manager.numViewports⟩ = .ok viewportHandles) :
    (manager.withViewport processId parentViewport deed deedKey viewportHandles
      deeds).Registered where
  landlord other made := by
    rw [withViewport_viewports]
    rcases eq_or_ne other manager.numViewports with rfl | apart
    · rw [update_self]
      exact ⟨(mem_insert inserted).mpr (.inl rfl), rfl⟩
    · rw [update_of_ne apart]
      have bound : other < manager.numViewports := Nat.lt_of_le_of_ne (Nat.le_of_lt_succ made) apart
      obtain ⟨member, same⟩ := registered.landlord other bound
      exact ⟨(mem_insert inserted).mpr (.inr member), same⟩
  apart other handle := by
    rw [withViewport_viewports]
    rcases eq_or_ne other manager.numViewports with rfl | apart
    · rw [update_self]
      intro absurd
      cases absurd
    · rw [update_of_ne apart]
      exact registered.apart other handle

theorem withTransfer (consistent : manager.Consistent) {handle : ViewportHandle}
    (tenant : (manager.viewports pointer).tenantHandle = some handle) :
    (manager.withTransfer pointer handle deed deedKey deeds).Registered := by
  have landlord : ∀ other, ((manager.withTransfer pointer handle deed deedKey deeds).viewports
        other).landlordHandle = (manager.viewports other).landlordHandle :=
    field_update BlitterViewport.landlordHandle (withTransfer_viewports _ _) rfl
  constructor
  · intro other made
    rw [landlord]
    obtain ⟨member, same⟩ := registered.landlord other made
    refine ⟨mem_filter.mpr ⟨member, decide_eq_true ?_⟩, same⟩
    -- The handle that leaves the table is the tenant's, so it is no landlord's.
    intro sameKey
    obtain ⟨tenantIn, place⟩ := consistent.tenant pointer handle tenant
    have equal := eq_of_key member tenantIn sameKey
    have samePlace : other = pointer := by rw [← same, equal, place]
    subst samePlace
    exact registered.apart other handle tenant equal.symm
  · intro other held
    rw [landlord, withTransfer_viewports]
    rcases eq_or_ne other pointer with rfl | apart
    · rw [update_self]
      intro absurd
      cases absurd
    · rw [update_of_ne apart]
      exact registered.apart other held

theorem calls (consistent : manager.Consistent) (calls : Calls manager after) :
    after.Registered := by
  obtain ⟨middle, unmaps, rfl | change⟩ := calls.advances
  · exact registered.quiet (.unmaps unmaps)
  replace registered := registered.quiet (.unmaps unmaps)
  replace consistent := consistent.unmaps unmaps
  cases change with
  | viewport inserted made => exact registered.withViewport inserted
  | toplevel inserted made added =>
    exact (registered.withViewport inserted).withTenant (Nat.lt_succ_self _) added
  | @accept entry _ _ member added =>
    exact (registered.withoutDeed entry).withTenant (consistent.deedBound entry member) added
  | transfer tenant made => exact registered.withTransfer consistent tenant
  | canvas bound free inserted => exact registered.quiet (.withCanvas _ _ _)
  | closed canvasId => exact registered.quiet (.closeWindow _ _)

end Registered

theorem Reachable.registered (reachable : manager.Reachable) : manager.Registered := by
  induction reachable with
  | refl => exact new_registered
  | tail earlier calls induction =>
    exact induction.calls (Reachable.consistent earlier) calls

/-! ## Lookups -/

/-- Looking up a handle as a tenant's finishes, with the viewport whose tenant
has the handle, or with nothing. -/
def FindsTenant (manager : BlitterManager) (viewportId processId : UInt32) : Prop :=
  ∃ result, manager.getTenantViewport viewportId processId = .ok result ∧
    ∀ pointer, result = some pointer ↔
      ∃ handle, (manager.viewports pointer).tenantHandle = some handle ∧
        handle.handle = viewportId ∧ handle.processId = processId

/-- Looking up a handle as a landlord's finishes, with the viewport whose
landlord has the handle, or with nothing. -/
def FindsLandlord (manager : BlitterManager) (viewportId processId : UInt32) : Prop :=
  ∃ result, manager.getLandlordViewport viewportId processId = .ok result ∧
    ∀ pointer, result = some pointer ↔
      pointer < manager.numViewports ∧
        (manager.viewports pointer).landlordHandle.handle = viewportId ∧
        (manager.viewports pointer).landlordHandle.processId = processId

theorem viewport_unique {handle : ViewportHandle}
    (registered : ⟨viewportId, processId, pointer⟩ ∈ manager.viewportHandles)
    (member : handle ∈ manager.viewportHandles)
    (sameId : handle.handle = viewportId) (sameProcess : handle.processId = processId) :
    handle.viewport = pointer := by
  have sameKey : handle.key = ViewportHandle.key ⟨viewportId, processId, pointer⟩ :=
    Prod.ext sameProcess sameId
  rw [eq_of_key member registered sameKey]

theorem Consistent.findsTenant_iff (consistent : manager.Consistent) :
    manager.FindsTenant viewportId processId ↔ ∃ pointer tenant,
        ⟨viewportId, processId, pointer⟩ ∈ manager.viewportHandles ∧
        (manager.viewports pointer).tenantHandle = some tenant ∧
        (tenant.handle = viewportId → tenant.processId = processId) := by
  constructor
  · rintro ⟨result, found, agrees⟩
    obtain ⟨pointer, lookedUp, rest⟩ := of_bind found
    obtain ⟨tenantId, held, returned⟩ := of_bind rest
    obtain ⟨tenant, tenantHeld, rfl⟩ := getTenantId_eq_ok_iff.mp held
    refine ⟨pointer, tenant, getViewport_eq_ok_iff.mp lookedUp, tenantHeld, ?_⟩
    intro same
    rw [if_pos same, pure_eq_ok, Except.ok.injEq] at returned
    obtain ⟨handle, handleHeld, -, process⟩ := (agrees pointer).mp returned.symm
    rw [tenantHeld] at handleHeld
    cases handleHeld
    exact process
  · rintro ⟨pointer, tenant, registered, held, process⟩
    refine ⟨if tenant.handle = viewportId then some pointer else none, ?_, ?_⟩
    · rw [getTenantViewport, getViewport_eq_ok_iff.mpr registered, ok_bind,
        getTenantId_eq_ok_iff.mpr ⟨tenant, held, rfl⟩, ok_bind]
      rfl
    · intro other
      constructor
      · intro found
        split at found
        · rename_i same
          cases found
          exact ⟨tenant, held, same, process same⟩
        · cases found
      · rintro ⟨handle, otherHeld, sameId, sameProcess⟩
        obtain ⟨member, place⟩ := consistent.tenant other handle otherHeld
        have samePlace := viewport_unique registered member sameId sameProcess
        rw [place] at samePlace
        subst samePlace
        rw [held] at otherHeld
        cases otherHeld
        rw [if_pos sameId]

theorem Registered.findsLandlord_iff
    (registered : manager.Registered) (consistent : manager.Consistent) :
    manager.FindsLandlord viewportId processId ↔ ∃ pointer,
        ⟨viewportId, processId, pointer⟩ ∈ manager.viewportHandles ∧
        ((manager.viewports pointer).landlordHandle.handle = viewportId →
          (manager.viewports pointer).landlordHandle.processId = processId) := by
  constructor
  · rintro ⟨result, found, agrees⟩
    obtain ⟨pointer, lookedUp, returned⟩ := of_bind found
    refine ⟨pointer, getViewport_eq_ok_iff.mp lookedUp, ?_⟩
    intro same
    rw [if_pos same, pure_eq_ok, Except.ok.injEq] at returned
    exact ((agrees pointer).mp returned.symm).2.2
  · rintro ⟨pointer, handleIn, process⟩
    refine ⟨if (manager.viewports pointer).landlordHandle.handle = viewportId then
      some pointer else none, ?_, ?_⟩
    · rw [getLandlordViewport, getViewport_eq_ok_iff.mpr handleIn, ok_bind]
      rfl
    · intro other
      constructor
      · intro found
        split at found
        · rename_i same
          cases found
          exact ⟨consistent.handleBound _ handleIn, same, process same⟩
        · cases found
      · rintro ⟨bound, sameId, sameProcess⟩
        obtain ⟨member, place⟩ := registered.landlord other bound
        have samePlace := viewport_unique handleIn member sameId sameProcess
        rw [place] at samePlace
        subst samePlace
        rw [if_pos sameId]

/-- In every state that a run comes to, looking up a handle as a tenant's does
what it should exactly when the handle is registered for a viewport with a
tenant, whose handle is not the same number of another process; and as a
landlord's, when it is registered and the landlord's handle is not the same
number of another process. -/
theorem lookups_soft_iff (reachable : manager.Reachable) (viewportId processId : UInt32) :
    (manager.FindsTenant viewportId processId ↔ ∃ pointer tenant,
        ⟨viewportId, processId, pointer⟩ ∈ manager.viewportHandles ∧
        (manager.viewports pointer).tenantHandle = some tenant ∧
        (tenant.handle = viewportId → tenant.processId = processId)) ∧
    (manager.FindsLandlord viewportId processId ↔ ∃ pointer,
        ⟨viewportId, processId, pointer⟩ ∈ manager.viewportHandles ∧
        ((manager.viewports pointer).landlordHandle.handle = viewportId →
          (manager.viewports pointer).landlordHandle.processId = processId)) :=
  ⟨reachable.consistent.findsTenant_iff,
    reachable.registered.findsLandlord_iff reachable.consistent⟩

theorem toplevelManager_reachable : toplevelManager.Reachable :=
  .single ⟨.newToplevelViewport 1 7 0, none, trivial, rfl⟩

theorem subletManager_reachable : subletManager.Reachable := .tail toplevelManager_reachable
    ⟨.sublet 0 1 5 0, some 1, Nat.zero_lt_one, rfl⟩

/-- The tenant of the top-level viewport is found, and its landlord. -/
theorem lookups_soft_toplevel :
    toplevelManager.FindsTenant 2 1 ∧ toplevelManager.FindsLandlord 1 1 := by
  have soft := lookups_soft_iff toplevelManager_reachable
  constructor
  · refine (soft 2 1).1.mpr ⟨0, ⟨2, 1, 0⟩, ?_, rfl, fun _ => rfl⟩
    rw [mem_def]
    decide +kernel
  · refine (soft 1 1).2.mpr ⟨0, ?_, fun _ => rfl⟩
    rw [mem_def]
    decide +kernel

/-- A number that is no handle, and the landlord's handle of a viewport without
a tenant, stop the coordinator. -/
theorem stray_handles_not_soft : subletManager.Reachable ∧
      subletManager.getTenantViewport 9 1 = .error .nullPointer ∧
      subletManager.getLandlordViewport 9 1 = .error .nullPointer ∧
      subletManager.getTenantViewport 3 1 = .error .assertion ∧
      ¬subletManager.FindsTenant 9 1 ∧ ¬subletManager.FindsLandlord 9 1 ∧
      ¬subletManager.FindsTenant 3 1 := by
  refine ⟨subletManager_reachable, rfl, rfl, rfl, ?_, ?_, ?_⟩
  · rintro ⟨result, found, -⟩
    cases found
  · rintro ⟨result, found, -⟩
    cases found
  · rintro ⟨result, found, -⟩
    cases found

end BlitterManager

end Embassies.Monitor
