import Embassies.Monitor.ListenerSteps
import Mathlib.Logic.Function.Basic

/-!
# What holds in every state of the coordinator

The tables of the coordinator and the objects they point to refer to each
other.  A viewport knows the canvas mapped into it exactly when the table has a
canvas that names the viewport; the tenant of a viewport holds a handle of the
table; and nothing refers to a viewport that was never made.  Every operation
of `BlitterManager` keeps this, and so does every event.
-/

namespace Embassies.Monitor

open Library Library.Checked Function KeyedTable

namespace BlitterManager

/-- The canvases, handles and deeds agree with the viewports they refer to. -/
structure Consistent (manager : BlitterManager) : Prop where
  mapped : ∀ pointer canvasId,
    (manager.viewports pointer).mappedCanvas = some canvasId ↔
      ∃ canvas ∈ manager.canvases, canvas.canvasId = canvasId ∧
        canvas.viewport = pointer
  tenant : ∀ pointer handle,
    (manager.viewports pointer).tenantHandle = some handle →
      handle ∈ manager.viewportHandles ∧ handle.viewport = pointer
  beyond : ∀ pointer, manager.numViewports ≤ pointer →
    manager.viewports pointer = noViewport
  handleBound : ∀ handle ∈ manager.viewportHandles,
    handle.viewport < manager.numViewports
  deedBound : ∀ entry ∈ manager.deeds, entry.viewport < manager.numViewports

variable {manager next : BlitterManager} {pointer : Nat}
  {viewportId processId canvasId : UInt32} {deed deedKey : UInt64}

theorem new_consistent : new.Consistent where
  mapped pointer canvasId := by
    constructor
    · intro absurd
      cases absurd
    · rintro ⟨canvas, member, -⟩
      cases member
  tenant pointer handle absurd := by cases absurd
  beyond pointer _ := rfl
  handleBound handle member := by cases member
  deedBound entry member := by cases member

namespace Consistent

variable (consistent : manager.Consistent)

include consistent

theorem mapped_of_mem {canvas : BlitterCanvas} (member : canvas ∈ manager.canvases) :
    (manager.viewports canvas.viewport).mappedCanvas = some canvas.canvasId :=
  (consistent.mapped _ _).mpr ⟨canvas, member, rfl, rfl⟩

theorem bound_of_mapped (mapped : (manager.viewports pointer).mappedCanvas = some canvasId) :
    pointer < manager.numViewports := by
  by_contra beyond
  rw [consistent.beyond pointer (Nat.le_of_not_lt beyond)] at mapped
  cases mapped

theorem bound_of_tenant {handle : ViewportHandle}
    (tenant : (manager.viewports pointer).tenantHandle = some handle) :
    pointer < manager.numViewports := by
  by_contra beyond
  rw [consistent.beyond pointer (Nat.le_of_not_lt beyond)] at tenant
  cases tenant

end Consistent

/-! ## The viewports after an operation -/

theorem field_update {α : Type} (field : BlitterViewport → α) {viewport : BlitterViewport}
    (stored : next.viewports = update manager.viewports pointer viewport)
    (kept : field viewport = field (manager.viewports pointer)) (other : Nat) :
    field (next.viewports other) = field (manager.viewports other) := by
  rw [stored]
  rcases eq_or_ne other pointer with rfl | apart
  · rw [update_self, kept]
  · rw [update_of_ne apart]

theorem setViewport_viewports
    (manager : BlitterManager) (pointer : Nat) (viewport : BlitterViewport) :
    (manager.setViewport pointer viewport).viewports =
      update manager.viewports pointer viewport := by
  funext other
  rw [update_apply]
  rfl

variable (viewportHandles : KeyedTable ViewportHandle.key)

theorem withTenant_viewports : (manager.withTenant pointer processId viewportHandles).viewports =
      update manager.viewports pointer { manager.viewports pointer with
          tenantHandle := some ⟨manager.nextViewportId, processId, pointer⟩
          deed := 0 } :=
  setViewport_viewports ..

theorem withViewport_viewports (parentViewport : Option Nat)
    (viewportHandles : KeyedTable ViewportHandle.key)
    (deeds : KeyedTable DeedEntry.hash) :
    (manager.withViewport processId parentViewport deed deedKey viewportHandles deeds).viewports =
      update manager.viewports manager.numViewports
        ⟨⟨manager.nextViewportId, processId, manager.numViewports⟩, none, deed,
          deedKey, parentViewport, none⟩ :=
  setViewport_viewports ..

theorem withoutCanvas_viewports (canvas : BlitterCanvas) :
    (manager.withoutCanvas canvas).viewports = update manager.viewports canvas.viewport
        { manager.viewports canvas.viewport with mappedCanvas := none } :=
  setViewport_viewports ..

theorem withoutCanvas_tenantHandle (canvas : BlitterCanvas) (other : Nat) :
    ((manager.withoutCanvas canvas).viewports other).tenantHandle =
      (manager.viewports other).tenantHandle :=
  field_update BlitterViewport.tenantHandle (withoutCanvas_viewports _) rfl other

theorem withTransfer_viewports (handle : ViewportHandle) (deeds : KeyedTable DeedEntry.hash) :
    (manager.withTransfer pointer handle deed deedKey deeds).viewports =
      update manager.viewports pointer { manager.viewports pointer with
          tenantHandle := none
          deed := deed
          deedKey := deedKey } :=
  setViewport_viewports ..

variable (canvases : KeyedTable BlitterCanvas.canvasId)

theorem withCanvas_viewports :
    (manager.withCanvas pointer canvases).viewports = update manager.viewports pointer
        { manager.viewports pointer with
          mappedCanvas := some manager.nextCanvasId } :=
  setViewport_viewports ..

theorem withCanvas_tenantHandle (other : Nat) :
    ((manager.withCanvas pointer canvases).viewports other).tenantHandle =
      (manager.viewports other).tenantHandle :=
  field_update BlitterViewport.tenantHandle (withCanvas_viewports _) rfl other

/-! ## The operations -/

namespace Consistent

variable {viewportHandles : KeyedTable ViewportHandle.key} {canvas : BlitterCanvas}

theorem mem_withoutCanvas {other : BlitterCanvas} :
    other ∈ (manager.withoutCanvas canvas).canvases ↔
      other ∈ manager.canvases ∧ other.canvasId ≠ canvas.canvasId := by
  simp [BlitterManager.withoutCanvas]

theorem mem_closeWindow {wanted : UInt32} :
    canvas ∈ (manager.closeWindow wanted).canvases ↔ ∃ before ∈ manager.canvases,
        (if before.canvasId = wanted then { before with windowOpen := false }
          else before) = canvas :=
  mem_modify (by intro; rfl)

variable (consistent : manager.Consistent)

include consistent

theorem setViewport_beyond {viewport : BlitterViewport} {other : Nat}
    (bound : pointer < manager.numViewports) (beyond : manager.numViewports ≤ other) :
    (manager.setViewport pointer viewport).viewports other = noViewport := by
  rw [setViewport_viewports, update_of_ne (Nat.ne_of_gt (Nat.lt_of_lt_of_le bound beyond))]
  exact consistent.beyond other beyond

theorem withTenant (bound : pointer < manager.numViewports)
    (inserted : manager.viewportHandles.insert Fault.assertion
      ⟨manager.nextViewportId, processId, pointer⟩ = .ok viewportHandles) :
    (manager.withTenant pointer processId viewportHandles).Consistent where
  mapped other canvasId := by
    rw [field_update BlitterViewport.mappedCanvas (withTenant_viewports _) rfl]
    exact consistent.mapped other canvasId
  tenant other handle := by
    rw [withTenant_viewports]
    rcases eq_or_ne other pointer with rfl | apart
    · rw [update_self]
      intro tenant
      obtain rfl := Option.some.inj tenant
      exact ⟨(mem_insert inserted).mpr (.inl rfl), rfl⟩
    · rw [update_of_ne apart]
      intro tenant
      obtain ⟨member, same⟩ := consistent.tenant other handle tenant
      exact ⟨(mem_insert inserted).mpr (.inr member), same⟩
  beyond _ := consistent.setViewport_beyond bound
  handleBound handle member := by
    rcases (mem_insert inserted).mp member with rfl | earlier
    · exact bound
    · exact consistent.handleBound handle earlier
  deedBound := consistent.deedBound

variable {deeds : KeyedTable DeedEntry.hash}

theorem withViewport {parentViewport : Option Nat}
    (inserted : manager.viewportHandles.insert Fault.assertion
      ⟨manager.nextViewportId, processId, manager.numViewports⟩ = .ok viewportHandles)
    (made : manager.deeds.insert Fault.assertion ⟨deed, manager.numViewports⟩ = .ok deeds) :
    (manager.withViewport processId parentViewport deed deedKey viewportHandles
      deeds).Consistent where
  mapped other canvasId := by
    have kept : none = (manager.viewports manager.numViewports).mappedCanvas := by
      rw [consistent.beyond _ (Nat.le_refl _)]
      rfl
    rw [field_update BlitterViewport.mappedCanvas (withViewport_viewports ..) kept]
    exact consistent.mapped other canvasId
  tenant other handle tenant := by
    have kept : none = (manager.viewports manager.numViewports).tenantHandle := by
      rw [consistent.beyond _ (Nat.le_refl _)]
      rfl
    rw [field_update BlitterViewport.tenantHandle (withViewport_viewports ..) kept] at tenant
    obtain ⟨member, same⟩ := consistent.tenant other handle tenant
    exact ⟨(mem_insert inserted).mpr (.inr member), same⟩
  beyond other beyond := by
    have apart : other ≠ manager.numViewports := Nat.ne_of_gt beyond
    rw [withViewport_viewports, update_of_ne apart]
    exact consistent.beyond other (Nat.le_of_succ_le beyond)
  handleBound handle member := by
    rcases (mem_insert inserted).mp member with rfl | earlier
    · exact Nat.lt_succ_self _
    · exact Nat.lt_succ_of_lt (consistent.handleBound handle earlier)
  deedBound entry member := by
    rcases (mem_insert made).mp member with rfl | earlier
    · exact Nat.lt_succ_self _
    · exact Nat.lt_succ_of_lt (consistent.deedBound entry earlier)

theorem withoutDeed (entry : DeedEntry) : (manager.withoutDeed entry).Consistent where
  mapped := consistent.mapped
  tenant := consistent.tenant
  beyond := consistent.beyond
  handleBound := consistent.handleBound
  deedBound other member := consistent.deedBound other (mem_filter.mp member).1

theorem withoutCanvas (member : canvas ∈ manager.canvases) :
    (manager.withoutCanvas canvas).Consistent where
  mapped other canvasId := by
    rw [withoutCanvas_viewports]
    rcases eq_or_ne other canvas.viewport with rfl | apart
    · simp only [update_self, reduceCtorEq, false_iff]
      rintro ⟨left, leftIn, rfl, same⟩
      obtain ⟨present, different⟩ := mem_withoutCanvas.mp leftIn
      have mapped := consistent.mapped_of_mem present
      rw [same, consistent.mapped_of_mem member] at mapped
      exact different (Option.some.inj mapped).symm
    · rw [update_of_ne apart, consistent.mapped]
      constructor
      · rintro ⟨left, leftIn, rfl, rfl⟩
        refine ⟨left, mem_withoutCanvas.mpr ⟨leftIn, fun same => ?_⟩, rfl, rfl⟩
        exact apart (congrArg _ (eq_of_key leftIn member same))
      · rintro ⟨left, leftIn, rfl, rfl⟩
        exact ⟨left, (mem_withoutCanvas.mp leftIn).1, rfl, rfl⟩
  tenant other handle := by
    rw [withoutCanvas_tenantHandle]
    exact consistent.tenant other handle
  beyond _ :=
    consistent.setViewport_beyond (consistent.bound_of_mapped (consistent.mapped_of_mem member))
  handleBound := consistent.handleBound
  deedBound := consistent.deedBound

theorem withTransfer {handle : ViewportHandle}
    (tenant : (manager.viewports pointer).tenantHandle = some handle)
    (made : manager.deeds.insert Fault.assertion ⟨deed, pointer⟩ = .ok deeds) :
    (manager.withTransfer pointer handle deed deedKey deeds).Consistent where
  mapped other canvasId := by
    rw [field_update BlitterViewport.mappedCanvas (withTransfer_viewports _ _) rfl]
    exact consistent.mapped other canvasId
  tenant other kept := by
    obtain ⟨present, own⟩ := consistent.tenant pointer handle tenant
    rw [withTransfer_viewports]
    rcases eq_or_ne other pointer with rfl | apart
    · rw [update_self]
      intro absurd
      cases absurd
    · rw [update_of_ne apart]
      intro keptTenant
      obtain ⟨member, same⟩ := consistent.tenant other kept keptTenant
      refine ⟨mem_filter.mpr ⟨member, decide_eq_true fun equal => ?_⟩, same⟩
      -- one key is one handle, and a handle names one viewport
      have handles := eq_of_key member present equal
      exact apart (same.symm.trans ((congrArg _ handles).trans own))
  beyond _ := consistent.setViewport_beyond (consistent.bound_of_tenant tenant)
  handleBound other member := consistent.handleBound other (mem_filter.mp member).1
  deedBound entry member := by
    rcases (mem_insert made).mp member with rfl | earlier
    · exact consistent.bound_of_tenant tenant
    · exact consistent.deedBound entry earlier

theorem withCanvas (bound : pointer < manager.numViewports)
    {palifc : UInt32} {windowLabel : List UInt8}
    {canvases : KeyedTable BlitterCanvas.canvasId}
    (free : (manager.viewports pointer).mappedCanvas = none)
    (inserted : manager.canvases.insert Fault.assertion
      ⟨manager.nextCanvasId, palifc, pointer, windowLabel, true⟩ = .ok canvases) :
    (manager.withCanvas pointer canvases).Consistent where
  mapped other canvasId := by
    have present : ∀ canvas, canvas ∈ (manager.withCanvas pointer canvases).canvases ↔
        canvas = ⟨manager.nextCanvasId, palifc, pointer, windowLabel, true⟩ ∨
          canvas ∈ manager.canvases :=
      fun _ => mem_insert inserted
    rw [withCanvas_viewports]
    rcases eq_or_ne other pointer with rfl | apart
    · rw [update_self]
      constructor
      · intro same
        obtain rfl := Option.some.inj same
        exact ⟨_, (present _).mpr (.inl rfl), rfl, rfl⟩
      · rintro ⟨canvas, member, rfl, place⟩
        rcases (present canvas).mp member with rfl | earlier
        · rfl
        · have mapped := consistent.mapped_of_mem earlier
          rw [place, free] at mapped
          cases mapped
    · rw [update_of_ne apart, consistent.mapped]
      constructor
      · rintro ⟨canvas, member, same⟩
        exact ⟨canvas, (present canvas).mpr (.inr member), same⟩
      · rintro ⟨canvas, member, same, place⟩
        rcases (present canvas).mp member with rfl | earlier
        · exact absurd place.symm apart
        · exact ⟨canvas, earlier, same, place⟩
  tenant other handle := by
    rw [withCanvas_tenantHandle]
    exact consistent.tenant other handle
  beyond _ := consistent.setViewport_beyond bound
  handleBound := consistent.handleBound
  deedBound := consistent.deedBound

theorem closeWindow (canvasId : UInt32) : (manager.closeWindow canvasId).Consistent where
  mapped pointer wanted := by
    refine (consistent.mapped pointer wanted).trans ⟨?_, ?_⟩
    · rintro ⟨canvas, member, rfl, rfl⟩
      refine ⟨_, mem_closeWindow.mpr ⟨canvas, member, rfl⟩, ?_⟩
      split
      · exact ⟨rfl, rfl⟩
      · exact ⟨rfl, rfl⟩
    · rintro ⟨_, member, same⟩
      obtain ⟨canvas, earlier, rfl⟩ := mem_closeWindow.mp member
      refine ⟨canvas, earlier, ?_⟩
      split at same
      · exact same
      · exact same
  tenant := consistent.tenant
  beyond := consistent.beyond
  handleBound := consistent.handleBound
  deedBound := consistent.deedBound

theorem change (change : Change manager next) : next.Consistent := by
  cases change with
  | viewport inserted made => exact consistent.withViewport inserted made
  | toplevel inserted made added =>
    exact (consistent.withViewport inserted made).withTenant (Nat.lt_succ_self _) added
  | @accept entry _ _ member added =>
    exact (consistent.withoutDeed entry).withTenant (consistent.deedBound entry member) added
  | transfer tenant made => exact consistent.withTransfer tenant made
  | canvas bound free inserted => exact consistent.withCanvas bound free inserted
  | closed canvasId => exact consistent.closeWindow canvasId

theorem unmaps (unmaps : Unmaps manager next) : next.Consistent := by
  induction unmaps with
  | refl => exact consistent
  | tail _ step induction =>
    obtain ⟨canvas, member, rfl⟩ := step
    exact induction.withoutCanvas member

theorem advances (advances : Advances manager next) : next.Consistent := by
  obtain ⟨middle, unmaps, rfl | change⟩ := advances
  · exact consistent.unmaps unmaps
  · exact (consistent.unmaps unmaps).change change

end Consistent

end BlitterManager

namespace Listener

open BlitterManager (newViewport_change newToplevelViewport_change acceptViewport_change
  mapCanvas_change transfer_advances unmapId_unmaps unregisterPalifc_unmaps)

/-- The state of the blitter is consistent and the apps are told apart by their
ids. -/
structure Consistent (listener : Listener) : Prop where
  blitterMgr : listener.blitterMgr.Consistent
  ids : ∀ left ∈ listener.apps, ∀ right ∈ listener.apps,
    left.getId = right.getId → left = right

variable {listener : Listener} {sender : List UInt8} {app : App} {outcome : Outcome}

theorem new_consistent : new.Consistent where
  blitterMgr := BlitterManager.new_consistent
  ids left member := by cases member

namespace Consistent

variable (consistent : listener.Consistent)

include consistent

theorem quiet {blitterMgr : BlitterManager} (advances : listener.blitterMgr.Advances blitterMgr) :
    (listener.quiet blitterMgr).listener.Consistent :=
  ⟨consistent.blitterMgr.advances advances, consistent.ids⟩

theorem bound_of_tenantViewport {viewportId processId : UInt32} {pointer : Nat}
    (tenant : listener.blitterMgr.getTenantViewport viewportId processId = .ok (some pointer)) :
    pointer < listener.blitterMgr.numViewports :=
  consistent.blitterMgr.handleBound _ (BlitterManager.getTenantViewport_eq_some_iff.mp tenant).1

theorem connect {getId : UInt32} {owner : List UInt8} {uninitialized : Bool} {deed deedKey : UInt64}
    (done : listener.connect sender getId owner uninitialized deed deedKey = .ok outcome) :
    outcome.listener.Consistent := by
  obtain ⟨fresh, apps, blitterMgr, inserted, created, rfl⟩ := connect_eq_ok_iff.mp done
  refine ⟨consistent.blitterMgr.change (newToplevelViewport_change created), ?_⟩
  intro left leftIn right rightIn same
  rcases (mem_insert inserted).mp leftIn with rfl | leftIn
  · rcases (mem_insert inserted).mp rightIn with rfl | rightIn
    · rfl
    · exact absurd same.symm (fresh right rightIn)
  · rcases (mem_insert inserted).mp rightIn with rfl | rightIn
    · exact absurd same (fresh left leftIn)
    · exact consistent.ids left leftIn right rightIn same

theorem verifyLabel (app : App) : (listener.verifyLabel app).listener.Consistent := by
  refine ⟨consistent.blitterMgr, ?_⟩
  intro left leftIn right rightIn same
  have changes : ∀ changed, changed ∈ (listener.verifyLabel app).listener.apps ↔
      ∃ before ∈ listener.apps, (if before.address = app.address then
        before.verifyLabel else before) = changed :=
    fun _ => mem_modify (by intro; rfl)
  obtain ⟨before, beforeIn, rfl⟩ := (changes left).mp leftIn
  obtain ⟨other, otherIn, rfl⟩ := (changes right).mp rightIn
  have ids : ∀ changed : App, (if changed.address = app.address then
      changed.verifyLabel else changed).getId = changed.getId := by
    intro changed
    split
    · rfl
    · rfl
  rw [ids, ids] at same
  rw [consistent.ids before beforeIn other otherIn same]

theorem dispatchWindow {message : WindowMessage}
    (done : listener.dispatchWindow sender message = .ok outcome) :
    outcome.listener.Consistent := by
  cases message with
  | subletViewport tenantViewport deed deedKey =>
    obtain ⟨app, -, rest⟩ := of_bind done
    obtain ⟨_, _, _, -, made, rfl⟩ := subletViewport_eq_ok_iff.mp rest
    exact consistent.quiet (newViewport_change made).advances
  | acceptViewport deed =>
    obtain ⟨app, -, rest⟩ := of_bind done
    obtain ⟨_, _, accepted, rfl⟩ := acceptViewport_eq_ok_iff.mp rest
    exact consistent.quiet (acceptViewport_change accepted).advances
  | transferViewport tenantViewport deed deedKey =>
    obtain ⟨app, -, rest⟩ := of_bind done
    obtain ⟨_, _, -, transferred, rfl⟩ := transferViewport_eq_ok_iff.mp rest
    exact consistent.quiet (transfer_advances transferred)
  | mapCanvas viewportId truecolor =>
    obtain ⟨app, -, rest⟩ := of_bind done
    obtain ⟨_, _, tenant, mapped, rfl⟩ := mapCanvas_eq_ok_iff.mp rest
    exact consistent.quiet
      (mapCanvas_change (consistent.bound_of_tenantViewport tenant) mapped).advances
  | unmapCanvas canvasId =>
    obtain ⟨app, -, rest⟩ := of_bind done
    obtain ⟨_, unmapped, rfl⟩ := unmapCanvas_eq_ok_iff.mp rest
    exact consistent.quiet (unmapId_unmaps unmapped).advances
  | updateCanvas canvasId =>
    obtain ⟨_, -, rfl⟩ := updateCanvas_eq_ok_iff.mp done
    exact consistent

theorem dispatch {message : Message} (done : listener.dispatch sender message = .ok outcome) :
    outcome.listener.Consistent := by
  cases message with
  | window message => exact consistent.dispatchWindow done
  | connect getId owner uninitialized deed deedKey =>
    exact consistent.connect done
  | repossessViewport landlordViewport =>
    obtain ⟨app, -, rest⟩ := of_bind done
    cases repossessViewport_eq_ok rest
    exact consistent
  | getDeedKey landlordViewport =>
    obtain ⟨app, -, rest⟩ := of_bind done
    cases getDeedKey_eq_ok rest
    exact consistent
  | verifyLabel =>
    obtain ⟨app, -, rest⟩ := of_bind done
    cases rest
    exact consistent.verifyLabel app
  | extnDebugCreateToplevelWindow deed deedKey =>
    obtain ⟨app, -, rest⟩ := of_bind done
    obtain ⟨_, created, rfl⟩ := extnDebugCreateToplevelWindow_eq_ok_iff.mp rest
    exact consistent.quiet (newToplevelViewport_change created).advances
  | other =>
    cases done
    exact consistent

theorem disconnect (done : listener.disconnect app = .ok outcome) :
    outcome.listener.Consistent := by
  obtain ⟨apps, blitterMgr, removed, cleaned, rfl⟩ := disconnect_eq_ok_iff.mp done
  obtain ⟨-, rfl⟩ := remove_eq_ok_iff.mp removed
  refine ⟨consistent.blitterMgr.unmaps (unregisterPalifc_unmaps cleaned), ?_⟩
  intro left leftIn right rightIn
  exact consistent.ids left (mem_filter.mp leftIn).1 right (mem_filter.mp rightIn).1

theorem step {event : Event} (done : listener.step event = .ok outcome) :
    outcome.listener.Consistent := by
  cases event with
  | message sender message => exact consistent.dispatch done
  | windowClosed canvasId =>
    cases done
    exact consistent.quiet (BlitterManager.Change.closed canvasId).advances
  | disconnected sender =>
    obtain ⟨app, -, rest⟩ := of_bind done
    exact consistent.disconnect rest

end Consistent

/-- Every run keeps the state consistent. -/
theorem Consistent.run (consistent : listener.Consistent) {events : List Event} {final : Listener}
    {outcomes : List Outcome}
    (ran : listener.run events = .ok (final, outcomes)) : final.Consistent := by
  induction events generalizing listener outcomes with
  | nil =>
    cases ran
    exact consistent
  | cons event rest induction =>
    obtain ⟨outcome, later, first, following, rfl⟩ := run_cons_eq_ok_iff.mp ran
    exact induction (consistent.step first) following

end Listener

/-- After any events, canvases, handles and deeds agree with the viewports, the apps are told
apart by their ids, and two canvases are never mapped into one viewport. -/
theorem run_consistent {events : List Event} {final : Listener} {outcomes : List Outcome}
    (ran : Listener.new.run events = .ok (final, outcomes)) :
    final.Consistent ∧ ∀ canvas ∈ final.blitterMgr.canvases,
      ∀ other ∈ final.blitterMgr.canvases, canvas.viewport = other.viewport →
        canvas.canvasId = other.canvasId := by
  have consistent := Listener.new_consistent.run ran
  refine ⟨consistent, fun canvas member other otherIn same => ?_⟩
  have mapped := consistent.blitterMgr.mapped_of_mem member
  rw [same, consistent.blitterMgr.mapped_of_mem otherIn] at mapped
  exact (Option.some.inj mapped).symm

/-- Two apps connect and the second maps a canvas. -/
def neighbours : List Event :=
  [.message [1] (.connect 1 [7] false 5 6), .message [2] (.connect 2 [8] false 9 10),
    .message [2] (.window (.mapCanvas 4 true))]

/-- The coordinator with the two apps. -/
def neighbourhood : Listener := listenerOf neighbours

theorem run_consistent_neighbours : neighbourhood.Consistent ∧
    ∀ canvas ∈ neighbourhood.blitterMgr.canvases,
      ∀ other ∈ neighbourhood.blitterMgr.canvases, canvas.viewport = other.viewport →
        canvas.canvasId = other.canvasId :=
  run_consistent (show Listener.new.run neighbours = .ok (_, outcomesOf neighbours) from rfl)

end Embassies.Monitor
