import Embassies.Monitor.Lookups

/-!
# Tenants and vacancies

A viewport has a tenant or its tenancy is on offer by a deed, and never both.
This holds of the viewports that were sublet.  A top-level viewport gets its
tenant at once, while the deed that was made for it stays in the table.
-/

namespace Embassies.Monitor

open Library Library.Checked Function KeyedTable

namespace BlitterManager

variable {manager before after next : BlitterManager} {pointer : Nat}
  {processId : UInt32} {deed deedKey : UInt64}

/-! ## Vacancies -/

/-- The number of entries of the table of deeds for a viewport. -/
def deedCount (manager : BlitterManager) (pointer : Nat) : Nat :=
  manager.deeds.entries.countP fun entry => entry.viewport = pointer

/-- The viewport has a tenant, whose handle leads to it. -/
def HasTenant (manager : BlitterManager) (pointer : Nat) : Prop :=
  ∃ handle, (manager.viewports pointer).tenantHandle = some handle ∧
    handle ∈ manager.viewportHandles ∧ handle.viewport = pointer

/-- The viewport has a tenant or one deed, and not both. -/
def Exclusive (manager : BlitterManager) (pointer : Nat) : Prop :=
  Xor (manager.HasTenant pointer) (manager.deedCount pointer = 1)

theorem Consistent.hasTenant_iff (consistent : manager.Consistent) : manager.HasTenant pointer ↔
      (manager.viewports pointer).tenantHandle.isSome = true := by
  rw [Option.isSome_iff_exists]
  constructor
  · rintro ⟨handle, tenant, -⟩
    exact ⟨handle, tenant⟩
  · rintro ⟨handle, tenant⟩
    exact ⟨handle, tenant, consistent.tenant pointer handle tenant⟩

theorem Consistent.deedCount_beyond
    (consistent : manager.Consistent) (beyond : manager.numViewports ≤ pointer) :
    manager.deedCount pointer = 0 := by
  apply List.countP_eq_zero.mpr
  intro entry member same
  have bound := consistent.deedBound entry member
  rw [of_decide_eq_true same] at bound
  exact Nat.not_lt_of_le beyond bound

/-- A viewport that was sublet is on offer by one deed until it has a tenant. -/
def Offered (manager : BlitterManager) : Prop :=
  ∀ pointer, (manager.viewports pointer).parentViewport ≠ none →
    manager.deedCount pointer =
      if (manager.viewports pointer).tenantHandle.isSome then 0 else 1

theorem Offered.exclusive (offered : manager.Offered) (consistent : manager.Consistent)
    (sublet : (manager.viewports pointer).parentViewport ≠ none) :
    manager.Exclusive pointer := by
  rw [Exclusive, consistent.hasTenant_iff, offered pointer sublet]
  cases (manager.viewports pointer).tenantHandle.isSome with
  | true => exact .inl ⟨rfl, Nat.zero_ne_one⟩
  | false => exact .inr ⟨rfl, Bool.false_ne_true⟩

theorem deedCount_withoutDeed {entry : DeedEntry} (member : entry ∈ manager.deeds) (pointer : Nat) :
    manager.deedCount pointer = (manager.withoutDeed entry).deedCount pointer +
        if entry.viewport = pointer then 1 else 0 := by
  rw [deedCount, (perm_cons_filter member).countP_eq, List.countP_cons]
  simp only [decide_eq_true_eq]
  rfl

variable {deeds : KeyedTable DeedEntry.hash}

theorem deedCount_insert {other : Nat}
    (inserted : manager.deeds.insert Fault.assertion ⟨deed, other⟩ = .ok deeds)
    (pointer : Nat) :
    (deeds.entries.countP fun entry => entry.viewport = pointer) =
      manager.deedCount pointer + if other = pointer then 1 else 0 := by
  rw [(insert_eq_ok_iff.mp inserted).2, List.countP_cons]
  simp only [decide_eq_true_eq]
  rfl

namespace Offered

theorem quiet (offered : before.Offered) (quiet : Quiet before after) : after.Offered := by
  intro pointer
  rw [deedCount, quiet.deeds, quiet.parentViewport, quiet.tenantHandle]
  exact offered pointer

variable {deeds : KeyedTable DeedEntry.hash} (offered : manager.Offered)

include offered

theorem withViewport (consistent : manager.Consistent)
    {parentViewport : Option Nat} {viewportHandles : KeyedTable ViewportHandle.key}
    (made : manager.deeds.insert Fault.assertion ⟨deed, manager.numViewports⟩ = .ok deeds) :
    (manager.withViewport processId parentViewport deed deedKey viewportHandles deeds).Offered := by
  intro pointer
  have counted : (manager.withViewport processId parentViewport deed deedKey
      viewportHandles deeds).deedCount pointer =
      manager.deedCount pointer + if manager.numViewports = pointer then 1 else 0 :=
    deedCount_insert made pointer
  rw [counted, withViewport_viewports]
  rcases eq_or_ne pointer manager.numViewports with rfl | apart
  · rw [update_self, consistent.deedCount_beyond (Nat.le_refl _), if_pos rfl]
    exact fun _ => rfl
  · rw [update_of_ne apart, if_neg apart.symm, Nat.add_zero]
    exact offered pointer

theorem withTenant {entry : DeedEntry} (member : entry ∈ manager.deeds)
    (viewportHandles : KeyedTable ViewportHandle.key) :
    ((manager.withoutDeed entry).withTenant entry.viewport processId viewportHandles).Offered := by
  intro pointer
  have counted := deedCount_withoutDeed member pointer
  have before := offered pointer
  rw [withTenant_viewports]
  show _ → (manager.withoutDeed entry).deedCount pointer = _
  rcases eq_or_ne pointer entry.viewport with rfl | apart
  · rw [update_self]
    intro sublet
    have vacancy := before sublet
    rw [if_pos rfl] at counted
    have atMostOne : manager.deedCount entry.viewport ≤ 1 := by
      rw [vacancy]
      split
      · exact Nat.zero_le 1
      · exact Nat.le_refl 1
    rw [if_pos (Option.isSome_some)]
    omega
  · rw [update_of_ne apart]
    rw [if_neg apart.symm, Nat.add_zero] at counted
    rw [← counted]
    exact before

theorem withToplevel (toplevel : (manager.viewports pointer).parentViewport = none)
    (viewportHandles : KeyedTable ViewportHandle.key) :
    (manager.withTenant pointer processId viewportHandles).Offered := by
  intro other
  rw [withTenant_viewports]
  rcases eq_or_ne other pointer with rfl | apart
  · rw [update_self]
    exact fun sublet => absurd toplevel sublet
  · rw [update_of_ne apart]
    exact offered other

theorem withTransfer {handle : ViewportHandle}
    (tenant : (manager.viewports pointer).tenantHandle = some handle)
    (made : manager.deeds.insert Fault.assertion ⟨deed, pointer⟩ = .ok deeds) :
    (manager.withTransfer pointer handle deed deedKey deeds).Offered := by
  intro other
  have counted : (manager.withTransfer pointer handle deed deedKey deeds).deedCount
      other = manager.deedCount other + if pointer = other then 1 else 0 :=
    deedCount_insert made other
  have before := offered other
  rw [counted, withTransfer_viewports]
  rcases eq_or_ne other pointer with rfl | apart
  · rw [update_self, if_pos rfl]
    intro sublet
    rw [before sublet, tenant]
    rfl
  · rw [update_of_ne apart, if_neg apart.symm]
    exact before

theorem calls (consistent : manager.Consistent) (calls : Calls manager after) : after.Offered := by
  obtain ⟨middle, unmaps, rfl | change⟩ := calls.advances
  · exact offered.quiet (.unmaps unmaps)
  replace offered := offered.quiet (.unmaps unmaps)
  replace consistent := consistent.unmaps unmaps
  cases change with
  | viewport inserted made => exact offered.withViewport consistent made
  | @toplevel _ _ _ _ tenants _ inserted made added =>
    refine (offered.withViewport consistent made).withToplevel ?_ tenants
    rw [withViewport_viewports, update_self]
  | @accept _ _ tenants member added => exact offered.withTenant member tenants
  | transfer tenant made => exact offered.withTransfer tenant made
  | canvas bound free inserted => exact offered.quiet (.withCanvas _ _ _)
  | closed canvasId => exact offered.quiet (.closeWindow _ _)

end Offered

theorem Reachable.offered (reachable : manager.Reachable) : manager.Offered := by
  induction reachable with
  | refl => exact fun _ sublet => absurd rfl sublet
  | tail earlier calls induction =>
    exact induction.calls (Reachable.consistent earlier) calls

/-! ## Top-level viewports -/

theorem withViewport_parentViewport
    {parentViewport : Option Nat} {viewportHandles : KeyedTable ViewportHandle.key}
    (bound : pointer < manager.numViewports) :
    ((manager.withViewport processId parentViewport deed deedKey viewportHandles
        deeds).viewports pointer).parentViewport =
      (manager.viewports pointer).parentViewport := by
  rw [withViewport_viewports, update_of_ne (Nat.ne_of_lt bound)]

/-- A viewport stays, and so does its parent. -/
abbrev KeepsParent (before after : BlitterManager) (pointer : Nat) : Prop :=
  pointer < after.numViewports ∧
    (after.viewports pointer).parentViewport = (before.viewports pointer).parentViewport

theorem Quiet.keepsParent (quiet : Quiet before after) (bound : pointer < before.numViewports) :
    before.KeepsParent after pointer := by
  rw [KeepsParent, quiet.numViewports, quiet.parentViewport]
  exact ⟨bound, rfl⟩

theorem Calls.keepsParent (calls : Calls before after) (bound : pointer < before.numViewports) :
    before.KeepsParent after pointer := by
  obtain ⟨middle, unmaps, rfl | change⟩ := calls.advances
  · exact (Quiet.unmaps unmaps).keepsParent bound
  obtain ⟨bound, same⟩ := (Quiet.unmaps unmaps).keepsParent bound
  rw [KeepsParent, ← same]
  cases change with
  | viewport inserted made =>
    exact ⟨Nat.lt_succ_of_lt bound, withViewport_parentViewport bound⟩
  | toplevel inserted made added =>
    rw [field_update BlitterViewport.parentViewport (withTenant_viewports _) rfl,
      withViewport_parentViewport bound]
    exact ⟨Nat.lt_succ_of_lt bound, rfl⟩
  | accept member added =>
    exact ⟨bound, field_update BlitterViewport.parentViewport (withTenant_viewports _) rfl _⟩
  | transfer tenant made =>
    exact ⟨bound, field_update BlitterViewport.parentViewport (withTransfer_viewports _ _) rfl _⟩
  | canvas _ free inserted => exact (Quiet.withCanvas _ _ _).keepsParent bound
  | closed canvasId => exact ⟨bound, rfl⟩

theorem Leads.keepsParent (leads : before.Leads after) (bound : pointer < before.numViewports) :
    before.KeepsParent after pointer := by
  induction leads with
  | refl => exact ⟨bound, rfl⟩
  | tail _ calls induction =>
    obtain ⟨made, same⟩ := calls.keepsParent induction.1
    exact ⟨made, same.trans induction.2⟩

/-- A viewport that a call makes is sublet, or has both a tenant and a deed. -/
theorem Calls.fresh (calls : Calls before after) (consistent : before.Consistent)
    (absent : before.numViewports ≤ pointer) (made : pointer < after.numViewports) :
    (after.viewports pointer).parentViewport ≠ none ∨ ¬after.Exclusive pointer := by
  obtain ⟨middle, unmaps, rfl | change⟩ := calls.advances
  · rw [(Quiet.unmaps unmaps).numViewports] at made
    exact absurd made (Nat.not_lt_of_le absent)
  rw [← (Quiet.unmaps unmaps).numViewports] at absent
  replace consistent := consistent.unmaps unmaps
  have kept := consistent.change change
  cases change with
  | viewport inserted drawn =>
    obtain rfl := Nat.le_antisymm (Nat.le_of_lt_succ made) absent
    rw [withViewport_viewports, update_self]
    exact .inl nofun
  | toplevel inserted drawn added =>
    obtain rfl := Nat.le_antisymm (Nat.le_of_lt_succ made) absent
    have counted := deedCount_insert drawn middle.numViewports
    rw [consistent.deedCount_beyond (Nat.le_refl _), if_pos rfl] at counted
    rw [Exclusive, kept.hasTenant_iff, withTenant_viewports, update_self]
    refine .inr ?_
    rintro (⟨-, notOne⟩ | ⟨-, noTenant⟩)
    · exact notOne counted
    · exact noTenant rfl
  | _ => exact absurd made (Nat.not_lt_of_le absent)

/-- A viewport that is not sublet had both a tenant and a deed when it was
made. -/
theorem Reachable.exists_not_exclusive
    (reachable : manager.Reachable) (bound : pointer < manager.numViewports)
    (toplevel : (manager.viewports pointer).parentViewport = none) :
    ∃ state : BlitterManager, state.Reachable ∧ state.Leads manager ∧
      pointer < state.numViewports ∧ ¬state.Exclusive pointer := by
  induction reachable with
  | refl => cases bound
  | @tail before after earlier calls induction =>
    by_cases present : pointer < before.numViewports
    · rw [(calls.keepsParent present).2] at toplevel
      obtain ⟨state, reached, leads, made, broken⟩ := induction present toplevel
      exact ⟨state, reached, leads.tail calls, made, broken⟩
    · have fresh := calls.fresh (Reachable.consistent earlier) (Nat.le_of_not_lt present) bound
      exact ⟨after, earlier.tail calls, .refl, bound,
        fresh.resolve_left (fun sublet => sublet toplevel)⟩

/-- A viewport has in every state since it was made either a tenant or one deed
exactly when it was sublet. -/
theorem tenancy_exclusive_iff
    (reachable : manager.Reachable) (bound : pointer < manager.numViewports) :
    (∀ state : BlitterManager, state.Reachable → state.Leads manager →
        pointer < state.numViewports → state.Exclusive pointer) ↔
      (manager.viewports pointer).parentViewport ≠ none := by
  constructor
  · intro always toplevel
    obtain ⟨state, reached, leads, made, broken⟩ := reachable.exists_not_exclusive bound toplevel
    exact broken (always state reached leads made)
  · intro sublet state reached leads made
    rw [(leads.keepsParent made).2] at sublet
    exact reached.offered.exclusive reached.consistent sublet

/-- A viewport that was sublet has one deed and no tenant. -/
theorem tenancy_exclusive_sublet : subletManager.Exclusive 1 :=
  (tenancy_exclusive_iff subletManager_reachable (by decide)).mpr
    (by decide) subletManager subletManager_reachable .refl (by decide)

/-- The first top-level viewport has a tenant and its deed is in the table. -/
theorem toplevel_not_exclusive : toplevelManager.Reachable ∧ 0 < toplevelManager.numViewports ∧
      toplevelManager.HasTenant 0 ∧ toplevelManager.deedCount 0 = 1 ∧
      ¬toplevelManager.Exclusive 0 := by
  have tenant : toplevelManager.HasTenant 0 := by
    refine ⟨⟨2, 1, 0⟩, rfl, ?_, rfl⟩
    rw [mem_def]
    decide +kernel
  have counted : toplevelManager.deedCount 0 = 1 := rfl
  refine ⟨toplevelManager_reachable, by decide, tenant, counted, ?_⟩
  rintro (⟨-, notOne⟩ | ⟨-, noTenant⟩)
  · exact notOne counted
  · exact noTenant tenant

end BlitterManager

end Embassies.Monitor
