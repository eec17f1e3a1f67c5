import Embassies.Monitor.Listener
import Embassies.Monitor.BlitterSteps

/-!
# What the handlers of the coordinator do

For each handler of `Listener` this module says when it succeeds and what it
leads to, in terms of the operations of `BlitterManager`.
-/

namespace Embassies.Monitor

open Library Library.Checked

namespace Listener

variable {listener : Listener} {sender : List UInt8} {app : App}
  {outcome : Outcome} {viewportId canvasId : UInt32} {deed deedKey : UInt64}

theorem msgToApp_eq_ok_iff : listener.msgToApp sender = .ok app ↔
      app ∈ listener.apps ∧ app.address = sender := by
  rw [msgToApp, ← KeyedTable.lookup_eq_some_iff]
  cases listener.apps.lookup sender with
  | none => simp
  | some other => simp

theorem follow_bind_eq_ok_iff {α β : Type} {search : Except Fault (Option α)}
    {act : α → Except Fault β} {result : β} :
    (do let found ← search; let value ← follow found; act value) = .ok result ↔
      ∃ value, search = .ok (some value) ∧ act value = .ok result := by
  rcases search with fault | none | value
  · simp
  · simp [follow]
  · simp [follow]

theorem connect_eq_ok_iff {getId : UInt32} {owner : List UInt8} {uninitialized : Bool} :
    listener.connect sender getId owner uninitialized deed deedKey = .ok outcome ↔
      (∀ app ∈ listener.apps, app.getId ≠ getId) ∧ ∃ apps blitterMgr,
          listener.apps.insert Fault.assertion ⟨sender, getId, owner, uninitialized⟩ = .ok apps ∧
          listener.blitterMgr.newToplevelViewport getId deed deedKey = .ok blitterMgr ∧
          ⟨⟨apps, blitterMgr⟩, none, none⟩ = outcome := by
  rw [connect]
  simp only [bind_eq_ok_iff, ensure_eq_ok_iff, pure_eq_ok, Except.ok.injEq]
  constructor
  · rintro ⟨_, fresh, apps, inserted, blitterMgr, created, same⟩
    exact ⟨fresh, apps, blitterMgr, inserted, created, same⟩
  · rintro ⟨fresh, apps, blitterMgr, inserted, created, same⟩
    exact ⟨⟨⟩, fresh, apps, inserted, blitterMgr, created, same⟩

theorem subletViewport_eq_ok_iff :
    listener.subletViewport app viewportId deed deedKey = .ok outcome ↔ ∃ parent child next,
        listener.blitterMgr.getTenantViewport viewportId app.getId = .ok (some parent) ∧
        listener.blitterMgr.newViewport app.getId (some parent) deed deedKey = .ok (child, next) ∧
        listener.quiet next = outcome := by
  rw [subletViewport, follow_bind_eq_ok_iff]
  simp only [bind_eq_ok_iff, pure_eq_ok, Except.ok.injEq, BlitterManager.sublet, Prod.exists,
    exists_and_left]

theorem repossessViewport_eq_ok (done : listener.repossessViewport app viewportId = .ok outcome) :
    listener.quiet listener.blitterMgr = outcome := by
  obtain ⟨found, -, rest⟩ := of_bind done
  cases found with
  | none => exact Except.ok.inj rest
  | some pointer => cases rest

theorem getDeedKey_eq_ok (done : listener.getDeedKey app viewportId = .ok outcome) :
    listener.quiet listener.blitterMgr = outcome := by
  obtain ⟨found, -, rest⟩ := of_bind done
  obtain ⟨_, -, returned⟩ := of_bind rest
  exact Except.ok.inj returned

theorem acceptViewport_eq_ok_iff : listener.acceptViewport app deed = .ok outcome ↔ ∃ pointer next,
        listener.blitterMgr.acceptViewport deed app.getId = .ok (some pointer, next) ∧
        listener.quiet next = outcome := by
  rw [acceptViewport]
  simp only [bind_eq_ok_iff, ensure_eq_ok_iff, pure_eq_ok, Except.ok.injEq]
  constructor
  · rintro ⟨⟨found, next⟩, accepted, _, isSome, same⟩
    obtain ⟨pointer, rfl⟩ := Option.isSome_iff_exists.mp isSome
    exact ⟨pointer, next, accepted, same⟩
  · rintro ⟨pointer, next, accepted, same⟩
    exact ⟨_, accepted, ⟨⟩, rfl, same⟩

theorem transferViewport_eq_ok_iff :
    listener.transferViewport app viewportId deed deedKey = .ok outcome ↔ ∃ pointer next,
        listener.blitterMgr.getTenantViewport viewportId app.getId = .ok (some pointer) ∧
        listener.blitterMgr.transfer pointer deed deedKey = .ok next ∧
        listener.quiet next = outcome := by
  rw [transferViewport, follow_bind_eq_ok_iff]
  simp only [bind_eq_ok_iff, pure_eq_ok, Except.ok.injEq, exists_and_left]

theorem mapCanvas_eq_ok_iff {truecolor : Bool} :
    listener.mapCanvas app viewportId truecolor = .ok outcome ↔ ∃ pointer next,
        listener.blitterMgr.getTenantViewport viewportId app.getId = .ok (some pointer) ∧
        listener.blitterMgr.mapCanvas pointer app.getId truecolor app.owner = .ok next ∧
        ⟨{ listener with blitterMgr := next }, none, some (app.address, app.owner)⟩ = outcome := by
  rw [mapCanvas, App.getLabel, follow_bind_eq_ok_iff]
  simp only [bind_eq_ok_iff, pure_eq_ok, Except.ok.injEq, exists_and_left]

theorem unmapCanvas_eq_ok_iff : listener.unmapCanvas canvasId = .ok outcome ↔
      ∃ next, listener.blitterMgr.unmapId canvasId = .ok next ∧ listener.quiet next = outcome := by
  rw [unmapCanvas]
  simp only [bind_eq_ok_iff, pure_eq_ok, Except.ok.injEq]

theorem updateCanvas_eq_ok_iff : listener.updateCanvas canvasId = .ok outcome ↔
      ∃ drawn, listener.blitterMgr.updateCanvas canvasId = .ok drawn ∧
        ⟨listener, drawn, none⟩ = outcome := by
  rw [updateCanvas]
  simp only [bind_eq_ok_iff, pure_eq_ok, Except.ok.injEq]

theorem extnDebugCreateToplevelWindow_eq_ok_iff :
    listener.extnDebugCreateToplevelWindow app deed deedKey = .ok outcome ↔ ∃ next,
        listener.blitterMgr.newToplevelViewport app.getId deed deedKey = .ok next ∧
        listener.quiet next = outcome := by
  rw [extnDebugCreateToplevelWindow]
  simp only [bind_eq_ok_iff, pure_eq_ok, Except.ok.injEq]

theorem disconnect_eq_ok_iff : listener.disconnect app = .ok outcome ↔ ∃ apps blitterMgr,
        listener.apps.remove Fault.assertion app.address = .ok apps ∧
        listener.blitterMgr.unregisterPalifc app.getId = .ok blitterMgr ∧
        ⟨⟨apps, blitterMgr⟩, none, none⟩ = outcome := by
  rw [disconnect]
  simp only [bind_eq_ok_iff, pure_eq_ok, Except.ok.injEq]
  constructor
  · rintro ⟨apps, removed, blitterMgr, cleaned, same⟩
    exact ⟨apps, blitterMgr, removed, cleaned, same⟩
  · rintro ⟨apps, blitterMgr, removed, cleaned, same⟩
    exact ⟨apps, removed, blitterMgr, cleaned, same⟩

/-! ## Runs -/

theorem run_cons_eq_ok_iff {event : Event} {rest : List Event} {final : Listener}
    {outcomes : List Outcome} :
    listener.run (event :: rest) = .ok (final, outcomes) ↔
      ∃ outcome later, listener.step event = .ok outcome ∧
        outcome.listener.run rest = .ok (final, later) ∧
        outcome :: later = outcomes := by
  rw [run]
  simp only [bind_eq_ok_iff, pure_eq_ok, Except.ok.injEq, Prod.mk.injEq]
  constructor
  · rintro ⟨outcome, first, ⟨_, later⟩, ran, rfl, same⟩
    exact ⟨outcome, later, first, ran, same⟩
  · rintro ⟨outcome, later, first, ran, same⟩
    exact ⟨outcome, first, ⟨final, later⟩, ran, rfl, same⟩

end Listener

end Embassies.Monitor
