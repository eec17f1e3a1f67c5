import Embassies.Monitor.Blitter

/-!
# The coordinator's message loop

`Listener` keeps a table of the connected apps by the address of their sockets
and dispatches the messages that arrive.  This module has the messages that are
about viewports, canvases and labels.  A message carries what the environment
chooses while it is handled: the numbers that are drawn, and for a new `App`
where it is allocated and what its memory held before.

Between messages the window system may close a window, and an app whose socket
has gone is disconnected.
-/

namespace Embassies.Monitor

open Library Library.Checked

/-- `App`; `getId` is the address of the object. -/
structure App where
  address : List UInt8
  getId : UInt32
  owner : List UInt8
  verified : Bool
deriving DecidableEq

namespace App

/-- `verify_label`. -/
def verifyLabel (app : App) : App :=
  { app with verified := true }

/-- `get_label`: the owner of the public key. -/
def getLabel (app : App) : Option (List UInt8) :=
  some app.owner

end App

/-- The messages about viewports and canvases. -/
inductive WindowMessage where
  | subletViewport (tenantViewport : UInt32) (deed deedKey : UInt64)
  | acceptViewport (deed : UInt64)
  | transferViewport (tenantViewport : UInt32) (deed deedKey : UInt64)
  | mapCanvas (viewportId : UInt32) (truecolor : Bool)
  | unmapCanvas (canvasId : UInt32)
  | updateCanvas (canvasId : UInt32)

/-- The messages to the coordinator; `other` are those that reach neither the
apps' labels nor the blitter. -/
inductive Message where
  | connect (getId : UInt32) (owner : List UInt8) (uninitialized : Bool)
      (deed deedKey : UInt64)
  | window (message : WindowMessage)
  | repossessViewport (landlordViewport : UInt32)
  | getDeedKey (landlordViewport : UInt32)
  | verifyLabel
  | extnDebugCreateToplevelWindow (deed deedKey : UInt64)
  | other

/-- `Listener`. -/
structure Listener where
  apps : KeyedTable App.address
  blitterMgr : BlitterManager

/-- What a message leads to: the listener afterwards, the canvas that is drawn,
and the app and the label for which a canvas is created. -/
structure Outcome where
  listener : Listener
  drawn : Option UInt32
  labelled : Option (List UInt8 × List UInt8)

namespace Listener

/-- The constructor. -/
def new : Listener := ⟨.empty, .new⟩

/-- An outcome without anything on the screen. -/
def quiet (listener : Listener) (blitterMgr : BlitterManager) : Outcome :=
  ⟨{ listener with blitterMgr }, none, none⟩

/-- `msg_to_app`; a message from nowhere follows a null pointer. -/
def msgToApp (listener : Listener) (sender : List UInt8) : Except Fault App :=
  match listener.apps.lookup sender with
  | none => .error .nullPointer
  | some app => .ok app

/-- A pointer that the handlers follow without a check. -/
def follow {α : Type} : Option α → Except Fault α
  | none => .error .nullPointer
  | some value => .ok value

/-- `connect`. -/
def connect (listener : Listener) (sender : List UInt8) (getId : UInt32)
    (owner : List UInt8) (uninitialized : Bool) (deed deedKey : UInt64) :
    Except Fault Outcome := do
  ensure (∀ app ∈ listener.apps.entries, app.getId ≠ getId) .assertion
  let apps ← listener.apps.insert .assertion ⟨sender, getId, owner, uninitialized⟩
  let blitterMgr ← listener.blitterMgr.newToplevelViewport getId deed deedKey
  return ⟨⟨apps, blitterMgr⟩, none, none⟩

/-- `sublet_viewport`. -/
def subletViewport (listener : Listener) (app : App) (tenantViewport : UInt32)
    (deed deedKey : UInt64) : Except Fault Outcome := do
  let found ← listener.blitterMgr.getTenantViewport tenantViewport app.getId
  let parent ← follow found
  let (_, blitterMgr) ← listener.blitterMgr.sublet parent app.getId deed deedKey
  return listener.quiet blitterMgr

/-- `repossess_viewport`: deleting a viewport is not implemented. -/
def repossessViewport (listener : Listener) (app : App)
    (landlordViewport : UInt32) : Except Fault Outcome := do
  match ← listener.blitterMgr.getLandlordViewport landlordViewport app.getId with
  | none => return listener.quiet listener.blitterMgr
  | some _ => .error .assertion

/-- `get_deed_key`. -/
def getDeedKey (listener : Listener) (app : App) (landlordViewport : UInt32) :
    Except Fault Outcome := do
  let found ← listener.blitterMgr.getLandlordViewport landlordViewport app.getId
  let _ ← follow found
  return listener.quiet listener.blitterMgr

/-- `accept_viewport`. -/
def acceptViewport (listener : Listener) (app : App) (deed : UInt64) :
    Except Fault Outcome := do
  let (viewport, blitterMgr) ← listener.blitterMgr.acceptViewport deed app.getId
  ensure (viewport.isSome = true) .assertion
  return listener.quiet blitterMgr

/-- `transfer_viewport`. -/
def transferViewport (listener : Listener) (app : App) (tenantViewport : UInt32)
    (deed deedKey : UInt64) : Except Fault Outcome := do
  let found ← listener.blitterMgr.getTenantViewport tenantViewport app.getId
  let pointer ← follow found
  let blitterMgr ← listener.blitterMgr.transfer pointer deed deedKey
  return listener.quiet blitterMgr

/-- `verify_label`. -/
def verifyLabel (listener : Listener) (app : App) : Outcome :=
  let apps := listener.apps.modify app.address App.verifyLabel fun _ => rfl
  ⟨{ listener with apps }, none, none⟩

/-- `map_canvas`. -/
def mapCanvas (listener : Listener) (app : App) (viewportId : UInt32)
    (truecolor : Bool) : Except Fault Outcome :=
  match app.getLabel with
  | none => .error .assertion
  | some label => do
    let found ← listener.blitterMgr.getTenantViewport viewportId app.getId
    let pointer ← follow found
    let blitterMgr ← listener.blitterMgr.mapCanvas pointer app.getId truecolor
      label
    return ⟨{ listener with blitterMgr }, none, some (app.address, label)⟩

/-- `unmap_canvas`. -/
def unmapCanvas (listener : Listener) (canvasId : UInt32) :
    Except Fault Outcome := do
  let blitterMgr ← listener.blitterMgr.unmapId canvasId
  return listener.quiet blitterMgr

/-- `update_canvas`. -/
def updateCanvas (listener : Listener) (canvasId : UInt32) :
    Except Fault Outcome := do
  let drawn ← listener.blitterMgr.updateCanvas canvasId
  return ⟨listener, drawn, none⟩

/-- `extn_debug_create_toplevel_window`. -/
def extnDebugCreateToplevelWindow (listener : Listener) (app : App)
    (deed deedKey : UInt64) : Except Fault Outcome := do
  let blitterMgr ← listener.blitterMgr.newToplevelViewport app.getId deed deedKey
  return listener.quiet blitterMgr

/-- The handlers of the messages about viewports and canvases. -/
def dispatchWindow (listener : Listener) (sender : List UInt8) :
    WindowMessage → Except Fault Outcome
  | .subletViewport tenantViewport deed deedKey => do
    let app ← listener.msgToApp sender
    listener.subletViewport app tenantViewport deed deedKey
  | .acceptViewport deed => do
    let app ← listener.msgToApp sender
    listener.acceptViewport app deed
  | .transferViewport tenantViewport deed deedKey => do
    let app ← listener.msgToApp sender
    listener.transferViewport app tenantViewport deed deedKey
  | .mapCanvas viewportId truecolor => do
    let app ← listener.msgToApp sender
    listener.mapCanvas app viewportId truecolor
  | .unmapCanvas canvasId => do
    let _ ← listener.msgToApp sender
    listener.unmapCanvas canvasId
  | .updateCanvas canvasId => listener.updateCanvas canvasId

/-- `dispatch`. -/
def dispatch (listener : Listener) (sender : List UInt8) :
    Message → Except Fault Outcome
  | .connect getId owner uninitialized deed deedKey =>
    listener.connect sender getId owner uninitialized deed deedKey
  | .window message => listener.dispatchWindow sender message
  | .repossessViewport landlordViewport => do
    let app ← listener.msgToApp sender
    listener.repossessViewport app landlordViewport
  | .getDeedKey landlordViewport => do
    let app ← listener.msgToApp sender
    listener.getDeedKey app landlordViewport
  | .verifyLabel => do
    let app ← listener.msgToApp sender
    return listener.verifyLabel app
  | .extnDebugCreateToplevelWindow deed deedKey => do
    let app ← listener.msgToApp sender
    listener.extnDebugCreateToplevelWindow app deed deedKey
  | .other => .ok (listener.quiet listener.blitterMgr)

/-- `disconnect`. -/
def disconnect (listener : Listener) (app : App) : Except Fault Outcome := do
  let apps ← listener.apps.remove .assertion app.address
  let blitterMgr ← listener.blitterMgr.unregisterPalifc app.getId
  return ⟨⟨apps, blitterMgr⟩, none, none⟩

end Listener

/-- What happens to the coordinator. -/
inductive Event where
  | message (sender : List UInt8) (message : Message)
  | windowClosed (canvasId : UInt32)
  | disconnected (sender : List UInt8)

namespace Listener

/-- One event. -/
def step (listener : Listener) : Event → Except Fault Outcome
  | .message sender message => listener.dispatch sender message
  | .windowClosed canvasId =>
    .ok (listener.quiet (listener.blitterMgr.closeWindow canvasId))
  | .disconnected sender => do
    let app ← listener.msgToApp sender
    listener.disconnect app

/-- A run: the listener afterwards and what each event led to. -/
def run : Listener → List Event → Except Fault (Listener × List Outcome)
  | listener, [] => .ok (listener, [])
  | listener, event :: rest => do
    let outcome ← listener.step event
    let (final, later) ← run outcome.listener rest
    return (final, outcome :: later)

end Listener

/-- The outcomes of a run that does not halt. -/
def outcomesOf (events : List Event) : List Outcome :=
  match Listener.new.run events with
  | .ok (_, outcomes) => outcomes
  | .error _ => []

/-- The listener after a run that does not halt. -/
def listenerOf (events : List Event) : Listener :=
  match Listener.new.run events with
  | .ok (final, _) => final
  | .error _ => .new

end Embassies.Monitor
