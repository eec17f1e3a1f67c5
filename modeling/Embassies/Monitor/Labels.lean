import Embassies.Monitor.ListenerSteps

/-!
# Labels on the screen

An app asks the coordinator to verify its label before it maps a canvas.  The
handler of `co_map_canvas` takes the label from the app's public key and never
asks whether it was verified, so a labelled canvas appears for an app that was
verified exactly when the app itself keeps to the order.
-/

namespace Embassies.Monitor

open Library Library.Checked

namespace Event

/-- Whether the app at an address has had its label verified, after an event. -/
def verified (address : List UInt8) (before : Bool) : Event → Bool
  | .message sender .verifyLabel => sender = address || before
  | .message sender (.connect ..) => sender ≠ address && before
  | .disconnected sender => sender ≠ address && before
  | _ => before

/-- An event that is a `co_map_canvas` of the app at an address. -/
def MapsFor (address : List UInt8) (event : Event) : Prop :=
  ∃ viewportId truecolor,
    event = .message address (.window (.mapCanvas viewportId truecolor))

end Event

/-- The app at an address has had its label verified since it connected. -/
def VerifiedBy (address : List UInt8) (events : List Event) : Prop :=
  events.foldl (Event.verified address) false = true

instance (address : List UInt8) (events : List Event) :
    Decidable (VerifiedBy address events) :=
  inferInstanceAs (Decidable (_ = true))

/-- Every canvas with a label was created for an app that was verified before. -/
def LabelsVerified (events : List Event) (outcomes : List Outcome) : Prop :=
  ∀ place outcome address label, outcomes[place]? = some outcome →
    outcome.labelled = some (address, label) →
    VerifiedBy address (events.take place)

/-- Every app asks for its label to be verified before it maps a canvas. -/
def AsksInOrder (events : List Event) : Prop :=
  ∀ place event address, events[place]? = some event → event.MapsFor address →
    VerifiedBy address (events.take place)

/-! ## One event -/

/-- The labels of an outcome are those that the event asks for. -/
def Labels (event : Event) (outcome : Outcome) : Prop :=
  ∀ address, (∃ label, outcome.labelled = some (address, label)) ↔
    event.MapsFor address

theorem labels_quiet {event : Event} {outcome : Outcome} (plain : outcome.labelled = none)
    (other : ∀ address, ¬event.MapsFor address := by rintro _ ⟨_, _, same⟩; cases same) :
    Labels event outcome := by
  intro address
  simp only [plain, reduceCtorEq, exists_false, other address]

namespace Listener

variable {listener : Listener} {sender : List UInt8} {outcome : Outcome}

theorem dispatchWindow_labels {message : WindowMessage}
    (done : listener.dispatchWindow sender message = .ok outcome) :
    Labels (.message sender (.window message)) outcome := by
  cases message with
  | mapCanvas viewportId truecolor =>
    obtain ⟨app, found, mapped⟩ := of_bind done
    obtain ⟨-, rfl⟩ := msgToApp_eq_ok_iff.mp found
    obtain ⟨_, _, -, -, rfl⟩ := mapCanvas_eq_ok_iff.mp mapped
    intro address
    constructor
    · rintro ⟨label, same⟩
      cases same
      exact ⟨viewportId, truecolor, rfl⟩
    · rintro ⟨_, _, same⟩
      cases same
      exact ⟨app.owner, rfl⟩
  | subletViewport tenantViewport deed deedKey =>
    obtain ⟨app, -, rest⟩ := of_bind done
    obtain ⟨_, _, _, -, -, rfl⟩ := subletViewport_eq_ok_iff.mp rest
    exact labels_quiet rfl
  | acceptViewport deed =>
    obtain ⟨app, -, rest⟩ := of_bind done
    obtain ⟨_, _, -, rfl⟩ := acceptViewport_eq_ok_iff.mp rest
    exact labels_quiet rfl
  | transferViewport tenantViewport deed deedKey =>
    obtain ⟨app, -, rest⟩ := of_bind done
    obtain ⟨_, _, -, -, rfl⟩ := transferViewport_eq_ok_iff.mp rest
    exact labels_quiet rfl
  | unmapCanvas canvasId =>
    obtain ⟨app, -, rest⟩ := of_bind done
    obtain ⟨_, -, rfl⟩ := unmapCanvas_eq_ok_iff.mp rest
    exact labels_quiet rfl
  | updateCanvas canvasId =>
    obtain ⟨_, -, rfl⟩ := updateCanvas_eq_ok_iff.mp done
    exact labels_quiet rfl

theorem dispatch_labels {message : Message}
    (done : listener.dispatch sender message = .ok outcome) :
    Labels (.message sender message) outcome := by
  cases message with
  | window message => exact dispatchWindow_labels done
  | connect getId owner uninitialized deed deedKey =>
    obtain ⟨-, _, _, -, -, rfl⟩ := connect_eq_ok_iff.mp done
    exact labels_quiet rfl
  | repossessViewport landlordViewport =>
    obtain ⟨app, -, rest⟩ := of_bind done
    cases repossessViewport_eq_ok rest
    exact labels_quiet rfl
  | getDeedKey landlordViewport =>
    obtain ⟨app, -, rest⟩ := of_bind done
    cases getDeedKey_eq_ok rest
    exact labels_quiet rfl
  | verifyLabel =>
    obtain ⟨app, -, rest⟩ := of_bind done
    cases rest
    exact labels_quiet rfl
  | extnDebugCreateToplevelWindow deed deedKey =>
    obtain ⟨app, -, rest⟩ := of_bind done
    obtain ⟨_, -, rfl⟩ := extnDebugCreateToplevelWindow_eq_ok_iff.mp rest
    exact labels_quiet rfl
  | other =>
    cases done
    exact labels_quiet rfl

theorem step_labels {event : Event} (done : listener.step event = .ok outcome) :
    Labels event outcome := by
  cases event with
  | message sender message => exact dispatch_labels done
  | windowClosed canvasId =>
    cases done
    exact labels_quiet rfl
  | disconnected sender =>
    obtain ⟨app, -, rest⟩ := of_bind done
    obtain ⟨_, _, -, -, rfl⟩ := disconnect_eq_ok_iff.mp rest
    exact labels_quiet rfl

/-! ## Runs -/

theorem run_labels {events : List Event} {final : Listener} {outcomes : List Outcome}
    (ran : listener.run events = .ok (final, outcomes)) :
    List.Forall₂ Labels events outcomes := by
  induction events generalizing listener outcomes with
  | nil =>
    cases ran
    exact .nil
  | cons event rest induction =>
    obtain ⟨outcome, later, first, following, rfl⟩ := run_cons_eq_ok_iff.mp ran
    exact .cons (step_labels first) (induction following)

end Listener

theorem forall₂_getElem? {events : List Event} {outcomes : List Outcome}
    (paired : List.Forall₂ Labels events outcomes) (place : Nat) :
    (events[place]? = none ∧ outcomes[place]? = none) ∨
      ∃ event outcome, events[place]? = some event ∧
        outcomes[place]? = some outcome ∧ Labels event outcome := by
  induction paired generalizing place with
  | nil => exact .inl ⟨rfl, rfl⟩
  | cons first rest induction =>
    cases place with
    | zero => exact .inr ⟨_, _, rfl, rfl, first⟩
    | succ place => exact induction place

/-- The labels on the screen are verified exactly when the apps ask in order. -/
theorem labels_verified_iff (events : List Event) (final : Listener) (outcomes : List Outcome)
    (ran : Listener.new.run events = .ok (final, outcomes)) :
    LabelsVerified events outcomes ↔ AsksInOrder events := by
  have paired := forall₂_getElem? (Listener.run_labels ran)
  constructor
  · intro verified place event address present maps
    obtain ⟨absent, -⟩ | ⟨_, outcome, same, produced, labels⟩ := paired place
    · rw [absent] at present
      cases present
    · obtain rfl := Option.some.inj (same.symm.trans present)
      obtain ⟨label, labelled⟩ := (labels address).mpr maps
      exact verified place outcome address label produced labelled
  · intro ordered place outcome address label present labelled
    obtain ⟨-, absent⟩ | ⟨event, _, asked, same, labels⟩ := paired place
    · rw [absent] at present
      cases present
    · obtain rfl := Option.some.inj (same.symm.trans present)
      exact ordered place event address asked ((labels address).mp ⟨label, labelled⟩)

/-- An app that connects, has its label verified and maps a canvas. -/
def orderlyEvents : List Event :=
  [.message [1] (.connect 1 [7] false 5 6), .message [1] .verifyLabel,
    .message [1] (.window (.mapCanvas 2 true))]

/-- An app that connects and maps a canvas. -/
def hastyEvents : List Event :=
  [.message [1] (.connect 1 [7] false 5 6),
    .message [1] (.window (.mapCanvas 2 true))]

theorem orderlyEvents_asksInOrder : AsksInOrder orderlyEvents := by
  rintro place event address present ⟨viewportId, truecolor, rfl⟩
  match place with
  | 0 => cases present
  | 1 => cases present
  | 2 =>
    cases present
    decide
  | place + 3 => cases present

theorem labels_verified_orderly : LabelsVerified orderlyEvents (outcomesOf orderlyEvents) :=
  (labels_verified_iff orderlyEvents (listenerOf orderlyEvents)
    (outcomesOf orderlyEvents) rfl).mpr orderlyEvents_asksInOrder

/-- The canvas of an app that was never verified gets the app's label. -/
theorem hasty_labels_not_verified : Listener.new.run hastyEvents =
        .ok (listenerOf hastyEvents, outcomesOf hastyEvents) ∧
      ¬ LabelsVerified hastyEvents (outcomesOf hastyEvents) := by
  refine ⟨rfl, fun verified => ?_⟩
  have wrong := verified 1 _ [1] [7] rfl rfl
  exact absurd wrong (by decide)

end Embassies.Monitor
