import Embassies.Coordinator.LongMessages

/-!
# References are held by the apps

Every app can send any identifier at any time.  This module says for which events
the coordinator goes on, and shows that along such events the number of references
of every buffer is the number of apps that have it and of long packets on it, and
that an app that frees a buffer gives up a reference of its own.
-/

namespace Embassies.Coordinator

open Library Library.Checked Network List

/-! ## Keys of segments -/

theorem shifted_mod {shift : Nat} (value : Nat) (far : 12 ≤ shift) :
    value <<< shift % 2 ^ 32 % 2 ^ 12 = 0 := by
  rw [Nat.mod_mod_of_dvd _ (Nat.pow_dvd_pow 2 (by decide)), Nat.shiftLeft_eq]
  exact Nat.mod_eq_zero_of_dvd (Dvd.dvd.mul_left (Nat.pow_dvd_pow 2 far) value)

theorem Shm.key_mod (shm : Shm) {identity : Nat} (small : identity < 2 ^ 12) :
    (shm.key identity).toNat % 2 ^ 12 = identity := by
  have high : shm.uniquifier.toNat % 2 ^ 12 = 0 := by
    rw [Shm.uniquifier, UInt32.toNat_or, UInt32.toNat_shiftLeft, UInt32.toNat_shiftLeft,
      Nat.or_mod_two_pow, shifted_mod _ (by decide), shifted_mod _ (by decide)]
    rfl
  rw [Shm.key, UInt32.toNat_or, Nat.or_mod_two_pow, high, UInt32.toNat_ofNat',
    Nat.zero_or, Nat.mod_mod_of_dvd _ (Nat.pow_dvd_pow 2 (by decide)),
    Nat.mod_eq_of_lt small]

namespace Listener

variable {fuel : Nat} {listener : Listener} {address sender : UInt8} {key : UInt32}
  {id : CMLongIdentifier} {contents : List UInt8} {granted refused : Bool} {dest : XIPAddr}
  {size : Nat} {events : List Event}

/-! ## The references that are held -/

section Holders

variable {apps : Finset UInt8} {outstanding : UInt8 → Finset UInt32}

/-- The number of apps that have a buffer. -/
def holders (apps : Finset UInt8) (outstanding : UInt8 → Finset UInt32) (key : UInt32) : Nat :=
  (apps.filter fun app => key ∈ outstanding app).card

theorem holders_insert (connected : address ∈ apps) (absent : key ∉ outstanding address)
    (wanted : UInt32) :
    holders apps (Function.update outstanding address (insert key (outstanding address))) wanted =
      holders apps outstanding wanted + if wanted = key then 1 else 0 := by
  rw [holders, holders]
  by_cases same : wanted = key
  · subst same
    have grown : (apps.filter fun app =>
        wanted ∈ Function.update outstanding address (insert wanted (outstanding address)) app) =
        insert address (apps.filter fun app => wanted ∈ outstanding app) := by
      ext app
      by_cases here : app = address
      · simp [here, connected]
      · simp [here]
    rw [if_pos rfl, grown, Finset.card_insert_of_notMem (by simp [absent])]
  · rw [if_neg same, Nat.add_zero]
    refine congrArg Finset.card (Finset.filter_congr fun app _ => ?_)
    by_cases here : app = address
    · simp [here, same]
    · simp [here]

theorem holders_erase (connected : address ∈ apps) (holds : key ∈ outstanding address)
    (wanted : UInt32) :
    holders apps outstanding wanted =
      holders apps (Function.update outstanding address ((outstanding address).erase key)) wanted +
        if wanted = key then 1 else 0 := by
  have grown := @holders_insert address key apps
    (Function.update outstanding address ((outstanding address).erase key)) connected (by simp)
    wanted
  simpa [Finset.insert_erase holds] using grown

theorem holders_leave (connected : address ∈ apps) (wanted : UInt32) :
    holders apps outstanding wanted = holders (apps.erase address) outstanding wanted +
      if wanted ∈ outstanding address then 1 else 0 := by
  rw [holders, holders, Finset.filter_erase]
  split
  · rename_i holds
    rw [Finset.card_erase_add_one (Finset.mem_filter.mpr ⟨connected, holds⟩)]
  · rename_i absent
    rw [Finset.erase_eq_of_notMem (by simp [absent]), Nat.add_zero]

end Holders

/-- The number of references of every buffer is the number of the apps that have it
and of the long packets on it. -/
def CountsExactly (listener : Listener) : Prop :=
  ∀ key, listener.refs key = holders listener.apps listener.outstandingLmas key +
    listener.longPackets.count key

/-- The numbers of references are exact, and every buffer has a key that has been issued. -/
structure Balanced (listener : Listener) : Prop where
  counts : listener.CountsExactly
  issued : ∀ key, 0 < listener.refs key →
    ∃ identity < listener.shm.nextIdentity, listener.shm.key identity = key
  bounded : listener.shm.nextIdentity ≤ 2 ^ 12

/-- The state after one of the operations that move references is balanced, and the long
packets are the same. -/
def Keeps (listener next : Listener) : Prop :=
  next.Balanced ∧ next.longPackets = listener.longPackets

section Balance

variable (balanced : listener.Balanced)

include balanced

theorem Balanced.live_of_holds (connected : address ∈ listener.apps)
    (holds : key ∈ listener.outstandingLmas address) : 0 < listener.refs key := by
  have some : 0 < holders listener.apps listener.outstandingLmas key :=
    Finset.card_pos.mpr ⟨address, Finset.mem_filter.mpr ⟨connected, holds⟩⟩
  have := balanced.counts key
  omega

theorem Balanced.issued_update {value : Nat} (live : 0 < listener.refs key) (wanted : UInt32)
    (used : 0 < Function.update listener.refs key value wanted) :
    ∃ identity < listener.shm.nextIdentity, listener.shm.key identity = wanted := by
  by_cases same : wanted = key
  · exact same ▸ balanced.issued key live
  · rw [Function.update_of_ne same] at used
    exact balanced.issued wanted used

theorem Balanced.disconnect :
    Exactly (listener.disconnect address) (address ∈ listener.apps) listener.Keeps := by
  refine .guard fun connected => ?_
  have live : 0 ∉ (listener.outstandingLmas address).image listener.refs := by
    intro dropped
    obtain ⟨key, holds, none⟩ := Finset.mem_image.mp dropped
    exact (balanced.live_of_holds connected holds).ne' none
  dsimp only
  rw [ensure_true live, ok_bind]
  refine ⟨trivial, ⟨fun key => ?_, fun key live => balanced.issued key ?_, balanced.bounded⟩, rfl⟩
  · have before := balanced.counts key
    have left := @holders_leave _ _ listener.outstandingLmas connected key
    dsimp only
    split
    · rename_i holds
      rw [if_pos holds] at left
      omega
    · rename_i absent
      rw [if_neg absent] at left
      omega
  · dsimp only at live
    split at live
    · omega
    · exact live

theorem Balanced.sendCm (connected : address ∈ listener.apps) (refused : Bool) :
    Exactly (listener.sendCm address refused) True listener.Keeps := by
  cases refused with
  | false => exact ⟨trivial, balanced, rfl⟩
  | true => exact balanced.disconnect.congr (iff_of_true connected trivial)

/-- An app gets a reference of a buffer. -/
theorem Balanced.give (connected : address ∈ listener.apps)
    (absent : key ∉ listener.outstandingLmas address)
    (issued : ∃ identity < listener.shm.nextIdentity, listener.shm.key identity = key) :
    ({ listener with
        refs := Function.update listener.refs key (listener.refs key + 1) }.setOutstanding
      address (insert key (listener.outstandingLmas address))).Balanced := by
  refine ⟨fun wanted => ?_, fun wanted live => ?_, balanced.bounded⟩
  · have before := balanced.counts wanted
    have held := holders_insert connected absent wanted
    dsimp only [setOutstanding]
    rw [held, Function.update_apply]
    split
    · rename_i same
      rw [← same]
      omega
    · omega
  · by_cases same : wanted = key
    · exact same ▸ issued
    · refine balanced.issued wanted ?_
      dsimp only [setOutstanding] at live
      rwa [Function.update_of_ne same] at live

theorem Balanced.sendPacket : Exactly (listener.sendPacket address key refused)
    (0 < listener.refs key ∧ listener.refs key + 1 < 2 ^ 31 ∧ address ∈ listener.apps ∧
      key ∉ listener.outstandingLmas address) listener.Keeps := by
  rw [Listener.sendPacket, addRef]
  simp only [record, bind_assoc, pure_bind]
  refine .ensure fun live => .ensure fun _ => .ensure fun connected => .guard fun absent => ?_
  exact (balanced.give connected absent (balanced.issued key live)).sendCm connected refused

theorem Balanced.newLongPacket : Exactly (listener.newLongPacket key)
    (0 < listener.refs key ∧ listener.refs key + 1 < 2 ^ 31) fun next => next.Balanced ∧
      next = { listener with
        refs := Function.update listener.refs key (listener.refs key + 1)
        longPackets := key :: listener.longPackets } := by
  rw [Listener.newLongPacket, addRef]
  simp only [bind_assoc, pure_bind]
  refine .ensure fun live => .guard fun _ => ?_
  refine ⟨trivial, ⟨fun wanted => ?_, balanced.issued_update live, balanced.bounded⟩, rfl⟩
  have before := balanced.counts wanted
  dsimp only
  by_cases same : wanted = key
  · subst same
    rw [Function.update_self, count_cons_self]
    omega
  · rw [Function.update_of_ne same, count_cons_of_ne (Ne.symm same), before]

theorem Balanced.live_of_packet (member : key ∈ listener.longPackets) : 0 < listener.refs key := by
  have := balanced.counts key
  have := count_pos_iff.mpr member
  omega

theorem Balanced.deleteLongPacket (member : key ∈ listener.longPackets) :
    Exactly (listener.deleteLongPacket key) True Balanced := by
  have positive := count_pos_iff.mpr member
  have live := balanced.live_of_packet member
  rw [Listener.deleteLongPacket, dropRef, ensure_true live, ok_bind]
  refine ⟨trivial, fun wanted => ?_, balanced.issued_update live, balanced.bounded⟩
  have before := balanced.counts wanted
  dsimp only
  by_cases same : wanted = key
  · subst same
    rw [Function.update_self, count_erase_self]
    omega
  · rw [Function.update_of_ne same, count_erase_of_ne same, before]

end Balance

/-! ## Events that the coordinator copes with -/

/-- A valid long packet on a buffer with `refs` references can be delivered: to an app
that does not have the buffer yet, to an address that no app has, or, when it is too
large for the tunnel, to nobody. -/
def Deliverable (listener : Listener) (key : UInt32) (dest : XIPAddr) (size refs : Nat) :
    Prop :=
  match Router.lookup listener.shm.tunid dest with
  | none => False
  | some .tunnelIfc => 2 ^ 20 ≤ size
  | some .unicastIfc => ∀ app, AppLink.lookup listener.shm.tunid listener.apps dest = some app →
      key ∉ listener.outstandingLmas app ∧ refs + 1 < 2 ^ 31
  | some (.broadcastIfc _) => listener.apps = ∅ ∧ 2 ^ 20 ≤ size

/-- The coordinator copes with an event. -/
def Acceptable (fuel : Nat) (listener : Listener) : Event → Prop
  | .allocLongMessage sender granted _ =>
    listener.shm.nextIdentity < 2 ^ 12 ∧ granted = true ∧ sender ∈ listener.apps
  | .deliverPacketLong id contents _ => ∃ key info,
      id = .shm key ∧ 0 < listener.refs key ∧ listener.refs key + 1 < 2 ^ 31 ∧
        decodeIpPacket fuel contents = .ok info ∧
        (Valid contents info → listener.Deliverable key info.dest contents.length
          (listener.refs key + 1))
  | .freeLongMessage sender id =>
    sender ∈ listener.apps ∧ ∃ key ∈ listener.outstandingLmas sender, id = .shm key
  | .disconnect address => address ∈ listener.apps

/-- Every event is acceptable in the state that it meets. -/
def Accepted (fuel : Nat) (listener : Listener) : List Event → Prop
  | [] => True
  | event :: events => listener.Acceptable fuel event ∧
      ∀ next, listener.step fuel event = .ok next → Accepted fuel next events

theorem lookupExisting_eq_ok_iff :
    listener.lookupExisting id = .ok key ↔ id = .shm key ∧ 0 < listener.refs key := by
  cases id with
  | mmap path => simp [lookupExisting]
  | other type => simp [lookupExisting]
  | shm wanted =>
    rw [lookupExisting]
    grind

theorem decode_eq_ok_iff {info : IPInfo} :
    decode fuel contents = .ok info ↔ decodeIpPacket fuel contents = .ok info := by
  rw [decode]
  cases decodeIpPacket fuel contents with
  | error trap => simp [Except.mapError]
  | ok value => simp [Except.mapError]

/-- An app has given up one reference of its own, and the other apps have kept their
buffers. -/
structure DropsOwn (before : Listener) (sender : UInt8) (after : Listener) : Prop where
  own : ∃ key ∈ before.outstandingLmas sender, ∀ wanted,
    before.refs wanted = after.refs wanted + if wanted = key then 1 else 0
  kept : ∀ app ∈ before.apps, app ≠ sender → app ∈ after.apps ∧
    after.outstandingLmas app = before.outstandingLmas app ∧
    ∀ key ∈ before.outstandingLmas app, 0 < after.refs key

section Balance

variable (balanced : listener.Balanced)

include balanced

/-! ## Delivery -/

theorem Balanced.deliverToTunnel (member : key ∈ listener.longPackets) :
    Exactly (listener.deliverToTunnel key size) (2 ^ 20 ≤ size) Balanced :=
  .guard fun _ => balanced.deleteLongPacket member

theorem Balanced.deliverToApp (member : key ∈ listener.longPackets) :
    Exactly (listener.deliverToApp key dest refused)
      (∀ app, AppLink.lookup listener.shm.tunid listener.apps dest = some app →
        key ∉ listener.outstandingLmas app ∧ listener.refs key + 1 < 2 ^ 31) Balanced := by
  rw [Listener.deliverToApp]
  cases found : AppLink.lookup listener.shm.tunid listener.apps dest with
  | none => exact (balanced.deleteLongPacket member).congr (iff_of_true trivial nofun)
  | some app =>
    have connected : app ∈ listener.apps := AppLink.mem_of_lookup found
    have live := balanced.live_of_packet member
    refine (balanced.sendPacket.bind fun next kept =>
      kept.1.deleteLongPacket (kept.2 ▸ member)).congr ?_
    constructor
    · rintro ⟨⟨-, fits, -, absent⟩, -⟩ _ ⟨⟩
      exact ⟨absent, fits⟩
    · intro all
      obtain ⟨absent, fits⟩ := all _ rfl
      exact ⟨⟨live, fits, connected, absent⟩, trivial⟩

theorem Balanced.routePacket (member : key ∈ listener.longPackets) :
    Exactly (listener.routePacket key dest size refused)
      (listener.Deliverable key dest size (listener.refs key)) Balanced := by
  rw [Listener.routePacket, Deliverable]
  cases routed : Router.lookup listener.shm.tunid dest with
  | none => exact not_false
  | some netIfc =>
    cases netIfc with
    | tunnelIfc => exact balanced.deliverToTunnel member
    | unicastIfc => exact balanced.deliverToApp member
    | broadcastIfc variant =>
      exact .ensure fun _ => balanced.deliverToTunnel member

theorem Balanced.deliverPacketLong : Exactly (listener.deliverPacketLong fuel id contents refused)
      (listener.Acceptable fuel (.deliverPacketLong id contents refused)) Balanced := by
  have deliver (key : UInt32) (info : IPInfo) : Exactly (do
      let next ← listener.newLongPacket key
      if Valid contents info then next.routePacket key info.dest contents.length refused
      else return next)
      ((0 < listener.refs key ∧ listener.refs key + 1 < 2 ^ 31) ∧
        (Valid contents info → listener.Deliverable key info.dest contents.length
          (listener.refs key + 1))) Balanced := by
    refine balanced.newLongPacket.bind fun next ⟨kept, made⟩ => ?_
    subst made
    split
    · rename_i valid
      refine (kept.routePacket mem_cons_self).congr ?_
      simp [valid, Deliverable]
    · rename_i invalid
      exact ⟨fun valid => absurd valid invalid, kept⟩
  refine (Exactly.bindWith fun key _ => Exactly.bindWith fun info _ => deliver key info).congr ?_
  simp only [lookupExisting_eq_ok_iff, decode_eq_ok_iff, Acceptable]
  constructor
  · rintro ⟨key, ⟨same, -⟩, info, decoded, ⟨live, fits⟩, deliverable⟩
    exact ⟨key, info, same, live, fits, decoded, deliverable⟩
  · rintro ⟨key, info, same, live, fits, decoded, deliverable⟩
    exact ⟨key, ⟨same, live⟩, info, decoded, ⟨live, fits⟩, deliverable⟩

/-! ## Allocation and release -/

theorem Balanced.refs_key (small : listener.shm.nextIdentity < 2 ^ 12) :
    listener.refs (listener.shm.key listener.shm.nextIdentity) = 0 := by
  by_contra used
  obtain ⟨identity, earlier, same⟩ := balanced.issued _ (Nat.pos_of_ne_zero used)
  have equal := listener.shm.key_mod (earlier.trans small)
  rw [same, listener.shm.key_mod small] at equal
  omega

theorem Balanced.allocLongMessage : Exactly (listener.allocLongMessage sender granted refused)
    (listener.Acceptable fuel (.allocLongMessage sender granted refused)) Balanced := by
  rw [Listener.allocLongMessage, Shm.allocate, Acceptable]
  simp only [record, bind_assoc, pure_bind]
  refine .ensure fun small => .ensure fun granted => ?_
  have unused := balanced.refs_key small
  rw [ensure_true unused, ok_bind]
  refine .guard fun connected => ?_
  have absent : listener.shm.key listener.shm.nextIdentity ∉ listener.outstandingLmas sender := by
    intro holds
    have := balanced.live_of_holds connected holds
    omega
  rw [ensure_true absent, ok_bind]
  have advanced : Balanced { listener with
      shm := { listener.shm with nextIdentity := listener.shm.nextIdentity + 1 } } := by
    refine ⟨balanced.counts, fun key live => ?_, small⟩
    obtain ⟨identity, earlier, same⟩ := balanced.issued key live
    exact ⟨identity, Nat.lt_succ_of_lt earlier, same⟩
  have given := advanced.give connected absent ⟨_, Nat.lt_succ_self _, rfl⟩
  rw [unused] at given
  exact (given.sendCm connected refused).weaken fun _ => And.left

theorem Balanced.freeLongMessage : Exactly (listener.freeLongMessage sender id)
    (listener.Acceptable fuel (.freeLongMessage sender id))
    fun next => next.Balanced ∧ DropsOwn listener sender next := by
  have free (connected : sender ∈ listener.apps) (key : UInt32)
      (holds : key ∈ listener.outstandingLmas sender) : Exactly
      ((listener.setOutstanding sender ((listener.outstandingLmas sender).erase key)).dropRef key)
      True fun next => next.Balanced ∧ DropsOwn listener sender next := by
    have live := balanced.live_of_holds connected holds
    rw [dropRef, setOutstanding, ensure_true live, ok_bind]
    have counts (wanted : UInt32) : listener.refs wanted =
        Function.update listener.refs key (listener.refs key - 1) wanted +
          if wanted = key then 1 else 0 := by
      rw [Function.update_apply]
      split
      · rename_i same
        rw [same]
        omega
      · rfl
    have balancedAfter : Balanced { listener.setOutstanding sender
        ((listener.outstandingLmas sender).erase key) with
        refs := Function.update listener.refs key (listener.refs key - 1) } := by
      refine ⟨fun wanted => ?_, balanced.issued_update live, balanced.bounded⟩
      have before := balanced.counts wanted
      have fewer := holders_erase connected holds wanted
      have := counts wanted
      dsimp only [setOutstanding]
      omega
    refine ⟨trivial, balancedAfter, ⟨key, holds, counts⟩, fun app appIn apart => ?_⟩
    have same : Function.update listener.outstandingLmas sender
        ((listener.outstandingLmas sender).erase key) app = listener.outstandingLmas app :=
      Function.update_of_ne apart _ _
    refine ⟨appIn, same, fun held holds => balancedAfter.live_of_holds appIn ?_⟩
    change held ∈ Function.update listener.outstandingLmas sender _ app
    rwa [same]
  refine .ensure fun connected => ?_
  refine (Exactly.bindWith fun key _ =>
    Exactly.guard fun holds => free connected key holds).congr ?_
  simp only [lookupExisting_eq_ok_iff]
  constructor
  · rintro ⟨key, ⟨same, -⟩, holds⟩
    exact ⟨key, holds, same⟩
  · rintro ⟨key, holds, same⟩
    exact ⟨key, ⟨same, balanced.live_of_holds connected holds⟩, holds⟩

/-! ## Runs -/

/-- An event is coped with exactly when it is acceptable, and keeps the balance. -/
theorem Balanced.step (event : Event) :
    Exactly (listener.step fuel event) (listener.Acceptable fuel event) Balanced := by
  cases event with
  | allocLongMessage sender granted refused => exact balanced.allocLongMessage
  | deliverPacketLong id contents refused => exact balanced.deliverPacketLong
  | freeLongMessage sender id => exact balanced.freeLongMessage.weaken fun _ => And.left
  | disconnect address => exact balanced.disconnect.weaken fun _ => And.left

/-- A run succeeds exactly when every event is acceptable in the state it meets, and keeps the
balance. -/
theorem Balanced.run :
    Exactly (listener.run fuel events) (Accepted fuel listener events) Balanced := by
  induction events generalizing listener with
  | nil => exact ⟨trivial, balanced⟩
  | cons event events induction =>
    have spec := @Balanced.step fuel _ balanced event
    rw [Listener.run, foldlM_cons]
    cases stepped : listener.step fuel event with
    | error reason =>
      rw [stepped] at spec
      exact fun accepted => spec accepted.1
    | ok next =>
      obtain ⟨acceptable, kept⟩ := spec.of_returned stepped
      refine (induction kept).congr ⟨fun rest => ⟨acceptable, ?_⟩, fun accepted =>
        accepted.2 next stepped⟩
      intro other same
      cases stepped.symm.trans same
      exact rest

end Balance

/-- Along a run no event fails, every number of references is exact, and whoever
frees a buffer gives up a reference of their own. -/
structure Sound (fuel : Nat) (start : Listener) (events : List Event) : Prop where
  safe : ∃ final, start.run fuel events = .ok final
  exact : ∀ earlier, earlier <+: events → ∀ state, start.run fuel earlier = .ok state →
    state.CountsExactly
  own : ∀ earlier sender id, earlier ++ [.freeLongMessage sender id] <+: events →
    ∀ before after, start.run fuel earlier = .ok before →
      before.step fuel (.freeLongMessage sender id) = .ok after →
      DropsOwn before sender after

/-- No buffer has been allocated. -/
structure Fresh (listener : Listener) : Prop where
  refs : ∀ key, listener.refs key = 0
  longPackets : listener.longPackets = []
  outstandingLmas : ∀ app ∈ listener.apps, listener.outstandingLmas app = ∅
  nextIdentity : listener.shm.nextIdentity = 1

theorem Fresh.balanced (fresh : listener.Fresh) : listener.Balanced := by
  refine ⟨fun key => ?_, fun key live => ?_, ?_⟩
  · have none : holders listener.apps listener.outstandingLmas key = 0 := by
      rw [holders, Finset.card_eq_zero, Finset.filter_eq_empty_iff]
      intro app appIn
      rw [fresh.outstandingLmas app appIn]
      exact Finset.notMem_empty key
    rw [fresh.refs, none, fresh.longPackets]
    rfl
  · rw [fresh.refs] at live
    omega
  · rw [fresh.nextIdentity]
    decide

/-- A run is sound exactly when every event is acceptable in the state it meets. -/
theorem references_per_app_iff
    (fuel : Nat) (start : Listener) (fresh : start.Fresh) (events : List Event) :
    Sound fuel start events ↔ Accepted fuel start events := by
  rw [← fresh.balanced.run.succeeds_iff]
  constructor
  · exact Sound.safe
  · intro safe
    refine ⟨safe, ?_, ?_⟩
    · intro earlier _ state reached
      exact (fresh.balanced.run.of_returned reached).2.counts
    · intro earlier sender id _ before after reached freed
      have kept := (fresh.balanced.run.of_returned reached).2
      exact ((@Balanced.freeLongMessage fuel _ _ _ kept).of_returned freed).2.2

/-! ## Two apps -/

/-- Two apps are connected. -/
def twoApps : Listener where
  shm := ⟨1, 0, 1⟩
  refs := fun _ => 0
  apps := {2, 3}
  near := by simp [Near]
  outstandingLmas := fun _ => ∅
  longPackets := []

theorem twoApps_fresh : twoApps.Fresh where
  refs _ := rfl
  longPackets := rfl
  outstandingLmas _ _ := rfl
  nextIdentity := rfl

/-- A packet of the first app to the second. -/
def packetToSecond : List UInt8 :=
  [0x45, 0, 0, 21, 0, 0, 0, 0, 64, 17, 0, 0, 10, 1, 0, 2, 10, 1, 0, 3, 0]

/-- The key of the first buffer. -/
def firstKey : UInt32 := 0x10000001

/-- A buffer is allocated by the first app, sent to the second, and freed by both. -/
def exchange : List Event :=
  [.allocLongMessage 2 true false, .deliverPacketLong (.shm firstKey) packetToSecond false,
    .freeLongMessage 2 (.shm firstKey), .freeLongMessage 3 (.shm firstKey)]

theorem references_per_app_exchange : twoApps.Fresh ∧ Sound 0 twoApps exchange :=
  ⟨twoApps_fresh, (references_per_app_iff 0 twoApps twoApps_fresh exchange).mpr
    (twoApps_fresh.balanced.run.succeeds_iff.mp (by decide))⟩

/-- The same buffer is sent to the same app again before the app has freed it. -/
def resending : List Event :=
  [.allocLongMessage 2 true false, .deliverPacketLong (.shm firstKey) packetToSecond false,
    .deliverPacketLong (.shm firstKey) packetToSecond false]

theorem resending_not_sound : twoApps.Fresh ∧ ¬Sound 0 twoApps resending := by
  refine ⟨twoApps_fresh, fun sound => ?_⟩
  exact absurd sound.safe (by decide)

end Listener

end Embassies.Coordinator
