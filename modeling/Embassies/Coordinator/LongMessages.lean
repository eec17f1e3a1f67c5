import Embassies.Coordinator.Router

/-!
# Long messages

A message that does not fit into a datagram is sent in a buffer of shared memory.
The coordinator allocates the buffer and counts the references to it: one for every
app that has been told of the buffer, kept in the table `outstanding_lmas` of the
app, and one for every `LongPacket`.  The apps name buffers by identifiers of their
own choice.

A buffer whose last reference is dropped leaves the table `allocations`, so the table is
the numbers of references, and a use of a buffer without one is the use of a missing
buffer.  What the host answers is part of an event: whether `shmget` has made the segment,
and whether the message to an app was refused, upon which the app is deleted.
-/

namespace Embassies.Coordinator

open Library Library.Checked Network

/-- What the coordinator must never do. -/
inductive Fault where
  /-- A `lite_assert` or an `assert` whose condition is false. -/
  | assertion
  /-- The use of a buffer that does not exist. -/
  | missingBuffer
  /-- The use of an app that is not connected. -/
  | missingApp
  /-- The number of references leaves `int`. -/
  | overflow
  /-- A fault of `decode_ip_packet`. -/
  | decoding (trap : Trap)
deriving DecidableEq

/-! ## Shared memory -/

/-- `Shm`. -/
structure Shm where
  tunid : UInt8
  pid : UInt32
  nextIdentity : Nat

namespace Shm

/-- `_make_uniquifier`. -/
def uniquifier (shm : Shm) : UInt32 :=
  ((shm.tunid.toUInt32 &&& 0x0f) <<< 28) ||| ((shm.pid &&& 0xffff) <<< 12)

/-- The key of the segment with an identity. -/
def key (shm : Shm) (identity : Nat) : UInt32 :=
  shm.uniquifier ||| UInt32.ofNat identity

/-- `allocate`. -/
def allocate (shm : Shm) (granted : Bool) : Except Fault (UInt32 × Shm) := do
  ensure (shm.nextIdentity < 2 ^ 12) .assertion
  ensure (granted = true) .assertion
  return (shm.key shm.nextIdentity, { shm with nextIdentity := shm.nextIdentity + 1 })

end Shm

/-- `CMLongIdentifier`; other types of identifiers have no name. -/
inductive CMLongIdentifier where
  | mmap (path : String)
  | shm (key : UInt32)
  | other (type : UInt32)
deriving DecidableEq

/-! ## Apps -/

/-- The hosts of the apps are less than 128 apart.  `AppLink` keeps their interfaces in a search
tree, and `cmp_xip` takes the sign of a difference of `int`s or `char`s for the order of two
addresses: on such hosts it is an order, and the tree a table of the interfaces. -/
abbrev Near (hosts : Finset UInt8) : Prop :=
  ∀ left ∈ hosts, ∀ right ∈ hosts, left.toNat < right.toNat + 128

theorem Near.erase {hosts : Finset UInt8} (near : Near hosts) (host : UInt8) :
    Near (hosts.erase host) := by
  intro left leftIn right rightIn
  exact near left (Finset.mem_of_mem_erase leftIn) right (Finset.mem_of_mem_erase rightIn)

/-- The parts of `Listener` that long messages use; an app is known by its host on the
link. -/
structure Listener where
  shm : Shm
  /-- The number of references of each buffer in `allocations`. -/
  refs : UInt32 → Nat
  apps : Finset UInt8
  near : Near apps
  /-- The buffers that each app has. -/
  outstandingLmas : UInt8 → Finset UInt32
  /-- The buffers of the `LongPacket`s that have not been deleted. -/
  longPackets : List UInt32

namespace Listener

/-- `add_ref`; the number is an `int`. -/
def addRef (listener : Listener) (key : UInt32) : Except Fault Listener := do
  ensure (0 < listener.refs key) .missingBuffer
  ensure (listener.refs key + 1 < 2 ^ 31) .overflow
  return { listener with refs := Function.update listener.refs key (listener.refs key + 1) }

/-- `drop_ref`; with the last reference the buffer is gone. -/
def dropRef (listener : Listener) (key : UInt32) : Except Fault Listener := do
  ensure (0 < listener.refs key) .missingBuffer
  return { listener with refs := Function.update listener.refs key (listener.refs key - 1) }

/-- `lookup_existing`, whose callers use the buffer without a test.  All buffers are
segments of shared memory. -/
def lookupExisting (listener : Listener) : CMLongIdentifier → Except Fault UInt32
  | .shm key => if 0 < listener.refs key then .ok key else .error .missingBuffer
  | .mmap _ => .error .missingBuffer
  | .other _ => .error .assertion

/-- Change the buffers that an app has. -/
def setOutstanding (listener : Listener) (address : UInt8) (keys : Finset UInt32) : Listener :=
  { listener with outstandingLmas := Function.update listener.outstandingLmas address keys }

/-- Enter a buffer into `outstanding_lmas`, as in `record_alloc_long_message`. -/
def record (listener : Listener) (address : UInt8) (key : UInt32) :
    Except Fault Listener := do
  ensure (address ∈ listener.apps) .missingApp
  ensure (key ∉ listener.outstandingLmas address) .assertion
  return listener.setOutstanding address (insert key (listener.outstandingLmas address))

/-- `~App`: a reference of every buffer of the app is dropped, and it leaves the link. -/
def disconnect (listener : Listener) (address : UInt8) : Except Fault Listener := do
  ensure (address ∈ listener.apps) .missingApp
  let keys := listener.outstandingLmas address
  ensure (0 ∉ keys.image listener.refs) .missingBuffer
  return { listener with
    refs key := if key ∈ keys then listener.refs key - 1 else listener.refs key
    apps := listener.apps.erase address
    near := listener.near.erase address }

/-- `send_cm` of a short message. -/
def sendCm (listener : Listener) (address : UInt8) (refused : Bool) :
    Except Fault Listener :=
  if refused then listener.disconnect address else .ok listener

/-! ## Delivery of long packets -/

/-- The constructor of `LongPacket`, after the packet has been decoded. -/
def newLongPacket (listener : Listener) (key : UInt32) : Except Fault Listener := do
  let listener ← listener.addRef key
  return { listener with longPackets := key :: listener.longPackets }

/-- `~LongPacket`. -/
def deleteLongPacket (listener : Listener) (key : UInt32) : Except Fault Listener := do
  let listener ← listener.dropRef key
  return { listener with longPackets := listener.longPackets.erase key }

/-- `App::send_packet` of a long packet. -/
def sendPacket (listener : Listener) (address : UInt8) (key : UInt32) (refused : Bool) :
    Except Fault Listener := do
  let listener ← listener.addRef key
  let listener ← listener.record address key
  listener.sendCm address refused

/-- `TunnelIfc::deliver`; a long packet has no `get_payload`. -/
def deliverToTunnel (listener : Listener) (key : UInt32) (size : Nat) :
    Except Fault Listener := do
  ensure (2 ^ 20 ≤ size) .assertion
  listener.deleteLongPacket key

/-- `BroadcastIfc::deliver`; a long packet has no `get_cm_size`, so that the delivery
to the first app fails.  Every app has an interface of either version. -/
def deliverToAll (listener : Listener) (key : UInt32) (size : Nat) : Except Fault Listener := do
  ensure (listener.apps = ∅) .assertion
  listener.deliverToTunnel key size

/-- `UnicastIfc::deliver`. -/
def deliverToApp (listener : Listener) (key : UInt32) (dest : XIPAddr)
    (refused : Bool) : Except Fault Listener :=
  match AppLink.lookup listener.shm.tunid listener.apps dest with
  | none => listener.deleteLongPacket key
  | some app => do
    let listener ← listener.sendPacket app key refused
    listener.deleteLongPacket key

/-- `Router::deliver_packet` of a valid long packet. -/
def routePacket (listener : Listener) (key : UInt32) (dest : XIPAddr) (size : Nat)
    (refused : Bool) : Except Fault Listener :=
  match Router.lookup listener.shm.tunid dest with
  | none => .error .assertion
  | some .tunnelIfc => listener.deliverToTunnel key size
  | some .unicastIfc => listener.deliverToApp key dest refused
  | some (.broadcastIfc _) => listener.deliverToAll key size

/-- The bytes of the buffer behind its header, decoded; the fuel bounds the chain of
extension headers. -/
def decode (fuel : Nat) (contents : List UInt8) : Except Fault IPInfo :=
  (decodeIpPacket fuel contents).mapError .decoding

/-- `Packet::valid`. -/
def Valid (contents : List UInt8) (info : IPInfo) : Prop :=
  info.packetValid = true ∧ info.packetLength ≤ contents.length

instance (contents : List UInt8) (info : IPInfo) : Decidable (Valid contents info) :=
  inferInstanceAs (Decidable (_ ∧ _))

/-- `deliver_packet_long`.  A packet that is not valid is never deleted. -/
def deliverPacketLong (fuel : Nat) (listener : Listener) (id : CMLongIdentifier)
    (contents : List UInt8) (refused : Bool) : Except Fault Listener := do
  let key ← listener.lookupExisting id
  let info ← decode fuel contents
  let listener ← listener.newLongPacket key
  if Valid contents info then
    listener.routePacket key info.dest contents.length refused
  else
    return listener

/-! ## The other messages -/

/-- `alloc_long_message`. -/
def allocLongMessage (listener : Listener) (sender : UInt8) (granted refused : Bool) :
    Except Fault Listener := do
  let (key, shm) ← listener.shm.allocate granted
  ensure (listener.refs key = 0) .assertion
  let listener ← { listener with shm, refs := Function.update listener.refs key 1 }.record
    sender key
  listener.sendCm sender refused

/-- `free_long_message`. -/
def freeLongMessage (listener : Listener) (sender : UInt8) (id : CMLongIdentifier) :
    Except Fault Listener := do
  ensure (sender ∈ listener.apps) .missingApp
  let key ← listener.lookupExisting id
  ensure (key ∈ listener.outstandingLmas sender) .assertion
  (listener.setOutstanding sender ((listener.outstandingLmas sender).erase key)).dropRef key

end Listener

/-! ## Runs -/

/-- What happens to the coordinator. -/
inductive Event where
  | allocLongMessage (sender : UInt8) (granted refused : Bool)
  | deliverPacketLong (id : CMLongIdentifier) (contents : List UInt8) (refused : Bool)
  | freeLongMessage (sender : UInt8) (id : CMLongIdentifier)
  | disconnect (app : UInt8)

namespace Listener

/-- One event. -/
def step (fuel : Nat) (listener : Listener) : Event → Except Fault Listener
  | .allocLongMessage sender granted refused =>
    listener.allocLongMessage sender granted refused
  | .deliverPacketLong id contents refused =>
    listener.deliverPacketLong fuel id contents refused
  | .freeLongMessage sender id => listener.freeLongMessage sender id
  | .disconnect app => listener.disconnect app

/-- A run. -/
def run (fuel : Nat) (listener : Listener) (events : List Event) : Except Fault Listener :=
  events.foldlM (step fuel) listener

end Listener

end Embassies.Coordinator
