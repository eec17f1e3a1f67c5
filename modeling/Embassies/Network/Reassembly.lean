import Embassies.Network.Udp

/-!
# Reassembling IPv4 fragments

`FragmentReassembly` keeps a partial packet for each identification.  A partial
packet holds its fragments in a search tree by offset, and remembers the first
offset at which a fragment is missing.  When that gap reaches the end of the
last fragment, the payloads are joined behind the header of the first fragment,
and the result is dispatched.

The search tree is modelled by the list of its elements in order, and the two
hash tables by lists of partial packets with different identifications.
-/

namespace Embassies.Network

open Library Library.Checked

/-! ## Fragments -/

/-- `FragmentElt`: a received packet and what was decoded from it. -/
structure FragmentElt where
  zcb : List UInt8
  info : IPInfo
deriving DecidableEq

namespace FragmentElt

/-- `start`, which is also the key. -/
def start (fragment : FragmentElt) : Nat :=
  fragment.info.fragmentOffset

/-- `size`, a `uint16_t`. -/
def size (fragment : FragmentElt) : Nat :=
  fragment.info.payloadLength % 2 ^ 16

/-- `end`, a `uint16_t`. -/
def finish (fragment : FragmentElt) : Nat :=
  (fragment.start + fragment.size) % 2 ^ 16

/-- `header_size`. -/
def headerSize (fragment : FragmentElt) : Nat :=
  fragment.info.payloadOffset

/-- `equals`. -/
def equals (fragment other : FragmentElt) : Prop :=
  fragment.start = other.start ∧ fragment.size = other.size

instance (fragment other : FragmentElt) : Decidable (fragment.equals other) :=
  inferInstanceAs (Decidable (_ ∧ _))

end FragmentElt

namespace FragmentTree

/-- `findFirstLessThanOrEqualTo`. -/
def findFirstLessThanOrEqualTo (tree : List FragmentElt) (key : Nat) :
    Option FragmentElt :=
  (tree.filter fun fragment => fragment.start ≤ key).getLast?

/-- `findFirstGreaterThan`. -/
def findFirstGreaterThan (tree : List FragmentElt) (key : Nat) :
    Option FragmentElt :=
  (tree.filter fun fragment => key < fragment.start).head?

/-- `insert`, which asserts that the key is new. -/
def insert (tree : List FragmentElt) (fragment : FragmentElt) :
    Except Trap (List FragmentElt) := do
  ensure (∀ other ∈ tree, other.start ≠ fragment.start) .assertion
  return tree.filter (fun other => other.start < fragment.start) ++
    fragment :: tree.filter (fun other => fragment.start < other.start)

end FragmentTree

/-! ## Partial packets -/

/-- `PartialPacket`; the assembled packet leaves it at once. -/
structure PartialPacket where
  ident : Nat
  haveLastFragment : Bool
  nextGap : Nat
  fragments : List FragmentElt

namespace PartialPacket

/-- The constructor. -/
def new (ident : Nat) : PartialPacket :=
  ⟨ident, false, 0, []⟩

/-- The payload of a fragment. -/
def copyData (fragment : FragmentElt) : Except Trap (List UInt8) := do
  let data ← bytesAt fragment.zcb fragment.headerSize fragment.size
  return data.bytes

/-- `assemble_packet`.  There are at most `2 ^ 16` keys, so the length stays
below `2 ^ 32`. -/
def assemblePacket (fuel : Nat) (fragments : List FragmentElt) :
    Except Trap (List UInt8 × IPInfo) :=
  match fragments with
  | [] => .error .outOfBounds
  | first :: _ => do
    let header ← bytesAt first.zcb 0 first.headerSize
    let data ← fragments.mapM copyData
    let assembled := header.bytes ++ data.flatten
    let assembledLen := assembled.length
    let assembled ← store assembled 2 (BigEndian.encode 2 assembledLen)
    let assembled ← store assembled 6 [0, 0]
    let info ← decodeIpPacket fuel assembled
    return (assembled, info)

/-- The loop that advances the gap; `later` are the fragments it visits. -/
def advanceGap (newFragment : FragmentElt) : List FragmentElt → Nat → Nat
  | [], gap => gap
  | _ :: later, _ => advanceGap newFragment later newFragment.finish

/-- The end of `ingest_fragment`: is the packet complete? -/
def finishIngest (fuel : Nat) (packet : PartialPacket) :
    Except Trap (PartialPacket × Option (List UInt8 × IPInfo)) :=
  if packet.haveLastFragment then
    match packet.fragments.getLast? with
    | none => .error .outOfBounds
    | some lastFragment => do
      ensure (packet.nextGap ≤ lastFragment.finish) .assertion
      if packet.nextGap = lastFragment.finish then do
        let assembled ← assemblePacket fuel packet.fragments
        return (packet, some assembled)
      else
        return (packet, none)
  else
    return (packet, none)

/-- The assertions of `ingest_fragment` on the neighbours of a fragment. -/
def checkNeighbours (fragments : List FragmentElt) (newFragment : FragmentElt) :
    Except Trap Unit := do
  ensure (∀ prior ∈ FragmentTree.findFirstLessThanOrEqualTo fragments
      newFragment.start,
    prior.finish ≤ newFragment.start ∨ prior.equals newFragment) .assertion
  ensure (∀ next ∈ FragmentTree.findFirstGreaterThan fragments
      newFragment.start,
    newFragment.finish ≤ next.start) .assertion
  ensure (newFragment.info.moreFragments = false →
    FragmentTree.findFirstGreaterThan fragments newFragment.start = none)
    .assertion

/-- The packet with a fragment that was inserted. -/
def addFragment (packet : PartialPacket) (newFragment : FragmentElt)
    (fragments : List FragmentElt) : PartialPacket where
  ident := packet.ident
  haveLastFragment :=
    packet.haveLastFragment || !newFragment.info.moreFragments
  nextGap :=
    if packet.nextGap = newFragment.start then
      advanceGap newFragment (newFragment :: fragments.filter fun fragment =>
        newFragment.start < fragment.start) packet.nextGap
    else packet.nextGap
  fragments := fragments

/-- `ingest_fragment`; the result has the assembled packet, if it is complete. -/
def ingestFragment (fuel : Nat) (packet : PartialPacket)
    (newFragment : FragmentElt) :
    Except Trap (PartialPacket × Option (List UInt8 × IPInfo)) := do
  checkNeighbours packet.fragments newFragment
  let fragments ← FragmentTree.insert packet.fragments newFragment
  finishIngest fuel (packet.addFragment newFragment fragments)

end PartialPacket

/-! ## All packets -/

/-- `FragmentReassembly`. -/
structure FragmentReassembly where
  hNew : List PartialPacket
  hOld : List PartialPacket

namespace FragmentReassembly

/-- `MAX_PARTIAL_PACKETS`. -/
def maxPartialPackets : Nat := 2

/-- The constructor. -/
def new : FragmentReassembly := ⟨[], []⟩

/-- `hash_table_lookup`. -/
def lookup (table : List PartialPacket) (ident : Nat) : Option PartialPacket :=
  table.find? fun packet => packet.ident = ident

/-- The table after its packet for the identification has changed. -/
def update (table : List PartialPacket) (packet : PartialPacket) :
    List PartialPacket :=
  table.map fun other => if other.ident = packet.ident then packet else other

/-- `hash_table_remove`. -/
def remove (table : List PartialPacket) (ident : Nat) : List PartialPacket :=
  table.filter fun packet => packet.ident ≠ ident

/-- There are too many partial packets. -/
def crowded (state : FragmentReassembly) : Bool :=
  maxPartialPackets < state.hNew.length + state.hOld.length

/-- One round of `tidy`. -/
def rotate (state : FragmentReassembly) : FragmentReassembly :=
  ⟨[], state.hNew⟩

/-- `tidy`; after two rounds both tables are empty. -/
def tidy (state : FragmentReassembly) : FragmentReassembly :=
  if state.crowded then
    if state.rotate.crowded then state.rotate.rotate else state.rotate
  else state

/-- Which of the tables a packet is in. -/
inductive Home where
  | new
  | old

/-- Find the partial packet for an identification, or start one. -/
def locate (state : FragmentReassembly) (ident : Nat) :
    FragmentReassembly × Home × PartialPacket :=
  match lookup state.hNew ident with
  | some packet => (state, .new, packet)
  | none =>
    match lookup state.hOld ident with
    | some packet => (state, .old, packet)
    | none =>
      let tidied := state.tidy
      let packet := PartialPacket.new ident
      (⟨packet :: tidied.hNew, tidied.hOld⟩, .new, packet)

/-- Change the table that a packet is in. -/
def changeHome (state : FragmentReassembly) (home : Home)
    (change : List PartialPacket → List PartialPacket) : FragmentReassembly :=
  match home with
  | .new => ⟨change state.hNew, state.hOld⟩
  | .old => ⟨state.hNew, change state.hOld⟩

/-- `handle_fragment`; the result has the packet that is dispatched. -/
def handleFragment (fuel : Nat) (state : FragmentReassembly)
    (fragment : FragmentElt) :
    Except Trap (FragmentReassembly × Option (List UInt8 × IPInfo)) := do
  let (state, home, packet) := state.locate fragment.info.identification
  let (packet, assembled) ← packet.ingestFragment fuel fragment
  match assembled with
  | some dispatched =>
    return (state.changeHome home (remove · packet.ident), some dispatched)
  | none => return (state.changeHome home (update · packet), none)

/-- A sequence of arrivals, with what each of them dispatches. -/
def handleFragments (fuel : Nat) : FragmentReassembly → List FragmentElt →
    Except Trap (FragmentReassembly × List (Option (List UInt8 × IPInfo)))
  | state, [] => .ok (state, [])
  | state, fragment :: rest => do
    let (state, dispatched) ← state.handleFragment fuel fragment
    let (state, later) ← handleFragments fuel state rest
    return (state, dispatched :: later)

end FragmentReassembly

end Embassies.Network
