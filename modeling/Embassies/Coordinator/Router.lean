import Embassies.Network.Packet
import Mathlib.Data.Finset.Card

/-!
# Routing between the apps

The coordinator gives every app an address on a link of its own and routes the
packets of the apps by a forwarding table: to the gateway and to addresses outside
of the link through the tunnel, to the broadcast addresses to every app, and to the
other addresses of the link to the app that has the address.
-/

namespace Embassies.Coordinator

open Network

/-! ## Addresses -/

/-- Combine two addresses byte by byte. -/
def zipBytes {size : Nat} (combine : UInt8 → UInt8 → UInt8)
    (left right : Bytes size) : Bytes size :=
  ⟨List.zipWith combine left.bytes right.bytes, by
    rw [List.length_zipWith, left.length_eq, right.length_eq, Nat.min_self]⟩

/-- `xip_all_ones`. -/
def xipAllOnes : XIPVer → XIPAddr
  | .ipv4 => .ipv4 ⟨List.replicate 4 0xff, rfl⟩
  | .ipv6 => .ipv6 ⟨List.replicate 16 0xff, rfl⟩
  | .ipvErr => .unset

/-- `xip_all_zeros`. -/
def xipAllZeros : XIPVer → XIPAddr
  | .ipv4 => .ipv4 ⟨List.replicate 4 0, rfl⟩
  | .ipv6 => .ipv6 ⟨List.replicate 16 0, rfl⟩
  | .ipvErr => .unset

/-- `xip_broadcast`. -/
def xipBroadcast : XIPAddr → XIPAddr → XIPAddr
  | .ipv4 subnet, .ipv4 netmask =>
    .ipv4 (zipBytes (fun part mask => part ||| ~~~mask) subnet netmask)
  | .ipv6 subnet, .ipv6 netmask =>
    .ipv6 (zipBytes (fun part mask => part ||| ~~~mask) subnet netmask)
  | _, _ => .unset

namespace AppLink

/-- The address `10.tunid.0.host` or `fe80::a:tunid:0:host` on the link. -/
def address (tunid host : UInt8) : XIPVer → XIPAddr
  | .ipv4 => .ipv4 ⟨[10, tunid, 0, host], rfl⟩
  | .ipv6 => .ipv6 ⟨[0xfe, 0x80, 0, 0, 0, 0, 0, 0, 0, 0x0a, 0, tunid, 0, 0, 0, host], rfl⟩
  | .ipvErr => .unset

/-- `get_subnet`. -/
def getSubnet (tunid : UInt8) : XIPVer → XIPAddr := address tunid 0

/-- `get_gateway`. -/
def getGateway (tunid : UInt8) : XIPVer → XIPAddr := address tunid 1

/-- `get_netmask`. -/
def getNetmask : XIPVer → XIPAddr
  | .ipv4 => .ipv4 ⟨[255, 255, 0, 0], rfl⟩
  | .ipv6 => .ipv6 ⟨List.replicate 15 0xff ++ [0], rfl⟩
  | .ipvErr => .unset

/-- `get_broadcast`. -/
def getBroadcast (tunid : UInt8) (version : XIPVer) : XIPAddr :=
  xipBroadcast (getSubnet tunid version) (getNetmask version)

/-- The byte of an address that tells the hosts of a link apart. -/
def hostOf : XIPAddr → UInt8
  | .unset => 0
  | .ipv4 addr => addr.bytes.getLastD 0
  | .ipv6 addr => addr.bytes.getLastD 0

/-- `lookup`: the app with an interface at an address. -/
def lookup (tunid : UInt8) (apps : Finset UInt8) (dest : XIPAddr) : Option UInt8 :=
  if hostOf dest ∈ apps ∧ address tunid (hostOf dest) dest.version = dest then
    some (hostOf dest)
  else none

theorem mem_of_lookup {tunid host : UInt8} {apps : Finset UInt8} {dest : XIPAddr}
    (found : lookup tunid apps dest = some host) : host ∈ apps := by
  rw [lookup] at found
  split at found
  · rename_i here
    cases found
    exact here.1
  · cases found

end AppLink

/-! ## The forwarding table -/

/-- `BroadcastVariant`. -/
inductive BroadcastVariant where
  | ones
  | link
deriving DecidableEq

/-- `NetIfc`. -/
inductive NetIfc where
  | tunnelIfc
  | unicastIfc
  | broadcastIfc (variant : BroadcastVariant)
deriving DecidableEq

/-- `ForwardingEntry`. -/
structure ForwardingEntry where
  netIfc : NetIfc
  addr : XIPAddr
  netmask : XIPAddr

namespace ForwardingEntry

/-- `_buf_mask`. -/
def bufMask {size : Nat} (left right mask : Bytes size) : Bool :=
  zipBytes (· &&& ·) left mask = zipBytes (· &&& ·) right mask

/-- `mask_match`. -/
def maskMatch (entry : ForwardingEntry) (testAddr : XIPAddr) : Bool :=
  match entry.addr, testAddr, entry.netmask with
  | .ipv4 addr, .ipv4 test, .ipv4 netmask => bufMask addr test netmask
  | .ipv6 addr, .ipv6 test, .ipv6 netmask => bufMask addr test netmask
  | _, _, _ => false

end ForwardingEntry

namespace Router

/-- The entries for both versions; every entry is inserted at the head. -/
def bothVersions (netIfc : NetIfc) (addr netmask : XIPVer → XIPAddr) :
    List ForwardingEntry :=
  [⟨netIfc, addr .ipv6, netmask .ipv6⟩, ⟨netIfc, addr .ipv4, netmask .ipv4⟩]

/-- `_create_forwarding_table`: the last route that is entered comes first. -/
def forwardingTable (tunid : UInt8) : List ForwardingEntry :=
  bothVersions .tunnelIfc (AppLink.getGateway tunid) xipAllOnes ++
    bothVersions (.broadcastIfc .link) (AppLink.getBroadcast tunid) xipAllOnes ++
    bothVersions (.broadcastIfc .ones) xipAllOnes xipAllOnes ++
    bothVersions .unicastIfc (AppLink.getSubnet tunid) AppLink.getNetmask ++
    bothVersions .tunnelIfc xipAllZeros xipAllZeros

/-- `lookup`; there is no entry for an address without a version. -/
def lookup (tunid : UInt8) (addr : XIPAddr) : Option NetIfc :=
  ((forwardingTable tunid).find? fun entry => entry.maskMatch addr).map
    ForwardingEntry.netIfc

end Router

end Embassies.Coordinator
