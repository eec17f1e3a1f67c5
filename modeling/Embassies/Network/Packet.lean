import Embassies.Library.BigEndian
import Embassies.Library.Checked
import Embassies.Library.Loop

/-!
# Decoding IP packets

The decoder of `xax_network_utils.c`.  It is handed a buffer and its length and
fills an `IPInfo` record.  IPv6 packets without a length in the basic header
carry it in a jumbogram option, which is searched for in a chain of extension
headers.

Offsets are `uint32_t` and their sums and differences wrap.  A read outside of
the buffer and a failed `lite_assert` are recorded as a `Trap`.
-/

namespace Embassies.Network

open Library Library.Checked

/-- What a run of the network code must never do. -/
inductive Trap where
  /-- A `lite_assert` whose condition is false. -/
  | assertion
  /-- A read or a write outside of the buffer. -/
  | outOfBounds
  /-- The loop has used up its fuel. -/
  | outOfFuel
deriving DecidableEq, Repr

/-! ## Bytes -/

/-- A fixed number of bytes. -/
@[ext]
structure Bytes (size : Nat) where
  bytes : List UInt8
  length_eq : bytes.length = size
deriving DecidableEq

/-- The byte at an offset. -/
def byteAt (packet : List UInt8) (offset : Nat) : Except Trap UInt8 :=
  match packet[offset]? with
  | some byte => .ok byte
  | none => .error .outOfBounds

/-- Some bytes from an offset on. -/
def bytesAt (packet : List UInt8) (offset size : Nat) :
    Except Trap (Bytes size) :=
  if fits : offset + size ≤ packet.length then
    .ok ⟨(packet.drop offset).take size, by simp; omega⟩
  else
    .error .outOfBounds

/-- `Z_NTOHG` of a field of `size` bytes. -/
def numberAt (packet : List UInt8) (offset size : Nat) : Except Trap Nat := do
  let field ← bytesAt packet offset size
  return BigEndian.decode field.bytes

/-! ## Addresses and packets -/

/-- `XIPAddr`; a cleared record has no version. -/
inductive XIPAddr where
  | unset
  | ipv4 (addr : Bytes 4)
  | ipv6 (addr : Bytes 16)
deriving DecidableEq

/-- `IPInfo`. -/
@[ext]
structure IPInfo where
  source : XIPAddr
  dest : XIPAddr
  layer4Protocol : UInt8
  payloadOffset : Nat
  payloadLength : Nat
  packetLength : Nat
  moreFragments : Bool
  fragmentOffset : Nat
  identification : Nat
  failure : Option String
  packetValid : Bool
  foundJumboLength : Bool
deriving DecidableEq

/-- The cleared record. -/
def IPInfo.cleared : IPInfo :=
  ⟨.unset, .unset, 0, 0, 0, 0, false, 0, 0, none, false, false⟩

/-- Note why the packet is refused. -/
def IPInfo.fail (info : IPInfo) (reason : String) : IPInfo :=
  { info with failure := some reason }

/-- `sizeof(IP4Header)`. -/
def ip4HeaderSize : Nat := 20

/-- `sizeof(IP6Header)`. -/
def ip6HeaderSize : Nat := 40

/-- `IP_PROTO_OPTION_HEADER`. -/
def ipProtoOptionHeader : UInt8 := 0

/-- `IP6_OPTION_TYPE_JUMBOGRAM`. -/
def ip6OptionTypeJumbogram : UInt8 := 0xc2

/-- `PROTOCOL_UDP`. -/
def protocolUdp : UInt8 := 17

/-! ## IPv6 -/

/-- The checks before the two bytes of an option header are read. -/
def optionHeaderFailure (packet : List UInt8)
    (headerOffset extHdrLen optionOffset : Nat) : Option String :=
  if packet.length < add32 optionOffset 2 then
    some "packet too short to contain this option header"
  else if extHdrLen < sub32 (add32 optionOffset 2) headerOffset then
    some "header too short to contain this option header"
  else
    none

/-- The checks on an option whose type and length have been read. -/
def optionFailure (packet : List UInt8)
    (headerOffset extHdrLen optionOffset : Nat) (info : IPInfo)
    (optionType optionLength : UInt8) : Option String :=
  if packet.length < add32 (add32 optionOffset 2) optionLength.toNat then
    some "packet too short to contain this option"
  else if extHdrLen <
      sub32 (add32 optionOffset optionLength.toNat) headerOffset then
    some "header too short to contain this option"
  else if optionType = ip6OptionTypeJumbogram ∧ optionLength ≠ 4 then
    some "invalid jumbogram option length"
  else if optionType = ip6OptionTypeJumbogram ∧ info.foundJumboLength then
    some "found two jumbo lengths"
  else
    none

/-- A jumbogram option carries the length of the payload. -/
def readJumbo (packet : List UInt8) (optionOffset : Nat) (optionType : UInt8)
    (info : IPInfo) : Except Trap IPInfo :=
  if optionType = ip6OptionTypeJumbogram then do
    let jumboLength ← numberAt packet (optionOffset + 2) 4
    return { info with foundJumboLength := true, payloadLength := jumboLength }
  else
    return info

/-- Go on behind an option, `done` bytes into the header. -/
def finishOption (extHdrLen next done : Nat) (optionLength : UInt8)
    (info : IPInfo) : Except Trap ((Nat × IPInfo) ⊕ (Bool × IPInfo)) :=
  if optionLength = 0 then
    .ok (.inr (false, info.fail "zero-length option"))
  else if done = extHdrLen then
    .ok (.inr (true, info))
  else if extHdrLen < done then
    .error .assertion
  else
    .ok (.inl (next, info))

/-- One round of `_6len_scan_options_for_length`. -/
def scanOption (packet : List UInt8) (headerOffset extHdrLen : Nat)
    (state : Nat × IPInfo) :
    Except Trap ((Nat × IPInfo) ⊕ (Bool × IPInfo)) :=
  match optionHeaderFailure packet headerOffset extHdrLen state.1 with
  | some reason => .ok (.inr (false, state.2.fail reason))
  | none => do
    let optionType ← byteAt packet state.1
    let optionLength ← byteAt packet (state.1 + 1)
    match optionFailure packet headerOffset extHdrLen state.1 state.2
        optionType optionLength with
    | some reason => .ok (.inr (false, state.2.fail reason))
    | none => do
      let info ← readJumbo packet state.1 optionType state.2
      let next := add32 (add32 state.1 2) optionLength.toNat
      finishOption extHdrLen next (sub32 next headerOffset) optionLength info

/-- `_6len_scan_options_for_length`.  An option has at least three bytes and a
header at most 2048, so the fuel suffices. -/
def scanOptions (packet : List UInt8)
    (headerOffset optionOffset extHdrLen : Nat) (info : IPInfo) :
    Except Trap (Bool × IPInfo) :=
  Loop.run .outOfFuel (scanOption packet headerOffset extHdrLen) 4096
    (optionOffset, info)

/-- The state of `_6len_scan_ext_headers_for_length`. -/
structure HeaderState where
  headerTypeOffset : Nat
  headerOffset : Nat
  info : IPInfo

/-- The end of the header chain: the payload follows. -/
def finishHeaders (headerOffset : Nat) (thisHeaderType : UInt8)
    (info : IPInfo) : IPInfo :=
  if info.foundJumboLength then
    { info with
      layer4Protocol := thisHeaderType
      payloadOffset := headerOffset
      packetValid := true }
  else
    info.fail "Never found length field"

/-- One round of `_6len_scan_ext_headers_for_length`. -/
def scanExtHeader (packet : List UInt8) (state : HeaderState) :
    Except Trap (HeaderState ⊕ IPInfo) :=
  if packet.length < add32 state.headerTypeOffset 1 then
    .ok (.inr (state.info.fail "bad header chain"))
  else do
    let thisHeaderType ← byteAt packet state.headerTypeOffset
    if thisHeaderType ≠ ipProtoOptionHeader then
      .ok (.inr (finishHeaders state.headerOffset thisHeaderType state.info))
    else do
      let headerLen ← byteAt packet (state.headerOffset + 1)
      let extHdrLen := (headerLen.toNat + 1) * 8
      if packet.length < add32 state.headerOffset extHdrLen then
        .ok (.inr (state.info.fail
          "packet too short to contain claimed option header length"))
      else do
        let (foundInOptions, info) ← scanOptions packet state.headerOffset
          (add32 state.headerOffset 2) extHdrLen state.info
        -- The source also tests for a length of zero, which cannot be.
        if foundInOptions then
          .ok (.inl ⟨state.headerOffset, add32 state.headerOffset extHdrLen,
            info⟩)
        else
          .ok (.inr info)

/-- The record after the fields of the basic header have been read. -/
def ip6Info (sourceIp6 destIp6 : Bytes 16) : IPInfo :=
  { IPInfo.cleared with source := .ipv6 sourceIp6, dest := .ipv6 destIp6 }

/-- The length and the protocol, from the basic header or from the extension
headers. -/
def findIp6Payload (fuel : Nat) (packet : List UInt8) (basicLen : Nat)
    (info : IPInfo) : Except Trap IPInfo :=
  if 0 < basicLen then do
    let nextHeaderProto ← byteAt packet 6
    return { info with
      payloadLength := basicLen
      packetValid := true
      layer4Protocol := nextHeaderProto
      payloadOffset := ip6HeaderSize }
  else
    Loop.run .outOfFuel (scanExtHeader packet) fuel ⟨6, ip6HeaderSize, info⟩

/-- The packet ends with the payload. -/
def IPInfo.setPacketLength (info : IPInfo) : IPInfo :=
  { info with packetLength := add32 info.payloadOffset info.payloadLength }

/-- `decode_ip6_packet` on a cleared record. -/
def decodeIp6Packet (fuel : Nat) (packet : List UInt8) : Except Trap IPInfo :=
  if packet.length < ip6HeaderSize then
    .ok (IPInfo.cleared.fail "packet smaller than basic IPv6 header")
  else do
    let sourceIp6 ← bytesAt packet 8 16
    let destIp6 ← bytesAt packet 24 16
    let basicLen ← numberAt packet 4 2
    let info ← findIp6Payload fuel packet basicLen (ip6Info sourceIp6 destIp6)
    return info.setPacketLength

/-! ## IPv4 -/

/-- `decode_ip4_packet` on a cleared record. -/
def decodeIp4Packet (packet : List UInt8) : Except Trap IPInfo :=
  if packet.length < ip4HeaderSize then
    .ok (IPInfo.cleared.fail "packet smaller than basic IPv4 header")
  else do
    let totalLength ← numberAt packet 2 2
    let protocol ← byteAt packet 9
    let fragField ← numberAt packet 6 2
    let identification ← numberAt packet 4 2
    let sourceIp ← bytesAt packet 12 4
    let destIp ← bytesAt packet 16 4
    return {
      source := .ipv4 sourceIp
      dest := .ipv4 destIp
      layer4Protocol := protocol
      payloadOffset := ip4HeaderSize
      payloadLength := sub32 totalLength ip4HeaderSize
      packetLength := totalLength
      moreFragments := fragField / 2 ^ 13 % 2 = 1
      fragmentOffset := fragField % 2 ^ 13 * 8
      identification := identification
      failure := none
      packetValid := true
      foundJumboLength := false }

/-! ## Both versions -/

/-- The assertions at the end of `decode_ip_packet`. -/
def checkInfo (info : IPInfo) : Except Trap IPInfo :=
  if info.packetValid then do
    ensure (info.failure = none) .assertion
    ensure (0 < info.payloadLength) .assertion
    ensure (info.layer4Protocol ≠ 0) .assertion
    ensure (0 < info.payloadOffset) .assertion
    return info
  else do
    ensure (info.failure ≠ none) .assertion
    return info

/-- `XIPVer`. -/
inductive XIPVer where
  | ipvErr
  | ipv4
  | ipv6
deriving DecidableEq

/-- The version of an address. -/
def XIPAddr.version : XIPAddr → XIPVer
  | .unset => .ipvErr
  | .ipv4 _ => .ipv4
  | .ipv6 _ => .ipv6

/-- `decode_ip_version`, on the first byte. -/
def decodeIpVersion (first : UInt8) : XIPVer :=
  if first.toNat / 16 = 4 then .ipv4
  else if first.toNat / 16 = 6 then .ipv6
  else .ipvErr

/-- The decoder for the version of the packet. -/
def decodeVersion (fuel : Nat) (packet : List UInt8) : Except Trap IPInfo :=
  match packet with
  | [] => .ok (IPInfo.cleared.fail "zero-length packet")
  | first :: _ =>
    match decodeIpVersion first with
    | .ipv4 => decodeIp4Packet packet
    | .ipv6 => decodeIp6Packet fuel packet
    | .ipvErr => .ok (IPInfo.cleared.fail "invalid ip version field")

/-- `decode_ip_packet`. -/
def decodeIpPacket (fuel : Nat) (packet : List UInt8) : Except Trap IPInfo := do
  let info ← decodeVersion fuel packet
  checkInfo info

end Embassies.Network
