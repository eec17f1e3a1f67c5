import Embassies.Library.Buffer
import Embassies.Network.Robust

/-!
# UDP packets

`create_udp_packet_buf` writes the headers of a UDP packet in front of a
payload that the caller fills in.  IPv6 payloads of `2 ^ 16` bytes and more are
announced in a jumbogram option.  IPv4 has no such layout: the total length
keeps its low sixteen bits.

The packet is handed to `decode_ip_packet`, which has to find the headers
again.
-/

namespace Embassies.Network

open Library Library.Buffer Library.Checked List

/-! ## The writer -/

/-- Store bytes at an offset. -/
def store (buffer : List UInt8) (offset : Nat) (bytes : List UInt8) :
    Except Trap (List UInt8) :=
  if offset + bytes.length ≤ buffer.length then
    .ok (patch buffer offset bytes)
  else
    .error .outOfBounds

/-- `get_ip4`. -/
def getIp4 : XIPAddr → Except Trap (Bytes 4)
  | .ipv4 addr => .ok addr
  | _ => .error .assertion

/-- `get_ip6`. -/
def getIp6 : XIPAddr → Except Trap (Bytes 16)
  | .ipv6 addr => .ok addr
  | _ => .error .assertion

/-- `UDPEndpoint`; the port is in network order. -/
structure UDPEndpoint where
  ipaddr : XIPAddr
  port : Bytes 2

/-- `sizeof(UDPPacket)`. -/
def udpHeaderSize : Nat := 8

/-- `use_jumbogram`. -/
def useJumbogram (ipPayloadSize : Nat) : Bool :=
  65536 ≤ ipPayloadSize

/-- `ip_header_size`. -/
def ipHeaderSize (version : XIPVer) (ipPayloadSize : Nat) : Except Trap Nat :=
  match version with
  | .ipv4 => .ok ip4HeaderSize
  | .ipv6 =>
    .ok (if useJumbogram ipPayloadSize then ip6HeaderSize + 2 + 2 + 4
      else ip6HeaderSize)
  | .ipvErr => .error .assertion

/-- `udp_packet_length`. -/
def udpPacketLength (version : XIPVer) (payloadSize : Nat) : Except Trap Nat := do
  let ipPayloadSize := add32 udpHeaderSize payloadSize
  let headerSize ← ipHeaderSize version ipPayloadSize
  return add32 headerSize ipPayloadSize

/-- The sum of the words of a header, each with its low byte first. -/
def wordSum : List UInt8 → Nat
  | low :: high :: rest => low.toNat + 256 * high.toNat + wordSum rest
  | _ => 0

/-- `ip_checksum`. -/
def ipChecksum (header : List UInt8) : Nat :=
  let sum := wordSum header
  let folded := sum / 2 ^ 16 + sum % 2 ^ 16
  let again := folded / 2 ^ 16 + folded % 2 ^ 16
  2 ^ 16 - 1 - again % 2 ^ 16

/-- The fields of an `IP4Header` in memory. -/
def ip4Header (totalLength : Nat) (checksum : List UInt8)
    (sourceIp destIp : Bytes 4) : List UInt8 :=
  [0x45, 0] ++ (BigEndian.encode 2 totalLength ++ ([0, 0, 0, 0, 0xff] ++
    ([protocolUdp] ++ (checksum ++ (sourceIp.bytes ++ destIp.bytes)))))

/-- The fields of a `UDPPacket` in memory. -/
def udpHeader (source dest : UDPEndpoint) (length : Nat) : List UInt8 :=
  source.port.bytes ++ (dest.port.bytes ++ (BigEndian.encode 2 length ++ [0, 0]))

/-- `create_udp_packet_buf_v4`; the result has the offset of the payload. -/
def createUdpPacketBufV4 (localBuffer : List UInt8)
    (sourceEp destEp : UDPEndpoint) (payloadSize : Nat) :
    Except Trap (List UInt8 × Nat) := do
  let totalLength ← udpPacketLength .ipv4 payloadSize
  let sourceIp ← getIp4 sourceEp.ipaddr
  let destIp ← getIp4 destEp.ipaddr
  let checksum := ipChecksum (ip4Header totalLength [0, 0] sourceIp destIp)
  let buffer ← store localBuffer 0 (ip4Header totalLength
    [UInt8.ofNat checksum, UInt8.ofNat (checksum / 256)] sourceIp destIp)
  let buffer ← store buffer ip4HeaderSize
    (udpHeader sourceEp destEp (udpHeaderSize + payloadSize))
  return (buffer, ip4HeaderSize + udpHeaderSize)

/-- The fields of an `IP6Header` in memory. -/
def ip6Header (payloadLen : Nat) (nextHeaderProto : UInt8)
    (sourceIp6 destIp6 : Bytes 16) : List UInt8 :=
  [0x60, 0, 0, 0] ++ (BigEndian.encode 2 payloadLen ++ ([nextHeaderProto] ++
    ([253] ++ (sourceIp6.bytes ++ destIp6.bytes))))

/-- The extension header with the jumbogram option. -/
def jumboHeader (ipPayloadSize : Nat) : List UInt8 :=
  [protocolUdp, 0, ip6OptionTypeJumbogram, 4] ++ BigEndian.encode 4 ipPayloadSize

/-- `create_udp_packet_buf_v6`; the result has the offset of the payload. -/
def createUdpPacketBufV6 (localBuffer : List UInt8)
    (sourceEp destEp : UDPEndpoint) (payloadSize : Nat) :
    Except Trap (List UInt8 × Nat) := do
  let ipPayloadSize := add32 udpHeaderSize payloadSize
  let jumbo := useJumbogram ipPayloadSize
  let sourceIp6 ← getIp6 sourceEp.ipaddr
  let destIp6 ← getIp6 destEp.ipaddr
  let header := if jumbo then
      ip6Header 0 ipProtoOptionHeader sourceIp6 destIp6 ++
        jumboHeader ipPayloadSize
    else
      ip6Header ipPayloadSize protocolUdp sourceIp6 destIp6
  let buffer ← store localBuffer 0 header
  ensure (payloadSize ≤ sub32 localBuffer.length header.length) .assertion
  let buffer ← store buffer header.length (udpHeader sourceEp destEp
    (if jumbo then 0 else udpHeaderSize + payloadSize))
  return (buffer, header.length + udpHeaderSize)

/-- `create_udp_packet_buf` on a buffer with its capacity. -/
def createUdpPacketBuf (localBuffer : List UInt8)
    (sourceEp destEp : UDPEndpoint) (payloadSize : Nat) :
    Except Trap (List UInt8 × Nat) := do
  let length ← udpPacketLength destEp.ipaddr.version payloadSize
  ensure (length ≤ localBuffer.length) .assertion
  match destEp.ipaddr.version with
  | .ipv4 => createUdpPacketBufV4 localBuffer sourceEp destEp payloadSize
  | .ipv6 => createUdpPacketBufV6 localBuffer sourceEp destEp payloadSize
  | .ipvErr => .error .assertion

/-! ## Layout -/

variable {buffer : List UInt8}

theorem store_eq_ok {bytes : List UInt8} {offset : Nat}
    (fits : offset + bytes.length ≤ buffer.length) :
    store buffer offset bytes = .ok (patch buffer offset bytes) :=
  if_pos fits

theorem store_eq_error {bytes : List UInt8} {offset : Nat}
    (short : buffer.length < offset + bytes.length) :
    store buffer offset bytes = .error .outOfBounds :=
  if_neg (by omega)

theorem ip4Header_length {totalLength : Nat} {checksum : List UInt8} {sourceIp destIp : Bytes 4}
    (two : checksum.length = 2) :
    (ip4Header totalLength checksum sourceIp destIp).length = 20 := by
  simp [ip4Header, two, sourceIp.length_eq, destIp.length_eq]

theorem udpHeader_length (source dest : UDPEndpoint) (length : Nat) :
    (udpHeader source dest length).length = 8 := by
  simp [udpHeader, source.port.length_eq, dest.port.length_eq]

theorem ip6Header_length (payloadLen : Nat) (nextHeaderProto : UInt8)
    (sourceIp6 destIp6 : Bytes 16) :
    (ip6Header payloadLen nextHeaderProto sourceIp6 destIp6).length = 40 := by
  simp [ip6Header, sourceIp6.length_eq, destIp6.length_eq]

theorem jumboHeader_length (ipPayloadSize : Nat) : (jumboHeader ipPayloadSize).length = 8 := by
  simp [jumboHeader]

theorem store_store {α : Type} {first second : List UInt8} (next : List UInt8 → Except Trap α) :
    (store buffer 0 first >>= fun after => store after first.length second >>= next) =
      if (first ++ second).length ≤ buffer.length then
        next (first ++ (second ++ buffer.drop (first.length + second.length)))
      else .error .outOfBounds := by
  rw [length_append]
  by_cases head : first.length ≤ buffer.length
  · rw [store_eq_ok (by omega), ok_bind]
    split
    · have joined := @patch_patch_append _ buffer first second 0
      rw [Nat.zero_add] at joined
      rw [store_eq_ok (by rw [patch_length (by omega)]; omega), ok_bind, joined (by omega),
        patch_zero, length_append, append_assoc]
    · rw [store_eq_error (by rw [patch_length (by omega)]; omega), error_bind]
  · rw [store_eq_error (by omega), error_bind, if_neg (by omega)]

/-! ## Reading fields -/

section Fields

variable {front rest : List UInt8} {size offset : Nat}

@[simp]
theorem bytesAt_append (skipped : front.length ≤ offset) :
    bytesAt (front ++ rest) offset size = bytesAt rest (offset - front.length) size := by
  have same : offset + size ≤ front.length + rest.length ↔
      offset - front.length + size ≤ rest.length := by omega
  simp only [bytesAt, length_append, same, drop_append, drop_eq_nil_of_le skipped, nil_append]

variable (byte : UInt8)

@[simp]
theorem bytesAt_cons : bytesAt (byte :: rest) (offset + 1) size = bytesAt rest offset size :=
  @bytesAt_append [byte] rest size (offset + 1) (Nat.le_add_left 1 offset)

@[simp]
theorem bytesAt_bytes (field : Bytes size) : bytesAt (field.bytes ++ rest) 0 size = .ok field := by
  obtain ⟨bytes, rfl⟩ := field
  simp [bytesAt]

@[simp]
theorem numberAt_append (skipped : front.length ≤ offset) :
    numberAt (front ++ rest) offset size = numberAt rest (offset - front.length) size := by
  rw [numberAt, bytesAt_append skipped, numberAt]

@[simp]
theorem numberAt_cons : numberAt (byte :: rest) (offset + 1) size = numberAt rest offset size := by
  rw [numberAt, bytesAt_cons, numberAt]

@[simp]
theorem numberAt_encode (value : Nat) :
    numberAt (BigEndian.encode size value ++ rest) 0 size = .ok (value % 256 ^ size) := by
  have read := @bytesAt_bytes rest size ⟨_, BigEndian.encode_length size value⟩
  rw [numberAt, read, ok_bind, BigEndian.decode_encode_mod]
  rfl

@[simp]
theorem byteAt_append (skipped : front.length ≤ offset) :
    byteAt (front ++ rest) offset = byteAt rest (offset - front.length) := by
  rw [byteAt, byteAt, getElem?_append_right skipped]

@[simp]
theorem byteAt_zero : byteAt (byte :: rest) 0 = .ok byte := rfl

@[simp]
theorem byteAt_cons : byteAt (byte :: rest) (offset + 1) = byteAt rest offset := rfl

end Fields

/-! ## Decoding what was written -/

theorem decodeIp4Packet_header
    {totalLength : Nat} {checksum rest : List UInt8} {sourceIp destIp : Bytes 4}
    (two : checksum.length = 2) :
    decodeIp4Packet (ip4Header totalLength checksum sourceIp destIp ++ rest) =
      .ok ⟨.ipv4 sourceIp, .ipv4 destIp, protocolUdp, 20,
        sub32 (totalLength % 2 ^ 16) 20, totalLength % 2 ^ 16, false, 0, 0, none,
        true, false⟩ := by
  have length := @ip4Header_length totalLength checksum sourceIp destIp two
  have zeros : ([0, 0, 0, 0, 0xff] : List UInt8) =
    BigEndian.encode 2 0 ++ (BigEndian.encode 2 0 ++ [0xff]) := rfl
  rw [decodeIp4Packet, if_neg (by
    rw [length_append, length]
    exact not_lt.mpr (Nat.le_add_right 20 _))]
  simp [ip4Header, zeros, two, sourceIp.length_eq, ip4HeaderSize]

section Ip6

variable {sourceIp6 destIp6 : Bytes 16} {payloadLen : Nat}
  {nextHeaderProto : UInt8} {rest : List UInt8}

theorem decodeIp6Packet_header (fuel : Nat) : decodeIp6Packet fuel
        (ip6Header payloadLen nextHeaderProto sourceIp6 destIp6 ++ rest) =
      (findIp6Payload fuel (ip6Header payloadLen nextHeaderProto sourceIp6 destIp6 ++ rest)
        (payloadLen % 2 ^ 16) (ip6Info sourceIp6 destIp6) >>= fun info =>
          .ok info.setPacketLength) := by
  have length := ip6Header_length payloadLen nextHeaderProto sourceIp6 destIp6
  rw [decodeIp6Packet, if_neg (by
    rw [length_append, length]
    exact not_lt.mpr (Nat.le_add_right 40 _))]
  simp [ip6Header, sourceIp6.length_eq]

theorem ip6Header_protocol :
    byteAt (ip6Header payloadLen nextHeaderProto sourceIp6 destIp6 ++ rest) 6 =
      .ok nextHeaderProto := by
  simp [ip6Header]

variable {info : IPInfo}

theorem scanOption_jumbo {front : List UInt8} {ipPayloadSize : Nat}
    (before : front.length = 40) (unfound : info.foundJumboLength = false) :
    scanOption (front ++ (jumboHeader ipPayloadSize ++ rest)) 40 8 (42, info) =
      .ok (.inr (true, { info with
        foundJumboLength := true, payloadLength := ipPayloadSize % 2 ^ 32 })) := by
  generalize made : front ++ (jumboHeader ipPayloadSize ++ rest) = packet
  have long : 48 ≤ packet.length := by
    rw [← made, length_append, length_append, before, jumboHeader_length]
    omega
  have type : byteAt packet 42 = .ok ip6OptionTypeJumbogram := by
    simp [← made, before, jumboHeader]
  have length : byteAt packet 43 = .ok 4 := by
    simp [← made, before, jumboHeader]
  have number : numberAt packet (42 + 2) 4 = .ok (ipPayloadSize % 2 ^ 32) := by
    simp [← made, before, jumboHeader]
  have header : optionHeaderFailure packet 40 8 42 = none := by
    rw [optionHeaderFailure, if_neg (by unfold add32; omega), if_neg (by decide)]
  have passes : optionFailure packet 40 8 42 info ip6OptionTypeJumbogram 4 = none := by
    rw [optionFailure, if_neg (by
      have sum : add32 (add32 42 2) (4 : UInt8).toNat = 48 := by decide
      omega), if_neg (by decide), if_neg (by simp), if_neg (by simp [unfound])]
  rw [scanOption]
  dsimp only
  rw [header, type, ok_bind, length, ok_bind, passes]
  rw [readJumbo, if_pos rfl, number, ok_bind, pure_eq_ok, ok_bind, finishOption,
    if_neg (by decide), if_pos (by decide)]

theorem findIp6Payload_jumbo {ipPayloadSize : Nat} (unfound : info.foundJumboLength = false)
    (small : (ip6Header 0 ipProtoOptionHeader sourceIp6 destIp6 ++
      (jumboHeader ipPayloadSize ++ rest)).length < 2 ^ 32) :
    findIp6Payload 2 (ip6Header 0 ipProtoOptionHeader sourceIp6 destIp6 ++
        (jumboHeader ipPayloadSize ++ rest)) 0 info =
      .ok { info with
        foundJumboLength := true
        payloadLength := ipPayloadSize % 2 ^ 32
        layer4Protocol := protocolUdp
        payloadOffset := 48
        packetValid := true } := by
  have before := ip6Header_length 0 ipProtoOptionHeader sourceIp6 destIp6
  have first := @ip6Header_protocol sourceIp6 destIp6 0 ipProtoOptionHeader
    (jumboHeader ipPayloadSize ++ rest)
  generalize ip6Header 0 ipProtoOptionHeader sourceIp6 destIp6 = front at *
  have option := @scanOption_jumbo rest info front ipPayloadSize before unfound
  generalize made : front ++ (jumboHeader ipPayloadSize ++ rest) = packet at *
  have long : 48 ≤ packet.length := by
    rw [← made, length_append, length_append, before, jumboHeader_length]
    omega
  have proto : byteAt packet 40 = .ok protocolUdp := by
    simp [← made, before, jumboHeader]
  have headerLen : byteAt packet (40 + 1) = .ok 0 := by
    simp [← made, before, jumboHeader]
  have options : scanOptions packet 40 (add32 40 2) 8 info = .ok (true, { info with
      foundJumboLength := true, payloadLength := ipPayloadSize % 2 ^ 32 }) :=
    Loop.run_leave option
  have round := @scanExtHeader_extension packet ⟨6, 40, info⟩ small (byteAt_eq_ok_iff.mp first)
  dsimp only at round
  have eight : ((0 : UInt8).toNat + 1) * 8 = 8 := rfl
  rw [headerLen, ok_bind, eight, if_neg (by unfold add32; omega), options, ok_bind] at round
  have last := @scanExtHeader_payload packet ⟨40, 48, { info with
      foundJumboLength := true, payloadLength := ipPayloadSize % 2 ^ 32 }⟩
    small protocolUdp (byteAt_eq_ok_iff.mp proto) (by decide)
  exact (Loop.run_next round).trans (Loop.run_leave last)

end Ip6

/-! ## The codec -/

/-- The decoded record describes the packet that was asked for. -/
structure Reports (length payloadSize pointer : Nat) (source dest : XIPAddr)
    (info : IPInfo) : Prop where
  valid : info.packetValid = true
  protocol : info.layer4Protocol = protocolUdp
  source : info.source = source
  dest : info.dest = dest
  packetLength : info.packetLength = length
  payloadLength : info.payloadLength = udpHeaderSize + payloadSize
  payloadOffset : info.payloadOffset + udpHeaderSize = pointer

/-- Unless a capacity assertion fails, the packet that is created is decoded
to what was asked for. -/
def RoundTrips (buffer : List UInt8) (length payloadSize : Nat)
    (sourceEp destEp : UDPEndpoint) : Prop :=
  createUdpPacketBuf buffer sourceEp destEp payloadSize = .error .assertion ∨
    ∃ packet pointer, createUdpPacketBuf buffer sourceEp destEp payloadSize =
        .ok (packet, pointer) ∧
      ∃ fuel info, decodeIpPacket fuel packet = .ok info ∧
        Reports length payloadSize pointer sourceEp.ipaddr destEp.ipaddr info

/-- The payload sizes that the layouts can express. -/
def Expressible (version : XIPVer) (payloadSize : Nat) : Prop :=
  match version with
  | .ipv4 => payloadSize + 28 < 2 ^ 16
  | .ipv6 => payloadSize + 56 < 2 ^ 32 ∨ 2 ^ 32 ≤ payloadSize + 8
  | .ipvErr => True

/-- A record that describes the packet passes the assertions of the decoder. -/
theorem decodes_of_version {fuel length payloadSize pointer : Nat} {packet : List UInt8}
    {source dest : XIPAddr} {info : IPInfo}
    (decoded : decodeVersion fuel packet = .ok info)
    (unfailed : info.failure = none) (behind : 0 < info.payloadOffset)
    (reports : Reports length payloadSize pointer source dest info) :
    ∃ fuel info, decodeIpPacket fuel packet = .ok info ∧
      Reports length payloadSize pointer source dest info := by
  have long : 0 < info.payloadLength := by
    rw [reports.payloadLength, udpHeaderSize]
    omega
  have protocol : info.layer4Protocol ≠ 0 := by
    rw [reports.protocol]
    decide
  refine ⟨fuel, info, ?_, reports⟩
  rw [decodeIpPacket, decoded, ok_bind, checkInfo, if_pos reports.valid,
    ensure_true unfailed, ensure_true long, ensure_true protocol,
    ensure_true behind]
  rfl

theorem not_roundTrips_of_overrun {length payloadSize : Nat} {sourceEp destEp : UDPEndpoint}
    (overrun : createUdpPacketBuf buffer sourceEp destEp payloadSize = .error .outOfBounds) :
    ¬RoundTrips buffer length payloadSize sourceEp destEp := by
  rw [RoundTrips, overrun]
  rintro (asserted | ⟨packet, pointer, made, -⟩)
  · cases asserted
  · cases made

section V4

variable {buffer : List UInt8} {payloadSize : Nat} {sourceIp destIp : Bytes 4}
  {sourcePort destPort : Bytes 2}

theorem createUdpPacketBuf_v4 (length : buffer.length = add32 20 (add32 8 payloadSize)) :
    createUdpPacketBuf buffer ⟨.ipv4 sourceIp, sourcePort⟩ ⟨.ipv4 destIp, destPort⟩ payloadSize =
      if 28 ≤ buffer.length then
        .ok (ip4Header buffer.length [UInt8.ofNat (ipChecksum
              (ip4Header buffer.length [0, 0] sourceIp destIp)),
             UInt8.ofNat (ipChecksum (ip4Header buffer.length [0, 0] sourceIp destIp) / 256)]
            sourceIp destIp ++
          (udpHeader ⟨.ipv4 sourceIp, sourcePort⟩ ⟨.ipv4 destIp, destPort⟩
            (8 + payloadSize) ++ buffer.drop 28), 28)
      else
        .error .outOfBounds := by
  have total : udpPacketLength .ipv4 payloadSize = .ok buffer.length := by
    rw [length]
    rfl
  simp only [createUdpPacketBuf, XIPAddr.version, total, ok_bind,
    ensure_true (le_refl buffer.length), createUdpPacketBufV4, getIp4]
  generalize UInt8.ofNat (ipChecksum _) = low
  generalize UInt8.ofNat (ipChecksum _ / 256) = high
  have first := @ip4Header_length buffer.length [low, high] sourceIp destIp rfl
  generalize ip4Header buffer.length [low, high] sourceIp destIp = header at *
  have size : ip4HeaderSize = header.length := first.symm
  rw [size, store_store, length_append, udpHeader_length, first]
  rfl

theorem roundTrips_v4_iff (small : payloadSize < 2 ^ 32)
    (length : buffer.length = add32 20 (add32 8 payloadSize)) :
    RoundTrips buffer buffer.length payloadSize ⟨.ipv4 sourceIp, sourcePort⟩
        ⟨.ipv4 destIp, destPort⟩ ↔
      payloadSize + 28 < 2 ^ 16 := by
  have created := @createUdpPacketBuf_v4 buffer payloadSize sourceIp destIp
    sourcePort destPort length
  by_cases fits : 28 ≤ buffer.length
  · rw [RoundTrips, created, if_pos fits]
    generalize ip4Header buffer.length [0, 0] sourceIp destIp = blank
    have decoded : ∀ fuel rest, decodeVersion fuel (ip4Header buffer.length
        [UInt8.ofNat (ipChecksum blank), UInt8.ofNat (ipChecksum blank / 256)]
        sourceIp destIp ++ rest) = .ok ⟨.ipv4 sourceIp, .ipv4 destIp, protocolUdp, 20,
            sub32 (buffer.length % 2 ^ 16) 20, buffer.length % 2 ^ 16, false, 0,
            0, none, true, false⟩ := fun fuel rest =>
      decodeIp4Packet_header rfl
    constructor
    · rintro (asserted | ⟨packet, pointer, made, fuel, info, read, reports⟩)
      · cases asserted
      · cases made
        rw [decodeIpPacket, decoded, ok_bind, checkInfo, if_pos rfl] at read
        simp only [bind_eq_ok_iff, pure_eq_ok, Except.ok.injEq] at read
        obtain ⟨_, _, _, _, _, _, _, _, rfl⟩ := read
        have total := reports.packetLength
        dsimp only at total
        unfold add32 at length
        omega
    · intro expressible
      have plain : buffer.length = payloadSize + 28 := by
        unfold add32 at length
        omega
      refine .inr ⟨_, _, rfl, decodes_of_version (decoded 0 _) rfl
        (Nat.succ_pos 19) ⟨rfl, rfl, rfl, rfl, ?_, ?_, rfl⟩⟩
      · dsimp only
        omega
      · have size : udpHeaderSize = 8 := rfl
        dsimp only
        unfold sub32
        omega
  · rw [if_neg fits] at created
    refine iff_of_false (not_roundTrips_of_overrun created) fun expressible => ?_
    unfold add32 at length
    omega

end V4

section V6

variable {buffer : List UInt8} {payloadSize : Nat} {sourceIp6 destIp6 : Bytes 16}
  {sourcePort destPort : Bytes 2}

/-- The headers in front of the UDP header. -/
def ip6Headers (sourceIp6 destIp6 : Bytes 16) (ipPayloadSize : Nat) :
    List UInt8 :=
  if useJumbogram ipPayloadSize then
    ip6Header 0 ipProtoOptionHeader sourceIp6 destIp6 ++
      jumboHeader ipPayloadSize
  else
    ip6Header ipPayloadSize protocolUdp sourceIp6 destIp6

theorem ip6Headers_length (ipPayloadSize : Nat) :
    (ip6Headers sourceIp6 destIp6 ipPayloadSize).length =
      if useJumbogram ipPayloadSize then 48 else 40 := by
  rw [ip6Headers]
  by_cases jumbo : useJumbogram ipPayloadSize = true
  · rw [if_pos jumbo, if_pos jumbo, length_append, ip6Header_length, jumboHeader_length]
  · rw [if_neg jumbo, if_neg jumbo, ip6Header_length]

theorem createUdpPacketBuf_v6 (length : udpPacketLength .ipv6 payloadSize = .ok buffer.length) :
    createUdpPacketBuf buffer ⟨.ipv6 sourceIp6, sourcePort⟩
        ⟨.ipv6 destIp6, destPort⟩ payloadSize = (do
      let header := ip6Headers sourceIp6 destIp6 (add32 8 payloadSize)
      let after ← store buffer 0 header
      ensure (payloadSize ≤ sub32 buffer.length header.length) .assertion
      let after ← store after header.length (udpHeader
        ⟨.ipv6 sourceIp6, sourcePort⟩ ⟨.ipv6 destIp6, destPort⟩
        (if useJumbogram (add32 8 payloadSize) then 0 else 8 + payloadSize))
      return (after, header.length + 8)) := by
  simp only [createUdpPacketBuf, XIPAddr.version, length, ok_bind,
    ensure_true (le_refl buffer.length), createUdpPacketBufV6, getIp6]
  rfl

theorem createUdpPacketBuf_v6_ok (length : udpPacketLength .ipv6 payloadSize = .ok buffer.length)
    (fits : (ip6Headers sourceIp6 destIp6 (add32 8 payloadSize)).length + 8 ≤ buffer.length)
    (room : payloadSize ≤ sub32 buffer.length
      (ip6Headers sourceIp6 destIp6 (add32 8 payloadSize)).length) :
    ∃ rest, createUdpPacketBuf buffer ⟨.ipv6 sourceIp6, sourcePort⟩
        ⟨.ipv6 destIp6, destPort⟩ payloadSize =
      .ok (ip6Headers sourceIp6 destIp6 (add32 8 payloadSize) ++ rest,
        (ip6Headers sourceIp6 destIp6 (add32 8 payloadSize)).length + 8) ∧
      (ip6Headers sourceIp6 destIp6 (add32 8 payloadSize) ++ rest).length = buffer.length := by
  rw [createUdpPacketBuf_v6 length]
  generalize ip6Headers sourceIp6 destIp6 (add32 8 payloadSize) = header at *
  have second := udpHeader_length ⟨.ipv6 sourceIp6, sourcePort⟩ ⟨.ipv6 destIp6, destPort⟩
    (if useJumbogram (add32 8 payloadSize) then 0 else 8 + payloadSize)
  generalize udpHeader ⟨.ipv6 sourceIp6, sourcePort⟩ ⟨.ipv6 destIp6, destPort⟩ _ = udp at *
  refine ⟨udp ++ buffer.drop (header.length + udp.length), ?_, ?_⟩
  · simp only [ensure_true room, ok_bind, store_store]
    rw [if_pos (by rw [length_append]; omega)]
    rfl
  · simp only [length_append, length_drop]
    omega

theorem decodeVersion_v6 {rest : List UInt8} {ipPayloadSize : Nat} (positive : 0 < ipPayloadSize)
    (small : (ip6Headers sourceIp6 destIp6 ipPayloadSize ++ rest).length <
      2 ^ 32) (word : ipPayloadSize < 2 ^ 32) :
    ∃ info, decodeVersion 2 (ip6Headers sourceIp6 destIp6 ipPayloadSize ++ rest) =
        .ok info ∧ info.failure = none ∧ info.packetValid = true ∧
      info.layer4Protocol = protocolUdp ∧ info.source = .ipv6 sourceIp6 ∧
      info.dest = .ipv6 destIp6 ∧ info.payloadLength = ipPayloadSize ∧
      info.payloadOffset = (ip6Headers sourceIp6 destIp6 ipPayloadSize).length ∧
      info.packetLength = add32 info.payloadOffset info.payloadLength := by
  have length := @ip6Headers_length sourceIp6 destIp6 ipPayloadSize
  by_cases jumbo : useJumbogram ipPayloadSize = true
  · rw [if_pos jumbo] at length
    rw [length]
    rw [ip6Headers, if_pos jumbo] at small ⊢
    rw [append_assoc] at small ⊢
    have decoded := @decodeIp6Packet_header sourceIp6 destIp6 0
      ipProtoOptionHeader (jumboHeader ipPayloadSize ++ rest) 2
    rw [Nat.zero_mod, findIp6Payload_jumbo rfl small, ok_bind] at decoded
    exact ⟨_, decoded, rfl, rfl, rfl, rfl, rfl, Nat.mod_eq_of_lt word, rfl, rfl⟩
  · rw [if_neg jumbo] at length
    rw [length]
    rw [ip6Headers, if_neg jumbo]
    have plain : ipPayloadSize % 2 ^ 16 = ipPayloadSize := by
      refine Nat.mod_eq_of_lt ?_
      simpa [useJumbogram] using jumbo
    have decoded := @decodeIp6Packet_header sourceIp6 destIp6 ipPayloadSize protocolUdp rest 2
    rw [plain, findIp6Payload, if_pos positive, ip6Header_protocol, ok_bind] at decoded
    exact ⟨_, decoded, rfl, rfl, rfl, rfl, rfl, rfl, rfl, rfl⟩

theorem roundTrips_v6_iff (small : payloadSize < 2 ^ 32)
    (length : udpPacketLength .ipv6 payloadSize = .ok buffer.length) :
    RoundTrips buffer buffer.length payloadSize ⟨.ipv6 sourceIp6, sourcePort⟩
        ⟨.ipv6 destIp6, destPort⟩ ↔
      payloadSize + 56 < 2 ^ 32 ∨ 2 ^ 32 ≤ payloadSize + 8 := by
  have headers := @ip6Headers_length sourceIp6 destIp6 (add32 8 payloadSize)
  have total : buffer.length = add32 (ip6Headers sourceIp6 destIp6 (add32 8 payloadSize)).length
        (add32 8 payloadSize) := by
    rw [headers]
    exact (Except.ok.inj length).symm
  have kind : useJumbogram (add32 8 payloadSize) = true ↔
      65536 ≤ add32 8 payloadSize := by simp [useJumbogram]
  by_cases wraps : 2 ^ 32 ≤ payloadSize + 8
  · -- The size of the IP payload wraps, and the second assertion fails.
    refine ⟨fun _ => .inr wraps, fun _ => .inl ?_⟩
    have tiny : add32 8 payloadSize = payloadSize + 8 - 2 ^ 32 := by
      unfold add32
      omega
    rw [if_neg (by rw [kind]; omega)] at headers
    rw [createUdpPacketBuf_v6 length]
    generalize ip6Headers sourceIp6 destIp6 (add32 8 payloadSize) = header at *
    dsimp only
    rw [store_eq_ok (by unfold add32 at total; omega), ok_bind, ensure, if_neg (by
      rw [headers, total]
      unfold sub32 add32
      omega)]
    rfl
  · have size : add32 8 payloadSize = payloadSize + 8 := by
      unfold add32
      omega
    by_cases fits : payloadSize + 56 < 2 ^ 32
    · refine ⟨fun _ => .inl fits, fun _ => .inr ?_⟩
      have bound : (ip6Headers sourceIp6 destIp6 (add32 8 payloadSize)).length ≤ 48 := by
        rw [headers]
        split <;> omega
      have plain : buffer.length = (ip6Headers sourceIp6 destIp6
          (add32 8 payloadSize)).length + (payloadSize + 8) := by
        generalize (ip6Headers sourceIp6 destIp6 (add32 8 payloadSize)).length = front at *
        rw [total, size, add32]
        omega
      obtain ⟨rest, created, whole⟩ := @createUdpPacketBuf_v6_ok buffer
        payloadSize sourceIp6 destIp6 sourcePort destPort length (by omega)
        (by unfold sub32; omega)
      obtain ⟨info, decoded, unfailed, valid, protocol, source, dest, long,
        offset, sum⟩ := @decodeVersion_v6 sourceIp6 destIp6 rest
          (add32 8 payloadSize) (by omega) (by omega) (by omega)
      have positive : 0 < info.payloadOffset := by
        rw [offset, headers]
        split <;> omega
      refine ⟨_, _, created, decodes_of_version decoded unfailed positive
        ⟨valid, protocol, source, dest, ?_, ?_, ?_⟩⟩
      · rw [sum, offset, long, ← total]
      · rw [long, size, Nat.add_comm]
        rfl
      · rw [offset]
        rfl
    · -- The length of the packet wraps, and the headers do not fit.
      have jumbo : useJumbogram (add32 8 payloadSize) = true := by
        rw [kind]
        omega
      rw [if_pos jumbo] at headers
      have short : buffer.length < 48 := by
        rw [total, headers, size, add32]
        omega
      have overrun : createUdpPacketBuf buffer ⟨.ipv6 sourceIp6, sourcePort⟩
          ⟨.ipv6 destIp6, destPort⟩ payloadSize = .error .outOfBounds := by
        rw [createUdpPacketBuf_v6 length]
        dsimp only
        rw [store_eq_error (by omega)]
        rfl
      refine iff_of_false (not_roundTrips_of_overrun overrun) ?_
      rintro (inside | wrapped)
      · exact absurd inside fits
      · exact absurd wrapped wraps

end V6

/-- Packets in a buffer of their own length round-trip exactly for the payload
sizes that the layouts can express. -/
theorem udp_roundTrips_iff (version : XIPVer) (payloadSize : Nat) (buffer : List UInt8)
    (sourceEp destEp : UDPEndpoint) (small : payloadSize < 2 ^ 32)
    (length : udpPacketLength version payloadSize = .ok buffer.length)
    (source : sourceEp.ipaddr.version = version)
    (dest : destEp.ipaddr.version = version) :
    RoundTrips buffer buffer.length payloadSize sourceEp destEp ↔
      Expressible version payloadSize := by
  obtain ⟨sourceAddr, sourcePort⟩ := sourceEp
  obtain ⟨destAddr, destPort⟩ := destEp
  cases version with
  | ipvErr => cases length
  | ipv4 =>
    cases sourceAddr <;> cases source
    cases destAddr <;> cases dest
    exact roundTrips_v4_iff small (Except.ok.inj length).symm
  | ipv6 =>
    cases sourceAddr <;> cases source
    cases destAddr <;> cases dest
    exact roundTrips_v6_iff small length

/-- An endpoint at the address zero. -/
def UDPEndpoint.zero4 : UDPEndpoint :=
  ⟨.ipv4 ⟨[0, 0, 0, 0], rfl⟩, ⟨[0, 0], rfl⟩⟩

/-- An endpoint with an address of IPv6. -/
def UDPEndpoint.ofHost (host : UInt8) : UDPEndpoint :=
  ⟨.ipv6 ⟨List.replicate 15 0 ++ [host], rfl⟩, ⟨[19, host], rfl⟩⟩

/-- A jumbogram round-trips. -/
theorem udp_roundTrips_jumbogram :
    RoundTrips (List.replicate 70056 0) 70056 70000 (.ofHost 1) (.ofHost 2) := by
  have length : (List.replicate 70056 (0 : UInt8)).length = 70056 := length_replicate
  have trip := udp_roundTrips_iff .ipv6 70000 (List.replicate 70056 0) (.ofHost 1) (.ofHost 2)
    (by decide) (length.symm ▸ rfl) rfl rfl
  rw [length] at trip
  exact trip.mpr (.inl (by decide))

/-- An IPv4 packet of `2 ^ 16` bytes is announced with length zero. -/
theorem udp_length_truncated : udpPacketLength .ipv4 65508 = .ok 65536 ∧
      ¬RoundTrips (List.replicate 65536 0) 65536 65508 .zero4 .zero4 := by
  refine ⟨by decide, ?_⟩
  have length : (List.replicate 65536 (0 : UInt8)).length =
      add32 20 (add32 8 65508) := length_replicate
  have trip := @roundTrips_v4_iff (List.replicate 65536 0) 65508
    ⟨[0, 0, 0, 0], rfl⟩ ⟨[0, 0, 0, 0], rfl⟩ ⟨[0, 0], rfl⟩ ⟨[0, 0], rfl⟩
    (by decide) length
  rw [length_replicate] at trip
  intro fine
  exact absurd (trip.mp fine) (by decide)

end Embassies.Network
