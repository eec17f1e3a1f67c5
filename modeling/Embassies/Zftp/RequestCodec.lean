import Embassies.Zftp.Request
import Mathlib.Data.UInt

/-!
# Bounds and round trips of requests

The parser must accept only requests whose locations and hint lie inside the
received bytes, and it must recover what `OutboundRequest` was given.  Both
sides compute the size of a request modulo `2 ^ 32`, and both go right exactly
when that size does not wrap around.
-/

namespace Embassies.Zftp

open Library Library.Buffer Library.Checked List OutboundRequest

/-- The size of a request before it is taken modulo `2 ^ 32`. -/
def requestExtent (numTreeLocations urlHintLen : Nat) : Nat :=
  requestPacketSize + 4 * numTreeLocations + urlHintLen

theorem requestSize_eq {numTreeLocations urlHintLen : Nat}
    (fits : requestExtent numTreeLocations urlHintLen < 2 ^ 32) :
    requestSize numTreeLocations urlHintLen = requestExtent numTreeLocations urlHintLen :=
  Nat.mod_eq_of_lt fits

theorem treeLocationOffset_eq {idx : Nat} (fits : requestPacketSize + 4 * idx < 2 ^ 32) :
    treeLocationOffset idx = requestPacketSize + 4 * idx :=
  Nat.mod_eq_of_lt fits

theorem treeLocationOffset_ofNat (count : Nat) :
    treeLocationOffset (UInt32.ofNat count).toNat = treeLocationOffset count := by
  rw [treeLocationOffset, treeLocationOffset, UInt32.toNat_ofNat']
  omega

theorem extent_lt_of_inside {count urlHintLen size : Nat} (bounded : size < 2 ^ 32)
    (locations : ∀ idx < count, treeLocationOffset idx + 4 ≤ size)
    (hint : ∀ place < urlHintLen, (treeLocationOffset count + place) % 2 ^ 32 < size) :
    requestExtent count urlHintLen < 2 ^ 32 := by
  by_contra wraps
  have header : requestPacketSize = 48 := rfl
  rw [requestExtent] at wraps
  by_cases many : 2 ^ 32 ≤ requestPacketSize + 4 * count
  · -- One of the locations would end at the end of the address space.
    have last := locations (2 ^ 30 - 13) (by omega)
    have ends : treeLocationOffset (2 ^ 30 - 13) + 4 = 2 ^ 32 := by decide
    omega
  · -- The hint would cross the end of the address space.
    rw [Nat.not_le] at many
    have place := hint (2 ^ 32 - 1 - (requestPacketSize + 4 * count)) (by omega)
    rw [treeLocationOffset_eq many, Nat.add_sub_cancel' (by omega),
      Nat.mod_eq_of_lt (by omega)] at place
    omega

namespace ZFileRequest

/-- All locations and the whole hint lie inside the received bytes. -/
def Inside (request : ZFileRequest) : Prop :=
  (∀ idx < request.getNumTreeLocations,
    treeLocationOffset idx + 4 ≤ request.bytes.length) ∧
  ∀ place < request.zrp.urlHintLen.toNat,
    (treeLocationOffset request.getNumTreeLocations + place) % 2 ^ 32 <
      request.bytes.length

variable {bytes : List UInt8} {request : ZFileRequest}

theorem parseUrlHint_eq_some {zrp : ZFTPRequestPacket}
    (parsed : parseUrlHint bytes zrp = .ok (some request)) :
    request.bytes = bytes ∧ request.zrp = zrp := by
  rw [parseUrlHint] at parsed
  split at parsed
  · cases parsed
    exact ⟨rfl, rfl⟩
  · dsimp only at parsed
    split at parsed
    · cases parsed
    · split at parsed
      · cases parsed
        exact ⟨rfl, rfl⟩
      · cases parsed

theorem parse_eq_some {chatty : Bool} (parsed : parse chatty bytes = .ok (some request)) :
    request.bytes = bytes ∧ requestSize request.getNumTreeLocations request.zrp.urlHintLen.toNat ≤
        bytes.length ∧
      request.zrp.hashLen.toNat = Hash.format.size := by
  rw [parse] at parsed
  split at parsed
  · cases parsed
  · rename_i wellFormed
    obtain ⟨hinted, hint, finished⟩ := of_bind parsed
    cases hinted with
    | none => cases finished
    | some accepted =>
      obtain ⟨_, -, returned⟩ := of_bind finished
      cases returned
      obtain ⟨same, header⟩ := parseUrlHint_eq_some hint
      refine ⟨same, ?_, ?_⟩
      · rw [getNumTreeLocations, header]
        exact Nat.le_of_not_lt fun short => wellFormed (.inr (.inr short))
      · rw [header]
        exact Decidable.byContradiction fun other => wellFormed (.inr (.inl other))

/-- Among the accepted requests, those that lie inside the received bytes are
those whose size does not wrap around. -/
theorem inside_iff {chatty : Bool} (bounded : bytes.length < 2 ^ 32)
    (parsed : parse chatty bytes = .ok (some request)) :
    request.Inside ↔ requestExtent request.getNumTreeLocations request.zrp.urlHintLen.toNat <
        2 ^ 32 := by
  obtain ⟨same, size, -⟩ := parse_eq_some parsed
  rw [Inside, same]
  constructor
  · rintro ⟨locations, hint⟩
    exact extent_lt_of_inside bounded locations hint
  · intro fits
    rw [requestSize_eq fits] at size
    rw [requestExtent] at fits size
    refine ⟨?_, ?_⟩
    · intro idx before
      rw [treeLocationOffset_eq (by omega)]
      omega
    · intro place before
      rw [treeLocationOffset_eq (by omega), Nat.mod_eq_of_lt (by omega)]
      omega

end ZFileRequest

/-! ## What is built -/

namespace OutboundRequest

/-- The locations as they stand in a request. -/
def locationBytes (locations : List UInt32) : List UInt8 :=
  locations.flatMap Format.uint32.encode

theorem locationBytes_cons (location : UInt32) (rest : List UInt32) :
    locationBytes (location :: rest) = Format.uint32.encode location ++ locationBytes rest := rfl

theorem locationBytes_length (locations : List UInt32) :
    (locationBytes locations).length = 4 * locations.length := by
  induction locations with
  | nil => rfl
  | cons location rest induction =>
    have width : (Format.uint32.encode location).length = 4 := Format.uint32.encode_length location
    rw [locationBytes_cons, length_append, width, induction, length_cons]
    omega

variable {idx : Nat} {locations : List UInt32}

theorem setLocations_eq {front room back : List UInt8} {remaining : UInt32}
    (before : front.length = requestPacketSize + 4 * idx)
    (size : room.length = 4 * locations.length)
    (fits : requestPacketSize + 4 * (idx + locations.length) < 2 ^ 32) :
    setLocations ⟨front ++ (room ++ back), remaining⟩ idx locations =
      .ok ⟨front ++ (locationBytes locations ++ back),
        remaining - UInt32.ofNat locations.length⟩ := by
  induction locations generalizing front room remaining idx with
  | nil =>
    rw [length_eq_zero_iff.mp size]
    simp [setLocations, locationBytes]
  | cons location rest induction =>
    rw [length_cons] at size fits
    have width : (Format.uint32.encode location).length = 4 := Format.uint32.encode_length location
    have wrote : setLocation ⟨front ++ (room ++ back), remaining⟩ idx location =
        .ok ⟨(front ++ Format.uint32.encode location) ++ (room.drop 4 ++ back), remaining - 1⟩ := by
      have apart : front ++ (room ++ back) = front ++ (room.take 4 ++ (room.drop 4 ++ back)) := by
        rw [← append_assoc (room.take 4), take_append_drop]
      rw [setLocation, apart, write_middle (before.trans (treeLocationOffset_eq (by omega)).symm)
        (by rw [length_take, width]; omega), ok_bind, append_assoc]
      rfl
    rw [setLocations, wrote, ok_bind, induction (by rw [length_append, width, before]; omega)
      (by rw [length_drop, size]; omega) (by omega)]
    congr 2
    · rw [locationBytes_cons, append_assoc, append_assoc]
    · rw [length_cons, UInt32.ofNat_add]
      grind

/-- The bytes of a whole request. -/
def requestBytes (context : CompressionContext) (fileHash : Hash)
    (urlHint : Option CString) (locations : List UInt32)
    (paddingRequest : UInt32) (dataRange : DataRange) : List UInt8 :=
  ZFTPRequestPacket.format.encode (requestPacketInit context fileHash urlHint
    (UInt32.ofNat locations.length) paddingRequest dataRange) ++
      (locationBytes locations ++ hintBytes urlHint)

theorem mfMalloc_length (uninitialized : Nat → UInt8) (len : Nat) :
    (mfMalloc uninitialized len).length = len := by
  rw [mfMalloc, length_map, length_range]

theorem writeHint_eq {front room : List UInt8} {numTreeLocations : UInt32}
    {urlHint : Option CString}
    (before : front.length = treeLocationOffset numTreeLocations.toNat)
    (size : room.length = (hintBytes urlHint).length) :
    writeHint (front ++ room) numTreeLocations urlHint = .ok (front ++ hintBytes urlHint) := by
  cases urlHint with
  | none => rw [writeHint, length_eq_zero_iff.mp size, hintBytes]
  | some hint =>
    have wrote := @write_middle _ _ Fault.outOfBounds front room []
      (hintBytes (some hint)) _ before size.symm
    rwa [append_nil, append_nil] at wrote

theorem read_locationBytes {back : List UInt8} {location : UInt32}
    (found : locations[idx]? = some location) :
    Format.uint32.read ((locationBytes locations ++ back).drop (4 * idx)) = location := by
  induction locations generalizing idx with
  | nil => cases found
  | cons first rest induction =>
    rw [locationBytes_cons, append_assoc]
    cases idx with
    | zero =>
      cases found
      rw [Nat.mul_zero, drop_zero, Format.read_append]
    | succ idx =>
      exact induction found

/-! ## What cannot be built -/

theorem setLocations_fits {request final : OutboundRequest}
    (set : setLocations request idx locations = .ok final) :
    ∀ later < locations.length, treeLocationOffset (idx + later) + 4 ≤ request.bytes.length := by
  induction locations generalizing request idx with
  | nil => exact fun later before => absurd before (Nat.not_lt_zero later)
  | cons location rest induction =>
    rw [setLocations, bind_eq_ok_iff] at set
    obtain ⟨next, first, rest⟩ := set
    rw [setLocation, bind_eq_ok_iff] at first
    obtain ⟨bytes, wrote, returned⟩ := first
    obtain ⟨fits, rfl⟩ := write_eq_ok_iff.mp wrote
    cases returned
    have width : (Format.uint32.encode location).length = 4 := Format.uint32.encode_length location
    intro later before
    cases later with
    | zero => rwa [width] at fits
    | succ later =>
      have inside := induction rest later (Nat.lt_of_succ_lt_succ before)
      rw [patch_length fits] at inside
      rwa [Nat.add_right_comm] at inside

theorem writeHint_fits {bytes after : List UInt8} {numTreeLocations : UInt32}
    {urlHint : Option CString}
    (wrote : writeHint bytes numTreeLocations urlHint = .ok after) :
    after.length = bytes.length ∧ (hintBytes urlHint ≠ [] →
        treeLocationOffset numTreeLocations.toNat + (hintBytes urlHint).length ≤ bytes.length) := by
  cases urlHint with
  | none =>
    cases wrote
    exact ⟨rfl, fun present => absurd rfl present⟩
  | some hint =>
    obtain ⟨fits, rfl⟩ := write_eq_ok_iff.mp wrote
    exact ⟨patch_length fits, fun _ => fits⟩

end OutboundRequest

/-! ## Round trips -/

namespace ZFileRequest

theorem cString_append {text rest : List UInt8} (noNull : 0 ∉ text) :
    cString (text ++ 0 :: rest) = .ok text := by
  induction text with
  | nil => rfl
  | cons byte text induction =>
    rw [mem_cons, not_or] at noNull
    rw [cons_append, cString, if_neg (Ne.symm noNull.1), induction noNull.2]
    rfl

end ZFileRequest

/-- What a client asks for. -/
structure Wish where
  context : CompressionContext
  fileHash : Hash
  urlHint : Option CString
  locations : List UInt32
  paddingRequest : UInt32
  dataRange : DataRange

namespace Wish

/-- The bytes that are built. -/
def build (wish : Wish) (uninitialized : Nat → UInt8) :
    Except Fault (List UInt8) :=
  OutboundRequest.build uninitialized wish.context wish.fileHash wish.urlHint
    wish.locations wish.paddingRequest wish.dataRange

/-- The length of the hint with its last byte. -/
def urlHintLen (wish : Wish) : Nat :=
  (OutboundRequest.hintBytes wish.urlHint).length

/-- The size of the request before it is taken modulo `2 ^ 32`. -/
def extent (wish : Wish) : Nat :=
  requestExtent wish.locations.length wish.urlHintLen

/-- The header of the request. -/
abbrev packet (wish : Wish) : ZFTPRequestPacket :=
  requestPacketInit wish.context wish.fileHash wish.urlHint
    (UInt32.ofNat wish.locations.length) wish.paddingRequest wish.dataRange

/-- A request has everything that was asked for. -/
structure Recovered (wish : Wish) (request : ZFileRequest) : Prop where
  fileHash : request.zrp.fileHash = wish.fileHash
  numTreeLocations : request.getNumTreeLocations = wish.locations.length
  treeLocation : ∀ idx location, wish.locations[idx]? = some location →
    request.getTreeLocation idx = .ok location
  paddingRequest : request.zrp.paddingRequest = wish.paddingRequest
  compressionContext : request.zrp.compressionContext = wish.context
  dataRange : request.getDataRange = wish.dataRange
  urlHint : request.urlHintText = .ok (wish.urlHint.map CString.text)

/-- The parser accepts what is built and recovers everything. -/
def RoundTrips (wish : Wish) (uninitialized : Nat → UInt8) (chatty : Bool) : Prop :=
  ∃ bytes request, wish.build uninitialized = .ok bytes ∧
    ZFileRequest.parse chatty bytes = .ok (some request) ∧ wish.Recovered request

/-- The request as the parser finds it. -/
def request (wish : Wish) : ZFileRequest where
  bytes := OutboundRequest.requestBytes wish.context wish.fileHash wish.urlHint
    wish.locations wish.paddingRequest wish.dataRange
  zrp := OutboundRequest.requestPacketInit wish.context wish.fileHash wish.urlHint
    (UInt32.ofNat wish.locations.length) wish.paddingRequest wish.dataRange
  urlHint := wish.urlHint.map fun _ =>
    requestPacketSize + 4 * wish.locations.length

theorem packet_length (wish : Wish) :
    (ZFTPRequestPacket.format.encode wish.packet).length = requestPacketSize :=
  ZFTPRequestPacket.format.encode_length _

theorem request_drop (wish : Wish) : wish.request.bytes.drop requestPacketSize =
      locationBytes wish.locations ++ hintBytes wish.urlHint :=
  drop_left' wish.packet_length

theorem request_drop_hint (wish : Wish) :
    wish.request.bytes.drop (requestPacketSize + 4 * wish.locations.length) =
      hintBytes wish.urlHint := by
  rw [← drop_drop, request_drop, drop_left' (locationBytes_length _)]

theorem request_length (wish : Wish) : wish.request.bytes.length = wish.extent := by
  rw [request, requestBytes, length_append, packet_length, length_append, locationBytes_length,
    ← Nat.add_assoc]
  rfl

theorem build_fits {wish : Wish} {uninitialized : Nat → UInt8} {bytes : List UInt8}
    (built : wish.build uninitialized = .ok bytes) : wish.extent < 2 ^ 32 := by
  rw [build, OutboundRequest.build, bind_eq_ok_iff] at built
  obtain ⟨made, created, built⟩ := built
  obtain ⟨filled, set, -⟩ := of_bind built
  rw [new, bind_eq_ok_iff] at created
  obtain ⟨headed, header, created⟩ := created
  obtain ⟨hinted, hint, returned⟩ := of_bind created
  cases returned
  obtain ⟨room, rfl⟩ := write_eq_ok_iff.mp header
  obtain ⟨same, behind⟩ := writeHint_fits hint
  have locationsFit := setLocations_fits set
  rw [same, patch_length room, mfMalloc_length] at locationsFit
  rw [patch_length room, mfMalloc_length, treeLocationOffset_ofNat] at behind
  simp only [Nat.zero_add] at locationsFit
  refine extent_lt_of_inside (Nat.mod_lt _ (by decide)) locationsFit fun place before => ?_
  have inside := behind (ne_nil_of_length_pos (Nat.zero_lt_of_lt before))
  exact (Nat.mod_le _ _).trans_lt ((Nat.add_lt_add_left before _).trans_le inside)

section Fits

variable {wish : Wish} (fits : wish.extent < 2 ^ 32)
include fits

theorem request_count : wish.request.getNumTreeLocations = wish.locations.length := by
  have bound : UInt32.size = 2 ^ 32 := rfl
  rw [extent, requestExtent] at fits
  exact UInt32.toNat_ofNat_of_lt' (by omega)

theorem new_eq {uninitialized : Nat → UInt8} :
    ∃ room : List UInt8, room.length = 4 * wish.locations.length ∧
      new uninitialized wish.context wish.fileHash wish.urlHint
          (UInt32.ofNat wish.locations.length) wish.paddingRequest wish.dataRange =
        .ok ⟨ZFTPRequestPacket.format.encode wish.packet ++ (room ++ hintBytes wish.urlHint),
          UInt32.ofNat wish.locations.length⟩ := by
  have count : (UInt32.ofNat wish.locations.length).toNat = wish.locations.length :=
    request_count fits
  have header := wish.packet_length
  have length := mfMalloc_length uninitialized wish.extent
  rw [extent, urlHintLen] at fits length
  rw [new, count, requestSize_eq fits]
  generalize mfMalloc uninitialized (requestExtent wish.locations.length
    (hintBytes wish.urlHint).length) = memory at length
  generalize ZFTPRequestPacket.format.encode wish.packet = packet at header
  rw [requestExtent] at fits length
  -- The memory has room for the header, the locations and the hint.
  obtain ⟨first, room, last, rfl, firstSize, roomSize, lastSize⟩ :
      ∃ first room last, memory = first ++ (room ++ last) ∧ first.length = requestPacketSize ∧
        room.length = 4 * wish.locations.length ∧
        last.length = (hintBytes wish.urlHint).length := by
    refine ⟨memory.take requestPacketSize,
      (memory.drop requestPacketSize).take (4 * wish.locations.length),
      (memory.drop requestPacketSize).drop (4 * wish.locations.length), ?_, ?_, ?_, ?_⟩
    · rw [take_append_drop, take_append_drop]
    · rw [length_take]
      omega
    · rw [length_take, length_drop]
      omega
    · rw [length_drop, length_drop]
      omega
  refine ⟨room, roomSize, ?_⟩
  have wrote := @write_middle _ _ Fault.outOfBounds [] first (room ++ last) packet 0
    rfl (header.trans firstSize.symm)
  rw [nil_append, nil_append] at wrote
  rw [wrote, ok_bind, ← append_assoc, writeHint_eq ?_ lastSize, ok_bind, append_assoc]
  · rfl
  · rw [length_append, header, roomSize, count, treeLocationOffset_eq (by omega)]

theorem build_eq {uninitialized : Nat → UInt8} :
    wish.build uninitialized = .ok wish.request.bytes := by
  obtain ⟨room, size, made⟩ := @new_eq wish fits uninitialized
  rw [extent, requestExtent] at fits
  rw [build, OutboundRequest.build, made, ok_bind,
    setLocations_eq wish.packet_length size (by omega), ok_bind, getZrp,
    ensure_true (UInt32.sub_self (a := UInt32.ofNat wish.locations.length))]
  rfl

theorem request_recovered : wish.Recovered wish.request where
  fileHash := rfl
  numTreeLocations := request_count fits
  treeLocation := by
    intro idx location found
    have before := (List.getElem?_eq_some_iff.mp found).1
    have size := wish.request_length
    have extent := fits
    rw [Wish.extent, requestExtent] at size extent
    rw [ZFileRequest.getTreeLocation, treeLocationOffset_eq (by omega),
      if_pos (by omega), ← drop_drop, request_drop,
      read_locationBytes found]
  paddingRequest := rfl
  compressionContext := rfl
  dataRange := rfl
  urlHint := by
    have behind := wish.request_drop_hint
    cases hint : wish.urlHint with
    | none =>
      have absent : wish.request.urlHint = none := by rw [request, hint]; rfl
      rw [ZFileRequest.urlHintText, absent]
      rfl
    | some text =>
      have present : wish.request.urlHint =
          some (requestPacketSize + 4 * wish.locations.length) := by
        rw [request, hint]
        rfl
      rw [ZFileRequest.urlHintText, present]
      dsimp only
      rw [behind, hint, hintBytes, ZFileRequest.cString_append text.noNull]
      rfl

theorem parseUrlHint_request (short : wish.urlHintLen < 2 ^ 16) :
    ZFileRequest.parseUrlHint wish.request.bytes wish.request.zrp = .ok (some wish.request) := by
  have count := request_count fits
  have behind := wish.request_drop_hint
  have width : wish.request.zrp.urlHintLen.toNat = wish.urlHintLen :=
    UInt16.toNat_ofNat_of_lt' short
  rw [Wish.extent, requestExtent] at fits
  rw [ZFileRequest.getNumTreeLocations] at count
  cases hint : wish.urlHint with
  | none =>
    have zero : wish.request.zrp.urlHintLen = 0 := by
      rw [request, hint]
      rfl
    have same : (⟨wish.request.bytes, wish.request.zrp, none⟩ : ZFileRequest) = wish.request := by
      rw [request, hint]
      rfl
    rw [ZFileRequest.parseUrlHint, if_pos zero, same]
  | some text =>
    have length : wish.urlHintLen = text.text.length + 1 := by
      rw [urlHintLen, hint, hintBytes, length_append]
      rfl
    have present : wish.request.zrp.urlHintLen ≠ 0 := by
      intro zero
      rw [zero] at width
      have : (0 : UInt16).toNat = 0 := rfl
      omega
    have last : wish.request.bytes[requestPacketSize +
        4 * wish.locations.length + text.text.length]? = some 0 := by
      have found := congrArg (fun cells => cells[text.text.length]?) behind
      rw [hint, hintBytes] at found
      simpa only [getElem?_drop, getElem?_concat_length] using found
    have place : (treeLocationOffset wish.request.zrp.numTreeLocations.toNat +
        wish.request.zrp.urlHintLen.toNat - 1) % 2 ^ 32 =
        requestPacketSize + 4 * wish.locations.length + text.text.length := by
      rw [count, width, length, treeLocationOffset_eq (by omega), Nat.mod_eq_of_lt (by omega)]
      omega
    have same : (⟨wish.request.bytes, wish.request.zrp,
        some (treeLocationOffset wish.request.zrp.numTreeLocations.toNat)⟩ :
          ZFileRequest) = wish.request := by
      rw [count, treeLocationOffset_eq (by omega), request, hint]
      rfl
    rw [ZFileRequest.parseUrlHint, if_neg present]
    dsimp only
    rw [place, last]
    dsimp only
    rw [if_pos rfl, same]

theorem parse_request (chatty : Bool) (short : wish.urlHintLen < 2 ^ 16) :
    ZFileRequest.parse chatty wish.request.bytes = .ok (some wish.request) := by
  have read : ZFTPRequestPacket.format.read wish.request.bytes = wish.request.zrp :=
    ZFTPRequestPacket.format.read_append _ _
  have size := wish.request_length
  have count := request_count fits
  have width : wish.request.zrp.urlHintLen.toNat = wish.urlHintLen :=
    UInt16.toNat_ofNat_of_lt' short
  have wellFormed : ¬ZFileRequest.Malformed wish.request.bytes wish.request.zrp := by
    rintro (tooShort | badHash | tooShort)
    · rw [size, extent, requestExtent] at tooShort
      omega
    · exact badHash rfl
    · rw [ZFileRequest.getNumTreeLocations] at count
      rw [count, width, requestSize_eq fits, size] at tooShort
      exact lt_irrefl _ tooShort
  have logged : ZFileRequest.logLocations chatty (some wish.request) = .ok (some wish.request) := by
    rw [ZFileRequest.logLocations, ensure_true]
    · rfl
    · intro _ idx before
      rw [Wish.extent, requestExtent] at size fits
      rw [treeLocationOffset_eq (by omega)]
      omega
  rw [ZFileRequest.parse, read, if_neg wellFormed, parseUrlHint_request fits short, ok_bind, logged]

end Fits

/-- A request makes a round trip exactly when its size does not wrap around. -/
theorem roundTrips_iff {wish : Wish} (uninitialized : Nat → UInt8) (chatty : Bool)
    (short : wish.urlHintLen < 2 ^ 16) :
    wish.RoundTrips uninitialized chatty ↔ wish.extent < 2 ^ 32 := by
  constructor
  · rintro ⟨bytes, request, built, -⟩
    exact build_fits built
  · intro fits
    exact ⟨wish.request.bytes, wish.request, build_eq fits,
      parse_request fits chatty short, request_recovered fits⟩

end Wish

/-- Accepted requests lie inside the received bytes, and requests that are built
are accepted and recovered, exactly when their size does not wrap around. -/
theorem requests_sound_iff (chatty : Bool) : (∀ (bytes : List UInt8) (request : ZFileRequest),
      bytes.length < 2 ^ 32 →
      ZFileRequest.parse chatty bytes = .ok (some request) →
      (request.Inside ↔ requestExtent request.getNumTreeLocations
          request.zrp.urlHintLen.toNat < 2 ^ 32)) ∧
    (∀ (wish : Wish) (uninitialized : Nat → UInt8), wish.urlHintLen < 65536 →
      (wish.RoundTrips uninitialized chatty ↔
        requestExtent wish.locations.length wish.urlHintLen < 2 ^ 32)) := by
  refine ⟨?_, ?_⟩
  · intro bytes request bounded parsed
    exact ZFileRequest.inside_iff bounded parsed
  · intro wish uninitialized short
    exact Wish.roundTrips_iff uninitialized chatty short

/-- A request for the root of a file, with a hint of one letter. -/
def sampleWish : Wish where
  context := ⟨noCompression, 0⟩
  fileHash := ⟨List.replicate 20 7, by simp⟩
  urlHint := some ⟨[97], by decide⟩
  locations := [0]
  paddingRequest := 0
  dataRange := ⟨0, 0⟩

/-- The request for the root makes a round trip, and what is received is all
inside. -/
theorem requests_sound_root :
    sampleWish.RoundTrips (fun _ => 0) true ∧ sampleWish.request.Inside := by
  refine ⟨((requests_sound_iff true).2 sampleWish _ (by decide)).mpr (by decide), ?_⟩
  have parsed := @Wish.parse_request sampleWish (by decide) true (by decide)
  exact ((requests_sound_iff true).1 _ _ (by decide) parsed).mpr (by decide)

/-- A header that announces `2 ^ 30` locations. -/
def hollowPacket : ZFTPRequestPacket where
  hashLen := 20
  urlHintLen := 0
  fileHash := ⟨List.replicate 20 7, by simp⟩
  numTreeLocations := 2 ^ 30
  paddingRequest := 0
  compressionContext := ⟨noCompression, 0⟩
  dataStart := 0
  dataEnd := 0

/-- The header alone is accepted, although none of the locations is there. -/
theorem hollow_request_not_inside :
    let bytes := ZFTPRequestPacket.format.encode hollowPacket
    ZFileRequest.parse false bytes = .ok (some ⟨bytes, hollowPacket, none⟩) ∧
      ¬ZFileRequest.Inside ⟨bytes, hollowPacket, none⟩ := by
  refine ⟨by decide, ?_⟩
  rintro ⟨locations, -⟩
  exact absurd (locations 0 (by decide)) (by decide)

end Embassies.Zftp
