import Embassies.Zftp.Protocol

/-!
# Requests

A request is a packed header, the network-ordered locations of the requested
tree nodes, and a null-terminated hint.  `OutboundRequest` lays one out and
`ZFileRequest::parse` takes one apart.  The parser keeps the received bytes and
points into them; pointers are offsets from the first byte, modulo `2 ^ 32`.
-/

namespace Embassies.Zftp

open Library Library.Buffer Library.Checked

/-- `ZFTPRequestPacket`. -/
structure ZFTPRequestPacket where
  hashLen : UInt16
  urlHintLen : UInt16
  fileHash : Hash
  numTreeLocations : UInt32
  paddingRequest : UInt32
  compressionContext : CompressionContext
  dataStart : UInt32
  dataEnd : UInt32
deriving DecidableEq

/-- The layout of the header of a request. -/
def ZFTPRequestPacket.format : Format ZFTPRequestPacket :=
  (Format.uint16.pair <| Format.uint16.pair <| Hash.format.pair <|
    Format.uint32.pair <| Format.uint32.pair <| CompressionContext.format.pair <|
    Format.uint32.pair Format.uint32).rename
    { toFun := fun packet =>
        (packet.hashLen, packet.urlHintLen, packet.fileHash,
          packet.numTreeLocations, packet.paddingRequest,
          packet.compressionContext, packet.dataStart, packet.dataEnd)
      invFun := fun (hashLen, urlHintLen, fileHash, numTreeLocations,
          paddingRequest, compressionContext, dataStart, dataEnd) =>
        ⟨hashLen, urlHintLen, fileHash, numTreeLocations, paddingRequest,
          compressionContext, dataStart, dataEnd⟩
      left_inv := fun _ => rfl
      right_inv := fun _ => rfl }

/-- `sizeof(ZFTPRequestPacket)`. -/
def requestPacketSize : Nat := ZFTPRequestPacket.format.size

/-- The size of a request with its locations and its hint. -/
def requestSize (numTreeLocations urlHintLen : Nat) : Nat :=
  (requestPacketSize + 4 * numTreeLocations + urlHintLen) % 2 ^ 32

/-- Where a location stands in a request. -/
def treeLocationOffset (idx : Nat) : Nat :=
  (requestPacketSize + 4 * idx) % 2 ^ 32

/-! ## Parsing -/

/-- `ZFileRequest` after `parse`; the hint is where it starts. -/
structure ZFileRequest where
  bytes : List UInt8
  zrp : ZFTPRequestPacket
  urlHint : Option Nat
deriving DecidableEq

namespace ZFileRequest

/-- `get_num_tree_locations`. -/
def getNumTreeLocations (request : ZFileRequest) : Nat :=
  request.zrp.numTreeLocations.toNat

/-- `get_tree_location`. -/
def getTreeLocation (request : ZFileRequest) (idx : Nat) : Except Fault UInt32 :=
  if treeLocationOffset idx + 4 ≤ request.bytes.length then
    .ok (Format.uint32.read (request.bytes.drop (treeLocationOffset idx)))
  else
    .error .outOfBounds

/-- `get_data_range`. -/
def getDataRange (request : ZFileRequest) : DataRange :=
  ⟨request.zrp.dataStart, request.zrp.dataEnd⟩

/-- The null-terminated string at the front of memory. -/
def cString : List UInt8 → Except Fault (List UInt8)
  | [] => .error .outOfBounds
  | byte :: rest =>
    if byte = 0 then .ok []
    else do
      let text ← cString rest
      return byte :: text

/-- The text of the hint. -/
def urlHintText (request : ZFileRequest) : Except Fault (Option (List UInt8)) :=
  match request.urlHint with
  | none => .ok none
  | some hint => do
    let text ← cString (request.bytes.drop hint)
    return some text

/-- The part of `parse` about the hint, whose last byte must be zero. -/
def parseUrlHint (bytes : List UInt8) (zrp : ZFTPRequestPacket) :
    Except Fault (Option ZFileRequest) :=
  if zrp.urlHintLen = 0 then
    .ok (some ⟨bytes, zrp, none⟩)
  else
    let urlHint := treeLocationOffset zrp.numTreeLocations.toNat
    match bytes[(urlHint + zrp.urlHintLen.toNat - 1) % 2 ^ 32]? with
    | none => .error .outOfBounds
    | some last =>
      .ok (if last = 0 then some ⟨bytes, zrp, some urlHint⟩ else none)

/-- The end of `parse`; with a chatty log it reads every location. -/
def logLocations (chatty : Bool) :
    Option ZFileRequest → Except Fault (Option ZFileRequest)
  | none => .ok none
  | some request => do
    ensure (chatty = true → ∀ idx < request.getNumTreeLocations,
      treeLocationOffset idx + 4 ≤ request.bytes.length) .outOfBounds
    return some request

/-- One of the first checks of `parse` fails. -/
def Malformed (bytes : List UInt8) (zrp : ZFTPRequestPacket) : Prop :=
  bytes.length < requestPacketSize ∨ zrp.hashLen.toNat ≠ Hash.format.size ∨
    bytes.length <
      requestSize zrp.numTreeLocations.toNat zrp.urlHintLen.toNat

instance (bytes : List UInt8) (zrp : ZFTPRequestPacket) :
    Decidable (Malformed bytes zrp) :=
  inferInstanceAs (Decidable (_ ∨ _ ∨ _))

/-- `parse`, on a buffer with its length; a malformed request is none. -/
def parse (chatty : Bool) (bytes : List UInt8) :
    Except Fault (Option ZFileRequest) :=
  if Malformed bytes (ZFTPRequestPacket.format.read bytes) then
    .ok none
  else do
    let request ← parseUrlHint bytes (ZFTPRequestPacket.format.read bytes)
    logLocations chatty request

end ZFileRequest

/-! ## Building -/

/-- A null-terminated string, without its last byte. -/
structure CString where
  text : List UInt8
  noNull : 0 ∉ text

/-- `mf_malloc`, with whatever the memory held before. -/
def mfMalloc (uninitialized : Nat → UInt8) (len : Nat) : List UInt8 :=
  (List.range len).map uninitialized

/-- `OutboundRequest`. -/
structure OutboundRequest where
  bytes : List UInt8
  dbgLocationsRemaining : UInt32

namespace OutboundRequest

/-- What stands behind the locations. -/
def hintBytes : Option CString → List UInt8
  | none => []
  | some urlHint => urlHint.text ++ [0]

/-- `ZFTPRequestPacketInit`, as the constructor calls it. -/
def requestPacketInit (context : CompressionContext) (fileHash : Hash)
    (urlHint : Option CString) (numTreeLocations paddingRequest : UInt32)
    (dataRange : DataRange) : ZFTPRequestPacket where
  hashLen := UInt16.ofNat Hash.format.size
  urlHintLen := UInt16.ofNat (hintBytes urlHint).length
  fileHash := fileHash
  numTreeLocations := numTreeLocations
  paddingRequest := paddingRequest
  compressionContext := context
  dataStart := dataRange.start
  dataEnd := dataRange.finish

/-- The copy of the hint behind the locations. -/
def writeHint (bytes : List UInt8) (numTreeLocations : UInt32) :
    Option CString → Except Fault (List UInt8)
  | none => .ok bytes
  | some urlHint =>
    write .outOfBounds bytes (treeLocationOffset numTreeLocations.toNat)
      (hintBytes (some urlHint))

/-- The constructor. -/
def new (uninitialized : Nat → UInt8) (context : CompressionContext)
    (fileHash : Hash) (urlHint : Option CString)
    (numTreeLocations paddingRequest : UInt32) (dataRange : DataRange) :
    Except Fault OutboundRequest := do
  let memory := mfMalloc uninitialized
    (requestSize numTreeLocations.toNat (hintBytes urlHint).length)
  let bytes ← write .outOfBounds memory 0 (ZFTPRequestPacket.format.encode
    (requestPacketInit context fileHash urlHint numTreeLocations paddingRequest
      dataRange))
  let bytes ← writeHint bytes numTreeLocations urlHint
  return ⟨bytes, numTreeLocations⟩

/-- `set_location`. -/
def setLocation (request : OutboundRequest) (idx : Nat) (location : UInt32) :
    Except Fault OutboundRequest := do
  let bytes ← write .outOfBounds request.bytes (treeLocationOffset idx)
    (Format.uint32.encode location)
  return ⟨bytes, request.dbgLocationsRemaining - 1⟩

/-- `get_zrp`. -/
def getZrp (request : OutboundRequest) : Except Fault (List UInt8) := do
  ensure (request.dbgLocationsRemaining = 0) .assertion
  return request.bytes

/-- The locations from an index on, each set in its turn. -/
def setLocations (request : OutboundRequest) :
    Nat → List UInt32 → Except Fault OutboundRequest
  | _, [] => .ok request
  | idx, location :: rest => do
    let request ← request.setLocation idx location
    request.setLocations (idx + 1) rest

/-- A request for a list of locations. -/
def build (uninitialized : Nat → UInt8) (context : CompressionContext)
    (fileHash : Hash) (urlHint : Option CString) (locations : List UInt32)
    (paddingRequest : UInt32) (dataRange : DataRange) :
    Except Fault (List UInt8) := do
  let request ← new uninitialized context fileHash urlHint
    (UInt32.ofNat locations.length) paddingRequest dataRange
  let request ← request.setLocations 0 locations
  request.getZrp

end OutboundRequest

end Embassies.Zftp
