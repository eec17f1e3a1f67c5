import Embassies.Zftp.ReplyBytes
import Embassies.Zftp.RequestCodec

/-!
# The file server

`ZFileServer` keeps the reply to one large request.  The next equivalent request
gets the packet that was prepared for it, and another large request may be
answered in its buffer.  The buffer is larger than the reply, though, and a reply
is taken to fill its buffer.
-/

namespace Embassies.Zftp

open Library Library.Buffer Library.Checked

namespace ZFileRequest

/-- The loop of `is_semantically_equivalent` over the locations. -/
def sameLocations (request other : ZFileRequest) : List Nat → Except Fault Bool
  | [] => .ok true
  | idx :: rest => do
    let location ← request.getTreeLocation idx
    let otherLocation ← other.getTreeLocation idx
    if location ≠ otherLocation then return false
    else sameLocations request other rest

/-- `is_semantically_equivalent`. -/
def isSemanticallyEquivalent (request other : ZFileRequest) : Except Fault Bool := do
  ensure (request.zrp.hashLen = other.zrp.hashLen) .assertion
  if request.zrp.fileHash ≠ other.zrp.fileHash then return false
  else if request.getNumTreeLocations ≠ other.getNumTreeLocations then return false
  else
    let same ← request.sameLocations other (List.range request.getNumTreeLocations)
    return same && (request.zrp.paddingRequest = other.zrp.paddingRequest) &&
      (request.getDataRange = other.getDataRange)

end ZFileRequest

/-- `ZCache`: the files and the blocks. -/
structure ZCache where
  lookupHash : Hash → ZCachedFile
  blockCache : ZBlockCache

/-- The file of a request. -/
def ZCache.fileOf (zcache : ZCache) (request : ZFileRequest) : ZCachedFile :=
  zcache.lookupHash request.zrp.fileHash

/-- `fill_payload`, with the result for the file of the request. -/
def ZCache.fillPayload (zcache : ZCache) (request : ZFileRequest) (vbuf : ValidatedZCB) :
    Except Fault ValidatedZCB :=
  (zcache.fileOf request).fillReply zcache.blockCache request vbuf

/-- `get_reply_size`, of the result for the file of the request. -/
def ZCache.replySize (zcache : ZCache) (request : ZFileRequest) : Except Fault Nat :=
  (zcache.fileOf request).getReplySize request

/-- What `zc_send` sends of a buffer. -/
def ValidatedZCB.packet (vbuf : ValidatedZCB) : List UInt8 :=
  vbuf.buffer.take vbuf.getPacketLen.toNat

/-- A request, with what the memory held that is allocated while it is served. -/
structure Serving where
  request : ZFileRequest
  replyMemory : Nat → UInt8
  copyMemory : Nat → UInt8

/-- `ZFileServer`. -/
structure ZFileServer where
  cachedReq : Option ZFileRequest
  cachedVbuf : Option ValidatedZCB
  cachedPayloadLen : Nat

namespace ZFileServer

/-- `MIN_CACHE_SIZE`. -/
def minCacheSize : Nat := 2 ^ 20

/-- `fast_case_cushion`. -/
def fastCaseCushion : Nat := 150 * 2 ^ 10

/-- The constructor. -/
def new : ZFileServer := ⟨none, none, 0⟩

/-- `req_is_cachable`. -/
def ReqIsCachable (request : ZFileRequest) : Prop :=
  ¬request.getDataRange.IsEmpty ∧
    request.zrp.compressionContext.stateId = noCompression

instance (request : ZFileRequest) : Decidable (ReqIsCachable request) :=
  inferInstanceAs (Decidable (_ ∧ _))

/-- `cache_or_discard_result`. -/
def cacheOrDiscardResult (zcache : ZCache) (server : ZFileServer)
    (request : ZFileRequest) (payloadLen : Nat) (copyMemory : Nat → UInt8) :
    Except Fault ZFileServer :=
  if ReqIsCachable request ∧ minCacheSize ≤ payloadLen then do
    ensure (server.cachedVbuf.isSome = true → server.cachedReq.isSome = true) .assertion
    let vbuf ← zcache.fillPayload request (ValidatedZCB.new
      (mfMalloc copyMemory ((payloadLen + fastCaseCushion) % 2 ^ 32)))
    return ⟨some request, some vbuf, payloadLen⟩
  else
    return server

/-- The buffer for a reply, and what the server keeps. -/
def chooseBuffer (server : ZFileServer) (payloadLen : Nat)
    (replyMemory : Nat → UInt8) : ValidatedZCB × ZFileServer :=
  match server.cachedVbuf with
  | none => (ValidatedZCB.new (mfMalloc replyMemory payloadLen), server)
  | some vbuf =>
    if payloadLen ≤ vbuf.buffer.length ∧ minCacheSize ≤ payloadLen then
      (vbuf.recycle, { server with cachedVbuf := none })
    else
      (ValidatedZCB.new (mfMalloc replyMemory payloadLen), server)

/-- `send_reply`, to an uncompressed request. -/
def sendReply (zcache : ZCache) (server : ZFileServer) (serving : Serving)
    (payloadLen : Nat) : Except Fault (List UInt8 × ZFileServer) := do
  let (vbuf, server) := server.chooseBuffer payloadLen serving.replyMemory
  let vbuf ← zcache.fillPayload serving.request vbuf
  let server ← server.cacheOrDiscardResult zcache serving.request payloadLen
    serving.copyMemory
  return (vbuf.packet, server)

/-- `zero_copy_reply_optimization`, once the requests are known to be equivalent. -/
def sendCached (zcache : ZCache) (server : ZFileServer) (cached : ZFileRequest)
    (copyMemory : Nat → UInt8) : Except Fault (List UInt8 × ZFileServer) :=
  match server.cachedVbuf with
  | none => .error .nullPointer
  | some vbuf => do
    let server ← ZFileServer.cacheOrDiscardResult zcache
      { server with cachedReq := none, cachedVbuf := none } cached
      server.cachedPayloadLen copyMemory
    return (vbuf.packet, server)

/-- Whether the reply that was prepared is one to this request. -/
def findCached (server : ZFileServer) (request : ZFileRequest) :
    Except Fault (Option ZFileRequest) :=
  match server.cachedReq with
  | none => .ok none
  | some cached => do
    let equivalent ← request.isSemanticallyEquivalent cached
    return if equivalent then some cached else none

/-- One round of `run_worker`, for a request whose file is in the cache. -/
def serve (zcache : ZCache) (server : ZFileServer) (serving : Serving) :
    Except Fault (List UInt8 × ZFileServer) := do
  match ← server.findCached serving.request with
  | some cached => server.sendCached zcache cached serving.copyMemory
  | none =>
    let payloadLen ← zcache.replySize serving.request
    server.sendReply zcache serving payloadLen

/-- The packets sent for a sequence of requests. -/
def run (zcache : ZCache) : ZFileServer → List Serving → Except Fault (List (List UInt8))
  | _, [] => .ok []
  | server, serving :: rest => do
    let (packet, server) ← server.serve zcache serving
    let packets ← run zcache server rest
    return packet :: packets

end ZFileServer

/-- The packet that `fill_reply` writes into a new buffer of the size of the reply. -/
def ZCache.freshReply (zcache : ZCache) (memory : Nat → UInt8) (request : ZFileRequest) :
    Except Fault (List UInt8) := do
  let payloadLen ← zcache.replySize request
  let vbuf ← zcache.fillPayload request
    (ValidatedZCB.new (mfMalloc memory payloadLen))
  return vbuf.packet

end Embassies.Zftp
