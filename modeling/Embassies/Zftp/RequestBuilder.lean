import Embassies.Zftp.Install
import Embassies.Zftp.RequestCodec
import Mathlib.Data.List.Sort

/-!
# Asking for what is missing

A request for a range of a file waits until the client has all blocks of the range.
Each time the client considers it, it computes a range of bytes that are missing and
asks the server for as many hashes and bytes of that range as fit into one reply:
for every block the hashes on the way from the leaf to the root, with their siblings,
and for the blocks whose leaf is validated the bytes.

`install_reply` installs a reply and then considers every waiting request again.
-/

namespace Embassies.Zftp

open Library Library.Checked

namespace DataRange

/-- `maybe_accumulate`; a range that does not touch is refused. -/
def maybeAccumulate (range : DataRange) (start finish : UInt32) : Option DataRange :=
  if range.IsEmpty then some ⟨start, finish⟩
  else if finish = range.start then some ⟨start, range.finish⟩
  else if start = range.finish then some ⟨range.start, finish⟩
  else if start ≥ range.start ∧ finish ≤ range.finish then some range
  else none

/-- `accumulate`. -/
def accumulate (range other : DataRange) : Except Fault DataRange :=
  match range.maybeAccumulate other.start other.finish with
  | none => .error .assertion
  | some joined => .ok joined

end DataRange

/-! ## The missing range -/

/-- The start of the block of a byte. -/
def roundDownToBlock (pos : UInt32) : UInt32 :=
  UInt32.ofNat (pos.toNat / blockSize * blockSize)

/-- `round_up_to_block`. -/
def roundUpToBlock (pos : UInt32) : UInt32 :=
  let down := roundDownToBlock (pos - 1)
  if down + 65536 < down then down else down + 65536

namespace ZCachedFile

/-- What a block adds to the missing range. -/
def missingInBlock (eligible missing : DataRange) (start finish startBlk : UInt32) :
    Option (Hash × ZBlockCacheRecord) → Option DataRange
  | none => missing.maybeAccumulate start finish
  | some (_, block) =>
    if block.valid then some missing
    else
      let pruned := (⟨startBlk + UInt32.ofNat block.data.length, startBlk + 65536⟩ :
        DataRange).intersect eligible
      missing.maybeAccumulate pruned.start pruned.finish

/-- The loop of `_compute_missing_set`, with that many blocks left in the file. -/
def missingFrom (env : Environment) (file : ZCachedFile) (requestingDataMode : Bool)
    (eligible : DataRange) :
    Nat → ZBlockCache → DataRange → UInt32 → Except Fault (DataRange × ZBlockCache)
  | 0, cache, missing, _ => .ok (missing, cache)
  | left + 1, cache, missing, start =>
    if start < eligible.finish then do
      let blk := start.toNat / blockSize
      let startBlk := UInt32.ofNat (blk * blockSize)
      let endBlk := UInt32.ofNat ((blk + 1) * blockSize)
      let finish := if endBlk < eligible.finish then endBlk else eligible.finish
      let (found, cache) ← file.lookupBlock cache blk .validated
      match missingInBlock eligible missing start finish startBlk found with
      | none => return (missing, cache)
      | some missing =>
        let approxPayloadSize :=
          if requestingDataMode then missing.size
          else (missing.size >>> 16) * UInt32.ofNat merkleRecordSize
        if approxPayloadSize ≥ env.maxPayload then return (missing, cache)
        else file.missingFrom env requestingDataMode eligible left cache missing endBlk
    else .ok (missing, cache)

/-- `_compute_missing_set`. -/
def computeMissingSet (env : Environment) (file : ZCachedFile) (requestingDataMode : Bool)
    (cache : ZBlockCache) (requested : DataRange) :
    Except Fault (DataRange × ZBlockCache) := do
  let rounded : DataRange :=
    ⟨roundDownToBlock requested.start, roundUpToBlock requested.finish⟩
  let fileRange ← file.getFileDataRange
  let eligible := rounded.intersect fileRange
  file.missingFrom env requestingDataMode eligible
    (file.numBlocks - eligible.start.toNat / blockSize) cache ⟨0, 0⟩ eligible.start

end ZCachedFile

/-! ## `RequestBuilder` -/

/-- `RequestBuilder`; the trees of locations are listed in order. -/
structure RequestBuilder where
  committedTreeLocations : List Nat
  tentativeTreeLocations : List Nat
  requestRange : DataRange

namespace RequestBuilder

/-- `_available`. -/
def available (env : Environment) (builder : RequestBuilder) : Int32 :=
  let consumed := UInt32.ofNat (dataPacketSize + merkleRecordSize *
    (builder.committedTreeLocations.length + builder.tentativeTreeLocations.length)) +
      builder.requestRange.size
  env.maxPayload.toInt32 - consumed.toInt32

/-- `request_hash`. -/
def requestHash (file : ZCachedFile) (builder : RequestBuilder) (location : Nat) :
    RequestBuilder × Bool :=
  if location ∉ builder.committedTreeLocations ∧
      location ∉ builder.tentativeTreeLocations ∧
      (file.tree location).state = .unknown then
    ({ builder with
      tentativeTreeLocations :=
        builder.tentativeTreeLocations.orderedInsert (· ≤ ·) location }, true)
  else (builder, false)

/-- The loop of `request_hash_ancestors`, from a level up. -/
def requestAncestorsFrom (file : ZCachedFile) (blockNum : Nat) :
    Nat → RequestBuilder → Except Fault RequestBuilder
  | 0, builder => .ok builder
  | level + 1, builder => do
    let col := blockNum / 2 ^ (file.treeDepth - (level + 1))
    let location ← treeIndex (level + 1) col file.treeSize
    let (builder, _) := builder.requestHash file (siblingLocation location)
    let (builder, requestIsNovel) := builder.requestHash file location
    if requestIsNovel then requestAncestorsFrom file blockNum level builder
    else return builder

/-- `request_hash_ancestors`. -/
def requestHashAncestors (file : ZCachedFile) (builder : RequestBuilder) (blockNum : Nat) :
    Except Fault RequestBuilder :=
  requestAncestorsFrom file blockNum file.treeDepth builder

/-- `clear_tentative_locations(COMMIT)`. -/
def commit (builder : RequestBuilder) : RequestBuilder where
  committedTreeLocations := builder.tentativeTreeLocations.foldl
    (fun locations location => locations.orderedInsert (· ≤ ·) location)
    builder.committedTreeLocations
  tentativeTreeLocations := []
  requestRange := builder.requestRange

/-- `clear_tentative_locations(ABORT)`. -/
def abort (builder : RequestBuilder) : RequestBuilder :=
  { builder with tentativeTreeLocations := [] }

/-- The bytes of a block that fit are asked for. -/
def requestData (env : Environment) (builder : RequestBuilder) (missing : DataRange)
    (start endBlk : UInt32) : Except Fault RequestBuilder := do
  let reqEnd := if endBlk < missing.finish then endBlk else missing.finish
  let reqThisBlk : DataRange :=
    if (⟨start, reqEnd⟩ : DataRange).size.toInt32 > builder.available env then
      ⟨start, start + (builder.available env).toUInt32⟩
    else ⟨start, reqEnd⟩
  let requestRange ← builder.requestRange.accumulate reqThisBlk
  return { builder with requestRange }

/-- The loop of `_build_request`.  Without a leaf left for the next block,
`_tree_index` fails. -/
def buildFrom (env : Environment) (file : ZCachedFile) (missing : DataRange) :
    Nat → RequestBuilder → UInt32 → Except Fault RequestBuilder
  | 0, builder, start =>
    if start < missing.finish ∧ 0 < builder.available env then .error .assertion
    else .ok builder
  | leaves + 1, builder, start =>
    if start < missing.finish ∧ 0 < builder.available env then do
      let blk := start.toNat / blockSize
      let endBlk := UInt32.ofNat ((blk + 1) * blockSize)
      let builder ← builder.requestHashAncestors file blk
      if builder.available env < 0 then return builder.abort
      else do
        let leafLocation ← treeIndex file.treeDepth blk file.treeSize
        let builder ←
          if (file.tree leafLocation).state = .validated then
            builder.commit.requestData env missing start endBlk
          else .ok builder.commit
        buildFrom env file missing leaves builder endBlk
    else .ok builder

/-- `_build_request`. -/
def build (env : Environment) (file : ZCachedFile) (missing : DataRange) :
    Except Fault RequestBuilder := do
  let builder ← buildFrom env file missing
    (2 ^ file.treeDepth - missing.start.toNat / blockSize) ⟨[], [], ⟨0, 0⟩⟩ missing.start
  ensure (builder.tentativeTreeLocations = []) .assertion
  ensure (0 ≤ builder.available env) .assertion
  return builder

/-- `as_outbound_request`. -/
def asOutboundRequest (env : Environment) (file : ZCachedFile) (builder : RequestBuilder) :
    Except Fault (List UInt8) :=
  OutboundRequest.build env.uninitialized env.context file.fileHash none
    (builder.committedTreeLocations.map UInt32.ofNat) 0 builder.requestRange

/-- `requested_any_data`. -/
def requestedAnyData (builder : RequestBuilder) : Bool := builder.requestRange.size > 0

end RequestBuilder

/-! ## Clients -/

/-- What a file is asked for. -/
structure WaitingRequest where
  hash : Hash
  urlHint : Option CString
  dataRange : DataRange

/-- `ZCachedFile` with its cache of blocks and its waiters, what it has sent to the
server, and the results it has delivered, which are valid or errors. -/
structure Client where
  file : ZCachedFile
  cache : ZBlockCache
  requestingDataMode : Bool
  waiters : List WaitingRequest
  issued : List (List UInt8)
  delivered : List (WaitingRequest × Bool)

namespace Client

/-- The request that `_issue_server_request` sends. -/
def outboundRequest (env : Environment) (client : Client) (missing : DataRange)
    (waitingReq : WaitingRequest) : Except Fault (List UInt8 × Bool) :=
  if client.file.metadataState ≠ .validated then do
    let bytes ← OutboundRequest.build env.uninitialized env.context waitingReq.hash
      waitingReq.urlHint [0] 0 ⟨0, 0⟩
    return (bytes, client.requestingDataMode)
  else do
    ensure (missing.size > 0) .assertion
    let builder ← RequestBuilder.build env client.file missing
    let bytes ← builder.asOutboundRequest env client.file
    return (bytes, builder.requestedAnyData)

/-- `_issue_server_request`, of a client of a server. -/
def issueServerRequest (env : Environment) (client : Client) (missing : DataRange)
    (waitingReq : WaitingRequest) : Except Fault Client :=
  if waitingReq.hash = zeroHash then
    .ok { client with delivered := client.delivered ++ [(waitingReq, false)] }
  else do
    let (bytes, requestingDataMode) ← client.outboundRequest env missing waitingReq
    return { client with
      requestingDataMode
      issued := client.issued ++ [bytes]
      waiters := client.waiters ++ [waitingReq] }

/-- `_consider_request_nolock`. -/
def considerRequest (env : Environment) (client : Client) (req : WaitingRequest) :
    Except Fault Client :=
  if client.file.metadataState = .validated then do
    let (missing, cache) ← client.file.computeMissingSet env client.requestingDataMode
      client.cache req.dataRange
    let client := { client with cache }
    if missing.IsEmpty then
      return { client with delivered := client.delivered ++ [(req, true)] }
    else client.issueServerRequest env missing req
  else client.issueServerRequest env ⟨0, 0⟩ req

/-- `_signal_waiters`. -/
def signalWaiters (env : Environment) (client : Client) : Except Fault Client :=
  client.waiters.foldlM (considerRequest env) { client with waiters := [] }

/-- The steps of `install_reply` behind the metadata, before the waiters are
considered. -/
def installContents (env : Environment) (client : Client)
    (reply : ZFileReplyFromServer) (causedChange : Bool) :
    Except Fault (Client × Bool) := do
  let (file, newHashes) ← client.file.installMerkleRecords env reply
  let (cache, newBytes) ← file.installData env client.cache reply
  let (file, ir) ← file.validateTentativeHashes env
  let causedChange := causedChange || newHashes || newBytes
  ensure (ir = .newData → causedChange = true) .assertion
  return ({ client with file, cache }, causedChange)

/-- `install_reply`. -/
def installReply (env : Environment) (client : Client) (reply : ZFileReplyFromServer) :
    Except Fault Client :=
  let installed := client.file.installMetadata env reply
  if installed.1 = .fail then .ok client
  else do
    let (client, causedChange) ← { client with file := installed.2 }.installContents env
      reply (installed.1 = InstallResult.newData)
    if causedChange then client.signalWaiters env else return client

end Client

end Embassies.Zftp
