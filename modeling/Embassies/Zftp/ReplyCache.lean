import Embassies.Zftp.FileServer

/-!
# Cached replies

When the packets of the file server are the packets that `fill_reply` writes into
new buffers.  The prepared reply is longer than the reply, and so is a reply in a
recycled buffer unless its size happens to be that of the buffer.  In that case
the hashes that the buffer remembers are true, provided the two headers have the
same size.
-/

namespace Embassies.Zftp

open Library Library.Buffer Library.Checked List ValidatedZCB

open ZCachedFile
open OutboundRequest (mfMalloc_length)

theorem ValidatedZCB.packet_eq {vbuf : ValidatedZCB} (small : vbuf.buffer.length < 2 ^ 32) :
    vbuf.packet = vbuf.buffer := by
  have whole : vbuf.getPacketLen = UInt32.ofNat vbuf.buffer.length := by
    rw [getPacketLen, getPayloadLen]
    grind
  rw [packet, whole, UInt32.toNat_ofNat_of_lt' small, take_length]

namespace ZCachedFile

variable {file : ZCachedFile} {cache : ZBlockCache} {request : ZFileRequest} {vbuf : ValidatedZCB}

/-- The size of a reply. -/
def fullSize (file : ZCachedFile) (request : ZFileRequest) : Nat :=
  headerSize request + (file.available request).size.toNat

theorem getReplySize_eq_ok_iff {len : Nat} : file.getReplySize request = .ok len ↔
      file.metadataState = .validated ∧ len = file.fullSize request % 2 ^ 32 := by
  rw [getReplySize, bind_eq_ok_iff]
  constructor
  · rintro ⟨range, ranged, returned⟩
    obtain ⟨known, rfl⟩ := getAvailableDataRange_eq_ok_iff.mp ranged
    cases returned
    exact ⟨known, rfl⟩
  · rintro ⟨known, rfl⟩
    exact ⟨_, getAvailableDataRange_eq_ok_iff.mpr ⟨known, rfl⟩, rfl⟩

/-- The tree locations of a request can be read. -/
def Readable (request : ZFileRequest) : Prop :=
  ∀ idx < request.getNumTreeLocations, ∃ location, request.getTreeLocation idx = .ok location

theorem Answerable.readable (answerable : file.Answerable cache request) : Readable request := by
  intro idx inside
  obtain ⟨location, found, -⟩ := answerable.records idx inside
  exact ⟨location, found⟩

/-- No whole block of the reply has the hash that marks an empty slot. -/
def ReplyMarked (file : ZCachedFile) (request : ZFileRequest) : Prop :=
  file.Marked (file.available request).start.toNat (file.available request).size.toNat

theorem Answerable.fillReply_exact
    (answerable : file.Answerable cache request) (marked : file.ReplyMarked request)
    (unused : vbuf.headerOffset = 0) (small : file.fullSize request < 2 ^ 32)
    (exact : vbuf.buffer.length = file.fullSize request)
    (truthful : ∀ index, vbuf.Truthful cache (headerSize request) index) :
    ∃ after, file.fillReply cache request vbuf = .ok after ∧
      after.packet = file.replyBytes cache request (file.available request).size := by
  obtain ⟨hashes, filled, -⟩ := answerable.fillReply_eq marked unused
    (by omega) (Nat.le_of_eq exact.symm) truthful
  have payload : vbuf.buffer.length - headerSize request = (file.available request).size.toNat := by
    rw [exact, fullSize]
    omega
  rw [payload, UInt32.ofNat_toNat, patch_whole (by
    rw [answerable.replyBytes_length, exact, fullSize])] at filled
  refine ⟨_, filled, packet_eq ?_⟩
  rw [answerable.replyBytes_length]
  exact small

end ZCachedFile

theorem ValidatedZCB.new_truthful
    {cache : ZBlockCache} {buffer : List UInt8} {header : Nat} (index : Nat) :
    (ValidatedZCB.new buffer).Truthful cache header index :=
  fun nonzero => absurd rfl nonzero

variable {zcache : ZCache} {request : ZFileRequest} {memory : Nat → UInt8} {packet : List UInt8}

/-- The size of the reply to a request. -/
abbrev ZCache.fullSize (zcache : ZCache) (request : ZFileRequest) : Nat :=
  (zcache.fileOf request).fullSize request

theorem answerable_of_freshReply (fresh : zcache.freshReply memory request = .ok packet) :
    (zcache.fileOf request).Answerable zcache.blockCache request ∧
      zcache.fullSize request < 2 ^ 32 := by
  obtain ⟨len, sized, filling⟩ := of_bind fresh
  obtain ⟨-, rfl⟩ := getReplySize_eq_ok_iff.mp sized
  obtain ⟨vbuf, filled, -⟩ := of_bind filling
  have positive : 0 < 2 ^ 32 := by decide
  have length_eq : (mfMalloc memory (zcache.fullSize request % 2 ^ 32)).length =
      zcache.fullSize request % 2 ^ 32 := mfMalloc_length _ _
  obtain ⟨answerable, fits, -⟩ := answerable_of_fillReply rfl
    (Nat.lt_of_le_of_lt (Nat.le_of_eq length_eq) (Nat.mod_lt _ positive)) filled
  refine ⟨answerable, ?_⟩
  have room : headerSize request ≤ zcache.fullSize request % 2 ^ 32 :=
    Nat.le_trans fits (Nat.le_of_eq length_eq)
  have limit := ((zcache.fileOf request).available request).size.toNat_lt
  rw [ZCache.fullSize, fullSize] at room ⊢
  omega

theorem freshReply_eq (marked : (zcache.fileOf request).ReplyMarked request)
    (fresh : zcache.freshReply memory request = .ok packet) :
    packet = (zcache.fileOf request).replyBytes zcache.blockCache request
      ((zcache.fileOf request).available request).size := by
  obtain ⟨answerable, small⟩ := answerable_of_freshReply fresh
  obtain ⟨len, sized, filling⟩ := of_bind fresh
  obtain ⟨-, rfl⟩ := getReplySize_eq_ok_iff.mp sized
  obtain ⟨vbuf, filled, returned⟩ := of_bind filling
  cases returned
  obtain ⟨after, exactly, sent⟩ := answerable.fillReply_exact marked rfl small
    ((mfMalloc_length _ _).trans (Nat.mod_eq_of_lt small)) new_truthful
  obtain rfl := Except.ok.inj (filled.symm.trans exactly)
  exact sent

theorem ZCache.replySize_eq (known : (zcache.fileOf request).metadataState = .validated)
    (small : zcache.fullSize request < 2 ^ 32) :
    zcache.replySize request = .ok (zcache.fullSize request) :=
  getReplySize_eq_ok_iff.mpr ⟨known, (Nat.mod_eq_of_lt small).symm⟩

theorem exists_freshReply
    (answerable : (zcache.fileOf request).Answerable zcache.blockCache request)
    (marked : (zcache.fileOf request).ReplyMarked request)
    (small : zcache.fullSize request < 2 ^ 32)
    (memory : Nat → UInt8) :
    ∃ packet, zcache.freshReply memory request = .ok packet := by
  have sized := ZCache.replySize_eq answerable.metadata small
  obtain ⟨after, filled, -⟩ := @Answerable.fillReply_exact (zcache.fileOf request)
    zcache.blockCache request (ValidatedZCB.new (mfMalloc memory (zcache.fullSize request)))
    answerable marked rfl small (mfMalloc_length memory _) new_truthful
  rw [ZCache.freshReply, sized, ok_bind, ZCache.fillPayload, filled]
  exact ⟨_, rfl⟩

namespace ZFileServer

variable {server next : ZFileServer} {serving : Serving}

/-- The prepared reply remembers true hashes, and its request can be compared. -/
structure Sound (zcache : ZCache) (server : ZFileServer) : Prop where
  truthful : ∀ vbuf, server.cachedVbuf = some vbuf → ∀ index,
    vbuf.Truthful zcache.blockCache vbuf.headerOffset index
  paired : server.cachedVbuf.isSome = true → server.cachedReq.isSome = true
  hashLen : ∀ cached, server.cachedReq = some cached →
    cached.zrp.hashLen = UInt16.ofNat Hash.format.size
  readable : ∀ cached, server.cachedReq = some cached →
    ∀ idx < cached.getNumTreeLocations, ∃ location,
      cached.getTreeLocation idx = .ok location

theorem new_sound : new.Sound zcache := ⟨nofun, nofun, nofun, nofun⟩

/-- The request is not answered by the prepared reply; if it is answered in the
buffer of that reply then the sizes agree; and the size of the next prepared reply
does not wrap around. -/
structure AnsweredAnew (zcache : ZCache) (server : ZFileServer)
    (request : ZFileRequest) : Prop where
  different : ∀ cached, server.cachedReq = some cached →
    request.isSemanticallyEquivalent cached ≠ .ok true
  matching : ∀ vbuf, server.cachedVbuf = some vbuf →
    (zcache.fileOf request).fullSize request ≤ vbuf.buffer.length →
    minCacheSize ≤ (zcache.fileOf request).fullSize request →
    vbuf.buffer.length = (zcache.fileOf request).fullSize request ∧
      vbuf.headerOffset = headerSize request
  bounded : ReqIsCachable request →
    minCacheSize ≤ (zcache.fileOf request).fullSize request →
    (zcache.fileOf request).fullSize request + fastCaseCushion < 2 ^ 32
  marked : (zcache.fileOf request).ReplyMarked request

/-- A reply to the request is prepared, in a buffer that is larger than the reply. -/
structure Holds (server : ZFileServer) (request : ZFileRequest) (payloadLen : Nat) :
    Prop where
  cachedReq : server.cachedReq = some request
  cachedPayloadLen : server.cachedPayloadLen = payloadLen
  cachedVbuf : ∃ vbuf, server.cachedVbuf = some vbuf ∧
    vbuf.buffer.length = payloadLen + fastCaseCushion ∧ vbuf.headerOffset = headerSize request

theorem Sound.cacheOrDiscardResult {copyMemory : Nat → UInt8} (sound : server.Sound zcache)
    (answerable : (zcache.fileOf request).Answerable zcache.blockCache request)
    (marked : (zcache.fileOf request).ReplyMarked request)
    (bounded : ReqIsCachable request → minCacheSize ≤ zcache.fullSize request →
      zcache.fullSize request + fastCaseCushion < 2 ^ 32)
    (hashLen : request.zrp.hashLen = UInt16.ofNat Hash.format.size) :
    ∃ next, server.cacheOrDiscardResult zcache request
        (zcache.fullSize request) copyMemory = .ok next ∧
      next.Sound zcache ∧
      (ReqIsCachable request ∧ minCacheSize ≤ zcache.fullSize request →
        next.Holds request (zcache.fullSize request)) := by
  rw [ZFileServer.cacheOrDiscardResult]
  split
  · rename_i cachable
    have limit := bounded cachable.1 cachable.2
    have length_eq := mfMalloc_length copyMemory (zcache.fullSize request + fastCaseCushion)
    rw [Nat.mod_eq_of_lt limit]
    generalize mfMalloc copyMemory _ = buffer at length_eq ⊢
    obtain ⟨hashes, filled, settled⟩ := @Answerable.fillReply_eq
      (zcache.fileOf request) zcache.blockCache request (ValidatedZCB.new buffer)
      answerable marked rfl (Nat.lt_of_le_of_lt (Nat.le_of_eq length_eq) limit)
      (Nat.le_trans (Nat.le_add_right _ _) (Nat.le_of_eq length_eq.symm))
      new_truthful
    rw [ensure_true sound.paired, ok_bind, ZCache.fillPayload]
    refine ⟨_, by rw [filled]; rfl, ⟨?_, fun _ => rfl, ?_, ?_⟩, fun _ => ?_⟩
    · rintro vbuf ⟨⟩ index
      exact settled (fun _ => rfl) index
    · rintro cached ⟨⟩
      exact hashLen
    · rintro cached ⟨⟩
      exact answerable.readable
    · refine ⟨rfl, rfl, _, rfl, ?_, rfl⟩
      rw [← length_eq]
      refine patch_length ?_
      rw [answerable.replyBytes_length, Nat.zero_add]
      exact Nat.le_trans (Nat.le_add_right _ _) (Nat.le_of_eq length_eq.symm)
  · rename_i discarded
    exact ⟨server, rfl, sound, fun cachable => absurd cachable discarded⟩

theorem Sound.chooseBuffer (sound : server.Sound zcache) (anew : server.AnsweredAnew zcache request)
    (replyMemory : Nat → UInt8) :
    ∃ vbuf after, server.chooseBuffer (zcache.fullSize request)
        replyMemory = (vbuf, after) ∧ after.Sound zcache ∧ vbuf.headerOffset = 0 ∧
      vbuf.buffer.length = zcache.fullSize request ∧
      ∀ index, vbuf.Truthful zcache.blockCache (headerSize request) index := by
  rw [ZFileServer.chooseBuffer]
  cases kept : server.cachedVbuf with
  | none => exact ⟨_, _, rfl, sound, rfl, mfMalloc_length _ _, new_truthful⟩
  | some vbuf =>
    dsimp only
    split
    · rename_i recycled
      obtain ⟨length_eq, header_eq⟩ := anew.matching vbuf kept recycled.1 recycled.2
      refine ⟨_, _, rfl, ⟨nofun, nofun, sound.hashLen, sound.readable⟩, rfl, length_eq, ?_⟩
      intro index
      rw [← header_eq]
      exact sound.truthful vbuf kept index
    · exact ⟨_, _, rfl, sound, rfl, mfMalloc_length _ _, new_truthful⟩

theorem exists_sameLocations {request other : ZFileRequest} {places : List Nat}
    (readable : ∀ idx ∈ places, ∃ location, request.getTreeLocation idx = .ok location)
    (otherReadable : ∀ idx ∈ places, ∃ location, other.getTreeLocation idx = .ok location) :
    ∃ same, request.sameLocations other places = .ok same := by
  induction places with
  | nil => exact ⟨true, rfl⟩
  | cons idx rest induction =>
    obtain ⟨location, found⟩ := readable idx mem_cons_self
    obtain ⟨otherLocation, otherFound⟩ := otherReadable idx mem_cons_self
    rw [ZFileRequest.sameLocations, found, ok_bind, otherFound, ok_bind]
    split
    · exact ⟨false, rfl⟩
    · exact induction (fun later member => readable later (mem_cons_of_mem _ member))
        (fun later member => otherReadable later (mem_cons_of_mem _ member))

/-- The prepared reply is not used for a request that is answered anew. -/
theorem Sound.findCached (sound : server.Sound zcache) (anew : server.AnsweredAnew zcache request)
    (hashLen : request.zrp.hashLen = UInt16.ofNat Hash.format.size)
    (readable : Readable request) :
    server.findCached request = .ok none := by
  rw [ZFileServer.findCached]
  cases kept : server.cachedReq with
  | none => rfl
  | some cached =>
    have compared : ∃ outcome, request.isSemanticallyEquivalent cached = .ok outcome := by
      rw [ZFileRequest.isSemanticallyEquivalent,
        ensure_true (hashLen.trans (sound.hashLen cached kept).symm), ok_bind]
      split
      · exact ⟨_, rfl⟩
      · split
        · exact ⟨_, rfl⟩
        · rename_i count
          rw [ne_eq, not_not] at count
          obtain ⟨same, done⟩ := @exists_sameLocations request cached
            (range request.getNumTreeLocations)
            (fun idx member => readable idx (mem_range.mp member))
            (fun idx member => sound.readable cached kept idx (count ▸ mem_range.mp member))
          rw [done]
          exact ⟨_, rfl⟩
    obtain ⟨outcome, equal⟩ := compared
    cases outcome with
    | true => exact absurd equal (anew.different cached kept)
    | false =>
      dsimp only
      rw [equal]
      rfl

/-- A request that is answered anew gets the packet that a new buffer would give. -/
theorem Sound.serve
    (sound : server.Sound zcache) (anew : server.AnsweredAnew zcache serving.request)
    (hashLen : serving.request.zrp.hashLen = UInt16.ofNat Hash.format.size)
    (fresh : zcache.freshReply memory serving.request = .ok packet) :
    ∃ next, server.serve zcache serving = .ok (packet, next) ∧ next.Sound zcache ∧
      (ReqIsCachable serving.request ∧ minCacheSize ≤ zcache.fullSize serving.request →
        next.Holds serving.request (zcache.fullSize serving.request)) := by
  obtain ⟨answerable, small⟩ := answerable_of_freshReply fresh
  have contents := freshReply_eq anew.marked fresh
  have missed : server.findCached serving.request = .ok none :=
    sound.findCached anew hashLen answerable.readable
  have sized := ZCache.replySize_eq answerable.metadata small
  obtain ⟨vbuf, kept, chosen, keptSound, unused, exact, truthful⟩ :=
    sound.chooseBuffer anew serving.replyMemory
  obtain ⟨filled, filling, sent⟩ :=
    answerable.fillReply_exact anew.marked unused small exact truthful
  obtain ⟨next, cached, nextSound, holds⟩ := @Sound.cacheOrDiscardResult zcache
    serving.request kept serving.copyMemory keptSound answerable anew.marked
    anew.bounded hashLen
  refine ⟨next, ?_, nextSound, holds⟩
  rw [ZFileServer.serve, missed, ok_bind]
  dsimp only
  rw [sized, ok_bind, sendReply, chosen]
  dsimp only
  rw [ZCache.fillPayload, filling, ok_bind, cached, ok_bind, sent, ← contents, pure_eq_ok]

/-! ## Whole runs -/

/-- Every request of a run is answered anew in the state in which it arrives. -/
def AllAnsweredAnew (zcache : ZCache) : ZFileServer → List Serving → Prop
  | _, [] => True
  | server, serving :: rest =>
    server.AnsweredAnew zcache serving.request ∧
      ∀ packet next, server.serve zcache serving = .ok (packet, next) →
        AllAnsweredAnew zcache next rest

/-- Whenever each request has a reply in a new buffer, whatever the memory of that
buffer held, these replies are the packets that are sent. -/
def RepliesFresh (zcache : ZCache) (server : ZFileServer) (servings : List Serving) :
    Prop :=
  ∀ memory packets,
    servings.mapM (fun serving => zcache.freshReply memory serving.request) =
      .ok packets →
    server.run zcache servings = .ok packets

/-- The server takes a request. -/
structure Accepts (serving : Serving) : Prop where
  parsed : ∃ chatty bytes, ZFileRequest.parse chatty bytes = .ok (some serving.request)
  uncompressed : serving.request.zrp.compressionContext.stateId = noCompression

theorem Accepts.hashLen (accepts : Accepts serving) :
    serving.request.zrp.hashLen = UInt16.ofNat Hash.format.size := by
  obtain ⟨chatty, bytes, parsed⟩ := accepts.parsed
  obtain ⟨-, -, whole⟩ := ZFileRequest.parse_eq_some parsed
  rw [← whole, UInt16.ofNat_toNat]

theorem Sound.run {servings : List Serving} (sound : server.Sound zcache)
    (accepts : ∀ serving ∈ servings, Accepts serving)
    (anew : AllAnsweredAnew zcache server servings) :
    server.RepliesFresh zcache servings := by
  intro memory packets fresh
  induction servings generalizing server packets with
  | nil =>
    cases fresh
    rfl
  | cons serving rest induction =>
    rw [mapM_cons] at fresh
    obtain ⟨packet, first, afterFirst⟩ := of_bind fresh
    obtain ⟨others, later, returned⟩ := of_bind afterFirst
    cases returned
    obtain ⟨anewNow, anewLater⟩ := anew
    obtain ⟨next, served, nextSound, -⟩ := sound.serve anewNow
      (accepts serving mem_cons_self).hashLen first
    have following := @induction next nextSound
      (fun other member => accepts other (mem_cons_of_mem _ member))
      (anewLater packet next served) others later
    rw [ZFileServer.run, served, ok_bind]
    dsimp only
    rw [following]
    rfl

/-- Every run of the server in which every request is answered anew sends the
packets that `fill_reply` writes into new buffers. -/
theorem replies_fresh_of_answered_anew
    {servings : List Serving} (accepts : ∀ serving ∈ servings, Accepts serving)
    (anew : AllAnsweredAnew zcache new servings) :
    new.RepliesFresh zcache servings :=
  new_sound.run accepts anew

/-! ## Repeated requests -/

/-- A large request that is made twice gets a longer packet the second time. -/
theorem Sound.serve_again {again : Serving} (sound : server.Sound zcache)
    (anew : server.AnsweredAnew zcache serving.request)
    (hashLen : serving.request.zrp.hashLen = UInt16.ofNat Hash.format.size)
    (large : ReqIsCachable serving.request ∧ minCacheSize ≤ zcache.fullSize serving.request)
    (repeats : again.request = serving.request)
    (equivalent : serving.request.isSemanticallyEquivalent serving.request = .ok true)
    (fresh : zcache.freshReply memory serving.request = .ok packet) :
    ∃ next longer, server.serve zcache serving = .ok (packet, next) ∧
      (next.serve zcache again).map Prod.fst = .ok longer ∧
      longer.length = packet.length + fastCaseCushion := by
  obtain ⟨answerable, small⟩ := answerable_of_freshReply fresh
  have contents := freshReply_eq anew.marked fresh
  obtain ⟨next, served, nextSound, holds⟩ := sound.serve anew hashLen fresh
  obtain ⟨cachedReq, cachedLen, vbuf, cachedVbuf, length_eq, -⟩ := holds large
  have limit := anew.bounded large.1 large.2
  have emptied : ZFileServer.Sound zcache
      { next with cachedReq := none, cachedVbuf := none } := ⟨nofun, nofun, nofun, nofun⟩
  obtain ⟨after, cached, -⟩ := @Sound.cacheOrDiscardResult zcache serving.request
    { next with cachedReq := none, cachedVbuf := none } again.copyMemory emptied
    answerable anew.marked anew.bounded hashLen
  refine ⟨next, vbuf.packet, served, ?_, ?_⟩
  · rw [ZFileServer.serve, repeats, ZFileServer.findCached, cachedReq]
    dsimp only
    rw [equivalent, ok_bind, if_pos rfl, pure_eq_ok, ok_bind]
    dsimp only
    rw [sendCached, cachedVbuf]
    rw [cachedLen] at cached ⊢
    rw [cached]
    rfl
  · rw [packet_eq (Nat.lt_of_le_of_lt (Nat.le_of_eq length_eq) limit),
      length_eq, contents, answerable.replyBytes_length, ZCache.fullSize, fullSize]

/-! ## A file of sevens -/

/-- A block whose bytes are all seven. -/
def sevens : ZBlockCacheRecord := .uniform 7

/-- A cache with one file, of 32 such blocks. -/
def sevensCache : ZCache where
  lookupHash hash :=
    ⟨hash, ⟨0x200000, 0⟩, .validated, fun _ => ⟨onesHash, .validated⟩, []⟩
  blockCache _ := some sevens

/-- A request for the first bytes of that file, with padding. -/
def sevensRequest (padding count : UInt32) : ZFileRequest :=
  let zrp : ZFTPRequestPacket := ⟨20, 0, zeroHash, 0, padding, ⟨0, 0⟩, 0, count⟩
  ⟨ZFTPRequestPacket.format.encode zrp, zrp, none⟩

section Sevens

variable {count : UInt32} (inside : count ≤ 0x200000) (padding : UInt32)

include inside

theorem sevensRequest_available : (sevensCache.fileOf (sevensRequest padding count)).available
    (sevensRequest padding count) = ⟨0, count⟩ := by
  change DataRange.intersect ⟨0, count⟩ ⟨0, 0x200000⟩ = _
  rw [DataRange.intersect]
  grind [DataRange.IsEmpty]

theorem sevensRequest_fullSize : (sevensCache.fileOf (sevensRequest padding count)).fullSize
    (sevensRequest padding count) = 61 + padding.toNat + count.toNat := by
  have header : headerSize (sevensRequest padding count) = 61 + padding.toNat := rfl
  rw [fullSize, header, sevensRequest_available inside, DataRange.size, UInt32.sub_zero]

theorem sevensRequest_answerable : (sevensCache.fileOf (sevensRequest padding count)).Answerable
    sevensCache.blockCache (sevensRequest padding count) := by
  refine ⟨rfl, fun idx inside => absurd inside (Nat.not_lt_zero idx), ?_, ?_⟩
  · intro blk member
    rw [sevensRequest_available inside, DataRange.size, UInt32.sub_zero] at member
    have bounds := mem_touched.mp member
    have limit := UInt32.le_iff_toNat_le.mp inside
    have depth : computeTreeDepth (computeNumBlocks 0x200000) = 5 := by decide
    refine ⟨(onesHash, sevens), validBlock_eq_ok_iff.mpr ⟨?_, Nat.le_refl 2, rfl, rfl, rfl⟩⟩
    change blk < 2 ^ computeTreeDepth (computeNumBlocks 0x200000)
    change count.toNat ≤ 0x200000 at limit
    rw [depth]
    simp only [partStart, partEnd, blockSize, UInt32.toNat_zero] at bounds
    omega
  · intro blk member whole
    rw [sevensRequest_available inside]
    rfl

theorem sevensRequest_anew {server : ZFileServer} (small : padding.toNat ≤ 2 ^ 31)
    (different : ∀ cached, server.cachedReq = some cached →
      (sevensRequest padding count).isSemanticallyEquivalent cached ≠ .ok true)
    (matching : ∀ vbuf, server.cachedVbuf = some vbuf →
      vbuf.buffer.length = 61 + padding.toNat + count.toNat ∧
        vbuf.headerOffset = 61 + padding.toNat) :
    server.AnsweredAnew sevensCache (sevensRequest padding count) := by
  have size := sevensRequest_fullSize inside padding
  have limit := UInt32.le_iff_toNat_le.mp inside
  change count.toNat ≤ 0x200000 at limit
  refine ⟨different, fun vbuf kept _ _ => ?_, fun _ _ => ?_, ?_⟩
  · rw [size]
    exact matching vbuf kept
  · rw [size, fastCaseCushion]
    omega
  · intro blk member whole
    change onesHash ≠ zeroHash
    decide

end Sevens

/-- The request, with what the memory held. -/
def sevensServing (padding count : UInt32) : Serving :=
  ⟨sevensRequest padding count, fun _ => 0, fun _ => 0⟩

/-- A large reply is prepared, and the next one is written into its buffer, which it fills. -/
theorem replies_fresh_recycled :
    new.RepliesFresh sevensCache [sevensServing 0 0x100000, sevensServing 0 0x125800] := by
  have first : new.AnsweredAnew sevensCache (sevensRequest 0 0x100000) :=
    sevensRequest_anew (by decide) 0 (by decide) nofun nofun
  refine replies_fresh_of_answered_anew ?_ ⟨first, ?_⟩
  · intro serving member
    simp only [mem_cons, not_mem_nil, or_false] at member
    rcases member with rfl | rfl
    · exact ⟨⟨false, (sevensRequest 0 0x100000).bytes, by decide⟩, rfl⟩
    · exact ⟨⟨false, (sevensRequest 0 0x125800).bytes, by decide⟩, rfl⟩
  · intro packet next served
    have size : sevensCache.fullSize (sevensRequest 0 0x100000) = 61 + 0x100000 :=
      sevensRequest_fullSize (by decide) 0
    obtain ⟨reply, fresh⟩ := exists_freshReply (sevensRequest_answerable (by decide) 0)
      first.marked (by rw [size]; decide) (fun _ => 0)
    obtain ⟨after, prepared, -, holds⟩ :=
      @Sound.serve sevensCache (fun _ => 0) reply new (sevensServing 0 0x100000) new_sound first
        (by decide) fresh
    cases Except.ok.inj (served.symm.trans prepared)
    obtain ⟨cachedReq, -, vbuf, cachedVbuf, length_eq, header_eq⟩ :=
      holds ⟨by decide, Nat.le_trans (by decide) (Nat.le_of_eq size.symm)⟩
    refine ⟨sevensRequest_anew (by decide) 0 (by decide) ?_ ?_, fun _ _ _ => trivial⟩
    · intro cached kept
      rw [cachedReq] at kept
      cases kept
      decide
    · intro other kept
      rw [cachedVbuf] at kept
      cases kept
      exact ⟨length_eq.trans (congrArg (· + fastCaseCushion) size), header_eq⟩

/-- A request for a large reply, made twice, gets a reply with bytes that are not
part of it. -/
theorem repeated_reply_not_fresh :
    ¬new.RepliesFresh sevensCache [sevensServing 0 0x100000, sevensServing 0 0x100000] := by
  intro fresh
  have anew : new.AnsweredAnew sevensCache (sevensRequest 0 0x100000) :=
    sevensRequest_anew (by decide) 0 (by decide) nofun nofun
  have size : sevensCache.fullSize (sevensRequest 0 0x100000) = 61 + 0x100000 :=
    sevensRequest_fullSize (by decide) 0
  obtain ⟨packet, reply⟩ := exists_freshReply (sevensRequest_answerable (by decide) 0)
    anew.marked (by rw [size]; decide) (fun _ => 0)
  obtain ⟨next, longer, first, second, length_eq⟩ := @Sound.serve_again sevensCache
    (fun _ => 0) packet new (sevensServing 0 0x100000) (sevensServing 0 0x100000) new_sound
    anew (by decide) ⟨by decide, Nat.le_trans (by decide) (Nat.le_of_eq size.symm)⟩ rfl rfl reply
  have both : [sevensServing 0 0x100000, sevensServing 0 0x100000].mapM
      (fun serving => sevensCache.freshReply (fun _ => 0) serving.request) =
      .ok [packet, packet] := by
    have same : sevensCache.freshReply (fun _ => 0) (sevensServing 0 0x100000).request =
        .ok packet := reply
    rw [mapM_cons, same, ok_bind, mapM_cons, same, ok_bind]
    rfl
  have sent := fresh (fun _ => 0) _ both
  rw [run, first, ok_bind] at sent
  obtain ⟨rest, ran, returned⟩ := of_bind sent
  cases returned
  obtain ⟨⟨again, last⟩, served, finished⟩ := of_bind ran
  rw [served] at second
  cases second
  cases finished
  dsimp only [fastCaseCushion] at length_eq
  omega

end ZFileServer

end Embassies.Zftp
