import Embassies.Zftp.ReplyCache
import Embassies.Zftp.ReplyFromServer

/-!
# Replies that are read back

For which requests the packet that `fill_reply` writes into a new buffer is read
back as the requested records, the metadata of the file and its bytes.
-/

namespace Embassies.Zftp

open Library Library.Buffer Library.Checked List

open OutboundRequest (mfMalloc_length)

namespace ZCachedFile

variable {file : ZCachedFile} {cache : ZBlockCache} {request : ZFileRequest}

/-! ## Taking a reply apart -/

/-- The header of a reply. -/
def replyPacket (file : ZCachedFile) (request : ZFileRequest) : ZFTPDataPacket :=
  ⟨file.dataHeader request (file.available request), (file.available request).size⟩

/-- A reply in which the payload has the size that is available. -/
abbrev sizedReply (file : ZCachedFile) (request : ZFileRequest) (data : List UInt8) :
    List UInt8 :=
  file.replyWith request (file.available request).size data

theorem sizedReply_eq (file : ZCachedFile) (request : ZFileRequest) (data : List UInt8) :
    file.sizedReply request data = ZFTPDataPacket.format.encode (file.replyPacket request) ++
        (file.recordBytes request ++ (replicate request.zrp.paddingRequest.toNat 0 ++ data)) := by
  rw [sizedReply, replyWith, ← append_assoc]
  rfl

theorem read_code_sizedReply (data : List UInt8) :
    Format.uint16.read (file.sizedReply request data) = replyData := by
  have front : ∃ rest, ZFTPDataHeader.format.encode
      (file.dataHeader request (file.available request)) =
      Format.uint16.encode replyData ++ rest := ⟨_, rfl⟩
  obtain ⟨rest, encoded⟩ := front
  rw [sizedReply, replyWith, headerBytes, encoded, append_assoc, Format.read_append]

section Answered

variable {data : List UInt8} (answerable : file.Answerable cache request)

include answerable

theorem Answerable.header_length : (ZFTPDataPacket.format.encode (file.replyPacket request) ++
      ((range request.getNumTreeLocations).flatMap (file.replyRecord request) ++
        replicate request.zrp.paddingRequest.toNat 0)).length =
      headerSize request := by
  rw [length_append, length_append, Format.encode_length, answerable.sizes.2.2.2,
    length_replicate, ← Nat.add_assoc]
  rfl

theorem Answerable.drop_sizedReply :
    (file.sizedReply request data).drop (headerSize request) = data := by
  rw [sizedReply_eq, ← append_assoc, ← append_assoc, append_assoc
    (ZFTPDataPacket.format.encode (file.replyPacket request))]
  exact drop_left' answerable.header_length

theorem Answerable.new_sizedReply
    (decompress : Decompress) (count : request.getNumTreeLocations < 2 ^ 16)
    (small : headerSize request + data.length < 2 ^ 32) :
    ZFileReplyFromServer.new decompress (file.sizedReply request data) = .ok (some
      ⟨file.sizedReply request data, file.replyPacket request, headerSize request, none⟩) := by
  have total : headerSize request = dataPacketSize +
      merkleRecordSize * request.getNumTreeLocations +
      request.zrp.paddingRequest.toNat := rfl
  have length_eq : (file.sizedReply request data).length = headerSize request + data.length :=
    answerable.replyWith_length _ data
  have large : 2 ≤ dataPacketSize := by decide
  have counted : (file.replyPacket request).numMerkleRecords.toNat =
      request.getNumTreeLocations := by
    change (UInt16.ofNat request.getNumTreeLocations).toNat = _
    rw [UInt16.toNat_ofNat', Nat.mod_eq_of_lt count]
  have padding : (file.replyPacket request).paddingSize.toNat =
      request.zrp.paddingRequest.toNat := rfl
  have parsed : ZFTPDataPacket.format.read (file.sizedReply request data) =
      file.replyPacket request := by
    rw [sizedReply_eq, Format.read_append]
  have accepted : ¬((file.sizedReply request data).length < 2 ∨
      Format.uint16.read (file.sizedReply request data) ≠ replyData ∨
      (file.sizedReply request data).length < dataPacketSize) := by
    rw [read_code_sizedReply]
    simp only [ne_eq, not_true_eq_false, false_or]
    omega
  rw [ZFileReplyFromServer.new, if_neg accepted, parsed, ZFileReplyFromServer.ofPacket,
    counted, padding, ensure_true (by omega), ok_bind, ← total,
    Nat.mod_eq_of_lt (by omega)]
  dsimp only
  have plain : (file.replyPacket request).compressionContext.stateId = noCompression := rfl
  rw [if_neg (by omega), ZFileReplyFromServer.inflate, if_pos (Or.inl plain)]
  rfl

theorem Answerable.read_record
    {idx : Nat} {location : UInt32} (inside : idx < request.getNumTreeLocations)
    (found : request.getTreeLocation idx = .ok location) :
    ZFTPMerkleRecord.format.read ((file.sizedReply request data).drop
      (dataPacketSize + merkleRecordSize * idx)) =
      ⟨location, (file.tree location.toNat).hash⟩ := by
  obtain ⟨rest, count⟩ := Nat.exists_eq_add_of_lt inside
  have packet : (ZFTPDataPacket.format.encode (file.replyPacket request)).length =
      dataPacketSize := ZFTPDataPacket.format.encode_length _
  have records := answerable.records_length (show 0 + idx ≤ _ by omega)
  have split : (range request.getNumTreeLocations).flatMap (file.replyRecord request) =
      (range' 0 idx).flatMap (file.replyRecord request) ++
        (ZFTPMerkleRecord.format.encode ⟨location, (file.tree location.toNat).hash⟩ ++
          (range' (idx + 1) rest).flatMap (file.replyRecord request)) := by
    have here : file.replyRecord request idx = ZFTPMerkleRecord.format.encode
        ⟨location, (file.tree location.toNat).hash⟩ := by
      rw [replyRecord, found]
    rw [← here, ← flatMap_cons, ← range'_succ, ← flatMap_append, range_eq_range', count]
    have joined := @range'_append_1 0 idx (rest + 1)
    rw [Nat.zero_add] at joined
    rw [joined, Nat.add_assoc]
  rw [sizedReply_eq, recordBytes, split, ← drop_drop, drop_left' packet, append_assoc,
    drop_left' records, append_assoc, Format.read_append]

end Answered

/-! ## A block that is never copied -/

variable {vbuf : ValidatedZCB}

section Data

variable {offset size : UInt32} {after : ValidatedZCB}
  (fits : offset.toNat + size.toNat ≤ file.getFilelen.toNat)
  (done : file.writeBlocksToBuf ValidatedZCB.writeData cache vbuf 0 offset size = .ok after)

include fits done

/-- A whole block whose hash marks an empty slot is not copied into a new buffer. -/
theorem writeBlocksToBuf_skips {blk : Nat} (servable : file.Servable cache offset.toNat size.toNat)
    (whole : Whole offset.toNat size.toNat blk)
    (unmarked : (file.tree (2 ^ file.treeDepth - 1 + blk)).hash = zeroHash)
    (empty : ∀ index, vbuf.hashes index = zeroHash) :
    after.buffer[vbuf.headerOffset + written offset.toNat size.toNat blk]? =
      vbuf.buffer[vbuf.headerOffset + written offset.toNat size.toNat blk]? := by
  have limit := file.getFilelen.toNat_lt
  rw [writeBlocksToBuf_eq fits] at done
  generalize start : offset.toNat = first at *
  generalize size.toNat = count at *
  let holds (state : ValidatedZCB) : Prop := state.headerOffset = vbuf.headerOffset ∧
    state.hashes (written first count blk / blockSize) = zeroHash ∧
    state.buffer[vbuf.headerOffset + written first count blk]? =
      vbuf.buffer[vbuf.headerOffset + written first count blk]?
  have kept : ∀ (state : ValidatedZCB) (other : Nat) (next : ValidatedZCB),
      other ∈ touched first count → holds state →
      file.writePart ValidatedZCB.writeData cache 0 first count state other =
        .ok next → holds next := by
    rintro state other next member ⟨header, slot, same⟩ stepped
    rcases (writePart_effect (by omega) member stepped).2.2 with rfl | ⟨room, differs, rfl⟩
    · exact ⟨header, slot, same⟩
    · have partSize : (partBytes (file.blockData cache) first count other).length =
          partEnd first count other - partStart first other :=
        partBytes_length member (blockData_length (servable.blocks _ member))
      have distinct : other ≠ blk := by
        rintro rfl
        exact differs whole (unmarked.trans slot.symm)
      refine ⟨header, ?_, ?_⟩
      · rw [ValidatedZCB.withPart]
        dsimp only
        split
        · rw [Function.update_of_ne _, slot]
          simp only [Whole, written, partStart, partEnd, blockSize] at *
          omega
        · exact slot
      · rw [← same]
        refine getElem?_patch_outside room ?_
        simp only [Whole, written, partStart, partEnd, blockSize] at *
        omega
  exact (foldlM_invariant kept ⟨rfl, empty _, rfl⟩ done).2.2

end Data

/-- A reply in a new buffer has its data behind the header part, and these are what
`write_blocks_to_buf` left there. -/
theorem Answerable.fillReply_new (answerable : file.Answerable cache request)
    {buffer : List UInt8} (small : file.fullSize request < 2 ^ 32)
    (exact : buffer.length = file.fullSize request)
    (filled : file.fillReply cache request (ValidatedZCB.new buffer) = .ok vbuf) :
    ∃ data after, data.length = (file.available request).size.toNat ∧
      vbuf.packet = file.sizedReply request data ∧
      file.writeBlocksToBuf ValidatedZCB.writeData cache
        ⟨file.withHeaders request buffer, headerSize request, fun _ => zeroHash⟩ 0
        (file.available request).start (file.available request).size = .ok after ∧
      after.buffer = patch (file.withHeaders request buffer) (headerSize request) data := by
  have full : file.fullSize request =
      headerSize request + (file.available request).size.toNat := rfl
  have room : headerSize request ≤ buffer.length := by omega
  have headed := answerable.withHeaders_confined room
  have headedLength := headed.length
  rw [answerable.fillReply_split rfl (by change buffer.length < _; omega) room] at filled
  obtain ⟨after, blocksWritten, stored⟩ := of_bind filled
  obtain ⟨-, rfl⟩ := ValidatedZCB.store_eq_ok_iff.mp stored
  obtain ⟨placed, confined⟩ := writeBlocksToBuf_confined (file.available_fits request) blocksWritten
  dsimp only [ValidatedZCB.new] at placed confined blocksWritten
  obtain ⟨data, size, contents⟩ := confined.eq_patch (by omega) (Nat.le_refl _)
  have payload : after.getPayloadLen = (file.available request).size := by
    rw [ValidatedZCB.getPayloadLen, placed, confined.length,
      ← UInt32.ofNat_sub (by omega), headedLength, exact, full, Nat.add_sub_cancel_left,
      UInt32.ofNat_toNat]
  have dataSize : data.length = (file.available request).size.toNat := by omega
  refine ⟨data, after, dataSize, ?_, blocksWritten, contents⟩
  have parts := @Answerable.patch_withHeaders file cache request answerable buffer data
    (file.available request).size (by omega)
  rw [← contents, patch_whole] at parts
  · rw [payload, ValidatedZCB.packet_eq]
    · exact parts
    · rw [parts, answerable.replyWith_length]
      omega
  · rw [answerable.replyWith_length]
    omega

end ZCachedFile

open ZCachedFile

variable {zcache : ZCache} {request : ZFileRequest} {decompress : Decompress}

/-- A reply is what the request asked for: the records in the order of the request,
the file's hash and metadata, and its bytes in the part of the range that it has. -/
structure ZFileReplyFromServer.Answers (zcache : ZCache) (request : ZFileRequest)
    (reply : ZFileReplyFromServer) : Prop where
  count : reply.getNumMerkleRecords = request.getNumTreeLocations
  records : ∀ idx < request.getNumTreeLocations, ∃ location,
    request.getTreeLocation idx = .ok location ∧ reply.merkleRecord idx =
      ⟨location, ((zcache.fileOf request).tree location.toNat).hash⟩
  fileHash : reply.zdp.fileHash = (zcache.fileOf request).fileHash
  metadata : reply.zdp.metadata = (zcache.fileOf request).metadata
  range : reply.dataRange = (zcache.fileOf request).available request
  payload : reply.getPayload =
    (zcache.fileOf request).fileBytes zcache.blockCache
      ((zcache.fileOf request).available request).start.toNat
      ((zcache.fileOf request).available request).size.toNat

/-- Whatever a new buffer held before, the reply in it is read back as the answer. -/
def ZCache.RepliesReadBack (decompress : Decompress) (zcache : ZCache)
    (request : ZFileRequest) : Prop :=
  ∀ memory, ∃ packet reply, zcache.freshReply memory request = .ok packet ∧
    ZFileReplyFromServer.new decompress packet = .ok (some reply) ∧
    reply.Answers zcache request

/-- The server knows the file and its blocks in the requested range. -/
structure ZCache.Able (zcache : ZCache) (request : ZFileRequest) : Prop where
  metadata : (zcache.fileOf request).metadataState = .validated
  blocks : ∀ blk ∈ touched ((zcache.fileOf request).available request).start.toNat
      ((zcache.fileOf request).available request).size.toNat,
    ∃ found, (zcache.fileOf request).validBlock zcache.blockCache blk = .ok found

/-- The locations of the request can be read and are validated nodes of the tree,
their number fits into sixteen bits and the size of the reply into thirty-two, and
the range starts with a block unless it has no whole block; and none of its whole
blocks has the hash that marks an empty slot. -/
structure ZCache.Orderly (zcache : ZCache) (request : ZFileRequest) : Prop where
  records : ∀ idx < request.getNumTreeLocations, ∃ location,
    request.getTreeLocation idx = .ok location ∧
      location.toNat < (zcache.fileOf request).treeSize ∧
      ((zcache.fileOf request).tree location.toNat).state = .validated
  count : request.getNumTreeLocations < 2 ^ 16
  small : (zcache.fileOf request).fullSize request < 2 ^ 32
  aligned : ∀ blk ∈ touched ((zcache.fileOf request).available request).start.toNat
      ((zcache.fileOf request).available request).size.toNat,
    Whole ((zcache.fileOf request).available request).start.toNat
      ((zcache.fileOf request).available request).size.toNat blk →
    ((zcache.fileOf request).available request).start.toNat % blockSize = 0
  marked : (zcache.fileOf request).ReplyMarked request

/-- An orderly request is answered. -/
theorem repliesReadBack_of_orderly (able : zcache.Able request) (orderly : zcache.Orderly request) :
    zcache.RepliesReadBack decompress request := by
  intro memory
  have answerable : (zcache.fileOf request).Answerable zcache.blockCache request :=
    ⟨able.metadata, orderly.records, able.blocks, orderly.aligned⟩
  obtain ⟨packet, fresh⟩ := exists_freshReply answerable orderly.marked orderly.small memory
  have contents := freshReply_eq orderly.marked fresh
  rw [replyBytes, ← sizedReply] at contents
  have size := answerable.data_length
  have limit := orderly.small
  rw [fullSize, ← size] at limit
  have parsed := answerable.new_sizedReply decompress orderly.count limit
  rw [← contents] at parsed
  refine ⟨packet, _, fresh, parsed, ?_, fun idx inside => ?_, rfl, rfl, rfl, ?_⟩
  · change (UInt16.ofNat request.getNumTreeLocations).toNat = _
    rw [UInt16.toNat_ofNat', Nat.mod_eq_of_lt orderly.count]
  · obtain ⟨location, found, -⟩ := orderly.records idx inside
    rw [contents]
    exact ⟨location, found, answerable.read_record inside found⟩
  · rw [← rangeBytes_eq_fileBytes fun _ inside =>
      blockData_length (answerable.servable.blocks _ inside), contents]
    exact answerable.drop_sizedReply

theorem replyMarked_of_repliesReadBack
    (answerable : (zcache.fileOf request).Answerable zcache.blockCache request)
    (count : request.getNumTreeLocations < 2 ^ 16)
    (small : (zcache.fileOf request).fullSize request < 2 ^ 32)
    (readBack : zcache.RepliesReadBack decompress request) :
    (zcache.fileOf request).ReplyMarked request := by
  intro blk inside whole unmarked
  -- memory that holds another byte at the place of the block's first one
  generalize wanted : (zcache.fileOf request).fileByte zcache.blockCache
    (((zcache.fileOf request).available request).start.toNat +
      written ((zcache.fileOf request).available request).start.toNat
        ((zcache.fileOf request).available request).size.toNat blk) = byte
  obtain ⟨packet, reply, fresh, parsed, answers⟩ := readBack fun _ => byte + 1
  have sized := ZCache.replySize_eq answerable.metadata small
  rw [ZCache.freshReply, sized, ok_bind] at fresh
  obtain ⟨vbuf, filled, returned⟩ := of_bind fresh
  cases returned
  obtain ⟨data, after, size, sent, blocksWritten, contents⟩ :=
    answerable.fillReply_new small (mfMalloc_length _ _) filled
  have full : (zcache.fileOf request).fullSize request = headerSize request +
      ((zcache.fileOf request).available request).size.toNat := rfl
  rw [sent, answerable.new_sizedReply decompress count (by omega)] at parsed
  cases parsed
  have payload := answers.payload
  have dropped : ZFileReplyFromServer.getPayload ⟨(zcache.fileOf request).sizedReply request data,
        (zcache.fileOf request).replyPacket request, headerSize request, none⟩ = data :=
    answerable.drop_sizedReply
  rw [dropped] at payload
  have skipped := writeBlocksToBuf_skips ((zcache.fileOf request).available_fits request)
    blocksWritten answerable.servable whole unmarked fun _ => rfl
  have bounds := mem_touched.mp inside
  generalize ((zcache.fileOf request).available request).start.toNat = offset at *
  generalize ((zcache.fileOf request).available request).size.toNat = total at *
  have within : written offset total blk < total := by
    simp only [written, partStart, partEnd, blockSize] at *
    omega
  have headed := answerable.withHeaders_confined (show _ ≤ (mfMalloc (fun _ => byte + 1)
    ((zcache.fileOf request).fullSize request)).length by rw [mfMalloc_length]; omega)
  have length_eq := headed.length
  rw [mfMalloc_length] at length_eq
  dsimp only at skipped
  rw [contents, getElem?_patch_inside (by omega) (by omega), headed.getElem?_behind (by omega),
    payload] at skipped
  simp only [fileBytes, mfMalloc, getElem?_map, getElem?_range', within,
    getElem?_range (show headerSize request + written offset total blk <
      (zcache.fileOf request).fullSize request by omega), Option.map_some, Nat.one_mul,
    wanted] at skipped
  grind

/-- The replies to a request are read back exactly if the request is orderly. -/
theorem replies_read_back_iff (able : zcache.Able request) :
    zcache.RepliesReadBack decompress request ↔ zcache.Orderly request := by
  refine ⟨fun readBack => ?_, repliesReadBack_of_orderly able⟩
  obtain ⟨packet, reply, fresh, parsed, answers⟩ := readBack fun _ => 0
  obtain ⟨answerable, small⟩ := answerable_of_freshReply fresh
  have count : request.getNumTreeLocations < 2 ^ 16 := by
    rw [← answers.count]
    exact reply.zdp.numMerkleRecords.toNat_lt
  exact ⟨answerable.records, count, small, answerable.servable.aligned,
    replyMarked_of_repliesReadBack answerable count small readBack⟩

/-- A request for nodes of the tree and for the first bytes of the file. -/
def nodesRequest (locations : List UInt32) (count : UInt32) : ZFileRequest :=
  let zrp : ZFTPRequestPacket :=
    ⟨20, 0, zeroHash, UInt32.ofNat locations.length, 0, ⟨0, 0⟩, 0, count⟩
  ⟨ZFTPRequestPacket.format.encode zrp ++ locations.flatMap Format.uint32.encode, zrp, none⟩

open ZFileServer in
/-- The reply with three records and a part of the third block is read back. -/
theorem replies_read_back_blocks : sevensCache.Able (nodesRequest [1, 2, 32] 0x20005) ∧
      sevensCache.RepliesReadBack (fun _ _ _ => []) (nodesRequest [1, 2, 32] 0x20005) := by
  have servable := (@sevensRequest_answerable 0x20005 (by decide) 0).servable
  have able : sevensCache.Able (nodesRequest [1, 2, 32] 0x20005) := ⟨rfl, servable.blocks⟩
  refine ⟨able, (replies_read_back_iff able).mpr ⟨by decide +kernel, by decide, by decide,
    servable.aligned, ?_⟩⟩
  intro blk inside whole
  change onesHash ≠ zeroHash
  decide

open ZFileServer in
/-- The tree of a file of 32 blocks has no node at location 63, but the request for it is
accepted. -/
theorem stray_request_not_read_back :
    ZFileRequest.parse false (nodesRequest [63] 0).bytes = .ok (some (nodesRequest [63] 0)) ∧
      sevensCache.Able (nodesRequest [63] 0) ∧
      ¬sevensCache.RepliesReadBack (fun _ _ _ => []) (nodesRequest [63] 0) := by
  refine ⟨by decide, ⟨rfl, fun blk inside => ?_⟩, fun readBack => ?_⟩
  · have none : touched (0 : UInt32).toNat (⟨0, 0⟩ : DataRange).size.toNat = [] := by decide
    exact absurd (none ▸ inside) not_mem_nil
  · obtain ⟨packet, reply, fresh, -⟩ := readBack fun _ => 0
    have refused : ¬∃ packet, sevensCache.freshReply (fun _ => 0) (nodesRequest [63] 0) =
        .ok packet := by
      decide +kernel
    exact refused ⟨packet, fresh⟩

end Embassies.Zftp
