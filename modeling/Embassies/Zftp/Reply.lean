import Embassies.Zftp.CachedFile
import Embassies.Zftp.Request

/-!
# Replies

A reply is a packed header, the requested records of the Merkle tree, as much
padding as was asked for, and the bytes of the file.  `fill_reply` writes one
into a buffer, whose header part grows with each `write_header` and whose data
are written behind it.  `ValidatedZCB` remembers for every whole block of data
the hash of the block that it holds, and skips a copy when the hash is the same.
-/

namespace Embassies.Zftp

open Library Library.Buffer Library.Checked

/-! ## Packets -/

/-- `ZFTPDataPacket`, without its last field. -/
structure ZFTPDataHeader where
  code : UInt16
  hashLen : UInt16
  zftpLgBlockSize : UInt8
  zftpTreeDegree : UInt16
  fileHash : Hash
  metadata : ZFTPFileMetadata
  numMerkleRecords : UInt16
  paddingSize : UInt32
  compressionContext : CompressionContext
  dataStart : UInt32
  dataEnd : UInt32
deriving DecidableEq

/-- The layout of the fields before the last one. -/
def ZFTPDataHeader.format : Format ZFTPDataHeader :=
  (Format.uint16.pair <| Format.uint16.pair <| Format.uint8.pair <|
    Format.uint16.pair <| Hash.format.pair <| ZFTPFileMetadata.format.pair <|
    Format.uint16.pair <| Format.uint32.pair <| CompressionContext.format.pair <|
    Format.uint32.pair Format.uint32).rename
    { toFun := fun header =>
        (header.code, header.hashLen, header.zftpLgBlockSize, header.zftpTreeDegree,
          header.fileHash, header.metadata, header.numMerkleRecords,
          header.paddingSize, header.compressionContext, header.dataStart,
          header.dataEnd)
      invFun := fun (code, hashLen, zftpLgBlockSize, zftpTreeDegree, fileHash,
          metadata, numMerkleRecords, paddingSize, compressionContext, dataStart,
          dataEnd) =>
        ⟨code, hashLen, zftpLgBlockSize, zftpTreeDegree, fileHash, metadata,
          numMerkleRecords, paddingSize, compressionContext, dataStart, dataEnd⟩
      left_inv := fun _ => rfl
      right_inv := fun _ => rfl }

/-- `ZFTPDataPacket`. -/
structure ZFTPDataPacket extends ZFTPDataHeader where
  payloadSize : UInt32
deriving DecidableEq

/-- The layout of the header of a reply. -/
def ZFTPDataPacket.format : Format ZFTPDataPacket :=
  (ZFTPDataHeader.format.pair Format.uint32).rename
    ⟨fun packet => (packet.toZFTPDataHeader, packet.payloadSize),
      fun parts => ⟨parts.1, parts.2⟩, fun _ => rfl, fun _ => rfl⟩

/-- `sizeof(ZFTPDataPacket)`. -/
def dataPacketSize : Nat := ZFTPDataPacket.format.size

/-- `ZFTPMerkleRecord`. -/
structure ZFTPMerkleRecord where
  treeLocation : UInt32
  hash : Hash
deriving DecidableEq

/-- The layout of a record of the tree. -/
def ZFTPMerkleRecord.format : Format ZFTPMerkleRecord :=
  (Format.uint32.pair Hash.format).rename
    ⟨fun zmr => (zmr.treeLocation, zmr.hash), fun parts => ⟨parts.1, parts.2⟩,
      fun _ => rfl, fun _ => rfl⟩

/-- `sizeof(ZFTPMerkleRecord)`. -/
def merkleRecordSize : Nat := ZFTPMerkleRecord.format.size

/-- `zftp_reply_data`. -/
def replyData : UInt16 := 0

/-! ## Buffers -/

/-- The hash of twenty zeros. -/
def zeroHash : Hash := ⟨List.replicate 20 0, rfl⟩

/-- The hash of twenty ones. -/
def onesHash : Hash := ⟨List.replicate 20 1, rfl⟩

/-- `ValidatedZCB`. -/
structure ValidatedZCB where
  buffer : List UInt8
  headerOffset : Nat
  hashes : Nat → Hash

namespace ValidatedZCB

/-- The constructor. -/
def new (buffer : List UInt8) : ValidatedZCB := ⟨buffer, 0, fun _ => zeroHash⟩

/-- How many hashes there is memory for. -/
def numHashes (vbuf : ValidatedZCB) : Nat := vbuf.buffer.length / blockSize

/-- `write_header`; the caller takes the old end of the header. -/
def writeHeader (vbuf : ValidatedZCB) (len : Nat) : ValidatedZCB :=
  { vbuf with headerOffset := (vbuf.headerOffset + len) % 2 ^ 32 }

/-- A store through a pointer into the buffer. -/
def store (vbuf : ValidatedZCB) (offset : Nat) (bytes : List UInt8) :
    Except Fault ValidatedZCB := do
  let buffer ← write .outOfBounds vbuf.buffer offset bytes
  return { vbuf with buffer }

/-- A copy of a part of a block behind the header. -/
def copyBlock (vbuf : ValidatedZCB) (block : ZBlockCacheRecord)
    (dataOffset blockOffset len : Nat) : Except Fault ValidatedZCB := do
  let bytes ← block.read blockOffset len
  vbuf.store (vbuf.headerOffset + dataOffset) bytes

/-- `write_data` of a whole block. -/
def writeWhole (vbuf : ValidatedZCB) (hash : Hash) (block : ZBlockCacheRecord)
    (dataOffset blockOffset len : Nat) : Except Fault ValidatedZCB := do
  ensure (blockOffset = 0) .assertion
  ensure (dataOffset % blockSize = 0) .assertion
  ensure (dataOffset / blockSize < vbuf.numHashes) .outOfBounds
  if hash = vbuf.hashes (dataOffset / blockSize) then
    return vbuf
  else
    let vbuf ← vbuf.copyBlock block dataOffset blockOffset len
    return { vbuf with hashes := Function.update vbuf.hashes (dataOffset / blockSize) hash }

/-- `write_data`. -/
def writeData (vbuf : ValidatedZCB) (hash : Hash) (block : ZBlockCacheRecord)
    (dataOffset blockOffset len : UInt32) : Except Fault ValidatedZCB :=
  if len.toNat = blockSize then
    vbuf.writeWhole hash block dataOffset.toNat blockOffset.toNat len.toNat
  else
    vbuf.copyBlock block dataOffset.toNat blockOffset.toNat len.toNat

/-- `get_payload_len`. -/
def getPayloadLen (vbuf : ValidatedZCB) : UInt32 :=
  UInt32.ofNat vbuf.buffer.length - UInt32.ofNat vbuf.headerOffset

/-- `get_packet_len`. -/
def getPacketLen (vbuf : ValidatedZCB) : UInt32 :=
  UInt32.ofNat vbuf.headerOffset + vbuf.getPayloadLen

/-- `recycle`. -/
def recycle (vbuf : ValidatedZCB) : ValidatedZCB := { vbuf with headerOffset := 0 }

end ValidatedZCB

/-! ## `ValidFileResult` -/

namespace ZCachedFile

/-- `get_available_data_range`. -/
def getAvailableDataRange (file : ZCachedFile) (request : ZFileRequest) :
    Except Fault DataRange := do
  let fileRange ← file.getFileDataRange
  return request.getDataRange.intersect fileRange

/-- `get_reply_size`. -/
def getReplySize (file : ZCachedFile) (request : ZFileRequest) :
    Except Fault Nat := do
  let range ← file.getAvailableDataRange request
  return (dataPacketSize + merkleRecordSize * request.getNumTreeLocations +
    request.zrp.paddingRequest.toNat + range.size.toNat) % 2 ^ 32

/-- The fields that `fill_reply` sets at once. -/
def dataHeader (file : ZCachedFile) (request : ZFileRequest) (range : DataRange) :
    ZFTPDataHeader where
  code := replyData
  hashLen := UInt16.ofNat Hash.format.size
  zftpLgBlockSize := 16
  zftpTreeDegree := 2
  fileHash := file.fileHash
  metadata := file.metadata
  numMerkleRecords := UInt16.ofNat request.getNumTreeLocations
  paddingSize := request.zrp.paddingRequest
  compressionContext := ⟨noCompression, 0⟩
  dataStart := range.start
  dataEnd := range.finish

/-- One record of the reply. -/
def writeRecord (file : ZCachedFile) (request : ZFileRequest) (zmr : Nat)
    (vbuf : ValidatedZCB) (idx : Nat) : Except Fault ValidatedZCB := do
  let location ← request.getTreeLocation idx
  let vmr ← file.getValidatedMerkleRecord location.toNat
  vbuf.store (zmr + merkleRecordSize * idx)
    (ZFTPMerkleRecord.format.encode ⟨location, vmr.hash⟩)

/-- The records of the reply. -/
def writeRecords (file : ZCachedFile) (request : ZFileRequest)
    (vbuf : ValidatedZCB) : Except Fault ValidatedZCB :=
  let zmr := vbuf.headerOffset
  let vbuf := vbuf.writeHeader (merkleRecordSize * request.getNumTreeLocations)
  (List.range request.getNumTreeLocations).foldlM (file.writeRecord request zmr) vbuf

/-- The padding of the reply. -/
def writePadding (request : ZFileRequest) (vbuf : ValidatedZCB) :
    Except Fault ValidatedZCB :=
  let padding := vbuf.headerOffset
  let vbuf := vbuf.writeHeader request.zrp.paddingRequest.toNat
  vbuf.store padding (List.replicate request.zrp.paddingRequest.toNat 0)

/-- `fill_reply`. -/
def fillReply (file : ZCachedFile) (cache : ZBlockCache) (request : ZFileRequest)
    (vbuf : ValidatedZCB) : Except Fault ValidatedZCB := do
  let zdp := vbuf.headerOffset
  let vbuf := vbuf.writeHeader dataPacketSize
  let range ← file.getAvailableDataRange request
  let vbuf ← vbuf.store zdp
    (ZFTPDataHeader.format.encode (file.dataHeader request range))
  let vbuf ← file.writeRecords request vbuf
  let vbuf ← writePadding request vbuf
  let vbuf ← file.writeBlocksToBuf ValidatedZCB.writeData cache vbuf 0 range.start
    range.size
  vbuf.store (zdp + ZFTPDataHeader.format.size)
    (Format.uint32.encode vbuf.getPayloadLen)

end ZCachedFile

end Embassies.Zftp
