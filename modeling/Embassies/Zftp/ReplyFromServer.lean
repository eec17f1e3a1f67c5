import Embassies.Zftp.Reply

/-!
# Received replies

`ZFileReplyFromServer` takes a received packet apart.  The number of records is
taken from a field of sixteen bits, and pointers into the packet are offsets from
its first byte, modulo `2 ^ 32`.  Decompression is a parameter.
-/

namespace Embassies.Zftp

open Library Library.Checked

/-- What a compression stream makes of a payload, with the size that is expected. -/
abbrev Decompress := CompressionContext → List UInt8 → Nat → List UInt8

/-- A valid `ZFileReplyFromServer`. -/
structure ZFileReplyFromServer where
  zcb : List UInt8
  zdp : ZFTPDataPacket
  payloadOffset : Nat
  uncompressed : Option (List UInt8)
deriving DecidableEq

namespace ZFileReplyFromServer

/-- `get_num_merkle_records`. -/
def getNumMerkleRecords (reply : ZFileReplyFromServer) : Nat :=
  reply.zdp.numMerkleRecords.toNat

/-- A reply with the length of the file and some records. -/
def ofRecords (fileLen : UInt32) (records : List ZFTPMerkleRecord) : ZFileReplyFromServer :=
  let zdp : ZFTPDataPacket := ⟨⟨replyData, 20, 16, 2, onesHash, ⟨fileLen, 0⟩,
    UInt16.ofNat records.length, 0, ⟨noCompression, 0⟩, 0, 0⟩, 0⟩
  ⟨ZFTPDataPacket.format.encode zdp ++ records.flatMap ZFTPMerkleRecord.format.encode,
    zdp, dataPacketSize + merkleRecordSize * records.length, none⟩

/-- The record at a place. -/
def merkleRecord (reply : ZFileReplyFromServer) (i : Nat) : ZFTPMerkleRecord :=
  ZFTPMerkleRecord.format.read (reply.zcb.drop (dataPacketSize + merkleRecordSize * i))

/-- All records, as `get_merkle_record` gives them. -/
def merkleRecords (reply : ZFileReplyFromServer) : List ZFTPMerkleRecord :=
  (List.range reply.getNumMerkleRecords).map reply.merkleRecord

/-- `get_data_start` and `get_data_end`. -/
def dataRange (reply : ZFileReplyFromServer) : DataRange :=
  ⟨reply.zdp.dataStart, reply.zdp.dataEnd⟩

/-- `get_payload`, with its length. -/
def getPayload (reply : ZFileReplyFromServer) : List UInt8 :=
  reply.uncompressed.getD (reply.zcb.drop reply.payloadOffset)

/-- The decompression of the constructor; none is an invalid reply. -/
def inflate (decompress : Decompress) (zcb : List UInt8) (zdp : ZFTPDataPacket)
    (payloadOffset : Nat) : Option ZFileReplyFromServer :=
  let payload := zcb.drop payloadOffset
  let range : DataRange := ⟨zdp.dataStart, zdp.dataEnd⟩
  if zdp.compressionContext.stateId = noCompression ∨ payload = [] then
    some ⟨zcb, zdp, payloadOffset, none⟩
  else
    let output := decompress zdp.compressionContext payload (range.size + 1).toNat
    if output.length = range.size.toNat then
      some ⟨zcb, zdp, payloadOffset, some output⟩
    else none

/-- The part of the constructor behind the check of the header. -/
def ofPacket (decompress : Decompress) (zcb : List UInt8) (zdp : ZFTPDataPacket) :
    Except Fault (Option ZFileReplyFromServer) := do
  let records := dataPacketSize + merkleRecordSize * zdp.numMerkleRecords.toNat
  ensure (records ≤ zcb.length) .assertion
  let prefixBytes := (records + zdp.paddingSize.toNat) % 2 ^ 32
  return if zcb.length < prefixBytes then none
    else inflate decompress zcb zdp prefixBytes

/-- The constructor; an invalid reply is none. -/
def new (decompress : Decompress) (zcb : List UInt8) :
    Except Fault (Option ZFileReplyFromServer) :=
  if zcb.length < 2 ∨ Format.uint16.read zcb ≠ replyData ∨ zcb.length < dataPacketSize then
    .ok none
  else
    ofPacket decompress zcb (ZFTPDataPacket.format.read zcb)

end ZFileReplyFromServer

end Embassies.Zftp
