import Embassies.Zftp.Reply
import Embassies.Zftp.RequestCodec

/-!
# Records of the cache database

A name record or a cached file is written twice: first into a datum without memory, which
counts, and then into one that is allocated with the length counted.  Each part has its
length in front of it.  Read back, the parts are those that were written.
-/

namespace Embassies.Zftp

open Library Library.Checked List

/-- `ZDBDatum`: a datum without data counts, and `marshal_ptr` divides other data. -/
inductive ZDBDatum where
  | counting (length : Nat)
  | memory (passed ahead : List UInt8)

namespace ZDBDatum

/-- Store bytes and pass them; what `_assert_no_overrun` refuses has no memory. -/
def put : ZDBDatum → List UInt8 → Except Fault ZDBDatum
  | counting length, bytes => .ok (counting (length + bytes.length))
  | memory passed ahead, bytes => do
    ensure (bytes.length ≤ ahead.length) .outOfBounds
    return memory (passed ++ bytes) (ahead.drop bytes.length)

/-- `write_buf`. -/
def writeBuf (datum : ZDBDatum) (buf : List UInt8) : Except Fault ZDBDatum := do
  let datum ← datum.put (Format.host32.encode (UInt32.ofNat buf.length))
  datum.put buf

/-- Load bytes and pass them. -/
def get (count : Nat) : ZDBDatum → Except Fault (List UInt8 × ZDBDatum)
  | counting _ => .error .nullPointer
  | memory passed ahead => do
    let (bytes, ahead) ← Buffer.read .outOfBounds count ahead
    return (bytes, memory (passed ++ bytes) ahead)

/-- `read_uint32`. -/
def readUint32 (datum : ZDBDatum) : Except Fault (UInt32 × ZDBDatum) := do
  let (value, datum) ← datum.get 4
  return (Format.host32.decode value, datum)

/-- `read_buf`. -/
def readBuf (capacity : Nat) (datum : ZDBDatum) : Except Fault (List UInt8 × ZDBDatum) := do
  let (outLen, datum) ← datum.readUint32
  ensure (outLen.toNat ≤ capacity) .assertion
  datum.get outLen.toNat

/-- `read_buf` into a value. -/
def readValue {α : Type} (format : Format α) (datum : ZDBDatum) :
    Except Fault (α × ZDBDatum) := do
  let (buf, datum) ← datum.readBuf format.size
  return (format.decode buf, datum)

/-- `read_str`. -/
def readStr (datum : ZDBDatum) : Except Fault (List UInt8 × ZDBDatum) := do
  let (objLen, datum) ← datum.readUint32
  let (object, datum) ← datum.get objLen.toNat
  ensure (object.getLast? = some 0) .assertion
  let str ← ZFileRequest.cString object
  return (str, datum)

/-- A part with its length in front of it. -/
def frame (part : List UInt8) : List UInt8 :=
  Format.host32.encode (UInt32.ofNat part.length) ++ part

variable {passed part ahead : List UInt8}

theorem writeBuf_counting (length : Nat) :
    writeBuf (counting length) part = .ok (counting (length + (frame part).length)) := by
  rw [frame, length_append, ← Nat.add_assoc]
  rfl

theorem writeBuf_memory (fits : (frame part).length ≤ ahead.length) :
    writeBuf (memory passed ahead) part =
      .ok (memory (passed ++ frame part) (ahead.drop (frame part).length)) := by
  rw [frame, length_append] at fits ⊢
  rw [writeBuf, put, ensure_true (by omega), ok_bind, pure_eq_ok, ok_bind, put,
    ensure_true (by rw [length_drop]; omega), ok_bind, drop_drop, append_assoc]
  rfl

theorem foldlM_counting (parts : List (List UInt8)) (length : Nat) :
    parts.foldlM writeBuf (counting length) =
      .ok (counting (length + (parts.flatMap frame).length)) := by
  induction parts generalizing length with
  | nil => rfl
  | cons part parts induction =>
    rw [foldlM_cons, writeBuf_counting, ok_bind, induction, flatMap_cons, length_append,
      Nat.add_assoc]

theorem foldlM_memory {parts : List (List UInt8)}
    (exact : ahead.length = (parts.flatMap frame).length) :
    parts.foldlM writeBuf (memory passed ahead) =
      .ok (memory (passed ++ parts.flatMap frame) []) := by
  induction parts generalizing passed ahead with
  | nil =>
    rw [length_eq_zero_iff.mp exact, flatMap_nil, append_nil]
    rfl
  | cons part parts induction =>
    rw [flatMap_cons, length_append] at exact
    rw [foldlM_cons, writeBuf_memory (by omega), ok_bind,
      induction (by rw [length_drop]; omega), flatMap_cons, append_assoc]

theorem get_append : get part.length (memory passed (part ++ ahead)) =
      .ok (part, memory (passed ++ part) ahead) := by
  rw [get, Buffer.read_append rfl, ok_bind]
  rfl

theorem readUint32_frame : readUint32 (memory passed (frame part ++ ahead)) =
      .ok (UInt32.ofNat part.length,
        memory (passed ++ Format.host32.encode (UInt32.ofNat part.length)) (part ++ ahead)) := by
  have length := @get_append passed (Format.host32.encode (UInt32.ofNat part.length))
    (part ++ ahead)
  rw [Format.encode_length] at length
  rw [frame, append_assoc, readUint32, show 4 = Format.host32.size from rfl, length, ok_bind]
  exact congrArg (fun value => Except.ok (value, _)) (Format.decode_encode _ _)

theorem readBuf_frame {capacity : Nat} (short : part.length < 2 ^ 32)
    (fits : part.length ≤ capacity) :
    readBuf capacity (memory passed (frame part ++ ahead)) =
      .ok (part, memory (passed ++ frame part) ahead) := by
  simp only [readBuf, readUint32_frame, ok_bind, UInt32.toNat_ofNat_of_lt' short,
    ensure_true fits, get_append, append_assoc]
  rfl

theorem readValue_frame {α : Type} {format : Format α} (short : format.size < 2 ^ 32)
    (value : α) : readValue format (memory passed (frame (format.encode value) ++ ahead)) =
      .ok (value, memory (passed ++ frame (format.encode value)) ahead) := by
  have size := format.encode_length value
  rw [readValue, readBuf_frame (by omega) (Nat.le_of_eq size), ok_bind]
  exact congrArg (fun value => Except.ok (value, _)) (format.decode_encode value)

theorem readStr_frame {str : List UInt8} (short : (str ++ [0]).length < 2 ^ 32)
    (noNull : 0 ∉ str) : readStr (memory passed (frame (str ++ [0]) ++ ahead)) =
      .ok (str, memory (passed ++ frame (str ++ [0])) ahead) := by
  simp only [readStr, readUint32_frame, ok_bind, UInt32.toNat_ofNat_of_lt' short, get_append,
    ensure_true getLast?_concat, ZFileRequest.cString_append noNull, pure_eq_ok]
  rw [append_assoc, ← frame]

end ZDBDatum

/-! ## Records -/

/-- `FreshnessSeal`, with the bits of its time. -/
structure FreshnessSeal where
  mtime : UInt32

/-- The layout of a seal. -/
def FreshnessSeal.format : Format FreshnessSeal :=
  Format.host32.rename ⟨mtime, mk, fun _ => rfl, fun _ => rfl⟩

/-- `ZNameRecord`, whose origin is known by its name: with the lengths, the hash and the seal
it fits into an `int`. -/
structure ZNameRecord where
  originName : List UInt8
  fileHash : Hash
  freshness : FreshnessSeal
  noNull : 0 ∉ originName
  short : originName.length + 37 < 2 ^ 31

namespace ZNameRecord

/-- What `_marshal` writes. -/
def parts (record : ZNameRecord) : List (List UInt8) :=
  [record.originName ++ [0], Hash.format.encode record.fileHash,
    FreshnessSeal.format.encode record.freshness]

/-- `_marshal`. -/
def marshal (record : ZNameRecord) (zd : ZDBDatum) : Except Fault ZDBDatum :=
  record.parts.foldlM ZDBDatum.writeBuf zd

/-- The constructor from a datum, which looks up the origin of the name. -/
def unmarshal (zd : ZDBDatum) :
    Except Fault ((List UInt8 × Hash × FreshnessSeal) × ZDBDatum) := do
  let (originName, zd) ← zd.readStr
  let (fileHash, zd) ← zd.readValue Hash.format
  let (freshness, zd) ← zd.readValue FreshnessSeal.format
  return ((originName, fileHash, freshness), zd)

end ZNameRecord

/-- The number of a state in memory. -/
def ValidityState.format : Format ValidityState where
  size := 4
  encode state := Format.host32.encode (UInt32.ofNat state.rank)
  decode bytes :=
    match (Format.host32.decode bytes).toNat with
    | 0 => unknown
    | 1 => tentative
    | 2 => validated
    | _ => margin
  encode_length _ := Format.encode_length _ _
  decode_encode state := by
    rw [Format.decode_encode]
    cases state <;> rfl

/-- The layout of a node: its location, its hash and its state. -/
def ValidatedMerkleRecord.format : Format (UInt32 × Hash × ValidityState) :=
  Format.host32.pair (Hash.format.pair ValidityState.format)

/-- The node of a location in memory. -/
def ValidatedMerkleRecord.load (memory : List UInt8) (location : Nat) : ValidatedMerkleRecord :=
  let (_, hash, state) := format.read (memory.drop (format.size * location))
  ⟨hash, state⟩

namespace ZCachedFile

/-- The nodes of the tree as they stand in memory. -/
def nodes (file : ZCachedFile) : List (UInt32 × Hash × ValidityState) :=
  (range file.treeSize).map fun location =>
    (UInt32.ofNat location, (file.tree location).hash, (file.tree location).state)

/-- What `marshal` writes. -/
def parts (file : ZCachedFile) : List (List UInt8) :=
  [Hash.format.encode file.fileHash, ZFTPFileMetadata.format.encode file.metadata,
    ValidatedMerkleRecord.format.table file.nodes]

/-- `marshal`. -/
def marshal (file : ZCachedFile) (v : ZDBDatum) : Except Fault ZDBDatum := do
  ensure (file.metadataState = .validated) .assertion
  file.parts.foldlM ZDBDatum.writeBuf v

/-- The constructor that loads a file from disk. -/
def unmarshal (v : ZDBDatum) : Except Fault (ZCachedFile × ZDBDatum) := do
  let (fileHash, v) ← v.readValue Hash.format
  let (metadata, v) ← v.readValue ZFTPFileMetadata.format
  let treeSize := computeTreeSize (computeTreeDepth (computeNumBlocks metadata.fileLen))
  let (tree, v) ← v.readBuf (ValidatedMerkleRecord.format.size * treeSize)
  return (⟨fileHash, metadata, .validated, ValidatedMerkleRecord.load tree, []⟩, v)

/-- The hash, the metadata and the tree are those of the file. -/
def Restored (file restored : ZCachedFile) : Prop :=
  restored.fileHash = file.fileHash ∧ restored.metadata = file.metadata ∧
    ∀ location < file.treeSize, restored.tree location = file.tree location

end ZCachedFile

/-- Counting and writing agree, and what is read back is the same. -/
def RoundTrips {α : Type} (marshal : ZDBDatum → Except Fault ZDBDatum)
    (unmarshal : ZDBDatum → Except Fault (α × ZDBDatum)) (same : α → Prop) : Prop :=
  ∃ bytes, marshal (.counting 0) = .ok (.counting bytes.length) ∧
    (∀ allocated, allocated.length = bytes.length →
      marshal (.memory [] allocated) = .ok (.memory bytes [])) ∧
    ∃ value, unmarshal (.memory [] bytes) = .ok (value, .memory bytes []) ∧ same value

theorem RoundTrips.of_parts {α : Type} {marshal : ZDBDatum → Except Fault ZDBDatum}
    {unmarshal : ZDBDatum → Except Fault (α × ZDBDatum)} {same : α → Prop}
    {parts : List (List UInt8)} {value : α}
    (writes : ∀ datum, marshal datum = parts.foldlM ZDBDatum.writeBuf datum)
    (reads : unmarshal (.memory [] (parts.flatMap ZDBDatum.frame)) =
      .ok (value, .memory (parts.flatMap ZDBDatum.frame) [])) (restored : same value) :
    RoundTrips marshal unmarshal same := by
  refine ⟨_, ?_, ?_, value, reads, restored⟩
  · rw [writes, ZDBDatum.foldlM_counting, Nat.zero_add]
  · intro allocated exact
    rw [writes]
    exact ZDBDatum.foldlM_memory exact

theorem ZNameRecord.roundTrips (record : ZNameRecord) : RoundTrips record.marshal unmarshal
      (· = (record.originName, record.fileHash, record.freshness)) := by
  have name : (record.originName ++ [0]).length < 2 ^ 32 := by
    have := record.short
    rw [length_append, length_singleton]
    omega
  refine .of_parts (fun _ => rfl) ?_ rfl
  simp only [parts, flatMap_cons, flatMap_nil, unmarshal, ok_bind,
    ZDBDatum.readStr_frame name record.noNull]
  rw [ZDBDatum.readValue_frame (by decide), ok_bind, ZDBDatum.readValue_frame (by decide),
    ok_bind, nil_append, append_nil, append_assoc]
  rfl

theorem ZCachedFile.roundTrips (file : ZCachedFile) (validated : file.metadataState = .validated) :
    RoundTrips file.marshal unmarshal file.Restored := by
  have size : (ValidatedMerkleRecord.format.table file.nodes).length =
      ValidatedMerkleRecord.format.size * file.treeSize := by
    rw [Format.table_length, nodes, length_map, length_range]
  have short : ValidatedMerkleRecord.format.size * file.treeSize < 2 ^ 32 := by
    have depth := Nat.pow_le_pow_right Nat.two_pos (Nat.succ_le_succ file.treeDepth_le)
    have record : ValidatedMerkleRecord.format.size = 28 := rfl
    rw [treeSize, computeTreeSize, record]
    omega
  have reads : unmarshal (.memory [] (file.parts.flatMap ZDBDatum.frame)) =
      .ok (⟨file.fileHash, file.metadata, .validated,
          ValidatedMerkleRecord.load (ValidatedMerkleRecord.format.table file.nodes), []⟩,
        .memory (file.parts.flatMap ZDBDatum.frame) []) := by
    simp only [parts, flatMap_cons, flatMap_nil, unmarshal]
    rw [ZDBDatum.readValue_frame (by decide), ok_bind, ZDBDatum.readValue_frame (by decide),
      ok_bind, ZDBDatum.readBuf_frame (by omega) (by exact Nat.le_of_eq size), ok_bind, nil_append,
      append_nil, append_assoc]
    rfl
  refine .of_parts ?_ reads ⟨rfl, rfl, ?_⟩
  · intro datum
    rw [marshal, ensure_true validated, ok_bind]
  · intro location inside
    have node : file.nodes[location]? = some (UInt32.ofNat location,
        (file.tree location).hash, (file.tree location).state) := by
      rw [nodes, getElem?_map, getElem?_range inside]
      rfl
    have found := ValidatedMerkleRecord.format.read_table node []
    rw [append_nil] at found
    simp only [ValidatedMerkleRecord.load, found]

/-- What is stored in the cache database is read back as it was. -/
theorem database_records_round_trip (record : ZNameRecord) (file : ZCachedFile)
    (validated : file.metadataState = .validated) :
    RoundTrips record.marshal ZNameRecord.unmarshal
        (· = (record.originName, record.fileHash, record.freshness)) ∧
      RoundTrips file.marshal ZCachedFile.unmarshal file.Restored :=
  ⟨record.roundTrips, file.roundTrips validated⟩

/-- A name of four bytes and a file of three blocks, of which two are known. -/
theorem database_records_round_trip_blocks :
    let record : ZNameRecord := ⟨[90, 111, 111, 103], zeroHash, ⟨1⟩, by decide, by decide⟩
    let file : ZCachedFile := ⟨zeroHash, ⟨0x28000, 0⟩, .validated, fun location =>
      if location < 5 then ⟨⟨List.replicate 20 7, rfl⟩, .validated⟩ else ⟨zeroHash, .unknown⟩, []⟩
    file.treeSize = 7 ∧
      RoundTrips record.marshal ZNameRecord.unmarshal (· = ([90, 111, 111, 103], zeroHash, ⟨1⟩)) ∧
      RoundTrips file.marshal ZCachedFile.unmarshal file.Restored :=
  ⟨by decide, database_records_round_trip _ _ rfl⟩

end Embassies.Zftp
