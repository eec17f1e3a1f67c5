import Embassies.Zftp.Parts
import Embassies.Zftp.Reply

/-!
# The bytes of a reply

When `fill_reply` succeeds, and what it then leaves in the buffer.  A copy that
is skipped because of a remembered hash makes no difference as long as the hash
tells the truth about the data behind the header.
-/

namespace Embassies.Zftp

open Library Library.Buffer Library.Checked List Function ValidatedZCB

namespace ValidatedZCB

variable {cache : ZBlockCache} {vbuf : ValidatedZCB} {hash : Hash} {block : ZBlockCacheRecord}

/-- A remembered hash tells the truth about the data behind a header of this size. -/
def Truthful (cache : ZBlockCache) (header : Nat) (vbuf : ValidatedZCB)
    (index : Nat) : Prop :=
  vbuf.hashes index ≠ zeroHash → ∀ block, cache (vbuf.hashes index) = some block →
    block.valid = true →
    (vbuf.buffer.drop (header + index * blockSize)).take blockSize = block.data

variable {offset : Nat} {bytes : List UInt8}

theorem store_eq (fits : offset + bytes.length ≤ vbuf.buffer.length) :
    vbuf.store offset bytes = .ok { vbuf with buffer := patch vbuf.buffer offset bytes } := by
  rw [store, write_eq_ok fits]
  rfl

theorem store_eq_ok_iff {after : ValidatedZCB} :
    vbuf.store offset bytes = .ok after ↔ offset + bytes.length ≤ vbuf.buffer.length ∧
        after = { vbuf with buffer := patch vbuf.buffer offset bytes } := by
  rw [store, bind_eq_ok_iff]
  constructor
  · rintro ⟨buffer, written, returned⟩
    obtain ⟨fits, rfl⟩ := write_eq_ok_iff.mp written
    cases returned
    exact ⟨fits, rfl⟩
  · rintro ⟨fits, rfl⟩
    exact ⟨_, write_eq_ok fits, rfl⟩

theorem copyBlock_eq {dataOffset blockOffset len : Nat} (valid : block.valid = true)
    (inside : blockOffset + len ≤ blockSize)
    (fits : vbuf.headerOffset + dataOffset + len ≤ vbuf.buffer.length) :
    vbuf.copyBlock block dataOffset blockOffset len = .ok { vbuf with
      buffer := patch vbuf.buffer (vbuf.headerOffset + dataOffset)
        ((block.data.drop blockOffset).take len) } := by
  have size : ((block.data.drop blockOffset).take len).length = len := by
    rw [length_take, length_drop, block.whole valid]
    omega
  rw [copyBlock, ZBlockCacheRecord.read, ensure_true valid, ensure_true inside]
  exact store_eq (by omega)

variable {index : Nat}

/-- Skipping the copy of a block makes no difference when the hash is truthful. -/
theorem writeWhole_eq (kept : cache hash = some block) (valid : block.valid = true)
    (nonzero : hash ≠ zeroHash)
    (truthful : vbuf.Truthful cache vbuf.headerOffset index)
    (fits : vbuf.headerOffset + index * blockSize + blockSize ≤ vbuf.buffer.length) :
    vbuf.writeWhole hash block (index * blockSize) 0 blockSize = .ok { vbuf with
      buffer := patch vbuf.buffer (vbuf.headerOffset + index * blockSize) block.data
      hashes := update vbuf.hashes index hash } := by
  have positive : 0 < blockSize := by decide
  have whole : block.data.length = blockSize := block.whole valid
  have place : index * blockSize / blockSize = index := Nat.mul_div_cancel _ positive
  have known : index < vbuf.numHashes := by
    rw [numHashes, Nat.lt_div_iff_mul_lt positive]
    omega
  rw [writeWhole, ensure_true rfl, ok_bind, ensure_true (Nat.mul_mod_left _ _), ok_bind,
    place, ensure_true known, ok_bind]
  by_cases same : hash = vbuf.hashes index
  · have holds := truthful (same ▸ nonzero) block (same ▸ kept) valid
    rw [if_pos same, patch_self (by rw [whole]; exact holds), same, update_eq_self]
    rfl
  · rw [if_neg same, copyBlock_eq valid (by omega) fits, ok_bind, drop_zero,
      take_of_length_le (by omega)]
    rfl

theorem Truthful.of_drop {header : Nat} {other : ValidatedZCB}
    (truthful : vbuf.Truthful cache header index)
    (hashes : other.hashes = vbuf.hashes)
    (same : other.buffer.drop header = vbuf.buffer.drop header) :
    other.Truthful cache header index := by
  intro nonzero block kept valid
  rw [hashes] at nonzero kept
  rw [← drop_drop, same, drop_drop]
  exact truthful nonzero block kept valid

/-- What the buffer is after a part of a block. -/
def withPart (vbuf : ValidatedZCB) (hash : Hash) (offset : Nat) (bytes : List UInt8) :
    ValidatedZCB where
  buffer := patch vbuf.buffer (vbuf.headerOffset + offset) bytes
  headerOffset := vbuf.headerOffset
  hashes := if bytes.length = blockSize then
    Function.update vbuf.hashes (offset / blockSize) hash else vbuf.hashes

theorem Truthful.withPart (truthful : vbuf.Truthful cache vbuf.headerOffset index)
    (behind : offset + bytes.length ≤ index * blockSize)
    (fits : vbuf.headerOffset + offset + bytes.length ≤ vbuf.buffer.length) :
    (vbuf.withPart hash offset bytes).Truthful cache vbuf.headerOffset index := by
  have same : (vbuf.withPart hash offset bytes).hashes index = vbuf.hashes index := by
    rw [ValidatedZCB.withPart]
    split
    · apply update_of_ne
      rintro rfl
      simp only [blockSize] at *
      omega
    · rfl
  intro nonzero block kept valid
  rw [same] at nonzero kept
  have holds := truthful nonzero block kept valid
  rw [ValidatedZCB.withPart]
  rw [drop_patch_of_le (by omega) fits]
  exact holds

/-- Every remembered hash is of a whole block that was written, and truthful. -/
def Settled (cache : ZBlockCache) (vbuf : ValidatedZCB) (written : Nat) : Prop :=
  ∀ index, vbuf.hashes index ≠ zeroHash →
    index * blockSize + blockSize ≤ written ∧
      vbuf.Truthful cache vbuf.headerOffset index

theorem Settled.withPart (settled : vbuf.Settled cache offset) (whole : bytes.length = blockSize →
      offset % blockSize = 0 ∧ ∀ block, cache hash = some block → block.data = bytes)
    (fits : vbuf.headerOffset + offset + bytes.length ≤ vbuf.buffer.length) :
    (vbuf.withPart hash offset bytes).Settled cache (offset + bytes.length) := by
  -- a hash that was remembered before is of a block before this part
  have earlier : ∀ index, (vbuf.withPart hash offset bytes).hashes index =
      vbuf.hashes index → vbuf.hashes index ≠ zeroHash →
      index * blockSize + blockSize ≤ offset + bytes.length ∧
        (vbuf.withPart hash offset bytes).Truthful cache vbuf.headerOffset index := by
    intro index same nonzero
    obtain ⟨before, truthful⟩ := settled index nonzero
    refine ⟨by omega, fun _ block kept valid => ?_⟩
    rw [same] at kept
    rw [ValidatedZCB.withPart]
    rw [take_drop, take_patch (by omega) (by omega), ← take_drop]
    exact truthful nonzero block kept valid
  intro index nonzero
  by_cases size : bytes.length = blockSize
  · obtain ⟨aligned, contents⟩ := whole size
    by_cases here : index = offset / blockSize
    · subst here
      have place : offset / blockSize * blockSize = offset :=
        Nat.div_mul_cancel (Nat.dvd_of_mod_eq_zero aligned)
      have own : (vbuf.withPart hash offset bytes).hashes (offset / blockSize) = hash := by
        simp only [ValidatedZCB.withPart, if_pos size, update_self]
      refine ⟨by omega, fun _ block kept _ => ?_⟩
      rw [own] at kept
      rw [contents block kept, place, ValidatedZCB.withPart]
      dsimp only
      rw [drop_patch_start (by omega), take_left' size]
    · have same : (vbuf.withPart hash offset bytes).hashes index = vbuf.hashes index := by
        simp only [ValidatedZCB.withPart, if_pos size, update_of_ne here]
      exact earlier index same (same ▸ nonzero)
  · have same : (vbuf.withPart hash offset bytes).hashes index = vbuf.hashes index := by
      simp only [ValidatedZCB.withPart, if_neg size]
    exact earlier index same (same ▸ nonzero)

end ValidatedZCB

namespace ZCachedFile

variable {file : ZCachedFile} {cache : ZBlockCache} {request : ZFileRequest} {vbuf : ValidatedZCB}

/-! ## The data -/

/-- The contents of a block that is served. -/
def blockData (file : ZCachedFile) (cache : ZBlockCache) (blk : Nat) : List UInt8 :=
  match file.validBlock cache blk with
  | .ok (_, block) => block.data
  | .error _ => []

variable {blk : Nat}

theorem blockData_eq {hash : Hash} {block : ZBlockCacheRecord}
    (found : file.validBlock cache blk = .ok (hash, block)) :
    file.blockData cache blk = block.data := by
  rw [blockData, found]

/-- A byte of a file. -/
def fileByte (file : ZCachedFile) (cache : ZBlockCache) (place : Nat) : UInt8 :=
  (file.blockData cache (place / blockSize)).getD (place % blockSize) 0

/-- The bytes of a range, one by one. -/
def fileBytes (file : ZCachedFile) (cache : ZBlockCache) (offset size : Nat) :
    List UInt8 :=
  (List.range' offset size).map (file.fileByte cache)

theorem rangeBytes_eq_fileBytes {offset size : Nat} (whole : ∀ blk ∈ touched offset size,
      (file.blockData cache blk).length = blockSize) :
    rangeBytes (file.blockData cache) offset size = file.fileBytes cache offset size := by
  -- the bytes from the front of the file, far enough
  have front : ∀ blk ∈ touched offset size,
      (((range (offset + size + blockSize)).map (file.fileByte cache)).drop
        (blk * blockSize)).take blockSize = file.blockData cache blk := by
    intro blk inside
    have bounds := mem_touched.mp inside
    have length_eq := whole blk inside
    apply ext_getElem
    · simp only [partStart, partEnd, blockSize, length_take, length_drop,
        length_map, length_range] at *
      omega
    · intro index left right
      have place : (blk * blockSize + index) / blockSize = blk ∧
          (blk * blockSize + index) % blockSize = index := by
        simp only [blockSize] at *
        omega
      rw [getElem_take, getElem_drop, getElem_map, getElem_range, fileByte, place.1, place.2]
      exact (getElem_eq_getD 0).symm
  rw [rangeBytes_eq front, ← map_drop, ← map_take, fileBytes]
  congr 1
  apply ext_getElem
  · simp
    omega
  · intro index left right
    simp

/-- A whole block lies in the range. -/
def Whole (offset size blk : Nat) : Prop :=
  partEnd offset size blk - partStart offset blk = blockSize

instance (offset size blk : Nat) : Decidable (Whole offset size blk) :=
  inferInstanceAs (Decidable (_ = _))

/-- The blocks of a range can be served from a buffer with aligned blocks. -/
structure Servable (file : ZCachedFile) (cache : ZBlockCache) (offset size : Nat) :
    Prop where
  blocks : ∀ blk ∈ touched offset size, ∃ found, file.validBlock cache blk = .ok found
  aligned : ∀ blk ∈ touched offset size, Whole offset size blk → offset % blockSize = 0

/-- No whole block of a range has the hash by which a slot is marked as empty. -/
def Marked (file : ZCachedFile) (offset size : Nat) : Prop :=
  ∀ blk ∈ touched offset size, Whole offset size blk →
    (file.tree (2 ^ file.treeDepth - 1 + blk)).hash ≠ zeroHash

theorem blockData_length (known : ∃ found, file.validBlock cache blk = .ok found) :
    (file.blockData cache blk).length = blockSize := by
  obtain ⟨⟨_, block⟩, found⟩ := known
  obtain ⟨-, -, -, -, valid⟩ := validBlock_eq_ok_iff.mp found
  rw [blockData_eq found, block.whole valid]

section Part

variable {offset size blk : Nat} {hash : Hash} {block : ZBlockCacheRecord}

theorem Whole.place (whole : Whole offset size blk) (aligned : offset % blockSize = 0) :
    partStart offset blk - blk * blockSize = 0 ∧
      written offset size blk / blockSize * blockSize = written offset size blk ∧
      written offset size blk % blockSize = 0 := by
  simp only [Whole, written, partStart, partEnd, blockSize] at *
  omega

theorem Whole.partBytes_eq (whole : Whole offset size blk) (aligned : offset % blockSize = 0)
    (found : file.validBlock cache blk = .ok (hash, block)) :
    partBytes (file.blockData cache) offset size blk = block.data := by
  obtain ⟨-, -, -, -, valid⟩ := validBlock_eq_ok_iff.mp found
  have all : partEnd offset size blk - partStart offset blk = blockSize := whole
  rw [partBytes, (whole.place aligned).1, drop_zero, all, blockData_eq found,
    take_of_length_le (by rw [block.whole valid])]

theorem writePart_eq (small : offset + size < 2 ^ 32)
    (servable : file.Servable cache offset size) (marked : file.Marked offset size)
    (inside : blk ∈ touched offset size)
    (found : file.validBlock cache blk = .ok (hash, block))
    (room : vbuf.headerOffset + size ≤ vbuf.buffer.length)
    (truthful : ∀ index, written offset size blk ≤ index * blockSize →
      vbuf.Truthful cache vbuf.headerOffset index) :
    file.writePart ValidatedZCB.writeData cache 0 offset size vbuf blk =
      .ok (vbuf.withPart hash (written offset size blk)
        (partBytes (file.blockData cache) offset size blk)) := by
  obtain ⟨-, -, leaf, kept, valid⟩ := validBlock_eq_ok_iff.mp found
  obtain ⟨dataOffset, blockOffset, len, dataOffs, blockOffs, lens, same⟩ :=
    @writePart_found _ ValidatedZCB.writeData _ _ _ _ _ vbuf _ _ small inside found
  obtain ⟨inBlock, inRange, -⟩ := part_inside inside
  have size_eq := partBytes_length inside (blockData_length (servable.blocks _ inside))
  rw [same, ValidatedZCB.writeData, lens, dataOffs, blockOffs, ValidatedZCB.withPart, size_eq]
  by_cases whole : partEnd offset size blk - partStart offset blk = blockSize
  · have alignment := servable.aligned blk inside whole
    obtain ⟨start, place, -⟩ := Whole.place whole alignment
    have copied := writeWhole_eq kept valid (leaf ▸ marked blk inside whole)
      (truthful (written offset size blk / blockSize) (by omega))
      (by rw [place]; omega)
    rw [place] at copied
    rw [if_pos whole, if_pos whole, whole, start, Whole.partBytes_eq whole alignment found, copied]
  · rw [if_neg whole, if_neg whole, copyBlock_eq valid inBlock (by omega), partBytes,
      blockData_eq found]

/-- What holds of the buffer before a block of the range is written. -/
structure Writing (cache : ZBlockCache) (offset size : Nat) (vbuf state : ValidatedZCB)
    (blk : Nat) : Prop where
  header : state.headerOffset = vbuf.headerOffset
  truthful : ∀ index, written offset size blk ≤ index * blockSize →
    state.Truthful cache state.headerOffset index
  settled : (∀ index, vbuf.hashes index = zeroHash) →
    state.Settled cache (written offset size blk)

theorem Writing.step {state : ValidatedZCB} (writing : Writing cache offset size vbuf state blk)
    (small : offset + size < 2 ^ 32) (servable : file.Servable cache offset size)
    (marked : file.Marked offset size) (inside : blk ∈ touched offset size)
    (room : vbuf.headerOffset + size ≤ state.buffer.length) :
    ∃ after, file.writePart ValidatedZCB.writeData cache 0 offset size state blk = .ok after ∧
      after.buffer = patch state.buffer (vbuf.headerOffset + written offset size blk)
        (partBytes (file.blockData cache) offset size blk) ∧
      Writing cache offset size vbuf after (blk + 1) := by
  obtain ⟨⟨hash, block⟩, found⟩ := servable.blocks blk inside
  obtain ⟨-, -, -, kept, -⟩ := validBlock_eq_ok_iff.mp found
  have partSize := partBytes_length inside (blockData_length (servable.blocks _ inside))
  have next := touched_step inside
  have last := written_le offset size (blk + 1)
  rw [← writing.header] at room ⊢
  have fits : state.headerOffset + written offset size blk +
      (partBytes (file.blockData cache) offset size blk).length ≤ state.buffer.length := by
    omega
  refine ⟨_, writePart_eq small servable marked inside found room writing.truthful, rfl,
    writing.header, ?_, ?_⟩
  · exact fun index behind => (writing.truthful index (by omega)).withPart (by omega) fits
  · intro fresh
    rw [← next, ← partSize]
    refine (writing.settled fresh).withPart (fun whole => ?_) fits
    rw [partSize] at whole
    have alignment := servable.aligned blk inside whole
    refine ⟨(Whole.place whole alignment).2.2, fun other otherKept => ?_⟩
    obtain rfl := Option.some.inj (kept.symm.trans otherKept)
    exact (Whole.partBytes_eq whole alignment found).symm

end Part

/-- What `write_blocks_to_buf` leaves in a buffer with room for the data. -/
theorem Servable.writeBlocksToBuf_eq {offset size : UInt32}
    (servable : file.Servable cache offset.toNat size.toNat)
    (marked : file.Marked offset.toNat size.toNat)
    (fits : offset.toNat + size.toNat ≤ file.getFilelen.toNat)
    (room : vbuf.headerOffset + size.toNat ≤ vbuf.buffer.length)
    (truthful : ∀ index, vbuf.Truthful cache vbuf.headerOffset index) :
    ∃ after, file.writeBlocksToBuf ValidatedZCB.writeData cache vbuf 0 offset size = .ok after ∧
      after.buffer = patch vbuf.buffer vbuf.headerOffset
        (rangeBytes (file.blockData cache) offset.toNat size.toNat) ∧
      after.headerOffset = vbuf.headerOffset ∧
      ((∀ index, vbuf.hashes index = zeroHash) →
        ∀ index, after.Truthful cache vbuf.headerOffset index) := by
  have limit := file.getFilelen.toNat_lt
  have initially : Writing cache offset.toNat size.toNat vbuf vbuf (offset.toNat / blockSize) :=
    ⟨rfl, fun index _ => truthful index, fun fresh index nonzero => absurd (fresh index) nonzero⟩
  obtain ⟨after, last, folded, patched, writing⟩ := foldlM_touched
    (fun blk inside => partBytes_length inside (blockData_length (servable.blocks _ inside)))
    (fun blk inside state writing room =>
      writing.step (by omega) servable marked inside room) room initially
  refine ⟨after, (ZCachedFile.writeBlocksToBuf_eq fits).trans folded, patched, writing.header, ?_⟩
  intro fresh index nonzero
  rw [← writing.header]
  exact (writing.settled fresh index nonzero).2 nonzero

/-! ## The whole reply -/

/-- The part of the requested range that is in the file. -/
def available (file : ZCachedFile) (request : ZFileRequest) : DataRange :=
  request.getDataRange.intersect ⟨0, file.getFilelen⟩

theorem available_fits (file : ZCachedFile) (request : ZFileRequest) :
    (file.available request).start.toNat + (file.available request).size.toNat ≤
      file.getFilelen.toNat := by
  obtain ⟨ordered, inFile⟩ := request.getDataRange.intersect_file file.getFilelen
  rw [available, DataRange.size, UInt32.toNat_sub_of_le _ _ ordered]
  rw [UInt32.le_iff_toNat_le] at ordered inFile
  omega

/-- The size of the header part of a reply. -/
def headerSize (request : ZFileRequest) : Nat :=
  dataPacketSize + merkleRecordSize * request.getNumTreeLocations +
    request.zrp.paddingRequest.toNat

/-- One record of a reply. -/
def replyRecord (file : ZCachedFile) (request : ZFileRequest) (idx : Nat) :
    List UInt8 :=
  match request.getTreeLocation idx with
  | .ok location =>
    ZFTPMerkleRecord.format.encode ⟨location, (file.tree location.toNat).hash⟩
  | .error _ => []

/-- The header of a reply, but for the size of the payload. -/
abbrev headerBytes (file : ZCachedFile) (request : ZFileRequest) : List UInt8 :=
  ZFTPDataHeader.format.encode (file.dataHeader request (file.available request))

/-- The records of a reply. -/
abbrev recordBytes (file : ZCachedFile) (request : ZFileRequest) : List UInt8 :=
  (List.range request.getNumTreeLocations).flatMap (file.replyRecord request)

/-- A reply with a given size of the payload and given data. -/
def replyWith (file : ZCachedFile) (request : ZFileRequest) (payloadSize : UInt32)
    (data : List UInt8) : List UInt8 :=
  file.headerBytes request ++
    (Format.uint32.encode payloadSize ++
      (file.recordBytes request ++
        (List.replicate request.zrp.paddingRequest.toNat 0 ++ data)))

/-- A reply with the bytes of the file. -/
abbrev replyBytes (file : ZCachedFile) (cache : ZBlockCache) (request : ZFileRequest)
    (payloadSize : UInt32) : List UInt8 :=
  file.replyWith request payloadSize
    (rangeBytes (file.blockData cache) (file.available request).start.toNat
      (file.available request).size.toNat)

/-- The server has all that the request asks for, in places that the buffer allows. -/
structure Answerable (file : ZCachedFile) (cache : ZBlockCache)
    (request : ZFileRequest) : Prop where
  metadata : file.metadataState = .validated
  records : ∀ idx < request.getNumTreeLocations, ∃ location,
    request.getTreeLocation idx = .ok location ∧ location.toNat < file.treeSize ∧
      (file.tree location.toNat).state = .validated
  servable : file.Servable cache (file.available request).start.toNat
    (file.available request).size.toNat

theorem getAvailableDataRange_eq_ok_iff {range : DataRange} :
    file.getAvailableDataRange request = .ok range ↔
      file.metadataState = .validated ∧ range = file.available request := by
  rw [getAvailableDataRange, getFileDataRange]
  by_cases known : file.metadataState = .validated
  · simp [known, available, eq_comm]
  · simp [ensure, known]

section Records

variable (answerable : file.Answerable cache request)

include answerable

variable {idx : Nat}

theorem Answerable.record_length (inside : idx < request.getNumTreeLocations) :
    (file.replyRecord request idx).length = merkleRecordSize := by
  obtain ⟨location, found, -⟩ := answerable.records idx inside
  rw [replyRecord, found]
  exact ZFTPMerkleRecord.format.encode_length _

theorem Answerable.writeRecord_eq {zmr : Nat} (inside : idx < request.getNumTreeLocations)
    (room : zmr + merkleRecordSize * idx + merkleRecordSize ≤ vbuf.buffer.length) :
    file.writeRecord request zmr vbuf idx = .ok { vbuf with
      buffer := patch vbuf.buffer (zmr + merkleRecordSize * idx)
        (file.replyRecord request idx) } := by
  have length_eq := answerable.record_length inside
  obtain ⟨location, found, known, validated⟩ := answerable.records idx inside
  rw [writeRecord, found, ok_bind, getValidatedMerkleRecord, ensure_true known,
    ensure_true validated]
  have record : file.replyRecord request idx =
      ZFTPMerkleRecord.format.encode ⟨location, (file.tree location.toNat).hash⟩ := by
    rw [replyRecord, found]
  rw [record] at length_eq ⊢
  exact store_eq (by omega)

theorem Answerable.records_length
    {count : Nat} (inside : idx + count ≤ request.getNumTreeLocations) :
    ((range' idx count).flatMap (file.replyRecord request)).length = merkleRecordSize * count := by
  induction count generalizing idx with
  | zero => rfl
  | succ count induction =>
    rw [range'_succ, flatMap_cons, length_append,
      answerable.record_length (by omega), induction (by omega), Nat.mul_succ,
      Nat.add_comm]

theorem Answerable.foldlM_writeRecord {idx count zmr : Nat} {vbuf : ValidatedZCB}
    (inside : idx + count ≤ request.getNumTreeLocations)
    (room : zmr + merkleRecordSize * (idx + count) ≤ vbuf.buffer.length) :
    (range' idx count).foldlM (file.writeRecord request zmr) vbuf = .ok { vbuf with
        buffer := patch vbuf.buffer (zmr + merkleRecordSize * idx)
          ((range' idx count).flatMap (file.replyRecord request)) } := by
  induction count generalizing idx vbuf with
  | zero =>
    rw [range'_zero, flatMap_nil, patch_nil]
    rfl
  | succ count induction =>
    have single := answerable.record_length (show idx < _ by omega)
    have rest := answerable.records_length (show idx + 1 + count ≤ _ by omega)
    have place : zmr + merkleRecordSize * (idx + 1) =
        zmr + merkleRecordSize * idx + (file.replyRecord request idx).length := by
      rw [single, Nat.mul_succ, Nat.add_assoc]
    have total : zmr + merkleRecordSize * (idx + (count + 1)) =
        zmr + merkleRecordSize * idx + (file.replyRecord request idx).length +
          merkleRecordSize * count := by
      rw [single, Nat.mul_add, Nat.mul_succ]
      omega
    have longer : (patch vbuf.buffer (zmr + merkleRecordSize * idx)
        (file.replyRecord request idx)).length = vbuf.buffer.length :=
      patch_length (by omega)
    rw [range'_succ, foldlM_cons, flatMap_cons,
      answerable.writeRecord_eq (by omega) (by omega), ok_bind,
      induction (by omega) (by dsimp only; rw [longer, Nat.add_right_comm]; exact room)]
    rw [place, patch_patch_append (by omega)]

end Records

theorem Answerable.sizes (answerable : file.Answerable cache request) :
    headerSize request = dataPacketSize + merkleRecordSize * request.getNumTreeLocations +
        request.zrp.paddingRequest.toNat ∧
      dataPacketSize = ZFTPDataHeader.format.size + 4 ∧
      (file.headerBytes request).length = ZFTPDataHeader.format.size ∧
      (file.recordBytes request).length = merkleRecordSize * request.getNumTreeLocations := by
  rw [recordBytes, range_eq_range']
  exact ⟨rfl, rfl, ZFTPDataHeader.format.encode_length _,
    answerable.records_length (Nat.le_of_eq (Nat.zero_add _))⟩

theorem Answerable.data_length (answerable : file.Answerable cache request) :
    (rangeBytes (file.blockData cache) (file.available request).start.toNat
      (file.available request).size.toNat).length = (file.available request).size.toNat :=
  rangeBytes_length fun _ inside => blockData_length (answerable.servable.blocks _ inside)

theorem Answerable.replyWith_length (answerable : file.Answerable cache request)
    (payloadSize : UInt32) (data : List UInt8) :
    (file.replyWith request payloadSize data).length = headerSize request + data.length := by
  obtain ⟨total, packet, header, records⟩ := answerable.sizes
  have word : Format.uint32.size = 4 := rfl
  rw [replyWith, length_append, length_append, length_append, length_append, header,
    Format.encode_length, records, length_replicate]
  omega

theorem Answerable.replyBytes_length
    (answerable : file.Answerable cache request) (payloadSize : UInt32) :
    (file.replyBytes cache request payloadSize).length =
      headerSize request + (file.available request).size.toNat := by
  rw [answerable.replyWith_length, answerable.data_length]

theorem patch_parts {buffer header payloadSize records padding data : List UInt8}
    (fits : header.length + payloadSize.length + records.length + padding.length +
      data.length ≤ buffer.length) :
    patch (patch (patch (patch (patch buffer 0 header) (header.length + payloadSize.length) records)
          (header.length + payloadSize.length + records.length) padding)
        (header.length + payloadSize.length + records.length + padding.length) data)
      header.length payloadSize =
      patch buffer 0 (header ++ (payloadSize ++ (records ++ (padding ++ data)))) := by
  have same : (patch buffer 0 header).length = buffer.length := patch_length (by omega)
  have second : (patch (patch buffer 0 header) (header.length + payloadSize.length)
      records).length = buffer.length :=
    (patch_length (by omega)).trans same
  rw [patch_patch_append (by omega), patch_patch_append (by rw [length_append]; omega),
    patch_patch_before (by simp only [length_append]; omega)]
  have joined := @patch_patch_append UInt8 buffer header
    (payloadSize ++ (records ++ (padding ++ data))) 0
    (by simp only [length_append]; omega)
  rw [Nat.zero_add] at joined
  exact joined

section Reply

variable (answerable : file.Answerable cache request)

include answerable

theorem Answerable.writeHeaders_eq
    {vbuf : ValidatedZCB} (placed : vbuf.headerOffset = dataPacketSize)
    (small : vbuf.buffer.length < 2 ^ 32)
    (room : headerSize request ≤ vbuf.buffer.length) :
    (do
      let vbuf ← file.writeRecords request vbuf
      writePadding request vbuf) = .ok
      ⟨patch (patch vbuf.buffer dataPacketSize (file.recordBytes request))
        (dataPacketSize + merkleRecordSize * request.getNumTreeLocations)
        (replicate request.zrp.paddingRequest.toNat 0),
        headerSize request, vbuf.hashes⟩ := by
  obtain ⟨total, -, -, records⟩ := answerable.sizes
  have recordsEnd : (dataPacketSize + merkleRecordSize * request.getNumTreeLocations) %
      2 ^ 32 = dataPacketSize + merkleRecordSize * request.getNumTreeLocations :=
    Nat.mod_eq_of_lt (by omega)
  have paddingEnd : headerSize request % 2 ^ 32 = headerSize request := Nat.mod_eq_of_lt (by omega)
  have folded := @Answerable.foldlM_writeRecord file cache request answerable 0
    request.getNumTreeLocations dataPacketSize
    (vbuf.writeHeader (merkleRecordSize * request.getNumTreeLocations))
    (by omega) (by rw [ValidatedZCB.writeHeader, Nat.zero_add]; dsimp only; omega)
  have longer : (patch vbuf.buffer dataPacketSize (file.recordBytes request)).length =
      vbuf.buffer.length := patch_length (by omega)
  rw [← range_eq_range', Nat.mul_zero, Nat.add_zero] at folded
  rw [writeRecords, placed, folded, ok_bind, writePadding]
  simp only [ValidatedZCB.writeHeader, placed, recordsEnd]
  rw [store_eq, ← total, paddingEnd]
  rw [longer, length_replicate]
  omega

/-- A buffer with the header part of a reply, but for the size of the payload. -/
def withHeaders (file : ZCachedFile) (request : ZFileRequest) (buffer : List UInt8) :
    List UInt8 :=
  patch
    (patch
      (patch buffer 0 (ZFTPDataHeader.format.encode
        (file.dataHeader request (file.available request))))
      dataPacketSize
      ((List.range request.getNumTreeLocations).flatMap (file.replyRecord request)))
    (dataPacketSize + merkleRecordSize * request.getNumTreeLocations)
    (List.replicate request.zrp.paddingRequest.toNat 0)

theorem Answerable.withHeaders_confined {buffer : List UInt8}
    (room : headerSize request ≤ buffer.length) :
    Confined buffer (file.withHeaders request buffer) 0 (headerSize request) := by
  obtain ⟨total, packet, header, records⟩ := answerable.sizes
  have padding : (replicate request.zrp.paddingRequest.toNat (0 : UInt8)).length =
      request.zrp.paddingRequest.toNat := length_replicate
  rw [withHeaders]
  have first : Confined buffer (patch buffer 0 (file.headerBytes request)) 0 (headerSize request) :=
    .of_patch (by omega) (Nat.le_refl _) (by omega)
  have length1 := first.length
  generalize patch buffer 0 (file.headerBytes request) = buffer1 at first length1 ⊢
  have second : Confined buffer1 (patch buffer1 dataPacketSize (file.recordBytes request)) 0
      (headerSize request) :=
    .of_patch (by omega) (Nat.zero_le _) (by omega)
  have length2 := second.length
  exact first.trans (second.trans (.of_patch (by omega) (Nat.zero_le _) (by omega)))

theorem Answerable.patch_withHeaders {buffer data : List UInt8} {payloadSize : UInt32}
    (room : headerSize request + data.length ≤ buffer.length) :
    patch (patch (file.withHeaders request buffer) (headerSize request) data)
        ZFTPDataHeader.format.size (Format.uint32.encode payloadSize) =
      patch buffer 0 (file.replyWith request payloadSize data) := by
  obtain ⟨total, packet, header, records⟩ := answerable.sizes
  have size : (Format.uint32.encode payloadSize).length = 4 := Format.uint32.encode_length _
  have padded : (replicate request.zrp.paddingRequest.toNat (0 : UInt8)).length =
      request.zrp.paddingRequest.toNat := length_replicate
  rw [withHeaders, replyWith, ← patch_parts, header, size, records, padded, ← packet, ← total]
  omega

/-- `fill_reply` writes the header part, the data, and then the size of the payload. -/
theorem Answerable.fillReply_split
    (unused : vbuf.headerOffset = 0) (small : vbuf.buffer.length < 2 ^ 32)
    (room : headerSize request ≤ vbuf.buffer.length) :
    file.fillReply cache request vbuf = (do
      let after ← file.writeBlocksToBuf ValidatedZCB.writeData cache
        ⟨file.withHeaders request vbuf.buffer, headerSize request, vbuf.hashes⟩ 0
        (file.available request).start (file.available request).size
      after.store ZFTPDataHeader.format.size (Format.uint32.encode after.getPayloadLen)) := by
  obtain ⟨total, packet, header, -⟩ := answerable.sizes
  have range : file.getAvailableDataRange request = .ok (file.available request) :=
    getAvailableDataRange_eq_ok_iff.mpr ⟨answerable.metadata, rfl⟩
  have opened : vbuf.writeHeader dataPacketSize = ⟨vbuf.buffer, dataPacketSize, vbuf.hashes⟩ := by
    rw [ValidatedZCB.writeHeader, unused, Nat.zero_add, Nat.mod_eq_of_lt (by omega)]
  have fits : 0 + (file.headerBytes request).length ≤ vbuf.buffer.length := by omega
  have length_eq := patch_length fits
  have headers := @Answerable.writeHeaders_eq file cache request answerable
    ⟨patch vbuf.buffer 0 (file.headerBytes request), dataPacketSize, vbuf.hashes⟩ rfl
      (length_eq.symm ▸ small) (length_eq.symm ▸ room)
  rw [fillReply, unused, opened, range, ok_bind, store_eq (by exact fits), ok_bind]
  rw [← bind_assoc, headers, ok_bind, Nat.zero_add]
  rfl

/-- What `fill_reply` leaves in a buffer with room for the reply. -/
theorem Answerable.fillReply_eq
    (marked : file.Marked (file.available request).start.toNat (file.available request).size.toNat)
    (unused : vbuf.headerOffset = 0) (small : vbuf.buffer.length < 2 ^ 32)
    (room : headerSize request + (file.available request).size.toNat ≤ vbuf.buffer.length)
    (truthful : ∀ index, vbuf.Truthful cache (headerSize request) index) :
    ∃ hashes, file.fillReply cache request vbuf = .ok
        ⟨patch vbuf.buffer 0 (file.replyBytes cache request
          (UInt32.ofNat (vbuf.buffer.length - headerSize request))),
          headerSize request, hashes⟩ ∧
      ((∀ index, vbuf.hashes index = zeroHash) →
        ∀ index, ValidatedZCB.Truthful cache (headerSize request)
          ⟨patch vbuf.buffer 0 (file.replyBytes cache request
            (UInt32.ofNat (vbuf.buffer.length - headerSize request))),
            headerSize request, hashes⟩ index) := by
  obtain ⟨total, packet, header, records⟩ := answerable.sizes
  have word : Format.uint32.size = 4 := rfl
  have data := answerable.data_length
  have confined := answerable.withHeaders_confined (show _ ≤ vbuf.buffer.length by omega)
  have length_eq := confined.length
  obtain ⟨after, blocksWritten, contents, placed, settled⟩ :=
    @Servable.writeBlocksToBuf_eq file cache
      ⟨file.withHeaders request vbuf.buffer, headerSize request, vbuf.hashes⟩ _ _
      answerable.servable marked (file.available_fits request)
      (by dsimp only; omega) (fun index => (truthful index).of_drop rfl confined.back)
  dsimp only at contents placed settled
  have afterLength : after.buffer.length = vbuf.buffer.length := by
    rw [contents, patch_length (by omega), length_eq]
  have payload : after.getPayloadLen = UInt32.ofNat (vbuf.buffer.length - headerSize request) := by
    rw [getPayloadLen, placed, afterLength, ← UInt32.ofNat_sub (by omega)]
  have final : patch after.buffer ZFTPDataHeader.format.size
      (Format.uint32.encode after.getPayloadLen) =
      patch vbuf.buffer 0 (file.replyBytes cache request
        (UInt32.ofNat (vbuf.buffer.length - headerSize request))) := by
    rw [contents, payload, answerable.patch_withHeaders (by omega)]
  refine ⟨after.hashes, ?_, ?_⟩
  · rw [answerable.fillReply_split unused small (by omega), blocksWritten, ok_bind,
      store_eq (by rw [Format.encode_length]; omega), final, placed]
  · intro unmarked index
    refine (settled unmarked index).of_drop rfl ?_
    rw [← final, drop_patch_of_le]
    · rw [Format.encode_length]
      omega
    · rw [Format.encode_length]
      omega

end Reply

/-! ## What a reply needs -/

variable {after : ValidatedZCB}

/-- What one part needs and does to the buffer, whatever the remembered hashes are. -/
theorem writePart_effect {offset size : Nat} (small : offset + size < 2 ^ 32)
    (inside : blk ∈ touched offset size)
    (done : file.writePart ValidatedZCB.writeData cache 0 offset size vbuf blk = .ok after) :
    let hash := (file.tree (2 ^ file.treeDepth - 1 + blk)).hash
    let bytes := partBytes (file.blockData cache) offset size blk
    (∃ found, file.validBlock cache blk = .ok found) ∧
      (Whole offset size blk → offset % blockSize = 0) ∧
      (after = vbuf ∨
        vbuf.headerOffset + written offset size blk + bytes.length ≤ vbuf.buffer.length ∧
        (Whole offset size blk → hash ≠ vbuf.hashes (written offset size blk / blockSize)) ∧
        after = vbuf.withPart hash (written offset size blk) bytes) := by
  obtain ⟨⟨hash, block⟩, found, -⟩ := of_bind done
  obtain ⟨-, -, rfl, -, -⟩ := validBlock_eq_ok_iff.mp found
  have size_eq := partBytes_length inside (blockData_length ⟨_, found⟩)
  obtain ⟨dataOffset, blockOffset, len, dataOffs, blockOffs, lens, same⟩ :=
    @writePart_found _ ValidatedZCB.writeData _ _ _ _ _ vbuf _ _ small inside found
  -- a copy of the part
  have copies : ∀ copied, vbuf.copyBlock block (written offset size blk)
      (partStart offset blk - blk * blockSize)
      (partEnd offset size blk - partStart offset blk) = .ok copied →
      vbuf.headerOffset + written offset size blk +
        (partBytes (file.blockData cache) offset size blk).length ≤
        vbuf.buffer.length ∧
      copied = { vbuf with
        buffer := patch vbuf.buffer (vbuf.headerOffset + written offset size blk)
          (partBytes (file.blockData cache) offset size blk) } := by
    intro copied copying
    obtain ⟨bytes, reading, storing⟩ := of_bind copying
    obtain ⟨_, -, afterValid⟩ := of_bind reading
    obtain ⟨_, -, returned⟩ := of_bind afterValid
    cases returned
    rw [← blockData_eq found] at storing
    exact store_eq_ok_iff.mp storing
  rw [same, ValidatedZCB.writeData, lens, blockOffs, dataOffs] at done
  dsimp only
  rw [ValidatedZCB.withPart, size_eq]
  refine ⟨⟨_, found⟩, ?_⟩
  by_cases whole : partEnd offset size blk - partStart offset blk = blockSize
  · rw [if_pos whole] at done
    obtain ⟨_, -, afterStart⟩ := of_bind done
    obtain ⟨_, aligned, afterAligned⟩ := of_bind afterStart
    obtain ⟨_, -, compared⟩ := of_bind afterAligned
    have start : offset % blockSize = 0 := by
      rw [ensure_eq_ok_iff] at aligned
      simp only [written, partStart, partEnd, blockSize] at *
      omega
    refine ⟨fun _ => start, ?_⟩
    split at compared
    · cases compared
      exact Or.inl rfl
    · rename_i different
      obtain ⟨copied, copying, returned⟩ := of_bind compared
      obtain ⟨fits, rfl⟩ := copies copied copying
      cases returned
      rw [size_eq] at fits
      exact Or.inr ⟨fits, fun _ => different, by rw [if_pos whole]⟩
  · rw [if_neg whole] at done
    obtain ⟨fits, rfl⟩ := copies after done
    rw [size_eq] at fits
    exact ⟨fun isWhole => absurd isWhole whole,
      Or.inr ⟨fits, fun isWhole => absurd isWhole whole, by rw [if_neg whole]⟩⟩

theorem writeRecord_needs {idx zmr : Nat}
    (done : file.writeRecord request zmr vbuf idx = .ok after) :
    (∃ location, request.getTreeLocation idx = .ok location ∧ location.toNat < file.treeSize ∧
      (file.tree location.toNat).state = .validated) ∧
    zmr + merkleRecordSize * idx + merkleRecordSize ≤ vbuf.buffer.length ∧
    after.buffer.length = vbuf.buffer.length ∧ after.headerOffset = vbuf.headerOffset := by
  obtain ⟨location, found, afterLocation⟩ := of_bind done
  obtain ⟨vmr, looked, stored⟩ := of_bind afterLocation
  obtain ⟨_, known, afterKnown⟩ := of_bind looked
  obtain ⟨_, validated, -⟩ := of_bind afterKnown
  rw [ensure_eq_ok_iff] at known validated
  obtain ⟨fits, rfl⟩ := store_eq_ok_iff.mp stored
  have size := ZFTPMerkleRecord.format.encode_length ⟨location, vmr.hash⟩
  refine ⟨⟨location, found, known, validated⟩, ?_, patch_length fits, rfl⟩
  rw [size] at fits
  exact fits

theorem writeRecords_needs (done : file.writeRecords request vbuf = .ok after) :
    (∀ idx < request.getNumTreeLocations, ∃ location,
      request.getTreeLocation idx = .ok location ∧ location.toNat < file.treeSize ∧
        (file.tree location.toNat).state = .validated) ∧
    (request.getNumTreeLocations ≠ 0 → vbuf.headerOffset +
      merkleRecordSize * request.getNumTreeLocations ≤ vbuf.buffer.length) ∧
    after.buffer.length = vbuf.buffer.length ∧
    after.headerOffset = (vbuf.headerOffset +
      merkleRecordSize * request.getNumTreeLocations) % 2 ^ 32 := by
  let holds (state : ValidatedZCB) : Prop := state.buffer.length = vbuf.buffer.length ∧
    state.headerOffset =
      (vbuf.headerOffset + merkleRecordSize * request.getNumTreeLocations) % 2 ^ 32
  have kept : ∀ (state : ValidatedZCB) (idx : Nat) (next : ValidatedZCB),
      idx ∈ range request.getNumTreeLocations → holds state →
      file.writeRecord request vbuf.headerOffset state idx = .ok next → holds next := by
    rintro state idx next - ⟨sameLength, sameHeader⟩ stepped
    obtain ⟨-, -, length_eq, header_eq⟩ := writeRecord_needs stepped
    exact ⟨length_eq.trans sameLength, header_eq.trans sameHeader⟩
  have initially : holds (vbuf.writeHeader (merkleRecordSize * request.getNumTreeLocations)) :=
    ⟨rfl, rfl⟩
  have visits := foldlM_visits kept initially done
  have ends := foldlM_invariant kept initially done
  refine ⟨fun idx inside => ?_, fun some => ?_, ends⟩
  · obtain ⟨state, next, -, stepped⟩ := visits idx (mem_range.mpr inside)
    exact (writeRecord_needs stepped).1
  · obtain ⟨last, count⟩ := Nat.exists_eq_succ_of_ne_zero some
    obtain ⟨state, next, ⟨sameLength, -⟩, stepped⟩ := visits last (mem_range.mpr (by omega))
    obtain ⟨-, fits, -⟩ := writeRecord_needs stepped
    rw [count, Nat.mul_succ]
    omega

theorem servable_of_writeBlocksToBuf {offset size : UInt32} {after : ValidatedZCB}
    (fits : offset.toNat + size.toNat ≤ file.getFilelen.toNat)
    (done : file.writeBlocksToBuf ValidatedZCB.writeData cache vbuf 0 offset size =
      .ok after) : file.Servable cache offset.toNat size.toNat := by
  have limit := file.getFilelen.toNat_lt
  rw [writeBlocksToBuf_eq fits] at done
  have visits := @foldlM_visits _ _ _ _ _ _ (fun _ => True) _ (fun _ _ _ _ _ _ => trivial) trivial
    done
  refine ⟨fun blk inside => ?_, fun blk inside => ?_⟩
  · obtain ⟨state, next, -, stepped⟩ := visits blk inside
    exact (writePart_effect (by omega) inside stepped).1
  · obtain ⟨state, next, -, stepped⟩ := visits blk inside
    exact (writePart_effect (by omega) inside stepped).2.1

theorem writeBlocksToBuf_confined {offset size : UInt32}
    (fits : offset.toNat + size.toNat ≤ file.getFilelen.toNat)
    (done : file.writeBlocksToBuf ValidatedZCB.writeData cache vbuf 0 offset size = .ok after) :
    after.headerOffset = vbuf.headerOffset ∧
      Confined vbuf.buffer after.buffer vbuf.headerOffset vbuf.buffer.length := by
  have limit := file.getFilelen.toNat_lt
  rw [writeBlocksToBuf_eq fits] at done
  let holds (state : ValidatedZCB) : Prop := state.headerOffset = vbuf.headerOffset ∧
    Confined vbuf.buffer state.buffer vbuf.headerOffset vbuf.buffer.length
  change holds after
  refine foldlM_invariant (fun state blk next inside held stepped => ?_) ⟨rfl, .refl _ _ _⟩ done
  obtain ⟨header, confined⟩ := held
  rcases (writePart_effect (by omega) inside stepped).2.2 with rfl | ⟨room, -, rfl⟩
  · exact ⟨header, confined⟩
  · refine ⟨header, confined.trans (.of_patch room (by omega) ?_)⟩
    rw [← confined.length]
    exact room

/-- A request for which a reply was written can be answered, the header part of the reply
fits into the buffer, and the buffer keeps its length. -/
theorem answerable_of_fillReply (unused : vbuf.headerOffset = 0)
    (small : vbuf.buffer.length < 2 ^ 32)
    (done : file.fillReply cache request vbuf = .ok after) :
    file.Answerable cache request ∧ headerSize request ≤ vbuf.buffer.length ∧
      after.buffer.length = vbuf.buffer.length := by
  obtain ⟨range, ranged, afterRange⟩ := of_bind done
  obtain ⟨known, rfl⟩ := getAvailableDataRange_eq_ok_iff.mp ranged
  obtain ⟨_, stored, afterHeader⟩ := of_bind afterRange
  obtain ⟨headerFits, rfl⟩ := store_eq_ok_iff.mp stored
  obtain ⟨recorded, recording, afterRecords⟩ := of_bind afterHeader
  obtain ⟨records, recordsFit, recordedLength, recordedHeader⟩ := writeRecords_needs recording
  obtain ⟨_, padding, afterPadding⟩ := of_bind afterRecords
  obtain ⟨paddingFits, rfl⟩ := store_eq_ok_iff.mp padding
  obtain ⟨filled, filling, closing⟩ := of_bind afterPadding
  obtain ⟨sizeFits, rfl⟩ := store_eq_ok_iff.mp closing
  have blocks := (writeBlocksToBuf_confined (file.available_fits request) filling).2.length
  have kept := (patch_length sizeFits).trans (blocks.trans
    ((patch_length paddingFits).trans (recordedLength.trans (patch_length headerFits))))
  refine ⟨⟨known, records, servable_of_writeBlocksToBuf (file.available_fits request) filling⟩,
    ?_, kept⟩
  have opened : (0 + dataPacketSize) % 2 ^ 32 = dataPacketSize := rfl
  have same := patch_length headerFits
  simp only [ValidatedZCB.writeHeader, unused, opened, length_replicate] at *
  rw [headerSize]
  by_cases none : request.getNumTreeLocations = 0
  · rw [none, Nat.mul_zero, Nat.add_zero] at recordedHeader ⊢
    have : dataPacketSize = 61 := rfl
    omega
  · omega

end ZCachedFile

end Embassies.Zftp
