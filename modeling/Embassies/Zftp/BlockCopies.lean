import Embassies.Zftp.ReplyCache

/-!
# Copies of a range

`write_blocks_to_buf` copies any range of a file into a `MemBuf`.  A `ValidatedZCB`
remembers the hash of every whole block, by its place in the data, and therefore wants
whole blocks to be aligned there.  A range that starts inside a block and goes on beyond
the next one is refused.  Hashes that are not known yet are zeros, so a block whose
hash is zeros is not copied.
-/

namespace Embassies.Zftp

open Library Library.Buffer Library.Checked List

open ZCachedFile

/-- `MemBuf`. -/
structure MemBuf where
  buffer : List UInt8
  headerOffset : Nat
  maxDataLen : UInt32

namespace MemBuf

/-- `write_data`. -/
def writeData (buf : MemBuf) (_hash : Hash) (block : ZBlockCacheRecord)
    (dataOffset blockOffset len : UInt32) : Except Fault MemBuf := do
  let bytes ← block.read blockOffset.toNat len.toNat
  let buffer ← write .outOfBounds buf.buffer (buf.headerOffset + dataOffset.toNat) bytes
  return { buf with buffer, maxDataLen := dataOffset + len }

end MemBuf

namespace ZCachedFile

variable {β : Type} {file : ZCachedFile} {cache : ZBlockCache} {offset size blk : Nat}

/-- All blocks of a range are validated and present. -/
def Present (file : ZCachedFile) (cache : ZBlockCache) (offset size : Nat) : Prop :=
  ∀ blk ∈ touched offset size, ∃ found, file.validBlock cache blk = .ok found

theorem Present.rangeBytes_eq (present : file.Present cache offset size) :
    rangeBytes (file.blockData cache) offset size = file.fileBytes cache offset size :=
  rangeBytes_eq_fileBytes fun _ inside => blockData_length (present _ inside)

/-! ## The two buffers -/

theorem Present.copy_memBuf {offset size : UInt32} {buf : MemBuf}
    (present : file.Present cache offset.toNat size.toNat)
    (fits : offset.toNat + size.toNat ≤ file.getFilelen.toNat)
    (room : buf.headerOffset + size.toNat ≤ buf.buffer.length) :
    ∃ after, file.writeBlocksToBuf MemBuf.writeData cache buf 0 offset size = .ok after ∧
      after.buffer = patch buf.buffer buf.headerOffset
        (file.fileBytes cache offset.toNat size.toNat) := by
  have limit := file.getFilelen.toNat_lt
  rw [writeBlocksToBuf_eq fits, ← present.rangeBytes_eq, rangeBytes]
  have loop := @foldlM_touched _ _ _ MemBuf.buffer
    (file.writePart MemBuf.writeData cache 0 offset.toNat size.toNat) _
    (fun after _ => after.headerOffset = buf.headerOffset) _ buf
    (fun blk inside => partBytes_length inside (blockData_length (present _ inside))) ?_ room rfl
  · obtain ⟨after, -, folded, patched, -⟩ := loop
    exact ⟨after, folded, patched⟩
  · intro blk inside before header enough
    obtain ⟨⟨hash, block⟩, found⟩ := present blk inside
    obtain ⟨-, -, -, -, valid⟩ := validBlock_eq_ok_iff.mp found
    obtain ⟨dataOffset, blockOffset, len, dataOffs, blockOffs, lens, same⟩ :=
      @writePart_found _ MemBuf.writeData _ _ _ _ _ before _ _ (by omega) inside found
    obtain ⟨inBlock, inRange, -⟩ := part_inside inside
    have bytes : (block.data.drop blockOffset.toNat).take len.toNat =
        partBytes (file.blockData cache) offset.toNat size.toNat blk := by
      rw [partBytes, blockData_eq found, blockOffs, lens]
    have length_eq := partBytes_length inside (blockData_length (present _ inside))
    refine ⟨{ before with
      buffer := patch before.buffer (buf.headerOffset + dataOffset.toNat)
        ((block.data.drop blockOffset.toNat).take len.toNat)
      maxDataLen := dataOffset + len }, ?_, by rw [bytes, dataOffs], header⟩
    rw [same, MemBuf.writeData, ZBlockCacheRecord.read, ensure_true valid, ok_bind,
      ensure_true (by omega), ok_bind, pure_eq_ok, ok_bind, header,
      write_eq_ok (by rw [bytes, length_eq, dataOffs]; omega)]
    rfl

/-- The block of a leaf has the hash that stands for no hash. -/
def ZeroHashed (file : ZCachedFile) (blk : Nat) : Prop :=
  (file.tree (2 ^ file.treeDepth - 1 + blk)).hash = zeroHash

instance (file : ZCachedFile) (blk : Nat) : Decidable (file.ZeroHashed blk) :=
  inferInstanceAs (Decidable (_ = _))

/-- What a `ValidatedZCB` without hashes has at the place of a whole block. -/
def oldBytes (vbuf : ValidatedZCB) (offset size blk : Nat) : List UInt8 :=
  (vbuf.buffer.drop (vbuf.headerOffset + written offset size blk)).take blockSize

/-- What is in a `ValidatedZCB` without hashes after a part was written. -/
def copiedBytes (file : ZCachedFile) (cache : ZBlockCache) (vbuf : ValidatedZCB)
    (offset size blk : Nat) : List UInt8 :=
  if Whole offset size blk ∧ file.ZeroHashed blk then oldBytes vbuf offset size blk
  else partBytes (file.blockData cache) offset size blk

/-- A range can be copied into a `ValidatedZCB` without hashes: its whole blocks are
aligned, and none of them has a hash of zeros, unless the buffer has its bytes. -/
structure Copyable (file : ZCachedFile) (cache : ZBlockCache) (vbuf : ValidatedZCB)
    (offset size : Nat) : Prop where
  aligned : ∀ blk ∈ touched offset size, Whole offset size blk → offset % blockSize = 0
  hashed : ∀ blk ∈ touched offset size, Whole offset size blk → file.ZeroHashed blk →
    oldBytes vbuf offset size blk = file.blockData cache blk

/-- What the loop keeps: the hashes and the bytes of the blocks to come are as they
were. -/
structure Untouched (vbuf after : ValidatedZCB) (offset size blk : Nat) : Prop where
  header : after.headerOffset = vbuf.headerOffset
  hashes : ∀ index, written offset size blk ≤ index * blockSize →
    after.hashes index = zeroHash
  bytes : after.buffer.drop (vbuf.headerOffset + written offset size blk) =
    vbuf.buffer.drop (vbuf.headerOffset + written offset size blk)

section Fresh

variable {vbuf before after : ValidatedZCB}

section Inside

variable (inside : blk ∈ touched offset size)

include inside

theorem copiedBytes_length (present : file.Present cache offset size)
    (room : vbuf.headerOffset + size ≤ vbuf.buffer.length) :
    (file.copiedBytes cache vbuf offset size blk).length =
      partEnd offset size blk - partStart offset blk := by
  have length_eq := partBytes_length inside (blockData_length (present _ inside))
  rw [copiedBytes]
  split
  · rename_i skipped
    obtain ⟨-, short, -⟩ := part_inside inside
    have whole : partEnd offset size blk - partStart offset blk = blockSize := skipped.1
    rw [oldBytes, length_take, length_drop]
    omega
  · exact length_eq

theorem partBytes_of_whole (present : file.Present cache offset size)
    (whole : Whole offset size blk) :
    partBytes (file.blockData cache) offset size blk = file.blockData cache blk := by
  have start : partStart offset blk - blk * blockSize = 0 := by
    simp only [Whole, partStart, partEnd, blockSize] at *
    omega
  rw [partBytes, start, drop_zero, whole,
    take_of_length_le (by rw [blockData_length (present _ inside)])]

/-- What is behind a part that was written is as it was. -/
theorem Untouched.advance {bytes : List UInt8} (untouched : Untouched vbuf before offset size blk)
    (length_eq : bytes.length = partEnd offset size blk - partStart offset blk)
    (room : vbuf.headerOffset + size ≤ before.buffer.length)
    (header : after.headerOffset = before.headerOffset)
    (hashes : ∀ index, index * blockSize ≠ written offset size blk →
      after.hashes index = before.hashes index)
    (patched : after.buffer =
      patch before.buffer (vbuf.headerOffset + written offset size blk) bytes) :
    Untouched vbuf after offset size (blk + 1) := by
  have bounds := mem_touched.mp inside
  have next := touched_step inside
  obtain ⟨-, inRange, -⟩ := part_inside inside
  refine ⟨header.trans untouched.header, ?_, ?_⟩
  · intro index behind
    rw [hashes index (by omega)]
    exact untouched.hashes index (by omega)
  · have rest := congrArg (drop bytes.length) untouched.bytes
    rw [drop_drop, drop_drop] at rest
    rw [patched, drop_patch_of_le (by omega) (by omega), ← next, ← length_eq, ← Nat.add_assoc]
    exact rest

theorem copyBlock_part {hash : Hash} {block : ZBlockCacheRecord}
    (found : file.validBlock cache blk = .ok (hash, block))
    (room : before.headerOffset + size ≤ before.buffer.length) :
    before.copyBlock block (written offset size blk) (partStart offset blk - blk * blockSize)
        (partEnd offset size blk - partStart offset blk) =
      .ok { before with
        buffer := patch before.buffer (before.headerOffset + written offset size blk)
          (partBytes (file.blockData cache) offset size blk) } := by
  obtain ⟨-, -, -, -, valid⟩ := validBlock_eq_ok_iff.mp found
  obtain ⟨inBlock, inRange, -⟩ := part_inside inside
  rw [ValidatedZCB.copyBlock_eq valid inBlock (by omega), partBytes, blockData_eq found]

theorem writePart_fresh (small : offset + size < 2 ^ 32) (present : file.Present cache offset size)
    (aligned : Whole offset size blk → offset % blockSize = 0)
    (untouched : Untouched vbuf before offset size blk)
    (room : vbuf.headerOffset + size ≤ before.buffer.length)
    (known : vbuf.headerOffset + size ≤ vbuf.buffer.length) :
    ∃ after, file.writePart ValidatedZCB.writeData cache 0 offset size before blk = .ok after ∧
      after.buffer = patch before.buffer (vbuf.headerOffset + written offset size blk)
        (file.copiedBytes cache vbuf offset size blk) ∧
      Untouched vbuf after offset size (blk + 1) := by
  obtain ⟨⟨hash, block⟩, found⟩ := present blk inside
  obtain ⟨-, -, leaf, -, -⟩ := validBlock_eq_ok_iff.mp found
  obtain ⟨dataOffset, blockOffset, len, dataOffs, blockOffs, lens, same⟩ :=
    @writePart_found _ ValidatedZCB.writeData _ _ _ _ _ before _ _ small inside found
  obtain ⟨inBlock, inRange, -⟩ := part_inside inside
  have length_eq := copiedBytes_length inside present known
  have copy := copyBlock_part inside found (untouched.header ▸ room)
  rw [untouched.header] at copy
  rw [same, ValidatedZCB.writeData, lens, dataOffs, blockOffs]
  by_cases whole : Whole offset size blk
  · have whole_eq : partEnd offset size blk - partStart offset blk = blockSize := whole
    have alignment := aligned whole
    obtain ⟨start, place, multiple⟩ := whole.place alignment
    have slot : written offset size blk / blockSize < before.numHashes := by
      have enough : written offset size blk + blockSize ≤ before.buffer.length := by omega
      rw [ValidatedZCB.numHashes]
      simp only [blockSize] at place enough ⊢
      omega
    have empty := untouched.hashes (written offset size blk / blockSize) (by omega)
    rw [if_pos whole_eq, ValidatedZCB.writeWhole, ensure_true start, ok_bind,
      ensure_true multiple, ok_bind, ensure_true slot, ok_bind, empty]
    by_cases zeros : file.ZeroHashed blk
    · have hash_eq : hash = zeroHash := leaf.symm.trans zeros
      have stays : before.buffer = patch before.buffer (vbuf.headerOffset + written offset size blk)
          (file.copiedBytes cache vbuf offset size blk) := by
        rw [copiedBytes, if_pos ⟨whole, zeros⟩]
        refine (patch_self ?_).symm
        rw [copiedBytes, if_pos ⟨whole, zeros⟩, whole_eq] at length_eq
        rw [length_eq, untouched.bytes]
        rfl
      rw [if_pos hash_eq]
      exact ⟨before, rfl, stays, untouched.advance inside length_eq room rfl (fun _ _ => rfl) stays⟩
    · have hash_ne : hash ≠ zeroHash := fun equal => zeros (leaf.trans equal)
      have bytes : file.copiedBytes cache vbuf offset size blk =
          partBytes (file.blockData cache) offset size blk :=
        if_neg fun both => zeros both.2
      rw [if_neg hash_ne, copy, ok_bind]
      refine ⟨_, rfl, by rw [bytes], untouched.advance inside length_eq room
        untouched.header.symm ?_ (by rw [bytes])⟩
      intro index apart
      apply Function.update_of_ne
      rintro rfl
      exact apart place
  · have bytes : file.copiedBytes cache vbuf offset size blk =
        partBytes (file.blockData cache) offset size blk :=
      if_neg fun both => whole both.1
    have part : ¬partEnd offset size blk - partStart offset blk = blockSize := whole
    rw [if_neg part, copy]
    exact ⟨_, rfl, by rw [bytes], untouched.advance inside length_eq room
      untouched.header.symm (fun _ _ => rfl) (by rw [bytes])⟩

end Inside

/-- What `write_blocks_to_buf` leaves in a `ValidatedZCB` without hashes. -/
theorem Present.copy_fresh
    {offset size : UInt32} (present : file.Present cache offset.toNat size.toNat)
    (fits : offset.toNat + size.toNat ≤ file.getFilelen.toNat)
    (room : vbuf.headerOffset + size.toNat ≤ vbuf.buffer.length)
    (fresh : ∀ index, vbuf.hashes index = zeroHash)
    (aligned : ∀ blk ∈ touched offset.toNat size.toNat,
      Whole offset.toNat size.toNat blk → offset.toNat % blockSize = 0) :
    ∃ after, file.writeBlocksToBuf ValidatedZCB.writeData cache vbuf 0 offset size = .ok after ∧
      after.buffer = patch vbuf.buffer vbuf.headerOffset ((touched offset.toNat size.toNat).flatMap
          (file.copiedBytes cache vbuf offset.toNat size.toNat)) := by
  have limit := file.getFilelen.toNat_lt
  rw [writeBlocksToBuf_eq fits]
  obtain ⟨after, -, folded, patched, -⟩ := @foldlM_touched _ _ _ ValidatedZCB.buffer _ _
    (fun after blk => Untouched vbuf after offset.toNat size.toNat blk) _ vbuf
    (fun blk inside => copiedBytes_length inside present room)
    (fun blk inside before untouched enough =>
      writePart_fresh inside (by omega) present (aligned blk inside) untouched enough room) room
    ⟨rfl, fun index _ => fresh index, rfl⟩
  exact ⟨after, folded, patched⟩

end Fresh

theorem flatMap_eq_iff {blocks : List Nat} {left right : Nat → List UInt8}
    (lengths : ∀ blk ∈ blocks, (left blk).length = (right blk).length) :
    blocks.flatMap left = blocks.flatMap right ↔ ∀ blk ∈ blocks, left blk = right blk := by
  induction blocks with
  | nil => simp
  | cons blk blocks induction =>
    rw [flatMap_cons, flatMap_cons, forall_mem_cons,
      ← induction fun other member => lengths other (mem_cons_of_mem _ member)]
    constructor
    · exact fun same => append_inj same (lengths blk mem_cons_self)
    · rintro ⟨first, rest⟩
      rw [first, rest]

/-- A call of `write_blocks_to_buf` has returned and left these bytes behind the header. -/
def Leaves (contents : β → List UInt8) (outcome : Except Fault β) (header : Nat)
    (bytes : List UInt8) : Prop :=
  ∃ after, outcome = .ok after ∧
    ((contents after).drop header).take bytes.length = bytes

theorem fileBytes_length : (file.fileBytes cache offset size).length = size := by
  rw [fileBytes, length_map, length_range']

theorem take_drop_patch_self
    {buffer bytes : List UInt8} {header : Nat} (fits : header ≤ buffer.length) :
    ((patch buffer header bytes).drop header).take bytes.length = bytes := by
  rw [drop_patch_start fits, take_left]

/-- A range is copied into a `MemBuf` as it should, and into a new `ValidatedZCB` exactly
if its whole blocks are aligned and have hashes other than zeros. -/
theorem copies_range_iff (file : ZCachedFile) (cache : ZBlockCache) (offset size : UInt32)
    (buffer : List UInt8) (header : Nat)
    (present : file.Present cache offset.toNat size.toNat)
    (fits : offset.toNat + size.toNat ≤ file.getFilelen.toNat)
    (room : header + size.toNat ≤ buffer.length) :
    Leaves MemBuf.buffer
        (file.writeBlocksToBuf MemBuf.writeData cache ⟨buffer, header, 0⟩ 0 offset size)
        header (file.fileBytes cache offset.toNat size.toNat) ∧
      (Leaves ValidatedZCB.buffer (file.writeBlocksToBuf ValidatedZCB.writeData cache
            ⟨buffer, header, fun _ => zeroHash⟩ 0 offset size)
          header (file.fileBytes cache offset.toNat size.toNat) ↔
        file.Copyable cache ⟨buffer, header, fun _ => zeroHash⟩ offset.toNat size.toNat) := by
  constructor
  · obtain ⟨after, wrote, patched⟩ :=
      @Present.copy_memBuf file cache offset size ⟨buffer, header, 0⟩ present fits room
    refine ⟨after, wrote, ?_⟩
    rw [patched]
    exact take_drop_patch_self (Nat.le_of_add_right_le room)
  · have copied := @Present.copy_fresh file cache ⟨buffer, header, fun _ => zeroHash⟩ offset
      size present fits room fun _ => rfl
    have lengths : ∀ blk ∈ touched offset.toNat size.toNat,
        (file.copiedBytes cache ⟨buffer, header, fun _ => zeroHash⟩ offset.toNat size.toNat
          blk).length =
        (partBytes (file.blockData cache) offset.toNat size.toNat blk).length := by
      intro blk inside
      rw [copiedBytes_length inside present room,
        partBytes_length inside (blockData_length (present _ inside))]
    -- which bytes the copies leave
    have bytes_iff : (touched offset.toNat size.toNat).flatMap (file.copiedBytes cache
          ⟨buffer, header, fun _ => zeroHash⟩ offset.toNat size.toNat) =
          file.fileBytes cache offset.toNat size.toNat ↔
        ∀ blk ∈ touched offset.toNat size.toNat, Whole offset.toNat size.toNat blk →
          file.ZeroHashed blk →
          oldBytes ⟨buffer, header, fun _ => zeroHash⟩ offset.toNat size.toNat blk =
            file.blockData cache blk := by
      rw [← present.rangeBytes_eq, rangeBytes, flatMap_eq_iff lengths]
      refine forall₂_congr fun blk inside => ?_
      rw [copiedBytes]
      split
      · rename_i skipped
        rw [partBytes_of_whole inside present skipped.1]
        exact ⟨fun same _ _ => same, fun same => same skipped.1 skipped.2⟩
      · rename_i copy
        exact ⟨fun _ whole zeros => absurd ⟨whole, zeros⟩ copy, fun _ => rfl⟩
    constructor
    · rintro ⟨after, wrote, left⟩
      have aligned := (servable_of_writeBlocksToBuf fits wrote).aligned
      refine ⟨aligned, bytes_iff.mp ?_⟩
      obtain ⟨other, wroteOther, patched⟩ := copied aligned
      rw [wrote] at wroteOther
      cases wroteOther
      have length_eq : ((touched offset.toNat size.toNat).flatMap (file.copiedBytes cache
          ⟨buffer, header, fun _ => zeroHash⟩ offset.toNat size.toNat)).length =
          size.toNat := by
        rw [length_flatMap, map_congr_left lengths, ← length_flatMap]
        exact rangeBytes_length fun _ inside => blockData_length (present _ inside)
      have self := @take_drop_patch_self buffer ((touched offset.toNat size.toNat).flatMap
        (file.copiedBytes cache ⟨buffer, header, fun _ => zeroHash⟩ offset.toNat
          size.toNat)) header (Nat.le_of_add_right_le room)
      rw [length_eq] at self
      rw [patched, fileBytes_length] at left
      exact self.symm.trans left
    · intro copyable
      obtain ⟨after, wrote, patched⟩ := copied copyable.aligned
      refine ⟨after, wrote, ?_⟩
      rw [patched, bytes_iff.mpr copyable.hashed]
      exact take_drop_patch_self (Nat.le_of_add_right_le room)

/-- A file of two blocks. -/
def twoBlocks : ZCachedFile where
  fileHash := zeroHash
  metadata := ⟨0x20000, 0⟩
  metadataState := .validated
  tree _ := ⟨onesHash, .validated⟩
  parentsOfTentativeNodes := []

theorem twoBlocks_treeDepth : twoBlocks.treeDepth = 1 := by decide +kernel

theorem twoBlocks_present (offset size : Nat) (fits : offset + size ≤ 0x20000) :
    twoBlocks.Present (fun _ => some ZFileServer.sevens) offset size := by
  intro blk inside
  have bounds := mem_touched.mp inside
  refine ⟨(onesHash, ZFileServer.sevens), validBlock_eq_ok_iff.mpr
    ⟨?_, Nat.le_refl 2, rfl, rfl, rfl⟩⟩
  rw [twoBlocks_treeDepth]
  simp only [partStart, partEnd, blockSize] at bounds
  omega

/-- Both blocks are copied, behind a header of one byte. -/
theorem copies_range_two_blocks : Leaves ValidatedZCB.buffer
      (twoBlocks.writeBlocksToBuf ValidatedZCB.writeData (fun _ => some ZFileServer.sevens)
        ⟨List.replicate 0x20001 0, 1, fun _ => zeroHash⟩ 0 0 0x20000)
      1 (twoBlocks.fileBytes (fun _ => some ZFileServer.sevens) 0 0x20000) := by
  refine (copies_range_iff twoBlocks (fun _ => some ZFileServer.sevens) 0 0x20000
    (List.replicate 0x20001 0) 1 (twoBlocks_present 0 0x20000 (Nat.le_refl _))
    (Nat.le_refl _) (by rw [length_replicate]; exact Nat.le_refl _)).2.mpr ⟨?_, ?_⟩
  · exact fun _ _ _ => rfl
  · intro blk _ _ zeros
    have same : List.replicate 20 (1 : UInt8) = List.replicate 20 0 := congrArg Hash.bytes zeros
    exact absurd same (by decide)

/-- All of the file but its first byte cannot be copied into a new `ValidatedZCB`. -/
theorem unaligned_range_refused : twoBlocks.Present (fun _ => some ZFileServer.sevens) 1 0x1ffff ∧
      ¬∃ after, twoBlocks.writeBlocksToBuf ValidatedZCB.writeData (fun _ => some ZFileServer.sevens)
        ⟨List.replicate 0x20000 0, 1, fun _ => zeroHash⟩ 0 1 0x1ffff = .ok after := by
  refine ⟨twoBlocks_present 1 0x1ffff (Nat.le_refl _), ?_⟩
  rintro ⟨after, wrote⟩
  have servable := @servable_of_writeBlocksToBuf _ _ _ 1 0x1ffff _ (Nat.le_refl _) wrote
  have inside : 1 ∈ touched 1 0x1ffff := mem_touched.mpr (by decide)
  exact absurd (servable.aligned 1 inside (by decide)) (by decide)

end ZCachedFile

end Embassies.Zftp
