import Embassies.Zftp.CachedFile

/-!
# The parts of a range

`write_blocks_to_buf` goes through a range of a file block by block.  Its loop is
a fold over the blocks that the range touches, in which each block contributes
the part of it that lies in the range, and these parts together are the bytes of
the range.
-/

namespace Embassies.Zftp

open Library Library.Buffer Library.Checked List UInt32

namespace ZCachedFile

variable {β : Type} {writeData : WriteData β} {file : ZCachedFile}
  {cache : ZBlockCache} {packetDataOffset : UInt32}

/-- The blocks that a range touches. -/
def touched (offset size : Nat) : List Nat :=
  List.range' (offset / blockSize)
    (if size = 0 then 0 else (offset + size - 1) / blockSize + 1 - offset / blockSize)

/-- Where the part of a block in a range starts. -/
def partStart (offset blk : Nat) : Nat := max offset (blk * blockSize)

/-- Where the part of a block in a range ends. -/
def partEnd (offset size blk : Nat) : Nat :=
  min (offset + size) ((blk + 1) * blockSize)

/-- Write the part of one block. -/
def writePart (writeData : WriteData β) (file : ZCachedFile) (cache : ZBlockCache)
    (packetDataOffset : UInt32) (offset size : Nat) (buf : β) (blk : Nat) :
    Except Fault β := do
  let (hash, block) ← file.validBlock cache blk
  writeData buf hash block
    (UInt32.ofNat (partStart offset blk - offset) + packetDataOffset)
    (UInt32.ofNat (partStart offset blk - blk * blockSize))
    (UInt32.ofNat (partEnd offset size blk - partStart offset blk))

variable {offset size blk : Nat}

theorem mem_touched :
    blk ∈ touched offset size ↔ partStart offset blk < partEnd offset size blk := by
  rw [touched, mem_range'_1, partStart, partEnd, blockSize, Nat.max_lt, Nat.lt_min, Nat.lt_min]
  split
  · omega
  · omega

/-- How far the range was written before a block. -/
def written (offset size blk : Nat) : Nat :=
  min (partStart offset blk) (offset + size) - offset

theorem touched_step (inside : blk ∈ touched offset size) :
    written offset size blk + (partEnd offset size blk - partStart offset blk) =
      written offset size (blk + 1) := by
  have bounds := mem_touched.mp inside
  have first : offset ≤ partStart offset blk := Nat.le_max_left _ _
  have last : partEnd offset size blk ≤ offset + size := Nat.min_le_left _ _
  have next : partStart offset (blk + 1) = (blk + 1) * blockSize :=
    Nat.max_eq_right (by rw [partEnd] at bounds; omega)
  rw [written, written, next, Nat.min_eq_left (by omega), Nat.min_comm, ← partEnd]
  omega

theorem written_start (offset size : Nat) : written offset size (offset / blockSize) = 0 := by
  simp only [written, partStart, blockSize]
  omega

theorem written_le (offset size blk : Nat) : written offset size blk ≤ size := by
  rw [written]
  omega

theorem part_inside (inside : blk ∈ touched offset size) : partStart offset blk - blk * blockSize +
        (partEnd offset size blk - partStart offset blk) ≤ blockSize ∧
      written offset size blk + (partEnd offset size blk - partStart offset blk) ≤ size ∧
      partStart offset blk - offset = written offset size blk := by
  have bounds := mem_touched.mp inside
  have first : offset ≤ partStart offset blk := Nat.le_max_left _ _
  have start : blk * blockSize ≤ partStart offset blk := Nat.le_max_right _ _
  simp only [written, partEnd, blockSize] at bounds start ⊢
  omega

/-- Induction along the blocks that a range touches. -/
theorem touched_induction {offset size : Nat} {motive : Nat → List Nat → Prop}
    (done : ∀ blk, written offset size blk = size → motive blk [])
    (step : ∀ blk rest, blk ∈ touched offset size → motive (blk + 1) rest →
      motive blk (blk :: rest)) :
    motive (offset / blockSize) (touched offset size) := by
  have along : ∀ count blk, offset / blockSize ≤ blk →
      (∀ other, blk ≤ other → (other ∈ touched offset size ↔ other < blk + count)) →
      motive blk (range' blk count) := by
    intro count
    induction count with
    | zero =>
      intro blk started rest
      have outside : blk ∉ touched offset size := by
        rw [rest blk (Nat.le_refl _)]
        omega
      refine done blk ?_
      rw [mem_touched] at outside
      simp only [written, partStart, partEnd, blockSize] at *
      omega
    | succ count induction =>
      intro blk started rest
      refine step blk _ ((rest blk (Nat.le_refl _)).mpr (by omega))
        (induction (blk + 1) (by omega) ?_)
      intro other above
      rw [rest other (by omega)]
      omega
  refine along _ _ (Nat.le_refl _) fun other above => ?_
  rw [touched, mem_range'_1]
  omega

theorem lt_numBlocks_of_touched (fits : offset + size ≤ file.getFilelen.toNat)
    (small : file.getFilelen.toNat ≤ 0xffff0000) (inside : blk ∈ touched offset size) :
    blk < file.numBlocks := by
  have bounds := mem_touched.mp inside
  rw [numBlocks, computeNumBlocks]
  simp only [partStart, partEnd, blockSize] at *
  omega

section Arithmetic

variable {offset size : UInt32} {blk : Nat}

section Inside

variable (inside : blk ∈ touched offset.toNat size.toNat)

include inside

theorem blkStart_toNat (fits : offset.toNat + size.toNat < 2 ^ 32) :
    (UInt32.ofNat (blk * blockSize)).toNat = blk * blockSize := by
  have bounds := mem_touched.mp inside
  rw [partStart, partEnd] at bounds
  exact toNat_ofNat_of_lt' (show _ < 2 ^ 32 by omega)

theorem blkOff_toNat : (UInt32.ofNat (partStart offset.toNat blk - blk * blockSize)).toNat =
      partStart offset.toNat blk - blk * blockSize := by
  have bounds := mem_touched.mp inside
  simp only [partStart, partEnd, blockSize] at bounds ⊢
  exact toNat_ofNat_of_lt' (show _ < 2 ^ 32 by omega)

theorem blkOff_eq (fits : offset.toNat + size.toNat < 2 ^ 32) :
    (if offset > UInt32.ofNat (blk * blockSize) then
      offset - UInt32.ofNat (blk * blockSize) else 0) =
      UInt32.ofNat (partStart offset.toNat blk - blk * blockSize) := by
  have blkStart := blkStart_toNat inside fits
  have blkOff := blkOff_toNat inside
  rw [← UInt32.toNat_inj, blkOff]
  rw [partStart]
  split
  · rename_i above
    rw [gt_iff_lt, lt_iff_toNat_lt] at above
    rw [UInt32.toNat_sub_of_le _ _ (le_iff_toNat_le.mpr (by omega))]
    omega
  · rename_i below
    rw [gt_iff_lt, lt_iff_toNat_lt] at below
    change 0 = _
    omega

theorem blkLen_eq (fits : offset.toNat + size.toNat < 2 ^ 32) :
    let blkOff := UInt32.ofNat (partStart offset.toNat blk - blk * blockSize)
    let blkEndRequest := offset + size - UInt32.ofNat (blk * blockSize)
    (if blkEndRequest - blkOff < 65536 - blkOff then blkEndRequest - blkOff
      else 65536 - blkOff) =
      UInt32.ofNat (partEnd offset.toNat size.toNat blk - partStart offset.toNat blk) := by
  intro blkOff blkEndRequest
  have bounds := mem_touched.mp inside
  have offs : blkOff.toNat = partStart offset.toNat blk - blk * blockSize := blkOff_toNat inside
  have blkStart := blkStart_toNat inside fits
  have last : (offset + size).toNat = offset.toNat + size.toNat := by
    rw [UInt32.toNat_add, Nat.mod_eq_of_lt fits]
  have request : blkEndRequest.toNat = offset.toNat + size.toNat - blk * blockSize := by
    rw [UInt32.toNat_sub_of_le, last, blkStart]
    rw [le_iff_toNat_le, last, blkStart]
    rw [partStart, partEnd] at bounds
    omega
  simp only [partStart, partEnd, blockSize] at bounds offs request
  have short : (blkEndRequest - blkOff).toNat = blkEndRequest.toNat - blkOff.toNat := by
    rw [UInt32.toNat_sub_of_le]
    rw [le_iff_toNat_le]
    omega
  have rest : (65536 - blkOff).toNat = 65536 - blkOff.toNat := by
    rw [UInt32.toNat_sub_of_le]
    · rfl
    · change blkOff.toNat ≤ 65536
      omega
  rw [← UInt32.toNat_inj]
  simp only [partStart, partEnd, blockSize]
  rw [toNat_ofNat_of_lt' (show _ < 2 ^ 32 by omega)]
  split
  · rename_i less
    rw [lt_iff_toNat_lt, short, rest] at less
    omega
  · rename_i more
    rw [lt_iff_toNat_lt, short, rest] at more
    omega

end Inside

end Arithmetic

theorem written_lt {offset size : UInt32} (fits : offset.toNat + size.toNat < 2 ^ 32)
    (inside : blk ∈ touched offset.toNat size.toNat) :
    UInt32.ofNat (written offset.toNat size.toNat blk) < size := by
  have bounds := mem_touched.mp inside
  have less : written offset.toNat size.toNat blk < size.toNat := by
    simp only [written, partStart, partEnd, blockSize] at *
    omega
  rw [lt_iff_toNat_lt, toNat_ofNat_of_lt' (show _ < 2 ^ 32 by omega)]
  exact less

theorem writeBlocksFrom_succ {offset size : UInt32} {leaves : Nat} {buf : β}
    (fits : offset.toNat + size.toNat < 2 ^ 32)
    (inside : blk ∈ touched offset.toNat size.toNat) :
    writeBlocksFrom writeData file cache packetDataOffset offset size (leaves + 1)
        buf blk (UInt32.ofNat (written offset.toNat size.toNat blk))
        (UInt32.ofNat (offset.toNat + written offset.toNat size.toNat blk)) = (do
      let buf ← file.writePart writeData cache packetDataOffset offset.toNat
        size.toNat buf blk
      writeBlocksFrom writeData file cache packetDataOffset offset size leaves buf
        (blk + 1) (UInt32.ofNat (written offset.toNat size.toNat (blk + 1)))
        (UInt32.ofNat (offset.toNat + written offset.toNat size.toNat (blk + 1)))) := by
  have step := touched_step inside
  have now := (part_inside inside).2.2.symm
  have goes := written_lt fits inside
  -- the two values with which the loop goes on
  have nextOff : UInt32.ofNat (written offset.toNat size.toNat blk) +
      UInt32.ofNat (partEnd offset.toNat size.toNat blk - partStart offset.toNat blk) =
      UInt32.ofNat (written offset.toNat size.toNat (blk + 1)) := by
    rw [← ofNat_add, step]
  have place : UInt32.ofNat (blk * blockSize) +
      UInt32.ofNat (partStart offset.toNat blk - blk * blockSize) =
      UInt32.ofNat (offset.toNat + written offset.toNat size.toNat blk) := by
    rw [← ofNat_add, now, partStart]
    congr 1
    omega
  rw [writeBlocksFrom, if_pos goes, writePart]
  simp only [blkOff_eq inside fits, blkLen_eq inside fits, bind_assoc]
  congr 1
  funext found
  rw [← now]
  congr 1
  funext after
  rw [ensure_true place, ok_bind, nextOff, place, ← ofNat_add, Nat.add_assoc, step]

theorem writeBlocksToBuf_eq {offset size : UInt32} {buf : β}
    (fits : offset.toNat + size.toNat ≤ file.getFilelen.toNat) :
    file.writeBlocksToBuf writeData cache buf packetDataOffset offset size =
      (touched offset.toNat size.toNat).foldlM
        (file.writePart writeData cache packetDataOffset offset.toNat size.toNat) buf := by
  have small : offset.toNat + size.toNat < 2 ^ 32 :=
    Nat.lt_of_le_of_lt fits file.getFilelen.toNat_lt
  have inside : offset + size ≤ file.getFilelen := by
    rw [le_iff_toNat_le, UInt32.toNat_add, Nat.mod_eq_of_lt small]
    exact fits
  have loop := @touched_induction offset.toNat size.toNat
    (fun blk rest => ∀ leaves buf, leaves = 2 ^ file.treeDepth - blk →
      writeBlocksFrom writeData file cache packetDataOffset offset size leaves buf blk
          (UInt32.ofNat (written offset.toNat size.toNat blk))
          (UInt32.ofNat (offset.toNat + written offset.toNat size.toNat blk)) =
        rest.foldlM (file.writePart writeData cache packetDataOffset offset.toNat size.toNat) buf)
    (fun blk all leaves buf _ => by
      have ended : UInt32.ofNat (offset.toNat + size.toNat) = offset + size := by
        rw [ofNat_add, UInt32.ofNat_toNat, UInt32.ofNat_toNat]
      rw [all, UInt32.ofNat_toNat, ended]
      cases leaves <;> simp [writeBlocksFrom])
    (fun blk rest inside induction leaves buf known => by
      rw [foldlM_cons]
      cases leaves with
      | zero =>
        rw [writeBlocksFrom, if_pos (written_lt small inside), writePart,
          validBlock_of_no_leaf (by omega)]
        rfl
      | succ leaves =>
        rw [writeBlocksFrom_succ small inside]
        congr 1
        funext after
        exact induction leaves after (by omega))
  rw [writeBlocksToBuf, ensure_true inside, ok_bind, ← loop _ buf rfl, written_start,
    Nat.add_zero, UInt32.ofNat_toNat]
  rfl

theorem writePart_found {offset size blk : Nat} {buf : β} {hash : Hash}
    {block : ZBlockCacheRecord} (small : offset + size < 2 ^ 32)
    (inside : blk ∈ touched offset size)
    (found : file.validBlock cache blk = .ok (hash, block)) :
    ∃ dataOffset blockOffset len : UInt32, dataOffset.toNat = written offset size blk ∧
      blockOffset.toNat = partStart offset blk - blk * blockSize ∧
      len.toNat = partEnd offset size blk - partStart offset blk ∧
      file.writePart writeData cache 0 offset size buf blk =
        writeData buf hash block dataOffset blockOffset len := by
  obtain ⟨short, inRange, now⟩ := part_inside inside
  refine ⟨_, _, _, ?_, ?_, ?_, by rw [writePart, found, ok_bind]⟩
  · rw [UInt32.add_zero, toNat_ofNat_of_lt' (show _ < 2 ^ 32 by omega), now]
  · exact toNat_ofNat_of_lt' (show _ < 2 ^ 32 by simp only [blockSize]; omega)
  · exact toNat_ofNat_of_lt' (show _ < 2 ^ 32 by omega)

theorem foldlM_touched {offset size : Nat} {contents : β → List UInt8}
    {step : β → Nat → Except Fault β} {pieces : Nat → List UInt8} {kept : β → Nat → Prop}
    {header : Nat} {buf : β}
    (lengths : ∀ blk ∈ touched offset size,
      (pieces blk).length = partEnd offset size blk - partStart offset blk)
    (steps : ∀ blk ∈ touched offset size, ∀ buf, kept buf blk →
      header + size ≤ (contents buf).length → ∃ after, step buf blk = .ok after ∧ contents after =
          patch (contents buf) (header + written offset size blk) (pieces blk) ∧
        kept after (blk + 1))
    (room : header + size ≤ (contents buf).length)
    (initially : kept buf (offset / blockSize)) :
    ∃ after last, (touched offset size).foldlM step buf = .ok after ∧
      contents after = patch (contents buf) header ((touched offset size).flatMap pieces) ∧
      kept after last := by
  have loop := @touched_induction offset size
    (fun blk rest => ∀ buf, header + size ≤ (contents buf).length → kept buf blk →
      ∃ after last, rest.foldlM step buf = .ok after ∧ contents after =
          patch (contents buf) (header + written offset size blk) (rest.flatMap pieces) ∧
        written offset size blk + (rest.flatMap pieces).length ≤ size ∧ kept after last)
    (fun blk all buf _ holds => by
      refine ⟨buf, blk, rfl, by rw [flatMap_nil, patch_nil], ?_, holds⟩
      rw [flatMap_nil, length_nil, all, Nat.add_zero])
    (fun blk rest inside induction buf room holds => by
      have length_eq := lengths blk inside
      have next := touched_step inside
      obtain ⟨-, short, -⟩ := part_inside inside
      obtain ⟨after, stepped, patched, keptAfter⟩ := steps blk inside buf holds room
      have roomAfter : header + size ≤ (contents after).length := by
        rw [patched, patch_length (by omega)]
        exact room
      obtain ⟨final, last, folded, patchedLast, fits, ends⟩ := induction after roomAfter keptAfter
      refine ⟨final, last, ?_, ?_, ?_, ends⟩
      · rw [foldlM_cons, stepped, ok_bind, folded]
      · rw [flatMap_cons, patchedLast, patched, ← next, ← length_eq, ← Nat.add_assoc,
          patch_patch_append (by omega)]
      · rw [flatMap_cons, length_append]
        omega)
  obtain ⟨after, last, folded, patched, -, ends⟩ := loop buf room initially
  rw [written_start, Nat.add_zero] at patched
  exact ⟨after, last, folded, patched, ends⟩

/-! ## The bytes of a range -/

/-- The part of a block that lies in a range. -/
def partBytes (blockData : Nat → List UInt8) (offset size blk : Nat) : List UInt8 :=
  ((blockData blk).drop (partStart offset blk - blk * blockSize)).take
    (partEnd offset size blk - partStart offset blk)

/-- The bytes of a range, block by block. -/
def rangeBytes (blockData : Nat → List UInt8) (offset size : Nat) : List UInt8 :=
  (touched offset size).flatMap (partBytes blockData offset size)

section Bytes

variable {blockData : Nat → List UInt8} {offset size : Nat}

theorem partBytes_length {blk : Nat} (inside : blk ∈ touched offset size)
    (whole : (blockData blk).length = blockSize) :
    (partBytes blockData offset size blk).length =
      partEnd offset size blk - partStart offset blk := by
  have bounds := mem_touched.mp inside
  rw [partBytes, length_take, length_drop, whole]
  simp only [partStart, partEnd, blockSize] at *
  omega

theorem partBytes_eq {contents : List UInt8} {blk : Nat}
    (same : (contents.drop (blk * blockSize)).take blockSize = blockData blk)
    (inside : blk ∈ touched offset size) :
    partBytes blockData offset size blk = (contents.drop (offset + written offset size blk)).take
        (partEnd offset size blk - partStart offset blk) := by
  have bounds := mem_touched.mp inside
  have place : blk * blockSize + (partStart offset blk - blk * blockSize) =
      offset + written offset size blk := by
    simp only [written, partStart, partEnd, blockSize] at *
    omega
  have short : partEnd offset size blk - partStart offset blk ≤
      blockSize - (partStart offset blk - blk * blockSize) := by
    simp only [partStart, partEnd, blockSize] at *
    omega
  rw [partBytes, ← same, drop_take, drop_drop, take_take, place, Nat.min_eq_left short]

theorem rangeBytes_eq {contents : List UInt8} (same : ∀ blk ∈ touched offset size,
      (contents.drop (blk * blockSize)).take blockSize = blockData blk) :
    rangeBytes blockData offset size = (contents.drop offset).take size := by
  have parts := @touched_induction offset size
    (fun blk rest => rest.flatMap (partBytes blockData offset size) =
      (contents.drop (offset + written offset size blk)).take (size - written offset size blk))
    (fun blk all => by rw [all, Nat.sub_self]; rfl)
    (fun blk rest inside induction => by
      have step := touched_step inside
      have bounded := written_le offset size (blk + 1)
      have cut : size - written offset size blk = (partEnd offset size blk - partStart offset blk) +
            (size - written offset size (blk + 1)) := by
        omega
      rw [flatMap_cons, partBytes_eq (same blk inside) inside, induction, cut,
        take_add, drop_drop, Nat.add_assoc offset, step])
  rw [rangeBytes, parts, written_start, Nat.add_zero, Nat.sub_zero]

theorem rangeBytes_length
    (whole : ∀ blk ∈ touched offset size, (blockData blk).length = blockSize) :
    (rangeBytes blockData offset size).length = size := by
  have parts := @touched_induction offset size
    (fun blk rest => (rest.flatMap (partBytes blockData offset size)).length =
      size - written offset size blk)
    (fun blk all => by rw [all, Nat.sub_self]; rfl)
    (fun blk rest inside induction => by
      have step := touched_step inside
      have bounded := written_le offset size (blk + 1)
      rw [flatMap_cons, length_append, partBytes_length inside (whole blk inside), induction]
      omega)
  rw [rangeBytes, parts, written_start, Nat.sub_zero]

end Bytes

end ZCachedFile

end Embassies.Zftp
