import Embassies.Zarfile.Emission

/-!
# Files read back from a zarfile

A zarfile has been placed and emitted.  A file of its catalog is read through the
headers in the chunk table of the archive, and what is read is what the file held
when the zarfile was made.
-/

namespace Embassies.Zarfile

open Library Library.Checked List ChunkEntry UInt32

/-- A chunk that is not empty and lies in its file, or starts there when it is not
precious. -/
structure ChunkEntry.Proper (entry : ChunkEntry) : Prop where
  small : entry.content.length < 2 ^ 32
  nonempty : 0 < entry.chdr.zDataLen.toNat
  starts : entry.chdr.zDataOff.toNat < entry.content.length
  precious : entry.chdr.zPrecious = true → entry.finish ≤ entry.content.length

/-- A zarfile whose chunks have been placed, each at the location in its header, and
emitted. -/
structure EmittedZarfile where
  chunks : List ChunkEntry
  placements : List Placement
  zChunktabOff : UInt32
  archive : List UInt8
  proper : ∀ entry ∈ chunks, entry.Proper
  placed : ∀ index entry, chunks[index]? = some entry →
    ⟨entry.chdr.zFileOff, .chunk index⟩ ∈ placements
  tablePlaced : ⟨zChunktabOff, .chunkTable⟩ ∈ placements
  emitted : Placer.emit chunks placements = .ok archive

/-- A file of the catalog, whose chunks stand in a row in the chunk table. -/
structure CataloguedFile (zarfile : EmittedZarfile) where
  content : List UInt8
  small : content.length < 2 ^ 32
  zChunkIdx : Nat
  zChunkCount : Nat
  inTable : zChunkIdx + zChunkCount ≤ zarfile.chunks.length
  own : ∀ entry ∈ (zarfile.chunks.drop zChunkIdx).take zChunkCount,
    entry.content = content

namespace CataloguedFile

variable {zarfile : EmittedZarfile}

/-- The chunks of the file. -/
def entries (file : CataloguedFile zarfile) : List ChunkEntry :=
  (zarfile.chunks.drop file.zChunkIdx).take file.zChunkCount

/-- `ChunkDecoder::read_chdr`. -/
def readChdr (file : CataloguedFile zarfile) (localChunkIdx : Nat) :
    Except ChunkFault ZFChdr :=
  ZFChdr.format.load .outOfBounds zarfile.archive
    ((UInt32.ofNat file.zChunkIdx + UInt32.ofNat localChunkIdx) * UInt32.ofNat chdrSize +
      zarfile.zChunktabOff).toNat

/-- The decoder of the file, which reads from the archive. -/
def decoder (file : CataloguedFile zarfile) : ChunkDecoder where
  zFileLen := UInt32.ofNat file.content.length
  zChunkCount := UInt32.ofNat file.zChunkCount
  readChdr := file.readChdr
  underlyingZarfileRead len offset :=
    Buffer.load .outOfBounds zarfile.archive offset.toNat len.toNat

/-- A byte lies in a chunk of the file. -/
def InChunk (file : CataloguedFile zarfile) (place : Nat) : Prop :=
  ∃ entry ∈ file.entries, entry.chdr.zDataOff.toNat ≤ place ∧ place < entry.finish

end CataloguedFile

/-! ## What the decoder finds -/

namespace EmittedZarfile

variable (zarfile : EmittedZarfile)

theorem found : zarfile.archive.length < 2 ^ 31 ∧ ∀ placement ∈ zarfile.placements,
      ∃ front bytes back, placement.emittable.emit zarfile.chunks = .ok bytes ∧
        zarfile.archive = front ++ (bytes ++ back) ∧
        front.length = placement.start.toNat :=
  Placer.found_of_emit (fun entry member =>
    ⟨(zarfile.proper entry member).small, (zarfile.proper entry member).starts⟩)
    zarfile.emitted

theorem chunk_found
    {index : Nat} {entry : ChunkEntry} (place : zarfile.chunks[index]? = some entry) :
    ∃ front bytes back, zarfile.archive = front ++ (bytes ++ back) ∧
      front.length = entry.chdr.zFileOff.toNat ∧ entry.Written bytes := by
  obtain ⟨front, bytes, back, emitted, same, start⟩ :=
    zarfile.found.2 _ (zarfile.placed index entry place)
  have proper := zarfile.proper entry (mem_of_getElem? place)
  rw [Emittable.emit, place] at emitted
  exact ⟨front, bytes, back, same, start, written_of_emit proper.small proper.starts emitted⟩

theorem table_found : ∃ front back, zarfile.archive = front ++
        (ZFChdr.format.table (zarfile.chunks.map chdr) ++ back) ∧
      front.length = zarfile.zChunktabOff.toNat := by
  obtain ⟨front, bytes, back, emitted, same, start⟩ := zarfile.found.2 _ zarfile.tablePlaced
  cases emitted
  exact ⟨front, back, same, start⟩

theorem table_short : zarfile.zChunktabOff.toNat + chdrSize * zarfile.chunks.length < 2 ^ 31 := by
  obtain ⟨front, back, same, start⟩ := zarfile.table_found
  have short := zarfile.found.1
  rw [same, length_append, length_append, Format.table_length, length_map, start] at short
  exact Nat.lt_of_le_of_lt (by rw [chdrSize]; omega) short

end EmittedZarfile

namespace CataloguedFile

variable {zarfile : EmittedZarfile} (file : CataloguedFile zarfile)

theorem entries_getElem? {ci : Nat} {entry : ChunkEntry} (place : file.entries[ci]? = some entry) :
    zarfile.chunks[file.zChunkIdx + ci]? = some entry := by
  rw [entries, getElem?_take] at place
  split at place
  · rwa [getElem?_drop] at place
  · cases place

theorem entries_length : file.entries.length = file.zChunkCount := by
  have inTable := file.inTable
  rw [entries, length_take, length_drop]
  omega

theorem readChdr_eq_ok {ci : Nat} {entry : ChunkEntry} (place : file.entries[ci]? = some entry) :
    file.readChdr ci = .ok entry.chdr := by
  obtain ⟨front, back, same, start⟩ := zarfile.table_found
  have short := zarfile.table_short
  have stands := file.entries_getElem? place
  have bound := (List.getElem?_eq_some_iff.mp stands).1
  have size : chdrSize = 16 := rfl
  rw [size] at short
  have offset : ((UInt32.ofNat file.zChunkIdx + UInt32.ofNat ci) * UInt32.ofNat chdrSize +
      zarfile.zChunktabOff).toNat = front.length + 16 * (file.zChunkIdx + ci) := by
    rw [size, UInt32.toNat_add, UInt32.toNat_mul, UInt32.toNat_add, toNat_ofNat',
      toNat_ofNat', toNat_ofNat', start]
    omega
  have named : (zarfile.chunks.map chdr)[file.zChunkIdx + ci]? = some entry.chdr := by
    rw [getElem?_map, stands]
    rfl
  have whole : front.length + 16 * (file.zChunkIdx + ci) + ZFChdr.format.size ≤
      zarfile.archive.length := by
    have length := ZFChdr.format.table_length (zarfile.chunks.map chdr)
    have width : ZFChdr.format.size = 16 := rfl
    rw [length_map, width] at length
    rw [same, length_append, length_append, length, width]
    omega
  rw [readChdr, offset, Format.load_eq_ok _ whole, same, ← drop_drop, drop_left]
  exact congrArg _ (Format.read_table ZFChdr.format named back)

theorem decoder_serves : file.decoder.Serves (file.entries.map chdr) fun place len bytes =>
      bytes = slice file.content place len where
  count := by
    have short := zarfile.table_short
    have inTable := file.inTable
    have size : chdrSize = 16 := rfl
    rw [size] at short
    rw [length_map, entries_length]
    exact toNat_ofNat_of_lt (by rw [UInt32.size]; omega)
  header ci chdr place := by
    rw [getElem?_map] at place
    obtain ⟨entry, found, rfl⟩ := Option.map_eq_some_iff.mp place
    exact file.readChdr_eq_ok found
  reads chdr member place len holds inChunk inFile := by
    obtain ⟨entry, entryIn, rfl⟩ := mem_map.mp member
    obtain ⟨ci, found⟩ := getElem?_of_mem entryIn
    obtain ⟨front, bytes, back, same, start, written⟩ :=
      zarfile.chunk_found (file.entries_getElem? found)
    have own : entry.content = file.content := file.own entry entryIn
    have fileLen : (UInt32.ofNat file.content.length).toNat = file.content.length :=
      toNat_ofNat_of_lt file.small
    have inFile : place.toNat + len.toNat ≤ file.content.length := by
      rw [← fileLen]
      exact inFile
    rw [end_toNat written.small] at inChunk
    have low := holds.1
    have inBytes : place.toNat - entry.chdr.zDataOff.toNat + len.toNat ≤ bytes.length := by
      rw [written.length]
      rw [finish] at inChunk
      omega
    have offset : (entry.chdr.zFileOff + (place - entry.chdr.zDataOff)).toNat =
        front.length + (place.toNat - entry.chdr.zDataOff.toNat) := by
      have short := zarfile.found.1
      rw [same, length_append, length_append] at short
      rw [UInt32.toNat_add, UInt32.toNat_sub_of_le _ _ (le_iff_toNat_le.mpr low), ← start]
      exact Nat.mod_eq_of_lt (by omega)
    refine ⟨slice bytes (place.toNat - entry.chdr.zDataOff.toNat) len.toNat, ?_, ?_⟩
    · change Buffer.load ChunkFault.outOfBounds zarfile.archive _ _ = _
      rw [offset, same, Buffer.load_inside inBytes]
      rfl
    · rw [← own]
      exact written.same _ _ low inChunk (own ▸ inFile)

theorem covered_iff {low high : Nat} : Covered (file.entries.map ChunkEntry.chdr) low high ↔
      ∀ place, low ≤ place → place < high → file.InChunk place := by
  have same : ∀ entry ∈ file.entries, ∀ place, entry.chdr.Holds place ↔
      entry.chdr.zDataOff.toNat ≤ place ∧ place < entry.finish := by
    intro entry member place
    obtain ⟨ci, found⟩ := getElem?_of_mem member
    obtain ⟨_, _, _, _, _, written⟩ := zarfile.chunk_found (file.entries_getElem? found)
    rw [ZFChdr.Holds, end_toNat written.small]
  constructor
  · intro covered place after before
    obtain ⟨chdr, member, holds⟩ := covered place after before
    obtain ⟨entry, entryIn, rfl⟩ := mem_map.mp member
    exact ⟨entry, entryIn, (same entry entryIn place).mp holds⟩
  · intro covered place after before
    obtain ⟨entry, entryIn, holds⟩ := covered place after before
    exact ⟨entry.chdr, mem_map_of_mem entryIn, (same entry entryIn place).mpr holds⟩

/-- A read of bytes that all lie in chunks gives the bytes of the file, and a read of
a byte that lies in no chunk fails. -/
theorem content_round_trip (fuel : Nat) (offset count : UInt32)
    (inside : offset.toNat + count.toNat ≤ file.content.length)
    (enough : count.toNat < fuel) :
    ((∀ place, offset.toNat ≤ place → place < offset.toNat + count.toNat → file.InChunk place) →
      file.decoder.read fuel count offset = .ok (slice file.content offset.toNat count.toNat)) ∧
    ((∃ place, offset.toNat ≤ place ∧ place < offset.toNat + count.toNat ∧ ¬file.InChunk place) →
      file.decoder.read fuel count offset = .error .notSatisfied) := by
  have joined := joined_slice file.content
  have inFile : offset.toNat + count.toNat ≤ file.decoder.zFileLen.toNat := by
    have fileLen : file.decoder.zFileLen.toNat = file.content.length := toNat_ofNat_of_lt file.small
    rwa [fileLen]
  constructor
  · intro covered
    obtain ⟨bytes, read, rfl⟩ := ChunkDecoder.read_of_covered file.decoder_serves joined
      inFile enough (file.covered_iff.mpr covered)
    exact read
  · rintro ⟨place, low, high, outside⟩
    rcases ChunkDecoder.read_cases file.decoder_serves joined inFile enough with
      ⟨covered, -⟩ | ⟨-, fails⟩
    · exact absurd (file.covered_iff.mp covered place low high) outside
    · exact fails

/-! ## A small zarfile -/

/-- A file of three bytes with a chunk for a mapping of five bytes and a precious one. -/
def smallChunks : List ChunkEntry :=
  [⟨⟨40, 0, 5, false⟩, [7, 8, 9]⟩, ⟨⟨36, 1, 2, true⟩, [7, 8, 9]⟩]

/-- The archive of the small file. -/
def smallZarfile : EmittedZarfile where
  chunks := smallChunks
  placements := [⟨0, .other [1, 2, 3, 4]⟩, ⟨4, .chunkTable⟩, ⟨36, .chunk 1⟩,
    ⟨38, .padding 2⟩, ⟨40, .chunk 0⟩]
  zChunktabOff := 4
  archive := [1, 2, 3, 4, 40, 0, 0, 0, 0, 0, 0, 0, 5, 0, 0, 0, 0, 0, 0, 0, 36, 0, 0, 0,
    1, 0, 0, 0, 2, 0, 0, 0, 1, 0, 0, 0, 8, 9, 0, 0, 7, 8, 9, 0, 0]
  proper entry member := by
    rcases List.mem_cons.mp member with rfl | last
    · exact ⟨by decide, by decide, by decide, by decide⟩
    · cases List.mem_singleton.mp last
      exact ⟨by decide, by decide, by decide, by decide⟩
  placed index entry place := by
    match index with
    | 0 =>
      cases place
      simp
    | 1 =>
      cases place
      simp
    | index + 2 => cases place
  tablePlaced := by simp
  emitted := rfl

/-- The file in the small zarfile. -/
def smallFile : CataloguedFile smallZarfile where
  content := [7, 8, 9]
  small := by decide
  zChunkIdx := 0
  zChunkCount := 2
  inTable := by decide
  own entry member := by
    rcases List.mem_cons.mp member with rfl | last
    · rfl
    · cases List.mem_singleton.mp last
      rfl

theorem content_round_trip_small : smallFile.decoder.read 3 2 1 = .ok [8, 9] := by
  apply (smallFile.content_round_trip 3 1 2 (by decide) (by decide)).1
  intro place low high
  refine ⟨⟨⟨36, 1, 2, true⟩, [7, 8, 9]⟩, ?_, low, high⟩
  exact mem_cons_of_mem _ mem_cons_self

end CataloguedFile

end Embassies.Zarfile
