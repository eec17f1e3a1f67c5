import Embassies.Zarfile.ChunkDecoder

/-!
# Writing a zarfile

The parts of a zarfile are placed at locations of the archive, and `Placer::emit`
writes them one after another and pads what is free.  A chunk is copied from its
file; a chunk that runs past the end of the file, as one that is meant for a mapping
may do, is filled up with zeros.

How the locations were chosen does not matter here: the placements are any list that
`Placer::emit` walks, and what has been emitted is found at the start of its
placement.
-/

namespace Embassies.Zarfile

open Library Library.Checked List UInt32

/-! ## Headers of chunks -/

/-- A `bool` and the bytes that fill up its word. -/
def boolWord : Format Bool where
  size := 4
  encode value := [if value then 1 else 0, 0, 0, 0]
  decode bytes := bytes.headD 0 != 0
  encode_length _ := rfl
  decode_encode value := by cases value <;> rfl

/-- The layout of the header of a chunk. -/
def ZFChdr.format : Format ZFChdr :=
  (Format.host32.pair <| Format.host32.pair <| Format.host32.pair boolWord).rename
    { toFun := fun chdr => (chdr.zFileOff, chdr.zDataOff, chdr.zDataLen, chdr.zPrecious)
      invFun := fun (zFileOff, zDataOff, zDataLen, zPrecious) =>
        ⟨zFileOff, zDataOff, zDataLen, zPrecious⟩
      left_inv := fun _ => rfl
      right_inv := fun _ => rfl }

/-- `sizeof(ZF_Chdr)`. -/
def chdrSize : Nat := ZFChdr.format.size

/-! ## Copying from a file -/

/-- The bytes of a file from an offset on. -/
def slice (content : List UInt8) (offset len : Nat) : List UInt8 :=
  (content.drop offset).take len

/-- `fread` of one item, which is read as a whole or not at all. -/
def fread (content : List UInt8) (offset len : UInt32) : List UInt8 :=
  if offset.toNat + len.toNat ≤ content.length then
    slice content offset.toNat len.toNat
  else []

/-- `get_data`. -/
def getData (content : List UInt8) (offset size : UInt32) :
    Except ChunkFault (List UInt8) :=
  let filelen := UInt32.ofNat content.length
  if filelen < offset + size then do
    ensure (0 < filelen - offset) .assertion
    return fread content offset (filelen - offset)
  else
    return fread content offset size

/-- The loop of `ZFSReader::copy`, for so many rounds. -/
def copyLoop (content : List UInt8) :
    Nat → UInt32 → UInt32 → Except ChunkFault (List UInt8)
  | 0, _, _ => .error .exhausted
  | fuel + 1, remaining, offset =>
    if remaining = 0 then
      .ok []
    else do
      let grab := if remaining < 65536 then remaining else 65536
      let got ← getData content offset grab
      ensure (got.length = grab.toNat) .assertion
      let rest ← copyLoop content fuel (remaining - grab) (offset + grab)
      return got ++ rest

/-- `ZFSReader::copy`; a round copies 64 kB, except the last two. -/
def copy (content : List UInt8) (offset len : UInt32) : Except ChunkFault (List UInt8) :=
  copyLoop content (len.toNat / 65536 + 2) len offset

/-! ## Chunks -/

/-- `ChunkEntry`, with the contents of the file that it belongs to. -/
structure ChunkEntry where
  chdr : ZFChdr
  content : List UInt8

namespace ChunkEntry

/-- How much of a chunk is copied and how much is filled with zeros. -/
def lengths (entry : ChunkEntry) : Except ChunkFault (UInt32 × UInt32) :=
  let chdr := entry.chdr
  let filelen := UInt32.ofNat entry.content.length
  if filelen < chdr.zDataOff + chdr.zDataLen then do
    ensure (chdr.zPrecious = false) .assertion
    return (filelen - chdr.zDataOff, chdr.zDataOff + chdr.zDataLen - filelen)
  else
    return (chdr.zDataLen, 0)

/-- `ChunkEntry::emit`. -/
def emit (entry : ChunkEntry) : Except ChunkFault (List UInt8) := do
  let (copyLen, zeroFillLen) ← entry.lengths
  ensure (copyLen ≤ UInt32.ofNat entry.content.length) .assertion
  ensure (copyLen + zeroFillLen = entry.chdr.zDataLen) .assertion
  let copied ← copy entry.content entry.chdr.zDataOff copyLen
  return copied ++ List.replicate zeroFillLen.toNat 0

end ChunkEntry

/-! ## Placements -/

/-- `Emittable`: a chunk by its place in the chunk table, the chunk table, another
table or header, or the padding of a free range. -/
inductive Emittable where
  | chunk (index : Nat)
  | chunkTable
  | other (bytes : List UInt8)
  | padding (size : UInt32)

namespace Emittable

variable (chunks : List ChunkEntry)

/-- `emit`. -/
def emit : Emittable → Except ChunkFault (List UInt8)
  | .chunk index =>
    match chunks[index]? with
    | some entry => entry.emit
    | none => .error .outOfBounds
  | .chunkTable => .ok (ZFChdr.format.table (chunks.map ChunkEntry.chdr))
  | .other bytes => .ok bytes
  | .padding size => do
    ensure (0 < size) .assertion
    return List.replicate size.toNat 0

/-- `get_size`. -/
def getSize : Emittable → UInt32
  | .chunk index =>
    match chunks[index]? with
    | some entry => entry.chdr.zDataLen
    | none => 0
  | .chunkTable => UInt32.ofNat (chdrSize * chunks.length)
  | .other bytes => UInt32.ofNat bytes.length
  | .padding size => size

end Emittable

/-- `Placement`. -/
structure Placement where
  start : UInt32
  emittable : Emittable

namespace Placer

/-- A round of `emit`, on what has been written and `current_offset`. -/
def emitPlacement (chunks : List ChunkEntry) (written : List UInt8 × UInt32)
    (placement : Placement) : Except ChunkFault (List UInt8 × UInt32) := do
  ensure (placement.start = written.2) .assertion
  let bytes ← placement.emittable.emit chunks
  return (written.1 ++ bytes, written.2 + placement.emittable.getSize chunks)

/-- `Placer::emit`: the archive, whose length `ftell` must give as an `int`. -/
def emit (chunks : List ChunkEntry) (placements : List Placement) :
    Except ChunkFault (List UInt8) := do
  let (archive, currentOffset) ← placements.foldlM (emitPlacement chunks) ([], 0)
  ensure ((archive.length : Int) = currentOffset.toInt32.toInt) .assertion
  return archive

end Placer

/-! ## What a copy holds -/

section Copies

variable {content bytes : List UInt8} {offset size len remaining : UInt32} {fuel : Nat}

theorem slice_append (content : List UInt8) (offset first second : Nat) :
    slice content offset first ++ slice content (offset + first) second =
      slice content offset (first + second) := by
  rw [slice, slice, slice, take_add, drop_drop]

theorem joined_slice (content : List UInt8) :
    Joined fun place len bytes => bytes = slice content place len := by
  constructor
  · intro place
    rfl
  · rintro place first second _ _ rfl rfl
    exact slice_append content place first second

theorem slice_length {offset len : Nat} (inside : offset + len ≤ content.length) :
    (slice content offset len).length = len := by
  rw [slice, length_take, length_drop]
  omega

theorem slice_slice {offset len place count : Nat} (low : offset ≤ place)
    (high : place + count ≤ offset + len) :
    slice (slice content offset len) (place - offset) count = slice content place count := by
  rw [slice, slice, slice, drop_take, take_take, drop_drop,
    Nat.add_sub_cancel' low, Nat.min_eq_left (by omega)]

theorem getData_eq_ok {got : List UInt8} (done : getData content offset size = .ok got) :
    ∃ len, got = fread content offset len := by
  rw [getData] at done
  split at done
  · obtain ⟨_, -, rest⟩ := of_bind done
    cases rest
    exact ⟨_, rfl⟩
  · cases done
    exact ⟨_, rfl⟩

theorem getData_whole {got : List UInt8} (done : getData content offset size = .ok got)
    (whole : got.length = size.toNat) (positive : 0 < size.toNat) :
    offset.toNat + size.toNat ≤ content.length ∧ got = slice content offset.toNat size.toNat := by
  obtain ⟨len, rfl⟩ := getData_eq_ok done
  rw [fread] at whole ⊢
  split at whole
  · rename_i inside
    rw [slice_length inside] at whole
    rw [whole] at inside
    rw [whole, if_pos inside]
    exact ⟨inside, rfl⟩
  · rw [length_nil] at whole
    omega

theorem copyLoop_eq_ok (small : content.length < 2 ^ 32)
    (copied : copyLoop content fuel remaining offset = .ok bytes) :
    bytes = slice content offset.toNat remaining.toNat ∧ bytes.length = remaining.toNat := by
  induction fuel generalizing remaining offset bytes with
  | zero => cases copied
  | succ fuel induction =>
    rw [copyLoop] at copied
    by_cases done : remaining = 0
    · rw [if_pos done] at copied
      cases copied
      rw [done]
      exact ⟨rfl, rfl⟩
    · rw [if_neg done] at copied
      obtain ⟨got, loaded, rest⟩ := of_bind copied
      obtain ⟨_, whole, rest⟩ := of_bind rest
      obtain ⟨later, copiedLater, rest⟩ := of_bind rest
      cases rest
      rw [ensure_eq_ok_iff] at whole
      obtain ⟨grab, least⟩ : ∃ grab, grab =
          if remaining < 65536 then remaining else 65536 := ⟨_, rfl⟩
      rw [← least] at loaded whole copiedLater
      have bounded : 0 < grab.toNat ∧ grab.toNat ≤ remaining.toNat := by
        rw [← UInt32.toNat_inj, UInt32.toNat_zero] at done
        rw [least]
        split
        · omega
        · rename_i more
          exact ⟨by decide, Nat.not_lt.mp more⟩
      obtain ⟨inside, same⟩ := getData_whole loaded whole bounded.1
      obtain ⟨laterSame, laterLength⟩ := induction copiedLater
      rw [UInt32.toNat_add, Nat.mod_eq_of_lt (by omega)] at laterSame
      have left : (remaining - grab).toNat = remaining.toNat - grab.toNat :=
        UInt32.toNat_sub_of_le _ _ (le_iff_toNat_le.mpr bounded.2)
      rw [left] at laterSame laterLength
      constructor
      · rw [same, laterSame, slice_append, Nat.add_sub_cancel' bounded.2]
      · rw [length_append, whole, laterLength, Nat.add_sub_cancel' bounded.2]

end Copies

/-! ## What a chunk holds -/

namespace ChunkEntry

variable {entry : ChunkEntry} {bytes : List UInt8}

/-- The end of the chunk. -/
def finish (entry : ChunkEntry) : Nat :=
  entry.chdr.zDataOff.toNat + entry.chdr.zDataLen.toNat

theorem end_toNat (small : entry.finish < 2 ^ 32) :
    (entry.chdr.zDataOff + entry.chdr.zDataLen).toNat = entry.finish := by
  exact Nat.mod_eq_of_lt small

/-- The bytes hold a chunk: they are those of the file as far as it goes. -/
structure Written (entry : ChunkEntry) (bytes : List UInt8) : Prop where
  small : entry.finish < 2 ^ 32
  length : bytes.length = entry.chdr.zDataLen.toNat
  same : ∀ place count, entry.chdr.zDataOff.toNat ≤ place → place + count ≤ entry.finish →
    place + count ≤ entry.content.length →
    slice bytes (place - entry.chdr.zDataOff.toNat) count =
      slice entry.content place count

theorem emit_eq_ok_iff : entry.emit = .ok bytes ↔ ∃ copyLen zeroFillLen,
      entry.lengths = .ok (copyLen, zeroFillLen) ∧ copyLen ≤ UInt32.ofNat entry.content.length ∧
        copyLen + zeroFillLen = entry.chdr.zDataLen ∧ ∃ copied,
          copy entry.content entry.chdr.zDataOff copyLen = .ok copied ∧
            copied ++ replicate zeroFillLen.toNat 0 = bytes := by
  simp only [emit, bind_eq_ok_iff, ensure_eq_ok_iff, pure_eq_ok, Except.ok.injEq]
  constructor
  · rintro ⟨⟨copyLen, zeroFillLen⟩, lengths, _, fits, _, sum, copied, done, same⟩
    exact ⟨copyLen, zeroFillLen, lengths, fits, sum, copied, done, same⟩
  · rintro ⟨copyLen, zeroFillLen, lengths, fits, sum, copied, done, same⟩
    exact ⟨⟨copyLen, zeroFillLen⟩, lengths, ⟨⟩, fits, ⟨⟩, sum, copied, done, same⟩

theorem lengths_eq_ok {copyLen zeroFillLen : UInt32} (small : entry.content.length < 2 ^ 32)
    (starts : entry.chdr.zDataOff.toNat < entry.content.length)
    (done : entry.lengths = .ok (copyLen, zeroFillLen)) :
    (entry.finish < 2 ^ 32 ∧ entry.chdr.zDataOff.toNat + copyLen.toNat =
        entry.content.length ∧ entry.finish = entry.content.length + zeroFillLen.toNat) ∨
      (copyLen = entry.chdr.zDataLen ∧ zeroFillLen = 0) := by
  have filelen : (UInt32.ofNat entry.content.length).toNat = entry.content.length :=
    toNat_ofNat_of_lt small
  rw [lengths] at done
  split at done
  · rename_i past
    obtain ⟨_, -, rest⟩ := of_bind done
    cases rest
    rw [lt_iff_toNat_lt, filelen, UInt32.toNat_add] at past
    have lenSmall := entry.chdr.zDataLen.toNat_lt
    have short : entry.finish < 2 ^ 32 := by
      rw [finish]
      omega
    have sum := end_toNat short
    refine .inl ⟨short, ?_, ?_⟩
    · rw [UInt32.toNat_sub_of_le _ _ (le_iff_toNat_le.mpr (by omega)), filelen]
      omega
    · rw [← UInt32.toNat_add, sum] at past
      rw [UInt32.toNat_sub_of_le _ _ (le_iff_toNat_le.mpr (by omega)), filelen, sum]
      omega
  · cases done
    exact .inr ⟨rfl, rfl⟩

theorem written_of_emit (small : entry.content.length < 2 ^ 32)
    (starts : entry.chdr.zDataOff.toNat < entry.content.length)
    (emitted : entry.emit = .ok bytes) : entry.Written bytes := by
  obtain ⟨copyLen, zeroFillLen, lengths, -, -, copied, done, rfl⟩ := emit_eq_ok_iff.mp emitted
  obtain ⟨same, length⟩ := copyLoop_eq_ok small done
  rcases lengths_eq_ok small starts lengths with ⟨short, ends, finish⟩ | ⟨rfl, rfl⟩
  · refine ⟨short, ?_, fun place count low _ inside => ?_⟩
    · rw [length_append, length_replicate, length]
      rw [ChunkEntry.finish] at finish
      omega
    · -- The zeros come after the part that is asked for.
      have front : slice (copied ++ replicate zeroFillLen.toNat 0)
          (place - entry.chdr.zDataOff.toNat) count =
            slice copied (place - entry.chdr.zDataOff.toNat) count := by
        rw [slice, slice, drop_append_of_le_length (by omega),
          take_append_of_le_length (by rw [length_drop]; omega)]
      rw [front, same]
      exact slice_slice low (by omega)
  · rw [UInt32.toNat_zero, replicate_zero, append_nil]
    have inside : entry.finish ≤ max entry.content.length entry.chdr.zDataOff.toNat := by
      rw [same, slice, length_take, length_drop] at length
      rw [ChunkEntry.finish]
      omega
    refine ⟨by omega, length, fun place count low high _ => ?_⟩
    rw [same]
    exact slice_slice low high

end ChunkEntry

/-! ## What an archive holds -/

namespace Placer

variable {chunks : List ChunkEntry} {placements : List Placement} {archive : List UInt8}

variable (starts : ∀ entry ∈ chunks, entry.content.length < 2 ^ 32 ∧
  entry.chdr.zDataOff.toNat < entry.content.length)

include starts

theorem length_emit {emittable : Emittable} {bytes : List UInt8}
    (emitted : emittable.emit chunks = .ok bytes) :
    UInt32.ofNat bytes.length = emittable.getSize chunks := by
  cases emittable with
  | chunk index =>
    rw [Emittable.emit] at emitted
    rw [Emittable.getSize]
    cases found : chunks[index]? with
    | none =>
      rw [found] at emitted
      cases emitted
    | some entry =>
      rw [found] at emitted
      obtain ⟨small, inside⟩ := starts entry (mem_of_getElem? found)
      rw [(ChunkEntry.written_of_emit small inside emitted).length, UInt32.ofNat_toNat]
  | chunkTable =>
    cases emitted
    rw [Emittable.getSize, Format.table_length, length_map]
    rfl
  | other bytes =>
    cases emitted
    rfl
  | padding size =>
    obtain ⟨_, -, rest⟩ := of_bind emitted
    cases rest
    rw [length_replicate, UInt32.ofNat_toNat]
    rfl

/-- What has been written so far, and where. -/
structure Emitted (chunks : List ChunkEntry) (placements : List Placement)
    (written : List UInt8 × UInt32) : Prop where
  offset : UInt32.ofNat written.1.length = written.2
  found : ∀ placement ∈ placements, ∃ front bytes back,
    placement.emittable.emit chunks = .ok bytes ∧
      written.1 = front ++ (bytes ++ back) ∧
      UInt32.ofNat front.length = placement.start

theorem emitted_of_foldlM {done : List Placement} {before after : List UInt8 × UInt32}
    (emitted : Emitted chunks done before)
    (ran : placements.foldlM (emitPlacement chunks) before = .ok after) :
    Emitted chunks (done ++ placements) after := by
  induction placements generalizing done before with
  | nil =>
    cases ran
    rwa [append_nil]
  | cons placement placements induction =>
    obtain ⟨next, first, rest⟩ := of_bind ran
    obtain ⟨_, start, first⟩ := of_bind first
    obtain ⟨bytes, emittedBytes, first⟩ := of_bind first
    cases first
    rw [ensure_eq_ok_iff] at start
    have grown : Emitted chunks (done ++ [placement])
        (before.1 ++ bytes, before.2 + placement.emittable.getSize chunks) := by
      constructor
      · rw [length_append, ofNat_add, emitted.offset, length_emit starts emittedBytes]
      · intro other member
        rcases mem_append.mp member with earlier | last
        · obtain ⟨front, inner, back, otherBytes, same, place⟩ := emitted.found other earlier
          exact ⟨front, inner, back ++ bytes, otherBytes, by
            simp only [same, append_assoc], place⟩
        · cases mem_singleton.mp last
          exact ⟨before.1, bytes, [], emittedBytes, by rw [append_nil],
            emitted.offset.trans start.symm⟩
    have final := induction grown rest
    rwa [append_assoc] at final

/-- What has been placed is found in the archive, which is shorter than 2 GB. -/
theorem found_of_emit (emitted : emit chunks placements = .ok archive) :
    archive.length < 2 ^ 31 ∧ ∀ placement ∈ placements, ∃ front bytes back,
      placement.emittable.emit chunks = .ok bytes ∧
        archive = front ++ (bytes ++ back) ∧ front.length = placement.start.toNat := by
  obtain ⟨⟨written, currentOffset⟩, ran, rest⟩ := of_bind emitted
  obtain ⟨_, told, last⟩ := of_bind rest
  obtain rfl : written = archive := Except.ok.inj last
  rw [ensure_eq_ok_iff] at told
  have short : written.length < 2 ^ 31 := by
    have bounded := currentOffset.toInt32.toInt_lt
    omega
  have all : Emitted chunks ([] ++ placements) (written, currentOffset) :=
    emitted_of_foldlM starts ⟨rfl, fun _ member => absurd member not_mem_nil⟩ ran
  refine ⟨short, fun placement member => ?_⟩
  obtain ⟨front, bytes, back, emittedBytes, same, place⟩ := all.found placement member
  refine ⟨front, bytes, back, emittedBytes, same, ?_⟩
  have bounded : front.length ≤ written.length := by
    have same : written = front ++ (bytes ++ back) := same
    rw [same, length_append]
    omega
  rw [← place, toNat_ofNat', Nat.mod_eq_of_lt (by omega)]

end Placer

end Embassies.Zarfile
