import Embassies.Zarfile.RangeUnion

/-!
# Chunks from a trace

A trace records the reads and the fast mmaps of a run.  `TraceDecoder` keeps for every
file a fast chunk for each fast mmap, and the ranges of those reads that no fast chunk
with a later sequence number covers.  `enumerate_entries` makes the chunks of the file
from both.

`ZarfileHandle` gives the traced program its file back.  A fast mmap takes the first
fast chunk that is long enough and moves the start of the chunk behind what it has
taken; a read goes through the chunks that are left.
-/

namespace Embassies.Zarfile

open Kvm Library Library.Checked

/-! ## Recording -/

/-- What a line of a trace says about a file: a read, or a fast mmap at offset 0. -/
inductive TraceEvent where
  | read (size offset : UInt32)
  | mmap (size : UInt32)
deriving DecidableEq

/-- `FastChunk`. -/
structure FastChunk where
  range : Range
  sequenceNumber : UInt32
deriving DecidableEq

/-- `ReadRecord`. -/
structure ReadRecord where
  range : Range
  sequenceNumber : UInt32
deriving DecidableEq

/-- `TracePathRecord`. -/
structure TracePathRecord where
  fastChunks : List FastChunk
  deferredReads : List ReadRecord
  preciousChunks : RangeUnion

namespace TracePathRecord

/-- The constructor. -/
def new : TracePathRecord := ⟨[], [], ⟨.empty⟩⟩

/-- `add_read`. -/
def addRead (rec : TracePathRecord) (size offset sequenceNumber : UInt32) :
    TracePathRecord :=
  { rec with
    deferredReads := rec.deferredReads ++ [⟨⟨offset, offset + size⟩, sequenceNumber⟩] }

/-- `add_mmap`. -/
def addMmap (rec : TracePathRecord) (size offset : UInt32) (fast : Bool)
    (sequenceNumber : UInt32) : Except ChunkFault TracePathRecord :=
  if fast = false then
    .ok (rec.addRead size offset sequenceNumber)
  else do
    ensure (offset = 0) .assertion
    return { rec with fastChunks := rec.fastChunks ++ [⟨⟨0, size⟩, sequenceNumber⟩] }

/-- A round of `parse`, for one file: a line is an event on this file, or is not about
it. -/
def parseLine (state : TracePathRecord × UInt32) (line : Option TraceEvent) :
    Except ChunkFault (TracePathRecord × UInt32) :=
  match line with
  | none => .ok (state.1, state.2 + 1)
  | some (.read size offset) => .ok (state.1.addRead size offset state.2, state.2 + 1)
  | some (.mmap size) => do
    let rec ← state.1.addMmap size 0 true state.2
    return (rec, state.2 + 1)

/-- `fast_absorbs_read`. -/
def fastAbsorbsRead (fastChunks : List FastChunk) (rr : ReadRecord) : Bool :=
  fastChunks.any fun fastChunk =>
    ¬fastChunk.sequenceNumber < rr.sequenceNumber ∧
      (fastChunk.range.intersect rr.range).size = rr.range.size

/-- A round of `integrate_reads`. -/
def integrateRead (balance : SearchTree.Balance Range) (fastChunks : List FastChunk)
    (union : RangeUnion) (rr : ReadRecord) : Except ChunkFault RangeUnion :=
  if fastAbsorbsRead fastChunks rr = true then .ok union
  else union.accumulate balance rr.range

/-- `integrate_reads`. -/
def integrateReads (balance : SearchTree.Balance Range) (rec : TracePathRecord) :
    Except ChunkFault TracePathRecord := do
  let preciousChunks ← rec.deferredReads.foldlM (integrateRead balance rec.fastChunks)
    rec.preciousChunks
  return { rec with deferredReads := [], preciousChunks }

/-- `parse`, for one file. -/
def parse (balance : SearchTree.Balance Range) (trace : List (Option TraceEvent)) :
    Except ChunkFault TracePathRecord := do
  let (rec, _) ← trace.foldlM parseLine (new, 0)
  rec.integrateReads balance

end TracePathRecord

/-! ## Chunks -/

/-- The header of a chunk that was not given a location yet. -/
def ZFChdr.new (offset len : UInt32) (precious : Bool) : ZFChdr :=
  ⟨0xffffffff, offset, len, precious⟩

/-- `set_location`. -/
def ZFChdr.setLocation (chdr : ZFChdr) (offset : UInt32) : ZFChdr :=
  { chdr with zFileOff := offset }

/-- The fast chunk that `enumerate_entries` adds. -/
def fastChdr (fastChunk : FastChunk) : ZFChdr :=
  .new fastChunk.range.start fastChunk.range.size false

/-- The precious chunk that `enumerate_entries` adds. -/
def preciousChdr (fileLen : UInt32) (cursor : Range) : Except ChunkFault ZFChdr := do
  let trimmed : Range := ⟨cursor.start, min cursor.finish fileLen⟩
  ensure (trimmed.size > 0) .assertion
  return .new trimmed.start trimmed.size true

/-- `enumerate_entries`, for a file that is no directory. -/
def TracePathRecord.enumerateEntries (fileLen : UInt32) (tpr : TracePathRecord) :
    Except ChunkFault (List ZFChdr) := do
  let ranges ← tpr.preciousChunks.ranges
  let precious ← ranges.mapM (preciousChdr fileLen)
  let chdrs := tpr.fastChunks.map fastChdr ++ precious
  ensure (¬(fileLen = 0 ∧ chdrs.length > 0)) .assertion
  return chdrs

/-- The chunks of a traced file. -/
def tracedChdrs (balance : SearchTree.Balance Range) (fileLen : UInt32)
    (trace : List (Option TraceEvent)) : Except ChunkFault (List ZFChdr) := do
  let tpr ← TracePathRecord.parse balance trace
  tpr.enumerateEntries fileLen

/-- The chunks at the locations that a placement gives them. -/
def placed (locations : Nat → UInt32) (chdrs : List ZFChdr) : List ZFChdr :=
  chdrs.mapIdx fun ci chdr => chdr.setLocation (locations ci)

/-! ## `ZarfileHandle` -/

/-- A chunk that a fast mmap can take a range from. -/
def ZFChdr.Maps (chdr : ZFChdr) (len : UInt32) (offset : UInt64) : Prop :=
  chdr.zPrecious = false ∧ chdr.zDataOff.toUInt64 ≤ offset ∧
    offset + len.toUInt64 ≤ (chdr.zDataOff + chdr.zDataLen).toUInt64

instance (chdr : ZFChdr) (len : UInt32) (offset : UInt64) :
    Decidable (chdr.Maps len offset) :=
  inferInstanceAs (Decidable (_ ∧ _))

/-- What is left of a chunk behind the range that is taken from it. -/
def ZFChdr.consume (chdr : ZFChdr) (len : UInt32) (offset : UInt64) : ZFChdr :=
  let oldEnd := chdr.zDataOff + chdr.zDataLen
  let newStart := (offset + len.toUInt64).toUInt32
  let offsetDelta := newStart - chdr.zDataOff
  { chdr with
    zFileOff := chdr.zFileOff + offsetDelta
    zDataOff := chdr.zDataOff + offsetDelta
    zDataLen := oldEnd - newStart }

/-- `fast_mmap`, which returns no pointer or leaves these headers; the underlying handle
grants an aligned pointer or not. -/
def fastMmap (grants : Bool) (len : UInt32) (offset : UInt64) :
    List ZFChdr → Option (List ZFChdr)
  | [] => none
  | chdr :: chdrs =>
    if chdr.Maps len offset then
      if grants then some (chdr.consume len offset :: chdrs) else none
    else (fastMmap grants len offset chdrs).map (chdr :: ·)

/-- The decoder of `_internal_read`; the underlying handle reads from an archive. -/
def handleDecoder (fileLen : UInt32) (archive : UInt32 → UInt32 → List UInt8)
    (chdrs : List ZFChdr) : ChunkDecoder where
  zFileLen := fileLen
  zChunkCount := UInt32.ofNat chdrs.length
  readChdr ci :=
    match chdrs[ci]? with
    | none => .error .outOfBounds
    | some chdr => .ok chdr
  underlyingZarfileRead len offset := .ok (archive len offset)

/-- `_internal_read`; every round but the last reads a byte. -/
def internalRead (fileLen : UInt32) (archive : UInt32 → UInt32 → List UInt8)
    (chdrs : List ZFChdr) (count offset : UInt32) : Except ChunkFault (List UInt8) :=
  (handleDecoder fileLen archive chdrs).read (count.toNat + 1) count offset

/-- An event of a trace happens again; a program reads what it was not given a mapping
of. -/
def replayLine (fileLen : UInt32) (archive : UInt32 → UInt32 → List UInt8)
    (grants : Bool) (chdrs : List ZFChdr) :
    Option TraceEvent → Except ChunkFault (List ZFChdr)
  | none => .ok chdrs
  | some (.read size offset) => do
    let _ ← internalRead fileLen archive chdrs size offset
    return chdrs
  | some (.mmap size) =>
    match fastMmap grants size 0 chdrs with
    | some next => .ok next
    | none => do
      let _ ← internalRead fileLen archive chdrs (min size fileLen) 0
      return chdrs

/-- The events of a trace happen again, from the line with a number on. -/
def replay (fileLen : UInt32) (archive : UInt32 → UInt32 → List UInt8)
    (grants : Nat → Bool) :
    Nat → List ZFChdr → List (Option TraceEvent) → Except ChunkFault (List ZFChdr)
  | _, chdrs, [] => .ok chdrs
  | number, chdrs, line :: lines => do
    let chdrs ← replayLine fileLen archive (grants number) chdrs line
    replay fileLen archive grants (number + 1) chdrs lines

end Embassies.Zarfile
