import Embassies.Library.Checked
import Embassies.Library.Format
import Embassies.Library.Loop

/-!
# Reading a file from its chunks

A zarfile holds a file as a list of chunks, which may overlap and come in any order.
`ChunkDecoder::read` scans the list from the front for chunks that hold the byte it
has come to, and scans again as long as a scan has made progress.

What the chunks hold is said by a property of the bytes that are read at a place.  A
read succeeds, with this property, exactly when every byte that is asked for lies in
some chunk; otherwise it ends in the assertion that the read was not satisfied.
-/

namespace Embassies.Zarfile

open Library Library.Checked List UInt32

/-- What stops a run of the code on chunks. -/
inductive ChunkFault where
  /-- A `lite_assert` whose condition is false. -/
  | assertion
  /-- The assertion that no chunk satisfies a read. -/
  | notSatisfied
  /-- A read outside the archive. -/
  | outOfBounds
  /-- A loop was not given enough rounds. -/
  | exhausted
deriving DecidableEq

/-- `ZF_Chdr`. -/
structure ZFChdr where
  zFileOff : UInt32
  zDataOff : UInt32
  zDataLen : UInt32
  zPrecious : Bool
deriving DecidableEq

/-- `ChunkDecoder`, with the functions that a user overrides; headers are counted from
the first chunk of the file. -/
structure ChunkDecoder where
  zFileLen : UInt32
  zChunkCount : UInt32
  readChdr : Nat → Except ChunkFault ZFChdr
  underlyingZarfileRead : UInt32 → UInt32 → Except ChunkFault (List UInt8)

/-- Where a read has come to, and what has been read. -/
structure ReadState where
  fileOffset : UInt32
  fileCount : UInt32
  buf : List UInt8

namespace ChunkDecoder

/-- A chunk of a scan. -/
def readChunk (decoder : ChunkDecoder) (scan : ReadState × Bool) (chdr : ZFChdr) :
    Except ChunkFault (ReadState × Bool) :=
  let state := scan.1
  let chunkStart := chdr.zDataOff
  let chunkEnd := chdr.zDataOff + chdr.zDataLen
  if state.fileOffset < chunkStart ∨ chunkEnd ≤ state.fileOffset then
    .ok scan
  else
    let chunkAvail := chunkEnd - state.fileOffset
    let thisReadLen :=
      if state.fileCount < chunkAvail then state.fileCount else chunkAvail
    if thisReadLen = 0 then
      .ok scan
    else do
      let bytes ← decoder.underlyingZarfileRead thisReadLen
        (chdr.zFileOff + (state.fileOffset - chdr.zDataOff))
      return (⟨state.fileOffset + thisReadLen, state.fileCount - thisReadLen,
        state.buf ++ bytes⟩, true)

/-- A round of the loop over the chunks, which is left when the read is complete. -/
def visitChunk (decoder : ChunkDecoder) (scan : ReadState × Bool) (ci : Nat) :
    Except ChunkFault (ReadState × Bool) :=
  if scan.2 = true ∧ scan.1.fileCount = 0 then
    .ok scan
  else do
    let chdr ← decoder.readChdr ci
    decoder.readChunk scan chdr

/-- A scan of the chunks; the flag says whether it has made progress. -/
def scanChunks (decoder : ChunkDecoder) (state : ReadState) :
    Except ChunkFault (ReadState × Bool) :=
  (List.range decoder.zChunkCount.toNat).foldlM decoder.visitChunk (state, false)

/-- A scan, and what is done after it. -/
def round (decoder : ChunkDecoder) (state : ReadState) :
    Except ChunkFault (ReadState ⊕ List UInt8) := do
  let (state, progress) ← decoder.scanChunks state
  if progress then
    return .inl state
  else if state.fileCount = 0 then
    return .inr state.buf
  else
    .error .notSatisfied

/-- `read`. -/
def read (decoder : ChunkDecoder) (fuel : Nat) (count offset : UInt32) :
    Except ChunkFault (List UInt8) := do
  ensure (offset + count ≤ decoder.zFileLen) .assertion
  if 0 < count then
    Loop.run .exhausted decoder.round fuel ⟨offset, count, []⟩
  else
    return []

end ChunkDecoder

/-! ## What the chunks hold -/

/-- The place lies between the start and the end that the decoder computes. -/
def ZFChdr.Holds (chdr : ZFChdr) (place : Nat) : Prop :=
  chdr.zDataOff.toNat ≤ place ∧ place < (chdr.zDataOff + chdr.zDataLen).toNat

/-- A property of the bytes at a place that is kept when the reads are joined. -/
structure Joined (good : Nat → Nat → List UInt8 → Prop) : Prop where
  nothing : ∀ place, good place 0 []
  append : ∀ place first second left right, good place first left →
    good (place + first) second right → good place (first + second) (left ++ right)

/-- The decoder has these headers, and reads inside a chunk are good. -/
structure ChunkDecoder.Serves (decoder : ChunkDecoder) (chdrs : List ZFChdr)
    (good : Nat → Nat → List UInt8 → Prop) : Prop where
  count : decoder.zChunkCount.toNat = chdrs.length
  header : ∀ ci chdr, chdrs[ci]? = some chdr → decoder.readChdr ci = .ok chdr
  reads : ∀ chdr ∈ chdrs, ∀ place len : UInt32, chdr.Holds place.toNat →
    place.toNat + len.toNat ≤ (chdr.zDataOff + chdr.zDataLen).toNat →
    place.toNat + len.toNat ≤ decoder.zFileLen.toNat →
    ∃ bytes, decoder.underlyingZarfileRead len
        (chdr.zFileOff + (place - chdr.zDataOff)) = .ok bytes ∧
      good place.toNat len.toNat bytes

/-- Every byte of a range lies in some chunk. -/
def Covered (chdrs : List ZFChdr) (low high : Nat) : Prop :=
  ∀ place, low ≤ place → place < high → ∃ chdr ∈ chdrs, chdr.Holds place

namespace ChunkDecoder

section Scans

variable {decoder : ChunkDecoder} {chdrs : List ZFChdr}
  {good : Nat → Nat → List UInt8 → Prop} {offset count : Nat}
  {state : ReadState} {scan : ReadState × Bool} {chdr : ZFChdr}

/-- A read of `count` bytes from `offset` on has come to a state. -/
structure Reading (chdrs : List ZFChdr) (good : Nat → Nat → List UInt8 → Prop)
    (offset count : Nat) (state : ReadState) : Prop where
  whole : state.fileOffset.toNat + state.fileCount.toNat = offset + count
  start : offset ≤ state.fileOffset.toNat
  read : good offset (state.fileOffset.toNat - offset) state.buf
  covered : Covered chdrs offset state.fileOffset.toNat

/-- What a part of a scan has done: it has read something, or the chunks it has met do
not help. -/
structure Scanned (met : List ZFChdr) (before after : ReadState × Bool) : Prop where
  shrinks : after.1.fileCount.toNat ≤ before.1.fileCount.toNat
  progress : after.2 = true →
    before.2 = true ∨ after.1.fileCount.toNat < before.1.fileCount.toNat
  stuck : after.2 = false → before.2 = false ∧ after.1 = before.1 ∧
    ∀ chdr ∈ met, chdr.Holds before.1.fileOffset.toNat → before.1.fileCount = 0

theorem Scanned.refl {met : List ZFChdr}
    (unhelpful : ∀ chdr ∈ met, chdr.Holds scan.1.fileOffset.toNat →
      scan.2 = true ∨ scan.1.fileCount = 0) :
    Scanned met scan scan where
  shrinks := Nat.le_refl _
  progress := .inl
  stuck none := ⟨none, rfl, fun chdr member holds => by
    rcases unhelpful chdr member holds with progress | complete
    · rw [none] at progress
      cases progress
    · exact complete⟩

theorem Scanned.trans {first second : List ZFChdr} {before middle after : ReadState × Bool}
    (earlier : Scanned first before middle) (later : Scanned second middle after) :
    Scanned (first ++ second) before after where
  shrinks := later.shrinks.trans earlier.shrinks
  progress made := by
    rcases later.progress made with already | less
    · rcases earlier.progress already with before | less
      · exact .inl before
      · exact .inr (Nat.lt_of_le_of_lt later.shrinks less)
    · exact .inr (Nat.lt_of_lt_of_le less earlier.shrinks)
  stuck none := by
    obtain ⟨middleNone, same, unhelpful⟩ := later.stuck none
    obtain ⟨beforeNone, equal, earlierUnhelpful⟩ := earlier.stuck middleNone
    refine ⟨beforeNone, same.trans equal, fun chdr member holds => ?_⟩
    rcases mem_append.mp member with inFirst | inSecond
    · exact earlierUnhelpful chdr inFirst holds
    · rw [← equal] at holds ⊢
      exact unhelpful chdr inSecond holds

variable (serves : decoder.Serves chdrs good) (joined : Joined good)
  (inside : offset + count ≤ decoder.zFileLen.toNat)

include serves joined inside

theorem readChunk_spec (member : chdr ∈ chdrs) (reading : Reading chdrs good offset count scan.1) :
    ∃ next, decoder.readChunk scan chdr = .ok next ∧
      Reading chdrs good offset count next.1 ∧ Scanned [chdr] scan next := by
  have fileSmall := decoder.zFileLen.toNat_lt
  have whole := reading.whole
  have start := reading.start
  by_cases outside : scan.1.fileOffset < chdr.zDataOff ∨
      chdr.zDataOff + chdr.zDataLen ≤ scan.1.fileOffset
  · refine ⟨scan, by rw [readChunk]; exact if_pos outside, reading, .refl ?_⟩
    intro other otherIn holds
    cases mem_singleton.mp otherIn
    rw [lt_iff_toNat_lt, le_iff_toNat_le] at outside
    obtain ⟨low, high⟩ := holds
    omega
  · have holds : chdr.Holds scan.1.fileOffset.toNat := by
      rw [lt_iff_toNat_lt, le_iff_toNat_le] at outside
      exact ⟨by omega, by omega⟩
    have avail : (chdr.zDataOff + chdr.zDataLen - scan.1.fileOffset).toNat =
        (chdr.zDataOff + chdr.zDataLen).toNat - scan.1.fileOffset.toNat :=
      UInt32.toNat_sub_of_le _ _ (le_iff_toNat_le.mpr (Nat.le_of_lt holds.2))
    rw [readChunk, if_neg outside]
    obtain ⟨len, length⟩ : ∃ len, len =
        if scan.1.fileCount < chdr.zDataOff + chdr.zDataLen - scan.1.fileOffset then
          scan.1.fileCount
        else chdr.zDataOff + chdr.zDataLen - scan.1.fileOffset := ⟨_, rfl⟩
    have short : len.toNat ≤ scan.1.fileCount.toNat ∧ scan.1.fileOffset.toNat + len.toNat ≤
          (chdr.zDataOff + chdr.zDataLen).toNat ∧
        (len = 0 → scan.1.fileCount = 0) := by
      have high := holds.2
      rw [length]
      split
      · rename_i less
        rw [lt_iff_toNat_lt, avail] at less
        exact ⟨Nat.le_refl _, by omega, fun zero => zero⟩
      · rename_i more
        rw [lt_iff_toNat_lt, avail] at more
        refine ⟨by omega, by omega, fun zero => ?_⟩
        rw [zero, UInt32.toNat_zero] at avail
        omega
    simp only [← length]
    obtain ⟨fits, inChunk, complete⟩ := short
    by_cases zero : len = 0
    · rw [if_pos zero]
      refine ⟨scan, rfl, reading, .refl ?_⟩
      exact fun _ _ _ => .inr (complete zero)
    · rw [if_neg zero]
      have positive : 0 < len.toNat := by
        rw [← UInt32.toNat_inj, UInt32.toNat_zero] at zero
        omega
      obtain ⟨bytes, loaded, goodBytes⟩ :=
        serves.reads chdr member scan.1.fileOffset len holds inChunk (by omega)
      have nextOffset : (scan.1.fileOffset + len).toNat = scan.1.fileOffset.toNat + len.toNat := by
        rw [UInt32.toNat_add, Nat.mod_eq_of_lt]
        omega
      have nextCount : (scan.1.fileCount - len).toNat = scan.1.fileCount.toNat - len.toNat :=
        UInt32.toNat_sub_of_le _ _ (le_iff_toNat_le.mpr fits)
      refine ⟨_, by rw [loaded, ok_bind]; rfl, ⟨?_, ?_, ?_, ?_⟩, ⟨?_, ?_, ?_⟩⟩
      · rw [nextOffset, nextCount]
        omega
      · rw [nextOffset]
        omega
      · have split : (scan.1.fileOffset + len).toNat - offset =
            (scan.1.fileOffset.toNat - offset) + len.toNat := by omega
        rw [split]
        refine joined.append _ _ _ _ _ reading.read ?_
        rwa [Nat.add_sub_cancel' start]
      · intro place low high
        rw [nextOffset] at high
        by_cases before : place < scan.1.fileOffset.toNat
        · exact reading.covered place low before
        · exact ⟨chdr, member, Nat.le_trans holds.1 (by omega), by omega⟩
      · rw [nextCount]
        omega
      · intro _
        rw [nextCount]
        omega
      · intro none
        cases none

theorem visitChunk_spec {ci : Nat} (place : chdrs[ci]? = some chdr)
    (reading : Reading chdrs good offset count scan.1) :
    ∃ next, decoder.visitChunk scan ci = .ok next ∧
      Reading chdrs good offset count next.1 ∧ Scanned [chdr] scan next := by
  rw [visitChunk]
  by_cases left : scan.2 = true ∧ scan.1.fileCount = 0
  · rw [if_pos left]
    exact ⟨scan, rfl, reading, .refl fun _ _ _ => .inl left.1⟩
  · rw [if_neg left, serves.header ci chdr place, ok_bind]
    exact readChunk_spec serves joined inside (mem_of_getElem? place) reading

/-- A scan succeeds; without progress no chunk holds the next byte. -/
theorem scanChunks_spec (reading : Reading chdrs good offset count state) :
    ∃ next, decoder.scanChunks state = .ok next ∧
      Reading chdrs good offset count next.1 ∧ Scanned chdrs (state, false) next := by
  have general : ∀ met, met ≤ chdrs.length → ∃ next,
      (range met).foldlM decoder.visitChunk (state, false) = .ok next ∧
        Reading chdrs good offset count next.1 ∧
        Scanned (chdrs.take met) (state, false) next := by
    intro met
    induction met with
    | zero =>
      intro _
      refine ⟨(state, false), rfl, reading, .refl ?_⟩
      intro _ member
      cases member
    | succ met induction =>
      intro more
      obtain ⟨middle, scanned, kept, earlier⟩ := induction (by omega)
      obtain ⟨chdr, place⟩ : ∃ chdr, chdrs[met]? = some chdr := ⟨_, getElem?_eq_getElem more⟩
      obtain ⟨next, visited, keptNext, later⟩ := visitChunk_spec serves joined inside place kept
      refine ⟨next, ?_, keptNext, ?_⟩
      · rw [range_succ, foldlM_append, scanned, ok_bind]
        simp only [foldlM_cons, visited, ok_bind, foldlM_nil, pure_eq_ok]
      · rw [take_add_one, place]
        exact earlier.trans later
  obtain ⟨next, scanned, kept, done⟩ := general chdrs.length (Nat.le_refl _)
  rw [take_length] at done
  rw [← serves.count] at scanned
  exact ⟨next, scanned, kept, done⟩

end Scans

/-! ## Reads -/

variable {decoder : ChunkDecoder} {chdrs : List ZFChdr}
  {good : Nat → Nat → List UInt8 → Prop} {fuel : Nat}
  (serves : decoder.Serves chdrs good) (joined : Joined good)

include serves joined

theorem run_round {offset count : Nat} {state : ReadState}
    (inside : offset + count ≤ decoder.zFileLen.toNat)
    (reading : Reading chdrs good offset count state)
    (enough : state.fileCount.toNat < fuel) :
    (Covered chdrs offset (offset + count) ∧
      ∃ bytes, Loop.run .exhausted decoder.round fuel state = .ok bytes ∧ good offset count bytes) ∨
    (¬Covered chdrs offset (offset + count) ∧
      Loop.run .exhausted decoder.round fuel state = .error .notSatisfied) := by
  induction fuel generalizing state with
  | zero => omega
  | succ fuel induction =>
    obtain ⟨⟨next, progress⟩, scanned, kept, done⟩ := scanChunks_spec serves joined inside reading
    have rounds : decoder.round state =
        if progress = true then .ok (.inl next)
        else if next.fileCount = 0 then .ok (.inr next.buf)
        else .error .notSatisfied := by
      rw [round, scanned]
      rfl
    cases progress with
    | true =>
      rcases done.progress rfl with impossible | less
      · cases impossible
      · rw [Loop.run_next rounds]
        have less : next.fileCount.toNat < state.fileCount.toNat := less
        exact induction kept (by omega)
    | false =>
      obtain ⟨-, same, unhelpful⟩ := done.stuck rfl
      subst same
      rw [if_neg Bool.false_ne_true] at rounds
      have whole : next.fileOffset.toNat + next.fileCount.toNat = offset + count := kept.whole
      by_cases complete : next.fileCount = 0
      · rw [if_pos complete] at rounds
        rw [complete, UInt32.toNat_zero] at whole
        have ending : next.fileOffset.toNat = offset + count := whole
        refine .inl ⟨ending ▸ kept.covered, next.buf, Loop.run_leave rounds, ?_⟩
        have read := kept.read
        rwa [ending, Nat.add_sub_cancel_left] at read
      · rw [if_neg complete] at rounds
        refine .inr ⟨fun covered => ?_, by rw [Loop.run, rounds]⟩
        have positive : next.fileCount.toNat ≠ 0 := by
          rw [← UInt32.toNat_inj, UInt32.toNat_zero] at complete
          exact complete
        obtain ⟨chdr, member, holds⟩ := covered next.fileOffset.toNat kept.start (by omega)
        exact complete (unhelpful chdr member holds)

variable {offset count : UInt32} (inside : offset.toNat + count.toNat ≤ decoder.zFileLen.toNat)
  (enough : count.toNat < fuel)

include inside enough

theorem read_cases : (Covered chdrs offset.toNat (offset.toNat + count.toNat) ∧
      ∃ bytes, decoder.read fuel count offset = .ok bytes ∧ good offset.toNat count.toNat bytes) ∨
    (¬Covered chdrs offset.toNat (offset.toNat + count.toNat) ∧
      decoder.read fuel count offset = .error .notSatisfied) := by
  have fits : offset + count ≤ decoder.zFileLen := by
    have small := decoder.zFileLen.toNat_lt
    rw [le_iff_toNat_le, UInt32.toNat_add, Nat.mod_eq_of_lt (by omega)]
    exact inside
  rw [read, ensure_true fits, ok_bind]
  by_cases some : 0 < count
  · rw [if_pos some]
    refine run_round serves joined inside ⟨rfl, Nat.le_refl _, ?_, ?_⟩ enough
    · rw [Nat.sub_self]
      exact joined.nothing _
    · intro place low high
      exact absurd high (Nat.not_lt.mpr low)
  · have zero : count.toNat = 0 := by
      rw [lt_iff_toNat_lt, UInt32.toNat_zero] at some
      omega
    rw [if_neg some, zero]
    refine .inl ⟨?_, [], rfl, joined.nothing _⟩
    intro place low high
    exact absurd high (Nat.not_lt.mpr low)

/-- A read succeeds when every byte lies in some chunk. -/
theorem read_of_covered (covered : Covered chdrs offset.toNat (offset.toNat + count.toNat)) :
    ∃ bytes, decoder.read fuel count offset = .ok bytes ∧ good offset.toNat count.toNat bytes := by
  rcases read_cases serves joined inside enough with ⟨-, found⟩ | ⟨uncovered, -⟩
  · exact found
  · exact absurd covered uncovered

end ChunkDecoder

end Embassies.Zarfile
