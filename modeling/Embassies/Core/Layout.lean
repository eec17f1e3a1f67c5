import Embassies.Core.CoreFile
import Mathlib.Data.Nat.Bitwise

/-!
# The layout of a core file

The offsets in the headers of a core file are computed before anything is written.  They
agree with the bytes that are written, since both go through the same lists, and the file is
as long as `corefile_compute_size` says.

But `corefile_write` asserts that each write wrote one item, and `fwrite` writes no item of
size 0: a segment without bytes, or headers that end at a page boundary and need no padding,
stop the program.
-/

namespace Embassies.Core

open Library Library.Checked List Format UInt32

/-! ## Rounding -/

theorem and_page_mask {value : Nat} (bounded : value < 2 ^ 32) :
    value &&& 2 ^ 12 * (2 ^ 20 - 1) = 2 ^ 12 * (value / 2 ^ 12) := by
  apply Nat.eq_of_testBit_eq
  intro place
  rw [Nat.testBit_and, Nat.testBit_two_pow_mul, Nat.testBit_two_pow_mul,
    Nat.testBit_two_pow_sub_one, Nat.testBit_div_two_pow]
  by_cases high : 12 ≤ place
  · rw [Nat.sub_add_cancel high]
    by_cases inside : place < 32
    · have below : place - 12 < 20 := by omega
      simp [high, below]
    · have clear : value.testBit place = false := by
        apply Nat.testBit_lt_two_pow
        exact Nat.lt_of_lt_of_le bounded (Nat.pow_le_pow_right Nat.two_pos (by omega))
      simp [clear]
  · simp [high]

theorem and_not_page (value : Nat) :
    Int32.ofNat value &&& ~~~0xfff = Int32.ofNat (value / 4096 * 4096) := by
  rw [← Int32.toBitVec_inj, Int32.toBitVec_and, Int32.toBitVec_not, Int32.toBitVec_ofNat',
    Int32.toBitVec_ofNat']
  apply BitVec.eq_of_toNat_eq
  rw [BitVec.toNat_and, BitVec.toNat_ofNat, BitVec.toNat_ofNat]
  have mask : (~~~(0xfff : Int32).toBitVec).toNat = 2 ^ 12 * (2 ^ 20 - 1) := by decide
  rw [mask, and_page_mask (Nat.mod_lt _ (by decide))]
  omega

theorem and_page_eq_zero_iff (value : Nat) :
    Int32.ofNat value &&& 0xfff = 0 ↔ value % 4096 = 0 := by
  rw [← Int32.toBitVec_inj, Int32.toBitVec_and, Int32.toBitVec_ofNat', BitVec.toNat_eq,
    BitVec.toNat_and, BitVec.toNat_ofNat]
  have mask : (0xfff : Int32).toBitVec.toNat = 2 ^ 12 - 1 := by decide
  have none : (0 : Int32).toBitVec.toNat = 0 := by decide
  rw [mask, none, Nat.and_two_pow_sub_one_eq_mod]
  omega

/-! ## The file that is planned -/

namespace CoreFile

/-- The size of the headers and the notes. -/
def hdrSize (c : CoreFile) : Nat :=
  364 + 32 * c.segments.length + 164 * c.threads.length

/-- The start of the first segment. -/
def roundedHdrSize (c : CoreFile) : Nat := (c.hdrSize + 4095) / 4096 * 4096

/-- The size of all segments. -/
def totalSize (segments : List CoreSegment) : Nat :=
  (segments.map fun seg => seg.bytes.length).sum

/-- The headers of segments that start at an offset. -/
def segmentHeaders : Nat → List CoreSegment → List Elf32Phdr
  | _, [] => []
  | offset, seg :: segments =>
    segmentHeader seg (Int32.ofNat offset) ::
      segmentHeaders (offset + seg.bytes.length) segments

/-- The notes. -/
def notes (c : CoreFile) : List UInt8 :=
  CoreNoteRegs.format.table c.threads ++ CoreNoteZoog.format.encode c.corenoteZoog

/-- The program header of the notes. -/
def notesHeader (c : CoreFile) : Elf32Phdr :=
  noteHeader 52 (elfHeader c.segments.length).ePhnum
    (UInt32.ofNat (164 * c.threads.length + 280))

/-- The program headers. -/
def headers (c : CoreFile) : List Elf32Phdr :=
  c.notesHeader :: segmentHeaders c.roundedHdrSize c.segments

/-- The bytes of the segments. -/
def segmentBytes (segments : List CoreSegment) : List UInt8 :=
  segments.flatMap CoreSegment.bytes

/-- The whole file. -/
def contents (c : CoreFile) : List UInt8 :=
  Elf32Ehdr.format.encode (elfHeader c.segments.length) ++ Elf32Phdr.format.table c.headers ++
    c.notes ++ List.replicate (c.roundedHdrSize - c.hdrSize) 0 ++ segmentBytes c.segments

end CoreFile

open CoreFile

theorem totalSize_cons (seg : CoreSegment) (segments : List CoreSegment) :
    totalSize (seg :: segments) = seg.bytes.length + totalSize segments := by
  rw [totalSize, map_cons, sum_cons, totalSize]

theorem length_segmentHeaders (offset : Nat) (segments : List CoreSegment) :
    (segmentHeaders offset segments).length = segments.length := by
  induction segments generalizing offset with
  | nil => rfl
  | cons seg segments induction =>
    rw [segmentHeaders, length_cons, induction, length_cons]

theorem length_segmentBytes (segments : List CoreSegment) :
    (segmentBytes segments).length = totalSize segments := by
  rw [segmentBytes, totalSize, length_flatMap]

theorem length_notes (c : CoreFile) : c.notes.length = 164 * c.threads.length + 280 := by
  rw [notes, length_append, table_length, encode_length]
  rfl

/-! ## Writing to a file -/

section File

variable {file bytes out : List UInt8} {segments : List CoreSegment}

theorem write_file_iff :
    write fileCallbacks file bytes = .ok out ↔ bytes ≠ [] ∧ file ++ bytes = out := by
  simp only [write, fileCallbacks, bind_eq_ok_iff, ensure_eq_ok_iff, pure_eq_ok,
    Except.ok.injEq, decide_eq_true_eq, exists_and_left, exists_const]

theorem write_file_encode {α : Type} (format : Format α) (positive : 0 < format.size) (value : α) :
    write fileCallbacks file (format.encode value) = .ok (file ++ format.encode value) := by
  refine write_file_iff.mpr ⟨?_, rfl⟩
  intro empty
  have size := format.encode_length value
  rw [empty] at size
  exact Nat.ne_of_lt positive size

theorem checkPosition_file_iff {offset : Nat} {outcome : Unit} (here : file.length = offset)
    (even : offset % 2 = 0) :
    checkPosition fileCallbacks file (Int32.ofNat offset) = .ok outcome ↔ offset < 2 ^ 31 := by
  rw [checkPosition]
  simp only [fileCallbacks, ensure_eq_ok_iff, here]
  by_cases small : offset < 2 ^ 31
  · rw [if_pos small]
    exact iff_of_true rfl small
  · rw [if_neg small]
    refine iff_of_false (fun same => ?_) small
    have bits := congrArg (fun number : Int32 => number.toBitVec.toNat) same
    simp only [Int32.toBitVec_ofNat', BitVec.toNat_ofNat] at bits
    have minus : (-1 : Int32).toBitVec.toNat = 2 ^ 32 - 1 := by decide
    omega

theorem writeHeaders_file
    {position offset : Nat} (here : file.length = position) (even : position % 2 = 0)
    (room : position + 32 * segments.length < 2 ^ 31)
    (aligned : ∀ seg ∈ segments, seg.bytes.length % 4096 = 0) :
    segments.foldlM (writeHeader fileCallbacks) (file, Int32.ofNat position, Int32.ofNat offset) =
      .ok (file ++ Elf32Phdr.format.table (segmentHeaders offset segments),
        Int32.ofNat (position + 32 * segments.length),
        Int32.ofNat (offset + totalSize segments)) := by
  induction segments generalizing file position offset with
  | nil =>
    rw [segmentHeaders, table_nil, append_nil]
    rfl
  | cons seg segments induction =>
    rw [length_cons] at room
    have whole : seg.size &&& 0xfff = 0 := (and_page_eq_zero_iff _).mpr (aligned seg mem_cons_self)
    have length : (file ++ Elf32Phdr.format.encode
        (segmentHeader seg (Int32.ofNat offset))).length = position + 32 := by
      rw [length_append, encode_length, here]
      rfl
    have check := (@checkPosition_file_iff _ _ () length (by omega)).mpr (by omega)
    have step : writeHeader fileCallbacks (file, Int32.ofNat position, Int32.ofNat offset) seg =
        .ok (file ++ Elf32Phdr.format.encode (segmentHeader seg (Int32.ofNat offset)),
          Int32.ofNat (position + 32), Int32.ofNat (offset + seg.bytes.length)) := by
      have later : Int32.ofNat position + 32 = Int32.ofNat (position + 32) :=
        (Int32.ofNat_add position 32).symm
      have next : Int32.ofNat offset + (segmentHeader seg (Int32.ofNat offset)).pFilesz.toInt32 =
          Int32.ofNat (offset + seg.bytes.length) := by
        rw [Int32.ofNat_add]
        rfl
      rw [writeHeader]
      simp only [ensure_true whole, ok_bind,
        write_file_encode Elf32Phdr.format (by decide), later, next, check]
      rfl
    rw [foldlM_cons, step, ok_bind, induction length (by omega) (by omega)
      fun other member => aligned other (mem_cons_of_mem _ member)]
    rw [segmentHeaders, table_cons, ← append_assoc, totalSize_cons,
      length_cons, Nat.mul_succ, ← Nat.add_assoc offset, Nat.add_assoc position,
      Nat.add_comm 32]

theorem writeNotes_file (threads : List CoreNoteRegs) :
    threads.foldlM (writeNote fileCallbacks) file =
      .ok (file ++ CoreNoteRegs.format.table threads) := by
  induction threads generalizing file with
  | nil =>
    rw [table_nil, append_nil]
    rfl
  | cons note threads induction =>
    rw [foldlM_cons, writeNote, write_file_encode CoreNoteRegs.format (by decide),
      ok_bind, induction, table_cons, ← append_assoc]

theorem writeSegments_file_iff {position : Nat} (here : file.length = position)
    (even : position % 2 = 0) (small : position < 2 ^ 31)
    (aligned : ∀ seg ∈ segments, seg.bytes.length % 4096 = 0) :
    (∃ last, segments.foldlM (writeSegment fileCallbacks) (file, Int32.ofNat position) =
        .ok (out, last)) ↔
      (∀ seg ∈ segments, seg.bytes ≠ []) ∧ position + totalSize segments < 2 ^ 31 ∧
        file ++ segmentBytes segments = out := by
  induction segments generalizing file position with
  | nil =>
    rw [foldlM_nil, segmentBytes, flatMap_nil, append_nil]
    simp only [pure_eq_ok, Except.ok.injEq, Prod.mk.injEq, exists_and_left, exists_eq',
      and_true, not_mem_nil, false_imp_iff, implies_true, true_and]
    exact ⟨fun same => ⟨small, same⟩, fun both => both.2⟩
  | cons seg segments induction =>
    have length : (file ++ seg.bytes).length = position + seg.bytes.length := by
      rw [length_append, here]
    have whole := aligned seg mem_cons_self
    have next : Int32.ofNat position + seg.size =
        Int32.ofNat (position + seg.bytes.length) := (Int32.ofNat_add _ _).symm
    have step : ∀ state, writeSegment fileCallbacks (file, Int32.ofNat position) seg =
        .ok state ↔ seg.bytes ≠ [] ∧ position + seg.bytes.length < 2 ^ 31 ∧
          (file ++ seg.bytes, Int32.ofNat (position + seg.bytes.length)) = state := by
      intro state
      simp only [writeSegment, bind_eq_ok_iff, write_file_iff, next, pure_eq_ok, Except.ok.injEq]
      constructor
      · rintro ⟨_, ⟨some, rfl⟩, outcome, check, same⟩
        exact ⟨some, (checkPosition_file_iff length (by omega)).mp check, same⟩
      · rintro ⟨some, room, same⟩
        exact ⟨_, ⟨some, rfl⟩, (), (checkPosition_file_iff length (by omega)).mpr room, same⟩
    have rest : ∀ room : position + seg.bytes.length < 2 ^ 31, _ := fun room =>
      induction length (by omega) room fun other member => aligned other (mem_cons_of_mem _ member)
    rw [totalSize_cons, segmentBytes, flatMap_cons, ← append_assoc, ← Nat.add_assoc,
      ← segmentBytes, forall_mem_cons]
    simp only [foldlM_cons, bind_eq_ok_iff, step]
    constructor
    · rintro ⟨last, _, ⟨some, room, rfl⟩, writes⟩
      obtain ⟨all, total, same⟩ := (rest room).mp ⟨last, writes⟩
      exact ⟨⟨some, all⟩, total, same⟩
    · rintro ⟨⟨some, all⟩, total, same⟩
      have room : position + seg.bytes.length < 2 ^ 31 := by omega
      obtain ⟨last, writes⟩ := (rest room).mpr ⟨all, total, same⟩
      exact ⟨last, _, ⟨some, room, rfl⟩, writes⟩

end File

/-! ## The whole file -/

variable {c : CoreFile}

theorem threadNotesSize_eq (c : CoreFile) : (UInt32.ofNat c.threads.length * 164).toInt32.toUInt32 =
      UInt32.ofNat (164 * c.threads.length) := by
  rw [toUInt32_toInt32, Nat.mul_comm, ofNat_mul]
  rfl

theorem hdrSize_eq (c : CoreFile) : (52 + 32 + 32 * UInt32.ofNat c.segments.length +
      (UInt32.ofNat c.threads.length * 164).toInt32.toUInt32 + 280).toInt32 =
      Int32.ofNat c.hdrSize := by
  have sum : 52 + 32 + 32 * UInt32.ofNat c.segments.length +
      UInt32.ofNat (164 * c.threads.length) + 280 = UInt32.ofNat c.hdrSize := by
    rw [hdrSize]
    simp only [ofNat_add, ofNat_mul]
    grind
  rw [threadNotesSize_eq, sum, toInt32_ofNat']

theorem roundedHdrSize_eq (c : CoreFile) :
    (Int32.ofNat c.hdrSize + 0xfff) &&& ~~~0xfff = Int32.ofNat c.roundedHdrSize := by
  have sum : Int32.ofNat c.hdrSize + 0xfff = Int32.ofNat (c.hdrSize + 4095) :=
    (Int32.ofNat_add _ _).symm
  rw [sum, and_not_page, roundedHdrSize]

theorem hdrSize_le (c : CoreFile) :
    c.hdrSize ≤ c.roundedHdrSize ∧ c.roundedHdrSize - c.hdrSize < 4096 := by
  rw [roundedHdrSize]
  omega

theorem padSize_eq (c : CoreFile) : Int32.ofNat c.roundedHdrSize - Int32.ofNat c.hdrSize =
      Int32.ofNat (c.roundedHdrSize - c.hdrSize) := by
  have sum : Int32.ofNat (c.roundedHdrSize - c.hdrSize) + Int32.ofNat c.hdrSize =
      Int32.ofNat c.roundedHdrSize := by
    rw [← Int32.ofNat_add, Nat.sub_add_cancel (hdrSize_le c).1]
  rw [← sum, Int32.add_sub_cancel]

/-- The headers and the notes. -/
def CoreFile.front (c : CoreFile) : List UInt8 :=
  Elf32Ehdr.format.encode (elfHeader c.segments.length) ++ Elf32Phdr.format.table c.headers ++
    c.notes

theorem length_front (c : CoreFile) : c.front.length = c.hdrSize := by
  rw [front, length_append, length_append, encode_length,
    table_length, headers, length_cons, length_segmentHeaders, length_notes, hdrSize]
  change 52 + 32 * (c.segments.length + 1) + _ = _
  omega

theorem length_padded (c : CoreFile) :
    (c.front ++ replicate (c.roundedHdrSize - c.hdrSize) 0).length = c.roundedHdrSize := by
  rw [length_append, length_front, length_replicate, Nat.add_sub_cancel' (hdrSize_le c).1]

theorem corefileWrite_eq (few : c.segments.length < 65535)
    (aligned : ∀ seg ∈ c.segments, seg.bytes.length % 4096 = 0) :
    corefileWrite c = (do
      ensure (c.corenoteZoog.bootblockAddr ≠ 0) .assertion
      let file ← write fileCallbacks c.front
        (replicate (c.roundedHdrSize - c.hdrSize) 0)
      checkPosition fileCallbacks file (Int32.ofNat c.roundedHdrSize)
      let (file, _) ← c.segments.foldlM (writeSegment fileCallbacks)
        (file, Int32.ofNat c.roundedHdrSize)
      return file) := by
  have pad := (hdrSize_le c).2
  have padInt : (Int32.ofNat (c.roundedHdrSize - c.hdrSize)).toInt =
      (c.roundedHdrSize - c.hdrSize : Nat) := Int32.toInt_ofNat_of_lt (by omega)
  have positive : Int32.ofNat (c.roundedHdrSize - c.hdrSize) ≥ 0 := by
    rw [ge_iff_le, Int32.le_iff_toInt_le, padInt, Int32.toInt_zero]
    omega
  have small : Int32.ofNat (c.roundedHdrSize - c.hdrSize) < 0x1000 := by
    rw [Int32.lt_iff_toInt_lt, padInt]
    exact Int.ofNat_lt.mpr pad
  rw [corefileWrite, corefileWriteCustom]
  have length : ([] ++ Elf32Ehdr.format.encode (elfHeader c.segments.length) ++
      Elf32Phdr.format.encode c.notesHeader).length = 84 := by
    rfl
  have notesSize : noteHeader 52 (elfHeader c.segments.length).ePhnum
      ((UInt32.ofNat c.threads.length * 164).toInt32.toUInt32 + 280) = c.notesHeader := by
    rw [threadNotesSize_eq, notesHeader, ofNat_add]
    rfl
  have start : (52 : Int32) + 32 = Int32.ofNat 84 := rfl
  have front_eq : [] ++ Elf32Ehdr.format.encode (elfHeader c.segments.length) ++
      Elf32Phdr.format.encode c.notesHeader ++
      Elf32Phdr.format.table (segmentHeaders c.roundedHdrSize c.segments) ++
      CoreNoteRegs.format.table c.threads ++
      CoreNoteZoog.format.encode c.corenoteZoog = c.front := by
    rw [front, headers, table_cons, notes, nil_append]
    simp only [append_assoc]
  simp only [hdrSize_eq, roundedHdrSize_eq, padSize_eq, notesSize,
    write_file_encode Elf32Ehdr.format (by decide),
    write_file_encode Elf32Phdr.format (by decide),
    write_file_encode CoreNoteZoog.format (by decide), ok_bind, start]
  simp only [writeHeaders_file length rfl (show 84 + 32 * c.segments.length < 2 ^ 31 by omega)
    aligned, writeNotes_file, ok_bind, front_eq, ensure_true positive, ensure_true small, padInt,
    Int.toNat_natCast]

/-- When a core file is written, and what is in it. -/
theorem corefileWrite_eq_ok_iff {out : List UInt8} (few : c.segments.length < 65535)
    (aligned : ∀ seg ∈ c.segments, seg.bytes.length % 4096 = 0) :
    corefileWrite c = .ok out ↔ c.corenoteZoog.bootblockAddr ≠ 0 ∧ c.hdrSize % 4096 ≠ 0 ∧
      (∀ seg ∈ c.segments, seg.bytes ≠ []) ∧
      c.roundedHdrSize + totalSize c.segments < 2 ^ 31 ∧ c.contents = out := by
  have length := length_padded c
  have even : c.roundedHdrSize % 2 = 0 := by
    rw [roundedHdrSize]
    omega
  have padded : replicate (c.roundedHdrSize - c.hdrSize) (0 : UInt8) ≠ [] ↔
      c.hdrSize % 4096 ≠ 0 := by
    rw [ne_eq, replicate_eq_nil_iff, roundedHdrSize]
    omega
  have segments := fun small =>
    @writeSegments_file_iff _ out c.segments _ length even small aligned
  rw [corefileWrite_eq few aligned]
  simp only [bind_eq_ok_iff, ensure_eq_ok_iff, write_file_iff, pure_eq_ok, Except.ok.injEq, padded]
  constructor
  · rintro ⟨-, boot, _, ⟨pad, rfl⟩, outcome, check, ⟨file, last⟩, writes, rfl⟩
    have small := (checkPosition_file_iff length even).mp check
    obtain ⟨all, total, same⟩ := (segments small).mp ⟨last, writes⟩
    exact ⟨boot, pad, all, total, same⟩
  · rintro ⟨boot, pad, all, total, same⟩
    have small : c.roundedHdrSize < 2 ^ 31 := by omega
    obtain ⟨last, writes⟩ := (segments small).mpr ⟨all, total, same⟩
    exact ⟨⟨⟩, boot, _, ⟨pad, rfl⟩, (), (checkPosition_file_iff length even).mpr small,
      (out, last), writes, rfl⟩

/-! ## The size -/

theorem write_counts
    {file bytes next : List UInt8} (writes : write fileCallbacks file bytes = .ok next) :
    write sizeCallbacks (UInt32.ofNat file.length) bytes = .ok (UInt32.ofNat next.length) := by
  obtain ⟨-, rfl⟩ := write_file_iff.mp writes
  rw [length_append, ofNat_add]
  rfl

theorem writeNote_counts {file next : List UInt8} {note : CoreNoteRegs}
    (writes : writeNote fileCallbacks file note = .ok next) :
    writeNote sizeCallbacks (UInt32.ofNat file.length) note = .ok (UInt32.ofNat next.length) :=
  write_counts writes

theorem writeHeader_counts {state next : List UInt8 × Int32 × Int32} {seg : CoreSegment}
    (writes : writeHeader fileCallbacks state seg = .ok next) :
    writeHeader sizeCallbacks (UInt32.ofNat state.1.length, state.2) seg =
      .ok (UInt32.ofNat next.1.length, next.2) := by
  simp only [writeHeader, bind_eq_ok_iff, pure_eq_ok, Except.ok.injEq] at writes ⊢
  obtain ⟨_, whole, file, written, -, -, rfl⟩ := writes
  exact ⟨_, whole, _, write_counts written, (), rfl, rfl⟩

theorem writeSegment_counts {state next : List UInt8 × Int32} {seg : CoreSegment}
    (writes : writeSegment fileCallbacks state seg = .ok next) :
    writeSegment sizeCallbacks (UInt32.ofNat state.1.length, state.2) seg =
      .ok (UInt32.ofNat next.1.length, next.2) := by
  simp only [writeSegment, bind_eq_ok_iff, pure_eq_ok, Except.ok.injEq] at writes ⊢
  obtain ⟨file, written, -, -, rfl⟩ := writes
  exact ⟨_, write_counts written, (), rfl, rfl⟩

/-- `corefile_compute_size` gives the length of the file. -/
theorem corefileComputeSize_eq {file : List UInt8} (written : corefileWrite c = .ok file) :
    corefileComputeSize c = .ok (UInt32.ofNat file.length) := by
  simp only [corefileWrite, corefileWriteCustom, bind_eq_ok_iff, pure_eq_ok,
    Except.ok.injEq] at written
  obtain ⟨first, writesEhdr, _, boot, second, writesPhdr, third, writesHeaders, fourth,
    writesNotes, fifth, writesZoog, _, positive, _, small, sixth, writesPad, -, -, last,
    writesSegments, rfl⟩ := written
  have countsHeaders := foldlM_image (fun _ _ _ => writeHeader_counts) writesHeaders
  have countsNotes := foldlM_image (fun _ _ _ => writeNote_counts) writesNotes
  have countsSegments := foldlM_image (fun _ _ _ => writeSegment_counts) writesSegments
  have start : (0 : UInt32) = UInt32.ofNat ([] : List UInt8).length := rfl
  simp only [corefileComputeSize, start, corefileWriteCustom, bind_eq_ok_iff, pure_eq_ok,
    Except.ok.injEq]
  exact ⟨_, write_counts writesEhdr, _, boot, _, write_counts writesPhdr, _, countsHeaders, _,
    countsNotes, _, write_counts writesZoog, _, positive, _, small, _, write_counts writesPad,
    (), rfl, _, countsSegments, rfl⟩

/-! ## The layout -/

/-- A file is laid out as its headers say. -/
structure LaidOut (c : CoreFile) (file : List UInt8) : Prop where
  header : Elf32Ehdr.format.read file = elfHeader c.segments.length
  notes : let phdr := Elf32Phdr.format.read (file.drop 52)
    phdr.pType = ptNote ∧
      (file.drop phdr.pOffset.toNat).take phdr.pFilesz.toNat =
        CoreNoteRegs.format.table c.threads ++ CoreNoteZoog.format.encode c.corenoteZoog
  segments : ∀ index seg, c.segments[index]? = some seg →
    let phdr := Elf32Phdr.format.read (file.drop (52 + 32 * (index + 1)))
    phdr.pType = ptLoad ∧ phdr.pVaddr = seg.vaddr ∧ phdr.pOffset.toNat % 4096 = 0 ∧
      phdr.pFilesz.toNat = seg.bytes.length ∧
      (file.drop phdr.pOffset.toNat).take phdr.pFilesz.toNat = seg.bytes
  size : ∃ total, corefileComputeSize c = .ok total ∧ total.toNat = file.length

variable {segments : List CoreSegment} {seg : CoreSegment} {index : Nat}

theorem segmentHeaders_getElem? {offset : Nat} (found : segments[index]? = some seg) :
    (segmentHeaders offset segments)[index]? =
      some (segmentHeader seg (Int32.ofNat (offset + totalSize (segments.take index)))) := by
  induction segments generalizing offset index with
  | nil => cases found
  | cons first segments induction =>
    cases index with
    | zero =>
      cases found
      rfl
    | succ index =>
      rw [segmentHeaders, getElem?_cons_succ, induction found, take_succ_cons,
        totalSize_cons, Nat.add_assoc]

theorem segmentBytes_extract (found : segments[index]? = some seg) :
    ((segmentBytes segments).drop (totalSize (segments.take index))).take seg.bytes.length =
      seg.bytes := by
  induction segments generalizing index with
  | nil => cases found
  | cons first segments induction =>
    rw [segmentBytes, flatMap_cons, ← segmentBytes]
    cases index with
    | zero =>
      cases found
      exact take_left' rfl
    | succ index =>
      rw [take_succ_cons, totalSize_cons, ← drop_drop, drop_left' rfl]
      exact induction found

theorem totalSize_take_le (segments : List CoreSegment) (index : Nat) :
    totalSize (segments.take index) ≤ totalSize segments := by
  have parts : totalSize (segments.take index ++ segments.drop index) =
      totalSize (segments.take index) + totalSize (segments.drop index) := by
    rw [totalSize, map_append, sum_append, totalSize, totalSize]
  rw [take_append_drop] at parts
  omega

theorem totalSize_mod (aligned : ∀ seg ∈ segments, seg.bytes.length % 4096 = 0) :
    totalSize segments % 4096 = 0 := by
  induction segments with
  | nil => rfl
  | cons seg segments induction =>
    have first := aligned seg mem_cons_self
    have rest := induction fun other member => aligned other (mem_cons_of_mem _ member)
    rw [totalSize_cons]
    omega

theorem contents_drop (c : CoreFile) :
    c.contents.drop 52 = Elf32Phdr.format.table c.headers ++ (c.notes ++
      (replicate (c.roundedHdrSize - c.hdrSize) 0 ++ segmentBytes c.segments)) := by
  have size : (Elf32Ehdr.format.encode (elfHeader c.segments.length)).length = 52 :=
    encode_length _ _
  rw [contents]
  simp only [append_assoc]
  exact drop_left' size

theorem contents_header {phdr : Elf32Phdr} (found : c.headers[index]? = some phdr) :
    Elf32Phdr.format.read (c.contents.drop (52 + 32 * index)) = phdr := by
  rw [← drop_drop, contents_drop]
  exact read_table Elf32Phdr.format found _

theorem contents_notes (c : CoreFile) : (c.contents.drop (52 + 32 * (1 + c.segments.length))).take
      (164 * c.threads.length + 280) = c.notes := by
  have table : (Elf32Phdr.format.table c.headers).length = 32 * (1 + c.segments.length) := by
    rw [table_length, headers, length_cons, length_segmentHeaders, Nat.add_comm 1]
    rfl
  rw [← drop_drop, contents_drop, drop_left' table, take_left' (length_notes c)]

theorem contents_eq (c : CoreFile) :
    c.contents = c.front ++ replicate (c.roundedHdrSize - c.hdrSize) 0 ++
      segmentBytes c.segments := rfl

theorem laidOut_contents (few : c.segments.length < 65535)
    (aligned : ∀ seg ∈ c.segments, seg.bytes.length % 4096 = 0)
    (room : c.roundedHdrSize + totalSize c.segments < 2 ^ 31)
    (written : corefileWrite c = .ok c.contents) : LaidOut c c.contents := by
  have notesRoom : 164 * c.threads.length + 280 < 2 ^ 31 := by
    have := (hdrSize_le c).1
    rw [hdrSize] at this
    omega
  refine ⟨?_, ?_, ?_, ?_⟩
  · rw [contents]
    simp only [append_assoc]
    exact read_append _ _ _
  · have found := @contents_header c 0 c.notesHeader rfl
    have offset : c.notesHeader.pOffset.toNat = 52 + 32 * (1 + c.segments.length) := by
      change (52 + 32 * ((1 + c.segments.length) % 2 ^ 16) % 2 ^ 32) % 2 ^ 32 = _
      omega
    have filesz : c.notesHeader.pFilesz.toNat = 164 * c.threads.length + 280 := by
      change (UInt32.ofNat (164 * c.threads.length + 280)).toNat = _
      rw [toNat_ofNat', Nat.mod_eq_of_lt (by omega)]
    simp only [found]
    refine ⟨rfl, ?_⟩
    rw [offset, filesz]
    exact contents_notes c
  · intro index seg found
    have place := totalSize_take_le c.segments index
    have pages : totalSize (c.segments.take index) % 4096 = 0 :=
      totalSize_mod fun other member => aligned other (mem_of_mem_take member)
    have header := @contents_header c (index + 1) _ (segmentHeaders_getElem? found)
    have offset : (segmentHeader seg (Int32.ofNat (c.roundedHdrSize +
        totalSize (c.segments.take index)))).pOffset.toNat =
        c.roundedHdrSize + totalSize (c.segments.take index) := by
      rw [segmentHeader, Int32.toUInt32_ofNat', toNat_ofNat', Nat.mod_eq_of_lt (by omega)]
    have filesz : (segmentHeader seg (Int32.ofNat (c.roundedHdrSize +
        totalSize (c.segments.take index)))).pFilesz.toNat = seg.bytes.length := by
      have bounded := seg.bounded
      change (Int32.ofNat seg.bytes.length).toUInt32.toNat = _
      rw [Int32.toUInt32_ofNat', toNat_ofNat', Nat.mod_eq_of_lt (by omega)]
    simp only [header]
    refine ⟨rfl, rfl, ?_, filesz, ?_⟩
    · rw [offset, roundedHdrSize]
      omega
    · rw [offset, filesz, contents_eq, ← drop_drop, drop_left' (length_padded c)]
      exact segmentBytes_extract found
  · refine ⟨_, corefileComputeSize_eq written, ?_⟩
    rw [toNat_ofNat', Nat.mod_eq_of_lt]
    rw [contents_eq, length_append, length_padded, length_segmentBytes]
    omega

/-- A core file is written and laid out as its headers say, if and only if the address of the
boot block is set, no segment is empty, the headers do not end at a page boundary, and the
whole file is shorter than 2^31 bytes. -/
theorem corefile_laid_out_iff (c : CoreFile) (few : c.segments.length < 65535)
    (aligned : ∀ seg ∈ c.segments, seg.bytes.length % 4096 = 0) :
    (∃ file, corefileWrite c = .ok file ∧ LaidOut c file) ↔
      c.corenoteZoog.bootblockAddr ≠ 0 ∧ c.hdrSize % 4096 ≠ 0 ∧
        (∀ seg ∈ c.segments, seg.bytes ≠ []) ∧
        c.roundedHdrSize + totalSize c.segments < 2 ^ 31 := by
  constructor
  · rintro ⟨file, written, -⟩
    obtain ⟨boot, pad, all, room, -⟩ := (corefileWrite_eq_ok_iff few aligned).mp written
    exact ⟨boot, pad, all, room⟩
  · rintro ⟨boot, pad, all, room⟩
    have written := (corefileWrite_eq_ok_iff few aligned).mpr ⟨boot, pad, all, room, rfl⟩
    exact ⟨_, written, laidOut_contents few aligned room written⟩

/-- A segment of one page. -/
def onePage : CoreSegment :=
  ⟨0x8000000, List.replicate 4096 7, by rw [List.length_replicate]; decide⟩

/-- A process with some threads and segments. -/
def process (threads : Nat) (segments : List CoreSegment) : CoreFile where
  threads := List.replicate threads
    ⟨⟨5, 144, 1, zeros 8⟩, zeros 24, 17, 0x101, 0x102, 0x103, zeros 32, zeros 68, zeros 4⟩
  segments := segments
  corenoteZoog := ⟨⟨5, 260, 0x20092009, zeros 8⟩, 0x10000, zeros 256⟩

/-- A process with one thread and one page. -/
theorem corefile_one_page_laid_out : ∃ file, corefileWrite (process 1 [onePage]) = .ok file ∧
      LaidOut (process 1 [onePage]) file := by
  exact (corefile_laid_out_iff (process 1 [onePage]) (by decide) (by decide +kernel)).mpr
    ⟨by decide, by decide, by decide +kernel, by decide +kernel⟩

/-- Neither a segment without bytes nor headers that fill their pages can be written. -/
theorem corefile_empty_write_refused :
    (¬∃ file, corefileWrite (process 1 [⟨0x8000000, [], by decide⟩]) = .ok file) ∧
      ¬∃ file, corefileWrite (process 5 (List.replicate 91 onePage)) = .ok file := by
  constructor
  · rintro ⟨file, written⟩
    obtain ⟨-, -, all, -⟩ := (corefileWrite_eq_ok_iff (by decide) (by decide)).mp written
    exact all _ mem_cons_self rfl
  · rintro ⟨file, written⟩
    obtain ⟨-, pad, -⟩ := (corefileWrite_eq_ok_iff (by decide) (by decide +kernel)).mp written
    exact pad (by decide)

end Embassies.Core
