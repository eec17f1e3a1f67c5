import Embassies.Library.Checked
import Embassies.Library.Format

/-!
# Core files

`corefile_write_custom` writes the threads and the memory of a process as an ELF core file.
It computes in advance how long the headers are, writes a header for each segment with the
offset that the segment will have, then a note for each thread and one for the debugger, then
zeros up to the next page, and then the segments.  It is run with a pair of callbacks: on a
file, or to count how long the file would be.

The program is for a machine with `int`, `long` and pointers of 32 bits, so `ftell` cannot
tell a position of 2^31 or more.
-/

namespace Embassies.Core

open Library Library.Checked

/-- What a run of the code must never do. -/
inductive Fault where
  /-- A `lite_assert` whose condition is false. -/
  | assertion
deriving DecidableEq

/-- An array of bytes in a struct. -/
abbrev Bytes (count : Nat) := { bytes : List UInt8 // bytes.length = count }

theorem length_zeros (count : Nat) : (List.replicate count (0 : UInt8)).length = count :=
  List.length_replicate

/-- Zeros, as after `lite_memset`. -/
def zeros (count : Nat) : Bytes count := ⟨List.replicate count 0, length_zeros count⟩

/-! ## Structs -/

/-- `Elf32_Ehdr`. -/
structure Elf32Ehdr where
  eIdent : Bytes 16
  eType : UInt16
  eMachine : UInt16
  eVersion : UInt32
  eEntry : UInt32
  ePhoff : UInt32
  eShoff : UInt32
  eFlags : UInt32
  eEhsize : UInt16
  ePhentsize : UInt16
  ePhnum : UInt16
  eShentsize : UInt16
  eShnum : UInt16
  eShstrndx : UInt16

/-- The layout of an ELF header. -/
def Elf32Ehdr.format : Format Elf32Ehdr :=
  ((Format.bytes 16).pair <| Format.host16.pair <| Format.host16.pair <|
    Format.host32.pair <| Format.host32.pair <| Format.host32.pair <| Format.host32.pair <|
    Format.host32.pair <| Format.host16.pair <| Format.host16.pair <| Format.host16.pair <|
    Format.host16.pair <| Format.host16.pair Format.host16).rename
    ⟨fun ehdr => (ehdr.eIdent, ehdr.eType, ehdr.eMachine, ehdr.eVersion, ehdr.eEntry,
        ehdr.ePhoff, ehdr.eShoff, ehdr.eFlags, ehdr.eEhsize, ehdr.ePhentsize, ehdr.ePhnum,
        ehdr.eShentsize, ehdr.eShnum, ehdr.eShstrndx),
      fun ⟨eIdent, eType, eMachine, eVersion, eEntry, ePhoff, eShoff, eFlags, eEhsize,
        ePhentsize, ePhnum, eShentsize, eShnum, eShstrndx⟩ =>
        ⟨eIdent, eType, eMachine, eVersion, eEntry, ePhoff, eShoff, eFlags, eEhsize,
          ePhentsize, ePhnum, eShentsize, eShnum, eShstrndx⟩,
      fun _ => rfl, fun _ => rfl⟩

/-- `Elf32_Phdr`. -/
structure Elf32Phdr where
  pType : UInt32
  pOffset : UInt32
  pVaddr : UInt32
  pPaddr : UInt32
  pFilesz : UInt32
  pMemsz : UInt32
  pFlags : UInt32
  pAlign : UInt32

/-- The layout of a program header. -/
def Elf32Phdr.format : Format Elf32Phdr :=
  (Format.host32.pair <| Format.host32.pair <| Format.host32.pair <| Format.host32.pair <|
    Format.host32.pair <| Format.host32.pair <| Format.host32.pair Format.host32).rename
    ⟨fun phdr => (phdr.pType, phdr.pOffset, phdr.pVaddr, phdr.pPaddr, phdr.pFilesz,
        phdr.pMemsz, phdr.pFlags, phdr.pAlign),
      fun ⟨pType, pOffset, pVaddr, pPaddr, pFilesz, pMemsz, pFlags, pAlign⟩ =>
        ⟨pType, pOffset, pVaddr, pPaddr, pFilesz, pMemsz, pFlags, pAlign⟩,
      fun _ => rfl, fun _ => rfl⟩

/-- `NoteHeader`. -/
structure NoteHeader where
  nNamesz : UInt32
  nDescsz : UInt32
  nType : UInt32
  name : Bytes 8

/-- The layout of the header of a note. -/
def NoteHeader.format : Format NoteHeader :=
  (Format.host32.pair <| Format.host32.pair <| Format.host32.pair (Format.bytes 8)).rename
    ⟨fun note => (note.nNamesz, note.nDescsz, note.nType, note.name),
      fun ⟨nNamesz, nDescsz, nType, name⟩ => ⟨nNamesz, nDescsz, nType, name⟩,
      fun _ => rfl, fun _ => rfl⟩

/-- `Core_x86_registers`, as they lie in memory. -/
abbrev CoreX86Registers := Bytes 68

/-- `CoreNote_Regs`, with its `CoreNote_desc`. -/
structure CoreNoteRegs where
  note : NoteHeader
  unknown0 : Bytes 24
  pid : UInt32
  ppid : UInt32
  pgrp : UInt32
  sid : UInt32
  unknown1 : Bytes 32
  regs : CoreX86Registers
  unknown2 : Bytes 4

/-- The layout of the note of a thread. -/
def CoreNoteRegs.format : Format CoreNoteRegs :=
  (NoteHeader.format.pair <| (Format.bytes 24).pair <| Format.host32.pair <|
    Format.host32.pair <| Format.host32.pair <| Format.host32.pair <|
    (Format.bytes 32).pair <| (Format.bytes 68).pair (Format.bytes 4)).rename
    ⟨fun note => (note.note, note.unknown0, note.pid, note.ppid, note.pgrp, note.sid,
        note.unknown1, note.regs, note.unknown2),
      fun ⟨note, unknown0, pid, ppid, pgrp, sid, unknown1, regs, unknown2⟩ =>
        ⟨note, unknown0, pid, ppid, pgrp, sid, unknown1, regs, unknown2⟩,
      fun _ => rfl, fun _ => rfl⟩

/-- `CoreNote_Zoog`. -/
structure CoreNoteZoog where
  note : NoteHeader
  bootblockAddr : UInt32
  bootblockPath : Bytes 256

/-- The layout of the note for the debugger. -/
def CoreNoteZoog.format : Format CoreNoteZoog :=
  (NoteHeader.format.pair <| Format.host32.pair (Format.bytes 256)).rename
    ⟨fun note => (note.note, note.bootblockAddr, note.bootblockPath),
      fun ⟨note, bootblockAddr, bootblockPath⟩ => ⟨note, bootblockAddr, bootblockPath⟩,
      fun _ => rfl, fun _ => rfl⟩

/-- `CoreSegment`; its size is an `int`. -/
structure CoreSegment where
  vaddr : UInt32
  bytes : List UInt8
  bounded : bytes.length < 2 ^ 31

/-- `size`. -/
def CoreSegment.size (seg : CoreSegment) : Int32 := Int32.ofNat seg.bytes.length

/-- `CoreFile`. -/
structure CoreFile where
  threads : List CoreNoteRegs
  segments : List CoreSegment
  corenoteZoog : CoreNoteZoog

/-! ## Writing -/

/-- The callbacks of `corefile_write_custom`. -/
structure Callbacks (σ : Type) where
  writeFunc : σ → List UInt8 → σ × Bool
  ftellFunc : Option (σ → Int32)

section Write

variable {σ : Type} (callbacks : Callbacks σ)

/-- A write that has to succeed. -/
def write (file : σ) (bytes : List UInt8) : Except Fault σ := do
  let (file, rc) := callbacks.writeFunc file bytes
  ensure (rc = true) .assertion
  return file

/-- The position of the file is compared with the one that was computed. -/
def checkPosition (file : σ) (offset : Int32) : Except Fault Unit :=
  match callbacks.ftellFunc with
  | none => .ok ()
  | some ftell => ensure (offset = ftell file) .assertion

/-- The header of a file with so many segments. -/
def elfHeader (segments : Nat) : Elf32Ehdr where
  eIdent := ⟨[0x7f, 0x45, 0x4c, 0x46, 1, 1, 1, 0, 0, 0, 0, 0, 0, 0, 0, 0], rfl⟩
  eType := 4
  eMachine := 3
  eVersion := 1
  eEntry := 0
  ePhoff := 52
  eShoff := 0
  eFlags := 0
  eEhsize := 52
  ePhentsize := 32
  ePhnum := UInt16.ofNat (1 + segments)
  eShentsize := 0
  eShnum := 0
  eShstrndx := 0

/-- `PT_NOTE`. -/
def ptNote : UInt32 := 4

/-- `PT_LOAD`. -/
def ptLoad : UInt32 := 1

/-- The program header of the notes. -/
def noteHeader (hdrOffset : Int32) (phnum : UInt16) (notesSize : UInt32) : Elf32Phdr where
  pType := ptNote
  pOffset := hdrOffset.toUInt32 + 32 * phnum.toUInt32
  pVaddr := 0
  pPaddr := 0
  pFilesz := notesSize
  pMemsz := 0
  pFlags := 0
  pAlign := 0

/-- The program header of a segment. -/
def segmentHeader (seg : CoreSegment) (segFileOffset : Int32) : Elf32Phdr where
  pType := ptLoad
  pOffset := segFileOffset.toUInt32
  pVaddr := seg.vaddr
  pPaddr := 0
  pFilesz := seg.size.toUInt32
  pMemsz := seg.size.toUInt32
  pFlags := 7
  pAlign := 0x1000

/-- A round of the loop that writes the headers of the segments; the state has `hdr_offset`
and `seg_file_offset`. -/
def writeHeader (state : σ × Int32 × Int32) (seg : CoreSegment) :
    Except Fault (σ × Int32 × Int32) := do
  let (file, hdrOffset, segFileOffset) := state
  ensure (seg.size &&& 0xfff = 0) .assertion
  let phdr := segmentHeader seg segFileOffset
  let file ← write callbacks file (Elf32Phdr.format.encode phdr)
  let hdrOffset := hdrOffset + 32
  let segFileOffset := segFileOffset + phdr.pFilesz.toInt32
  checkPosition callbacks file hdrOffset
  return (file, hdrOffset, segFileOffset)

/-- A round of the loop that writes the notes of the threads. -/
def writeNote (file : σ) (note : CoreNoteRegs) : Except Fault σ :=
  write callbacks file (CoreNoteRegs.format.encode note)

/-- A round of the loop that writes the segments; the state has `seg_file_offset`. -/
def writeSegment (state : σ × Int32) (seg : CoreSegment) : Except Fault (σ × Int32) := do
  let (file, segFileOffset) := state
  let file ← write callbacks file seg.bytes
  let segFileOffset := segFileOffset + seg.size
  checkPosition callbacks file segFileOffset
  return (file, segFileOffset)

/-- `corefile_write_custom`. -/
def corefileWriteCustom (c : CoreFile) (file : σ) : Except Fault σ := do
  let threadNotesSize : Int32 := (UInt32.ofNat c.threads.length * 164).toInt32
  let hdrSize : Int32 := (52 + 32 + 32 * UInt32.ofNat c.segments.length +
    threadNotesSize.toUInt32 + 280).toInt32
  let roundedHdrSize := (hdrSize + 0xfff) &&& ~~~0xfff
  let padSize := roundedHdrSize - hdrSize
  let ehdr := elfHeader c.segments.length
  let file ← write callbacks file (Elf32Ehdr.format.encode ehdr)
  let hdrOffset : Int32 := 52
  ensure (c.corenoteZoog.bootblockAddr ≠ 0) .assertion
  let phdr := noteHeader hdrOffset ehdr.ePhnum (threadNotesSize.toUInt32 + 280)
  let file ← write callbacks file (Elf32Phdr.format.encode phdr)
  let hdrOffset := hdrOffset + 32
  let (file, _, _) ← c.segments.foldlM (writeHeader callbacks)
    (file, hdrOffset, roundedHdrSize)
  let file ← c.threads.foldlM (writeNote callbacks) file
  let file ← write callbacks file (CoreNoteZoog.format.encode c.corenoteZoog)
  ensure (padSize ≥ 0) .assertion
  ensure (padSize < 0x1000) .assertion
  let file ← write callbacks file (List.replicate padSize.toInt.toNat 0)
  checkPosition callbacks file roundedHdrSize
  let (file, _) ← c.segments.foldlM (writeSegment callbacks) (file, roundedHdrSize)
  return file

end Write

/-- `_corefile_fwrite_callback` and `_corefile_ftell_callback`.  `fwrite` returns the number
of items that it wrote, which is 0 for items of size 0. -/
def fileCallbacks : Callbacks (List UInt8) where
  writeFunc file bytes := (file ++ bytes, bytes ≠ [])
  ftellFunc := some fun file => if file.length < 2 ^ 31 then Int32.ofNat file.length else -1

/-- `_corefile_size_counter_cb`. -/
def sizeCallbacks : Callbacks UInt32 where
  writeFunc total bytes := (total + UInt32.ofNat bytes.length, true)
  ftellFunc := none

/-- `corefile_write`, to an empty file. -/
def corefileWrite (c : CoreFile) : Except Fault (List UInt8) :=
  corefileWriteCustom fileCallbacks c []

/-- `corefile_compute_size`. -/
def corefileComputeSize (c : CoreFile) : Except Fault UInt32 :=
  corefileWriteCustom sizeCallbacks c 0

end Embassies.Core
