import Embassies.Zarfile.Emission
import Embassies.Zarfile.TraceRecord

/-!
# Mappings of files

Without a fast mapping `xi_mmap64` reads the file into memory: fresh memory of the host, or what
is at the given address already.  It writes the bytes that the file has and no others, and
relies on zeros behind them.  A file of a zarfile can be read only as far as no fast mapping has
taken its chunks.
-/

namespace Embassies.LinuxElf

open Library.Checked Zarfile List UInt32

/-- The memory of a process, and where its host puts fresh memory: on pages of zeros. -/
structure MappingHost where
  memory : Nat → UInt8
  mmap : Nat → Nat
  aligned : ∀ length, mmap length % 4096 = 0
  zeros : ∀ length, ∀ i < length, memory (mmap length + i) = 0

/-- The class of a handle; that of a file in a zarfile has the chunk headers that are left. -/
inductive HandleClass where
  | zlcHandle
  | zlcZcbHandle
  | zarfileHandle (archive : UInt32 → UInt32 → List UInt8) (chdrs : List ZFChdr)
  | xrFileNodeHandle
  | keyValFSHandle

/-- An open file.  The lengths are `uint32_t` in every class, and what the chunks of a zarfile
hold are bytes of the file. -/
structure FileHandle where
  content : List UInt8
  isStream : Bool
  isDir : Bool
  fastMmap : Nat → Nat → Option Nat
  kind : HandleClass
  small : content.length < 2 ^ 32
  chunks : ∀ archive chdrs, kind = .zarfileHandle archive chdrs →
    (handleDecoder (UInt32.ofNat content.length) archive chdrs).Serves chdrs
      fun place len bytes => bytes = slice content place len

/-- What stops `xi_mmap64`: an error code explodes in an assertion of its own. -/
inductive MmapStop where
  | assertion
  | ebadf
  | einval

/-- `lite_memcpy` and `lite_memset`. -/
def copyTo (memory : Nat → UInt8) (dst len : Nat) (src : Nat → UInt8) (address : Nat) : UInt8 :=
  if dst ≤ address ∧ address < dst + len then src (address - dst) else memory address

/-- The bytes that a handle gives: `_internal_read` of the three classes of `ZFTPDecoder`, and
`read` of the others. -/
def FileHandle.internalRead (hdl : FileHandle) (count offset : UInt32) :
    Except MmapStop (List UInt8) :=
  let fileLen := UInt32.ofNat hdl.content.length
  let bytes := slice hdl.content offset.toNat count.toNat
  match hdl.kind with
  | .zlcHandle => do
    ensure (offset ≤ fileLen) .assertion
    ensure (offset + count ≤ fileLen) .assertion
    return bytes
  | .zlcZcbHandle => do
    ensure (offset < fileLen) .assertion
    ensure (offset + count ≤ fileLen) .assertion
    return bytes
  | .zarfileHandle archive chdrs =>
    (Zarfile.internalRead fileLen archive chdrs count offset).mapError fun _ => .assertion
  | .xrFileNodeHandle => do
    ensure (count ≤ fileLen - offset) .assertion
    return bytes
  | .keyValFSHandle => do
    ensure (count.toNat + offset.toNat ≤ fileLen.toNat) .assertion
    return bytes

/-- `ZFTPDecoder::read` to `dst`; the handles of other classes are no directories. -/
def FileHandle.read (hdl : FileHandle) (memory : Nat → UInt8) (dst : Nat) (len offset : UInt32) :
    Except MmapStop (Nat → UInt8) := do
  ensure (hdl.isDir = false) .ebadf
  let bytes ← hdl.internalRead len offset
  return copyTo memory dst len.toNat fun i => bytes.getD i 0

/-- The branch of `xi_mmap64` for a file; `addr` is zero unless the address is fixed. -/
def FileHandle.mmap (host : MappingHost) (hdl : FileHandle) (addr len offsetInPages : Nat) :
    Except MmapStop (Nat × (Nat → UInt8)) := do
  let offset := offsetInPages * 4096 % 2 ^ 32
  ensure (offset / 4096 = offsetInPages) .assertion
  ensure (hdl.isStream = false) .einval
  let fileAvailLen := min len ((hdl.content.length + 2 ^ 64 - offset) % 2 ^ 64)
  let mmapLen := ((len + (2 ^ 32 - 1)) % 2 ^ 32 / 4096 * 4096 + 4096) % 2 ^ 32
  match if addr = 0 then hdl.fastMmap mmapLen offset else none with
  | some region => return (region, host.memory)
  | none =>
    let region := if addr = 0 then host.mmap mmapLen else addr
    let memory ← hdl.read host.memory region (UInt32.ofNat fileAvailLen) (UInt32.ofNat offset)
    return (region, memory)

/-- The region and the memory afterwards. -/
def xiMmap64 (host : MappingHost) (lookup : Int → Option FileHandle) (addr len : Nat)
    (fixed : Bool) (fd : Int) (offsetInPages : Nat) :
    Except MmapStop (Nat × (Nat → UInt8)) := do
  let addr := if fixed then addr else 0
  let mapped ← (if 0 ≤ fd then
      match lookup fd with
      | none => .error .ebadf
      | some hdl => hdl.mmap host addr len offsetInPages
    else if addr = 0 then return (host.mmap len, host.memory)
    else return (addr, copyTo host.memory addr len fun _ => 0))
  ensure (addr = 0 ∨ addr = mapped.1) .assertion
  ensure (mapped.1 % 4096 = 0) .assertion
  return mapped

def wholePages (len : Nat) : Nat := (len + 4095) / 4096 * 4096

/-- How many bytes of the file lie in the mapping. -/
def FileHandle.shown (hdl : FileHandle) (len offset : Nat) : Nat :=
  min len (hdl.content.length - offset)

/-- The region has the bytes of the file from `offset` on and zeros to the end of its pages. -/
def ShowsFile (hdl : FileHandle) (len offset : Nat)
    (mapped : Except MmapStop (Nat × (Nat → UInt8))) : Prop :=
  ∃ region memory, mapped = .ok (region, memory) ∧ ∀ i < wholePages len,
    memory (region + i) = if i < hdl.shown len offset then hdl.content.getD (offset + i) 0 else 0

/-- In a zarfile, every byte of a range of the file lies in a chunk that is left. -/
def FileHandle.Held (hdl : FileHandle) (low high : Nat) : Prop :=
  ∀ archive chdrs, hdl.kind = .zarfileHandle archive chdrs → Covered chdrs low high

section Regular

variable {host : MappingHost} {hdl : FileHandle} {len offset offsetInPages : Nat}

theorem showsFile_copyTo_iff {offset region : Nat} {memory : Nat → UInt8} :
    ShowsFile hdl len offset (.ok (region, copyTo memory region (hdl.shown len offset)
        fun i => (slice hdl.content offset (hdl.shown len offset)).getD i 0)) ↔
      ∀ i < wholePages len, hdl.shown len offset ≤ i → memory (region + i) = 0 := by
  constructor
  · rintro ⟨_, _, ⟨⟩, shows⟩ i inside behind
    have value := shows i inside
    rwa [copyTo, if_neg (by omega), if_neg (by omega)] at value
  · intro zeros
    refine ⟨_, _, rfl, fun i inside => ?_⟩
    by_cases before : i < hdl.shown len offset
    · rw [copyTo, if_pos (by omega), if_pos before, Nat.add_sub_cancel_left, slice,
        getD_eq_getElem?_getD, getElem?_take_of_lt before, getElem?_drop, getD_eq_getElem?_getD]
    · rw [copyTo, if_neg (by omega), if_neg before]
      exact zeros i inside (by omega)

theorem FileHandle.internalRead_exactly {count offset : UInt32}
    (inside : offset.toNat < hdl.content.length)
    (within : offset.toNat + count.toNat ≤ hdl.content.length) :
    Exactly (hdl.internalRead count offset) (hdl.Held offset.toNat (offset.toNat + count.toNat))
      (· = slice hdl.content offset.toNat count.toNat) := by
  have length : (UInt32.ofNat hdl.content.length).toNat = hdl.content.length :=
    toNat_ofNat_of_lt' hdl.small
  have finish : (offset + count).toNat = offset.toNat + count.toNat := by
    rw [UInt32.toNat_add, Nat.mod_eq_of_lt (Nat.lt_of_le_of_lt within hdl.small)]
  have available : (UInt32.ofNat hdl.content.length - offset).toNat =
      hdl.content.length - offset.toNat := by
    rw [UInt32.toNat_sub_of_le, length]
    rw [le_iff_toNat_le, length]
    omega
  cases kind : hdl.kind with
  | zarfileHandle archive chdrs =>
    have held : hdl.Held offset.toNat (offset.toNat + count.toNat) ↔
        Covered chdrs offset.toNat (offset.toNat + count.toNat) := by
      rw [Held, kind]
      constructor
      · intro held
        exact held archive chdrs rfl
      · rintro covered _ _ ⟨⟩
        exact covered
    rw [held, internalRead, kind]
    simp only [Zarfile.internalRead]
    rcases ChunkDecoder.read_cases (hdl.chunks archive chdrs kind) (joined_slice _)
        (within.trans_eq length.symm) (Nat.lt_succ_self _) with
      ⟨covered, _, read, rfl⟩ | ⟨uncovered, fails⟩
    · rw [read]
      exact ⟨covered, rfl⟩
    · rw [fails]
      exact uncovered
  | zlcHandle | zlcZcbHandle =>
    simp only [internalRead, kind, le_iff_toNat_le, lt_iff_toNat_lt, length, finish]
    rw [ensure_true (by omega), ok_bind, ensure_true within]
    exact ⟨by simp [Held, kind], rfl⟩
  | xrFileNodeHandle | keyValFSHandle =>
    simp only [internalRead, kind, le_iff_toNat_le, length, available]
    rw [ensure_true (by omega)]
    exact ⟨by simp [Held, kind], rfl⟩

variable (file : hdl.isStream = false ∧ hdl.isDir = false)
  (positive : 1 ≤ len) (small : wholePages len < 2 ^ 31)
  (inside : offsetInPages * 4096 < hdl.content.length)

include file positive small inside

theorem FileHandle.mmap_exactly {addr : Nat}
    (slow : addr = 0 → hdl.fastMmap (wholePages len) (offsetInPages * 4096) = none) :
    let offset := offsetInPages * 4096
    let region := if addr = 0 then host.mmap (wholePages len) else addr
    Exactly (hdl.mmap host addr len offsetInPages) (hdl.Held offset (offset + hdl.shown len offset))
      (· = (region, copyTo host.memory region (hdl.shown len offset)
        fun i => (slice hdl.content offset (hdl.shown len offset)).getD i 0)) := by
  intro offset region
  have bound := hdl.small
  have rounded : ((len + (2 ^ 32 - 1)) % 2 ^ 32 / 4096 * 4096 + 4096) % 2 ^ 32 =
      wholePages len := by
    unfold wholePages at *
    omega
  have available : min len ((hdl.content.length + 2 ^ 64 - offset) % 2 ^ 64) =
      hdl.shown len offset := by
    unfold shown
    omega
  have low : offsetInPages * 4096 % 2 ^ 32 = offset := Nat.mod_eq_of_lt (by omega)
  have pages : offset / 4096 = offsetInPages := Nat.mul_div_cancel _ (by decide)
  have fast : (if addr = 0 then hdl.fastMmap (wholePages len) offset else none) = none := by
    split
    · exact slow ‹_›
    · rfl
  have offsetWord : (UInt32.ofNat offset).toNat = offset := toNat_ofNat_of_lt' (by
    rw [UInt32.size]
    omega)
  have shownWord : (UInt32.ofNat (hdl.shown len offset)).toNat = hdl.shown len offset :=
    toNat_ofNat_of_lt' (by rw [UInt32.size]; omega)
  have reads := @internalRead_exactly hdl (UInt32.ofNat (hdl.shown len offset))
    (UInt32.ofNat offset) (by omega) (by omega)
  rw [offsetWord, shownWord] at reads
  rw [mmap, low, ensure_true pages, ok_bind, ensure_true file.1, ok_bind]
  simp only [read, rounded, available, fast, ensure_true file.2, ok_bind, shownWord, bind_assoc]
  refine (reads.bind fun bytes same => ?_).congr (iff_of_eq (and_true _))
  rw [same]
  exact ⟨trivial, rfl⟩

end Regular

/-- Two pages of sevens, and fresh memory behind them. -/
def usedHost : MappingHost where
  memory address := if address < 8192 then 7 else 0
  mmap _ := 8192
  aligned _ := rfl
  zeros _ _ _ := if_neg (by omega)

/-- A file of three bytes that has been fetched by its blocks. -/
def fetchedFile : FileHandle :=
  ⟨[5, 6, 7], false, false, fun _ _ => none, .zlcHandle, by decide, nofun⟩

end Embassies.LinuxElf
