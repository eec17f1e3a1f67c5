import Embassies.Crypto.Memory
import Embassies.Library.Format

/-!
# Byte streams

A `ByteStream` is a buffer with a position.  Numbers are written and read in network
order at the position, which then moves behind them.  An access that does not fit into
the rest of the buffer is refused with an exception.

The operators for numbers of thirty-two bits convert with the function for sixteen bits,
so only the lower half of such a number is stored.
-/

namespace Embassies.Crypto

open Library Library.Buffer Library.Checked List UInt32

/-- `ByteStream`. -/
@[ext]
structure ByteStream where
  buffer : List UInt8
  pos : UInt32
  nonempty : buffer ≠ []
  sized : buffer.length < 2 ^ 32

/-- `z_htons` and `z_ntohs`. -/
def zHtons (input : UInt16) : UInt16 := input <<< 8 ||| input >>> 8

namespace ByteStream

/-- An access to a stream, which ends in some state even when it throws. -/
abbrev Access (α : Type) := EStateM Halt ByteStream α

/-- `ByteStream::ByteStream`. -/
def ofBuffer (buffer : List UInt8) (sized : buffer.length < 2 ^ 32) :
    Except Halt ByteStream :=
  if nonempty : buffer = [] then
    .error (.badInput "Tried to create an empty ByteStream")
  else
    .ok ⟨buffer, 0, nonempty, sized⟩

/-- `size`. -/
def size (stream : ByteStream) : UInt32 := UInt32.ofNat stream.buffer.length

/-- The exception for an access behind the end. -/
def pastTheEnd : Halt :=
  .thrown ⟨.bufferOverflow, "Tried to read or write past the end of a ByteStream!"⟩

/-- `assertBytesRemaining`. -/
def assertBytesRemaining (numBytes : UInt32) : Access Unit := do
  let stream ← get
  if stream.pos + numBytes < stream.pos ∨ stream.pos + numBytes < numBytes then
    throw (.thrown ⟨.integerOverflow, "Overflow while checking on a ByteStream!"⟩)
  else if stream.pos + numBytes > stream.size then
    throw pastTheEnd
  else
    return ()

/-- `assertInBounds`. -/
def assertInBounds (stream : ByteStream) (index : UInt32) : Except Halt Unit :=
  ensure (¬ index ≥ stream.size) pastTheEnd

/-- `operator[]`, for reading. -/
def byteAt (stream : ByteStream) (index : UInt32) : Except Halt UInt8 := do
  stream.assertInBounds index
  Format.uint8.load (.fault .outOfBoundsRead) stream.buffer index.toNat

/-- The stream with other bytes at its position. -/
def patched (stream : ByteStream) (bytes : List UInt8)
    (inside : stream.pos.toNat + bytes.length ≤ stream.buffer.length) : ByteStream where
  buffer := patch stream.buffer stream.pos.toNat bytes
  pos := stream.pos
  nonempty := by
    rw [← List.length_pos_iff, patch_length inside, List.length_pos_iff]
    exact stream.nonempty
  sized := by
    rw [patch_length inside]
    exact stream.sized

/-- Bytes are stored at the position. -/
def store (bytes : List UInt8) : Access Unit := do
  let stream ← get
  if inside : stream.pos.toNat + bytes.length ≤ stream.buffer.length then
    set (stream.patched bytes inside)
  else
    throw (.fault .outOfBoundsWrite)

/-- The position moves on. -/
def advance (count : UInt32) : Access Unit :=
  modify fun stream => { stream with pos := stream.pos + count }

section Operators

variable {α : Type} (format : Format α)

/-- The body that the operators `<<` share. -/
def put (value : α) : Access Unit := do
  assertBytesRemaining (UInt32.ofNat format.size)
  store (format.encode value)
  advance (UInt32.ofNat format.size)

/-- The body that the operators `>>` share. -/
def take : Access α := do
  assertBytesRemaining (UInt32.ofNat format.size)
  let stream ← get
  match format.load (Halt.fault .outOfBoundsRead) stream.buffer stream.pos.toNat with
  | .ok value => do
    advance (UInt32.ofNat format.size)
    return value
  | .error reason => throw reason

end Operators

/-- A number that a stream holds. -/
inductive Value where
  | uint8 (value : UInt8)
  | uint16 (value : UInt16)
  | uint32 (value : UInt32)
deriving DecidableEq

/-- The type of a number. -/
inductive Width where
  | uint8
  | uint16
  | uint32
deriving DecidableEq

/-- The type of a number that is written. -/
def Value.width : Value → Width
  | .uint8 _ => .uint8
  | .uint16 _ => .uint16
  | .uint32 _ => .uint32

/-- How many bytes a number takes. -/
def Width.size : Width → Nat
  | .uint8 => 1
  | .uint16 => 2
  | .uint32 => 4

theorem Width.size_pos (width : Width) : 0 < width.size := by
  cases width <;> decide

/-- `operator<<`.  The value of thirty-two bits is passed on as one of sixteen. -/
def write : Value → Access Unit
  | .uint8 value => put Format.uint8 value
  | .uint16 value => put Format.host16 (zHtons value)
  | .uint32 value => put Format.host32 (zHtons value.toUInt16).toUInt32

/-- `operator>>`.  The value of thirty-two bits is passed on as one of sixteen. -/
def read : Width → Access Value
  | .uint8 => do
    let value ← take Format.uint8
    return .uint8 value
  | .uint16 => do
    let value ← take Format.host16
    return .uint16 (zHtons value)
  | .uint32 => do
    let value ← take Format.host32
    return .uint32 (zHtons value.toUInt16).toUInt32

/-- Numbers are written one after the other. -/
def writeAll : List Value → Access Unit
  | [] => return ()
  | value :: values => do
    write value
    writeAll values

/-- Numbers are read one after the other. -/
def readAll : List Width → Access (List Value)
  | [] => return []
  | width :: widths => do
    let value ← read width
    let values ← readAll widths
    return value :: values

/-! ## One access -/

section One

variable {α β : Type} {stream after : ByteStream} (format : Format α)

theorem run_bind_of_ok {access : Access α} {next : α → Access β} {value : α}
    (done : access.run stream = .ok value after) :
    (access >>= next).run stream = (next value).run after := by
  rw [EStateM.run_bind, done]

theorem run_bind_of_error {access : Access α} {next : α → Access β} {reason : Halt}
    (halted : access.run stream = .error reason after) :
    (access >>= next).run stream = .error reason after := by
  rw [EStateM.run_bind, halted]

theorem run_get_bind {next : ByteStream → Access β} :
    ((get : Access ByteStream) >>= next).run stream = (next stream).run stream :=
  rfl

/-- The stream with its position moved on. -/
def moved (stream : ByteStream) (count : Nat) : ByteStream :=
  { stream with pos := stream.pos + UInt32.ofNat count }

theorem size_toNat (stream : ByteStream) : stream.size.toNat = stream.buffer.length := by
  rw [size, toNat_ofNat', Nat.mod_eq_of_lt stream.sized]

variable {count : Nat}

theorem moved_pos (inside : stream.pos.toNat + count ≤ stream.buffer.length) :
    (stream.moved count).pos.toNat = stream.pos.toNat + count := by
  have sized := stream.sized
  rw [moved, UInt32.toNat_add, toNat_ofNat']
  omega

theorem assertBytesRemaining_cases (stream : ByteStream) (numBytes : UInt32) :
    stream.pos.toNat + numBytes.toNat ≤ stream.buffer.length ∧
        (assertBytesRemaining numBytes).run stream = .ok () stream ∨
      stream.buffer.length < stream.pos.toNat + numBytes.toNat ∧
        ∃ exception, (assertBytesRemaining numBytes).run stream =
          .error (.thrown exception) stream := by
  have sum := UInt32.toNat_add stream.pos numBytes
  have whole := stream.size_toNat
  have sized := stream.sized
  have unfolds : (assertBytesRemaining numBytes).run stream =
      if stream.pos + numBytes < stream.pos ∨ stream.pos + numBytes < numBytes then
        .error (.thrown ⟨.integerOverflow, "Overflow while checking on a ByteStream!"⟩) stream
      else if stream.pos + numBytes > stream.size then .error pastTheEnd stream
      else .ok () stream := by
    rw [assertBytesRemaining, run_get_bind]
    split
    · rfl
    · split <;> rfl
  rw [unfolds]
  by_cases wraps : stream.pos + numBytes < stream.pos ∨ stream.pos + numBytes < numBytes
  · right
    rw [if_pos wraps]
    simp only [lt_iff_toNat_lt] at wraps
    exact ⟨by omega, _, rfl⟩
  · rw [if_neg wraps]
    simp only [lt_iff_toNat_lt] at wraps
    by_cases beyond : stream.pos + numBytes > stream.size
    · right
      rw [if_pos beyond]
      rw [gt_iff_lt, lt_iff_toNat_lt] at beyond
      exact ⟨by omega, _, rfl⟩
    · left
      rw [if_neg beyond]
      rw [gt_iff_lt, lt_iff_toNat_lt] at beyond
      exact ⟨by omega, rfl⟩

theorem assertBytesRemaining_fits (inside : stream.pos.toNat + count ≤ stream.buffer.length) :
    (assertBytesRemaining (UInt32.ofNat count)).run stream = .ok () stream := by
  have sized := stream.sized
  have same : (UInt32.ofNat count).toNat = count := by
    rw [toNat_ofNat']
    omega
  rcases assertBytesRemaining_cases stream (UInt32.ofNat count) with ⟨-, done⟩ | ⟨beyond, -⟩
  · exact done
  · omega

theorem assertBytesRemaining_refuses (small : count < 2 ^ 32)
    (beyond : stream.buffer.length < stream.pos.toNat + count) :
    ∃ exception, (assertBytesRemaining (UInt32.ofNat count)).run stream =
      .error (.thrown exception) stream := by
  have same : (UInt32.ofNat count).toNat = count := by
    rw [toNat_ofNat']
    omega
  rcases assertBytesRemaining_cases stream (UInt32.ofNat count) with ⟨inside, -⟩ | ⟨-, throws⟩
  · omega
  · exact throws

theorem put_fits (value : α)
    (inside : stream.pos.toNat + (format.encode value).length ≤ stream.buffer.length) :
    (put format value).run stream =
      .ok () ((stream.patched (format.encode value) inside).moved format.size) := by
  have room := inside
  rw [format.encode_length] at room
  have stores : (store (format.encode value)).run stream =
      .ok () (stream.patched (format.encode value) inside) := by
    rw [store, run_get_bind, dif_pos inside]
    rfl
  rw [put, run_bind_of_ok (assertBytesRemaining_fits room), run_bind_of_ok stores]
  rfl

theorem put_refuses (value : α) (small : format.size < 2 ^ 32)
    (beyond : stream.buffer.length < stream.pos.toNat + format.size) :
    ∃ exception, (put format value).run stream = .error (.thrown exception) stream := by
  obtain ⟨exception, throws⟩ := assertBytesRemaining_refuses small beyond
  exact ⟨exception, run_bind_of_error throws⟩

theorem take_fits (inside : stream.pos.toNat + format.size ≤ stream.buffer.length) :
    (take format).run stream =
      .ok (format.read (stream.buffer.drop stream.pos.toNat)) (stream.moved format.size) := by
  rw [take, run_bind_of_ok (assertBytesRemaining_fits inside), run_get_bind,
    format.load_eq_ok inside]
  rfl

theorem take_refuses (small : format.size < 2 ^ 32)
    (beyond : stream.buffer.length < stream.pos.toNat + format.size) :
    ∃ exception, (take format).run stream = .error (.thrown exception) stream := by
  obtain ⟨exception, throws⟩ := assertBytesRemaining_refuses small beyond
  exact ⟨exception, run_bind_of_error throws⟩

end One

/-! ## What is stored -/

theorem zHtons_zHtons (input : UInt16) : zHtons (zHtons input) = input := by
  apply UInt16.toBitVec_inj.mp
  apply BitVec.eq_of_getLsbD_eq
  intro place inside
  have beyond : input.toBitVec.getLsbD (8 + (8 + place)) = false :=
    BitVec.getLsbD_of_ge _ _ (by omega)
  by_cases low : place < 8
  · have upper : 8 + place < 16 := by omega
    simp [zHtons, low, upper, beyond, BitVec.getLsbD_eq_getElem inside]
  · have upper : place - 8 < 8 := by omega
    have half : ¬8 + place < 16 := by omega
    have same : 8 + (place - 8) = place := by omega
    simp [zHtons, low, upper, half, same, beyond, inside]

/-- The bytes that a number is written as. -/
def Value.bytes : Value → List UInt8
  | .uint8 value => Format.uint8.encode value
  | .uint16 value => Format.host16.encode (zHtons value)
  | .uint32 value => Format.host32.encode (zHtons value.toUInt16).toUInt32

/-- What is left of a number. -/
def Value.kept : Value → Value
  | .uint32 value => .uint32 value.toUInt16.toUInt32
  | value => value

theorem Value.bytes_length (value : Value) : value.bytes.length = value.width.size := by
  cases value <;> exact Format.encode_length _ _

section Value

variable {stream : ByteStream} {value : Value}

theorem write_fits (inside : stream.pos.toNat + value.bytes.length ≤ stream.buffer.length) :
    (write value).run stream =
      .ok () ((stream.patched value.bytes inside).moved value.width.size) := by
  cases value <;> exact put_fits _ _ inside

theorem write_refuses (beyond : stream.buffer.length < stream.pos.toNat + value.width.size) :
    ∃ exception, (write value).run stream = .error (.thrown exception) stream := by
  cases value <;> exact put_refuses _ _ (by decide) beyond

theorem read_fits
    {rest : List UInt8} (found : stream.buffer.drop stream.pos.toNat = value.bytes ++ rest) :
    (read value.width).run stream = .ok value.kept (stream.moved value.width.size) := by
  have total := congrArg List.length found
  rw [length_drop, length_append, value.bytes_length] at total
  have positive := value.width.size_pos
  have inside : stream.pos.toNat + value.width.size ≤ stream.buffer.length := by omega
  cases value with
  | uint8 value =>
    have loaded := take_fits Format.uint8 inside
    rw [found, Value.bytes, Format.read_append] at loaded
    exact run_bind_of_ok loaded
  | uint16 value =>
    have loaded := take_fits Format.host16 inside
    rw [found, Value.bytes, Format.read_append] at loaded
    refine (run_bind_of_ok loaded).trans ?_
    rw [zHtons_zHtons]
    rfl
  | uint32 value =>
    have loaded := take_fits Format.host32 inside
    rw [found, Value.bytes, Format.read_append] at loaded
    refine (run_bind_of_ok loaded).trans ?_
    rw [UInt16.toUInt16_toUInt32, zHtons_zHtons]
    rfl

theorem read_refuses
    {width : Width} (beyond : stream.buffer.length < stream.pos.toNat + width.size) :
    ∃ exception, (read width).run stream = .error (.thrown exception) stream := by
  cases width with
  | uint8 =>
    obtain ⟨exception, throws⟩ := take_refuses Format.uint8 (by decide) beyond
    exact ⟨exception, run_bind_of_error throws⟩
  | uint16 =>
    obtain ⟨exception, throws⟩ := take_refuses Format.host16 (by decide) beyond
    exact ⟨exception, run_bind_of_error throws⟩
  | uint32 =>
    obtain ⟨exception, throws⟩ := take_refuses Format.host32 (by decide) beyond
    exact ⟨exception, run_bind_of_error throws⟩

end Value

/-! ## Sequences -/

/-- The bytes that numbers are written as. -/
def encodeAll (values : List Value) : List UInt8 := values.flatMap Value.bytes

theorem encodeAll_cons (value : Value) (values : List Value) :
    encodeAll (value :: values) = value.bytes ++ encodeAll values :=
  flatMap_cons

/-- The number of bytes that numbers take. -/
def totalSize (values : List Value) : Nat := (values.map fun value => value.width.size).sum

theorem encodeAll_length (values : List Value) : (encodeAll values).length = totalSize values := by
  induction values with
  | nil => rfl
  | cons value values induction =>
    rw [encodeAll_cons, length_append, value.bytes_length, induction]
    rfl

theorem writeAll_fits {stream : ByteStream} {values : List Value}
    (inside : stream.pos.toNat + (encodeAll values).length ≤ stream.buffer.length) :
    ∃ after, (writeAll values).run stream = .ok () after ∧
      after.buffer = patch stream.buffer stream.pos.toNat (encodeAll values) := by
  induction values generalizing stream with
  | nil => exact ⟨stream, rfl, (patch_nil _ _).symm⟩
  | cons value values induction =>
    rw [encodeAll_cons, length_append] at inside
    have first : stream.pos.toNat + value.bytes.length ≤ stream.buffer.length := by omega
    have step := write_fits first
    have same : (stream.patched value.bytes first).buffer.length = stream.buffer.length :=
      patch_length first
    have place : ((stream.patched value.bytes first).moved value.width.size).pos.toNat =
        stream.pos.toNat + value.bytes.length := by
      rw [value.bytes_length, moved_pos]
      · rfl
      · rw [same, ← value.bytes_length]
        exact first
    obtain ⟨after, rest, stored⟩ :=
      @induction ((stream.patched value.bytes first).moved value.width.size) (by
        change _ ≤ (stream.patched value.bytes first).buffer.length
        omega)
    refine ⟨after, ?_, ?_⟩
    · rw [writeAll, run_bind_of_ok step]
      exact rest
    · rw [stored, place, encodeAll_cons]
      exact patch_patch_append (by omega)

theorem readAll_fits {stream : ByteStream} {values : List Value} {rest : List UInt8}
    (found : stream.buffer.drop stream.pos.toNat = encodeAll values ++ rest) :
    ∃ after, (readAll (values.map Value.width)).run stream = .ok (values.map Value.kept) after := by
  induction values generalizing stream with
  | nil => exact ⟨stream, rfl⟩
  | cons value values induction =>
    rw [encodeAll_cons, append_assoc] at found
    have step := read_fits found
    have total := congrArg List.length found
    rw [length_drop, length_append, value.bytes_length] at total
    have positive := value.width.size_pos
    have place : (stream.moved value.width.size).pos.toNat =
        stream.pos.toNat + value.width.size := moved_pos (by omega)
    obtain ⟨after, later⟩ := @induction (stream.moved value.width.size) (by
      rw [place]
      change stream.buffer.drop _ = _
      rw [← drop_drop, found, ← value.bytes_length, drop_left])
    refine ⟨after, ?_⟩
    rw [map_cons, readAll, run_bind_of_ok step, run_bind_of_ok later]
    rfl

/-- What is written is what is read from a new stream on the same buffer. -/
def RoundTrips (stream : ByteStream) (values : List Value) : Prop :=
  ∃ after fresh last, (writeAll values).run stream = .ok () after ∧
    ofBuffer after.buffer after.sized = .ok fresh ∧
    (readAll (values.map Value.width)).run fresh = .ok values last

/-- An access throws and changes nothing. -/
def Refused {α : Type} (access : Access α) (stream : ByteStream) : Prop :=
  ∃ exception, access.run stream = .error (.thrown exception) stream

theorem kept_eq_self_iff {value : Value} :
    value.kept = value ↔ ∀ number, value = .uint32 number → number < 0x10000 := by
  cases value with
  | uint8 value | uint16 value => exact iff_of_true rfl fun number other => by cases other
  | uint32 value =>
    have lower : value.toUInt16.toUInt32.toNat = value.toNat % 65536 := by
      rw [UInt16.toNat_toUInt32, toNat_toUInt16]
    have bound : value < 0x10000 ↔ value.toNat < 65536 := lt_iff_toNat_lt
    have same : value.toUInt16.toUInt32 = value ↔ value < 0x10000 := by
      rw [← UInt32.toNat_inj, lower, bound]
      omega
    simp only [Value.kept, Value.uint32.injEq, forall_eq']
    exact same

/-- Numbers survive exactly when those of thirty-two bits fit into sixteen, and an access
that does not fit is refused. -/
theorem codec_exact_iff (stream : ByteStream) (fresh : stream.pos = 0) (values : List Value)
    (fits : totalSize values ≤ stream.buffer.length) :
    (RoundTrips stream values ↔ ∀ number, .uint32 number ∈ values → number < 0x10000) ∧
      ∀ (other : ByteStream) (value : Value),
        other.buffer.length < other.pos.toNat + value.width.size →
          Refused (write value) other ∧ Refused (read value.width) other := by
  refine ⟨?_, fun other value beyond => ⟨write_refuses beyond, read_refuses beyond⟩⟩
  have start : stream.pos.toNat = 0 := congrArg UInt32.toNat fresh
  rw [← encodeAll_length] at fits
  obtain ⟨after, written, stored⟩ := @writeAll_fits stream values (by omega)
  rw [start] at stored
  have opened : ofBuffer after.buffer after.sized =
      .ok ⟨after.buffer, 0, after.nonempty, after.sized⟩ := dif_neg after.nonempty
  have found : after.buffer.drop 0 =
      encodeAll values ++ stream.buffer.drop (encodeAll values).length := by
    rw [drop_zero, stored]
    exact patch_zero _ _
  obtain ⟨last, readBack⟩ :=
    @readAll_fits ⟨after.buffer, 0, after.nonempty, after.sized⟩ values _ found
  have survive : RoundTrips stream values ↔ values.map Value.kept = values := by
    constructor
    · rintro ⟨final, again, ending, wrote, opens, reads⟩
      rw [written] at wrote
      cases wrote
      rw [opened] at opens
      cases opens
      rw [readBack] at reads
      injection reads
    · intro kept
      refine ⟨after, _, last, written, opened, ?_⟩
      rw [readBack, kept]
  rw [survive]
  constructor
  · intro kept number member
    have each := map_inj_left.mp (kept.trans (map_id values).symm) _ member
    exact kept_eq_self_iff.mp each number rfl
  · intro small
    refine (map_congr_left fun value member => ?_).trans (map_id values)
    refine kept_eq_self_iff.mpr fun number same => small number ?_
    rwa [← same]

/-- Seven bytes for one number of each type. -/
def sevenBytes : ByteStream := ⟨List.replicate 7 0, 0, by decide, by decide⟩

/-- Small numbers survive. -/
theorem codec_exact_small : RoundTrips sevenBytes [.uint16 0x1234, .uint32 0xabcd, .uint8 7] :=
  ((codec_exact_iff sevenBytes rfl [.uint16 0x1234, .uint32 0xabcd, .uint8 7]
    (by decide)).1).mpr fun number member => by
      have only : number = 0xabcd := by simpa using member
      rw [only]
      decide

/-- The upper half of a number of thirty-two bits is lost. -/
theorem codec_loses_upper_half :
    ∃ after fresh last, (writeAll [.uint32 0x12345678]).run sevenBytes = .ok () after ∧
      ofBuffer after.buffer after.sized = .ok fresh ∧
      (readAll [.uint32]).run fresh = .ok [.uint32 0x5678] last ∧
      (0x5678 : UInt32) ≠ 0x12345678 :=
  ⟨_, _, _, rfl, rfl, rfl, by decide⟩

end ByteStream

end Embassies.Crypto
