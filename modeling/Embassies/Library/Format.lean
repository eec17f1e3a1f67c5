import Embassies.Library.BigEndian
import Embassies.Library.Buffer
import Mathlib.Logic.Equiv.Defs

/-!
# Formats of fixed size

A packed record is laid out as its fields one after another.  A format has a
size, writes a value into that many bytes and reads it back; it carries the
proof that reading inverts writing.  Formats are built from numbers in network
order by putting one behind the other, by renaming the parts of a record and, for
the numbers of a little-endian machine, by reversing the bytes.  A table is a list of
values in one format.
-/

namespace Embassies.Library

open List

universe u v

/-- A layout of values in a fixed number of bytes. -/
structure Format (α : Type u) where
  size : Nat
  encode : α → List UInt8
  decode : List UInt8 → α
  encode_length : ∀ value, (encode value).length = size
  decode_encode : ∀ value, decode (encode value) = value

namespace Format

variable {α : Type u} {β : Type v}

attribute [simp] encode_length decode_encode

/-- Two fields one behind the other. -/
def pair (first : Format α) (second : Format β) : Format (α × β) where
  size := first.size + second.size
  encode value := first.encode value.1 ++ second.encode value.2
  decode bytes :=
    (first.decode (bytes.take first.size), second.decode (bytes.drop first.size))
  encode_length value := by simp
  decode_encode value := by
    have front : ((first.encode value.1 ++ second.encode value.2).take first.size) =
        first.encode value.1 := List.take_left' (first.encode_length _)
    have back : ((first.encode value.1 ++ second.encode value.2).drop first.size) =
        second.encode value.2 := List.drop_left' (first.encode_length _)
    rw [front, back, first.decode_encode, second.decode_encode]

/-- A record with the same parts. -/
def rename (format : Format α) (parts : β ≃ α) : Format β where
  size := format.size
  encode value := format.encode (parts value)
  decode bytes := parts.symm (format.decode bytes)
  encode_length value := format.encode_length _
  decode_encode value := by rw [format.decode_encode, Equiv.symm_apply_apply]

/-- The value at the front of a buffer. -/
def read (format : Format α) (bytes : List UInt8) : α :=
  format.decode (bytes.take format.size)

variable (format : Format α)

@[simp]
theorem read_append (value : α) (rest : List UInt8) :
    format.read (format.encode value ++ rest) = value := by
  rw [read, take_left' (format.encode_length value), format.decode_encode]

/-- A byte. -/
def uint8 : Format UInt8 where
  size := 1
  encode value := [value]
  decode bytes := bytes.headD 0
  encode_length _ := rfl
  decode_encode _ := rfl

/-- An array of bytes; shorter memory is padded. -/
def bytes (count : Nat) : Format { bytes : List UInt8 // bytes.length = count } where
  size := count
  encode value := value.val
  decode memory := ⟨(memory ++ List.replicate count 0).take count, by simp⟩
  encode_length value := value.property
  decode_encode value := Subtype.ext (List.take_left' value.property)

/-- A number of sixteen bits in network order. -/
def uint16 : Format UInt16 where
  size := 2
  encode value := BigEndian.encode 2 value.toNat
  decode bytes := UInt16.ofNat (BigEndian.decode bytes)
  encode_length value := BigEndian.encode_length 2 value.toNat
  decode_encode value := by
    rw [BigEndian.decode_encode value.toNat_lt, UInt16.ofNat_toNat]

/-- A number of thirty-two bits in network order. -/
def uint32 : Format UInt32 where
  size := 4
  encode value := BigEndian.encode 4 value.toNat
  decode bytes := UInt32.ofNat (BigEndian.decode bytes)
  encode_length value := BigEndian.encode_length 4 value.toNat
  decode_encode value := by
    rw [BigEndian.decode_encode value.toNat_lt, UInt32.ofNat_toNat]

/-- A number of sixty-four bits in network order. -/
def uint64 : Format UInt64 where
  size := 8
  encode value := BigEndian.encode 8 value.toNat
  decode bytes := UInt64.ofNat (BigEndian.decode bytes)
  encode_length value := BigEndian.encode_length 8 value.toNat
  decode_encode value := by
    rw [BigEndian.decode_encode value.toNat_lt, UInt64.ofNat_toNat]

/-! ## Numbers of a little-endian machine -/

/-- The bytes in the opposite order. -/
def reversed (format : Format α) : Format α where
  size := format.size
  encode value := (format.encode value).reverse
  decode bytes := format.decode bytes.reverse
  encode_length value := by rw [List.length_reverse, format.encode_length]
  decode_encode value := by rw [List.reverse_reverse, format.decode_encode]

/-- A number of sixteen bits in the memory of the machine. -/
def host16 : Format UInt16 := uint16.reversed

/-- A number of thirty-two bits in the memory of the machine. -/
def host32 : Format UInt32 := uint32.reversed

/-- A number of sixty-four bits in the memory of the machine. -/
def host64 : Format UInt64 := uint64.reversed

/-- The value at a place of a memory. -/
def load {ε : Type} (format : Format α) (fault : ε) (memory : List UInt8)
    (offset : Nat) : Except ε α :=
  (Buffer.load fault memory offset format.size).map format.decode

theorem load_eq_ok {ε : Type} {fault : ε} {memory : List UInt8} {offset : Nat}
    (inside : offset + format.size ≤ memory.length) :
    format.load fault memory offset = .ok (format.read (memory.drop offset)) := by
  rw [load, Buffer.load_eq_ok inside]
  rfl

/-! ## Tables -/

/-- Values one behind the other. -/
def table (format : Format α) (values : List α) : List UInt8 :=
  values.flatMap format.encode

@[simp]
theorem table_nil : format.table [] = [] := rfl

@[simp]
theorem table_cons (value : α) (values : List α) :
    format.table (value :: values) = format.encode value ++ format.table values :=
  flatMap_cons

theorem table_length (values : List α) :
    (format.table values).length = format.size * values.length := by
  induction values with
  | nil => rfl
  | cons value values induction =>
    rw [table, flatMap_cons, length_append, format.encode_length,
      length_cons, Nat.mul_succ, Nat.add_comm]
    exact congrArg (· + format.size) induction

theorem read_table {values : List α} {value : α} {index : Nat}
    (found : values[index]? = some value) (rest : List UInt8) :
    format.read ((format.table values ++ rest).drop (format.size * index)) = value := by
  induction values generalizing index with
  | nil => cases found
  | cons first values induction =>
    have split : format.table (first :: values) ++ rest =
        format.encode first ++ (format.table values ++ rest) := by
      rw [table, flatMap_cons, append_assoc]
      rfl
    rw [split]
    cases index with
    | zero =>
      cases found
      rw [Nat.mul_zero, drop_zero, read_append]
    | succ index =>
      rw [Nat.mul_succ, Nat.add_comm, ← drop_drop, drop_left' (format.encode_length first)]
      exact induction found

end Format

end Embassies.Library
