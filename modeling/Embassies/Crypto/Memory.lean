import Embassies.Library.BigEndian
import Embassies.Library.Buffer
import Embassies.Library.Checked

/-!
# Memory accesses and halting of the certificate code

The certificate code either returns, throws a `CryptoException`, or does
something it must not do: it fails a `lite_assert`, follows a null pointer,
or touches memory outside the region it was given.  The last kind is recorded
as a `Fault`, so that a theorem can say that it does not happen.

A pointer into a buffer is the list of bytes from the pointer to the end of
the buffer.  The `PARSE_*` macros read in network order and advance the
pointer; the `WRITE_*` macros store in network order at an offset.
-/

namespace Embassies.Crypto

open Library Library.Checked BigEndian Buffer

/-- What a run of the code must never do. -/
inductive Fault where
  /-- A `lite_assert` whose condition is false. -/
  | assertion
  | nullPointer
  | outOfBoundsRead
  | outOfBoundsWrite
  /-- A read of bytes that nothing has written. -/
  | uninitializedRead
deriving DecidableEq, Repr

/-- `CryptoException::ExceptionType`. -/
inductive ExceptionType where
  | badInput
  | outOfMemory
  | bufferOverflow
  | integerOverflow
deriving DecidableEq, Repr

/-- The exception type and text of a `Throw`. -/
structure CryptoException where
  type : ExceptionType
  text : String
deriving DecidableEq, Repr

/-- Why a computation stops without a result. -/
inductive Halt where
  | thrown (exception : CryptoException)
  | fault (kind : Fault)
deriving DecidableEq, Repr

/-- `Throw(CryptoException::BAD_INPUT, text)`. -/
def Halt.badInput (text : String) : Halt :=
  .thrown ⟨.badInput, text⟩

/-- `Throw(CryptoException::OUT_OF_MEMORY, text)`. -/
def Halt.outOfMemory (text : String) : Halt :=
  .thrown ⟨.outOfMemory, text⟩

/-- `hash_t`: the twenty bytes of a hash. -/
@[ext]
structure Hash where
  bytes : List UInt8
  length_eq : bytes.length = 20
deriving DecidableEq

/-! ## Network-order integers -/

/-- The two bytes of a `uint16_t` in network order. -/
def short (value : UInt16) : List UInt8 :=
  BigEndian.encode 2 value.toNat

/-- The four bytes of a `uint32_t` in network order. -/
def int (value : UInt32) : List UInt8 :=
  BigEndian.encode 4 value.toNat

@[simp]
theorem short_length (value : UInt16) : (short value).length = 2 := by
  simp [short]

@[simp]
theorem int_length (value : UInt32) : (int value).length = 4 := by
  simp [int]

theorem short_append_inj {left right : UInt16} {leftTail rightTail : List UInt8}
    (equal : short left ++ leftTail = short right ++ rightTail) :
    left = right ∧ leftTail = rightTail := by
  have parts := encode_append_inj
    (by simpa using left.toNat_lt) (by simpa using right.toNat_lt) equal
  exact ⟨UInt16.toNat_inj.mp parts.1, parts.2⟩

theorem int_append_inj {left right : UInt32} {leftTail rightTail : List UInt8}
    (equal : int left ++ leftTail = int right ++ rightTail) :
    left = right ∧ leftTail = rightTail := by
  have parts := encode_append_inj
    (by simpa using left.toNat_lt) (by simpa using right.toNat_lt) equal
  exact ⟨UInt32.toNat_inj.mp parts.1, parts.2⟩

/-! ## Reading through a pointer -/

/-- `lite_memcpy` from the pointer, which then stands after the bytes. -/
def parseBytes (count : Nat) (memory : List UInt8) :
    Except Halt (List UInt8 × List UInt8) :=
  Buffer.read (.fault .outOfBoundsRead) count memory

/-- `PARSE_BYTE`. -/
def parseByte : List UInt8 → Except Halt (UInt8 × List UInt8)
  | [] => .error (.fault .outOfBoundsRead)
  | byte :: rest => .ok (byte, rest)

/-- `PARSE_SHORT`. -/
def parseShort (memory : List UInt8) : Except Halt (UInt16 × List UInt8) := do
  let (bytes, rest) ← parseBytes 2 memory
  return (UInt16.ofNat (BigEndian.decode bytes), rest)

/-- `PARSE_INT`. -/
def parseInt (memory : List UInt8) : Except Halt (UInt32 × List UInt8) := do
  let (bytes, rest) ← parseBytes 4 memory
  return (UInt32.ofNat (BigEndian.decode bytes), rest)

variable {bytes rest : List UInt8} {count : Nat}

theorem parseBytes_append (size : bytes.length = count) :
    parseBytes count (bytes ++ rest) = .ok (bytes, rest) :=
  read_append size

variable {memory : List UInt8}

theorem parseBytes_eq_ok_iff :
    parseBytes count memory = .ok (bytes, rest) ↔ memory = bytes ++ rest ∧ bytes.length = count :=
  read_eq_ok_iff

theorem parseBytes_of_le (enough : count ≤ memory.length) :
    parseBytes count memory = .ok (memory.take count, memory.drop count) :=
  if_pos enough

theorem le_of_parseBytes {result : List UInt8 × List UInt8}
    (parsed : parseBytes count memory = .ok result) : count ≤ memory.length := by
  obtain ⟨rfl, rfl⟩ := parseBytes_eq_ok_iff.mp parsed
  rw [List.length_append]
  omega

/-- Compare two arrays byte by byte up to `count`, stopping at the first
difference. -/
def compareBytes : Nat → List UInt8 → List UInt8 → Except Halt Bool
  | 0, _, _ => .ok true
  | count + 1, left :: lefts, right :: rights =>
    if left = right then compareBytes count lefts rights else .ok false
  | _ + 1, _, _ => .error (.fault .outOfBoundsRead)

theorem compareBytes_eq_ok_true_iff {left right : List UInt8} :
    compareBytes count left right = .ok true ↔ count ≤ left.length ∧ count ≤ right.length ∧
        left.take count = right.take count := by
  induction count generalizing left right with
  | zero => simp [compareBytes]
  | succ count induction =>
    cases left with
    | nil => simp [compareBytes]
    | cons leftByte left =>
      cases right with
      | nil => simp [compareBytes]
      | cons rightByte right =>
        rw [compareBytes]
        by_cases same : leftByte = rightByte
        · simp [same, induction]
        · simp [same]

theorem parseByte_eq_ok_iff {value : UInt8} :
    parseByte memory = .ok (value, rest) ↔ memory = value :: rest := by
  cases memory with
  | nil => simp [parseByte]
  | cons byte tail =>
    simp only [parseByte, Except.ok.injEq, Prod.mk.injEq, List.cons.injEq]

theorem parseBytes_decode_iff {α : Type} {ofNat : Nat → α} {toNat : α → Nat}
    (small : ∀ number, toNat number < 256 ^ count)
    (left : ∀ value < 256 ^ count, toNat (ofNat value) = value)
    (right : ∀ number, ofNat (toNat number) = number) {number : α} :
    (do
      let (bytes, rest) ← parseBytes count memory
      return (ofNat (decode bytes), rest)) = .ok (number, rest) ↔
      memory = encode count (toNat number) ++ rest := by
  constructor
  · intro parsed
    obtain ⟨⟨bytes, tail⟩, loaded, returned⟩ := of_bind parsed
    obtain ⟨rfl, size⟩ := parseBytes_eq_ok_iff.mp loaded
    rcases returned with ⟨rfl, rfl⟩
    have bound := decode_lt bytes
    have whole := encode_decode bytes
    rw [size] at bound whole
    rw [left _ bound, whole]
  · rintro rfl
    rw [parseBytes_append (encode_length _ _), ok_bind]
    simp only [decode_encode (small number), right, pure_eq_ok]

theorem parseShort_eq_ok_iff {value : UInt16} :
    parseShort memory = .ok (value, rest) ↔ memory = short value ++ rest :=
  parseBytes_decode_iff (fun number => number.toNat_lt)
    (fun _ bound => UInt16.toNat_ofNat_of_lt' bound) fun _ => UInt16.ofNat_toNat

theorem parseInt_eq_ok_iff {value : UInt32} :
    parseInt memory = .ok (value, rest) ↔ memory = int value ++ rest :=
  parseBytes_decode_iff (fun number => number.toNat_lt)
    (fun _ bound => UInt32.toNat_ofNat_of_lt' bound) fun _ => UInt32.ofNat_toNat

/-! ## Writing into a buffer -/

/-- `lite_memcpy` or a `WRITE_*` macro, storing `bytes` at `offset`. -/
def writeBytes (buffer : List UInt8) (offset : Nat) (bytes : List UInt8) :
    Except Halt (List UInt8) :=
  Buffer.write (.fault .outOfBoundsWrite) buffer offset bytes

variable {buffer : List UInt8} {offset : Nat}

theorem writeBytes_eq_ok (fits : offset + bytes.length ≤ buffer.length) :
    writeBytes buffer offset bytes = .ok (patch buffer offset bytes) :=
  write_eq_ok fits

theorem writeByte_eq_ok {byte : UInt8} (inside : offset < buffer.length) :
    writeBytes buffer offset [byte] = .ok (patch buffer offset [byte]) :=
  write_eq_ok inside

theorem writeBytes_eq_ok_iff {after : List UInt8} :
    writeBytes buffer offset bytes = .ok after ↔ offset + bytes.length ≤ buffer.length ∧
        after = patch buffer offset bytes :=
  write_eq_ok_iff

theorem writeBytes_overflows (overflows : buffer.length < offset + bytes.length) :
    writeBytes buffer offset bytes = .error (.fault .outOfBoundsWrite) :=
  if_neg (Nat.not_le.mpr overflows)

theorem writeBytes_append {α : Type} {first : List UInt8} {base : Nat}
    (continues : offset = base + first.length) (second : List UInt8 → List UInt8)
    (next : List UInt8 → Except Halt α) :
    (do
      let buffer ← writeBytes buffer base first
      let buffer ← writeBytes buffer offset (second buffer)
      next buffer) = (do
      let buffer ← writeBytes buffer base (first ++ second (patch buffer base first))
      next buffer) := by
  subst continues
  have length := @List.length_append _ first (second (patch buffer base first))
  by_cases fits : base + first.length ≤ buffer.length
  · have same := patch_length fits
    rw [writeBytes_eq_ok fits, ok_bind]
    by_cases room : base + first.length + (second (patch buffer base first)).length ≤ buffer.length
    · rw [writeBytes_eq_ok (by omega), writeBytes_eq_ok (by omega), ok_bind, ok_bind,
        patch_patch_append room]
    · rw [writeBytes_overflows (by omega), writeBytes_overflows (by omega)]
  · rw [writeBytes_overflows (by omega), writeBytes_overflows (by omega), error_bind, error_bind]

/-- Store `bytes` at `base` and return `count`. -/
def store (buffer : List UInt8) (base : Nat) (bytes : List UInt8) (count : Nat) :
    Except Halt (List UInt8 × Nat) := do
  let buffer ← writeBytes buffer base bytes
  return (buffer, count)

theorem store_eq_ok_iff {after : List UInt8} {base result : Nat} :
    store buffer base bytes count = .ok (after, result) ↔
      base + bytes.length ≤ buffer.length ∧ after = patch buffer base bytes ∧ result = count := by
  simp only [store, bind_eq_ok_iff, writeBytes_eq_ok_iff, pure_eq_ok, Except.ok.injEq,
    Prod.mk.injEq]
  constructor
  · rintro ⟨_, ⟨fits, rfl⟩, rfl, rfl⟩
    exact ⟨fits, rfl, rfl⟩
  · rintro ⟨fits, rfl, rfl⟩
    exact ⟨_, ⟨fits, rfl⟩, rfl, rfl⟩

end Embassies.Crypto
