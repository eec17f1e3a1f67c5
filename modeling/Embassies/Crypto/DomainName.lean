import Embassies.Crypto.Memory

/-!
# Domain names

`DomainName` keeps a name as a zero-terminated dotted string together with
the length of its wire form and its number of labels.  This module embeds the
two constructors that certificates use, the one from a wire buffer and the one
from a text (through which a name is also copied), and the operations on names:
serialization, the suffix test and comparison.

The stored string of a name that came from a wire buffer may contain any
bytes, zero bytes included.  The operations see it through `lite_strlen`, so
only up to its first zero byte; the bytes after it are still compared when the
other operand is longer.
-/

namespace Embassies.Crypto

open Library Library.Checked

/-- The separator of a dotted name. -/
def dot : UInt8 := 46

/-- The character that stands for the root label. -/
def space : UInt8 := 32

/-- The only character of a wildcard label. -/
def star : UInt8 := 42

/--
A domain name.  `chars` holds the bytes stored before the terminator that the
constructor wrote, `len` the number of bytes of the wire form.
-/
@[ext]
structure DomainName where
  chars : List UInt8
  len : Nat
  numLabels : Nat
  /-- The root is kept as one space; every other name needs a length byte for
  its first label and the root label on top of its characters. -/
  len_eq : chars = [space] ∧ len = 1 ∨ len = chars.length + 2
  /-- `nameBytes` has 255 bytes, one of them for the terminator. -/
  chars_short : chars.length ≤ 254
deriving DecidableEq

namespace DomainName

/-- `DomainName::MAX_DNS_NAME_LEN`. -/
def maxDnsNameLen : Nat := 255

/-- The stored characters as `lite_strlen` and its callers see them. -/
def cString (name : DomainName) : List UInt8 :=
  name.chars.takeWhile (· ≠ 0)

/-- `DomainName::size`. -/
def size (name : DomainName) : Nat := name.len

variable (name : DomainName)

theorem cString_isPrefix : name.cString <+: name.chars := List.takeWhile_prefix _

theorem size_pos : 0 < name.size := by
  rcases name.len_eq with root | other
  · simp [size, root.2]
  · simp [size, other]

theorem size_le : name.size ≤ 256 := by
  have short := name.chars_short
  have len := name.len_eq
  unfold size
  omega

/-! ## The wire constructor -/

/-- The name made of the characters gathered by the wire constructor, each of
its labels followed by a separator. -/
def ofGathered (gathered : List UInt8) (numLabels : Nat)
    (bounded : gathered.length ≤ 254) : DomainName :=
  if gathered = [] then
    ⟨[space], 1, numLabels, .inl ⟨rfl, rfl⟩, by simp⟩
  else
    ⟨gathered.dropLast, gathered.dropLast.length + 2, numLabels,
      .inr rfl, by rw [List.length_dropLast]; omega⟩

/--
The label loop of `DomainName(const uint8_t *, uint32_t)`.  The argument
`buffer` stands at the next length byte and `gathered` holds `this->len`
characters.  Every round adds at least two of them, so `maxDnsNameLen` rounds
are never used up.
-/
def ofWireLoop (limit : Nat) :
    Nat → List UInt8 → List UInt8 → Nat → Except Halt DomainName
  | 0, _, _, _ =>
    .error (.badInput "DomainName badly formatted or too long")
  | rounds + 1, buffer, gathered, numLabels => do
    if gathered.length < limit then
      let (labelLen, afterLen) ← parseByte buffer
      if limit < gathered.length + labelLen.toNat + 1 then
        .error (.badInput "DomainName exceeded bounds")
      else
        let (label, rest) ← parseBytes labelLen.toNat afterLen
        if labelLen = 0 then
          if bounded : gathered.length ≤ 254 then
            .ok (ofGathered gathered numLabels bounded)
          else
            .error (.fault .outOfBoundsWrite)
        else
          ofWireLoop limit rounds rest (gathered ++ label ++ [dot])
            (if label = [star] then numLabels else numLabels + 1)
    else
      .error (.badInput "DomainName badly formatted or too long")

/-- `DomainName::DomainName(const uint8_t *dnsbuffer, uint32_t size)`. -/
def ofWire (buffer : List UInt8) (size : Nat) : Except Halt DomainName := do
  ensure (size ≠ 0) (.badInput "DomainName too small")
  ofWireLoop (min maxDnsNameLen size) (maxDnsNameLen + 1) buffer [] 0

/-! ## The text constructor -/

/-- `isLetter`. -/
def isLetter (char : UInt8) : Bool :=
  (97 ≤ char && char ≤ 122) || (65 ≤ char && char ≤ 90)

/-- `isLetterDigit`. -/
def isLetterDigit (char : UInt8) : Bool :=
  isLetter char || (48 ≤ char && char ≤ 57)

/-- `isLetterDigitHyphen`. -/
def isLetterDigitHyphen (char : UInt8) : Bool :=
  isLetterDigit char || char == 45

/-- `toLower`. -/
def toLower (char : UInt8) : UInt8 :=
  if 65 ≤ char && char ≤ 90 then char + 32 else char

/-- The loop of `checkLabel`: how many of the next `remaining` characters
belong to the label. -/
def scanLabel : List UInt8 → Nat → Except Halt Nat
  | _, 0 => .ok 0
  | [], _ + 1 => .error (.fault .outOfBoundsRead)
  | char :: rest, remaining + 1 =>
    if isLetterDigitHyphen char then do
      let run ← scanLabel rest remaining
      return run + 1
    else
      .ok 0

/-- `checkLabel`, with `none` for the result `-1`. -/
def checkLabel (name : List UInt8) (len : Nat) : Except Halt (Option Nat) :=
  if len = 0 then
    .ok none
  else
    match name with
    | [] => .error (.fault .outOfBoundsRead)
    | first :: rest =>
      if isLetter first then do
        let run ← scanLabel rest (len - 1)
        if isLetterDigit ((first :: rest).getD run 0) then
          return some (run + 1)
        else
          return none
      else
        .ok none

/--
`checkSubdomain`, with `none` for the result `-1`.  The result of `checkLabel`
is kept in a `uint8_t`, where a failure becomes 255 and is never recognised by
the comparison with `-1` that follows.  Each call moves on by at least one
character, so one round more than there are bytes in memory is never used up.
-/
def checkSubdomain : Nat → List UInt8 → Nat → Except Halt (Option Nat)
  | 0, _, _ => .ok none
  | rounds + 1, name, len =>
    if len = 0 then
      .ok none
    else do
      let label ← checkLabel name len
      let labelLen := (label.getD 255) % 256
      if labelLen = len then
        return some len
      else if sub32 len 2 < labelLen then
        return none
      else
        let (char, rest) ← parseByte (name.drop labelLen)
        if char = dot then
          let subdomain ← checkSubdomain rounds rest (sub32 len (labelLen + 1))
          return subdomain.map fun _ => len
        else
          return none

/-- `DomainName::checkDomainName`. -/
def checkDomainName (name : List UInt8) (len : Nat) : Except Halt Bool := do
  if len = 0 then
    return false
  else if len = 1 then
    let (first, _) ← parseByte name
    if first = space then
      return true
    else
      let subdomain ← checkSubdomain (name.length + 1) name len
      return subdomain.getD (2 ^ 32 - 1) == len
  else
    let subdomain ← checkSubdomain (name.length + 1) name len
    return subdomain.getD (2 ^ 32 - 1) == len

/-- `lite_strnlen`, which looks at a character before it compares the count. -/
def strnlen : List UInt8 → Nat → Except Halt Nat
  | [], _ => .error (.fault .outOfBoundsRead)
  | char :: rest, limit =>
    if char = 0 then
      .ok 0
    else
      match limit with
      | 0 => .ok 0
      | limit + 1 => do
        let run ← strnlen rest limit
        return run + 1

/-- The name stored for `nameLength` characters of a text. -/
def ofChars (name : List UInt8)
    (bounded : name.length ≤ 254) : DomainName :=
  if name = [space] then
    ⟨[space], 1, 0, .inl ⟨rfl, rfl⟩, by simp⟩
  else
    ⟨name.map toLower, name.length - name.count dot + (name.count dot + 1) + 1,
      name.count dot + 1,
      .inr (by have := List.count_le_length (a := dot) (l := name); simp; omega),
      by simpa using bounded⟩

/--
`DomainName::parse`, the constructor from a text of `len` bytes with its
terminator.  The length is kept in a `uint8_t`; a text of 255 characters never
leaves the copying loop, and a longer one is copied without a terminator.
-/
def parse (name : List UInt8) (len : Nat) : Except Halt DomainName := do
  let valid ← checkDomainName name (sub32 len 1)
  ensure (valid = true) (.badInput "Null DomainName")
  let run ← strnlen name len
  let nameLength := run % 256
  ensure (nameLength ≠ 0) (.badInput "Bad length for DomainName")
  ensure (¬ (nameLength = len ∧ name.getD (nameLength - 1) 0 ≠ 0))
    (.badInput "DomainName missing a null terminator")
  if bounded : (name.take nameLength).length ≤ 254 then
    ensure (name.getD nameLength 0 = 0) (.fault .uninitializedRead)
    return ofChars (name.take nameLength) bounded
  else
    .error (.fault .outOfBoundsWrite)

/-- `DomainName::DomainName(const DomainName *)`. -/
def copy (name : DomainName) : Except Halt DomainName :=
  parse (name.cString ++ [0]) (name.cString.length + 1)

/-! ## Serialization -/

/--
The loop of `DomainName::serialize` over the characters from position
`position` on, for a name stored at `base`.  It returns the buffer together
with the position and the length of the label that is still open.
-/
def serializeLoop (base : Nat) :
    List UInt8 → Nat → Nat → Nat → List UInt8 →
      Except Halt (List UInt8 × Nat × Nat)
  | [], _, labelPos, labelLen, buffer => .ok (buffer, labelPos, labelLen)
  | char :: rest, position, labelPos, labelLen, buffer =>
    if char = dot then do
      let buffer ← writeBytes buffer (base + labelPos) [UInt8.ofNat labelLen]
      serializeLoop base rest (position + 1) (position + 1) 0 buffer
    else if char = space then do
      let buffer ← writeBytes buffer (base + position) [0]
      serializeLoop base rest (position + 1) labelPos labelLen buffer
    else do
      let buffer ← writeBytes buffer (base + position + 1) [toLower char]
      serializeLoop base rest (position + 1) labelPos (labelLen + 1) buffer

/-- `DomainName::serialize(uint8_t *)`, writing at offset `base`. -/
def serialize (name : DomainName) (buffer : List UInt8) (base : Nat) :
    Except Halt (List UInt8 × Nat) := do
  let (buffer, labelPos, labelLen) ←
    serializeLoop base name.cString 0 0 0 buffer
  let buffer ← writeBytes buffer (base + labelPos) [UInt8.ofNat labelLen]
  let buffer ← writeBytes buffer (base + (name.len - 1)) [0]
  return (buffer, name.len)

/-! ## Suffixes and comparison -/

/-- The backward comparison of `DomainName::suffix` on reversed strings; the
result is what is left of the child. -/
def suffixLoop : List UInt8 → List UInt8 → Except Halt (Option (List UInt8))
  | child, [] => .ok (some child)
  | [], _ :: _ => .error (.fault .outOfBoundsRead)
  | childChar :: child, parentChar :: parent =>
    if childChar = parentChar then suffixLoop child parent else .ok none

/-- `DomainName::suffix`: does this name end in `parent`? -/
def suffix (name parent : DomainName) : Except Halt Bool :=
  if name.len < parent.len then
    .ok false
  else if parent.len = 1 then
    .ok true
  else do
    let left ← suffixLoop name.cString.reverse parent.cString.reverse
    match left with
    | none => return false
    | some [] => return true
    | some (char :: _) => return char == dot

/-- `operator==(DomainName &, DomainName &)`. -/
def equals (left right : DomainName) : Bool :=
  left.len == right.len && left.numLabels == right.numLabels &&
    left.cString == right.chars.take left.cString.length

/-! ## Labels -/

/-- The labels of a name, from the most specific one to the one below the
root. -/
def labels (name : DomainName) : List (List UInt8) :=
  if name.len = 1 then [] else name.chars.splitOn dot

end DomainName

end Embassies.Crypto
