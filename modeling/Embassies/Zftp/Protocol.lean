import Embassies.Library.Checked
import Embassies.Library.Format

/-!
# The file transfer protocol

Files are named by the hash of their metadata and the root of a Merkle tree
over their blocks.  A client asks for nodes of the tree and for a range of
bytes.  This module has the numbers and records of the protocol; the code runs
on a 32-bit machine, so sizes and offsets are taken modulo `2 ^ 32`.
-/

namespace Embassies.Zftp

open Library

/-- What a run of the code must never do. -/
inductive Fault where
  /-- A `lite_assert` whose condition is false. -/
  | assertion
  | nullPointer
  | outOfBounds
deriving DecidableEq

/-- `hash_t`. -/
structure Hash where
  bytes : List UInt8
  length_eq : bytes.length = 20

instance : DecidableEq Hash := fun left right =>
  decidable_of_iff (left.bytes = right.bytes)
    ⟨fun same => by cases left; cases right; cases same; rfl, congrArg Hash.bytes⟩

/-- `ZFTP_NO_COMPRESSION`. -/
def noCompression : UInt32 := 0

/-- `CompressionContext`. -/
structure CompressionContext where
  stateId : UInt32
  seqId : UInt32
deriving DecidableEq

/-- `DataRange`. -/
structure DataRange where
  start : UInt32
  finish : UInt32
deriving DecidableEq

/-! ## Layouts -/

namespace Hash

/-- The layout of a hash; shorter memory is padded. -/
def format : Format Hash where
  size := 20
  encode hash := hash.bytes
  decode bytes :=
    ⟨(bytes ++ List.replicate 20 0).take 20, by simp⟩
  encode_length hash := hash.length_eq
  decode_encode hash := by
    cases hash with
    | mk bytes length_eq =>
      simp only [mk.injEq]
      exact List.take_left' length_eq

end Hash

/-- The layout of a compression context. -/
def CompressionContext.format : Format CompressionContext :=
  (Format.uint32.pair Format.uint32).rename
    ⟨fun context => (context.stateId, context.seqId),
      fun parts => ⟨parts.1, parts.2⟩, fun _ => rfl, fun _ => rfl⟩

end Embassies.Zftp
