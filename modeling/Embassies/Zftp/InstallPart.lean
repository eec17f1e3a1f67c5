import Embassies.Zftp.Install
import Embassies.Zftp.Parts

/-!
# The parts of the data of a reply

A reply may leave out zeros at the end of its data.  `install_data` cuts the data into
blocks, and the number of bytes that are there for a block is the length of the payload
less the offset of the block.  For a block behind the end of the payload this difference
wraps around, and the block is filled with whatever is in the memory behind the payload.
The loop is a fold over the blocks that the data touch, and this module says when the
record of one block takes its part and what the record then holds.
-/

namespace Embassies.Zftp

open Library Library.Checked UInt32 List

open ZCachedFile

namespace ZFileReplyFromServer

/-- Where the data start in the file. -/
def first (reply : ZFileReplyFromServer) : Nat := reply.dataRange.start.toNat

/-- How many bytes of the file the data are. -/
def count (reply : ZFileReplyFromServer) : Nat :=
  reply.dataRange.finish.toNat - reply.dataRange.start.toNat

/-- The blocks that the data touch. -/
def blocks (reply : ZFileReplyFromServer) : List Nat := touched reply.first reply.count

/-- A byte of the data, some of which are zeros that were left out. -/
def logicalByte (reply : ZFileReplyFromServer) (place : Nat) : UInt8 :=
  reply.getPayload.getD place 0

/-- The data for the front of a block. -/
def logicalBytes (reply : ZFileReplyFromServer) (blk : Nat) : List UInt8 :=
  (List.range' (blk * blockSize - reply.first)
    (partEnd reply.first reply.count blk - blk * blockSize)).map reply.logicalByte

/-- The places of the payload that `receive_data` reads for a block. -/
def readPlaces (reply : ZFileReplyFromServer) (blk : Nat) : List Nat :=
  let offset := partStart reply.first blk - reply.first
  let available := (UInt32.ofNat reply.getPayload.length - UInt32.ofNat offset).toNat
  let len := partEnd reply.first reply.count blk - partStart reply.first blk
  List.range' offset (if available < len then available else len)

/-- The bytes that `receive_data` appends to a block. -/
def pieceBytes (env : Environment) (reply : ZFileReplyFromServer) (blk : Nat) :
    List UInt8 :=
  let source := (reply.readPlaces blk).map fun place =>
    reply.getPayload.getD place (env.behind place)
  source ++ List.replicate
    (partEnd reply.first reply.count blk - partStart reply.first blk - source.length) 0

end ZFileReplyFromServer

open ZFileReplyFromServer

variable {env : Environment} {file : ZCachedFile} {cache : ZBlockCache}
  {reply : ZFileReplyFromServer} {blk : Nat}

/-! ## The loop -/

namespace ZCachedFile

/-- The part of the data for one block. -/
def installPart (env : Environment) (file : ZCachedFile) (reply : ZFileReplyFromServer)
    (state : ZBlockCache × Bool) (blk : Nat) : Except Fault (ZBlockCache × Bool) := do
  let (cache, changed) ← file.installPiece env state.1 reply blk
    (UInt32.ofNat (partStart reply.first blk))
    (UInt32.ofNat (partEnd reply.first reply.count blk))
  return (cache, state.2 || changed)

theorem numBlocks_lt (file : ZCachedFile) : file.numBlocks < 65536 := by
  rw [numBlocks, computeNumBlocks, blockSize]
  omega

theorem installDataFrom_succ {left : Nat} {changed : Bool} (inside : blk ∈ reply.blocks)
    (known : blk < file.numBlocks) :
    file.installDataFrom env reply (left + 1) cache
        (UInt32.ofNat (reply.first + written reply.first reply.count blk)) changed = (do
      let (cache, changed) ← installPart env file reply (cache, changed) blk
      file.installDataFrom env reply left cache (UInt32.ofNat (reply.first +
        written reply.first reply.count (blk + 1))) changed) := by
  have bounds := mem_touched.mp inside
  have step := touched_step inside
  have few := file.numBlocks_lt
  have limit := reply.dataRange.finish.toNat_lt
  have ends : reply.first + reply.count = reply.dataRange.finish.toNat := by
    simp only [first, ZFileReplyFromServer.count, partStart, partEnd] at *
    omega
  have now : reply.first + written reply.first reply.count blk = partStart reply.first blk := by
    simp only [written, partStart, partEnd] at *
    omega
  have later : reply.first + written reply.first reply.count (blk + 1) =
      partEnd reply.first reply.count blk := by
    omega
  have start : (UInt32.ofNat (partStart reply.first blk)).toNat = partStart reply.first blk := by
    simp only [partEnd] at bounds
    exact toNat_ofNat_of_lt' (show _ < 2 ^ 32 by omega)
  have finish : (UInt32.ofNat ((blk + 1) * blockSize)).toNat = (blk + 1) * blockSize := by
    simp only [blockSize]
    exact toNat_ofNat_of_lt' (show _ < 2 ^ 32 by omega)
  have goes : UInt32.ofNat (partStart reply.first blk) < reply.dataRange.finish := by
    rw [lt_iff_toNat_lt, start]
    simp only [partEnd] at bounds
    omega
  have place : partStart reply.first blk / blockSize = blk := by
    simp only [partStart, partEnd, blockSize] at *
    omega
  have nextEnd : (if UInt32.ofNat ((blk + 1) * blockSize) < reply.dataRange.finish then
      UInt32.ofNat ((blk + 1) * blockSize) else reply.dataRange.finish) =
      UInt32.ofNat (partEnd reply.first reply.count blk) := by
    simp only [lt_iff_toNat_lt, finish, partEnd, ends]
    split
    · congr 1
      omega
    · rw [Nat.min_eq_left (by omega), UInt32.ofNat_toNat]
  rw [now, later, installDataFrom, if_pos goes, start, place, installPart]
  simp only [nextEnd, bind_assoc, pure_bind]

theorem installData_eq (ordered : reply.dataRange.start ≤ reply.dataRange.finish)
    (known : ∀ blk ∈ reply.blocks, blk < file.numBlocks) :
    file.installData env cache reply =
      reply.blocks.foldlM (installPart env file reply) (cache, false) := by
  have ends : reply.first + reply.count = reply.dataRange.finish.toNat := by
    rw [le_iff_toNat_le] at ordered
    simp only [first, ZFileReplyFromServer.count]
    omega
  have loop := @touched_induction reply.first reply.count
    (fun blk rest => ∀ left cache changed, left = file.numBlocks - blk →
      file.installDataFrom env reply left cache
          (UInt32.ofNat (reply.first + written reply.first reply.count blk)) changed =
        rest.foldlM (installPart env file reply) (cache, changed))
    (fun blk all left cache changed _ => by
      rw [all, ends, UInt32.ofNat_toNat]
      cases left <;> simp [installDataFrom])
    (fun blk rest inside induction left cache changed enough => by
      have small := known blk inside
      obtain ⟨left, rfl⟩ : ∃ fewer, left = fewer + 1 := ⟨file.numBlocks - blk - 1, by omega⟩
      rw [foldlM_cons, installDataFrom_succ inside small]
      congr 1
      funext after
      exact induction left after.1 after.2 (by omega))
  have run := loop _ cache false rfl
  rw [written_start, Nat.add_zero, first, UInt32.ofNat_toNat] at run
  exact run

end ZCachedFile

/-! ## One block -/

namespace ZBlockCacheRecord

variable {block after : ZBlockCacheRecord} {hash : Hash}

theorem ok_eq_ok_iff : (.ok block : Except Fault ZBlockCacheRecord) = .ok after ↔
      after.data = block.data ∧ after.valid = block.valid := by
  constructor
  · rintro ⟨⟩
    exact ⟨rfl, rfl⟩
  · rintro ⟨data, valid⟩
    cases block
    cases after
    cases data
    cases valid
    rfl

theorem grow_eq_ok_iff {bytes : List UInt8} : block.grow bytes = .ok after ↔
      block.data.length + bytes.length ≤ blockSize ∧
        after.data = block.data ++ bytes ∧ after.valid = block.valid := by
  rw [grow, ← length_append]
  split
  · rename_i fits
    exact ok_eq_ok_iff.trans (and_iff_right fits).symm
  · rename_i full
    refine ⟨fun grown => ?_, fun fits => absurd fits.1 full⟩
    cases grown

theorem loadDataInternal_eq_ok_iff
    {source : List UInt8} {logicalSize : Nat} (short : source.length ≤ logicalSize) :
    block.loadDataInternal source logicalSize = .ok after ↔
      block.data.length + logicalSize ≤ blockSize ∧ after.data =
          block.data ++ (source ++ List.replicate (logicalSize - source.length) 0) ∧
        after.valid = block.valid := by
  simp only [loadDataInternal, bind_eq_ok_iff, grow_eq_ok_iff, length_replicate]
  constructor
  · rintro ⟨middle, ⟨-, data, valid⟩, fits, rest, same⟩
    rw [data, length_append] at fits
    exact ⟨by omega, by rw [rest, data, append_assoc], same.trans valid⟩
  · rintro ⟨fits, data, valid⟩
    have room : block.data.length + source.length ≤ blockSize := by omega
    refine ⟨⟨block.data ++ source, block.valid, by rwa [length_append], ?_⟩,
      ⟨room, rfl, rfl⟩, ?_, ?_, valid⟩
    · intro whole
      have := block.whole whole
      rw [length_append]
      omega
    · rw [length_append]
      omega
    · rw [data, append_assoc]

theorem validate_eq_ok_iff : block.validate env hash = .ok after ↔
      block.valid = false ∧ (block.data.length = blockSize → env.zhash block.data = hash) ∧
        after.data = block.data ∧ after.valid = decide (block.data.length = blockSize) := by
  rw [validate]
  split
  · rename_i whole
    simp only [bind_eq_ok_iff, ensure_eq_ok_iff, exists_const, whole, decide_true, true_implies]
    exact and_congr_right fun _ => and_congr_right fun _ => ok_eq_ok_iff
  · rename_i part
    simp only [bind_eq_ok_iff, ensure_eq_ok_iff, exists_const, part, decide_false,
      false_implies, true_and]
    refine and_congr_right fun invalid => ?_
    rw [pure_eq_ok, ok_eq_ok_iff, invalid]

theorem completeWithZeros_eq_ok_iff
    (checked : block.valid = decide (block.data.length = blockSize)) :
    block.completeWithZeros env hash = .ok after ↔
      (block.data.length < blockSize → env.zhash (block.data ++
          List.replicate (blockSize - block.data.length) 0) = hash) ∧
        after.data = block.data ++ List.replicate (blockSize - block.data.length) 0 ∧
        after.valid = true := by
  have bounded := block.bounded
  rw [completeWithZeros]
  split
  · rename_i part
    have invalid : block.valid = false := by
      rw [checked, decide_eq_false_iff_not]
      omega
    have whole : (block.data ++
        List.replicate (blockSize - block.data.length) (0 : UInt8)).length = blockSize := by
      rw [length_append, length_replicate]
      omega
    have none : ([] : List UInt8).length ≤ blockSize - block.data.length := Nat.zero_le _
    simp only [bind_eq_ok_iff, loadDataInternal_eq_ok_iff none, validate_eq_ok_iff,
      nil_append, length_nil, Nat.sub_zero, part, true_implies]
    constructor
    · rintro ⟨loaded, ⟨-, data, -⟩, -, same, rest, valid⟩
      rw [data] at same rest valid
      exact ⟨same whole, rest, valid.trans (decide_eq_true whole)⟩
    · rintro ⟨same, rest, valid⟩
      refine ⟨⟨_, false, Nat.le_of_eq whole, fun _ => whole⟩, ⟨by omega, rfl, invalid.symm⟩,
        rfl, fun _ => same, rest, ?_⟩
      exact valid.trans (decide_eq_true whole).symm
  · rename_i full
    have whole : block.data.length = blockSize := by omega
    have zeros : blockSize - block.data.length = 0 := by omega
    rw [zeros, replicate_zero, append_nil]
    rw [decide_eq_true whole] at checked
    rw [ok_eq_ok_iff, checked]
    exact (and_iff_right fun part => absurd part full).symm

/-- `receive_data`, and `complete_with_zeros` for the last part of a file. -/
def takePart (env : Environment) (hash : Hash) (last : Bool) (block : ZBlockCacheRecord)
    (start finish : Nat) (payload : List UInt8) (offset : UInt32) :
    Except Fault (ZBlockCacheRecord × Bool) := do
  let (block, changed) ← block.receiveData env hash start finish payload offset
  if last then do
    let block ← block.completeWithZeros env hash
    return (block, changed)
  else
    return (block, changed)

/-- The bytes of a part, and zeros behind the last part of a file. -/
def filled (last : Bool) (bytes : List UInt8) : List UInt8 :=
  if last then bytes ++ List.replicate (blockSize - bytes.length) 0 else bytes

section Empty

variable {start finish : Nat} {payload : List UInt8} {offset : UInt32} {changed last : Bool}
  {source received : List UInt8}
  (read : (List.range' offset.toNat
    (if (UInt32.ofNat payload.length - offset).toNat < finish - start then
      (UInt32.ofNat payload.length - offset).toNat else finish - start)).map
    (fun place => payload.getD place (env.behind place)) = source)

include read

theorem source_length_le : source.length ≤ finish - start := by
  rw [← read, length_map, length_range']
  split <;> omega

variable (empty : block.data = []) (fits : finish ≤ blockSize)
  (whole : source ++ List.replicate (finish - start - source.length) 0 = received)

include empty fits whole

theorem receiveData_empty_eq_ok_iff :
    block.receiveData env hash start finish payload offset = .ok (after, changed) ↔
      start = 0 ∧ (received.length = blockSize → env.zhash received = hash) ∧
        after.data = received ∧ after.valid = decide (received.length = blockSize) ∧
        changed = true := by
  have invalid : block.valid = false := by
    by_contra valid
    have := block.whole (Bool.not_eq_false _ ▸ valid)
    rw [empty] at this
    exact absurd this (by decide)
  have short := source_length_le read
  rw [receiveData, empty, length_nil, if_neg (Nat.not_lt_zero _)]
  simp only [read, bind_eq_ok_iff, ensure_eq_ok_iff, exists_const,
    loadDataInternal_eq_ok_iff short, validate_eq_ok_iff, empty, nil_append, whole]
  constructor
  · rintro ⟨zero, loaded, ⟨-, data, -⟩, checked, ⟨-, same, rest, valid⟩, ⟨⟩⟩
    rw [data] at same rest valid
    exact ⟨zero.symm, same, rest, valid, rfl⟩
  · rintro ⟨rfl, same, rest, valid, rfl⟩
    have length_eq : received.length = finish := by
      rw [← whole, length_append, length_replicate]
      omega
    have room : received.length ≤ blockSize := by omega
    exact ⟨rfl, ⟨received, false, room, fun valid => absurd valid Bool.false_ne_true⟩,
      ⟨by rw [length_nil]; omega, rfl, invalid.symm⟩, after,
      ⟨rfl, same, rest, valid⟩, rfl⟩

theorem takePart_empty_eq_ok_iff :
    block.takePart env hash last start finish payload offset = .ok (after, changed) ↔ start = 0 ∧
        ((filled last received).length = blockSize → env.zhash (filled last received) = hash) ∧
        after.data = filled last received ∧
        after.valid = decide (after.data.length = blockSize) ∧ changed = true := by
  have received_iff := fun middle => @receiveData_empty_eq_ok_iff env block middle hash start
    finish payload offset changed source received read empty fits whole
  have short : received.length ≤ blockSize := by
    have physical := source_length_le read
    rw [← whole, length_append, length_replicate]
    omega
  cases last with
  | false =>
    simp only [Bool.false_eq_true, if_false, filled]
    constructor
    · intro taken
      obtain ⟨⟨middle, now⟩, took, ⟨⟩⟩ := of_bind taken
      obtain ⟨aligned, same, data, valid, changes⟩ := (received_iff _).mp took
      exact ⟨aligned, same, data, data ▸ valid, changes⟩
    · rintro ⟨aligned, same, data, valid, changes⟩
      exact bind_eq_ok_iff.mpr ⟨(after, changed),
        (received_iff _).mpr ⟨aligned, same, data, data ▸ valid, changes⟩, rfl⟩
  | true =>
    have full : (received ++ List.replicate (blockSize - received.length) 0).length =
        blockSize := by
      rw [length_append, length_replicate]
      omega
    simp only [if_true, filled, full, true_implies]
    constructor
    · intro taken
      obtain ⟨⟨middle, now⟩, took, rounded⟩ := of_bind taken
      obtain ⟨block, completion, ⟨⟩⟩ := of_bind rounded
      obtain ⟨aligned, same, data, valid, changes⟩ := (received_iff _).mp took
      obtain ⟨padded, rest, holds⟩ :=
        (completeWithZeros_eq_ok_iff (by rw [valid, data])).mp completion
      rw [data] at padded rest
      refine ⟨aligned, ?_, rest, ?_, changes⟩
      · by_cases part : received.length < blockSize
        · exact padded part
        · have zeros : blockSize - received.length = 0 := by omega
          rw [zeros, replicate_zero, append_nil]
          exact same (by omega)
      · rw [holds, rest, decide_eq_true full]
    · rintro ⟨aligned, same, data, valid, changes⟩
      refine bind_eq_ok_iff.mpr ⟨(⟨received, decide (received.length = blockSize), short,
        of_decide_eq_true⟩, changed), (received_iff _).mpr ⟨aligned, ?_, rfl, rfl, changes⟩,
        bind_eq_ok_iff.mpr ⟨after, (completeWithZeros_eq_ok_iff rfl).mpr
          ⟨fun _ => same, data, ?_⟩, rfl⟩⟩
      · intro all
        rw [all, Nat.sub_self, replicate_zero, append_nil] at same
        exact same
      · rw [valid, data, decide_eq_true full]

end Empty

theorem takePart_full {start finish : Nat} {payload : List UInt8} {offset : UInt32} {last : Bool}
    (full : block.data.length = blockSize) (inside : start < finish)
    (fits : finish ≤ blockSize) :
    block.takePart env hash last start finish payload offset = .ok (block, false) := by
  have starts : start < block.data.length := by omega
  have ends : finish ≤ block.data.length := by omega
  have completes : block.completeWithZeros env hash = .ok block := if_neg (by omega)
  rw [takePart, receiveData, if_pos starts, ensure_true ends, ok_bind, pure_eq_ok, ok_bind]
  cases last with
  | false => rfl
  | true => simp only [completes, if_true, ok_bind, pure_eq_ok]

end ZBlockCacheRecord

namespace ZCachedFile

/-- The hash at the leaf of a block. -/
def leafHash (file : ZCachedFile) (blk : Nat) : Hash :=
  (file.tree (2 ^ file.treeDepth - 1 + blk)).hash

/-- The data complete the file. -/
def LastPiece (file : ZCachedFile) (reply : ZFileReplyFromServer) (blk : Nat) : Prop :=
  blk = file.numBlocks - 1 ∧
    partEnd reply.first reply.count blk = file.getFilelen.toNat

instance (file : ZCachedFile) (reply : ZFileReplyFromServer) (blk : Nat) :
    Decidable (file.LastPiece reply blk) :=
  inferInstanceAs (Decidable (_ ∧ _))

/-- The record under the hash at the leaf of a block. -/
def recordAt (file : ZCachedFile) (cache : ZBlockCache) (blk : Nat) : ZBlockCacheRecord :=
  (cache (file.leafHash blk)).getD .new

/-- The cache with a record for a block. -/
def withRecord (file : ZCachedFile) (cache : ZBlockCache) (blk : Nat) : ZBlockCache :=
  match cache (file.leafHash blk) with
  | some _ => cache
  | none => Function.update cache (file.leafHash blk) (some .new)

theorem lookupBlock_eq {required : ValidityState} (leaf : blk < 2 ^ file.treeDepth) :
    file.lookupBlock cache blk required = .ok
      (if (file.tree (2 ^ file.treeDepth - 1 + blk)).state.rank < required.rank then
        (none, cache)
      else (some (file.leafHash blk, file.recordAt cache blk), file.withRecord cache blk)) := by
  have index := treeIndex_leaf_eq_ok_iff.mpr ⟨leaf, rfl⟩
  rw [lookupBlock, findBlockHash, treeSize, index, recordAt, withRecord, leafHash]
  by_cases low : (file.tree (2 ^ file.treeDepth - 1 + blk)).state.rank < required.rank
  · simp only [ok_bind, pure_eq_ok, if_pos low]
  · simp only [ok_bind, pure_eq_ok, if_neg low]
    cases cache (file.tree (2 ^ file.treeDepth - 1 + blk)).hash with
    | none => rfl
    | some block => rfl

theorem lookupBlock_known (leaf : blk < 2 ^ file.treeDepth)
    (known : (file.tree (2 ^ file.treeDepth - 1 + blk)).state ≠ .unknown) :
    file.lookupBlock cache blk .tentative =
      .ok (some (file.leafHash blk, file.recordAt cache blk), file.withRecord cache blk) := by
  have rank : ¬(file.tree (2 ^ file.treeDepth - 1 + blk)).state.rank <
      ValidityState.tentative.rank := by
    cases state : (file.tree (2 ^ file.treeDepth - 1 + blk)).state with
    | unknown => exact absurd state known
    | tentative => decide
    | validated => decide
    | margin => decide
  rw [lookupBlock_eq leaf, if_neg rank]

theorem pieceBytes_length : (reply.pieceBytes env blk).length =
      partEnd reply.first reply.count blk - partStart reply.first blk := by
  rw [pieceBytes, length_append, length_replicate, length_map, readPlaces, length_range']
  split <;> omega

/-- What the record of a block holds that took its part. -/
def storedBytes (env : Environment) (file : ZCachedFile) (reply : ZFileReplyFromServer)
    (blk : Nat) : List UInt8 :=
  ZBlockCacheRecord.filled (file.LastPiece reply blk) (reply.pieceBytes env blk)

/-- A record without data accepts the part of a block. -/
def Accepts (env : Environment) (file : ZCachedFile) (reply : ZFileReplyFromServer)
    (blk : Nat) : Prop :=
  reply.first ≤ blk * blockSize ∧
    ((file.storedBytes env reply blk).length = blockSize →
      env.zhash (file.storedBytes env reply blk) = file.leafHash blk)

section Part

variable {changed : Bool} {out : ZBlockCache × Bool}
  (inside : blk ∈ reply.blocks) (small : blk < file.numBlocks)

include inside small

theorem part_places :
    (UInt32.ofNat (partStart reply.first blk) - UInt32.ofNat (blk * blockSize)).toNat =
        partStart reply.first blk - blk * blockSize ∧
      (UInt32.ofNat (partEnd reply.first reply.count blk) - UInt32.ofNat (blk * blockSize)).toNat =
        partEnd reply.first reply.count blk - blk * blockSize ∧
      UInt32.ofNat (partStart reply.first blk) - reply.dataRange.start =
        UInt32.ofNat (partStart reply.first blk - reply.first) ∧
      (UInt32.ofNat (partStart reply.first blk - reply.first)).toNat =
        partStart reply.first blk - reply.first ∧
      (UInt32.ofNat (partEnd reply.first reply.count blk)).toNat =
        partEnd reply.first reply.count blk := by
  have bounds := mem_touched.mp inside
  have few := file.numBlocks_lt
  have limit : partEnd reply.first reply.count blk < 2 ^ 32 := by
    simp only [partEnd, blockSize]
    omega
  have low : reply.dataRange.start.toNat ≤ partStart reply.first blk := by
    rw [partStart, first]
    omega
  have bottom : blk * blockSize ≤ partStart reply.first blk := by
    rw [partStart]
    omega
  have block : (UInt32.ofNat (blk * blockSize)).toNat = blk * blockSize :=
    toNat_ofNat_of_lt' (show _ < 2 ^ 32 by omega)
  have start := toNat_ofNat_of_lt' (show partStart reply.first blk < 2 ^ 32 by omega)
  have finish := toNat_ofNat_of_lt' limit
  have offset := toNat_ofNat_of_lt' (show partStart reply.first blk - reply.first < 2 ^ 32 by omega)
  refine ⟨?_, ?_, ?_, offset, finish⟩
  · rw [UInt32.toNat_sub_of_le _ _ (by rw [le_iff_toNat_le]; omega), start, block]
  · rw [UInt32.toNat_sub_of_le _ _ (by rw [le_iff_toNat_le]; omega), finish, block]
  · rw [← UInt32.toNat_inj, offset,
      UInt32.toNat_sub_of_le _ _ (by rw [le_iff_toNat_le]; omega), start, first]

variable (known : (file.tree (2 ^ file.treeDepth - 1 + blk)).state ≠ .unknown)

include known

theorem installPart_eq : installPart env file reply (cache, changed) blk = (do
      let (block, now) ← (file.recordAt cache blk).takePart env
        (file.leafHash blk) (file.LastPiece reply blk)
        (partStart reply.first blk - blk * blockSize)
        (partEnd reply.first reply.count blk - blk * blockSize) reply.getPayload
        (UInt32.ofNat (partStart reply.first blk - reply.first))
      return (Function.update cache (file.leafHash blk) (some block), changed || now)) := by
  obtain ⟨start, finish, offset, -, last⟩ := part_places inside small
  have leaf : blk < 2 ^ file.treeDepth :=
    lt_two_pow_computeTreeDepth small (by have := file.numBlocks_lt; omega)
  have same : (blk = file.numBlocks - 1 ∧
      UInt32.ofNat (partEnd reply.first reply.count blk) = file.getFilelen) ↔
      file.LastPiece reply blk := by
    rw [← UInt32.toNat_inj, last]
    rfl
  have update : ∀ block,
      Function.update (file.withRecord cache blk) (file.leafHash blk) (some block) =
        Function.update cache (file.leafHash blk) (some block) := by
    intro block
    rw [withRecord]
    cases cache (file.leafHash blk) with
    | none => exact Function.update_idem _ _ _
    | some _ => rfl
  simp only [installPart, installPiece, lookupBlock_known leaf known, ok_bind, start,
    finish, offset, same, update, bind_assoc, ZBlockCacheRecord.takePart, decide_eq_true_eq]
  congr 1
  funext received
  split
  · simp only [bind_assoc, pure_bind]
  · rfl

theorem installPart_empty_eq_ok_iff (empty : (file.recordAt cache blk).data = []) :
    installPart env file reply (cache, changed) blk = .ok out ↔ file.Accepts env reply blk ∧
        ∃ block : ZBlockCacheRecord, block.data = file.storedBytes env reply blk ∧
          block.valid = decide (block.data.length = blockSize) ∧
          out = (Function.update cache (file.leafHash blk) (some block), true) := by
  obtain ⟨-, -, -, offset, -⟩ := part_places inside small
  have fits : partEnd reply.first reply.count blk - blk * blockSize ≤ blockSize := by
    simp only [partEnd, blockSize]
    omega
  have len : partEnd reply.first reply.count blk - blk * blockSize -
      (partStart reply.first blk - blk * blockSize) =
      partEnd reply.first reply.count blk - partStart reply.first blk := by
    rw [partStart]
    omega
  have starts : partStart reply.first blk - blk * blockSize = 0 ↔
      reply.first ≤ blk * blockSize := by
    rw [partStart]
    omega
  have took_iff := fun block now => @ZBlockCacheRecord.takePart_empty_eq_ok_iff env
    (file.recordAt cache blk) block (file.leafHash blk)
    (partStart reply.first blk - blk * blockSize)
    (partEnd reply.first reply.count blk - blk * blockSize) reply.getPayload
    (UInt32.ofNat (partStart reply.first blk - reply.first)) now
    (file.LastPiece reply blk) _ (reply.pieceBytes env blk) rfl empty fits
    (by rw [len, offset]; rfl)
  rw [installPart_eq inside small known, Accepts, ← starts, storedBytes]
  constructor
  · intro installed
    obtain ⟨⟨block, now⟩, took, ⟨⟩⟩ := of_bind installed
    obtain ⟨aligned, same, data, valid, changes⟩ := (took_iff _ _).mp took
    exact ⟨⟨aligned, same⟩, block, data, valid, by rw [changes, Bool.or_true]⟩
  · rintro ⟨⟨aligned, same⟩, block, data, valid, rfl⟩
    refine bind_eq_ok_iff.mpr ⟨(block, true),
      (took_iff _ _).mpr ⟨aligned, same, data, valid, rfl⟩, ?_⟩
    simp only [Bool.or_true, pure_eq_ok]

theorem installPart_full {block : ZBlockCacheRecord}
    (found : cache (file.leafHash blk) = some block)
    (full : block.data.length = blockSize) :
    installPart env file reply (cache, changed) blk = .ok (cache, changed) := by
  have bounds := mem_touched.mp inside
  have order : partStart reply.first blk - blk * blockSize <
      partEnd reply.first reply.count blk - blk * blockSize := by
    rw [partStart] at *
    omega
  have fits : partEnd reply.first reply.count blk - blk * blockSize ≤ blockSize := by
    simp only [partEnd, blockSize]
    omega
  rw [installPart_eq inside small known, recordAt, found, Option.getD_some,
    ZBlockCacheRecord.takePart_full full order fits, ok_bind]
  simp only [Bool.or_false, ← found, Function.update_eq_self, pure_eq_ok]

end Part

end ZCachedFile

end Embassies.Zftp
