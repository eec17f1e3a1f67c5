import Embassies.Zftp.Parts
import Embassies.Zftp.RequestPath

/-!
# The budget of a request

`_build_request` goes through the blocks of the missing range and asks for hashes and data
as long as the reply fits into a packet.  The data that are asked for have to stay
contiguous, but only blocks whose leaf is known are asked for: when a block with a known leaf
comes after one whose leaf is not known and an earlier one whose leaf is, the assertion in
`accumulate` fails, unless the packet is full before.
-/

namespace Embassies.Zftp

open Library Library.Checked Library.HeapTree ZCachedFile List UInt32

theorem toInt_toInt32 (value : UInt32) : value.toInt32.toInt = (value.toNat : Int).bmod (2 ^ 32) :=
  BitVec.toInt_eq_toNat_bmod value.toBitVec

theorem toInt_toInt32_of_lt {value : UInt32} (small : value.toNat < 2 ^ 31) :
    value.toInt32.toInt = value.toNat := by
  rw [toInt_toInt32, Int.bmod]
  omega

/-- The end of a block. -/
abbrev blockEnd (blk : Nat) : UInt32 := UInt32.ofNat ((blk + 1) * blockSize)

/-! ## What a request costs -/

namespace DataRange

/-- The number of bytes of a range. -/
def count (range : DataRange) : Nat := range.finish.toNat - range.start.toNat

/-- The blocks that a range touches. -/
def blocks (range : DataRange) : List Nat := touched range.start.toNat range.count

/-- The blocks of a range in front of a block. -/
def blocksBefore (range : DataRange) (blk : Nat) : List Nat :=
  List.range' (range.start.toNat / blockSize) (blk - range.start.toNat / blockSize)

/-- The number of bytes of a range in a block. -/
def bytesIn (range : DataRange) (blk : Nat) : Nat :=
  partEnd range.start.toNat range.count blk - partStart range.start.toNat blk

variable {range other : DataRange}

/-- Where a range starts in a block. -/
abbrev startIn (range : DataRange) (blk : Nat) : UInt32 :=
  UInt32.ofNat (partStart range.start.toNat blk)

/-- A range that comes behind another one joins it only where that one ends. -/
theorem accumulate_behind (nonempty : range.start.toNat < range.finish.toNat)
    (behind : range.finish.toNat ≤ other.start.toNat)
    (ordered : other.start.toNat ≤ other.finish.toNat) :
    range.accumulate other = if other.start = range.finish then .ok ⟨range.start, other.finish⟩
      else .error .assertion := by
  have notEmpty : ¬range.IsEmpty := by
    rw [IsEmpty, ← UInt32.toNat_inj]
    omega
  have notBefore : ¬other.finish = range.start := by
    rw [← UInt32.toNat_inj]
    omega
  rw [accumulate, maybeAccumulate, if_neg notEmpty, if_neg notBefore]
  by_cases adjacent : other.start = range.finish
  · rw [if_pos adjacent, if_pos adjacent]
  · have outside : ¬(other.start ≥ range.start ∧ other.finish ≤ range.finish) := by
      rintro ⟨-, inside⟩
      rw [le_iff_toNat_le] at inside
      rw [← UInt32.toNat_inj] at adjacent
      omega
    rw [if_neg adjacent, if_neg outside, if_neg adjacent]

theorem size_toNat (ordered : range.start.toNat ≤ range.finish.toNat) :
    range.size.toNat = range.finish.toNat - range.start.toNat := by
  rw [size, UInt32.toNat_sub_of_le _ _ (le_iff_toNat_le.mpr ordered)]

end DataRange

namespace ZCachedFile

/-- The leaf of a block is validated. -/
def LeafKnown (file : ZCachedFile) (blk : Nat) : Prop :=
  (file.tree (2 ^ file.treeDepth - 1 + blk)).state = .validated

instance (file : ZCachedFile) (blk : Nat) : Decidable (file.LeafKnown blk) :=
  inferInstanceAs (Decidable (_ = _))

/-- The hashes that are asked for in front of a block. -/
def hashesBefore (file : ZCachedFile) (missing : DataRange) (blk : Nat) : Finset Nat :=
  ((missing.blocksBefore blk).flatMap fun other =>
    file.unknownPath other file.treeDepth).toFinset

/-- The number of bytes in front of a block whose leaves are known. -/
def bytesBefore (file : ZCachedFile) (missing : DataRange) (blk : Nat) : Nat :=
  ((missing.blocksBefore blk).map fun other =>
    if file.LeafKnown other then missing.bytesIn other else 0).sum

/-- The size of a reply with all that is asked for in front of a block. -/
def costBefore (file : ZCachedFile) (missing : DataRange) (blk : Nat) : Nat :=
  dataPacketSize + merkleRecordSize * (file.hashesBefore missing blk).card +
    file.bytesBefore missing blk

/-- A block with a known leaf comes after one whose leaf is not known and one whose leaf
is. -/
structure Gap (file : ZCachedFile) (missing : DataRange) (blk : Nat) : Prop where
  touched : blk ∈ missing.blocks
  known : file.LeafKnown blk
  unknown : ¬file.LeafKnown (blk - 1)
  earlier : ∃ other ∈ missing.blocks, other < blk ∧ file.LeafKnown other

variable {file : ZCachedFile} {missing : DataRange} {blk : Nat}

theorem mem_blocks_iff : blk ∈ missing.blocks ↔ partStart missing.start.toNat blk <
      partEnd missing.start.toNat missing.count blk :=
  mem_touched

theorem first_le (inside : blk ∈ missing.blocks) : missing.start.toNat / blockSize ≤ blk := by
  rw [DataRange.blocks, touched, mem_range'_1] at inside
  exact inside.1

section Sums

variable (after : missing.start.toNat / blockSize ≤ blk)

include after

theorem mem_blocks_of_above {high : Nat} (below : blk ≤ high)
    (last : high ∈ missing.blocks) : blk ∈ missing.blocks := by
  rw [DataRange.blocks, touched, mem_range'_1] at *
  exact ⟨after, Nat.lt_of_le_of_lt below last.2⟩

theorem blocksBefore_succ : missing.blocksBefore (blk + 1) = missing.blocksBefore blk ++ [blk] := by
  have step : blk + 1 - missing.start.toNat / blockSize =
      blk - missing.start.toNat / blockSize + 1 := by omega
  have last : missing.start.toNat / blockSize +
      (blk - missing.start.toNat / blockSize) = blk := by omega
  rw [DataRange.blocksBefore, step, range'_1_concat, last, DataRange.blocksBefore]

theorem hashesBefore_succ : file.hashesBefore missing (blk + 1) =
      file.hashesBefore missing blk ∪ file.unknownAncestors blk := by
  rw [hashesBefore, blocksBefore_succ after, flatMap_append, toFinset_append,
    flatMap_singleton, hashesBefore, unknownAncestors]

theorem bytesBefore_succ : file.bytesBefore missing (blk + 1) = file.bytesBefore missing blk +
      if file.LeafKnown blk then missing.bytesIn blk else 0 := by
  rw [bytesBefore, blocksBefore_succ after, map_append, sum_append, bytesBefore,
    map_singleton, sum_singleton]

theorem costBefore_le_succ : file.costBefore missing blk ≤ file.costBefore missing (blk + 1) := by
  have hashes : (file.hashesBefore missing blk).card ≤
      (file.hashesBefore missing (blk + 1)).card := by
    rw [hashesBefore_succ after]
    exact Finset.card_le_card Finset.subset_union_left
  have bytes := @bytesBefore_succ file missing blk after
  have := Nat.mul_le_mul_left merkleRecordSize hashes
  rw [costBefore, costBefore]
  omega

theorem costBefore_mono {later : Nat} (above : blk ≤ later) :
    file.costBefore missing blk ≤ file.costBefore missing later := by
  induction above with
  | refl => exact Nat.le_refl _
  | step above induction =>
    exact induction.trans (costBefore_le_succ (after.trans above))

end Sums

theorem unknownAncestors_of_leafKnown (known : file.LeafKnown blk) :
    file.unknownAncestors blk = ∅ := by
  rw [unknownAncestors]
  cases depth : file.treeDepth with
  | zero => rfl
  | succ level =>
    have leaf : ¬file.Unknown (file.pathLocation blk (level + 1)) := by
      have here : file.pathLocation blk (level + 1) = 2 ^ file.treeDepth - 1 + blk := by
        rw [pathLocation, ← depth, Nat.sub_self, Nat.pow_zero, Nat.div_one, node]
      rw [here, Unknown, known]
      decide
    rw [unknownPath, if_neg leaf]
    rfl

theorem hashesBefore_known (after : missing.start.toNat / blockSize ≤ blk)
    (known : file.LeafKnown blk) :
    file.hashesBefore missing (blk + 1) = file.hashesBefore missing blk := by
  rw [hashesBefore_succ after, unknownAncestors_of_leafKnown known, Finset.union_empty]

theorem partStart_toNat (bounded : blk * blockSize < 2 ^ 32) :
    (missing.startIn blk).toNat = partStart missing.start.toNat blk :=
  toNat_ofNat_of_lt' (Nat.max_lt.mpr ⟨missing.start.toNat_lt, bounded⟩)

end ZCachedFile

/-! ## What a builder has used -/

namespace RequestBuilder

variable {env : Environment} {builder : RequestBuilder}

/-- The size of the reply to what was asked for. -/
def replySize (builder : RequestBuilder) : Nat :=
  dataPacketSize + merkleRecordSize * (builder.committedTreeLocations.length +
    builder.tentativeTreeLocations.length) + builder.requestRange.size.toNat

theorem available_eq (env : Environment) (builder : RequestBuilder) : builder.available env =
      (env.maxPayload - UInt32.ofNat builder.replySize).toInt32 := by
  have used : UInt32.ofNat builder.replySize = UInt32.ofNat (dataPacketSize +
      merkleRecordSize * (builder.committedTreeLocations.length +
        builder.tentativeTreeLocations.length)) + builder.requestRange.size := by
    rw [replySize, ofNat_add, UInt32.ofNat_toNat]
  rw [available, ← used, toInt32_sub]

theorem available_toInt (small : env.maxPayload.toNat < 2 ^ 31)
    (close : builder.replySize ≤ env.maxPayload.toNat + 2 ^ 31) :
    (builder.available env).toInt = (env.maxPayload.toNat : Int) - builder.replySize := by
  rw [available_eq, toInt_toInt32, UInt32.toNat_sub, toNat_ofNat', Int.bmod]
  omega

theorem available_toUInt32 (room : builder.replySize ≤ env.maxPayload.toNat) :
    (builder.available env).toUInt32.toNat = env.maxPayload.toNat - builder.replySize := by
  have limit := env.maxPayload.toNat_lt
  have used := toNat_ofNat_of_lt' (show builder.replySize < 2 ^ 32 by omega)
  rw [available_eq, toUInt32_toInt32, UInt32.toNat_sub_of_le, used]
  rw [le_iff_toNat_le, used]
  exact room

/-! ## The loop -/

variable {file : ZCachedFile} {missing : DataRange} {blk : Nat}

/-- The data that were asked for in front of a block are contiguous. -/
def Contiguous (file : ZCachedFile) (missing : DataRange) (blk : Nat) (range : DataRange) :
    Prop :=
  (range = ⟨0, 0⟩ ∧ ∀ other ∈ missing.blocks, other < blk → ¬file.LeafKnown other) ∨
    (range.start.toNat < range.finish.toNat ∧
      ∃ last ∈ missing.blocks, last < blk ∧ file.LeafKnown last ∧
        (∀ other ∈ missing.blocks, last < other → other < blk → ¬file.LeafKnown other) ∧
        range.finish.toNat = partEnd missing.start.toNat missing.count last)

/-- What a builder holds in front of a block. -/
structure Running (file : ZCachedFile) (missing : DataRange) (blk : Nat)
    (builder : RequestBuilder) : Prop where
  distinct : builder.committedTreeLocations.Nodup
  hashes : builder.committedTreeLocations.toFinset = file.hashesBefore missing blk
  tentative : builder.tentativeTreeLocations = []
  bytes : builder.requestRange.size.toNat = file.bytesBefore missing blk
  contiguous : Contiguous file missing blk builder.requestRange

theorem Running.replySize_eq (running : Running file missing blk builder) :
    builder.replySize = file.costBefore missing blk := by
  rw [replySize, costBefore, running.bytes, running.tentative, ← running.hashes,
    toFinset_card_of_nodup running.distinct, length_nil, Nat.add_zero]

theorem Running.asked_eq (running : Running file missing blk builder) :
    builder.asked = file.hashesBefore missing blk := by
  rw [asked, running.tentative, append_nil, running.hashes]

theorem running_first :
    Running file missing (missing.start.toNat / blockSize) ⟨[], [], ⟨0, 0⟩⟩ := by
  have none : missing.blocksBefore (missing.start.toNat / blockSize) = [] := by
    rw [DataRange.blocksBefore, Nat.sub_self]
    rfl
  refine ⟨nodup_nil, ?_, rfl, ?_, .inl ⟨rfl, ?_⟩⟩
  · rw [hashesBefore, none]
    rfl
  · rw [bytesBefore, none, DataRange.size, UInt32.sub_self]
    exact UInt32.toNat_zero
  · exact fun other member less => absurd less (Nat.not_lt.mpr (first_le member))

theorem hashesBefore_closed
    (leaves : ∀ other ∈ missing.blocksBefore blk, other < 2 ^ file.treeDepth) :
    file.Closed (file.hashesBefore missing blk) := by
  rw [hashesBefore]
  generalize missing.blocksBefore blk = others at leaves
  induction others with
  | nil => exact Closed.empty
  | cons other others induction =>
    rw [flatMap_cons, toFinset_append]
    exact (unknownPath_closed (leaves other mem_cons_self) (Nat.le_refl _)).union
      (induction fun later member => leaves later (mem_cons_of_mem _ member))

theorem Running.requestHashAncestors
    (running : Running file missing blk builder) (paired : file.Paired)
    (after : missing.start.toNat / blockSize ≤ blk)
    (leaf : blk < 2 ^ file.treeDepth) :
    ∃ next, builder.requestHashAncestors file blk = .ok next ∧ builder.Extends next ∧
      next.asked = file.hashesBefore missing (blk + 1) ∧
      next.replySize = dataPacketSize +
        merkleRecordSize * (file.hashesBefore missing (blk + 1)).card +
        file.bytesBefore missing blk := by
  have distinct : builder.Distinct := by
    rw [Distinct, running.tentative, append_nil]
    exact running.distinct
  have closed : file.Closed builder.asked := by
    rw [running.asked_eq]
    refine hashesBefore_closed fun other member => ?_
    rw [DataRange.blocksBefore, mem_range'_1] at member
    omega
  obtain ⟨next, found, grows, all⟩ := requestHashAncestors_spec paired leaf distinct closed
  rw [running.asked_eq, ← hashesBefore_succ after] at all
  refine ⟨next, found, grows, all, ?_⟩
  rw [replySize, ← length_append, ← toFinset_card_of_nodup grows.distinct,
    grows.range, running.bytes]
  rw [asked] at all
  rw [all]

variable {next : RequestBuilder}

section Running

variable (running : Running file missing blk builder)

include running

theorem Running.commit {later : Nat} (grows : builder.Extends next)
    (all : next.asked = file.hashesBefore missing later)
    (bytes : file.bytesBefore missing later = file.bytesBefore missing blk)
    (contiguous : Contiguous file missing later builder.requestRange) :
    Running file missing later next.commit := by
  have order := next.commit_perm
  refine ⟨order.nodup_iff.mpr grows.distinct, ?_, rfl, ?_, ?_⟩
  · rw [toFinset_eq_of_perm _ _ order]
    exact all
  · rw [bytes, ← running.bytes, ← grows.range]
    rfl
  · rw [← grows.range] at contiguous
    exact contiguous

theorem Running.commit_unknown
    (after : missing.start.toNat / blockSize ≤ blk) (unknown : ¬file.LeafKnown blk)
    (grows : builder.Extends next)
    (all : next.asked = file.hashesBefore missing (blk + 1)) :
    Running file missing (blk + 1) next.commit := by
  refine running.commit grows all (by rw [bytesBefore_succ after, if_neg unknown, Nat.add_zero]) ?_
  rcases running.contiguous with ⟨empty, none⟩ | ⟨nonempty, last, member, less, known,
    between, ends⟩
  · refine .inl ⟨empty, fun other touches below => ?_⟩
    rcases Nat.lt_succ_iff_lt_or_eq.mp below with earlier | rfl
    · exact none other touches earlier
    · exact unknown
  · refine .inr ⟨nonempty, last, member, Nat.lt_succ_of_lt less, known, ?_, ends⟩
    intro other touches above below
    rcases Nat.lt_succ_iff_lt_or_eq.mp below with earlier | rfl
    · exact between other touches above earlier
    · exact unknown

theorem Running.commit_known
    (after : missing.start.toNat / blockSize ≤ blk) (known : file.LeafKnown blk)
    (grows : builder.Extends next)
    (all : next.asked = file.hashesBefore missing (blk + 1)) :
    Running file missing blk next.commit :=
  running.commit grows (all.trans (hashesBefore_known after known)) rfl running.contiguous

theorem Running.accumulate {start finish : UInt32} {len : Nat}
    (inside : blk ∈ missing.blocks) (known : file.LeafKnown blk)
    (starts : start.toNat = partStart missing.start.toNat blk)
    (ends : finish.toNat = start.toNat + len) (positive : 0 < len) :
    (file.Gap missing blk → builder.requestRange.accumulate ⟨start, finish⟩ = .error .assertion) ∧
      (¬file.Gap missing blk →
        ∃ range, builder.requestRange.accumulate ⟨start, finish⟩ = .ok range ∧
          range.size.toNat = file.bytesBefore missing blk + len ∧
          range.start.toNat < range.finish.toNat ∧ range.finish = finish) := by
  have bounds := mem_blocks_iff.mp inside
  rw [← running.bytes]
  rcases running.contiguous with ⟨empty, none⟩ | ⟨nonempty, last, member, less, lastKnown,
    between, stops⟩
  · have order : start.toNat < finish.toNat := by omega
    refine ⟨fun gap => ?_, fun _ => ?_⟩
    · obtain ⟨other, touches, earlier, otherKnown⟩ := gap.earlier
      exact absurd otherKnown (none other touches earlier)
    rw [empty]
    refine ⟨⟨start, finish⟩, rfl, ?_, order, rfl⟩
    rw [DataRange.size_toNat (Nat.le_of_lt order), DataRange.size, UInt32.sub_self,
      UInt32.toNat_zero]
    change finish.toNat - start.toNat = _
    omega
  · have lastBounds := mem_blocks_iff.mp member
    -- the data end at this block exactly when the block before is the last one with data
    have place : builder.requestRange.finish.toNat ≤ start.toNat ∧
        (start.toNat = builder.requestRange.finish.toNat ↔ last = blk - 1) := by
      rw [starts, stops]
      simp only [partStart, partEnd, blockSize] at bounds lastBounds ⊢
      omega
    have ordered : start.toNat ≤ finish.toNat := by omega
    rw [DataRange.accumulate_behind nonempty place.1 ordered]
    refine ⟨fun gap => if_neg fun joins => ?_, fun noGap => ?_⟩
    · rw [place.2.mp (congrArg UInt32.toNat joins)] at lastKnown
      exact gap.unknown lastKnown
    have previous : last = blk - 1 := by
      by_contra other
      refine noGap ⟨inside, known, ?_, last, member, less, lastKnown⟩
      exact between (blk - 1) (mem_blocks_of_above ((first_le member).trans (by omega))
        (Nat.sub_le _ _) inside) (by omega) (by omega)
    have joins := place.2.mpr previous
    have order : builder.requestRange.start.toNat < finish.toNat := by omega
    refine ⟨_, if_pos (UInt32.toNat_inj.mp joins), ?_, order, rfl⟩
    rw [DataRange.size_toNat (Nat.le_of_lt order), DataRange.size_toNat (Nat.le_of_lt nonempty)]
    change finish.toNat - builder.requestRange.start.toNat = _
    omega

end Running

section Data

variable (running : Running file missing blk builder) (small : env.maxPayload.toNat < 2 ^ 31)
  (ordered : missing.start.toNat ≤ missing.finish.toNat)
  (fits : (blk + 1) * blockSize < 2 ^ 32) (inside : blk ∈ missing.blocks)
  (room : file.costBefore missing blk < env.maxPayload.toNat)

include running small ordered fits inside room

theorem Running.requestData_eq : ∃ finish : UInt32,
      finish.toNat = partStart missing.start.toNat blk + min (missing.bytesIn blk)
        (env.maxPayload.toNat - file.costBefore missing blk) ∧
      builder.requestData env missing (missing.startIn blk) (blockEnd blk) = (do
        let requestRange ← builder.requestRange.accumulate
          ⟨missing.startIn blk, finish⟩
        return { builder with requestRange }) := by
  have bounds := mem_blocks_iff.mp inside
  have used := running.replySize_eq
  have total : missing.start.toNat + missing.count = missing.finish.toNat := by
    rw [DataRange.count]
    omega
  have last : partEnd missing.start.toNat missing.count blk < 2 ^ 32 := by
    rw [partEnd]
    omega
  have starts := toNat_ofNat_of_lt' (bounds.trans last)
  have available := @available_toInt env builder small (by omega)
  have offered := @available_toUInt32 env builder (by omega)
  have reqEnd : (if blockEnd blk < missing.finish then
      blockEnd blk else missing.finish).toNat =
      partEnd missing.start.toNat missing.count blk := by
    simp only [lt_iff_toNat_lt, toNat_ofNat_of_lt' fits, partEnd, total]
    split
    · rw [toNat_ofNat_of_lt' fits]
      omega
    · omega
  rw [RequestBuilder.requestData]
  generalize (if blockEnd blk < missing.finish then
    blockEnd blk else missing.finish) = stop at reqEnd ⊢
  have size : (⟨missing.startIn blk, stop⟩ :
      DataRange).size.toInt32.toInt = missing.bytesIn blk := by
    have short : missing.bytesIn blk ≤ 65536 := by
      rw [DataRange.bytesIn]
      simp only [partStart, partEnd, blockSize]
      omega
    have size_eq : (⟨missing.startIn blk, stop⟩ : DataRange).size.toNat = missing.bytesIn blk := by
      rw [DataRange.size_toNat (by rw [starts, reqEnd]; exact Nat.le_of_lt bounds),
        DataRange.bytesIn, ← reqEnd, starts]
    rw [toInt_toInt32_of_lt (by omega), size_eq]
  have compare : (⟨missing.startIn blk, stop⟩ : DataRange).size.toInt32 > builder.available env ↔
      env.maxPayload.toNat - file.costBefore missing blk < missing.bytesIn blk := by
    rw [gt_iff_lt, Int32.lt_iff_toInt_lt, size, available, used]
    omega
  by_cases large : env.maxPayload.toNat - file.costBefore missing blk < missing.bytesIn blk
  · rw [if_pos (compare.mpr large)]
    refine ⟨_, ?_, rfl⟩
    rw [DataRange.bytesIn] at large ⊢
    rw [UInt32.toNat_add, starts, offered, used, Nat.mod_eq_of_lt (by omega)]
    omega
  · rw [if_neg (mt compare.mp large)]
    refine ⟨_, ?_, rfl⟩
    rw [DataRange.bytesIn] at large ⊢
    omega

variable (known : file.LeafKnown blk)

include known

theorem Running.requestData_range : (file.Gap missing blk → builder.requestData env missing
        (missing.startIn blk)
        (blockEnd blk) = .error .assertion) ∧
      (¬file.Gap missing blk → ∃ range : DataRange, builder.requestData env missing
          (missing.startIn blk)
          (blockEnd blk) = .ok { builder with requestRange := range } ∧
        range.size.toNat = file.bytesBefore missing blk + min (missing.bytesIn blk)
          (env.maxPayload.toNat - file.costBefore missing blk) ∧
        range.start.toNat < range.finish.toNat ∧
        range.finish.toNat = partStart missing.start.toNat blk + min (missing.bytesIn blk)
          (env.maxPayload.toNat - file.costBefore missing blk)) := by
  have bounds := mem_blocks_iff.mp inside
  obtain ⟨finish, ends, asks⟩ := running.requestData_eq small ordered fits inside room
  have starts := @partStart_toNat missing blk (by rw [Nat.succ_mul] at fits; omega)
  have positive : 0 < min (missing.bytesIn blk)
      (env.maxPayload.toNat - file.costBefore missing blk) := by
    rw [DataRange.bytesIn]
    omega
  obtain ⟨refused, joins⟩ := running.accumulate inside known starts (ends.trans (by rw [starts]))
    positive
  rw [asks]
  refine ⟨fun gap => by rw [refused gap]; rfl, fun noGap => ?_⟩
  obtain ⟨range, joined, size, order, same⟩ := joins noGap
  rw [joined]
  exact ⟨range, rfl, size, order, by rw [same, ends]⟩

variable (noGap : ¬file.Gap missing blk)

include noGap

theorem Running.requestData_fits
    (enough : missing.bytesIn blk ≤ env.maxPayload.toNat - file.costBefore missing blk) :
    ∃ next, builder.requestData env missing (missing.startIn blk) (blockEnd blk) = .ok next ∧
      Running file missing (blk + 1) next := by
  have bounds := mem_blocks_iff.mp inside
  have after := first_le inside
  obtain ⟨range, asks, size, order, ends⟩ := (running.requestData_range small ordered fits
    inside room known).2 noGap
  rw [Nat.min_eq_left enough] at size ends
  refine ⟨_, asks, running.distinct, ?_, running.tentative, ?_, .inr ⟨order, blk, inside,
    Nat.lt_succ_self _, known, ?_, ?_⟩⟩
  · rw [hashesBefore_known after known]
    exact running.hashes
  · rw [bytesBefore_succ after, if_pos known]
    exact size
  · intro other _ above below
    omega
  · rw [ends, DataRange.bytesIn]
    omega

theorem Running.requestData_full
    (full : env.maxPayload.toNat - file.costBefore missing blk < missing.bytesIn blk) :
    ∃ next, builder.requestData env missing (missing.startIn blk) (blockEnd blk) = .ok next ∧
      next.tentativeTreeLocations = [] ∧ next.replySize = env.maxPayload.toNat := by
  obtain ⟨range, asks, size, -, -⟩ := (running.requestData_range small ordered fits inside
    room known).2 noGap
  have used := running.replySize_eq
  refine ⟨_, asks, running.tentative, ?_⟩
  rw [replySize, running.bytes] at used
  change dataPacketSize + merkleRecordSize * (builder.committedTreeLocations.length +
    builder.tentativeTreeLocations.length) + range.size.toNat = _
  omega

end Data

theorem partStart_div {offset : Nat} (after : offset / blockSize ≤ blk) :
    partStart offset blk / blockSize = blk := by
  rw [partStart]
  simp only [blockSize] at after ⊢
  omega

theorem buildFrom_stops {leaves : Nat} {start : UInt32}
    (stops : ¬(start < missing.finish ∧ 0 < builder.available env)) :
    buildFrom env file missing leaves builder start = .ok builder := by
  cases leaves with
  | zero => rw [buildFrom, if_neg stops]
  | succ leaves => rw [buildFrom, if_neg stops]

section Round

variable (running : Running file missing blk builder) (paired : file.Paired)
  (small : env.maxPayload.toNat < 2 ^ 31)
  (ordered : missing.start.toNat ≤ missing.finish.toNat)

include running small ordered

theorem Running.goes_iff
    (after : missing.start.toNat / blockSize ≤ blk) (bounded : blk * blockSize < 2 ^ 32)
    (paid : file.costBefore missing blk ≤ env.maxPayload.toNat) :
    missing.startIn blk < missing.finish ∧ 0 < builder.available env ↔
      blk ∈ missing.blocks ∧ file.costBefore missing blk < env.maxPayload.toNat := by
  have starts := @partStart_toNat missing blk bounded
  have available := @available_toInt env builder small (by rw [running.replySize_eq]; omega)
  rw [running.replySize_eq] at available
  have inside : blk ∈ missing.blocks ↔
      partStart missing.start.toNat blk < missing.finish.toNat := by
    rw [mem_blocks_iff, partEnd, DataRange.count, Nat.add_sub_cancel' ordered]
    simp only [partStart, blockSize] at after ⊢
    omega
  refine and_congr ?_ ?_
  · rw [lt_iff_toNat_lt, starts, inside]
  · rw [Int32.lt_iff_toInt_lt, available, Int32.toInt_zero]
    omega

variable (leaf : blk < 2 ^ file.treeDepth) (fits : (blk + 1) * blockSize < 2 ^ 32)
  (inside : blk ∈ missing.blocks)
  (room : file.costBefore missing blk < env.maxPayload.toNat)

include paired leaf fits inside room

theorem Running.buildFrom_round (leaves : Nat) : ∃ next, builder.Extends next ∧
      next.asked = file.hashesBefore missing (blk + 1) ∧
      (next.available env < 0 ↔ env.maxPayload.toNat < dataPacketSize +
        merkleRecordSize * (file.hashesBefore missing (blk + 1)).card +
        file.bytesBefore missing blk) ∧
      buildFrom env file missing (leaves + 1) builder (missing.startIn blk) =
        if next.available env < 0 then .ok next.abort
        else (do
          let builder ←
            if file.LeafKnown blk then
              next.commit.requestData env missing (missing.startIn blk) (blockEnd blk)
            else .ok next.commit
          buildFrom env file missing leaves builder (blockEnd blk)) := by
  have after := first_le inside
  have bounded : blk * blockSize < 2 ^ 32 := by
    rw [Nat.succ_mul] at fits
    omega
  have starts := @partStart_toNat missing blk bounded
  obtain ⟨next, found, grows, all, size⟩ := running.requestHashAncestors paired after leaf
  have goes := (running.goes_iff small ordered after bounded (Nat.le_of_lt room)).mpr ⟨inside, room⟩
  have found_leaf : treeIndex file.treeDepth blk file.treeSize =
      .ok (2 ^ file.treeDepth - 1 + blk) := treeIndex_leaf_eq_ok_iff.mpr ⟨leaf, rfl⟩
  have close : next.replySize ≤ env.maxPayload.toNat + 2 ^ 31 := by
    have depth := treeDepth_le file
    have few := @unknownAncestors_card_le file blk
    have cards : (file.hashesBefore missing (blk + 1)).card ≤
        (file.hashesBefore missing blk).card + (file.unknownAncestors blk).card := by
      rw [hashesBefore_succ after]
      exact Finset.card_union_le _ _
    have record : merkleRecordSize = 24 := rfl
    rw [costBefore] at room
    rw [size]
    rw [record] at room ⊢
    omega
  refine ⟨next, grows, all, ?_, ?_⟩
  · rw [Int32.lt_iff_toInt_lt, available_toInt small close, size, Int32.toInt_zero]
    omega
  · rw [buildFrom, if_pos goes]
    simp only [starts, partStart_div after]
    rw [found, ok_bind, found_leaf, ok_bind]
    rfl

theorem Running.buildFrom_gap (gap : file.Gap missing blk) (leaves : Nat) :
    buildFrom env file missing (leaves + 1) builder (missing.startIn blk) = .error .assertion := by
  have after := first_le inside
  obtain ⟨next, grows, all, spent, steps⟩ := running.buildFrom_round paired small ordered
    leaf fits inside room leaves
  have committed := running.commit_known after gap.known grows all
  have goes : ¬next.available env < 0 := by
    rw [costBefore] at room
    rw [spent, hashesBefore_known after gap.known]
    omega
  rw [steps, if_neg goes, if_pos gap.known,
    (committed.requestData_range small ordered fits inside room gap.known).1 gap]
  rfl

variable (noGap : ¬file.Gap missing blk)

include noGap

theorem Running.buildFrom_next
    (paid : file.costBefore missing (blk + 1) ≤ env.maxPayload.toNat) (leaves : Nat) :
    ∃ next, Running file missing (blk + 1) next ∧ buildFrom env file missing (leaves + 1) builder
          (missing.startIn blk) =
        buildFrom env file missing leaves next (blockEnd blk) := by
  have after := first_le inside
  obtain ⟨next, grows, all, spent, steps⟩ := running.buildFrom_round paired small ordered
    leaf fits inside room leaves
  have bytes := @bytesBefore_succ file missing blk after
  have goes : ¬next.available env < 0 := by
    rw [costBefore] at paid
    rw [spent]
    omega
  rw [steps, if_neg goes]
  by_cases known : file.LeafKnown blk
  · have committed := running.commit_known after known grows all
    have enough : missing.bytesIn blk ≤ env.maxPayload.toNat - file.costBefore missing blk := by
      rw [if_pos known] at bytes
      rw [costBefore, hashesBefore_known after known] at paid
      rw [costBefore]
      omega
    obtain ⟨last, asks, reached⟩ := committed.requestData_fits small ordered fits inside room
      known noGap enough
    refine ⟨last, reached, ?_⟩
    rw [if_pos known, asks, ok_bind]
  · refine ⟨next.commit, running.commit_unknown after known grows all, ?_⟩
    rw [if_neg known, ok_bind]

theorem Running.buildFrom_full
    (full : env.maxPayload.toNat < file.costBefore missing (blk + 1)) (leaves : Nat) :
    ∃ next, next.tentativeTreeLocations = [] ∧ next.replySize ≤ env.maxPayload.toNat ∧
      buildFrom env file missing (leaves + 1) builder (missing.startIn blk) = .ok next := by
  have after := first_le inside
  obtain ⟨next, grows, all, spent, steps⟩ := running.buildFrom_round paired small ordered
    leaf fits inside room leaves
  have bytes := @bytesBefore_succ file missing blk after
  by_cases known : file.LeafKnown blk
  · have committed := running.commit_known after known grows all
    have same := hashesBefore_known after known
    have goes : ¬next.available env < 0 := by
      rw [costBefore] at room
      rw [spent, same]
      omega
    have large : env.maxPayload.toNat - file.costBefore missing blk < missing.bytesIn blk := by
      rw [if_pos known] at bytes
      rw [costBefore, same] at full
      rw [costBefore] at room ⊢
      omega
    obtain ⟨last, asks, cleared, size⟩ := committed.requestData_full small ordered fits inside
      room known noGap large
    have used : (last.available env).toInt = 0 := by
      rw [available_toInt small (by omega), size]
      omega
    have stops : ¬0 < last.available env := by
      rw [Int32.lt_iff_toInt_lt, used, Int32.toInt_zero]
      omega
    refine ⟨last, cleared, Nat.le_of_eq size, ?_⟩
    rw [steps, if_neg goes, if_pos known, asks, ok_bind]
    exact buildFrom_stops fun both => stops both.2
  · have stops : next.available env < 0 := by
      rw [if_neg known] at bytes
      rw [costBefore] at full
      rw [spent]
      omega
    refine ⟨next.abort, rfl, ?_, ?_⟩
    · have aborted : next.abort.replySize = builder.replySize := by
        rw [replySize, replySize, running.tentative]
        change dataPacketSize + merkleRecordSize * (next.committedTreeLocations.length +
          ([] : List Nat).length) + next.requestRange.size.toNat = _
        rw [grows.committed, grows.range]
      rw [aborted, running.replySize_eq]
      exact Nat.le_of_lt room
    · rw [steps, if_pos stops]

end Round

/-- A request was built whose reply fits into a packet. -/
def Built (env : Environment) (outcome : Except Fault RequestBuilder) : Prop :=
  ∃ out, outcome = .ok out ∧ out.tentativeTreeLocations = [] ∧
    out.replySize ≤ env.maxPayload.toNat

section Loop

variable {leaves : Nat} (running : Running file missing blk builder)
  (small : env.maxPayload.toNat < 2 ^ 31) (ordered : missing.start.toNat ≤ missing.finish.toNat)
  (after : missing.start.toNat / blockSize ≤ blk) (bounded : blk * blockSize < 2 ^ 32)
  (paid : file.costBefore missing blk ≤ env.maxPayload.toNat)

include running small ordered after bounded paid

theorem Running.buildFrom_last
    (stops : ¬(blk ∈ missing.blocks ∧ file.costBefore missing blk < env.maxPayload.toNat)) :
    Built env (buildFrom env file missing leaves builder (missing.startIn blk)) ↔
      ∀ other, blk ≤ other → file.Gap missing other →
        env.maxPayload.toNat ≤ file.costBefore missing other := by
  have exits := @buildFrom_stops env builder file missing leaves _
    (mt (running.goes_iff small ordered after bounded paid).mp stops)
  have size : builder.replySize ≤ env.maxPayload.toNat := by
    rw [running.replySize_eq]
    exact paid
  refine ⟨fun _ other above gap => ?_, fun _ => ⟨builder, exits, running.tentative, size⟩⟩
  have inside := mem_blocks_of_above after above gap.touched
  have full := Nat.not_lt.mp fun less => stops ⟨inside, less⟩
  exact full.trans (costBefore_mono after above)

/-- The loop goes from a block to the end, if no gap comes before the packet is full. -/
theorem Running.buildFrom_iff (paired : file.Paired)
    (leaf : ∀ other ∈ missing.blocks, other < 2 ^ file.treeDepth)
    (fits : ∀ other ∈ missing.blocks, (other + 1) * blockSize < 2 ^ 32)
    (enough : leaves = 2 ^ file.treeDepth - blk) :
    Built env (buildFrom env file missing leaves builder (missing.startIn blk)) ↔
      ∀ other, blk ≤ other → file.Gap missing other →
        env.maxPayload.toNat ≤ file.costBefore missing other := by
  induction leaves generalizing blk builder with
  | zero =>
    have goes : blk ∉ missing.blocks := fun inside => by
      have := leaf blk inside
      omega
    exact running.buildFrom_last small ordered after bounded paid fun both => goes both.1
  | succ leaves induction =>
    by_cases goes : blk ∈ missing.blocks ∧ file.costBefore missing blk < env.maxPayload.toNat
    swap
    · exact running.buildFrom_last small ordered after bounded paid goes
    obtain ⟨inside, room⟩ := goes
    by_cases gap : file.Gap missing blk
    · have fails := running.buildFrom_gap paired small ordered (leaf blk inside)
        (fits blk inside) inside room gap leaves
      refine ⟨fun ⟨out, built, _⟩ => (nomatch (fails.symm.trans built)), fun late => ?_⟩
      exact absurd room (Nat.not_lt.mpr (late blk (Nat.le_refl _) gap))
    have later : ∀ other, blk ≤ other → file.Gap missing other → blk + 1 ≤ other := by
      intro other above found
      refine Nat.lt_of_le_of_ne above ?_
      rintro rfl
      exact gap found
    by_cases full : env.maxPayload.toNat < file.costBefore missing (blk + 1)
    · obtain ⟨out, cleared, size, built⟩ := running.buildFrom_full paired small ordered
        (leaf blk inside) (fits blk inside) inside room gap full leaves
      refine ⟨fun _ other above found => ?_, fun _ => ⟨out, built, cleared, size⟩⟩
      exact (Nat.le_of_lt full).trans
        (costBefore_mono (Nat.le_succ_of_le after) (later other above found))
    · obtain ⟨next, reached, built⟩ := running.buildFrom_next paired small ordered
        (leaf blk inside) (fits blk inside) inside room gap (Nat.not_lt.mp full) leaves
      have starts : missing.startIn (blk + 1) = blockEnd blk := by
        rw [DataRange.startIn, partStart, Nat.max_eq_right]
        simp only [blockSize] at after ⊢
        omega
      have rest := induction reached (Nat.le_succ_of_le after) (fits blk inside)
        (Nat.not_lt.mp full) (by omega)
      rw [starts] at rest
      rw [built, rest]
      refine ⟨fun late other above found => late other (later other above found) found,
        fun late other above found => late other (Nat.le_of_succ_le above) found⟩

end Loop

theorem build_iff_built (small : env.maxPayload.toNat < 2 ^ 31) :
    (∃ builder, build env file missing = .ok builder ∧
        dataPacketSize + merkleRecordSize * builder.committedTreeLocations.length +
          builder.requestRange.size.toNat ≤ env.maxPayload.toNat) ↔
      Built env (buildFrom env file missing
        (2 ^ file.treeDepth - missing.start.toNat / blockSize) ⟨[], [], ⟨0, 0⟩⟩
        missing.start) := by
  simp only [build, bind_eq_ok_iff, ensure_eq_ok_iff, pure_eq_ok, Except.ok.injEq]
  constructor
  · rintro ⟨_, ⟨out, found, -, cleared, -, -, rfl⟩, size⟩
    refine ⟨out, found, cleared, ?_⟩
    rw [replySize, cleared, length_nil, Nat.add_zero]
    exact size
  · rintro ⟨out, found, cleared, size⟩
    have available : 0 ≤ out.available env := by
      rw [Int32.le_iff_toInt_le, available_toInt small (by omega), Int32.toInt_zero]
      omega
    refine ⟨out, ⟨out, found, (), cleared, (), available, rfl⟩, ?_⟩
    rw [replySize, cleared, length_nil, Nat.add_zero] at size
    exact size

/-- A request is built and its reply fits into a packet, if and only if the packet is full
before each block with a known leaf that comes after a gap. -/
theorem build_fits_iff
    (env : Environment) (file : ZCachedFile) (missing : DataRange) (paired : file.Paired)
    (nonempty : missing.start < missing.finish)
    (inFile : missing.finish ≤ file.getFilelen)
    (short : file.getFilelen.toNat ≤ 0xffff0000)
    (header : dataPacketSize < env.maxPayload.toNat)
    (small : env.maxPayload.toNat < 2 ^ 31) :
    (∃ builder, build env file missing = .ok builder ∧
        dataPacketSize + merkleRecordSize * builder.committedTreeLocations.length +
          builder.requestRange.size.toNat ≤ env.maxPayload.toNat) ↔
      ∀ blk, file.Gap missing blk → env.maxPayload.toNat ≤ file.costBefore missing blk := by
  have ordered := Nat.le_of_lt (lt_iff_toNat_lt.mp nonempty)
  have ends : missing.start.toNat + missing.count ≤ file.getFilelen.toNat := by
    rw [DataRange.count, Nat.add_sub_cancel' ordered]
    exact le_iff_toNat_le.mp inFile
  have known : ∀ blk ∈ missing.blocks, blk < file.numBlocks :=
    fun blk inside => lt_numBlocks_of_touched ends short inside
  have few : file.numBlocks ≤ 65535 := by
    rw [numBlocks, computeNumBlocks]
    simp only [blockSize]
    omega
  have leaf : ∀ blk ∈ missing.blocks, blk < 2 ^ file.treeDepth := fun blk inside =>
    lt_two_pow_computeTreeDepth (known blk inside) (few.trans (by decide))
  have fits : ∀ blk ∈ missing.blocks, (blk + 1) * blockSize < 2 ^ 32 := by
    intro blk inside
    have := known blk inside
    rw [blockSize]
    omega
  have begins : missing.startIn (missing.start.toNat / blockSize) = missing.start := by
    rw [DataRange.startIn, partStart, Nat.max_eq_left (Nat.div_mul_le_self _ _), UInt32.ofNat_toNat]
  have bounded : missing.start.toNat / blockSize * blockSize < 2 ^ 32 :=
    Nat.lt_of_le_of_lt (Nat.div_mul_le_self _ _) missing.start.toNat_lt
  have free := (@running_first file missing).replySize_eq
  have paid : file.costBefore missing (missing.start.toNat / blockSize) ≤ env.maxPayload.toNat := by
    rw [← free, replySize, DataRange.size, UInt32.sub_self, UInt32.toNat_zero]
    exact Nat.le_of_lt header
  have loop := running_first.buildFrom_iff small ordered (Nat.le_refl _) bounded paid paired leaf
    fits rfl
  rw [begins] at loop
  have every : (∀ blk, file.Gap missing blk → env.maxPayload.toNat ≤ file.costBefore missing blk) ↔
      ∀ blk, missing.start.toNat / blockSize ≤ blk → file.Gap missing blk →
        env.maxPayload.toNat ≤ file.costBefore missing blk :=
    ⟨fun late blk _ => late blk, fun late blk gap => late blk (first_le gap.touched) gap⟩
  rw [every, ← loop]
  exact build_iff_built small

/-- A packet that could hold the whole file. -/
def largePacket : Environment := .uncompressed (fun _ => onesHash) 1000000 0

/-- A file of five blocks in which only the hashes of the third and the fourth block are
missing. -/
def fiveBlocks : ZCachedFile where
  fileHash := onesHash
  metadata := ⟨327680, 0⟩
  metadataState := .validated
  tree location :=
    ⟨onesHash, if location = 9 ∨ location = 10 then .unknown else .validated⟩
  parentsOfTentativeNodes := []

theorem fiveBlocks_paired : fiveBlocks.Paired := by
  have all : ∀ location < fiveBlocks.treeSize, location ≠ 0 →
      (fiveBlocks.Unknown location ↔ fiveBlocks.Unknown (siblingLocation location)) := by
    decide +kernel
  exact fun location inner inside => all location inside inner

/-- The first two blocks of the file are asked for. -/
theorem build_fits_two_blocks : ∃ builder, build largePacket fiveBlocks ⟨0, 131072⟩ = .ok builder ∧
      dataPacketSize + merkleRecordSize * builder.committedTreeLocations.length +
        builder.requestRange.size.toNat ≤ largePacket.maxPayload.toNat := by
  refine (build_fits_iff largePacket fiveBlocks ⟨0, 131072⟩ fiveBlocks_paired (by decide)
    (by decide) (by decide) (by decide) (by decide)).mpr fun blk gap => ?_
  have inside : ∀ other ∈ (⟨0, 131072⟩ : DataRange).blocks, fiveBlocks.LeafKnown (other - 1) := by
    decide +kernel
  exact absurd (inside blk gap.touched) gap.unknown

/-- The fifth block of the file cannot be asked for together with the first two. -/
theorem build_behind_gap : (fiveBlocks.tree 0).state = .validated ∧ fiveBlocks.Paired ∧
      fiveBlocks.getFilelen = 327680 ∧
      dataPacketSize < largePacket.maxPayload.toNat ∧
      ¬∃ builder, build largePacket fiveBlocks ⟨0, 327680⟩ = .ok builder := by
  exact ⟨rfl, fiveBlocks_paired, rfl, by decide, by decide +kernel⟩

end RequestBuilder

end Embassies.Zftp
