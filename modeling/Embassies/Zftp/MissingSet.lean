import Embassies.Zftp.InstallPart
import Embassies.Zftp.RequestBuilder

/-!
# The missing range

`_compute_missing_set` rounds a range to blocks, cuts it off at the end of the file, and
goes through the blocks of what is left until it has found enough that is missing.  An empty
range is taken to mean that nothing is missing, so that the request can be answered.

This module says which blocks are visited and when the range is empty.  A range without
bytes may be rounded to a block, the empty range at the start even to the whole file.  A
record that is shared with a longer file may be filled as far as this file goes without being
valid, and then nothing of it is missing.
-/

namespace Embassies.Zftp

open Library Library.Checked DataRange UInt32

namespace DataRange

variable {range : DataRange} {start finish : UInt32}

/-- A part has been added to a range: what cannot be represented is refused only by a range
that is not empty, and the sum is empty only if both are. -/
def Adds (range : DataRange) (nothing : Prop) : Option DataRange → Prop
  | none => ¬range.IsEmpty
  | some joined =>
    joined.start ≤ joined.finish ∧ (joined.IsEmpty ↔ range.IsEmpty ∧ nothing)

theorem Adds.congr {left right : Prop} {outcome : Option DataRange} (same : left ↔ right)
    (adds : range.Adds left outcome) : range.Adds right outcome :=
  propext same ▸ adds

theorem maybeAccumulate_adds (ordered : range.start ≤ range.finish) (fits : start ≤ finish) :
    range.Adds (start = finish) (range.maybeAccumulate start finish) := by
  rw [maybeAccumulate]
  split_ifs with empty front back inside
  · exact ⟨fits, (and_iff_right empty).symm⟩
  · refine ⟨by grind, ?_⟩
    simp only [IsEmpty] at empty ⊢
    grind
  · refine ⟨by grind, ?_⟩
    simp only [IsEmpty] at empty ⊢
    grind
  · exact ⟨ordered, by simp only [empty, false_and]⟩
  · exact empty

theorem intersect_cases {other : DataRange} :
    (range.intersect other = ⟨0, 0⟩ ∧ min range.finish.toNat other.finish.toNat ≤
        max range.start.toNat other.start.toNat) ∨
      ((range.intersect other).start.toNat = max range.start.toNat other.start.toNat ∧
        (range.intersect other).finish.toNat = min range.finish.toNat other.finish.toNat ∧
        max range.start.toNat other.start.toNat ≤ min range.finish.toNat other.finish.toNat) := by
  rw [intersect]
  by_cases empty : range.IsEmpty ∨ other.IsEmpty
  · rw [if_pos empty]
    refine .inl ⟨rfl, ?_⟩
    simp only [IsEmpty, ← UInt32.toNat_inj] at empty
    omega
  · have starts : (if range.start > other.start then range.start else other.start).toNat =
        max range.start.toNat other.start.toNat := by
      simp only [gt_iff_lt, lt_iff_toNat_lt]
      split <;> omega
    have ends : (if range.finish < other.finish then range.finish else other.finish).toNat =
        min range.finish.toNat other.finish.toNat := by
      simp only [lt_iff_toNat_lt]
      split <;> omega
    rw [if_neg empty]
    dsimp only
    generalize (if range.start > other.start then range.start else other.start) = start at starts ⊢
    generalize (if range.finish < other.finish then range.finish else other.finish) = finish
      at ends ⊢
    split
    · rename_i apart
      rw [gt_iff_lt, lt_iff_toNat_lt, starts, ends] at apart
      exact .inl ⟨rfl, Nat.le_of_lt apart⟩
    · rename_i close
      rw [gt_iff_lt, lt_iff_toNat_lt, starts, ends] at close
      exact .inr ⟨starts, ends, Nat.not_lt.mp close⟩

theorem intersect_spec {other : DataRange} :
    (range.intersect other).start ≤ (range.intersect other).finish ∧
      ((range.intersect other).start = (range.intersect other).finish ↔
        min range.finish.toNat other.finish.toNat ≤ max range.start.toNat other.start.toNat) := by
  rcases intersect_cases with ⟨none, apart⟩ | ⟨starts, ends, close⟩
  · rw [none]
    exact ⟨UInt32.le_refl _, iff_of_true rfl apart⟩
  · rw [le_iff_toNat_le, ← UInt32.toNat_inj, starts, ends]
    omega

theorem size_eq_zero_iff : range.size = 0 ↔ range.IsEmpty := by
  rw [size, IsEmpty]
  grind

end DataRange

namespace ZCachedFile

variable {env : Environment} {file : ZCachedFile} {cache before : ZBlockCache} {blk : Nat}

/-! ## Blocks -/

/-- Nothing in front of `finish` is missing of a block. -/
def Complete (file : ZCachedFile) (cache : ZBlockCache) (finish blk : Nat) : Prop :=
  2 ≤ (file.tree (2 ^ file.treeDepth - 1 + blk)).state.rank ∧
    ((file.recordAt cache blk).valid = true ∨
      min ((blk + 1) * blockSize) finish ≤
        blk * blockSize + (file.recordAt cache blk).data.length)

/-- A block can be read. -/
def Satisfied (file : ZCachedFile) (cache : ZBlockCache) (blk : Nat) : Prop :=
  (file.tree (2 ^ file.treeDepth - 1 + blk)).state = .validated ∧
    (file.recordAt cache blk).valid = true

theorem Satisfied.complete {finish : Nat} (satisfied : file.Satisfied cache blk) :
    file.Complete cache finish blk := by
  refine ⟨?_, .inl satisfied.2⟩
  rw [satisfied.1]
  exact Nat.le_refl 2

/-- Two caches differ only in records without data. -/
def SameRecords (cache before : ZBlockCache) : Prop :=
  ∀ hash, (cache hash).getD .new = (before hash).getD .new

/-- The cache after `_lookup_block` for a validated block. -/
def looked (file : ZCachedFile) (cache : ZBlockCache) (blk : Nat) : ZBlockCache :=
  if (file.tree (2 ^ file.treeDepth - 1 + blk)).state.rank < ValidityState.validated.rank
  then cache else file.withRecord cache blk

theorem SameRecords.withRecord (same : SameRecords cache before) :
    SameRecords (file.withRecord cache blk) before := by
  intro hash
  rw [← same hash, ZCachedFile.withRecord]
  cases found : cache (file.leafHash blk) with
  | some _ => rfl
  | none =>
    dsimp only
    by_cases here : hash = file.leafHash blk
    · rw [here, Function.update_self, found]
      rfl
    · rw [Function.update_of_ne here]

/-- What the loop makes of the missing range at a block. -/
def missingAt (file : ZCachedFile) (cache : ZBlockCache) (eligible missing : DataRange)
    (blk : Nat) : Option DataRange :=
  missingInBlock eligible missing (UInt32.ofNat (blk * blockSize))
    (if UInt32.ofNat ((blk + 1) * blockSize) < eligible.finish then
      UInt32.ofNat ((blk + 1) * blockSize) else eligible.finish)
    (UInt32.ofNat (blk * blockSize))
    (if (file.tree (2 ^ file.treeDepth - 1 + blk)).state.rank < ValidityState.validated.rank then
      none
    else some (file.leafHash blk, file.recordAt cache blk))

theorem missingAt_adds {eligible missing : DataRange} (ordered : missing.start ≤ missing.finish)
    (small : (blk + 1) * blockSize < 2 ^ 32)
    (low : eligible.start.toNat ≤ blk * blockSize)
    (high : blk * blockSize < eligible.finish.toNat) :
    missing.Adds (file.Complete cache eligible.finish.toNat blk)
      (file.missingAt cache eligible missing blk) := by
  have next : (blk + 1) * blockSize = blk * blockSize + 65536 := Nat.succ_mul ..
  have bounded : (file.recordAt cache blk).data.length ≤ 65536 := (file.recordAt cache blk).bounded
  rw [Complete, missingAt]
  generalize (blk + 1) * blockSize = blockEnd at small next ⊢
  generalize blk * blockSize = blockStart at low high next ⊢
  have start := toNat_ofNat_of_lt' (show blockStart < 2 ^ 32 by omega)
  have finish := toNat_ofNat_of_lt' small
  by_cases unknown : (file.tree (2 ^ file.treeDepth - 1 + blk)).state.rank <
      ValidityState.validated.rank
  · have ends : (if UInt32.ofNat blockEnd < eligible.finish then UInt32.ofNat blockEnd
        else eligible.finish).toNat = min blockEnd eligible.finish.toNat := by
      simp only [lt_iff_toNat_lt, finish]
      split_ifs <;> omega
    rw [if_pos unknown]
    refine (maybeAccumulate_adds ordered ?_).congr (iff_of_false ?_ ?_)
    · rw [le_iff_toNat_le, start, ends]
      omega
    · rw [← UInt32.toNat_inj, start, ends]
      omega
    · exact fun both => absurd both.1 (Nat.not_le.mpr unknown)
  · rw [if_neg unknown, missingInBlock]
    have known : 2 ≤ (file.tree (2 ^ file.treeDepth - 1 + blk)).state.rank := Nat.not_lt.mp unknown
    split
    · rename_i valid
      exact ⟨ordered, by simp only [known, valid, true_or, and_self, and_true]⟩
    · rename_i invalid
      have gap : (UInt32.ofNat blockStart +
          UInt32.ofNat (file.recordAt cache blk).data.length).toNat =
          blockStart + (file.recordAt cache blk).data.length := by
        rw [← ofNat_add, toNat_ofNat_of_lt' (show _ < 2 ^ 32 by omega)]
      have last : (UInt32.ofNat blockStart + 65536).toNat = blockEnd := by
        rw [← finish, next, ofNat_add]
        rfl
      obtain ⟨pruned, empty_iff⟩ := @intersect_spec
        ⟨UInt32.ofNat blockStart + UInt32.ofNat (file.recordAt cache blk).data.length,
          UInt32.ofNat blockStart + 65536⟩ eligible
      refine (maybeAccumulate_adds ordered pruned).congr (empty_iff.trans ?_)
      simp only [gap, last, known, invalid, true_and, Bool.false_eq_true, false_or]
      omega

/-! ## The loop -/

theorem SameRecords.complete_iff {finish : Nat} (same : SameRecords cache before) :
    file.Complete cache finish blk ↔ file.Complete before finish blk := by
  rw [Complete, Complete, recordAt, recordAt, same]

/-- `approx_payload_size`. -/
def approxPayloadSize (mode : Bool) (missing : DataRange) : UInt32 :=
  if mode then missing.size else (missing.size >>> 16) * UInt32.ofNat merkleRecordSize

theorem not_isEmpty_of_enough {mode : Bool} {missing : DataRange} (positive : env.maxPayload ≠ 0)
    (enough : approxPayloadSize mode missing ≥ env.maxPayload) : ¬missing.IsEmpty := by
  rw [← size_eq_zero_iff]
  intro none
  have nothing : approxPayloadSize mode missing = 0 := by
    rw [approxPayloadSize, none]
    cases mode <;> rfl
  rw [nothing] at enough
  exact positive (UInt32.le_zero_iff.mp enough)

theorem missingFrom_succ {mode : Bool} {eligible missing : DataRange} {left : Nat}
    (leaf : blk < 2 ^ file.treeDepth) (small : (blk + 1) * blockSize < 2 ^ 32)
    (high : blk * blockSize < eligible.finish.toNat) :
    file.missingFrom env mode eligible (left + 1) cache missing (UInt32.ofNat (blk * blockSize)) =
      match file.missingAt cache eligible missing blk with
      | none => .ok (missing, file.looked cache blk)
      | some missing =>
        if approxPayloadSize mode missing ≥ env.maxPayload then
          .ok (missing, file.looked cache blk)
        else file.missingFrom env mode eligible left (file.looked cache blk) missing
          (UInt32.ofNat ((blk + 1) * blockSize)) := by
  have next : (blk + 1) * blockSize = blk * blockSize + 65536 := Nat.succ_mul ..
  have start := toNat_ofNat_of_lt' (show blk * blockSize < 2 ^ 32 by omega)
  have goes : UInt32.ofNat (blk * blockSize) < eligible.finish := by
    rw [lt_iff_toNat_lt, start]
    exact high
  have place : blk * blockSize / blockSize = blk := Nat.mul_div_cancel blk (by decide)
  have found : file.lookupBlock cache blk .validated = .ok
      ((if (file.tree (2 ^ file.treeDepth - 1 + blk)).state.rank <
          ValidityState.validated.rank then none
        else some (file.leafHash blk, file.recordAt cache blk)), file.looked cache blk) := by
    rw [lookupBlock_eq leaf, looked]
    split <;> rfl
  rw [missingFrom, if_pos goes]
  simp only [start, place, found, ok_bind]
  rfl

/-- What the loop finds from a block on.  Without any payload it stops after one block. -/
theorem missingFrom_spec {mode : Bool} {eligible missing : DataRange} {left : Nat}
    (same : SameRecords cache before) (ordered : missing.start ≤ missing.finish)
    (low : eligible.start.toNat ≤ blk * blockSize)
    (rest : left = file.numBlocks - blk) :
    ∃ out after, file.missingFrom env mode eligible left cache missing
        (UInt32.ofNat (blk * blockSize)) = .ok (out, after) ∧
      (out.IsEmpty ↔ missing.IsEmpty ∧ ∀ other, blk ≤ other → other < file.numBlocks →
        other * blockSize < eligible.finish.toNat → (env.maxPayload = 0 → other = blk) →
        file.Complete before eligible.finish.toNat other) := by
  induction left generalizing blk cache missing with
  | zero =>
    refine ⟨missing, cache, rfl, (and_iff_left ?_).symm⟩
    intro other above inside
    omega
  | succ left induction =>
    have inside : blk < file.numBlocks := by omega
    have few := file.numBlocks_lt
    have leaf : blk < 2 ^ file.treeDepth := lt_two_pow_computeTreeDepth inside (by omega)
    have next : (blk + 1) * blockSize = blk * blockSize + 65536 := Nat.succ_mul ..
    have small : (blk + 1) * blockSize < 2 ^ 32 := by
      rw [blockSize]
      omega
    by_cases high : blk * blockSize < eligible.finish.toNat
    · have adds := @missingAt_adds file cache blk eligible missing ordered small low high
      have looks : SameRecords (file.looked cache blk) before := by
        rw [looked]
        split
        · exact same
        · exact same.withRecord
      -- the block itself, and those behind it
      have split_iff : (∀ other, blk ≤ other → other < file.numBlocks →
          other * blockSize < eligible.finish.toNat → (env.maxPayload = 0 → other = blk) →
          file.Complete before eligible.finish.toNat other) ↔
          file.Complete cache eligible.finish.toNat blk ∧
            (env.maxPayload ≠ 0 → ∀ other, blk + 1 ≤ other → other < file.numBlocks →
              other * blockSize < eligible.finish.toNat →
              file.Complete before eligible.finish.toNat other) := by
        rw [same.complete_iff]
        constructor
        · intro all
          refine ⟨all blk (Nat.le_refl _) inside high fun _ => rfl, ?_⟩
          intro positive other above within less
          exact all other (by omega) within less fun none => absurd none positive
        · rintro ⟨first, others⟩ other above within less only
          rcases Nat.lt_or_eq_of_le above with later | rfl
          · exact others (fun none => absurd (only none) (by omega)) other later within less
          · exact first
      rw [missingFrom_succ leaf small high, split_iff, ← and_assoc]
      split
      · rename_i refused
        rw [refused] at adds
        exact ⟨missing, _, rfl, iff_of_false adds fun all => adds all.1.1⟩
      · rename_i joined accepted
        rw [accepted] at adds
        rw [← adds.2]
        split
        · rename_i enough
          refine ⟨joined, _, rfl, (and_iff_left_of_imp ?_).symm⟩
          exact fun empty positive => absurd empty (not_isEmpty_of_enough positive enough)
        · rename_i more
          have positive : env.maxPayload ≠ 0 := fun none => more (none ▸ UInt32.zero_le)
          obtain ⟨out, after, found, out_iff⟩ := @induction _ (blk + 1) _ looks adds.1
            (by omega) (by omega)
          refine ⟨out, after, found, out_iff.trans ?_⟩
          simp only [positive, ne_eq, not_false_eq_true, false_implies, true_implies]
    · have stops : ¬UInt32.ofNat (blk * blockSize) < eligible.finish := by
        rw [lt_iff_toNat_lt, toNat_ofNat_of_lt' (show _ < 2 ^ 32 by omega)]
        exact high
      rw [missingFrom, if_neg stops]
      refine ⟨missing, cache, rfl, (and_iff_left ?_).symm⟩
      intro other above _ less
      have := Nat.mul_le_mul_right blockSize above
      omega

/-! ## The visited blocks -/

variable {requested : DataRange}

/-- Where the visited part of a file ends. -/
def eligibleEnd (file : ZCachedFile) (requested : DataRange) : Nat :=
  min (roundUpToBlock requested.finish).toNat file.getFilelen.toNat

/-- A block that is visited, unless enough is missing before. -/
def Visited (env : Environment) (file : ZCachedFile) (requested : DataRange) (blk : Nat) :
    Prop :=
  requested.start.toNat / blockSize ≤ blk ∧ blk < file.numBlocks ∧
    blk * blockSize < file.eligibleEnd requested ∧
    (env.maxPayload = 0 → blk = requested.start.toNat / blockSize)

/-- A block with a byte that is asked for. -/
def Overlaps (file : ZCachedFile) (requested : DataRange) (blk : Nat) : Prop :=
  ∃ place, requested.start.toNat ≤ place ∧ place < requested.finish.toNat ∧
    place < file.getFilelen.toNat ∧ place / blockSize = blk

theorem roundDownToBlock_toNat (pos : UInt32) :
    (roundDownToBlock pos).toNat = pos.toNat / blockSize * blockSize := by
  have limit := pos.toNat_lt
  rw [roundDownToBlock, blockSize]
  exact toNat_ofNat_of_lt' (show _ < 2 ^ 32 by omega)

theorem roundUpToBlock_toNat (pos : UInt32) : (roundUpToBlock pos).toNat =
      if pos.toNat = 0 ∨ 0xffff0000 < pos.toNat then 0xffff0000
      else (pos.toNat + 65535) / blockSize * blockSize := by
  have limit := pos.toNat_lt
  have before := UInt32.toNat_sub pos 1
  have down := roundDownToBlock_toNat (pos - 1)
  have up := UInt32.toNat_add (roundDownToBlock (pos - 1)) 65536
  rw [show (1 : UInt32).toNat = 1 from rfl] at before
  rw [show (65536 : UInt32).toNat = 65536 from rfl] at up
  rw [blockSize] at down
  simp only [roundUpToBlock, lt_iff_toNat_lt, blockSize]
  generalize roundDownToBlock (pos - 1) + 65536 = next at up ⊢
  generalize roundDownToBlock (pos - 1) = block at down up ⊢
  generalize (pos - 1).toNat = last at before down
  by_cases edge : pos.toNat = 0 ∨ 0xffff0000 < pos.toNat
  · have quotient : last / 65536 = 65535 := by omega
    rw [quotient] at down
    rw [if_pos edge, up, down]
    exact down
  · rw [if_neg edge, if_neg (by omega)]
    omega

theorem computeMissingSet_spec
    (mode : Bool) (cache : ZBlockCache) (known : file.metadataState = .validated) :
    ∃ out, file.computeMissingSet env mode cache requested = .ok out ∧
      (out.1.IsEmpty ↔ ∀ blk, Visited env file requested blk →
        file.Complete cache (file.eligibleEnd requested) blk) := by
  have down := roundDownToBlock_toNat requested.start
  have fileRange : file.getFileDataRange = .ok ⟨0, file.getFilelen⟩ := by
    rw [getFileDataRange, ensure_true known]
    rfl
  rw [computeMissingSet, fileRange, ok_bind]
  rcases @DataRange.intersect_cases
    ⟨roundDownToBlock requested.start, roundUpToBlock requested.finish⟩
    ⟨0, file.getFilelen⟩ with ⟨none, apart⟩ | ⟨starts, ends, close⟩
  · -- nothing is eligible, and nothing is visited
    rw [none]
    refine ⟨(⟨0, 0⟩, cache), ?_, iff_of_true rfl ?_⟩
    · dsimp only
      cases file.numBlocks - (0 : UInt32).toNat / blockSize with
      | zero => rfl
      | succ left => rw [missingFrom, if_neg (by decide)]
    · rintro blk ⟨above, -, less, -⟩
      have := Nat.mul_le_mul_right blockSize above
      rw [eligibleEnd] at less
      dsimp only at apart
      rw [down, UInt32.toNat_zero] at apart
      omega
  · rw [down, UInt32.toNat_zero, Nat.max_zero] at starts
    dsimp only
    generalize intersect _ _ = eligible at starts ends ⊢
    have place : requested.start.toNat / blockSize * blockSize / blockSize =
        requested.start.toNat / blockSize := Nat.mul_div_cancel _ (by decide)
    have begins : eligible.start =
        UInt32.ofNat (requested.start.toNat / blockSize * blockSize) := by
      rw [← starts, UInt32.ofNat_toNat]
    obtain ⟨out, after, found, out_iff⟩ := @missingFrom_spec env file cache cache
      (requested.start.toNat / blockSize) mode eligible ⟨0, 0⟩ _ (fun _ => rfl)
      (UInt32.le_refl _) (Nat.le_of_eq starts) rfl
    rw [starts, place, begins]
    refine ⟨(out, after), found, out_iff.trans ?_⟩
    rw [ends]
    constructor
    · rintro ⟨-, all⟩ blk ⟨above, inside, less, only⟩
      exact all blk above inside less only
    · intro all
      exact ⟨rfl, fun blk above inside less only => all blk ⟨above, inside, less, only⟩⟩

/-- Every visited block has a byte that is asked for, if there is such a byte at all. -/
theorem Visited.overlaps {other : Nat} (overlaps : file.Overlaps requested other)
    (visited : Visited env file requested blk) : file.Overlaps requested blk := by
  obtain ⟨place, low, high, inside, -⟩ := overlaps
  obtain ⟨above, -, less, -⟩ := visited
  have up := roundUpToBlock_toNat requested.finish
  rw [eligibleEnd, up] at less
  refine ⟨max requested.start.toNat (blk * blockSize), Nat.le_max_left _ _, ?_, ?_, ?_⟩
  · rw [blockSize] at less ⊢
    split_ifs at less <;> omega
  · omega
  · rw [blockSize] at above ⊢
    omega

/-! ## Exactness -/

/-- The missing range is empty exactly if every block with a byte that is asked for can be
read. -/
def MissingSetExact (env : Environment) (file : ZCachedFile) (mode : Bool)
    (cache : ZBlockCache) (requested : DataRange) : Prop :=
  ∃ out, file.computeMissingSet env mode cache requested = .ok out ∧
    (out.1.IsEmpty ↔
      ∀ blk, file.Overlaps requested blk → file.Satisfied cache blk)

/-- What is missing is noticed at a visited block, and nothing is missed if nothing is asked
for. -/
structure Noticed (env : Environment) (file : ZCachedFile) (cache : ZBlockCache)
    (requested : DataRange) : Prop where
  found : ∀ blk, file.Overlaps requested blk → ¬file.Satisfied cache blk →
    ∃ other, Visited env file requested other ∧
      ¬file.Complete cache (file.eligibleEnd requested) other
  quiet : (∀ blk, ¬file.Overlaps requested blk) →
    ∀ blk, Visited env file requested blk →
      file.Complete cache (file.eligibleEnd requested) blk

/-- When the missing range decides whether a request can be answered. -/
theorem missing_set_exact_iff
    (env : Environment) (file : ZCachedFile) (mode : Bool) (cache : ZBlockCache)
    (requested : DataRange) (known : file.metadataState = .validated) :
    file.MissingSetExact env mode cache requested ↔ file.Noticed env cache requested := by
  obtain ⟨out, computed, empty_iff⟩ := @computeMissingSet_spec env file requested mode cache known
  constructor
  · rintro ⟨same, again, exact⟩
    rw [computed] at again
    cases again
    refine ⟨?_, ?_⟩
    · intro blk overlaps unsatisfied
      by_contra none
      refine unsatisfied (exact.mp (empty_iff.mpr fun other visited => ?_) blk overlaps)
      by_contra incomplete
      exact none ⟨other, visited, incomplete⟩
    · intro none
      exact empty_iff.mp (exact.mpr fun blk overlaps => absurd overlaps (none blk))
  · intro noticed
    refine ⟨out, computed, empty_iff.trans ⟨?_, ?_⟩⟩
    · intro complete blk overlaps
      by_contra unsatisfied
      obtain ⟨other, visited, incomplete⟩ := noticed.found blk overlaps unsatisfied
      exact incomplete (complete other visited)
    · intro satisfied blk visited
      by_cases some : ∃ other, file.Overlaps requested other
      · obtain ⟨other, overlaps⟩ := some
        exact (satisfied blk (visited.overlaps overlaps)).complete
      · exact noticed.quiet (fun other overlaps => some ⟨other, overlaps⟩) blk visited

/-- Where the missing range is exact, a request is answered when its blocks can be read, and
otherwise one request is sent to the server. -/
theorem MissingSetExact.considerRequest {client next : Client} {req : WaitingRequest}
    (exact : client.file.MissingSetExact env client.requestingDataMode client.cache req.dataRange)
    (known : client.file.metadataState = .validated) (named : req.hash ≠ zeroHash)
    (considered : client.considerRequest env req = .ok next) :
    ((∀ blk, client.file.Overlaps req.dataRange blk → client.file.Satisfied client.cache blk) ∧
      next.delivered = client.delivered ++ [(req, true)] ∧ next.issued = client.issued) ∨
    ((∃ blk, client.file.Overlaps req.dataRange blk ∧ ¬client.file.Satisfied client.cache blk) ∧
      next.delivered = client.delivered ∧ ∃ bytes, next.issued = client.issued ++ [bytes]) := by
  obtain ⟨⟨missing, cache⟩, computed, empty_iff⟩ := exact
  rw [Client.considerRequest, if_pos known, computed, ok_bind] at considered
  dsimp only at considered empty_iff
  split at considered
  · rename_i empty
    cases considered
    exact .inl ⟨empty_iff.mp empty, rfl, rfl⟩
  · rename_i nonempty
    rw [Client.issueServerRequest, if_neg named] at considered
    obtain ⟨⟨bytes, mode⟩, -, returned⟩ := of_bind considered
    cases returned
    rw [empty_iff] at nonempty
    push Not at nonempty
    exact .inr ⟨nonempty, rfl, bytes, rfl⟩

/-! ## A file of one byte -/

/-- One hash for everything. -/
def oneHash : Environment := .uncompressed (fun _ => onesHash) 0x10000 0

/-- The reply with which a client learns that the file has one byte. -/
def rootReply : ZFileReplyFromServer := .ofRecords 1 [⟨0, onesHash⟩]

/-- The file that the client then has. -/
def oneByte : ZCachedFile :=
  (new onesHash).configureFromMetadata ⟨1, 0⟩ onesHash

/-- A whole block, and the first byte of one. -/
def wholeBlock : ZBlockCacheRecord := .uniform 7

def firstByte : ZBlockCacheRecord := ⟨[7], false, by decide, nofun⟩

/-- The byte is not missing when its block is there. -/
theorem missing_set_exact_one_byte :
    oneByte.MissingSetExact oneHash true (fun _ => some wholeBlock) ⟨0, 1⟩ := by
  refine (missing_set_exact_iff oneHash oneByte true (fun _ => some wholeBlock) ⟨0, 1⟩
    rfl).mpr ⟨?_, ?_⟩
  · rintro blk ⟨place, -, less, -, rfl⟩ unsatisfied
    have first : place = 0 := Nat.lt_one_iff.mp less
    rw [first] at unsatisfied
    exact absurd ⟨by decide +kernel, rfl⟩ unsatisfied
  · intro none
    exact absurd ⟨0, by decide, by decide, by decide, rfl⟩ (none 0)

/-- Nothing is asked for, and something is missing; and nothing is missing of a block that
cannot be read. -/
theorem missing_set_not_exact :
    (new onesHash).installMetadata oneHash rootReply = (.newData, oneByte) ∧
      (∃ out, oneByte.computeMissingSet oneHash true (fun _ => none) ⟨0, 0⟩ = .ok out ∧
        ¬out.1.IsEmpty) ∧
      ZBlockCacheRecord.new.receiveData oneHash onesHash 0 1 [7] 0 = .ok (firstByte, true) ∧
      oneByte.Overlaps ⟨0, 1⟩ 0 ∧ ¬oneByte.Satisfied (fun _ => some firstByte) 0 ∧
      ∃ out, oneByte.computeMissingSet oneHash true (fun _ => some firstByte) ⟨0, 1⟩ =
        .ok out ∧ out.1.IsEmpty := by
  refine ⟨by rw [installMetadata, if_neg (by decide)]; rfl, by decide +kernel, rfl,
    ⟨0, by decide, by decide, by decide, rfl⟩, ?_, by decide +kernel⟩
  rintro ⟨-, valid⟩
  cases valid

end ZCachedFile

end Embassies.Zftp
