import Embassies.Kvm.AllocatorSound
import Embassies.Zarfile.ChunkDecoder

/-!
# Unions of ranges

`RangeUnion` keeps the ranges that were read from a file in a tree by start.  A new
range is joined with the ranges it touches until it touches none.

The tree compares starts by the sign of their difference as an `int`.  As long as the
starts lie within 2^31 bytes of each other, the tree is sorted, a new range adds
exactly its own bytes, and the iteration lists every range.
-/

namespace Embassies.Zarfile

open Kvm Library Library.Checked List SearchTree UInt32

/-- `RangeUnion`. -/
structure RangeUnion where
  tree : SearchTree Range

/-- The comparison of a range of the tree with another. -/
def startOrder (range elt : Range) : Ordering :=
  ordering (byStartCmp elt range)

namespace RangeUnion

/-- A round of the loop of `accumulate`. -/
def accumulateRound (balance : SearchTree.Balance Range)
    (state : SearchTree Range × Range) :
    Except ChunkFault ((SearchTree Range × Range) ⊕ SearchTree Range) :=
  let tree := state.1
  let range := state.2
  match (tree.findFirstLessThanOrEqualTo (startOrder range)).filter
      (fun left => left.finish ≥ range.start) with
  | some left => do
    let tree ← tree.remove balance (startOrder left) .assertion
    return .inl (tree, ⟨left.start, max left.finish range.finish⟩)
  | none =>
    match (tree.findFirstGreaterThanOrEqualTo (startOrder range)).filter
        (fun right => right.start ≤ range.finish) with
    | some right => do
      let tree ← tree.remove balance (startOrder right) .assertion
      return .inl (tree, ⟨range.start, max right.finish range.finish⟩)
    | none => do
      let tree ← tree.insert balance (startOrder range) range .assertion
      return .inr tree

/-- `accumulate`; every round but the last takes a range out of the tree. -/
def accumulate (balance : SearchTree.Balance Range) (union : RangeUnion)
    (range : Range) : Except ChunkFault RangeUnion := do
  let tree ← Loop.run .exhausted (accumulateRound balance)
    (union.tree.toList.length + 1) (union.tree, range)
  return ⟨tree⟩

/-- `first_range`. -/
def firstRange (union : RangeUnion) : Option Range := union.tree.findMin

/-- `next_range`. -/
def nextRange (union : RangeUnion) (prevRange : Range) : Option Range :=
  union.tree.findFirstGreaterThan (startOrder prevRange)

/-- The ranges that an iteration meets from some range on. -/
def rangesFrom (union : RangeUnion) : Nat → Option Range → Except ChunkFault (List Range)
  | _, none => .ok []
  | 0, some _ => .error .exhausted
  | fuel + 1, some cursor => do
    let rest ← union.rangesFrom fuel (union.nextRange cursor)
    return cursor :: rest

/-- The ranges that an iteration meets. -/
def ranges (union : RangeUnion) : Except ChunkFault (List Range) :=
  union.rangesFrom union.tree.toList.length union.firstRange

end RangeUnion

/-! ## Comparisons -/

/-- Any two of these starts are less than 2^31 apart. -/
def Near (starts : UInt32 → Prop) : Prop :=
  ∀ first second, starts first → starts second → first.toNat < second.toNat + 2 ^ 31

section Comparisons

variable {starts : UInt32 → Prop} {range elt : Range}

theorem startOrder_eq_iff : startOrder range elt = .eq ↔ elt.start = range.start := by
  rw [startOrder, ordering_eq_eq_iff, byStartCmp, difference_eq_zero_iff]

theorem startOrder_eq_lt_iff
    (near : Near starts) (rangeStart : starts range.start) (eltStart : starts elt.start) :
    startOrder range elt = .lt ↔ elt.start < range.start := by
  rw [startOrder, ordering_eq_lt_iff, byStartCmp,
    difference_neg_iff_of_near (near _ _ eltStart rangeStart)
      (Nat.le_of_lt (near _ _ rangeStart eltStart))]

theorem startOrder_eq_gt_iff
    (near : Near starts) (rangeStart : starts range.start) (eltStart : starts elt.start) :
    startOrder range elt = .gt ↔ range.start < elt.start := by
  have same := @startOrder_eq_iff range elt
  have less := startOrder_eq_lt_iff near rangeStart eltStart
  cases outcome : startOrder range elt with
  | eq => grind
  | lt => grind
  | gt => grind

end Comparisons

/-! ## Sorted unions -/

/-- The byte at a place lies in a range. -/
def Contains (range : Range) (place : Nat) : Prop :=
  range.start.toNat ≤ place ∧ place < range.finish.toNat

/-- The byte at a place lies in a range of a tree. -/
def InTree (tree : SearchTree Range) (place : Nat) : Prop :=
  ∃ range ∈ tree.toList, Contains range place

/-- A tree of ranges that have bytes, with these starts and in their order. -/
structure Tidy (starts : UInt32 → Prop) (tree : SearchTree Range) : Prop where
  sorted : tree.toList.Pairwise fun left right => left.start < right.start
  starts : ∀ range ∈ tree.toList, starts range.start
  nonempty : ∀ range ∈ tree.toList, range.start < range.finish

namespace Tidy

variable {starts : UInt32 → Prop} {tree : SearchTree Range} {range : Range}
  {balance : SearchTree.Balance Range} {fault : ChunkFault}

theorem empty : Tidy starts .empty where
  sorted := .nil
  starts _ member := absurd member not_mem_nil
  nonempty _ member := absurd member not_mem_nil

theorem ascending (tidy : Tidy starts tree) (near : Near starts) (start : starts range.start) :
    SearchTree.Ascending (startOrder range) tree.toList := by
  refine tidy.sorted.imp_of_mem fun {earlier later} earlierIn laterIn before => ?_
  rw [startOrder_eq_gt_iff near start (tidy.starts later laterIn),
    startOrder_eq_lt_iff near start (tidy.starts earlier earlierIn)]
  grind

theorem remove (tidy : Tidy starts tree) (near : Near starts) (member : range ∈ tree.toList) :
    ∃ shrunk, tree.remove balance (startOrder range) fault = .ok shrunk ∧
      tree.toList.Perm (range :: shrunk.toList) ∧ shrunk.toList.Sublist tree.toList ∧
      Tidy starts shrunk := by
  obtain ⟨shrunk, removed, left⟩ := @remove_of_ascending _ _ _ tree balance fault _
    (tidy.ascending near (tidy.starts range member)) _ member (startOrder_eq_iff.mpr rfl)
  have smaller : shrunk.toList.Sublist tree.toList := left ▸ erase_sublist
  refine ⟨shrunk, removed, ?_, smaller, tidy.sorted.sublist smaller, ?_, ?_⟩
  · rw [left]
    exact perm_cons_erase member
  · exact fun other member => tidy.starts other (smaller.subset member)
  · exact fun other member => tidy.nonempty other (smaller.subset member)

theorem insert (tidy : Tidy starts tree) (near : Near starts) (start : starts range.start)
    (nonempty : range.start < range.finish)
    (fresh : ∀ other ∈ tree.toList, other.start ≠ range.start) :
    ∃ grown, tree.insert balance (startOrder range) range fault = .ok grown ∧
      grown.toList.Perm (range :: tree.toList) ∧ Tidy starts grown := by
  have spec := @insert_spec _ _ _ tree balance range fault _ (tidy.ascending near start) tidy.sorted
    (fun other member => (startOrder_eq_lt_iff near start (tidy.starts other member)).mp)
    (fun other member => (startOrder_eq_gt_iff near start (tidy.starts other member)).mp)
  split at spec
  · obtain ⟨other, member, equal⟩ := spec
    exact absurd (startOrder_eq_iff.mp equal) (fresh other member)
  · rename_i grown inserted
    obtain ⟨perm, sorted⟩ := spec
    have all : ∀ property : Range → Prop, property range →
        (∀ other ∈ tree.toList, property other) → ∀ other ∈ grown.toList, property other := by
      intro property new old
      simpa [perm.mem_iff] using ⟨new, old⟩
    exact ⟨grown, inserted, perm, sorted, all (fun other => starts other.start) start tidy.starts,
      all (fun other => other.start < other.finish) nonempty tidy.nonempty⟩

end Tidy

/-- Between any two ranges of a list there is a gap. -/
def Separate (ranges : List Range) : Prop :=
  ranges.Pairwise fun left right => left.finish < right.start

namespace Tidy

variable {starts : UInt32 → Prop} {tree : SearchTree Range} {range other : Range}

theorem ends_before (tidy : Tidy starts tree) (near : Near starts) (start : starts range.start)
    (noLeft : (tree.findFirstLessThanOrEqualTo (startOrder range)).filter
      (fun left => left.finish ≥ range.start) = none)
    (member : other ∈ tree.toList) (fits : startOrder range other ≠ .gt) :
    other.start < range.start ∧ (Separate tree.toList → other.finish < range.start) := by
  have spec := findFirstLessThanOrEqualTo_spec (tidy.ascending near start)
  split at spec
  · exact absurd (spec other member) fits
  · rename_i found search
    obtain ⟨front, back, split, -, beyond⟩ := spec
    have foundIn : found ∈ tree.toList := split ▸ mem_append_right _ mem_cons_self
    have foundNonempty := tidy.nonempty found foundIn
    have gap : found.finish < range.start := by
      rw [search, Option.filter_eq_none_iff] at noLeft
      simpa using noLeft found rfl
    have sorted := tidy.sorted
    rw [Separate]
    rw [split, mem_append, mem_cons] at member
    rcases member with inFront | rfl | inBack
    · refine ⟨by grind, fun separate => ?_⟩
      grind
    · exact ⟨UInt32.lt_trans foundNonempty gap, fun _ => gap⟩
    · exact absurd (beyond other inBack) fits

theorem starts_after (tidy : Tidy starts tree) (near : Near starts) (start : starts range.start)
    (noRight : (tree.findFirstGreaterThanOrEqualTo (startOrder range)).filter
      (fun right => right.start ≤ range.finish) = none)
    (member : other ∈ tree.toList) (fits : startOrder range other ≠ .lt) :
    range.finish < other.start := by
  have spec := findFirstGreaterThanOrEqualTo_sorted (tidy.ascending near start) tidy.sorted
  split at spec
  · exact absurd (spec other member) fits
  · rename_i found search
    have gap : range.finish < found.start := by
      rw [search, Option.filter_eq_none_iff] at noRight
      simpa using noRight found rfl
    rcases spec.2.2 other member with rfl | later | less
    · exact gap
    · exact UInt32.lt_trans gap later
    · exact absurd less fits

end Tidy

theorem inTree_of_perm {tree other : SearchTree Range} {range : Range} {place : Nat}
    (perm : tree.toList.Perm (range :: other.toList)) :
    InTree tree place ↔ Contains range place ∨ InTree other place := by
  simp only [InTree, perm.mem_iff, mem_cons, exists_eq_or_imp]

theorem contains_join {left right joined : Range} {place : Nat} (before : left.start ≤ right.start)
    (touch : right.start ≤ left.finish) (start : joined.start = left.start)
    (finish : joined.finish.toNat = max left.finish.toNat right.finish.toNat) :
    Contains joined place ↔ Contains left place ∨ Contains right place := by
  simp only [Contains, start, finish]
  rw [le_iff_toNat_le] at before touch
  omega

/-! ## `accumulate` -/

namespace RangeUnion

variable {starts : UInt32 → Prop} {tree : SearchTree Range} {range : Range}
  {balance : SearchTree.Balance Range}

/-- A range and a tree have the bytes of another range and a smaller tree. -/
structure Shifted (starts : UInt32 → Prop) (tree : SearchTree Range) (range : Range)
    (shrunk : SearchTree Range) (joined : Range) : Prop where
  tidy : Tidy starts shrunk
  start : starts joined.start
  nonempty : joined.start < joined.finish
  shorter : shrunk.toList.length + 1 = tree.toList.length
  same : ∀ place, Contains joined place ∨ InTree shrunk place ↔
    Contains range place ∨ InTree tree place

/-- The tree that a range is added to. -/
structure Added (starts : UInt32 → Prop) (tree : SearchTree Range) (range : Range)
    (grown : SearchTree Range) : Prop where
  tidy : Tidy starts grown
  longer : grown.toList.length ≤ tree.toList.length + 1
  same : ∀ place, InTree grown place ↔ Contains range place ∨ InTree tree place

theorem Added.of_shifted {shrunk grown : SearchTree Range} {joined : Range}
    (shifted : Shifted starts tree range shrunk joined)
    (added : Added starts shrunk joined grown) : Added starts tree range grown where
  tidy := added.tidy
  longer := by
    have shorter := shifted.shorter
    have longer := added.longer
    omega
  same place := (added.same place).trans (shifted.same place)

section Rounds

variable (near : Near starts) (tidy : Tidy starts tree) (start : starts range.start)
  (nonempty : range.start < range.finish)

include near tidy start nonempty

/-- A round joins the range with one that it touches, or puts it in. -/
theorem accumulateRound_spec : (∃ shrunk joined, accumulateRound balance (tree, range) =
        .ok (.inl (shrunk, joined)) ∧ Shifted starts tree range shrunk joined ∧
        (Separate tree.toList → Separate shrunk.toList)) ∨
    ∃ grown, accumulateRound balance (tree, range) = .ok (.inr grown) ∧
      Added starts tree range grown ∧ (Separate tree.toList → Separate grown.toList) := by
  rw [accumulateRound]
  split
  · rename_i left search
    obtain ⟨found, touches⟩ := Option.filter_eq_some_iff.mp search
    have spec := findFirstLessThanOrEqualTo_sorted (tidy.ascending near start) tidy.sorted
    rw [found] at spec
    obtain ⟨member, notGreater, -⟩ := spec
    rw [ne_eq, startOrder_eq_gt_iff near start (tidy.starts left member)] at notGreater
    obtain ⟨shrunk, removed, perm, sublist, shrunkTidy⟩ :=
      @Tidy.remove starts tree left balance .assertion tidy near member
    refine .inl ⟨shrunk, ⟨left.start, max left.finish range.finish⟩, by rw [removed]; rfl,
      ⟨shrunkTidy, tidy.starts left member, ?_, perm.length_eq.symm, ?_⟩,
      fun separate => separate.sublist sublist⟩
    · show left.start < max left.finish range.finish
      have leftNonempty := lt_iff_toNat_lt.mp (tidy.nonempty left member)
      rw [lt_iff_toNat_lt, toNat_max]
      omega
    · intro place
      have joined := @contains_join left range ⟨_, max left.finish range.finish⟩ place
        (UInt32.not_lt.mp notGreater) (of_decide_eq_true touches) rfl
        (toNat_max _ _)
      rw [joined, inTree_of_perm perm]
      tauto
  · rename_i noLeft
    split
    · rename_i right search
      obtain ⟨found, touches⟩ := Option.filter_eq_some_iff.mp search
      have spec := findFirstGreaterThanOrEqualTo_sorted (tidy.ascending near start) tidy.sorted
      rw [found] at spec
      obtain ⟨member, notLess, -⟩ := spec
      rw [ne_eq, startOrder_eq_lt_iff near start (tidy.starts right member)] at notLess
      obtain ⟨shrunk, removed, perm, sublist, shrunkTidy⟩ :=
        @Tidy.remove starts tree right balance .assertion tidy near member
      refine .inl ⟨shrunk, ⟨range.start, max right.finish range.finish⟩, by rw [removed]; rfl,
        ⟨shrunkTidy, start, ?_, perm.length_eq.symm, ?_⟩,
        fun separate => separate.sublist sublist⟩
      · show range.start < max right.finish range.finish
        rw [lt_iff_toNat_lt] at nonempty
        rw [lt_iff_toNat_lt, toNat_max]
        omega
      · intro place
        have joined := @contains_join range right ⟨_, max right.finish range.finish⟩ place
          (UInt32.not_lt.mp notLess) (of_decide_eq_true touches) rfl
          ((toNat_max _ _).trans (Nat.max_comm _ _))
        rw [joined, inTree_of_perm perm]
        tauto
    · rename_i noRight
      obtain ⟨grown, inserted, perm, grownTidy⟩ :=
        @Tidy.insert starts tree range balance .assertion tidy near start nonempty (by
          intro other member same
          have less := (tidy.ends_before near start noLeft member
            (by rw [startOrder_eq_iff.mpr same]; exact nofun)).1
          exact UInt32.ne_of_lt less same)
      refine .inr ⟨grown, by rw [inserted]; rfl, ⟨grownTidy, ?_, fun place => inTree_of_perm perm⟩,
        fun separate => ?_⟩
      · rw [perm.length_eq, length_cons]
      · have spec := @insert_spec _ _ _ tree balance range ChunkFault.assertion _
          (tidy.ascending near start) separate
          (fun other member less => (tidy.ends_before near start noLeft member
            (by rw [less]; exact nofun)).2 separate)
          (fun other member greater => tidy.starts_after near start noRight member
            (by rw [greater]; exact nofun))
        rw [inserted] at spec
        exact spec.2

theorem accumulateRounds_spec {fuel : Nat} (enough : tree.toList.length < fuel) :
    ∃ grown, Loop.run .exhausted (accumulateRound balance) fuel (tree, range) = .ok grown ∧
      Added starts tree range grown ∧ (Separate tree.toList → Separate grown.toList) := by
  induction fuel generalizing tree range with
  | zero => exact absurd enough (Nat.not_lt_zero _)
  | succ fuel induction =>
    rcases @accumulateRound_spec starts tree range balance near tidy start nonempty with
      ⟨shrunk, joined, goes, shifted, kept⟩ | ⟨grown, leaves, added⟩
    · rw [Loop.run_next goes]
      have shorter := shifted.shorter
      obtain ⟨grown, ran, added, later⟩ := induction shifted.tidy shifted.start shifted.nonempty
        (by omega)
      exact ⟨grown, ran, added.of_shifted shifted, later ∘ kept⟩
    · exact ⟨grown, Loop.run_leave leaves, added⟩

theorem accumulate_spec : ∃ grown, accumulate balance ⟨tree⟩ range = .ok ⟨grown⟩ ∧
      Added starts tree range grown ∧ (Separate tree.toList → Separate grown.toList) := by
  obtain ⟨grown, ran, added⟩ := @accumulateRounds_spec starts tree range balance near tidy start
    nonempty _ (Nat.lt_succ_self _)
  exact ⟨grown, by rw [accumulate, ran]; rfl, added⟩

end Rounds

/-! ## The iteration -/

theorem rangesFrom_of_split
    {union : RangeUnion} {front back : List Range} {fuel : Nat} (near : Near starts)
    (tidy : Tidy starts union.tree) (split : union.tree.toList = front ++ back)
    (enough : back.length ≤ fuel) :
    union.rangesFrom fuel back.head? = .ok back := by
  induction back generalizing front fuel with
  | nil => exact @rangesFrom.eq_1 union fuel
  | cons cursor back induction =>
    obtain ⟨fuel, rfl⟩ : ∃ rest, fuel = rest + 1 := ⟨fuel - 1, by rw [length_cons] at enough; omega⟩
    have next : union.nextRange cursor = back.head? := by
      refine findFirstGreaterThan_of_sorted split tidy.sorted ?_ ?_
      · exact startOrder_eq_iff.mpr rfl
      · intro left leftIn right rightIn less
        have leftStart := tidy.starts left leftIn
        have rightStart := tidy.starts right rightIn
        rw [startOrder_eq_gt_iff near leftStart rightStart, ne_eq,
          startOrder_eq_gt_iff near rightStart leftStart]
        exact ⟨less, UInt32.lt_asymm less⟩
    have later := @induction (front ++ [cursor]) fuel
      (by rw [split, append_assoc]; rfl) (Nat.le_of_succ_le_succ enough)
    rw [head?_cons, rangesFrom, next, later]
    rfl

theorem ranges_eq {union : RangeUnion} (near : Near starts) (tidy : Tidy starts union.tree) :
    union.ranges = .ok union.tree.toList := by
  rw [ranges, firstRange, findMin_eq_head?]
  exact @rangesFrom_of_split starts union [] _ _ near tidy rfl (Nat.le_refl _)

end RangeUnion

/-! ## The normal form -/

/-- Ranges that have bytes, from left to right and with gaps between them. -/
structure Normal (ranges : List Range) : Prop where
  nonempty : ∀ range ∈ ranges, range.start < range.finish
  separate : Separate ranges

/-- The byte at a place lies in one of some ranges. -/
def InRanges (ranges : List Range) (place : Nat) : Prop :=
  ∃ range ∈ ranges, Contains range place

namespace Normal

variable {range first second : Range} {ranges firsts seconds : List Range} {place : Nat}

theorem tail (normal : Normal (range :: ranges)) : Normal ranges where
  nonempty other member := normal.nonempty other (mem_cons_of_mem _ member)
  separate := (pairwise_cons.mp normal.separate).2

/-- The places after the first range are those of the other ranges. -/
theorem inRanges_tail_iff (normal : Normal (range :: ranges)) :
    InRanges ranges place ↔ InRanges (range :: ranges) place ∧ range.finish.toNat ≤ place := by
  have beyond := (pairwise_cons.mp normal.separate).1
  simp only [InRanges, mem_cons, exists_eq_or_imp, Contains]
  constructor
  · rintro ⟨other, member, first, last⟩
    have after := lt_iff_toNat_lt.mp (beyond other member)
    exact ⟨.inr ⟨other, member, first, last⟩, by omega⟩
  · rintro ⟨inHead | inTail, after⟩
    · omega
    · exact inTail

/-- The first range of ranges with more bytes starts no later, and reaches as far
when it starts at the same place. -/
theorem head_covers (normal : Normal (first :: firsts)) (other : Normal (second :: seconds))
    (more : ∀ place, InRanges (second :: seconds) place → InRanges (first :: firsts) place) :
    first.start.toNat ≤ second.start.toNat ∧
      (first.start = second.start → second.finish.toNat ≤ first.finish.toNat) := by
  have firstNonempty := lt_iff_toNat_lt.mp (normal.nonempty first mem_cons_self)
  have nonempty := lt_iff_toNat_lt.mp (other.nonempty second mem_cons_self)
  have beyond := (pairwise_cons.mp normal.separate).1
  constructor
  · obtain ⟨range, member, starts, -⟩ :=
      more second.start.toNat ⟨second, mem_cons_self, Nat.le_refl _, nonempty⟩
    rcases mem_cons.mp member with rfl | later
    · exact starts
    · have after := lt_iff_toNat_lt.mp (beyond range later)
      omega
  · intro same
    by_contra longer
    -- the byte after the first range would be in a range that touches it
    obtain ⟨range, member, starts, ends⟩ :=
      more first.finish.toNat ⟨second, mem_cons_self, by rw [← same]; omega, by omega⟩
    rcases mem_cons.mp member with rfl | later
    · omega
    · have after := lt_iff_toNat_lt.mp (beyond range later)
      omega

/-- The bytes determine the ranges. -/
theorem eq_of_same (normal : Normal firsts) (other : Normal seconds)
    (same : ∀ place, InRanges firsts place ↔ InRanges seconds place) : firsts = seconds := by
  induction firsts generalizing seconds with
  | nil =>
    cases seconds with
    | nil => rfl
    | cons second seconds =>
      have nonempty := lt_iff_toNat_lt.mp (other.nonempty second mem_cons_self)
      obtain ⟨_, absurd, -⟩ := (same second.start.toNat).mpr
        ⟨second, mem_cons_self, Nat.le_refl _, nonempty⟩
      cases absurd
  | cons first firsts induction =>
    cases seconds with
    | nil =>
      have nonempty := lt_iff_toNat_lt.mp (normal.nonempty first mem_cons_self)
      obtain ⟨_, absurd, -⟩ := (same first.start.toNat).mp
        ⟨first, mem_cons_self, Nat.le_refl _, nonempty⟩
      cases absurd
    | cons second seconds =>
      have left := normal.head_covers other fun place => (same place).mpr
      have right := other.head_covers normal fun place => (same place).mp
      have starts : first.start = second.start :=
        UInt32.toNat_inj.mp (Nat.le_antisymm left.1 right.1)
      have finishes : first.finish = second.finish :=
        UInt32.toNat_inj.mp (Nat.le_antisymm (right.2 starts.symm) (left.2 starts))
      obtain rfl : first = second := by
        cases first
        cases second
        simp_all
      rw [induction normal.tail other.tail fun place => by
        rw [normal.inRanges_tail_iff, other.inRanges_tail_iff, same place]]

end Normal

namespace RangeUnion

theorem near_low : Near fun start => start.toNat < 2 ^ 31 :=
  fun _ _ first _ => Nat.lt_add_left _ first

theorem accumulate_all {balance : SearchTree.Balance Range} {calls : List Range}
    (proper : ∀ range ∈ calls, range.start < range.finish ∧ range.finish.toNat < 2 ^ 31) :
    ∃ union, calls.foldlM (accumulate balance) ⟨.empty⟩ = .ok union ∧
      Tidy (fun start => start.toNat < 2 ^ 31) union.tree ∧ Normal union.tree.toList ∧
      ∀ place, InRanges union.tree.toList place ↔ InRanges calls place := by
  induction calls using List.reverseRecOn with
  | nil => exact ⟨⟨.empty⟩, rfl, Tidy.empty, ⟨by simp [SearchTree.toList], .nil⟩, fun _ => .rfl⟩
  | append_singleton calls range induction =>
    obtain ⟨union, ran, tidy, normal, same⟩ := induction fun other member =>
      proper other (mem_append_left _ member)
    obtain ⟨nonempty, bound⟩ := proper range (mem_append_right _ (mem_singleton_self _))
    obtain ⟨grown, accumulated, added, separate⟩ := @accumulate_spec _ _ range balance near_low
      tidy (Nat.lt_trans (lt_iff_toNat_lt.mp nonempty) bound) nonempty
    refine ⟨⟨grown⟩, ?_, added.tidy, ⟨added.tidy.nonempty, separate normal.separate⟩, ?_⟩
    · rw [foldlM_append, ran, ok_bind, foldlM_cons, accumulated]
      rfl
    · intro place
      refine (added.same place).trans ?_
      have old : InTree union.tree place ↔ InRanges calls place := same place
      rw [old]
      simp [InRanges, or_and_right, exists_or, or_comm]

/-- Every sequence of ranges below 2^31 is accumulated to the normal form of its bytes,
whatever the order. -/
theorem accumulate_normal_form {calls : List Range}
    (proper : ∀ range ∈ calls, range.start < range.finish ∧ range.finish.toNat < 2 ^ 31) :
    ∃ stored, Normal stored ∧ (∀ place, InRanges stored place ↔ InRanges calls place) ∧
      ∀ (balance : SearchTree.Balance Range) (others : List Range), others.Perm calls →
        ∃ union, others.foldlM (accumulate balance) ⟨.empty⟩ = .ok union ∧
          union.ranges = .ok stored := by
  obtain ⟨union, -, -, normal, same⟩ := @accumulate_all .spine calls proper
  refine ⟨union.tree.toList, normal, same, fun balance others perm => ?_⟩
  obtain ⟨reordered, ran, tidy, otherNormal, otherSame⟩ := @accumulate_all balance others
    fun range member => proper range (perm.mem_iff.mp member)
  refine ⟨reordered, ran, ?_⟩
  rw [ranges_eq near_low tidy, otherNormal.eq_of_same normal fun place => by
    rw [otherSame, same]
    simp only [InRanges, perm.mem_iff]]

/-- Ranges that overlap and touch are accumulated to one. -/
theorem accumulate_normal_form_joined : ∃ stored, Normal stored ∧
      (∀ place, InRanges stored place ↔ InRanges [⟨0, 2⟩, ⟨4, 6⟩, ⟨2, 5⟩] place) ∧
      ∀ (balance : SearchTree.Balance Range) (others : List Range),
        others.Perm [⟨0, 2⟩, ⟨4, 6⟩, ⟨2, 5⟩] →
        ∃ union, others.foldlM (accumulate balance) ⟨.empty⟩ = .ok union ∧
          union.ranges = .ok stored :=
  accumulate_normal_form (by decide)

end RangeUnion

end Embassies.Zarfile
