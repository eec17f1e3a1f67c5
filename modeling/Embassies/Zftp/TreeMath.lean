import Embassies.Zftp.OriginLoad

/-!
# The arithmetic of tree locations

`_tree_index` and `_tree_unindex` translate between a column of a level and its location in
the array; the level is found by a logarithm.  Parents, siblings and children are found by
shifting the location.
-/

namespace Embassies.Zftp

open Library Library.Checked Library.HeapTree

/-- `_tree_unindex`.  Its assertion is that the column is not negative. -/
def treeUnindex (location : Nat) : Nat × Nat :=
  let level := liteLog2 (location + 1) - 1
  (level, (location + 1) &&& (2 ^ level - 1))

variable {level col : Nat}

/-! ## The logarithm -/

/-- The value and the logarithm so far make up `exponent`, and that many bits are left. -/
structure Halving (exponent bits : Nat) (state : Nat × Nat) : Prop where
  positive : state.1 ≠ 0
  small : state.1 < 2 ^ bits
  sum : Nat.log 2 state.1 + state.2 = exponent

theorem Halving.round {exponent scale : Nat} {state : Nat × Nat}
    (halving : Halving exponent (scale + scale) state) :
    Halving exponent scale (log2Round state scale) := by
  rw [log2Round]
  split
  · rename_i large
    have taken : scale ≤ Nat.log 2 state.1 := Nat.le_log_of_pow_le Nat.one_lt_two large
    refine ⟨(Nat.div_pos large (Nat.two_pow_pos scale)).ne', ?_, ?_⟩
    · rw [Nat.div_lt_iff_lt_mul (Nat.two_pow_pos scale), ← Nat.pow_add]
      exact halving.small
    · rw [Nat.log_div_base_pow, ← halving.sum]
      dsimp only
      omega
  · exact ⟨halving.positive, by omega, halving.sum⟩

/-- `lite_log2` is one more than the logarithm. -/
theorem liteLog2_eq {len : Nat} (positive : len ≠ 0) (small : len < 2 ^ 32) :
    liteLog2 len = Nat.log 2 len + 1 := by
  have start : Halving (Nat.log 2 len) (16 + 16) (len, 0) := ⟨positive, small, rfl⟩
  have done : Halving (Nat.log 2 len) 1 ([16, 8, 4, 2, 1].foldl log2Round (len, 0)) :=
    start.round.round.round.round.round
  have rest : Nat.log 2 ([16, 8, 4, 2, 1].foldl log2Round (len, 0)).1 = 0 :=
    Nat.log_of_lt done.small
  rw [liteLog2, ← done.sum, rest, Nat.zero_add]

/-! ## Locations -/

theorem treeUnindex_node (shallow : level ≤ 30) (inside : col < 2 ^ level) :
    treeUnindex (node level col) = (level, col) := by
  have positive := Nat.two_pow_pos level
  have next : node level col + 1 = 2 ^ level + col := by
    rw [node]
    omega
  have bounded : 2 ^ level ≤ 2 ^ 30 := Nat.pow_le_pow_right Nat.two_pos shallow
  have exponent : Nat.log 2 (2 ^ level + col) = level :=
    Nat.log_eq_of_pow_le_of_lt_pow (Nat.le_add_right _ _) (by rw [Nat.pow_succ]; omega)
  rw [treeUnindex, next, liteLog2_eq (by omega) (by omega), exponent, Nat.add_sub_cancel,
    Nat.and_two_pow_sub_one_eq_mod, Nat.add_mod_left, Nat.mod_eq_of_lt inside]

theorem siblingLocation_node (level col : Nat) :
    siblingLocation (node (level + 1) col) = node (level + 1) (col ^^^ 1) := by
  rw [siblingLocation_eq (node_succ_ne_zero level col)]
  rcases Nat.mod_two_eq_zero_or_one col with even | odd
  · rw [sibling_node_of_even even, Nat.xor_one_of_even (Nat.even_iff.mpr even)]
  · rw [sibling_node_of_odd odd, Nat.xor_one_of_odd (Nat.odd_iff.mpr odd)]

/-- `_tree_index` gives this location in every array that has it. -/
def Located (level col location : Nat) : Prop :=
  ∀ treeSize, location < treeSize → treeIndex level col treeSize = .ok location

theorem located_node (inside : col < 2 ^ level) : Located level col (node level col) :=
  fun _ => treeIndex_eq_node inside

theorem Located.eq_node {location : Nat} (located : Located level col location)
    (inside : col < 2 ^ level) : location = node level col := by
  have index := located (location + node level col + 1) (by omega)
  rw [treeIndex_eq_node inside (by omega)] at index
  exact (Except.ok.inj index).symm

/-- A location tells its level and column, and those of its relatives are found from it. -/
theorem located_relatives (shallow : level ≤ 30) (inside : col < 2 ^ level) :
    ∃ location, Located level col location ∧ treeUnindex location = (level, col) ∧
      (∀ other place, other ≤ 30 → place < 2 ^ other → Located other place location →
        other = level ∧ place = col) ∧
      (level ≠ 0 → location ≠ 0 ∧ Located (level - 1) (col / 2) (parentLocation location) ∧
        Located level (col ^^^ 1) (siblingLocation location)) ∧
      (level < 30 → Located (level + 1) (2 * col) (leftChild location) ∧
        Located (level + 1) (2 * col + 1) (rightChild location)) := by
  refine ⟨node level col, located_node inside, treeUnindex_node shallow inside, ?_, ?_, ?_⟩
  · intro other place _ placed located
    exact (node_inj placed inside).mp (located.eq_node placed).symm
  · intro inner
    obtain ⟨upper, rfl⟩ := Nat.exists_eq_succ_of_ne_zero inner
    have half : col / 2 < 2 ^ upper := by
      rw [Nat.pow_succ] at inside
      omega
    rw [parentLocation_node, siblingLocation_node]
    refine ⟨node_succ_ne_zero upper col, located_node half, located_node ?_⟩
    exact Nat.xor_lt_two_pow inside (Nat.one_lt_two_pow (Nat.succ_ne_zero upper))
  · intro _
    have double : 2 ^ (level + 1) = 2 ^ level * 2 := Nat.pow_succ ..
    rw [leftChild_eq, rightChild_eq, left_node, right_node]
    exact ⟨located_node (by omega), located_node (by omega)⟩

theorem located_relatives_deepest :
    5 < 2 ^ 30 ∧ ∃ location, Located 30 5 location ∧ treeUnindex location = (30, 5) := by
  have inside : 5 < 2 ^ 30 := by decide
  obtain ⟨location, located, back, -⟩ := located_relatives (Nat.le_refl 30) inside
  exact ⟨inside, location, located, back⟩

end Embassies.Zftp
