import Mathlib.Algebra.Group.Nat.Defs
import Mathlib.Data.Nat.Init
import Mathlib.Data.Nat.Log

/-!
# Trees in an array

A complete binary tree is stored in an array, level by level: the root is at 0 and the
children of a location follow the children of all earlier ones.
-/

namespace Embassies.Library.HeapTree

/-! ## Locations -/

/-- The location of the left child. -/
def left (location : Nat) : Nat := 2 * location + 1

/-- The location of the right child. -/
def right (location : Nat) : Nat := 2 * location + 2

/-- The location of the parent. -/
def parent (location : Nat) : Nat := (location - 1) / 2

/-- The other child of the parent. -/
def sibling (location : Nat) : Nat :=
  if location = left (parent location) then right (parent location)
  else left (parent location)

variable {location size depth : Nat}

@[simp]
theorem parent_left (location : Nat) : parent (left location) = location := by
  rw [parent, left]
  omega

@[simp]
theorem parent_right (location : Nat) : parent (right location) = location := by
  rw [parent, right]
  omega

@[simp]
theorem sibling_left (location : Nat) : sibling (left location) = right location := by
  rw [sibling, parent_left, if_pos rfl]

@[simp]
theorem sibling_right (location : Nat) : sibling (right location) = left location := by
  rw [sibling, parent_right, if_neg (by rw [left, right]; omega)]

theorem eq_left_or_right (notRoot : location ≠ 0) :
    location = left (parent location) ∨ location = right (parent location) := by
  rw [left, right, parent]
  omega

theorem sibling_ne_zero (location : Nat) : sibling location ≠ 0 := by
  rw [sibling]
  split
  · exact Nat.succ_ne_zero _
  · exact Nat.succ_ne_zero _

theorem parent_sibling (location : Nat) : parent (sibling location) = parent location := by
  rw [sibling]
  split
  · exact parent_right _
  · exact parent_left _

theorem sibling_sibling (notRoot : location ≠ 0) : sibling (sibling location) = location := by
  rcases eq_left_or_right notRoot with same | same
  · rw [same, sibling_left, sibling_right]
  · rw [same, sibling_right, sibling_left]

theorem both_children_iff {holds : Nat → Prop} (notRoot : location ≠ 0) :
    holds (left (parent location)) ∧ holds (right (parent location)) ↔
      holds location ∧ holds (sibling location) := by
  rcases eq_left_or_right notRoot with same | same
  · rw [same, sibling_left, parent_left]
  · rw [same, sibling_right, parent_right]
    exact and_comm

theorem right_lt_iff_left_lt (complete : size % 2 = 1) :
    right location < size ↔ left location < size := by
  rw [left, right]
  omega

theorem sibling_lt (complete : size % 2 = 1) (inside : location < size) (notRoot : location ≠ 0) :
    sibling location < size := by
  rcases eq_left_or_right notRoot with same | same
  · rw [same] at inside ⊢
    rw [sibling_left]
    exact (right_lt_iff_left_lt complete).mpr inside
  · rw [same] at inside ⊢
    rw [sibling_right]
    exact (right_lt_iff_left_lt complete).mp inside

/-! ## Levels -/

/-- The location of a column of a level. -/
def node (level column : Nat) : Nat := 2 ^ level - 1 + column

variable {level column : Nat}

theorem node_lt (inside : column < 2 ^ level) : node level column < 2 ^ (level + 1) - 1 := by
  rw [node, Nat.pow_succ]
  omega

theorem le_node (level column : Nat) : 2 ^ level - 1 ≤ node level column := Nat.le_add_right _ _

theorem node_succ_ne_zero (level column : Nat) : node (level + 1) column ≠ 0 := by
  have := Nat.two_pow_pos level
  rw [node, Nat.pow_succ]
  omega

theorem parent_node (level column : Nat) :
    parent (node (level + 1) column) = node level (column / 2) := by
  have := Nat.two_pow_pos level
  rw [parent, node, node, Nat.pow_succ]
  omega

theorem left_node (level column : Nat) :
    left (node level column) = node (level + 1) (2 * column) := by
  have := Nat.two_pow_pos level
  rw [left, node, node, Nat.pow_succ]
  omega

theorem right_node (level column : Nat) :
    right (node level column) = node (level + 1) (2 * column + 1) := by
  have := Nat.two_pow_pos level
  rw [right, node, node, Nat.pow_succ]
  omega

theorem node_lt_node {level column other : Nat} {lower : Nat} (inside : column < 2 ^ level)
    (below : level < lower) : node level column < node lower other := by
  have := Nat.pow_le_pow_right Nat.two_pos (Nat.succ_le_of_lt below)
  have := node_lt inside
  have := le_node lower other
  omega

theorem node_inj {other place : Nat} (inside : column < 2 ^ level)
    (otherInside : place < 2 ^ other) :
    node level column = node other place ↔ level = other ∧ column = place := by
  constructor
  · intro same
    rcases Nat.lt_trichotomy level other with above | rfl | below
    · exact absurd same (Nat.ne_of_lt (node_lt_node inside above))
    · exact ⟨rfl, Nat.add_left_cancel same⟩
    · exact absurd same.symm (Nat.ne_of_lt (node_lt_node otherInside below))
  · rintro ⟨rfl, rfl⟩
    rfl

theorem exists_node (inside : location < 2 ^ (depth + 1) - 1) :
    ∃ level column, level ≤ depth ∧ column < 2 ^ level ∧ location = node level column := by
  have low : 2 ^ Nat.log 2 (location + 1) ≤ location + 1 :=
    Nat.pow_log_le_self 2 (Nat.succ_ne_zero location)
  have high := Nat.lt_pow_succ_log_self Nat.one_lt_two (location + 1)
  refine ⟨Nat.log 2 (location + 1), location + 1 - 2 ^ Nat.log 2 (location + 1), ?_, ?_, ?_⟩
  · have shallow : 2 ^ Nat.log 2 (location + 1) < 2 ^ (depth + 1) := by omega
    exact Nat.le_of_lt_succ ((Nat.pow_lt_pow_iff_right Nat.one_lt_two).mp shallow)
  · omega
  · rw [node]
    omega

theorem le_sibling_node (level column : Nat) :
    2 ^ (level + 1) - 1 ≤ sibling (node (level + 1) column) := by
  have above := le_node level (column / 2)
  rw [sibling, parent_node, left, right, Nat.pow_succ]
  split <;> omega

theorem sibling_node_of_even (even : column % 2 = 0) :
    sibling (node (level + 1) column) = node (level + 1) (column + 1) := by
  have same : 2 * (column / 2) = column := by omega
  have child := left_node level (column / 2)
  rw [same] at child
  rw [← child, sibling_left, right_node, same]

theorem sibling_node_of_odd (odd : column % 2 = 1) :
    sibling (node (level + 1) column) = node (level + 1) (column - 1) := by
  have same : 2 * (column / 2) + 1 = column := by omega
  have before : 2 * (column / 2) = column - 1 := by omega
  have child := right_node level (column / 2)
  rw [same] at child
  rw [← child, sibling_right, left_node, before]

theorem sibling_ne (location : Nat) : sibling location ≠ location := by
  rw [sibling, left, right]
  split <;> omega

theorem column_succ (below : level + 1 ≤ depth) :
    column / 2 ^ (depth - (level + 1)) / 2 = column / 2 ^ (depth - level) := by
  have step : depth - level = depth - (level + 1) + 1 := by omega
  rw [step, Nat.pow_succ, Nat.div_div_eq_div_mul]

theorem column_lt (below : level ≤ depth)
    (inside : column < 2 ^ depth) : column / 2 ^ (depth - level) < 2 ^ level := by
  rw [Nat.div_lt_iff_lt_mul (Nat.two_pow_pos _), ← Nat.pow_add]
  rwa [Nat.add_sub_cancel' below]

end Embassies.Library.HeapTree
