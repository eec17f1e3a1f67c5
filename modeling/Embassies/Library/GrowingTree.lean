import Mathlib.Algebra.Group.Nat.Defs
import Mathlib.Data.Finset.Insert

/-!
# Trees that grow from their leaves

A complete binary tree has some number of leaves in use, from the left, and the values of
these arrive one by one.  A column of a height is complete when the leaves in use below it
have arrived; its value combines the values of its two children.  Columns without a leaf in
use are padded.

Heights are counted from the leaves, so the column of a leaf at a height is a quotient.
-/

namespace Embassies.Library.GrowingTree

variable {count height column leaf : Nat} {arrived : Finset Nat}

/-- A column has a leaf in use below it. -/
def InUse (count height column : Nat) : Prop := column * 2 ^ height < count

instance (count height column : Nat) : Decidable (InUse count height column) :=
  inferInstanceAs (Decidable (_ < _))

/-- The leaves in use below a column have arrived. -/
def Complete (count : Nat) (arrived : Finset Nat) (height column : Nat) : Prop :=
  ∀ leaf < count, leaf / 2 ^ height = column → leaf ∈ arrived

instance (count : Nat) (arrived : Finset Nat) (height column : Nat) :
    Decidable (Complete count arrived height column) :=
  inferInstanceAs (Decidable (∀ leaf < count, _))

theorem inUse_of_leaf (used : leaf < count) : InUse count height (leaf / 2 ^ height) :=
  Nat.lt_of_le_of_lt (Nat.div_mul_le_self _ _) used

theorem inUse_succ_iff : InUse count (height + 1) column ↔ InUse count height (2 * column) := by
  rw [InUse, InUse, Nat.pow_succ, Nat.mul_comm 2 column, Nat.mul_assoc, Nat.mul_comm 2]

theorem right_of_not_inUse
    (used : InUse count height (2 * (column / 2))) (unused : ¬InUse count height column) :
    column % 2 = 1 ∧ InUse count height (column - 1) := by
  have odd : column % 2 = 1 := by
    by_contra even
    have same : 2 * (column / 2) = column := by omega
    rw [same] at used
    exact unused used
  have before : 2 * (column / 2) = column - 1 := by omega
  rw [before] at used
  exact ⟨odd, used⟩

theorem inUse_iff_le (positive : 0 < count) :
    InUse count height column ↔ column ≤ (count - 1) / 2 ^ height := by
  rw [InUse, Nat.le_div_iff_mul_le (Nat.two_pow_pos _)]
  omega

theorem complete_of_not_inUse (unused : ¬InUse count height column) :
    Complete count arrived height column := by
  rintro leaf used rfl
  exact absurd (inUse_of_leaf used) unused

theorem complete_of_all (all : ∀ leaf < count, leaf ∈ arrived) :
    Complete count arrived height column :=
  fun leaf used _ => all leaf used

theorem not_complete (used : leaf < count) (absent : leaf ∉ arrived) :
    ¬Complete count arrived height (leaf / 2 ^ height) :=
  fun complete => absent (complete leaf used rfl)

theorem complete_succ_iff : Complete count arrived (height + 1) column ↔
      Complete count arrived height (2 * column) ∧
        Complete count arrived height (2 * column + 1) := by
  have above : ∀ leaf : Nat, leaf / 2 ^ (height + 1) = column ↔
      leaf / 2 ^ height = 2 * column ∨ leaf / 2 ^ height = 2 * column + 1 := by
    intro leaf
    rw [Nat.pow_succ, ← Nat.div_div_eq_div_mul]
    omega
  constructor
  · intro complete
    exact ⟨fun leaf used here => complete leaf used ((above leaf).mpr (.inl here)),
      fun leaf used here => complete leaf used ((above leaf).mpr (.inr here))⟩
  · rintro ⟨left, right⟩ leaf used here
    rcases (above leaf).mp here with isLeft | isRight
    · exact left leaf used isLeft
    · exact right leaf used isRight

theorem Complete.of_above {low : Nat} (complete : Complete count arrived height (leaf / 2 ^ height))
    (below : low ≤ height) : Complete count arrived low (leaf / 2 ^ low) := by
  intro other used here
  refine complete other used ?_
  rw [← Nat.add_sub_of_le below, Nat.pow_add, ← Nat.div_div_eq_div_mul,
    ← Nat.div_div_eq_div_mul, here]

/-- A leaf that arrives matters only to the columns above it. -/
theorem complete_insert_iff (apart : leaf / 2 ^ height ≠ column) :
    Complete count (insert leaf arrived) height column ↔ Complete count arrived height column := by
  constructor
  · intro complete other used here
    rcases Finset.mem_insert.mp (complete other used here) with rfl | member
    · exact absurd here apart
    · exact member
  · intro complete other used here
    exact Finset.mem_insert_of_mem (complete other used here)

theorem complete_leaf : Complete count (insert leaf arrived) 0 leaf := by
  intro other _ here
  rw [Nat.pow_zero, Nat.div_one] at here
  rw [here]
  exact Finset.mem_insert_self _ _

/-! ## Values -/

section Values

variable {η : Type*} (combine : η → η → η) (pad : η) (value : Nat → η) (count : Nat)

/-- The value of a column of a height. -/
def columnValue : Nat → Nat → η
  | 0, column => if InUse count 0 column then value column else pad
  | height + 1, column =>
    if InUse count (height + 1) column then
      combine (columnValue height (2 * column)) (columnValue height (2 * column + 1))
    else pad

variable {combine pad value count}

theorem columnValue_of_not_inUse (unused : ¬InUse count height column) :
    columnValue combine pad value count height column = pad := by
  cases height with
  | zero => rw [columnValue, if_neg unused]
  | succ height => rw [columnValue, if_neg unused]

theorem columnValue_leaf (used : leaf < count) :
    columnValue combine pad value count 0 leaf = value leaf := by
  have inUse : InUse count 0 leaf := by
    rw [InUse, Nat.pow_zero, Nat.mul_one]
    exact used
  rw [columnValue, if_pos inUse]

theorem columnValue_succ (used : InUse count (height + 1) column) :
    columnValue combine pad value count (height + 1) column =
      combine (columnValue combine pad value count height (2 * column))
        (columnValue combine pad value count height (2 * column + 1)) := by
  rw [columnValue, if_pos used]

end Values

end Embassies.Library.GrowingTree
