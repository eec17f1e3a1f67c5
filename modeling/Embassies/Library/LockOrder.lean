import Mathlib.Data.Fintype.Card
import Mathlib.Data.Set.Finite.Basic
import Mathlib.Logic.Relation
import Mathlib.Order.WellFounded

/-!
# Locks that are taken one after the other

Each task takes the locks of a list in turn and keeps them.  A group of tasks is
deadlocked when each of them waits for a lock that one of the group has.  If every
list is increasing in one order, no group is ever deadlocked.
-/

namespace Embassies.Library.LockOrder

open List Function

universe u v

variable {Task : Type u} {Lock : Type v} {plan : Task → List Lock} {taken : Task → Nat}

/-- The locks that a task has. -/
def held (plan : Task → List Lock) (taken : Task → Nat) (task : Task) : List Lock :=
  (plan task).take (taken task)

/-- The lock that a task takes next. -/
def wanted (plan : Task → List Lock) (taken : Task → Nat) (task : Task) : Option Lock :=
  (plan task)[taken task]?

/-- A task takes a lock that nobody has. -/
def Takes [DecidableEq Task] (plan : Task → List Lock) (before after : Task → Nat) :
    Prop :=
  ∃ task lock, wanted plan before task = some lock ∧
    (∀ other, lock ∉ held plan before other) ∧
    after = Function.update before task (before task + 1)

/-- Every task of the group waits for a lock that a task of the group has. -/
def Deadlocked (plan : Task → List Lock) (taken : Task → Nat) (group : Finset Task) :
    Prop :=
  group.Nonempty ∧ ∀ task ∈ group, ∃ lock, wanted plan taken task = some lock ∧
    ∃ other ∈ group, lock ∈ held plan taken other

/-- In an increasing list, what is wanted lies above what is held. -/
theorem held_before_wanted {before : Lock → Lock → Prop} {task : Task} {lock next : Lock}
    (ordered : (plan task).Pairwise before)
    (has : lock ∈ held plan taken task) (wants : wanted plan taken task = some next) :
    before lock next := by
  obtain ⟨place, inside, rfl⟩ := mem_iff_getElem.mp has
  rw [held, length_take] at inside
  obtain ⟨bound, rfl⟩ := List.getElem?_eq_some_iff.mp wants
  simp only [held, getElem_take]
  exact pairwise_iff_getElem.mp ordered _ _ _ bound
    (Nat.lt_of_lt_of_le inside (Nat.min_le_left _ _))

/-- Tasks whose lists are increasing in one order are never deadlocked. -/
theorem not_deadlocked {before : Lock → Lock → Prop} [IsStrictOrder Lock before]
    (ordered : ∀ task, (plan task).Pairwise before) (taken : Task → Nat)
    (group : Finset Task) : ¬Deadlocked plan taken group := by
  rintro ⟨⟨first, firstIn⟩, waits⟩
  let asked : Set Lock := {lock | ∃ task ∈ group, wanted plan taken task = some lock}
  have finite : Finite asked := ((group.finite_toSet.image (wanted plan taken)).preimage
      (Option.some_injective Lock).injOn).to_subtype
  have founded : WellFounded fun left right : asked => before right left :=
    Finite.wellFounded_of_trans_of_irrefl (Order.Preimage Subtype.val (swap before))
  obtain ⟨lock, wants, -⟩ := waits first firstIn
  -- Whoever has the greatest of the locks that are asked for asks for a greater one.
  obtain ⟨⟨greatest, task, taskIn, asks⟩, -, maximal⟩ :=
    founded.has_min Set.univ ⟨⟨lock, first, firstIn, wants⟩, trivial⟩
  obtain ⟨same, wantsSame, other, otherIn, has⟩ := waits task taskIn
  obtain rfl : same = greatest := Option.some.inj (wantsSame.symm.trans asks)
  obtain ⟨next, wantsNext, -⟩ := waits other otherIn
  exact maximal ⟨next, other, otherIn, wantsNext⟩ trivial
    (held_before_wanted (ordered other) has wantsNext)

end Embassies.Library.LockOrder
