import Embassies.Library.Checked
import Mathlib.Data.List.Perm.Basic

/-!
# Binary search trees of any shape

A search compares the element of a node with what is wanted and goes down on
one side.  What is wanted is given as a function from elements to the result of
that comparison, which need not be an order: the searches are defined, and
return an element of the tree, for any such function.  When the comparison
agrees with the order in which the tree lists its elements, a search finds the
last element that is not greater.

How a tree is balanced is not said here.  An insertion or removal takes a
`Balance`, which gives every list a tree with these elements in this order, so
what is proved holds for every way of balancing.
-/

namespace Embassies.Library

open List

universe u v

/-- A binary tree with elements at its nodes. -/
inductive SearchTree (α : Type u) where
  | empty
  | node (left : SearchTree α) (element : α) (right : SearchTree α)

namespace SearchTree

variable {α : Type u} {ε : Type v}

/-- The elements from left to right. -/
def toList : SearchTree α → List α
  | .empty => []
  | .node left element right => left.toList ++ element :: right.toList

/-- The last element on the way down that is not greater than what is wanted. -/
def findFirstLessThanOrEqualTo (order : α → Ordering) : SearchTree α → Option α
  | .empty => none
  | .node left element right =>
    match order element with
    | .eq => some element
    | .lt =>
      match right.findFirstLessThanOrEqualTo order with
      | none => some element
      | some found => some found
    | .gt => left.findFirstLessThanOrEqualTo order

/-- The last element on the way down that is not less than what is wanted. -/
def findFirstGreaterThanOrEqualTo (order : α → Ordering) :
    SearchTree α → Option α
  | .empty => none
  | .node left element right =>
    match order element with
    | .eq => some element
    | .gt =>
      match left.findFirstGreaterThanOrEqualTo order with
      | none => some element
      | some found => some found
    | .lt => right.findFirstGreaterThanOrEqualTo order

/-- The last element on the way down that is greater than what is wanted. -/
def findFirstGreaterThan (order : α → Ordering) : SearchTree α → Option α
  | .empty => none
  | .node left element right =>
    match order element with
    | .gt =>
      match left.findFirstGreaterThan order with
      | none => some element
      | some found => some found
    | .eq => right.findFirstGreaterThan order
    | .lt => right.findFirstGreaterThan order

/-- The element that is equal to what is wanted. -/
def lookup (order : α → Ordering) (tree : SearchTree α) : Option α :=
  (tree.findFirstLessThanOrEqualTo order).filter fun found => order found == .eq

/-- The element at the end of the way to the left. -/
def findMin : SearchTree α → Option α
  | .empty => none
  | .node .empty element _ => some element
  | .node left _ _ => left.findMin

/-- Put an element where the way down ends, unless an equal one is met. -/
def insertLeaf (order : α → Ordering) (new : α) :
    SearchTree α → Option (SearchTree α)
  | .empty => some (.node .empty new .empty)
  | .node left element right =>
    match order element with
    | .lt => (right.insertLeaf order new).map fun right => .node left element right
    | .gt => (left.insertLeaf order new).map fun left => .node left element right
    | .eq => none

/-- A way of giving lists the shape of a tree. -/
structure Balance (α : Type u) where
  build : List α → SearchTree α
  toList_build : ∀ elements, (build elements).toList = elements

/-- The way that never branches to the left. -/
def Balance.spine : Balance α where
  build := List.foldr (fun element right => .node .empty element right) .empty
  toList_build elements := by
    induction elements with
    | nil => rfl
    | cons element rest induction =>
      rw [List.foldr_cons, toList, toList, induction]
      rfl

/-- Insert an element, or fail when an equal one is met. -/
def insert (balance : Balance α) (order : α → Ordering) (new : α) (fault : ε)
    (tree : SearchTree α) : Except ε (SearchTree α) :=
  match tree.insertLeaf order new with
  | none => .error fault
  | some grown => .ok (balance.build grown.toList)

/-- Remove the element that is equal to what is wanted, or fail without one. -/
def remove [DecidableEq α] (balance : Balance α) (order : α → Ordering)
    (fault : ε) (tree : SearchTree α) : Except ε (SearchTree α) :=
  match tree.lookup order with
  | none => .error fault
  | some found => .ok (balance.build (tree.toList.erase found))

/-! ## Searches -/

variable {order : α → Ordering} {tree : SearchTree α} {found : α}

theorem mem_of_findFirstLessThanOrEqualTo
    (search : tree.findFirstLessThanOrEqualTo order = some found) :
    found ∈ tree.toList := by
  induction tree with
  | empty => cases search
  | node left element right leftInduction rightInduction =>
    rw [toList, mem_append, mem_cons]
    rw [findFirstLessThanOrEqualTo] at search
    split at search
    · exact .inr (.inl (Option.some.inj search).symm)
    · split at search
      · exact .inr (.inl (Option.some.inj search).symm)
      · rename_i other deeper
        exact .inr (.inr (rightInduction (deeper.trans search)))
    · exact .inl (leftInduction search)

theorem lookup_eq_some (search : tree.lookup order = some found) :
    found ∈ tree.toList ∧ order found = .eq := by
  obtain ⟨deeper, same⟩ := Option.filter_eq_some_iff.mp search
  exact ⟨mem_of_findFirstLessThanOrEqualTo deeper, beq_iff_eq.mp same⟩

/-- The comparison agrees with the order of a list: what precedes an element that is
not greater is less. -/
def Ascending (order : α → Ordering) (elements : List α) : Prop :=
  elements.Pairwise fun earlier later => order earlier = .lt ∨ order later = .gt

theorem findFirstLessThanOrEqualTo_spec (ascending : Ascending order tree.toList) :
    match tree.findFirstLessThanOrEqualTo order with
    | none => ∀ element ∈ tree.toList, order element = .gt
    | some found => ∃ front back, tree.toList = front ++ found :: back ∧
        order found ≠ .gt ∧ ∀ later ∈ back, order later = .gt := by
  induction tree with
  | empty => exact fun _ member => absurd member not_mem_nil
  | node left element right leftInduction rightInduction =>
    obtain ⟨leftAscending, rest, -⟩ := pairwise_append.mp ascending
    obtain ⟨below, rightAscending⟩ := pairwise_cons.mp rest
    have later : order element ≠ .lt → ∀ other ∈ right.toList, order other = .gt :=
      fun notLess other member => (below other member).resolve_left notLess
    rw [findFirstLessThanOrEqualTo, toList]
    cases compared : order element with
    | eq => exact ⟨_, _, rfl, by simp [compared], later (by simp [compared])⟩
    | lt =>
      have deeper := rightInduction rightAscending
      cases search : right.findFirstLessThanOrEqualTo order with
      | none =>
        rw [search] at deeper
        exact ⟨_, _, rfl, by simp [compared], deeper⟩
      | some found =>
        rw [search] at deeper
        obtain ⟨front, back, split, fits, beyond⟩ := deeper
        exact ⟨left.toList ++ element :: front, back, by simp [split], fits, beyond⟩
    | gt =>
      have greater := later (by simp [compared])
      have deeper := leftInduction leftAscending
      cases search : left.findFirstLessThanOrEqualTo order with
      | none =>
        rw [search] at deeper
        simpa [compared, or_imp, forall_and] using ⟨deeper, greater⟩
      | some found =>
        rw [search] at deeper
        obtain ⟨front, back, split, fits, beyond⟩ := deeper
        refine ⟨front, back ++ element :: right.toList, by simp [split], fits, ?_⟩
        simpa [compared, or_imp, forall_and] using ⟨beyond, greater⟩

/-- The tree seen from the other side. -/
def mirror : SearchTree α → SearchTree α
  | .empty => .empty
  | .node left element right => .node right.mirror element left.mirror

theorem toList_mirror (tree : SearchTree α) : tree.mirror.toList = tree.toList.reverse := by
  induction tree with
  | empty => rfl
  | node left element right leftInduction rightInduction =>
    simp [mirror, toList, leftInduction, rightInduction]

theorem findFirstGreaterThanOrEqualTo_eq_mirror (tree : SearchTree α) :
    tree.findFirstGreaterThanOrEqualTo order =
      tree.mirror.findFirstLessThanOrEqualTo fun element => (order element).swap := by
  induction tree with
  | empty => rfl
  | node left element right leftInduction rightInduction =>
    rw [findFirstGreaterThanOrEqualTo, mirror, findFirstLessThanOrEqualTo, leftInduction,
      rightInduction]
    cases order element <;> rfl

theorem mem_of_findFirstGreaterThanOrEqualTo
    (search : tree.findFirstGreaterThanOrEqualTo order = some found) : found ∈ tree.toList := by
  rw [findFirstGreaterThanOrEqualTo_eq_mirror] at search
  have member := mem_of_findFirstLessThanOrEqualTo search
  rwa [toList_mirror, mem_reverse] at member

theorem findFirstGreaterThanOrEqualTo_spec (ascending : Ascending order tree.toList) :
    match tree.findFirstGreaterThanOrEqualTo order with
    | none => ∀ element ∈ tree.toList, order element = .lt
    | some found => ∃ front back, tree.toList = front ++ found :: back ∧
        order found ≠ .lt ∧ ∀ earlier ∈ front, order earlier = .lt := by
  have descending : Ascending (fun element => (order element).swap) tree.mirror.toList := by
    rw [Ascending, toList_mirror, pairwise_reverse]
    exact ascending.imp fun either => by simpa [or_comm] using either
  have mirrored := findFirstLessThanOrEqualTo_spec descending
  rw [findFirstGreaterThanOrEqualTo_eq_mirror]
  split at mirrored
  · rename_i search
    simpa [search, toList_mirror] using mirrored
  · obtain ⟨front, back, split, fits, beyond⟩ := mirrored
    rw [toList_mirror, reverse_eq_iff] at split
    exact ⟨back.reverse, front.reverse, by simpa using split, by simpa using fits,
      by simpa using beyond⟩

section Sorted

variable {before : α → α → Prop} (ascending : Ascending order tree.toList)
  (sorted : tree.toList.Pairwise before)

include ascending sorted

theorem findFirstLessThanOrEqualTo_sorted :
    match tree.findFirstLessThanOrEqualTo order with
    | none => ∀ element ∈ tree.toList, order element = .gt
    | some found => found ∈ tree.toList ∧ order found ≠ .gt ∧ ∀ element ∈ tree.toList,
        element = found ∨ before element found ∨ order element = .gt := by
  have searched := findFirstLessThanOrEqualTo_spec ascending
  split at searched
  · simpa [*] using searched
  · rename_i found search
    obtain ⟨front, back, split, fits, beyond⟩ := searched
    rw [split, pairwise_append] at sorted
    simp only [split]
    refine ⟨mem_append_right _ mem_cons_self, fits, fun element member => ?_⟩
    rcases mem_append.mp member with inFront | rest
    · exact .inr (.inl (sorted.2.2 element inFront found mem_cons_self))
    · rcases mem_cons.mp rest with rfl | inBack
      · exact .inl rfl
      · exact .inr (.inr (beyond element inBack))

theorem findFirstGreaterThanOrEqualTo_sorted :
    match tree.findFirstGreaterThanOrEqualTo order with
    | none => ∀ element ∈ tree.toList, order element = .lt
    | some found => found ∈ tree.toList ∧ order found ≠ .lt ∧ ∀ element ∈ tree.toList,
        element = found ∨ before found element ∨ order element = .lt := by
  have searched := @findFirstLessThanOrEqualTo_sorted α (fun element => (order element).swap)
    tree.mirror (fun left right => before right left)
    (toList_mirror tree ▸ pairwise_reverse.mpr
      (ascending.imp fun either => by simpa [or_comm] using either))
    (toList_mirror tree ▸ pairwise_reverse.mpr sorted)
  rw [findFirstGreaterThanOrEqualTo_eq_mirror]
  split at searched
  · rename_i search
    simpa [search, toList_mirror] using searched
  · rename_i found search
    simpa [search, toList_mirror] using searched

end Sorted

/-- When the elements that are not greater come first, the search finds the next. -/
theorem findFirstGreaterThan_of_split {front back : List α} (split : tree.toList = front ++ back)
    (frontFirst : ∀ element ∈ front, order element ≠ .gt)
    (backLast : ∀ element ∈ back, order element = .gt) :
    tree.findFirstGreaterThan order = back.head? := by
  have strict : tree.findFirstGreaterThan order = tree.findFirstGreaterThanOrEqualTo
      fun element => if order element = .gt then .gt else .lt := by
    clear split
    induction tree with
    | empty => rfl
    | node left element right leftInduction rightInduction =>
      rw [findFirstGreaterThan, findFirstGreaterThanOrEqualTo, leftInduction, rightInduction]
      cases order element <;> rfl
  have filtered : tree.toList.filter (fun element => order element == .gt) = back := by
    rw [split, filter_append, filter_eq_nil_iff.mpr (by simpa using frontFirst),
      filter_eq_self.mpr (by simpa using backLast), nil_append]
  have searched := @findFirstGreaterThanOrEqualTo_spec _
    (fun element => if order element = .gt then .gt else .lt) tree (by
      rw [Ascending, split, pairwise_append]
      refine ⟨pairwise_of_forall_mem_list ?_, pairwise_of_forall_mem_list ?_, ?_⟩
      · exact fun earlier member _ _ => .inl (if_neg (frontFirst earlier member))
      · exact fun _ _ later member => .inr (if_pos (backLast later member))
      · exact fun earlier member _ _ => .inl (if_neg (frontFirst earlier member)))
  rw [strict, ← filtered]
  split at searched
  · rename_i search
    rw [search, filter_eq_nil_iff.mpr (by simpa using searched)]
    rfl
  · rename_i found search
    obtain ⟨before, after, place, fits, notGreater⟩ := searched
    rw [search, place, filter_append, filter_eq_nil_iff.mpr (by simpa using notGreater),
      nil_append, filter_cons_of_pos (by simpa using fits)]
    rfl

/-- The search for what comes behind an element of a sorted tree. -/
theorem findFirstGreaterThan_of_sorted {before : α → α → Prop} {compare : α → α → Ordering}
    {front back : List α} {cursor : α} (split : tree.toList = front ++ cursor :: back)
    (sorted : tree.toList.Pairwise before) (equal : compare cursor cursor = .eq)
    (agree : ∀ left ∈ tree.toList, ∀ right ∈ tree.toList, before left right →
      compare left right = .gt ∧ compare right left ≠ .gt) :
    tree.findFirstGreaterThan (compare cursor) = back.head? := by
  rw [split] at sorted agree
  obtain ⟨-, later, across⟩ := pairwise_append.mp sorted
  obtain ⟨below, -⟩ := pairwise_cons.mp later
  have cursorIn : cursor ∈ front ++ cursor :: back := mem_append_right _ mem_cons_self
  refine @findFirstGreaterThan_of_split _ _ _ (front ++ [cursor]) back
    (by rw [split, append_assoc]; rfl) ?_ ?_
  · intro element member
    rcases mem_append.mp member with inFront | single
    · exact (agree element (mem_append_left _ inFront) cursor cursorIn
        (across element inFront cursor mem_cons_self)).2
    · cases mem_singleton.mp single
      rw [equal]
      nofun
  · intro element member
    exact (agree cursor cursorIn element (mem_append_right _ (mem_cons_of_mem _ member))
      (below element member)).1

theorem lookup_of_ascending (ascending : Ascending order tree.toList) {wanted : α}
    (member : wanted ∈ tree.toList) (equal : order wanted = .eq) :
    tree.lookup order = some wanted := by
  have searched := findFirstLessThanOrEqualTo_spec ascending
  rw [lookup]
  split at searched
  · exact absurd (searched wanted member) (by simp [equal])
  · rename_i found search
    obtain ⟨front, back, split, fits, beyond⟩ := searched
    rw [Ascending, split, pairwise_append] at ascending
    rw [split, mem_append, mem_cons] at member
    rcases member with earlier | rfl | later
    · have either := ascending.2.2 wanted earlier found mem_cons_self
      simp [equal, fits] at either
    · rw [search, Option.filter_some, equal]
      rfl
    · exact absurd (beyond wanted later) (by simp [equal])

theorem findMin_eq_head? (tree : SearchTree α) : tree.findMin = tree.toList.head? := by
  induction tree with
  | empty => rfl
  | node left element right leftInduction _ =>
    cases left with
    | empty => rfl
    | node first root second =>
      have deeper : (node (node first root second) element right).findMin =
          (node first root second).findMin := rfl
      have nonempty : (node first root second).toList ≠ [] := by
        exact append_ne_nil_of_right_ne_nil _ (cons_ne_nil _ _)
      rw [deeper, leftInduction]
      exact (head?_append_of_ne_nil _ nonempty).symm

/-! ## Insertions and removals -/

variable {balance : Balance α} {new : α} {fault : ε} {grown : SearchTree α}

theorem insertLeaf_perm (inserted : tree.insertLeaf order new = some grown) :
    grown.toList.Perm (new :: tree.toList) := by
  induction tree generalizing grown with
  | empty =>
    cases inserted
    exact .refl _
  | node left element right leftInduction rightInduction =>
    rw [insertLeaf] at inserted
    split at inserted
    · obtain ⟨deeper, insertedDeeper, rfl⟩ := Option.map_eq_some_iff.mp inserted
      refine (((rightInduction insertedDeeper).cons element).append_left _).trans ?_
      refine ((List.Perm.swap new element _).append_left _).trans ?_
      exact perm_middle
    · obtain ⟨deeper, insertedDeeper, rfl⟩ := Option.map_eq_some_iff.mp inserted
      exact (leftInduction insertedDeeper).append_right _
    · cases inserted

/-- An element is put between the lesser and the greater ones, unless one is equal. -/
theorem insertLeaf_spec (ascending : Ascending order tree.toList) :
    match tree.insertLeaf order new with
    | none => ∃ element ∈ tree.toList, order element = .eq
    | some grown => ∃ front back, tree.toList = front ++ back ∧
        grown.toList = front ++ new :: back ∧
        (∀ element ∈ front, order element = .lt) ∧ ∀ element ∈ back, order element = .gt := by
  induction tree with
  | empty => exact ⟨[], [], rfl, rfl, by simp, by simp⟩
  | node left element right leftInduction rightInduction =>
    obtain ⟨leftAscending, rest, across⟩ := pairwise_append.mp ascending
    obtain ⟨below, rightAscending⟩ := pairwise_cons.mp rest
    rw [insertLeaf, toList]
    cases compared : order element with
    | eq => exact ⟨element, mem_append_right _ mem_cons_self, compared⟩
    | lt =>
      have deeper := rightInduction rightAscending
      cases inserted : right.insertLeaf order new with
      | none =>
        rw [inserted] at deeper
        obtain ⟨other, member, equal⟩ := deeper
        exact ⟨other, by simp [member], equal⟩
      | some grown =>
        rw [inserted] at deeper
        obtain ⟨front, back, split, result, less, greater⟩ := deeper
        refine ⟨left.toList ++ element :: front, back, by simp [split], by simp [toList, result],
          ?_, greater⟩
        have leftLess : ∀ other ∈ left.toList, order other = .lt := fun other member =>
          (across other member element mem_cons_self).resolve_right (by simp [compared])
        simpa [compared, or_imp, forall_and] using ⟨leftLess, less⟩
    | gt =>
      have deeper := leftInduction leftAscending
      cases inserted : left.insertLeaf order new with
      | none =>
        rw [inserted] at deeper
        obtain ⟨other, member, equal⟩ := deeper
        exact ⟨other, by simp [member], equal⟩
      | some grown =>
        rw [inserted] at deeper
        obtain ⟨front, back, split, result, less, greater⟩ := deeper
        refine ⟨front, back ++ element :: right.toList, by simp [split],
          by simp [toList, result], less, ?_⟩
        have rightGreater : ∀ other ∈ right.toList, order other = .gt := fun other member =>
          (below other member).resolve_left (by simp [compared])
        simpa [compared, or_imp, forall_and] using ⟨greater, rightGreater⟩

/-- An insertion keeps a tree sorted and fails only when an equal element is there. -/
theorem insert_spec {before : α → α → Prop} (ascending : Ascending order tree.toList)
    (sorted : tree.toList.Pairwise before)
    (less : ∀ element ∈ tree.toList, order element = .lt → before element new)
    (greater : ∀ element ∈ tree.toList, order element = .gt → before new element) :
    match tree.insert balance order new fault with
    | .error _ => ∃ element ∈ tree.toList, order element = .eq
    | .ok grown => grown.toList.Perm (new :: tree.toList) ∧ grown.toList.Pairwise before := by
  have inserted := @insertLeaf_spec _ order tree new ascending
  rw [insert]
  cases search : tree.insertLeaf order new with
  | none =>
    rw [search] at inserted
    exact inserted
  | some unbalanced =>
    rw [search] at inserted
    obtain ⟨front, back, split, result, allLess, allGreater⟩ := inserted
    rw [split] at sorted less greater
    obtain ⟨frontSorted, backSorted, across⟩ := pairwise_append.mp sorted
    dsimp only
    rw [balance.toList_build, result, split, pairwise_append, pairwise_cons]
    refine ⟨perm_middle, frontSorted, ⟨?_, backSorted⟩, ?_⟩
    · intro other member
      exact greater other (mem_append_right _ member) (allGreater other member)
    · intro earlier inFront later inBack
      rcases mem_cons.mp inBack with rfl | old
      · exact less earlier (mem_append_left _ inFront) (allLess earlier inFront)
      · exact across earlier inFront later old

theorem insert_of_ascending (ascending : Ascending order tree.toList)
    (distinct : ∀ element ∈ tree.toList, order element ≠ .eq) :
    ∃ grown, tree.insert balance order new fault = .ok grown := by
  have inserted := @insertLeaf_spec _ order tree new ascending
  rw [insert]
  split
  · rename_i search
    rw [search] at inserted
    obtain ⟨element, member, equal⟩ := inserted
    exact absurd equal (distinct element member)
  · exact ⟨_, rfl⟩

theorem perm_of_insert (inserted : tree.insert balance order new fault = .ok grown) :
    grown.toList.Perm (new :: tree.toList) := by
  rw [insert] at inserted
  split at inserted
  · cases inserted
  · rename_i unbalanced search
    cases inserted
    rw [balance.toList_build]
    exact insertLeaf_perm search

theorem remove_of_ascending [DecidableEq α] (ascending : Ascending order tree.toList) {wanted : α}
    (member : wanted ∈ tree.toList) (equal : order wanted = .eq) :
    ∃ shrunk, tree.remove balance order fault = .ok shrunk ∧
      shrunk.toList = tree.toList.erase wanted := by
  rw [remove, lookup_of_ascending ascending member equal]
  exact ⟨_, rfl, balance.toList_build _⟩

theorem remove_eq_ok [DecidableEq α] {shrunk : SearchTree α}
    (removed : tree.remove balance order fault = .ok shrunk) :
    ∃ found ∈ tree.toList, order found = .eq ∧ shrunk.toList = tree.toList.erase found := by
  rw [remove] at removed
  split at removed
  · cases removed
  · rename_i found search
    cases removed
    obtain ⟨member, same⟩ := lookup_eq_some search
    exact ⟨found, member, same, balance.toList_build _⟩

end SearchTree

end Embassies.Library
