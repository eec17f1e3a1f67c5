import Mathlib.Order.Basic

/-!
# Binary search with a comparison

The search looks at the middle of a range of places and is told whether what is
wanted is there, below or above.  It finds the place in a range that is split by
the comparison into places above which, at which and below which the wanted thing
lies.  Conversely, if each of a range of things is found at its own place, the
comparisons of neighbours along the search order all things of the range.
-/

namespace Embassies.Library.BinarySearch

/-- Search between `lo` and `hi`.  The comparison of a place is negative when what
is wanted lies below it, and zero when it is there. -/
def search (compare : Nat → Int) (lo hi : Nat) : Option Nat :=
  if lo < hi then
    let mid := (lo + hi) / 2
    if compare mid = 0 then some mid
    else if compare mid < 0 then search compare lo mid
    else search compare (mid + 1) hi
  else
    none
termination_by hi - lo

variable {compare : Nat → Int}

theorem search_empty {lo hi : Nat} (empty : hi ≤ lo) : search compare lo hi = none := by
  rw [search, if_neg (Nat.not_lt_of_le empty)]

theorem search_here {lo hi : Nat} (inside : lo < hi) (here : compare ((lo + hi) / 2) = 0) :
    search compare lo hi = some ((lo + hi) / 2) := by
  rw [search, if_pos inside]
  exact if_pos here

theorem search_below {lo hi : Nat} (inside : lo < hi) (below : compare ((lo + hi) / 2) < 0) :
    search compare lo hi = search compare lo ((lo + hi) / 2) := by
  rw [search, if_pos inside]
  exact (if_neg (Int.ne_of_lt below)).trans (if_pos below)

theorem search_above {lo hi : Nat} (inside : lo < hi) (above : 0 < compare ((lo + hi) / 2)) :
    search compare lo hi = search compare ((lo + hi) / 2 + 1) hi := by
  rw [search, if_pos inside]
  exact (if_neg (Int.ne_of_gt above)).trans (if_neg (Int.not_lt.mpr (Int.le_of_lt above)))

theorem search_some {lo hi place : Nat} (found : search compare lo hi = some place) :
    lo ≤ place ∧ place < hi ∧ compare place = 0 := by
  by_cases inside : lo < hi
  · rcases Int.lt_trichotomy (compare ((lo + hi) / 2)) 0 with below | here | above
    · rw [search_below inside below] at found
      obtain ⟨low, high, same⟩ := search_some found
      exact ⟨low, by omega, same⟩
    · rw [search_here inside here, Option.some.injEq] at found
      subst found
      exact ⟨by omega, by omega, here⟩
    · rw [search_above inside above] at found
      obtain ⟨low, high, same⟩ := search_some found
      exact ⟨by omega, high, same⟩
  · rw [search_empty (Nat.le_of_not_lt inside)] at found
    cases found
termination_by hi - lo

theorem search_eq_some
    {lo hi place : Nat} (low : lo ≤ place) (high : place < hi) (here : compare place = 0)
    (above : ∀ other, lo ≤ other → other < place → 0 < compare other)
    (below : ∀ other, place < other → other < hi → compare other < 0) :
    search compare lo hi = some place := by
  have inside : lo < hi := Nat.lt_of_le_of_lt low high
  rcases Nat.lt_trichotomy place ((lo + hi) / 2) with left | middle | right
  · rw [search_below inside (below _ left (by omega))]
    apply search_eq_some low left here above
    intro other later bound
    exact below other later (by omega)
  · rw [search_here inside (middle ▸ here), middle]
  · rw [search_above inside (above _ (by omega) right)]
    apply search_eq_some right high here _ below
    intro other bound earlier
    exact above other (by omega) earlier
termination_by hi - lo

/-- If everything in the range is found at its own place, then everything compares
below what comes later. -/
theorem ordered_of_search {compare : Nat → Nat → Int} {lo hi : Nat}
    (antisymmetric : ∀ left right, 0 < compare left right → compare right left < 0)
    (transitive : ∀ left middle right, compare left middle < 0 →
      compare middle right < 0 → compare left right < 0)
    (found : ∀ place, lo ≤ place → place < hi → search (compare place) lo hi = some place)
    {left right : Nat} (low : lo ≤ left) (inOrder : left < right) (high : right < hi) :
    compare left right < 0 := by
  have inside : lo < hi := by omega
  have bounds : lo ≤ (lo + hi) / 2 ∧ (lo + hi) / 2 < hi := by omega
  generalize middle : (lo + hi) / 2 = mid at bounds
  -- Whatever lies to the left of the middle goes to the left there, and the same
  -- on the right, or it would be found elsewhere.
  have belowMiddle : ∀ place, lo ≤ place → place < mid → compare place mid < 0 ∧
      search (compare place) lo mid = some place := by
    intro place placeLow placeHigh
    have result := found place placeLow (by omega)
    rcases Int.lt_trichotomy (compare place mid) 0 with below | here | above
    · rw [search_below inside (middle ▸ below), middle] at result
      exact ⟨below, result⟩
    · rw [search_here inside (middle ▸ here), Option.some.injEq] at result
      omega
    · rw [search_above inside (middle ▸ above)] at result
      have range := search_some result
      omega
  have aboveMiddle : ∀ place, mid < place → place < hi → compare mid place < 0 ∧
      search (compare place) (mid + 1) hi = some place := by
    intro place placeLow placeHigh
    have result := found place (by omega) placeHigh
    rcases Int.lt_trichotomy (compare place mid) 0 with below | here | above
    · rw [search_below inside (middle ▸ below)] at result
      have range := search_some result
      omega
    · rw [search_here inside (middle ▸ here), Option.some.injEq] at result
      omega
    · rw [search_above inside (middle ▸ above), middle] at result
      exact ⟨antisymmetric place mid above, result⟩
  rcases Nat.lt_trichotomy right mid with rightBelow | rfl | rightAbove
  · exact ordered_of_search antisymmetric transitive
      (fun place placeLow placeHigh => (belowMiddle place placeLow placeHigh).2) low
      inOrder rightBelow
  · exact (belowMiddle left low inOrder).1
  · rcases Nat.lt_trichotomy left mid with leftBelow | rfl | leftAbove
    · exact transitive left mid right (belowMiddle left low leftBelow).1
        (aboveMiddle right rightAbove high).1
    · exact (aboveMiddle right rightAbove high).1
    · exact ordered_of_search antisymmetric transitive
        (fun place placeLow placeHigh => (aboveMiddle place placeLow placeHigh).2)
        leftAbove inOrder high
termination_by hi - lo

end Embassies.Library.BinarySearch
