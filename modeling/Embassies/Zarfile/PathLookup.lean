import Embassies.Library.BinarySearch
import Embassies.Zarfile.PathTable
import Mathlib.Data.List.Nodup

/-!
# Lookups in the index

The table of headers is in the order of `strcmp`, and it is searched with
`lite_strcmp`.  Every lookup is right exactly when the two agree on the catalogued
names.
-/

namespace Embassies.Zarfile

open Library Library.Checked List SearchTree BinarySearch

variable {balance : SearchTree.Balance CatalogEntry} {urlTree next : SearchTree CatalogEntry}
  {ce : CatalogEntry}

/-! ## The catalog -/

/-- One url comes before another. -/
def Before (left right : CatalogEntry) : Prop :=
  numbers unsignedByte left.url < numbers unsignedByte right.url

variable {wanted element : CatalogEntry}

theorem orderByUrl_lt_iff : orderByUrl wanted element = .lt ↔ Before element wanted :=
  strcmp_lt_iff element.noZero wanted.noZero

theorem orderByUrl_gt_iff : orderByUrl wanted element = .gt ↔ Before wanted element :=
  strcmp_gt_iff element.noZero wanted.noZero

theorem orderByUrl_eq_iff : orderByUrl wanted element = .eq ↔ element.url = wanted.url :=
  strcmp_eq_iff

theorem Before.trans {first second third : CatalogEntry}
    (left : Before first second) (right : Before second third) : Before first third :=
  lt_trans left right

/-- The entries of a tree are in the order of their urls. -/
def Ordered (urlTree : SearchTree CatalogEntry) : Prop :=
  urlTree.toList.Pairwise Before

theorem Ordered.ascending (ordered : Ordered urlTree) :
    SearchTree.Ascending (orderByUrl ce) urlTree.toList := by
  refine ordered.imp fun {earlier later} before => ?_
  cases compared : orderByUrl ce later with
  | lt => exact .inl (orderByUrl_lt_iff.mpr (before.trans (orderByUrl_lt_iff.mp compared)))
  | eq =>
    refine .inl (orderByUrl_lt_iff.mpr ?_)
    rw [Before, ← orderByUrl_eq_iff.mp compared]
    exact before
  | gt => exact .inr rfl

theorem addEntry_new (ordered : Ordered urlTree)
    (absent : ∀ element ∈ urlTree.toList, element.url ≠ ce.url) :
    ∃ next, addEntry balance urlTree ce = .ok next ∧ Ordered next ∧
      next.toList.Perm (ce :: urlTree.toList) := by
  have unequal : ∀ element ∈ urlTree.toList, orderByUrl ce element ≠ .eq :=
    fun element member same => absent element member (orderByUrl_eq_iff.mp same)
  have notFound : urlTree.lookup (orderByUrl ce) = none := by
    cases found : urlTree.lookup (orderByUrl ce) with
    | none => rfl
    | some element =>
      obtain ⟨member, same⟩ := lookup_eq_some found
      exact absurd same (unequal element member)
  have spec := @insert_spec _ _ _ urlTree balance ce Fault.assertion Before
    ordered.ascending ordered (fun _ _ => orderByUrl_lt_iff.mp) (fun _ _ => orderByUrl_gt_iff.mp)
  rw [addEntry, notFound]
  split at spec
  · obtain ⟨element, member, same⟩ := spec
    exact absurd same (unequal element member)
  · rename_i next inserted
    exact ⟨next, inserted, spec.2, spec.1⟩

theorem exists_catalog (balance : SearchTree.Balance CatalogEntry) {added : List CatalogEntry}
    (distinct : (added.map CatalogEntry.url).Nodup) :
    ∃ urlTree, added.foldlM (addEntry balance) .empty = .ok urlTree ∧
      Ordered urlTree ∧ urlTree.toList.Perm added := by
  induction added using List.reverseRecOn with
  | nil => exact ⟨.empty, rfl, .nil, .refl _⟩
  | append_singleton added ce induction =>
    rw [map_append, nodup_append] at distinct
    obtain ⟨earlierDistinct, -, apart⟩ := distinct
    obtain ⟨urlTree, built, ordered, same⟩ := induction earlierDistinct
    have absent : ∀ element ∈ urlTree.toList, element.url ≠ ce.url := by
      intro element member
      exact apart _ (mem_map_of_mem (same.mem_iff.mp member)) _ (mem_singleton_self _)
    obtain ⟨next, addedLast, nextOrdered, grown⟩ := addEntry_new ordered absent
    refine ⟨next, ?_, nextOrdered, ?_⟩
    · rw [foldlM_append, built, ok_bind, foldlM_cons, addedLast]
      rfl
    · exact (grown.trans (same.cons ce)).trans (perm_append_singleton ce added).symm

/-! ## Writing the tables -/

theorem remove_least {rest : List CatalogEntry} (ordered : Ordered urlTree)
    (elements : urlTree.toList = ce :: rest) :
    ∃ shrunk, urlTree.remove balance (orderByUrl ce) Fault.assertion = .ok shrunk ∧
      shrunk.toList = rest := by
  have member : ce ∈ urlTree.toList := by
    rw [elements]
    exact mem_cons_self
  obtain ⟨shrunk, removed, left⟩ := @remove_of_ascending _ _ _ urlTree balance
    Fault.assertion _ ordered.ascending _ member (orderByUrl_eq_iff.mpr rfl)
  refine ⟨shrunk, removed, ?_⟩
  rw [left, elements, erase_cons_head]

theorem enumerateEntries_eq (ordered : Ordered urlTree) (index : PathIndex) :
    enumerateEntries balance urlTree.toList.length urlTree index =
      .ok (urlTree.toList.foldl PathIndex.addEntry index) := by
  generalize elements : urlTree.toList = entries
  induction entries generalizing urlTree index with
  | nil => rfl
  | cons ce rest induction =>
    obtain ⟨shrunk, removed, left⟩ := remove_least ordered elements
    have shrunkOrdered : Ordered shrunk := by
      rw [Ordered, elements] at ordered
      rw [Ordered, left]
      exact ordered.of_cons
    rw [length_cons, enumerateEntries, findMin_eq_head?, elements, head?_cons]
    dsimp only
    rw [removed, ok_bind]
    exact induction shrunkOrdered (index.addEntry ce) left

/-- The size of the table of strings. -/
def stringTableSize (entries : List CatalogEntry) : Nat :=
  (entries.map fun ce => ce.url.length + 1).sum

/-- Both tables are objects of an address space of thirty-two bits. -/
def Fits (entries : List CatalogEntry) : Prop :=
  phdrSize * entries.length < 2 ^ 32 ∧ stringTableSize entries < 2 ^ 32

/-- A header refers to a string of the table. -/
def Refers (strtable : List UInt8) (phdr : ZFPhdr) (ce : CatalogEntry) : Prop :=
  ∃ front back, strtable = front ++ (ce.url ++ 0 :: back) ∧
    phdr.zPathStrOff.toNat = front.length

theorem Refers.append {strtable : List UInt8} {phdr : ZFPhdr}
    (refers : Refers strtable phdr ce) (more : List UInt8) :
    Refers (strtable ++ more) phdr ce := by
  obtain ⟨front, back, rfl, offset⟩ := refers
  refine ⟨front, back ++ more, ?_, offset⟩
  simp only [append_assoc, cons_append]

theorem Refers.pathString {index : PathIndex} {phdr : ZFPhdr}
    (refers : Refers index.strtable phdr ce) : index.pathString phdr = ce.url := by
  obtain ⟨front, back, same, offset⟩ := refers
  rw [PathIndex.pathString, same, offset, drop_left, takeWhile_append_of_pos,
    takeWhile_cons_of_neg, append_nil]
  · simp
  · intro byte member
    exact decide_eq_true fun zero => ce.noZero (zero ▸ member)

/-- The tables of a list of entries. -/
def written (entries : List CatalogEntry) : PathIndex :=
  entries.foldl PathIndex.addEntry ⟨[], []⟩

variable {entries : List CatalogEntry}

theorem written_refers (fits : stringTableSize entries < 2 ^ 32) :
    List.Forall₂ (Refers (written entries).strtable) (written entries).ptable entries ∧
      (written entries).strtable.length = stringTableSize entries := by
  induction entries using List.reverseRecOn with
  | nil => exact ⟨.nil, rfl⟩
  | append_singleton entries ce induction =>
    have size : stringTableSize (entries ++ [ce]) =
        stringTableSize entries + (ce.url.length + 1) := by
      simp [stringTableSize]
    obtain ⟨refers, length⟩ := induction (by omega)
    have last : written (entries ++ [ce]) = (written entries).addEntry ce := foldl_concat ..
    rw [last]
    constructor
    · apply rel_append
      · exact refers.imp fun _ _ earlier => earlier.append _
      · refine .cons ⟨_, [], rfl, ?_⟩ .nil
        rw [UInt32.toNat_ofNat', Nat.mod_eq_of_lt (by omega)]
    · rw [PathIndex.addEntry, length_append, length_append, length_singleton, length, size]

/-- The name at a place of the catalog, and nothing behind the last one. -/
def nameAt (entries : List CatalogEntry) (place : Nat) : List UInt8 :=
  (entries.map CatalogEntry.url).getD place []

theorem nameAt_eq {place : Nat} (bound : place < entries.length) :
    nameAt entries place = (entries.get ⟨place, bound⟩).url := by
  rw [nameAt, getD_eq_getElem?_getD, getElem?_map, getElem?_eq_getElem bound]
  rfl

theorem nameAt_noZero (entries : List CatalogEntry) (place : Nat) : 0 ∉ nameAt entries place := by
  by_cases bound : place < entries.length
  · rw [nameAt_eq bound]
    exact (entries.get ⟨place, bound⟩).noZero
  · rw [nameAt, getD_eq_getElem?_getD, getElem?_eq_none (by
      rw [length_map]
      exact Nat.le_of_not_lt bound)]
    exact not_mem_nil

theorem mem_names_iff {key : List UInt8} : (∃ ce ∈ entries, ce.url = key) ↔
      ∃ place, place < entries.length ∧ nameAt entries place = key := by
  constructor
  · rintro ⟨ce, member, rfl⟩
    obtain ⟨⟨place, bound⟩, rfl⟩ := mem_iff_get.mp member
    exact ⟨place, bound, nameAt_eq bound⟩
  · rintro ⟨place, bound, rfl⟩
    exact ⟨_, get_mem entries ⟨place, bound⟩, (nameAt_eq bound).symm⟩

theorem written_ptable (fits : stringTableSize entries < 2 ^ 32) {place : Nat}
    (bound : place < entries.length) :
    ∃ phdr, (written entries).ptable[place]? = some phdr ∧
      (written entries).pathString phdr = nameAt entries place := by
  obtain ⟨refers, -⟩ := written_refers fits
  have inside : place < (written entries).ptable.length := by rwa [refers.length_eq]
  refine ⟨_, getElem?_eq_getElem inside, ?_⟩
  rw [nameAt_eq bound]
  exact (refers.get inside bound).pathString

/-! ## Searching the tables -/

theorem binsearch_eq {compar : Nat → Except Fault Int} {compare : Nat → Int} {nmemb : Nat}
    (agree : ∀ place, place < nmemb → compar place = .ok (compare place))
    (small : nmemb ≤ 2 ^ 30) {lo hi : Nat} (bound : hi ≤ nmemb) :
    PathIndex.binsearch compar lo hi = .ok (search compare lo hi) := by
  rw [PathIndex.binsearch, search]
  by_cases inside : lo < hi
  · have looked := agree ((lo + hi) / 2) (by omega)
    have sum : lo + hi < 2 ^ 31 := by omega
    rw [if_pos inside, if_pos inside, ensure_true sum, ok_bind]
    dsimp only
    rw [looked, ok_bind]
    split
    · rfl
    · split
      · exact binsearch_eq agree small (by omega)
      · exact binsearch_eq agree small bound
  · rw [if_neg inside, if_neg inside]
    rfl
termination_by hi - lo

/-- A lookup in the tables of a catalog is a binary search among its names. -/
theorem lookup_eq (fits : Fits entries) (key : List UInt8) : (written entries).lookup key =
      .ok (search (fun place => liteStrcmp key (nameAt entries place)) 0 entries.length) := by
  have length := (written_refers fits.2).1.length_eq
  have size : phdrSize = 28 := rfl
  have count := fits.1
  rw [size] at count
  have agree : ∀ place, place < entries.length → (written entries).phdrKeyCmp key place =
        .ok (liteStrcmp key (nameAt entries place)) := by
    intro place bound
    obtain ⟨phdr, there, string⟩ := written_ptable fits.2 bound
    rw [PathIndex.phdrKeyCmp, there, ← string]
  rw [PathIndex.lookup]
  split
  · rename_i empty
    rw [length] at empty
    rw [empty, search_empty (Nat.le_refl 0)]
  · rw [length]
    exact binsearch_eq agree (by omega) (Nat.le_refl _)

/-! ## Exactness -/

/-- Every key is found if it is catalogued, at a header with its string, and is
not found otherwise. -/
def FindsExactly (index : PathIndex) (catalogued : List UInt8 → Prop) : Prop :=
  ∀ key, 0 ∉ key → ∃ result, index.lookup key = .ok result ∧
    (catalogued key → ∃ place phdr, result = some place ∧
      index.ptable[place]? = some phdr ∧ index.pathString phdr = key) ∧
    (¬catalogued key → result = none)

/-- The two comparisons agree on the urls of the catalog. -/
def Agree (entries : List CatalogEntry) : Prop :=
  ∀ left ∈ entries, ∀ right ∈ entries,
    strcmp left.url right.url = .lt → liteStrcmp left.url right.url < 0

section Exactness

variable {entries : List CatalogEntry}

theorem nameAt_before
    (ordered : entries.Pairwise Before) {left right : Nat} (inOrder : left < right)
    (bound : right < entries.length) :
    numbers unsignedByte (nameAt entries left) < numbers unsignedByte (nameAt entries right) := by
  rw [nameAt_eq bound, nameAt_eq (inOrder.trans bound)]
  exact pairwise_iff_getElem.mp ordered left right (inOrder.trans bound) bound inOrder

theorem nameAt_inj (ordered : entries.Pairwise Before) {left right : Nat}
    (leftBound : left < entries.length) (rightBound : right < entries.length)
    (same : nameAt entries left = nameAt entries right) : left = right := by
  rcases Nat.lt_trichotomy left right with less | equal | greater
  · have before := nameAt_before ordered less rightBound
    rw [same] at before
    exact absurd before (lt_irrefl _)
  · exact equal
  · have before := nameAt_before ordered greater leftBound
    rw [same] at before
    exact absurd before (lt_irrefl _)

/-- The comparisons agree when each name is below all later ones in both orders. -/
theorem agree_iff (ordered : entries.Pairwise Before) :
    Agree entries ↔ ∀ left right, left < right → right < entries.length →
      liteStrcmp (nameAt entries left) (nameAt entries right) < 0 := by
  constructor
  · intro agree left right inOrder bound
    have leftBound : left < entries.length := inOrder.trans bound
    have before := nameAt_before ordered inOrder bound
    rw [nameAt_eq bound, nameAt_eq leftBound] at before ⊢
    apply agree _ (get_mem ..) _ (get_mem ..)
    exact (strcmp_lt_iff (CatalogEntry.noZero _) (CatalogEntry.noZero _)).mpr before
  · intro below left leftIn right rightIn less
    obtain ⟨⟨leftPlace, leftBound⟩, rfl⟩ := mem_iff_get.mp leftIn
    obtain ⟨⟨rightPlace, rightBound⟩, rfl⟩ := mem_iff_get.mp rightIn
    rw [strcmp_lt_iff (CatalogEntry.noZero _) (CatalogEntry.noZero _),
      ← nameAt_eq leftBound, ← nameAt_eq rightBound] at less
    rw [← nameAt_eq leftBound, ← nameAt_eq rightBound]
    apply below _ _ _ rightBound
    rcases Nat.lt_trichotomy leftPlace rightPlace with inOrder | rfl | reversed
    · exact inOrder
    · exact absurd less (lt_irrefl _)
    · exact absurd less (lt_asymm (nameAt_before ordered reversed leftBound))

theorem agree_of_findsExactly (fits : Fits entries) (ordered : entries.Pairwise Before)
    (finds : FindsExactly (written entries) fun key => ∃ ce ∈ entries, ce.url = key) :
    Agree entries := by
  rw [agree_iff ordered]
  intro left right inOrder bound
  apply @ordered_of_search
    (fun left right => liteStrcmp (nameAt entries left) (nameAt entries right)) 0
    entries.length _ _ _ left right (Nat.zero_le left) inOrder bound
  · intro first second positive
    rw [liteStrcmp_swap]
    omega
  · intro first second third
    simp only [liteStrcmp_neg_iff (nameAt_noZero _ _) (nameAt_noZero _ _)]
    exact lt_trans
  · intro place _ inside
    obtain ⟨result, lookedUp, found, -⟩ := finds (nameAt entries place) (nameAt_noZero _ _)
    obtain ⟨spot, phdr, rfl, there, string⟩ := found (mem_names_iff.mpr ⟨place, inside, rfl⟩)
    rw [lookup_eq fits, Except.ok.injEq] at lookedUp
    obtain ⟨-, otherInside, -⟩ := search_some lookedUp
    obtain ⟨other, otherThere, otherString⟩ := written_ptable fits.2 otherInside
    rw [there, Option.some.injEq] at otherThere
    rw [← otherThere, string] at otherString
    rw [nameAt_inj ordered inside otherInside otherString] at lookedUp ⊢
    exact lookedUp

theorem findsExactly_of_agree
    (fits : Fits entries) (ordered : entries.Pairwise Before) (agree : Agree entries) :
    FindsExactly (written entries) fun key => ∃ ce ∈ entries, ce.url = key := by
  rw [agree_iff ordered] at agree
  intro key noZero
  refine ⟨_, lookup_eq fits key, ?_, ?_⟩
  · intro catalogued
    obtain ⟨place, bound, rfl⟩ := mem_names_iff.mp catalogued
    obtain ⟨phdr, there, string⟩ := written_ptable fits.2 bound
    refine ⟨place, phdr, ?_, there, string⟩
    apply search_eq_some (Nat.zero_le place) bound
    · exact (liteStrcmp_eq_zero_iff noZero noZero).mpr rfl
    · intro other _ earlier
      have below := agree other place earlier bound
      rw [liteStrcmp_swap] at below
      omega
    · intro other later inside
      exact agree place other later inside
  · intro absent
    cases found : search (fun place => liteStrcmp key (nameAt entries place)) 0 entries.length with
    | none => rfl
    | some place =>
      obtain ⟨-, bound, same⟩ := search_some found
      rw [liteStrcmp_eq_zero_iff noZero (nameAt_noZero _ _)] at same
      exact absurd (mem_names_iff.mpr ⟨place, bound, same.symm⟩) absent

end Exactness

/-- Every lookup in the index of a catalog is right exactly when the two
comparisons agree on the catalogued urls. -/
theorem lookups_exact_iff (balance : SearchTree.Balance CatalogEntry) {added : List CatalogEntry}
    (distinct : (added.map CatalogEntry.url).Nodup) (fits : Fits added) :
    ∃ urlTree index, added.foldlM (addEntry balance) .empty = .ok urlTree ∧
      writeIndex balance urlTree = .ok index ∧
      (FindsExactly index (fun key => ∃ ce ∈ added, ce.url = key) ↔ Agree added) := by
  obtain ⟨urlTree, built, ordered, same⟩ := exists_catalog balance distinct
  refine ⟨urlTree, written urlTree.toList, built, enumerateEntries_eq ordered _, ?_⟩
  have sorted : urlTree.toList.Pairwise Before := ordered
  have fitsTree : Fits urlTree.toList := by
    rw [Fits, stringTableSize, same.length_eq, (same.map _).sum_nat]
    exact fits
  simp only [← same.mem_iff]
  have agree : Agree added ↔ Agree urlTree.toList := by
    simp only [Agree, same.mem_iff]
  rw [agree]
  exact ⟨agree_of_findsExactly fitsTree sorted, findsExactly_of_agree fitsTree sorted⟩

/-- An entry with a name of one byte. -/
def shortEntry (byte : UInt8) (nonzero : byte ≠ 0) : CatalogEntry :=
  ⟨[byte], fun zero => nonzero (List.mem_singleton.mp zero).symm, 0, 0⟩

/-- The names `a` and `b`. -/
def plainEntries : List CatalogEntry :=
  [shortEntry 97 (by decide), shortEntry 98 (by decide)]

/-- The name `a` and a name with a byte that is negative as a `char`. -/
def accentedEntries : List CatalogEntry :=
  [shortEntry 97 (by decide), shortEntry 233 (by decide)]

/-- All lookups among the names `a` and `b` are right. -/
theorem lookups_exact_plain :
    ∃ urlTree index, plainEntries.foldlM (addEntry .spine) .empty = .ok urlTree ∧
      writeIndex .spine urlTree = .ok index ∧
      FindsExactly index (fun key => ∃ ce ∈ plainEntries, ce.url = key) := by
  obtain ⟨urlTree, index, built, wrote, exact⟩ :=
    @lookups_exact_iff .spine plainEntries (by decide) (by unfold Fits; decide)
  exact ⟨urlTree, index, built, wrote, exact.mpr (by unfold Agree; decide)⟩

/-- With the accented name in the catalog, the name `a` is not found. -/
theorem accented_lookup_not_exact :
    ∃ urlTree index, accentedEntries.foldlM (addEntry .spine) .empty = .ok urlTree ∧
      writeIndex .spine urlTree = .ok index ∧ index.lookup [97] = .ok none ∧
      ¬FindsExactly index (fun key => ∃ ce ∈ accentedEntries, ce.url = key) := by
  have missed : (written accentedEntries).lookup [97] = .ok none := by decide +kernel
  refine ⟨_, written accentedEntries, rfl, rfl, missed, ?_⟩
  intro finds
  obtain ⟨result, lookedUp, found, -⟩ := finds [97] (by decide)
  obtain ⟨place, _, rfl, -⟩ := found ⟨_, mem_cons_self, rfl⟩
  rw [missed] at lookedUp
  cases lookedUp

end Embassies.Zarfile
