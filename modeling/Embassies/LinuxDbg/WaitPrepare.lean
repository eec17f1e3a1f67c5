import Embassies.Library.KeyedTable
import Embassies.Library.LockOrder
import Mathlib.Algebra.Group.Nat.Defs

/-!
# Locking the queues of a wait

The monitor answers `XpReqZutexWaitPrepare` by locking the queue of every zutex
in the request.  It collects pointers to the queues in an array on its stack,
sorts the array so that all requests take their locks in one order, and locks the
queues from the front.

The comparison for the sort is given the places of two pointers in the array and
compares these places.  `qsort` is a parameter, since it belongs to the C library;
it is told only how any two places compare.  A queue is known by the zutex that
it is for.
-/

namespace Embassies.LinuxDbg

open Library Library.Checked List KeyedTable

/-- What a run of the code must never do. -/
inductive Fault where
  | assertion
  /-- A store outside an array. -/
  | outOfBounds
deriving DecidableEq

/-- `ZQ`. -/
structure ZQ where
  zutexHandle : UInt32
deriving DecidableEq

/-- `ZQTable`. -/
abbrev ZQTable := KeyedTable ZQ.zutexHandle

/-- `lookup_zq`: the queue of a zutex, which is made if there is none. -/
def lookupZq (table : ZQTable) (handle : UInt32) : Except Fault (ZQ × ZQTable) :=
  match table.lookup handle with
  | some zq => .ok (zq, table)
  | none => do
    let table ← table.insert .assertion ⟨handle⟩
    return (⟨handle⟩, table)

/-! ## The request -/

/-- `sizeof(ZQ*)`. -/
def pointerSize : Nat := 4

/-- A store behind the pointers that an array of so many bytes has. -/
def storeZq (capacity : Nat) (state : List ZQ × ZQTable) (spec : UInt32) :
    Except Fault (List ZQ × ZQTable) := do
  let (zq, table) ← lookupZq state.2 spec
  ensure (pointerSize * state.1.length + pointerSize ≤ capacity) .outOfBounds
  return (state.1 ++ [zq], table)

/-- `cmp_ptr`. -/
def cmpPtr (p0 p1 : UInt32) : Int32 := (p0 - p1).toInt32

/-- The address of a place in the array. -/
def slot (base : UInt32) (place : Nat) : UInt32 :=
  base + UInt32.ofNat (pointerSize * place)

variable (qsort : (Nat → Nat → Int32) → List ZQ → List ZQ)

/-- The queues in the order in which they are locked, with an array of so many
bytes at `base`. -/
def prepareIn (capacity : Nat) (base : UInt32) (table : ZQTable)
    (specs : List UInt32) : Except Fault (List ZQ × ZQTable) := do
  let (zqs, table) ← specs.foldlM (storeZq capacity) ([], table)
  return (qsort (fun left right => cmpPtr (slot base left) (slot base right)) zqs, table)

/-- `Tx::handle` of `XpReqZutexWaitPrepare`.  The array has as many bytes as the
request has specifications. -/
def handle (base : UInt32) (table : ZQTable) (specs : List UInt32) :
    Except Fault (List ZQ × ZQTable) :=
  prepareIn qsort specs.length base table specs

/-! ## What a request should do -/

/-- The request is answered, and it locks the queues of its zutexes, each of them
once and in increasing order. -/
def Orderly (before : ZQ → ZQ → Prop) (specs : List UInt32)
    (outcome : Except Fault (List ZQ × ZQTable)) : Prop :=
  ∃ locks table, outcome = .ok (locks, table) ∧ locks.Nodup ∧
    (∀ zq, zq ∈ locks ↔ zq.zutexHandle ∈ specs) ∧ locks.Pairwise before

/-- A sort that moves nothing when every place compares below all later ones. -/
def LeavesOrdered : Prop :=
  ∀ (compare : Nat → Nat → Int32) (array : List ZQ),
    (∀ left right, left < right → right < array.length → compare left right < 0) →
    qsort compare array = array

/-! ## The array -/

variable {qsort} {base : UInt32} {table : ZQTable} {specs : List UInt32}
  {before : ZQ → ZQ → Prop} {capacity : Nat}

theorem lookupZq_eq_ok (table : ZQTable) (handle : UInt32) :
    ∃ after, lookupZq table handle = .ok (⟨handle⟩, after) := by
  rw [lookupZq]
  cases found : table.lookup handle with
  | some zq =>
    obtain ⟨-, same⟩ := lookup_eq_some_iff.mp found
    cases same
    exact ⟨table, rfl⟩
  | none =>
    obtain ⟨after, inserted⟩ := @exists_insert _ _ _ _ _ Fault.assertion
      table ⟨handle⟩ (lookup_eq_none_iff.mp found)
    rw [inserted, ok_bind]
    exact ⟨after, rfl⟩

theorem foldlM_storeZq_fits
    {zqs : List ZQ} (fits : pointerSize * (zqs.length + specs.length) ≤ capacity) :
    ∃ after, specs.foldlM (storeZq capacity) (zqs, table) =
      .ok (zqs ++ specs.map ZQ.mk, after) := by
  induction specs generalizing zqs table with
  | nil =>
    rw [map_nil, append_nil]
    exact ⟨table, rfl⟩
  | cons spec specs induction =>
    obtain ⟨after, found⟩ := lookupZq_eq_ok table spec
    rw [length_cons, pointerSize] at fits
    have room : pointerSize * zqs.length + pointerSize ≤ capacity := by
      rw [pointerSize]
      omega
    have later : pointerSize * ((zqs ++ [ZQ.mk spec]).length + specs.length) ≤ capacity := by
      rw [pointerSize, length_append, length_singleton]
      omega
    obtain ⟨final, stored⟩ := @induction after _ later
    refine ⟨final, ?_⟩
    rw [foldlM_cons, storeZq, found, ok_bind]
    dsimp only
    rw [ensure_true room, ok_bind, pure_eq_ok, ok_bind, stored, map_cons,
      append_assoc, singleton_append]

theorem foldlM_storeZq_overflows {zqs : List ZQ} (some : specs ≠ [])
    (overflows : capacity < pointerSize * (zqs.length + specs.length)) :
    specs.foldlM (storeZq capacity) (zqs, table) = .error .outOfBounds := by
  induction specs generalizing zqs table with
  | nil => exact absurd rfl some
  | cons spec specs induction =>
    obtain ⟨after, found⟩ := lookupZq_eq_ok table spec
    rw [foldlM_cons, storeZq, found, ok_bind]
    dsimp only
    by_cases room : pointerSize * zqs.length + pointerSize ≤ capacity
    · rw [ensure_true room, ok_bind, pure_eq_ok, ok_bind]
      rw [length_cons, pointerSize] at overflows
      rw [pointerSize] at room
      apply induction
      · rintro rfl
        rw [length_nil] at overflows
        omega
      · rw [pointerSize, length_append, length_singleton]
        omega
    · rw [ensure, if_neg room]
      rfl

/-! ## The comparison -/

theorem toInt32_neg {value : UInt32} (large : 2 ^ 31 ≤ value.toNat) : value.toInt32 < 0 := by
  have bound := value.toNat_lt
  have signed : value.toInt32.toInt = value.toBitVec.toInt := rfl
  have zero : (0 : Int32).toInt = 0 := rfl
  rw [Int32.lt_iff_toInt_lt, signed, zero, BitVec.toInt_eq_toNat_cond,
    UInt32.toNat_toBitVec, if_neg (by omega)]
  omega

theorem cmpPtr_slot
    {left right : Nat} (base : UInt32) (inOrder : left < right) (bound : right < 2 ^ 29) :
    cmpPtr (slot base left) (slot base right) < 0 := by
  apply toInt32_neg
  rw [slot, slot, pointerSize, UInt32.toNat_sub, UInt32.toNat_add, UInt32.toNat_add,
    UInt32.toNat_ofNat', UInt32.toNat_ofNat']
  omega

theorem LeavesOrdered.slots (leaves : LeavesOrdered qsort) (base : UInt32) {zqs : List ZQ}
    (bound : zqs.length < 2 ^ 29) :
    qsort (fun left right => cmpPtr (slot base left) (slot base right)) zqs = zqs := by
  apply leaves
  intro left right inOrder inside
  exact cmpPtr_slot base inOrder (Nat.lt_trans inside bound)

/-! ## The order of the locks -/

/-- With an array that is large enough, the locks are taken in the order of the
request. -/
theorem prepareIn_eq (leaves : LeavesOrdered qsort) (fits : pointerSize * specs.length ≤ capacity)
    (bound : specs.length < 2 ^ 29) (base : UInt32) (table : ZQTable) :
    ∃ after, prepareIn qsort capacity base table specs = .ok (specs.map ZQ.mk, after) := by
  have room : pointerSize * (([] : List ZQ).length + specs.length) ≤ capacity := by
    rwa [length_nil, Nat.zero_add]
  obtain ⟨after, stored⟩ := @foldlM_storeZq_fits table specs capacity [] room
  refine ⟨after, ?_⟩
  rw [prepareIn, stored, ok_bind]
  dsimp only
  rw [nil_append, leaves.slots base (by rwa [length_map])]
  rfl

theorem orderly_map_iff {after : ZQTable} : Orderly before specs (.ok (specs.map ZQ.mk, after)) ↔
      specs.Nodup ∧ (specs.map ZQ.mk).Pairwise before := by
  have injective : Function.Injective ZQ.mk := fun _ _ => ZQ.mk.inj
  constructor
  · rintro ⟨locks, _, same, distinct, -, ordered⟩
    cases same
    exact ⟨distinct.of_map, ordered⟩
  · rintro ⟨distinct, ordered⟩
    refine ⟨_, _, rfl, distinct.map injective, ?_, ordered⟩
    intro zq
    exact mem_map_of_injective injective

/-- The queues that a request locks. -/
def locksOf : Except Fault (List ZQ × ZQTable) → List ZQ
  | .ok (locks, _) => locks
  | .error _ => []

/-- Requests that are orderly in one order are never deadlocked. -/
theorem orderly_not_deadlocked
    {Task : Type} [IsStrictOrder ZQ before] {requests : Task → List UInt32}
    {outcome : Task → Except Fault (List ZQ × ZQTable)}
    (orderly : ∀ task, Orderly before (requests task) (outcome task))
    (taken : Task → Nat) (group : Finset Task) :
    ¬LockOrder.Deadlocked (fun task => locksOf (outcome task)) taken group := by
  apply @LockOrder.not_deadlocked Task ZQ _ before
  intro task
  obtain ⟨locks, _, same, -, -, ordered⟩ := orderly task
  rw [same]
  exact ordered

/-- A request is orderly exactly when it names no zutex.  With an array of as many
pointers it would be orderly exactly when it names different zutexes in increasing
order. -/
theorem prepare_orderly_iff (leaves : LeavesOrdered qsort) (before : ZQ → ZQ → Prop) (base : UInt32)
    (table : ZQTable) (specs : List UInt32) :
    (Orderly before specs (handle qsort base table specs) ↔ specs = []) ∧
    (specs.length < 2 ^ 29 → (Orderly before specs
          (prepareIn qsort (pointerSize * specs.length) base table specs) ↔
        specs.Nodup ∧ (specs.map ZQ.mk).Pairwise before)) := by
  constructor
  · constructor
    · rintro ⟨locks, after, done, -⟩
      by_contra named
      have positive := length_pos_iff.mpr named
      have outside := @foldlM_storeZq_overflows table specs specs.length [] named
        (by rw [length_nil, pointerSize]; omega)
      rw [handle, prepareIn, outside] at done
      cases done
    · rintro rfl
      obtain ⟨after, done⟩ := @prepareIn_eq qsort [] 0 leaves (Nat.le_refl 0)
        Nat.one_le_two_pow base table
      rw [handle, length_nil, done]
      exact orderly_map_iff.mpr ⟨.nil, .nil⟩
  · intro bound
    obtain ⟨after, done⟩ := prepareIn_eq leaves (Nat.le_refl _) bound base table
    rw [done]
    exact orderly_map_iff

/-- The sort that keeps every array. -/
def keepOrder (_ : Nat → Nat → Int32) (array : List ZQ) : List ZQ := array

theorem keepOrder_leaves : LeavesOrdered keepOrder := fun _ _ _ => rfl

/-- An empty request is orderly, and a request for two zutexes in order would be. -/
theorem prepare_orderly_pair : Orderly (fun left right => left.zutexHandle < right.zutexHandle) []
        (handle keepOrder 0 .empty []) ∧
      Orderly (fun left right => left.zutexHandle < right.zutexHandle) [1, 2]
        (prepareIn keepOrder (pointerSize * 2) 0 .empty [1, 2]) := by
  constructor
  · exact (prepare_orderly_iff keepOrder_leaves _ 0 .empty []).1.mpr rfl
  · exact ((prepare_orderly_iff keepOrder_leaves _ 0 .empty [1, 2]).2 (by decide)).mpr (by decide)

/-- Two requests for the same two zutexes, in opposite orders. -/
def crossing : Bool → List UInt32
  | false => [1, 2]
  | true => [2, 1]

/-- A request for two zutexes stores outside its array.  With room for its
pointers, it and the same request in the opposite order come to wait for each
other. -/
theorem crossing_requests_not_orderly :
    (∀ before, ¬Orderly before [1, 2] (handle keepOrder 0 .empty [1, 2])) ∧
      handle keepOrder 0 .empty [1, 2] = .error .outOfBounds ∧
      ∃ taken, Relation.ReflTransGen (LockOrder.Takes fun task =>
            locksOf (prepareIn keepOrder (pointerSize * 2) 0 .empty (crossing task)))
          (fun _ => 0) taken ∧
        LockOrder.Deadlocked (fun task =>
          locksOf (prepareIn keepOrder (pointerSize * 2) 0 .empty (crossing task)))
          taken {false, true} := by
  have outside : handle keepOrder 0 .empty [1, 2] = .error .outOfBounds := rfl
  refine ⟨?_, outside, ?_⟩
  · rintro before ⟨locks, after, done, -⟩
    cases done
  · refine ⟨_, (Relation.ReflTransGen.single ⟨false, ⟨1⟩, rfl, by decide, rfl⟩).tail
      ⟨true, ⟨2⟩, rfl, by decide, rfl⟩, ⟨false, by decide⟩, ?_⟩
    intro task _
    cases task with
    | false => exact ⟨⟨2⟩, rfl, true, by decide, by decide⟩
    | true => exact ⟨⟨1⟩, rfl, false, by decide, by decide⟩

end Embassies.LinuxDbg
