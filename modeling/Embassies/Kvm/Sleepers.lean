import Embassies.Kvm.ZutexSteps
import Mathlib.Data.Finset.Card
import Mathlib.Data.Finset.Dedup

/-!
# A wake and the threads that sleep

The queues and the lists that the waiters remember say the same thing twice,
and a wake should wake as many different threads as it is asked for, if so many
sleep on the address.  A thread may list an address more than once: then it
stands in one queue more than once, a wake pops only some of its places, and
what is left in the queue is a thread that was woken.  A run is right exactly
when no wake pops a waiter that listed the woken address twice.
-/

namespace Embassies.Kvm

namespace ZutexTable

open Library Library.Checked List Function

/-- The queues and the waiters' lists agree, and a thread that is not asleep
stands in no queue. -/
structure Exact (ztable : ZutexTable) : Prop where
  counts : ∀ waiter hdl, (waiters ztable.table hdl).count waiter =
    (ztable.zqList waiter).count hdl
  awake : ∀ waiter, ztable.asleep waiter = false →
    ∀ hdl, waiter ∉ waiters ztable.table hdl

/-- A wake wakes as many threads as it may, and returns their number. -/
def WakesSleepers (before after : ZutexTable) (guestZutex nWake : UInt32)
    (result : Nat) : Prop :=
  ∃ sleepers woken : Finset Nat,
    (∀ waiter, waiter ∈ sleepers ↔
      before.asleep waiter = true ∧ guestZutex ∈ before.zqList waiter) ∧
    (∀ waiter, waiter ∈ woken ↔
      before.asleep waiter = true ∧ after.asleep waiter = false) ∧
    woken ⊆ sleepers ∧ woken.card = min nWake.toNat sleepers.card ∧
    result = woken.card

/-- The result of a call is what it should be. -/
def Returns (before after : ZutexTable) : Call → Option Nat → Prop
  | .wait .., result => result = none
  | .wake guestZutex nWake, result =>
    ∃ number, result = some number ∧
      WakesSleepers before after guestZutex nWake number

/-- A thread that sleeps makes no call. -/
def Possible : ZutexTable → List Call → Prop
  | _, [] => True
  | ztable, call :: rest =>
    (∀ waiter memory specs, call = .wait waiter memory specs →
      ztable.asleep waiter = false) ∧
    ∀ next result, ztable.step call = .ok (next, result) → Possible next rest

/-- No call faults, every state is exact and every call returns what it should. -/
def Correct : ZutexTable → List Call → Prop
  | ztable, [] => ztable.Exact
  | ztable, call :: rest =>
    ztable.Exact ∧ ∃ next result, ztable.step call = .ok (next, result) ∧
      Returns ztable next call result ∧ Correct next rest

/-- A wake pops no waiter that listed the address more than once. -/
def PopsOnce (ztable : ZutexTable) : Call → Prop
  | .wait .. => True
  | .wake guestZutex nWake =>
    ∀ waiter ∈ (waiters ztable.table guestZutex).take nWake.toNat,
      (ztable.zqList waiter).count guestZutex ≤ 1

/-- Every wake of a run pops no waiter that listed the address more than once. -/
def AllPopOnce : ZutexTable → List Call → Prop
  | _, [] => True
  | ztable, call :: rest =>
    ztable.PopsOnce call ∧
    ∀ next result, ztable.step call = .ok (next, result) → AllPopOnce next rest

variable {ztable next : ZutexTable} {guestZutex nWake : UInt32}

theorem new_exact : new.Exact where
  counts _ _ := rfl
  awake _ _ _ member := nomatch member

theorem new_clean : Clean new.table := by
  intro hdl present
  cases present

theorem Exact.mem_iff (exact : ztable.Exact) (waiter : Nat) (hdl : UInt32) :
    waiter ∈ waiters ztable.table hdl ↔ hdl ∈ ztable.zqList waiter := by
  rw [← count_pos_iff, ← count_pos_iff, exact.counts]

variable {waiter : Nat}

theorem Exact.asleep_of_mem (exact : ztable.Exact) {hdl : UInt32}
    (member : waiter ∈ waiters ztable.table hdl) :
    ztable.asleep waiter = true := by
  cases sleeps : ztable.asleep waiter with
  | true => rfl
  | false => exact absurd member (exact.awake waiter sleeps hdl)

/-! ## Waiting -/

theorem Exact.zqList_of_awake (exact : ztable.Exact) (awake : ztable.asleep waiter = false) :
    ztable.zqList waiter = [] := by
  apply eq_nil_iff_forall_not_mem.mpr
  intro hdl member
  exact exact.awake waiter awake hdl ((exact.mem_iff waiter hdl).mpr member)

theorem wait_spec (exact : ztable.Exact) (clean : Clean ztable.table)
    (awake : ztable.asleep waiter = false) (memory : UInt32 → Option UInt32)
    (specs : List ZutexWaitSpec) :
    ∃ next, ztable.wait memory specs waiter = .ok next ∧ next.Exact ∧ Clean next.table := by
  rw [ZutexTable.wait]
  by_cases matching : allMatch memory specs = true
  · rw [if_pos matching]
    generalize specs.map ZutexWaitSpec.zutex = hdls
    obtain ⟨middle, enqueued, queues, lists, sleepers, stays⟩ := enqueue_all_spec ztable waiter hdls
    rw [enqueued, ok_bind]
    refine ⟨_, rfl, ⟨?_, ?_⟩, stays clean⟩
    · intro other hdl
      simp only [queues, lists, count_append, exact.counts, exact.zqList_of_awake awake]
      rcases eq_or_ne other waiter with rfl | apart
      · rw [update_self, exact.zqList_of_awake awake, count_replicate_self]
        simp
      · rw [update_of_ne apart, count_replicate]
        simp [apart.symm]
    · intro other sleeps hdl member
      rcases eq_or_ne other waiter with rfl | apart
      · simp only [update_self, Bool.true_eq_false] at sleeps
      · simp only [update_of_ne apart, sleepers] at sleeps
        simp only [queues, mem_append, mem_replicate] at member
        rcases member with before | ⟨-, same⟩
        · exact exact.awake other sleeps hdl before
        · exact apart same
  · rw [if_neg matching]
    exact ⟨ztable, rfl, exact, clean⟩

/-! ## Waking -/

/-- The waiters that a wake pops. -/
def victims (ztable : ZutexTable) (guestZutex nWake : UInt32) : List Nat :=
  (waiters ztable.table guestZutex).take nWake.toNat

/-- The state after a wake, as seen from the queues. -/
structure Awakened (ztable : ZutexTable) (guestZutex nWake : UInt32)
    (next : ZutexTable) : Prop where
  own : waiters next.table guestZutex =
    (waiters ztable.table guestZutex).drop nWake.toNat
  others : ∀ hdl, hdl ≠ guestZutex → waiters next.table hdl =
    (waiters ztable.table hdl).filter fun waiter =>
      !(ztable.victims guestZutex nWake).contains waiter
  zqList : ∀ waiter, next.zqList waiter =
    if waiter ∈ ztable.victims guestZutex nWake then [] else ztable.zqList waiter
  asleep : ∀ waiter, next.asleep waiter =
    if waiter ∈ ztable.victims guestZutex nWake then false
    else ztable.asleep waiter

/-- The table after the victims have been popped from their queue. -/
def popVictims (ztable : ZutexTable) (guestZutex nWake : UInt32) : ZutexTable :=
  { ztable with
    table := setQueue ztable.table guestZutex
      ((waiters ztable.table guestZutex).drop nWake.toNat) }

theorem popVictims_own (present : Present ztable.table guestZutex) :
    waiters (ztable.popVictims guestZutex nWake).table guestZutex =
      (waiters ztable.table guestZutex).drop nWake.toNat := by
  rw [popVictims, waiters_setQueue present, update_self]

theorem popVictims_other (present : Present ztable.table guestZutex) {hdl : UInt32}
    (apart : hdl ≠ guestZutex) :
    waiters (ztable.popVictims guestZutex nWake).table hdl = waiters ztable.table hdl := by
  rw [popVictims, waiters_setQueue present, update_of_ne apart]

/-- A queue from which everything was popped had a waiter that remembers it. -/
theorem Exact.exists_victim (exact : ztable.Exact) (some : waiters ztable.table guestZutex ≠ [])
    (nothing : (waiters ztable.table guestZutex).drop nWake.toNat = []) :
    ∃ waiter ∈ ztable.victims guestZutex nWake, guestZutex ∈ ztable.zqList waiter := by
  have all : ztable.victims guestZutex nWake = waiters ztable.table guestZutex :=
    take_of_length_le (drop_eq_nil_iff.mp nothing)
  obtain ⟨waiter, member⟩ := exists_mem_of_ne_nil _ some
  exact ⟨waiter, all ▸ member, (exact.mem_iff waiter guestZutex).mp member⟩

theorem wakeVictims_spec (exact : ztable.Exact) (clean : Clean ztable.table)
    (present : Present ztable.table guestZutex) :
    ∃ next, wakeVictims (ztable.popVictims guestZutex nWake) guestZutex
        (ztable.victims guestZutex nWake) = .ok next ∧
      Clean next.table ∧ ztable.Awakened guestZutex nWake next := by
  have pending : Pending guestZutex (waiters (ztable.popVictims guestZutex nWake).table)
      ⟨(ztable.popVictims guestZutex nWake).table, []⟩ := by
    refine ⟨rfl, (fun _ absurd => nomatch absurd), nodup_nil, ?_⟩
    intro hdl there nothing
    refine .inr (Classical.byContradiction fun apart => ?_)
    rw [popVictims_other present apart] at nothing
    exact clean hdl (present_setQueue.mp there) nothing
  have remembers : Remembers guestZutex (ztable.victims guestZutex nWake)
      (waiters (ztable.popVictims guestZutex nWake).table) ztable.zqList := by
    intro waiter _ wq apart
    rw [popVictims_other present apart, exact.counts]
  obtain ⟨state, waking, woken⟩ :=
    @wakeAll_spec guestZutex _ (ztable.popVictims guestZutex nWake, [])
      (ztable.victims guestZutex nWake) pending (present_setQueue.mpr present)
      remembers
  obtain ⟨table, freed, lookups⟩ := freeAll_spec state.2 woken.pending.nodup
    fun hdl noted => ⟨(woken.pending.empty hdl noted).1,
      (congrFun woken.pending.same hdl).trans (woken.pending.empty hdl noted).2⟩
  have final : waiters table = cleared guestZutex (ztable.victims guestZutex nWake)
      (waiters (ztable.popVictims guestZutex nWake).table) := by
    funext hdl
    rw [waiters, lookups]
    by_cases noted : hdl ∈ state.2
    · rw [if_pos noted, (woken.pending.empty hdl noted).2]
    · rw [if_neg noted]
      exact congrFun woken.pending.same hdl
  refine ⟨{ state.1 with table }, ?_, ?_, ⟨?_, ?_, woken.zqList, woken.asleep⟩⟩
  · rw [wakeVictims, waking, ok_bind]
    exact congrArg (· >>= fun table => Except.ok { state.1 with table }) freed
  · intro hdl there nothing
    rw [final] at nothing
    have unnoted : hdl ∉ state.2 := by
      intro noted
      rw [Present, lookups, if_pos noted] at there
      cases there
    rw [Present, lookups, if_neg unnoted] at there
    rcases woken.pending.noted hdl there nothing with noted | rfl
    · exact unnoted noted
    · rw [cleared, if_pos rfl, popVictims_own present] at nothing
      have victim := exact.exists_victim (clean hdl present) nothing
      exact unnoted (woken.own victim ((popVictims_own present).trans nothing))
  · rw [final, cleared, if_pos rfl, popVictims_own present]
  · intro hdl apart
    rw [final, cleared, if_neg apart, popVictims_other present apart]

theorem wake_spec (exact : ztable.Exact) (clean : Clean ztable.table) (guestZutex nWake : UInt32) :
    ∃ next, ztable.wake guestZutex nWake = .ok (next, (ztable.victims guestZutex nWake).length) ∧
      Clean next.table ∧ ztable.Awakened guestZutex nWake next := by
  rw [wake]
  cases lookup : ztable.table.lookup guestZutex with
  | none =>
    have nobody : waiters ztable.table guestZutex = [] := by
      rw [waiters, lookup]
    have noVictims : ztable.victims guestZutex nWake = [] := by
      rw [victims, nobody, take_nil]
    refine ⟨ztable, by rw [noVictims]; rfl, clean, ⟨?_, ?_, ?_, ?_⟩⟩
    · rw [nobody, drop_nil]
    · intro hdl _
      rw [noVictims]
      simp
    · intro waiter
      rw [noVictims, if_neg not_mem_nil]
    · intro waiter
      rw [noVictims, if_neg not_mem_nil]
  | some zq =>
    have queue := waiters_of_lookup lookup
    obtain ⟨next, waking, cleanNext, awakened⟩ := @wakeVictims_spec _ _ nWake
      exact clean (present_of_lookup lookup)
    refine ⟨next, ?_, cleanNext, awakened⟩
    rw [popVictims, victims, queue] at waking
    simp only [selectVictims_eq, victims, queue]
    rw [waking]
    rfl

/-! ## When a wake is right -/

theorem count_waiters (waiter : Nat) : (waiters ztable.table guestZutex).count waiter =
      (ztable.victims guestZutex nWake).count waiter +
        ((waiters ztable.table guestZutex).drop nWake.toNat).count waiter := by
  rw [victims, ← count_append, take_append_drop]

theorem mem_waiters_of_victim (victim : waiter ∈ ztable.victims guestZutex nWake) :
    waiter ∈ waiters ztable.table guestZutex :=
  mem_of_mem_take victim

section Once

variable (exact : ztable.Exact) (once : ztable.PopsOnce (.wake guestZutex nWake))

include exact once

theorem Exact.nodup_victims : (ztable.victims guestZutex nWake).Nodup := by
  rw [nodup_iff_count_le_one]
  intro waiter
  by_cases victim : waiter ∈ ztable.victims guestZutex nWake
  · have listed := once waiter victim
    rw [← exact.counts, @count_waiters _ _ nWake] at listed
    exact Nat.le_trans (Nat.le_add_right _ _) listed
  · rw [count_eq_zero.mpr victim]
    exact Nat.zero_le 1

theorem Exact.count_drop_victim (victim : waiter ∈ ztable.victims guestZutex nWake) :
    ((waiters ztable.table guestZutex).drop nWake.toNat).count waiter = 0 := by
  have listed := once waiter victim
  rw [← exact.counts, @count_waiters _ _ nWake] at listed
  have popped := count_pos_iff.mpr victim
  omega

theorem Exact.awakened_exact (awakened : ztable.Awakened guestZutex nWake next) : next.Exact := by
  have counts : ∀ waiter hdl, (waiters next.table hdl).count waiter =
      (next.zqList waiter).count hdl := by
    intro waiter hdl
    rw [awakened.zqList]
    by_cases victim : waiter ∈ ztable.victims guestZutex nWake
    · rw [if_pos victim, count_nil]
      rcases eq_or_ne hdl guestZutex with rfl | apart
      · rw [awakened.own, exact.count_drop_victim once victim]
      · rw [awakened.others hdl apart, count_eq_zero, mem_filter]
        simp [victim]
    · rw [if_neg victim, ← exact.counts]
      rcases eq_or_ne hdl guestZutex with rfl | apart
      · rw [awakened.own, @count_waiters _ _ nWake, count_eq_zero.mpr victim, Nat.zero_add]
      · rw [awakened.others hdl apart, count_filter (by simp [victim])]
  refine ⟨counts, ?_⟩
  intro waiter awake hdl member
  have listed := (counts waiter hdl).symm.trans_gt (count_pos_iff.mpr member)
  rw [awakened.zqList] at listed
  rw [awakened.asleep] at awake
  by_cases victim : waiter ∈ ztable.victims guestZutex nWake
  · rw [if_pos victim] at listed
    exact absurd listed (Nat.lt_irrefl 0)
  · rw [if_neg victim] at listed awake
    have before := (exact.mem_iff waiter hdl).mpr (count_pos_iff.mp listed)
    exact exact.awake waiter awake hdl before

end Once

theorem Exact.mem_sleepers_iff (exact : ztable.Exact) (waiter : Nat) :
    waiter ∈ (waiters ztable.table guestZutex).toFinset ↔
      ztable.asleep waiter = true ∧ guestZutex ∈ ztable.zqList waiter := by
  rw [mem_toFinset]
  constructor
  · intro member
    exact ⟨exact.asleep_of_mem member, (exact.mem_iff waiter guestZutex).mp member⟩
  · rintro ⟨-, listed⟩
    exact (exact.mem_iff waiter guestZutex).mpr listed

theorem Exact.mem_woken_iff
    (exact : ztable.Exact) (awakened : ztable.Awakened guestZutex nWake next)
    (waiter : Nat) :
    waiter ∈ (ztable.victims guestZutex nWake).toFinset ↔
      ztable.asleep waiter = true ∧ next.asleep waiter = false := by
  rw [mem_toFinset, awakened.asleep]
  constructor
  · intro victim
    exact ⟨exact.asleep_of_mem (mem_waiters_of_victim victim), if_pos victim⟩
  · rintro ⟨sleeps, woken⟩
    by_contra spared
    rw [if_neg spared, sleeps] at woken
    cases woken

/-- As many different waiters are popped as the queue has, up to the number. -/
theorem card_victims (nodup : (ztable.victims guestZutex nWake).Nodup) :
    (ztable.victims guestZutex nWake).toFinset.card =
      min nWake.toNat (waiters ztable.table guestZutex).toFinset.card := by
  have atMost := toFinset_card_le (waiters ztable.table guestZutex)
  have subset : (ztable.victims guestZutex nWake).toFinset ⊆
      (waiters ztable.table guestZutex).toFinset := by
    intro waiter victim
    exact mem_toFinset.mpr (mem_waiters_of_victim (mem_toFinset.mp victim))
  have fewer := Finset.card_le_card subset
  rw [toFinset_card_of_nodup nodup, victims, length_take] at fewer ⊢
  omega

/-- A wake is right exactly when it pops each thread from its only place. -/
theorem Exact.wakes_iff (exact : ztable.Exact) (awakened : ztable.Awakened guestZutex nWake next) :
    (next.Exact ∧ WakesSleepers ztable next guestZutex nWake
        (ztable.victims guestZutex nWake).length) ↔
      ztable.PopsOnce (.wake guestZutex nWake) := by
  constructor
  · rintro ⟨nextExact, sleepers, woken, -, wakes, -, -, number⟩ waiter victim
    have same : woken = (ztable.victims guestZutex nWake).toFinset := by
      ext other
      rw [wakes, exact.mem_woken_iff awakened]
    rw [same, card_toFinset] at number
    have nodup := dedup_eq_self.mp ((dedup_sublist _).eq_of_length number.symm)
    change waiter ∈ ztable.victims guestZutex nWake at victim
    have gone := nextExact.counts waiter guestZutex
    rw [awakened.own, awakened.zqList, if_pos victim, count_nil] at gone
    rw [← exact.counts, @count_waiters _ _ nWake, gone, Nat.add_zero]
    exact nodup_iff_count_le_one.mp nodup waiter
  · intro once
    have nodup := exact.nodup_victims once
    refine ⟨exact.awakened_exact once awakened, (waiters ztable.table guestZutex).toFinset,
      (ztable.victims guestZutex nWake).toFinset, exact.mem_sleepers_iff,
      exact.mem_woken_iff awakened, ?_, card_victims nodup,
      (toFinset_card_of_nodup nodup).symm⟩
    intro waiter victim
    exact mem_toFinset.mpr (mem_waiters_of_victim (mem_toFinset.mp victim))

/-! ## Runs -/

/-- From an exact state a call goes through, and it is right exactly when it
pops each thread from its only place. -/
theorem Exact.step_iff (exact : ztable.Exact) (clean : Clean ztable.table) (call : Call)
    (possible : ∀ waiter memory specs, call = .wait waiter memory specs →
      ztable.asleep waiter = false) :
    ∃ next result, ztable.step call = .ok (next, result) ∧ Clean next.table ∧
      (next.Exact ∧ Returns ztable next call result ↔ ztable.PopsOnce call) := by
  cases call with
  | wait waiter memory specs =>
    obtain ⟨next, waited, exactNext, cleanNext⟩ := wait_spec exact clean
      (possible waiter memory specs rfl) memory specs
    refine ⟨next, none, ?_, cleanNext, ?_⟩
    · rw [step, waited]
      rfl
    · exact ⟨fun _ => trivial, fun _ => ⟨exactNext, rfl⟩⟩
  | wake guestZutex nWake =>
    obtain ⟨next, woke, cleanNext, awakened⟩ := wake_spec exact clean guestZutex nWake
    refine ⟨next, some (ztable.victims guestZutex nWake).length, ?_, cleanNext, ?_⟩
    · rw [step, woke]
      rfl
    · rw [← exact.wakes_iff awakened]
      constructor
      · rintro ⟨exactNext, _, same, wakes⟩
        cases same
        exact ⟨exactNext, wakes⟩
      · rintro ⟨exactNext, wakes⟩
        exact ⟨exactNext, _, rfl, wakes⟩

theorem Exact.correct_iff (exact : ztable.Exact) (clean : Clean ztable.table) (calls : List Call)
    (possible : Possible ztable calls) :
    Correct ztable calls ↔ AllPopOnce ztable calls := by
  induction calls generalizing ztable with
  | nil => exact ⟨fun _ => trivial, fun _ => exact⟩
  | cons call rest induction =>
    obtain ⟨free, possibleLater⟩ := possible
    obtain ⟨next, result, stepped, cleanNext, right⟩ := exact.step_iff clean call free
    have later := possibleLater next result stepped
    constructor
    · rintro ⟨-, other, otherResult, otherStepped, returns, correct⟩
      rw [stepped] at otherStepped
      cases otherStepped
      have exactNext : next.Exact := by
        cases rest with
        | nil => exact correct
        | cons => exact correct.1
      refine ⟨right.mp ⟨exactNext, returns⟩, ?_⟩
      intro other otherResult otherStepped
      rw [stepped] at otherStepped
      cases otherStepped
      exact (induction exactNext cleanNext later).mp correct
    · rintro ⟨once, onceLater⟩
      obtain ⟨exactNext, returns⟩ := right.mpr once
      exact ⟨exact, next, result, stepped, returns,
        (induction exactNext cleanNext later).mpr (onceLater next result stepped)⟩

end ZutexTable

/-- Two threads wait on two addresses each and the shared address is woken. -/
def sharedCalls : List Call :=
  [.wait 0 (fun _ => some 0) [⟨4, 0⟩, ⟨8, 0⟩],
    .wait 1 (fun _ => some 0) [⟨8, 0⟩, ⟨12, 0⟩], .wake 8 1]

/-- A thread lists an address twice and is woken. -/
def repeatedCalls : List Call :=
  [.wait 0 (fun _ => some 0) [⟨4, 0⟩, ⟨4, 0⟩], .wake 4 1]

theorem sharedCalls_possible : ZutexTable.Possible .new sharedCalls := by
  refine ⟨?_, fun next result stepped => ?_⟩
  · intro waiter memory specs same
    cases same
    rfl
  obtain ⟨rfl, rfl⟩ := Prod.mk.inj (Except.ok.inj stepped)
  refine ⟨?_, fun next result stepped => ?_⟩
  · intro waiter memory specs same
    cases same
    rfl
  refine ⟨?_, fun next result stepped => trivial⟩
  intro waiter memory specs same
  cases same

theorem sharedCalls_allPopOnce : ZutexTable.AllPopOnce .new sharedCalls := by
  refine ⟨trivial, fun next result stepped => ?_⟩
  obtain ⟨rfl, rfl⟩ := Prod.mk.inj (Except.ok.inj stepped)
  refine ⟨trivial, fun next result stepped => ?_⟩
  obtain ⟨rfl, rfl⟩ := Prod.mk.inj (Except.ok.inj stepped)
  refine ⟨?_, fun next result stepped => trivial⟩
  intro waiter member
  obtain rfl := List.mem_singleton.mp member
  decide

end Embassies.Kvm
