import Embassies.Kvm.ZutexTable
import Mathlib.Data.List.Basic

/-!
# What a wait and a wake do to the queues

The table of queues is seen here as a function from addresses to lists of
waiters.  A wait appends the waiter to the lists of its addresses.  A wake
drops the victims from the front of one list and, provided every waiter
remembers its queues as often as it stands in them, removes each victim from
all other lists.
-/

namespace Embassies.Kvm.ZutexTable

open Library Library.Checked List Function KeyedTable

variable {table : KeyedTable ZutexQueue.guestHdl} {hdl zq : UInt32}
  {ztable : ZutexTable} {waiter : Nat}

/-- The waiters in the queue of an address. -/
def waiters (table : KeyedTable ZutexQueue.guestHdl) (hdl : UInt32) : List Nat :=
  match table.lookup hdl with
  | none => []
  | some zq => zq.queue

/-- There is a queue for an address. -/
def Present (table : KeyedTable ZutexQueue.guestHdl) (hdl : UInt32) : Prop :=
  (table.lookup hdl).isSome = true

/-- No queue is empty. -/
def Clean (table : KeyedTable ZutexQueue.guestHdl) : Prop :=
  ∀ hdl, Present table hdl → waiters table hdl ≠ []

variable {found : ZutexQueue}

theorem waiters_of_lookup (lookup : table.lookup hdl = some found) :
    waiters table hdl = found.queue := by
  rw [waiters, lookup]

theorem present_of_lookup (lookup : table.lookup hdl = some found) : Present table hdl := by
  rw [Present, lookup, Option.isSome_some]

theorem present_of_waiters (some : waiters table hdl ≠ []) : Present table hdl := by
  cases lookup : table.lookup hdl with
  | none =>
    rw [waiters, lookup] at some
    exact absurd rfl some
  | some found => exact present_of_lookup lookup

theorem follow_eq_ok (present : Present table hdl) :
    ∃ found, follow table hdl = .ok found ∧ found.queue = waiters table hdl ∧
      table.lookup hdl = some found := by
  obtain ⟨found, lookup⟩ := Option.isSome_iff_exists.mp present
  refine ⟨found, ?_, (waiters_of_lookup lookup).symm, lookup⟩
  rw [follow, lookup]

/-! ## Stores -/

theorem lookup_setQueue (queue : List Nat) (wanted : UInt32) :
    (setQueue table hdl queue).lookup wanted =
      if wanted = hdl then
        (table.lookup wanted).map fun zq => { zq with queue }
      else table.lookup wanted :=
  lookup_modify (by intro; rfl) wanted

theorem present_setQueue {queue : List Nat} {wanted : UInt32} :
    Present (setQueue table hdl queue) wanted ↔ Present table wanted := by
  rw [Present, lookup_setQueue]
  split
  · rw [Option.isSome_map]
    rfl
  · rfl

theorem waiters_setQueue (present : Present table hdl) (queue : List Nat) :
    waiters (setQueue table hdl queue) = Function.update (waiters table) hdl queue := by
  obtain ⟨found, lookup⟩ := Option.isSome_iff_exists.mp present
  funext wanted
  rw [waiters, lookup_setQueue]
  rcases eq_or_ne wanted hdl with rfl | apart
  · rw [if_pos rfl, lookup, update_self]
    rfl
  · rw [if_neg apart, update_of_ne apart]
    rfl

/-! ## Waiting -/

theorem getOrCreateQueue_spec (table : KeyedTable ZutexQueue.guestHdl) (hdl : UInt32) :
    ∃ next, getOrCreateQueue table hdl = .ok next ∧ Present next hdl ∧
      waiters next = waiters table ∧
      ∀ other, other ≠ hdl → (Present next other ↔ Present table other) := by
  cases lookup : table.lookup hdl with
  | some found =>
    refine ⟨table, ?_, present_of_lookup lookup, rfl, fun _ _ => Iff.rfl⟩
    rw [getOrCreateQueue, lookup]
  | none =>
    have absent := lookup_eq_none_iff.mp lookup
    obtain ⟨next, inserted⟩ := @exists_insert _ _ _ _ _ Fault.assertion table ⟨hdl, []⟩ absent
    have lookups := lookup_insert inserted
    refine ⟨next, ?_, ?_, ?_, ?_⟩
    · rw [getOrCreateQueue, lookup]
      exact inserted
    · rw [Present, lookups, if_pos rfl, Option.isSome_some]
    · funext other
      rw [waiters, waiters, lookups]
      rcases eq_or_ne other hdl with rfl | apart
      · rw [if_pos rfl, lookup]
      · rw [if_neg apart.symm]
    · intro other apart
      rw [Present, Present, lookups, if_neg apart.symm]

theorem enqueue_spec (ztable : ZutexTable) (waiter : Nat) (hdl : UInt32) :
    ∃ next, enqueue waiter ztable hdl = .ok next ∧
      waiters next.table = Function.update (waiters ztable.table) hdl
        (waiters ztable.table hdl ++ [waiter]) ∧
      next.zqList = Function.update ztable.zqList waiter (ztable.zqList waiter ++ [hdl]) ∧
      next.asleep = ztable.asleep ∧
      (Clean ztable.table → Clean next.table) := by
  obtain ⟨table, made, present, same, others⟩ := getOrCreateQueue_spec ztable.table hdl
  obtain ⟨found, followed, queue, -⟩ := follow_eq_ok present
  have stored : waiters (setQueue table hdl (found.push waiter).queue) =
      Function.update (waiters ztable.table) hdl (waiters ztable.table hdl ++ [waiter]) := by
    rw [waiters_setQueue present, same, ZutexQueue.push, queue, same]
  refine ⟨{ ztable with
    table := setQueue table hdl (found.push waiter).queue
    zqList := Function.update ztable.zqList waiter
      (ztable.zqList waiter ++ [hdl]) }, ?_, stored, rfl, rfl, ?_⟩
  · rw [enqueue, made, ok_bind, followed]
    rfl
  · intro clean other presentThere
    rw [stored]
    rcases eq_or_ne other hdl with rfl | apart
    · rw [update_self]
      exact append_ne_nil_of_right_ne_nil _ (cons_ne_nil _ _)
    · rw [update_of_ne apart]
      exact clean other ((others other apart).mp (present_setQueue.mp presentThere))

theorem enqueue_all_spec (ztable : ZutexTable) (waiter : Nat) (hdls : List UInt32) :
    ∃ next, hdls.foldlM (enqueue waiter) ztable = .ok next ∧
      waiters next.table = (fun hdl => waiters ztable.table hdl ++
        List.replicate (hdls.count hdl) waiter) ∧
      next.zqList = Function.update ztable.zqList waiter (ztable.zqList waiter ++ hdls) ∧
      next.asleep = ztable.asleep ∧
      (Clean ztable.table → Clean next.table) := by
  induction hdls generalizing ztable with
  | nil =>
    refine ⟨ztable, rfl, ?_, ?_, rfl, id⟩
    · simp
    · simp
  | cons hdl rest induction =>
    obtain ⟨middle, first, queues, lists, sleepers, cleanFirst⟩ := enqueue_spec ztable waiter hdl
    obtain ⟨next, later, nextQueues, nextLists, nextSleepers, cleanLater⟩ := induction middle
    refine ⟨next, ?_, ?_, ?_, nextSleepers.trans sleepers, cleanLater ∘ cleanFirst⟩
    · rw [foldlM_cons, first]
      exact later
    · rw [nextQueues, queues]
      funext other
      rcases eq_or_ne other hdl with rfl | apart
      · rw [update_self, count_cons_self, append_assoc, replicate_succ]
        rfl
      · rw [update_of_ne apart, count_cons_of_ne apart.symm]
    · rw [nextLists, lists, update_self, update_idem, append_assoc]
      rfl

/-! ## The victims -/

theorem selectVictims_eq (nWake : Nat) (zq : ZutexQueue) : selectVictims nWake zq =
      (zq.queue.take nWake, { zq with queue := zq.queue.drop nWake }) := by
  induction nWake generalizing zq with
  | zero => rfl
  | succ nWake induction =>
    rw [selectVictims, ZutexQueue.pop]
    obtain ⟨guestHdl, queue⟩ := zq
    cases queue with
    | nil => rfl
    | cons waiter rest =>
      simp only [induction]
      rfl

/-! ## Leaving the queues -/

/-- The queues that were seen empty are those that are to be deleted, except
that the queue of the woken address may not have been looked at. -/
structure Pending (zq : UInt32) (queues : UInt32 → List Nat) (cleanup : Cleanup) :
    Prop where
  same : waiters cleanup.table = queues
  empty : ∀ hdl ∈ cleanup.emptyZqSet, Present cleanup.table hdl ∧ queues hdl = []
  nodup : cleanup.emptyZqSet.Nodup
  noted : ∀ hdl, Present cleanup.table hdl → queues hdl = [] →
    hdl ∈ cleanup.emptyZqSet ∨ hdl = zq

/-- The queues after a waiter has left one of them. -/
def without (zq : UInt32) (waiter : Nat) (queues : UInt32 → List Nat)
    (wq : UInt32) : UInt32 → List Nat :=
  if wq = zq then queues else Function.update queues wq ((queues wq).erase waiter)

theorem without_self (zq : UInt32) (waiter : Nat) (queues : UInt32 → List Nat) (wq : UInt32) :
    without zq waiter queues wq wq =
      if wq = zq then queues wq else (queues wq).erase waiter := by
  rw [without]
  split
  · rfl
  · rw [update_self]

variable {wq : UInt32}

theorem without_other (zq : UInt32) (waiter : Nat) (queues : UInt32 → List Nat) {other : UInt32}
    (apart : other ≠ wq) : without zq waiter queues wq other = queues other := by
  rw [without]
  split
  · rfl
  · rw [update_of_ne apart]

theorem mem_noteEmpty {left : ZutexQueue} {noted : UInt32} {emptyZqSet : List UInt32} :
    noted ∈ noteEmpty left hdl emptyZqSet ↔
      noted ∈ emptyZqSet ∨ noted = hdl ∧ left.isEmpty = true := by
  rw [noteEmpty]
  by_cases known : hdl ∈ emptyZqSet
  · simp only [contains_iff_mem.mpr known, Bool.not_true, Bool.and_false,
      Bool.false_eq_true, if_false]
    constructor
    · exact .inl
    · rintro (before | ⟨rfl, -⟩)
      · exact before
      · exact known
  · by_cases isEmpty : left.isEmpty = true
    · simp [known, isEmpty, or_comm]
    · simp [isEmpty]

theorem nodup_noteEmpty {left : ZutexQueue} {emptyZqSet : List UInt32} (nodup : emptyZqSet.Nodup) :
    (noteEmpty left hdl emptyZqSet).Nodup := by
  rw [noteEmpty]
  split
  · rename_i fresh
    simp only [Bool.and_eq_true, Bool.not_eq_true', contains_eq_mem,
      decide_eq_false_iff_not] at fresh
    exact nodup_cons.mpr ⟨fresh.2, nodup⟩
  · exact nodup

variable {queues : UInt32 → List Nat}

/-- A victim is not removed from the queue of the woken address. -/
theorem foldl_without_own (wqs : List UInt32) :
    wqs.foldl (without zq waiter) queues zq = queues zq := by
  induction wqs generalizing queues with
  | nil => rfl
  | cons wq rest induction =>
    rw [foldl_cons, induction, without]
    split
    · rfl
    · rename_i apart
      rw [update_of_ne (Ne.symm apart)]

/-- What the loop over the queues of a victim does in one round. -/
structure Left (zq : UInt32) (before after : Cleanup) (queues : UInt32 → List Nat)
    (own : Prop) : Prop where
  pending : Pending zq queues after
  present : ∀ hdl, Present after.table hdl ↔ Present before.table hdl
  grows : before.emptyZqSet ⊆ after.emptyZqSet
  own : own → queues zq = [] → zq ∈ after.emptyZqSet

theorem removeElsewhere_spec
    (same : found.queue = queues wq) (member : wq ≠ zq → waiter ∈ queues wq) :
    ∃ left, removeElsewhere zq wq found waiter = .ok left ∧
      left.queue = without zq waiter queues wq wq := by
  rw [removeElsewhere, without_self]
  by_cases own : wq = zq
  · rw [if_pos own, if_pos own]
    exact ⟨found, rfl, same⟩
  · rw [if_neg own, if_neg own, ZutexQueue.remove, ensure_true (same ▸ member own)]
    exact ⟨_, rfl, congrArg (List.erase · waiter) same⟩

theorem leaveQueue_spec {cleanup : Cleanup}
    (pending : Pending zq queues cleanup) (present : Present cleanup.table wq)
    (member : wq ≠ zq → waiter ∈ queues wq) :
    ∃ next, leaveQueue zq waiter cleanup wq = .ok next ∧
      Left zq cleanup next (without zq waiter queues wq) (wq = zq) := by
  obtain ⟨found, followed, foundQueue, -⟩ := follow_eq_ok present
  rw [pending.same] at foundQueue
  obtain ⟨left, removing, leftQueue⟩ := removeElsewhere_spec foundQueue member
  have stored : waiters (setQueue cleanup.table wq left.queue) = without zq waiter queues wq := by
    rw [waiters_setQueue present, pending.same, leftQueue]
    funext other
    rcases eq_or_ne other wq with rfl | apart
    · rw [update_self]
    · rw [update_of_ne apart, without_other zq waiter queues apart]
  -- a queue that was seen empty has nothing to remove
  have stillEmpty : ∀ hdl ∈ cleanup.emptyZqSet, without zq waiter queues wq hdl = [] := by
    intro hdl noted
    have emptied := (pending.empty hdl noted).2
    rcases eq_or_ne hdl wq with rfl | apart
    · rw [without_self, emptied, erase_nil, ite_self]
    · rw [without_other zq waiter queues apart, emptied]
  have emptied : left.isEmpty = true ↔ without zq waiter queues wq wq = [] := by
    rw [ZutexQueue.isEmpty, List.isEmpty_iff, leftQueue]
  refine ⟨⟨setQueue cleanup.table wq left.queue,
    noteEmpty left wq cleanup.emptyZqSet⟩, ?_, ⟨stored, ?_, ?_, ?_⟩,
    fun _ => present_setQueue, fun hdl noted => mem_noteEmpty.mpr (.inl noted), ?_⟩
  · rw [leaveQueue, followed, ok_bind, removing]
    rfl
  · intro hdl noted
    rcases mem_noteEmpty.mp noted with before | ⟨rfl, isEmpty⟩
    · exact ⟨present_setQueue.mpr (pending.empty hdl before).1, stillEmpty hdl before⟩
    · exact ⟨present_setQueue.mpr present, emptied.mp isEmpty⟩
  · exact nodup_noteEmpty pending.nodup
  · intro hdl presentThere nothing
    rcases eq_or_ne hdl wq with rfl | apart
    · exact .inl (mem_noteEmpty.mpr (.inr ⟨rfl, emptied.mpr nothing⟩))
    · rw [without_other zq waiter queues apart] at nothing
      rcases pending.noted hdl (present_setQueue.mp presentThere) nothing with
        before | own
      · exact .inl (mem_noteEmpty.mpr (.inl before))
      · exact .inr own
  · rintro rfl nothing
    exact mem_noteEmpty.mpr (.inr ⟨rfl, emptied.mpr nothing⟩)

theorem leaveQueues_spec {cleanup : Cleanup} (wqs : List UInt32)
    (pending : Pending zq queues cleanup) (present : Present cleanup.table zq)
    (counts : ∀ wq, wq ≠ zq → wqs.count wq ≤ (queues wq).count waiter) :
    ∃ next, wqs.foldlM (leaveQueue zq waiter) cleanup = .ok next ∧
      Left zq cleanup next (wqs.foldl (without zq waiter) queues) (zq ∈ wqs) := by
  induction wqs generalizing queues cleanup with
  | nil =>
    exact ⟨cleanup, rfl, pending, fun _ => Iff.rfl, List.Subset.refl _,
      fun absurd => nomatch absurd⟩
  | cons wq rest induction =>
    have member : wq ≠ zq → waiter ∈ queues wq := by
      intro apart
      have enough := counts wq apart
      rw [count_cons_self] at enough
      exact count_pos_iff.mp (Nat.lt_of_lt_of_le (Nat.succ_pos _) enough)
    have there : Present cleanup.table wq := by
      by_cases own : wq = zq
      · exact own ▸ present
      · apply present_of_waiters
        rw [pending.same]
        exact ne_nil_of_mem (member own)
    obtain ⟨middle, first, left⟩ := leaveQueue_spec pending there member
    have countsLater : ∀ other, other ≠ zq →
        rest.count other ≤ (without zq waiter queues wq other).count waiter := by
      intro other apart
      have enough := counts other apart
      rcases eq_or_ne other wq with rfl | elsewhere
      · rw [count_cons_self] at enough
        rw [without_self, if_neg apart, count_erase_self]
        exact Nat.le_sub_one_of_lt enough
      · rw [count_cons_of_ne elsewhere.symm] at enough
        rwa [without_other zq waiter queues elsewhere]
    obtain ⟨next, later, done⟩ := induction left.pending ((left.present zq).mpr present) countsLater
    refine ⟨next, ?_, done.pending, ?_, ?_, ?_⟩
    · rw [foldlM_cons, first]
      exact later
    · exact fun hdl => (done.present hdl).trans (left.present hdl)
    · exact List.Subset.trans left.grows done.grows
    · intro own nothing
      rcases mem_cons.mp own with rfl | inRest
      · -- the first round notes the queue of the woken address
        have still : (rest.foldl (without zq waiter) (without zq waiter queues zq)) zq =
            without zq waiter queues zq zq :=
          foldl_without_own rest
        exact done.grows (left.own rfl (still ▸ nothing))
      · exact done.own inRest nothing

theorem filter_erase_self (waiter : Nat) (queue : List Nat) :
    (queue.erase waiter).filter (· ≠ waiter) = queue.filter (· ≠ waiter) := by
  induction queue with
  | nil => rfl
  | cons head rest induction =>
    rw [erase_cons]
    by_cases same : head = waiter
    · simp [same]
    · simp only [beq_iff_eq, same, if_false, filter_cons, induction]

/-- A victim that leaves as often as it stands in a queue is gone from it. -/
theorem foldl_without_all {other : UInt32} (apart : other ≠ zq)
    (wqs : List UInt32) (counts : wqs.count other = (queues other).count waiter) :
    wqs.foldl (without zq waiter) queues other = (queues other).filter (· ≠ waiter) := by
  induction wqs generalizing queues with
  | nil =>
    symm
    rw [foldl_nil, filter_eq_self]
    intro found member
    have absent := count_eq_zero.mp counts.symm
    exact decide_eq_true fun same => absent (same ▸ member)
  | cons wq rest induction =>
    rw [foldl_cons]
    rcases eq_or_ne other wq with rfl | elsewhere
    · rw [count_cons_self] at counts
      have later : rest.count other = (without zq waiter queues other other).count waiter := by
        rw [without_self, if_neg apart, count_erase_self, ← counts]
        rfl
      rw [induction later, without_self, if_neg apart, filter_erase_self]
    · rw [count_cons_of_ne elsewhere.symm] at counts
      have same := without_other zq waiter queues elsewhere
      rw [induction (by rw [same, counts]), same]

/-! ## Waking the victims -/

/-- The queues after victims have left all but the woken queue. -/
def cleared (zq : UInt32) (victims : List Nat) (queues : UInt32 → List Nat)
    (hdl : UInt32) : List Nat :=
  if hdl = zq then queues hdl
  else (queues hdl).filter fun waiter => !victims.contains waiter

/-- What the loop over the victims does. -/
structure Woken (zq : UInt32) (victims : List Nat) (queues : UInt32 → List Nat)
    (before after : ZutexTable × List UInt32) : Prop where
  pending : Pending zq (cleared zq victims queues) ⟨after.1.table, after.2⟩
  zqList : ∀ waiter, after.1.zqList waiter =
    if waiter ∈ victims then [] else before.1.zqList waiter
  asleep : ∀ waiter, after.1.asleep waiter =
    if waiter ∈ victims then false else before.1.asleep waiter
  grows : before.2 ⊆ after.2
  own : (∃ waiter ∈ victims, zq ∈ before.1.zqList waiter) → queues zq = [] →
    zq ∈ after.2

/-- Each victim remembers the other queues as often as it stands in them. -/
def Remembers (zq : UInt32) (victims : List Nat) (queues : UInt32 → List Nat)
    (zqList : Nat → List UInt32) : Prop :=
  ∀ waiter ∈ victims, ∀ wq, wq ≠ zq →
    (zqList waiter).count wq = (queues wq).count waiter

theorem wakeVictim_spec {state : ZutexTable × List UInt32}
    (pending : Pending zq queues ⟨state.1.table, state.2⟩)
    (present : Present state.1.table zq)
    (remembers : Remembers zq [waiter] queues state.1.zqList) :
    ∃ next, wakeVictim zq state waiter = .ok next ∧
      Woken zq [waiter] queues state next ∧ Present next.1.table zq := by
  have counts := remembers waiter mem_cons_self
  obtain ⟨cleanup, left, done⟩ := leaveQueues_spec (state.1.zqList waiter) pending
    present fun wq apart => Nat.le_of_eq (counts wq apart)
  have queuesAfter : (state.1.zqList waiter).foldl (without zq waiter) queues =
      cleared zq [waiter] queues := by
    funext wq
    rw [cleared]
    by_cases own : wq = zq
    · rw [if_pos own, own, foldl_without_own]
    · rw [if_neg own, foldl_without_all own _ (counts wq own)]
      congr 1
      funext other
      simp
  refine ⟨({
      table := cleanup.table
      zqList := Function.update state.1.zqList waiter []
      asleep := Function.update state.1.asleep waiter false },
    cleanup.emptyZqSet), ?_, ⟨?_, ?_, ?_, done.grows, ?_⟩, (done.present zq).mpr present⟩
  · rw [wakeVictim, left]
    rfl
  · rw [← queuesAfter]
    exact done.pending
  · intro other
    simp only [mem_singleton, update_apply]
  · intro other
    simp only [mem_singleton, update_apply]
  · rintro ⟨other, isVictim, own⟩ nothing
    obtain rfl := mem_singleton.mp isVictim
    exact done.own own ((foldl_without_own _).trans nothing)

theorem wakeAll_spec {queues : UInt32 → List Nat} {state : ZutexTable × List UInt32}
    (victims : List Nat) (pending : Pending zq queues ⟨state.1.table, state.2⟩)
    (present : Present state.1.table zq)
    (remembers : Remembers zq victims queues state.1.zqList) :
    ∃ next, victims.foldlM (wakeVictim zq) state = .ok next ∧
      Woken zq victims queues state next := by
  induction victims generalizing queues state with
  | nil =>
    have same : cleared zq [] queues = queues := by
      funext wq
      simp [cleared]
    refine ⟨state, rfl, ?_, fun _ => rfl, fun _ => rfl, List.Subset.refl _, ?_⟩
    · rw [same]
      exact pending
    · rintro ⟨waiter, absurd, -⟩
      cases absurd
  | cons victim rest induction =>
    have first : Remembers zq [victim] queues state.1.zqList := by
      intro waiter isVictim
      obtain rfl := mem_singleton.mp isVictim
      exact remembers waiter mem_cons_self
    obtain ⟨middle, waking, woken, presentLater⟩ := wakeVictim_spec pending present first
    have later : Remembers zq rest (cleared zq [victim] queues) middle.1.zqList := by
      intro waiter inRest wq apart
      rw [woken.zqList, cleared, if_neg apart]
      by_cases same : waiter = victim
      · subst same
        rw [if_pos mem_cons_self, count_nil, eq_comm, count_eq_zero, List.mem_filter]
        simp
      · rw [if_neg (by simpa using same), remembers waiter (mem_cons_of_mem _ inRest) wq apart,
          count_filter (by simpa using same)]
    obtain ⟨next, waking', wokenLater⟩ := induction woken.pending presentLater later
    have queuesAfter : cleared zq rest (cleared zq [victim] queues) =
        cleared zq (victim :: rest) queues := by
      funext wq
      rw [cleared, cleared, cleared]
      by_cases own : wq = zq
      · rw [if_pos own, if_pos own, if_pos own]
      · rw [if_neg own, if_neg own, if_neg own, filter_filter]
        congr 1
        funext waiter
        simp [Bool.and_comm]
    refine ⟨next, ?_, ?_, ?_, ?_, List.Subset.trans woken.grows wokenLater.grows, ?_⟩
    · rw [foldlM_cons, waking]
      exact waking'
    · rw [← queuesAfter]
      exact wokenLater.pending
    · intro waiter
      rw [wokenLater.zqList, woken.zqList]
      by_cases inRest : waiter ∈ rest
      · rw [if_pos inRest, if_pos (mem_cons_of_mem _ inRest)]
      · simp [inRest]
    · intro waiter
      rw [wokenLater.asleep, woken.asleep]
      by_cases inRest : waiter ∈ rest
      · rw [if_pos inRest, if_pos (mem_cons_of_mem _ inRest)]
      · simp [inRest]
    · rintro ⟨waiter, isVictim, own⟩ nothing
      have still : cleared zq [victim] queues zq = [] := by
        rw [cleared, if_pos rfl, nothing]
      by_cases same : waiter = victim
      · exact wokenLater.grows (woken.own ⟨waiter, by simpa using same, own⟩ nothing)
      · have inRest : waiter ∈ rest := by simpa [same] using isVictim
        refine wokenLater.own ⟨waiter, inRest, ?_⟩ still
        rwa [woken.zqList, if_neg (by simpa using same)]

/-! ## Deleting the empty queues -/

theorem freeZq_spec (present : Present table hdl) (nothing : waiters table hdl = []) :
    ∃ next, freeZq table hdl = .ok next ∧ ∀ other, next.lookup other =
        if other = hdl then none else table.lookup other := by
  obtain ⟨found, followed, queue, lookup⟩ := follow_eq_ok present
  obtain ⟨next, removed⟩ := @exists_remove _ _ _ _ _ Fault.assertion table hdl present
  refine ⟨next, ?_, lookup_remove removed⟩
  have isEmpty : found.isEmpty = true := by
    rw [ZutexQueue.isEmpty, queue, nothing]
    rfl
  rw [freeZq, followed, ok_bind, ensure_true isEmpty, ok_bind]
  exact removed

theorem freeAll_spec (hdls : List UInt32) (nodup : hdls.Nodup)
    (empty : ∀ hdl ∈ hdls, Present table hdl ∧ waiters table hdl = []) :
    ∃ next, hdls.foldlM freeZq table = .ok next ∧ ∀ other, next.lookup other =
        if other ∈ hdls then none else table.lookup other := by
  induction hdls generalizing table with
  | nil => exact ⟨table, rfl, fun _ => rfl⟩
  | cons hdl rest induction =>
    obtain ⟨fresh, nodupRest⟩ := nodup_cons.mp nodup
    obtain ⟨present, nothing⟩ := empty hdl mem_cons_self
    obtain ⟨middle, first, lookups⟩ := freeZq_spec present nothing
    have emptyLater : ∀ other ∈ rest, Present middle other ∧ waiters middle other = [] := by
      intro other inRest
      have apart : other ≠ hdl := fun same => fresh (same ▸ inRest)
      have before := empty other (mem_cons_of_mem _ inRest)
      rwa [Present, waiters, lookups, if_neg apart]
    obtain ⟨next, later, lookupsLater⟩ := induction nodupRest emptyLater
    refine ⟨next, ?_, ?_⟩
    · rw [foldlM_cons, first]
      exact later
    · intro other
      rw [lookupsLater, lookups]
      by_cases inRest : other ∈ rest
      · rw [if_pos inRest, if_pos (mem_cons_of_mem _ inRest)]
      · simp [inRest]

end Embassies.Kvm.ZutexTable
