import Mathlib.Data.List.Basic
import Mathlib.Logic.Function.Basic

/-!
# The pool of VCPUs

`VCPUPool` hands out kvm VCPUs, which can be created but never destroyed.  A thread
that finds no VCPU resets the event `vcpu_freed_event`, leaves the lock and waits for
the event.  A thread that frees a VCPU signals the event only if the list of free VCPUs
was empty.

What a thread does under the lock is one step.  The event is a manual-reset event: it
stays set until it is reset, and a thread that waits for it goes on when it is set.
-/

namespace Embassies.Kvm

open List Function

/-- `VCPUPool`; an allocation is named by the number it was created with. -/
structure VCPUPool where
  freeList : List Nat
  vcpuFreedEvent : Bool
  allVcpusUsed : Bool
  nextFreeVcpuIdent : Nat

namespace VCPUPool

/-- The constructor. -/
def new : VCPUPool := ⟨[], false, false, 0⟩

/-- The branch of `allocate` that waits, up to the call of `unlock`. -/
def prepareWait (pool : VCPUPool) : Option Nat × VCPUPool :=
  (none, { pool with vcpuFreedEvent := false })

/-- The loop of `allocate` from a call of `lock` to the next call of `unlock`; the host
says which VCPUs it creates. -/
def allocate (creates : Nat → Bool) (pool : VCPUPool) : Option Nat × VCPUPool :=
  match pool.freeList with
  | vcpu :: rest => (some vcpu, { pool with freeList := rest })
  | [] =>
    if pool.allVcpusUsed then pool.prepareWait
    else if creates pool.nextFreeVcpuIdent then
      (some pool.nextFreeVcpuIdent,
        { pool with nextFreeVcpuIdent := pool.nextFreeVcpuIdent + 1 })
    else
      -- the loop goes around once more, with an empty list
      { pool with allVcpusUsed := true }.prepareWait

/-- `free`. -/
def free (pool : VCPUPool) (vcpu : Nat) : VCPUPool :=
  let needWake := pool.freeList.length = 0
  { pool with
    freeList := vcpu :: pool.freeList
    vcpuFreedEvent := needWake || pool.vcpuFreedEvent }

end VCPUPool

/-! ## Threads -/

/-- Where a thread is. -/
inductive PoolThread where
  | running
  /-- It has called `wait`. -/
  | waiting
  /-- Its `wait` has returned, and it is about to lock. -/
  | woken
deriving DecidableEq

/-- A pool with the threads that use it. -/
structure PoolSystem (τ : Type) where
  pool : VCPUPool
  thread : τ → PoolThread
  /-- The allocations that a thread got and has not freed. -/
  held : τ → List Nat

/-- What a thread can do. -/
inductive PoolAction (τ : Type) where
  | allocate (caller : τ)
  | wake (caller : τ)
  | retry (caller : τ)
  | free (caller : τ) (vcpu : Nat)

namespace PoolSystem

variable {τ : Type} [DecidableEq τ]

/-- Before the first call. -/
def new : PoolSystem τ := ⟨.new, fun _ => .running, fun _ => []⟩

/-- A thread runs through the loop of `allocate`. -/
def enter (creates : Nat → Bool) (system : PoolSystem τ) (caller : τ) : PoolSystem τ :=
  match system.pool.allocate creates with
  | (some vcpu, pool) =>
    { pool
      thread := Function.update system.thread caller .running
      held := Function.update system.held caller (vcpu :: system.held caller) }
  | (none, pool) =>
    { system with pool, thread := Function.update system.thread caller .waiting }

/-- One step; none if the thread cannot take it. -/
def step (creates : Nat → Bool) (system : PoolSystem τ) :
    PoolAction τ → Option (PoolSystem τ)
  | .allocate caller =>
    if system.thread caller = .running then some (system.enter creates caller) else none
  | .wake caller =>
    if system.thread caller = .waiting ∧ system.pool.vcpuFreedEvent then
      some { system with thread := Function.update system.thread caller .woken }
    else none
  | .retry caller =>
    if system.thread caller = .woken then some (system.enter creates caller) else none
  | .free caller vcpu =>
    if system.thread caller = .running ∧ vcpu ∈ system.held caller then
      some { system with
        pool := system.pool.free vcpu
        held := Function.update system.held caller ((system.held caller).erase vcpu) }
    else none

/-- A sequence of steps. -/
def run (creates : Nat → Bool) (system : PoolSystem τ) (actions : List (PoolAction τ)) :
    Option (PoolSystem τ) :=
  actions.foldlM (step creates) system

/-- The states that the threads can bring about. -/
def Reachable (creates : Nat → Bool) (system : PoolSystem τ) : Prop :=
  ∃ actions, new.run creates actions = some system

/-! ## The invariant -/

/-- What holds between the calls: the allocations on the list and those of the threads
are all different and were created, and the event is set while the list is not empty. -/
structure Sound (system : PoolSystem τ) : Prop where
  freeNodup : system.pool.freeList.Nodup
  heldNodup : ∀ thread, (system.held thread).Nodup
  heldApart : ∀ thread other vcpu, vcpu ∈ system.held thread →
    vcpu ∈ system.held other → thread = other
  notFree : ∀ thread vcpu, vcpu ∈ system.held thread → vcpu ∉ system.pool.freeList
  freeCreated : ∀ vcpu ∈ system.pool.freeList, vcpu < system.pool.nextFreeVcpuIdent
  heldCreated : ∀ thread, ∀ vcpu ∈ system.held thread,
    vcpu < system.pool.nextFreeVcpuIdent
  signalled : system.pool.freeList ≠ [] → system.pool.vcpuFreedEvent = true

variable {creates : Nat → Bool} {system after : PoolSystem τ} {caller : τ} {vcpu : Nat}

theorem allocate_cases (creates : Nat → Bool) (pool : VCPUPool) :
    (∃ vcpu rest, pool.freeList = vcpu :: rest ∧
      pool.allocate creates = (some vcpu, { pool with freeList := rest })) ∨
    (pool.freeList = [] ∧ pool.allocate creates = (some pool.nextFreeVcpuIdent,
      { pool with nextFreeVcpuIdent := pool.nextFreeVcpuIdent + 1 })) ∨
    (pool.freeList = [] ∧ ∃ used, pool.allocate creates =
      (none, { pool with vcpuFreedEvent := false, allVcpusUsed := used })) := by
  cases free : pool.freeList with
  | cons vcpu rest =>
    refine .inl ⟨vcpu, rest, rfl, ?_⟩
    simp only [VCPUPool.allocate, free]
  | nil =>
    refine .inr ?_
    simp only [VCPUPool.allocate, free, VCPUPool.prepareWait]
    split
    · exact .inr ⟨trivial, _, rfl⟩
    · split
      · exact .inl ⟨trivial, rfl⟩
      · exact .inr ⟨trivial, _, rfl⟩

theorem Sound.take (sound : system.Sound) {pool : VCPUPool}
    (free : pool.freeList.Sublist system.pool.freeList)
    (created : system.pool.nextFreeVcpuIdent ≤ pool.nextFreeVcpuIdent)
    (fresh : ∀ thread, vcpu ∉ system.held thread)
    (gone : vcpu ∉ pool.freeList) (below : vcpu < pool.nextFreeVcpuIdent)
    (event : pool.vcpuFreedEvent = system.pool.vcpuFreedEvent) (state : τ → PoolThread) :
    Sound ⟨pool, state, update system.held caller (vcpu :: system.held caller)⟩ := by
  have held : ∀ thread other,
      other ∈ update system.held caller (vcpu :: system.held caller) thread ↔
        (other = vcpu ∧ thread = caller) ∨ other ∈ system.held thread := by
    intro thread other
    rcases eq_or_ne thread caller with rfl | apart
    · simp
    · simp [apart]
  refine ⟨sound.freeNodup.sublist free, ?_, ?_, ?_, ?_, ?_, ?_⟩
  · intro thread
    change (update system.held caller (vcpu :: system.held caller) thread).Nodup
    rcases eq_or_ne thread caller with rfl | apart
    · rw [update_self]
      exact nodup_cons.mpr ⟨fresh thread, sound.heldNodup thread⟩
    · rw [update_of_ne apart]
      exact sound.heldNodup thread
  · intro thread other owned first second
    rw [held] at first second
    rcases first with ⟨rfl, rfl⟩ | first
    · rcases second with ⟨-, rfl⟩ | second
      · rfl
      · exact absurd second (fresh other)
    · rcases second with ⟨rfl, rfl⟩ | second
      · exact absurd first (fresh thread)
      · exact sound.heldApart thread other owned first second
  · intro thread other member
    rcases (held thread other).mp member with ⟨rfl, -⟩ | member
    · exact gone
    · exact fun listed => sound.notFree thread other member (free.subset listed)
  · intro other listed
    exact Nat.lt_of_lt_of_le (sound.freeCreated other (free.subset listed)) created
  · intro thread other member
    rcases (held thread other).mp member with ⟨rfl, -⟩ | member
    · exact below
    · exact Nat.lt_of_lt_of_le (sound.heldCreated thread other member) created
  · intro some
    rw [event]
    apply sound.signalled
    intro empty
    rw [empty] at free
    exact some (sublist_nil.mp free)

theorem Sound.enter (sound : system.Sound) : (system.enter creates caller).Sound := by
  rw [PoolSystem.enter]
  rcases allocate_cases creates system.pool with
    ⟨vcpu, rest, free, taken⟩ | ⟨-, made⟩ | ⟨empty, used, waits⟩
  · rw [taken]
    have listed : vcpu ∈ system.pool.freeList := by
      rw [free]
      exact mem_cons_self
    have nodup := sound.freeNodup
    rw [free, nodup_cons] at nodup
    apply sound.take
    · rw [free]
      exact sublist_cons_self vcpu rest
    · exact Nat.le_refl _
    · exact fun thread member => sound.notFree thread vcpu member listed
    · exact nodup.1
    · exact sound.freeCreated vcpu listed
    · rfl
  · rw [made]
    apply sound.take
    · exact List.Sublist.refl _
    · exact Nat.le_succ _
    · exact fun thread member =>
        absurd (sound.heldCreated thread _ member) (Nat.lt_irrefl _)
    · exact fun listed => absurd (sound.freeCreated _ listed) (Nat.lt_irrefl _)
    · exact Nat.lt_succ_self _
    · rfl
  · rw [waits]
    exact ⟨sound.freeNodup, sound.heldNodup, sound.heldApart, sound.notFree,
      sound.freeCreated, sound.heldCreated, fun some => absurd empty some⟩

theorem Sound.free (sound : system.Sound) (owned : vcpu ∈ system.held caller) : Sound { system with
      pool := system.pool.free vcpu
      held := update system.held caller ((system.held caller).erase vcpu) } := by
  have held : ∀ thread other,
      other ∈ update system.held caller ((system.held caller).erase vcpu) thread ↔
        other ≠ vcpu ∧ other ∈ system.held thread := by
    intro thread other
    rcases eq_or_ne thread caller with rfl | apart
    · rw [update_self, (sound.heldNodup thread).mem_erase_iff]
    · rw [update_of_ne apart]
      refine ⟨fun member => ⟨?_, member⟩, And.right⟩
      rintro rfl
      exact apart (sound.heldApart thread caller other member owned)
  refine ⟨?_, ?_, ?_, ?_, ?_, ?_, ?_⟩
  · exact nodup_cons.mpr ⟨sound.notFree caller vcpu owned, sound.freeNodup⟩
  · intro thread
    change (update system.held caller ((system.held caller).erase vcpu) thread).Nodup
    rcases eq_or_ne thread caller with rfl | apart
    · rw [update_self]
      exact (sound.heldNodup thread).erase vcpu
    · rw [update_of_ne apart]
      exact sound.heldNodup thread
  · intro thread other owned first second
    exact sound.heldApart thread other owned ((held thread owned).mp first).2
      ((held other owned).mp second).2
  · intro thread other member listed
    obtain ⟨apart, member⟩ := (held thread other).mp member
    rcases mem_cons.mp listed with same | listed
    · exact apart same
    · exact sound.notFree thread other member listed
  · intro other listed
    rcases mem_cons.mp listed with rfl | listed
    · exact sound.heldCreated caller other owned
    · exact sound.freeCreated other listed
  · intro thread other member
    exact sound.heldCreated thread other ((held thread other).mp member).2
  · intro _
    -- a list that was not empty had the event set already
    change (decide _ || system.pool.vcpuFreedEvent) = true
    rw [Bool.or_eq_true, decide_eq_true_iff, length_eq_zero_iff]
    exact (Classical.em _).imp_right sound.signalled

theorem Sound.step {action : PoolAction τ} (sound : system.Sound)
    (stepped : system.step creates action = some after) : after.Sound := by
  cases action with
  | wake caller =>
    obtain ⟨-, ⟨⟩⟩ := Option.ite_none_right_eq_some.mp stepped
    exact ⟨sound.freeNodup, sound.heldNodup, sound.heldApart, sound.notFree,
      sound.freeCreated, sound.heldCreated, sound.signalled⟩
  | allocate caller | retry caller =>
    obtain ⟨-, ⟨⟩⟩ := Option.ite_none_right_eq_some.mp stepped
    exact sound.enter
  | free caller vcpu =>
    obtain ⟨⟨-, owned⟩, ⟨⟩⟩ := Option.ite_none_right_eq_some.mp stepped
    exact sound.free owned

theorem Sound.run {actions : List (PoolAction τ)} (sound : system.Sound)
    (ran : system.run creates actions = some after) : after.Sound := by
  induction actions generalizing system with
  | nil =>
    cases ran
    exact sound
  | cons action actions induction =>
    obtain ⟨next, stepped, rest⟩ := Option.bind_eq_some_iff.mp ran
    exact induction (sound.step stepped) rest

omit [DecidableEq τ] in
theorem sound_new : (new : PoolSystem τ).Sound :=
  ⟨List.nodup_nil, fun _ => List.nodup_nil, nofun, nofun, nofun, nofun, fun some => absurd rfl some⟩

/-! ## Waiters -/

/-- A thread is blocked in `wait`. -/
def Asleep (system : PoolSystem τ) (caller : τ) : Prop :=
  system.thread caller = .waiting ∧ system.pool.vcpuFreedEvent = false

theorem retry_of_free (woken : system.thread caller = .woken) (free : system.pool.freeList ≠ []) :
    ∃ vcpu after, vcpu ∈ system.pool.freeList ∧ system.step creates (.retry caller) = some after ∧
      after.thread caller = .running ∧ vcpu ∈ after.held caller := by
  obtain ⟨vcpu, rest, listed⟩ := exists_cons_of_ne_nil free
  refine ⟨vcpu, _, ?_, if_pos woken, ?_, ?_⟩
  · rw [listed]
    exact mem_cons_self
  · simp only [enter, VCPUPool.allocate, listed, update_self]
  · simp only [enter, VCPUPool.allocate, listed, update_self]
    exact mem_cons_self

/-- The pool never strands a waiter: no VCPU has two owners, and while a VCPU is free
nobody who waits for one is asleep. -/
theorem waiters_not_stranded (creates : Nat → Bool) (system : PoolSystem τ)
    (reachable : Reachable creates system) :
    (∀ thread other vcpu, vcpu ∈ system.held thread → vcpu ∈ system.held other → thread = other) ∧
    (∀ thread, (system.held thread).Nodup) ∧
    (∀ thread vcpu, vcpu ∈ system.held thread → vcpu ∉ system.pool.freeList) ∧
    (system.pool.freeList ≠ [] →
      (system.pool.vcpuFreedEvent = true ∨ ∀ thread, system.thread thread ≠ .waiting) ∧
      ∀ thread, ¬system.Asleep thread ∧ (system.thread thread = .waiting →
          ∃ woken, system.step creates (.wake thread) = some woken ∧
            ∃ vcpu after, woken.step creates (.retry thread) = some after ∧
              after.thread thread = .running ∧ vcpu ∈ after.held thread)) := by
  obtain ⟨actions, ran⟩ := reachable
  have sound := sound_new.run ran
  refine ⟨sound.heldApart, sound.heldNodup, sound.notFree, fun free => ?_⟩
  have set := sound.signalled free
  refine ⟨.inl set, fun thread => ⟨?_, fun waits => ?_⟩⟩
  · rintro ⟨-, reset⟩
    rw [set] at reset
    exact Bool.noConfusion reset
  · refine ⟨_, if_pos ⟨waits, set⟩, ?_⟩
    obtain ⟨vcpu, after, -, stepped, running, owned⟩ := @retry_of_free τ _ creates
      { system with thread := Function.update system.thread thread .woken } thread
      (update_self _ _ _) free
    exact ⟨vcpu, after, stepped, running, owned⟩

/-- Of two threads that share the only VCPU, one waits until the other frees it. -/
theorem waiters_not_stranded_two : ∃ system : PoolSystem Bool, new.run (fun ident => ident = 0)
        [.allocate false, .allocate true, .free false 0] = some system ∧
      system.pool.freeList = [0] ∧ system.thread true = PoolThread.waiting ∧
      ¬system.Asleep true := by
  refine ⟨_, rfl, rfl, rfl, ?_⟩
  exact ((waiters_not_stranded (fun ident => ident = 0) _
    ⟨[.allocate false, .allocate true, .free false 0], rfl⟩).2.2.2 (cons_ne_nil 0 [])).2 true |>.1

end PoolSystem

end Embassies.Kvm
