import Mathlib.Data.UInt
import Mathlib.Logic.Function.Basic
import Mathlib.Logic.Relation

/-!
# The mutex of `zutex_sync`

The word of a `ZMutex` is 0 when the mutex is free, 1 when it is taken, and 2 when it is taken
and threads may be asleep.  A thread that finds the mutex taken marks it with 2 before it goes
to sleep, and takes it with 2 when it wakes up, since it cannot know whether others still sleep.

Each compare-and-swap, load and store of the word is one step, in any interleaving of the
threads.  What a thread does with a result on its own belongs to the step that got it.
-/

namespace Embassies.LinuxElf

open Function

/-- Where a thread is in `zmutex_lock` and `zmutex_unlock`. -/
inductive Place where
  /-- Before `zmutex_lock` or after `zmutex_unlock`. -/
  | outside
  /-- At `cmpxchg(&val, 0, 1)`. -/
  | attempt
  /-- At `cmpxchg(&val, 1, 2)`. -/
  | mark
  /-- At `zutex_wait` with the match value 2. -/
  | wait
  | asleep
  /-- At `cmpxchg(&val, 0, 2)`. -/
  | retry
  /-- Between the return of `zmutex_lock` and the call of `zmutex_unlock`. -/
  | holds
  /-- At the load of `atomic_dec`. -/
  | load
  /-- At `cmpxchg(&val, old, old - 1)` of `atomic_dec`. -/
  | decrement (old : UInt32)
  /-- At `val = 0`. -/
  | store
  /-- At the load of the match value of `zutex_wake`. -/
  | read
  /-- At `zutex_wake`. -/
  | wake
deriving DecidableEq

namespace Place

/-- Where the loop of `zmutex_lock` goes on with a word other than 0. -/
def contended (c : UInt32) : Place := if c = 2 then .wait else .mark

/-- What a thread that is neither asleep nor at `zutex_wake` does with the word, and where it
is then. -/
def step (val : UInt32) : Place → Option (UInt32 × Place)
  | .outside => some (val, .attempt)
  | .attempt => some (if val = 0 then (1, .holds) else (val, contended val))
  | .mark => some (if val = 1 then (2, .wait) else (val, if val = 0 then .retry else .wait))
  | .wait => some (val, if val = 2 then .asleep else .retry)
  | .asleep => none
  | .retry => some (if val = 0 then (2, .holds) else (val, contended val))
  | .holds => some (val, .load)
  | .load => some (val, .decrement val)
  | .decrement old =>
    some (if val = old then (old - 1, if old = 1 then .outside else .store) else (val, .load))
  | .store => some (0, .read)
  | .read => some (val, .wake)
  | .wake => none

/-- The thread took the mutex and has not given it back. -/
def Owns : Place → Prop
  | .holds | .load | .decrement _ | .store => True
  | _ => False

/-- The thread will look after the threads that are asleep. -/
def Cares : Place → Prop
  | .mark | .wait | .retry | .store | .read | .wake => True
  | _ => False

/-- The thread is running inside `zmutex_lock` or `zmutex_unlock`. -/
def Running (place : Place) : Prop := place ≠ .outside ∧ place ≠ .asleep ∧ place ≠ .holds

variable {val after : UInt32} {place next : Place}

theorem owns_iff : place.Owns ↔
    place = .holds ∨ place = .load ∨ (∃ old, place = .decrement old) ∨ place = .store := by
  unfold Owns
  cases place <;> simp

/-- The word is not 0 as long as some thread owns the mutex: a thread takes it from 0 and gives
it back with 0. -/
theorem step_owns (small : val ≤ 2) (taken : place.Owns → val ≠ 0)
    (moved : place.step val = some (after, next)) : after ≤ 2 ∧
      (next.Owns ∧ after ≠ 0 ∧ (place.Owns ∨ val = 0) ∨
        ¬next.Owns ∧ (place.Owns ∧ after = 0 ∨ ¬place.Owns ∧ (after = 0 ↔ val = 0))) := by
  have values : val = 0 ∨ val = 1 ∨ val = 2 := by grind
  simp only [owns_iff] at taken ⊢
  rcases values with rfl | rfl | rfl <;> cases place <;> grind [step, contended]

/-- A thread goes to sleep, or stops to care, only when the word is 2, and takes the 2 away
only when it cares. -/
theorem step_cares (moved : place.step val = some (after, next)) :
    (next = .asleep → after = 2) ∧ (val = 2 ∨ place.Cares → after = 2 ∨ next.Cares) := by
  cases place <;> grind [step, contended, Cares]

end Place

/-! ## Threads -/

variable {Thread : Type*}

/-- The word of a mutex, and where the threads are. -/
structure ZMutex (Thread : Type*) where
  val : UInt32
  place : Thread → Place

namespace ZMutex

/-- `zmutex_init`, before any thread uses the mutex. -/
def init : ZMutex Thread := ⟨0, fun _ => .outside⟩

/-- One step of one thread. -/
inductive Step [DecidableEq Thread] (mutex : ZMutex Thread) : ZMutex Thread → Prop where
  | own {thread : Thread} {val : UInt32} {next : Place}
      (moved : (mutex.place thread).step mutex.val = some (val, next)) :
      Step mutex ⟨val, Function.update mutex.place thread next⟩
  | wakesOne {thread sleeper : Thread} (waking : mutex.place thread = .wake)
      (asleep : mutex.place sleeper = .asleep) :
      Step mutex ⟨mutex.val, Function.update (Function.update mutex.place thread .outside)
        sleeper .retry⟩
  | wakesNone {thread : Thread} (waking : mutex.place thread = .wake)
      (none : ∀ other, mutex.place other ≠ .asleep) :
      Step mutex ⟨mutex.val, Function.update mutex.place thread .outside⟩

/-- What holds in every state. -/
structure Sound (mutex : ZMutex Thread) : Prop where
  small : mutex.val ≤ 2
  taken : (∃ thread, (mutex.place thread).Owns) ↔ mutex.val ≠ 0
  unique : ∀ thread other, (mutex.place thread).Owns → (mutex.place other).Owns → thread = other
  guarded : ∀ sleeper, mutex.place sleeper = .asleep →
    mutex.val = 2 ∨ ∃ thread, (mutex.place thread).Cares

variable {mutex next : ZMutex Thread}

theorem init_sound : (init : ZMutex Thread).Sound where
  small := show (0 : UInt32) ≤ 2 by decide
  taken := ⟨fun ⟨_, owns⟩ => owns.elim, fun absurd => (absurd rfl).elim⟩
  unique _ _ owns := owns.elim
  guarded _ asleep := nomatch asleep

variable [DecidableEq Thread]

theorem Sound.step (sound : mutex.Sound) (step : Step mutex next) : next.Sound := by
  obtain ⟨small, taken, unique, guarded⟩ := sound
  cases step with
  | @own thread val place moved =>
    have owner := Place.step_owns small (fun owns => taken.mp ⟨thread, owns⟩) moved
    have cares := Place.step_cares moved
    refine ⟨owner.1, ?_, ?_, ?_⟩
    · rw [exists_update_iff mutex.place fun _ place => place.Owns]
      grind
    · grind [update_apply]
    · simp only [exists_update_iff mutex.place fun _ place => place.Cares]
      grind [update_apply]
  | @wakesOne thread sleeper waking asleep =>
    have same : ∀ other, (Function.update (Function.update mutex.place thread .outside) sleeper
        .retry other).Owns ↔ (mutex.place other).Owns := by
      grind [update_apply, Place.owns_iff]
    refine ⟨small, by simpa only [same] using taken, by simpa only [same] using unique,
      fun _ _ => .inr ⟨sleeper, ?_⟩⟩
    simp only [update_self]
    trivial
  | @wakesNone thread waking none =>
    have same : ∀ other, (Function.update mutex.place thread .outside other).Owns ↔
        (mutex.place other).Owns := by
      grind [update_apply, Place.owns_iff]
    refine ⟨small, by simpa only [same] using taken, by simpa only [same] using unique, ?_⟩
    grind [update_apply]

theorem sound_of_run (run : Relation.ReflTransGen Step init mutex) : mutex.Sound := by
  induction run with
  | refl => exact init_sound
  | tail _ step induction => exact induction.step step

/-- At most one thread holds the mutex, and no thread is left asleep: while one sleeps and no
other is running, the mutex is held and its word is 2. -/
theorem exclusive_and_awake (mutex : ZMutex Thread) (run : Relation.ReflTransGen Step init mutex) :
    (∀ thread other, mutex.place thread = .holds → mutex.place other = .holds → thread = other) ∧
      ¬∃ sleeper, mutex.place sleeper = .asleep ∧ (∀ other, ¬(mutex.place other).Running) ∧
        ((∀ other, mutex.place other ≠ .holds) ∨ mutex.val = 0 ∨ mutex.val = 1) := by
  obtain ⟨small, taken, unique, guarded⟩ := sound_of_run run
  refine ⟨fun thread other holds also => unique thread other ?_ ?_, ?_⟩
  · rw [holds]
    trivial
  · rw [also]
    trivial
  · rintro ⟨sleeper, asleep, still, free⟩
    have quiet : ∀ thread, ¬(mutex.place thread).Cares := fun thread cares =>
      still thread (by grind [Place.Cares, Place.Running])
    have two := (guarded sleeper asleep).resolve_right fun ⟨thread, cares⟩ => quiet thread cares
    obtain ⟨owner, owns⟩ := taken.mpr (by rw [two]; decide)
    have holds : mutex.place owner = .holds := by grind [Place.owns_iff, Place.Running]
    rcases free with none | zero | one
    · exact none owner holds
    · grind
    · grind

/-- One thread holds the mutex while the other one is asleep. -/
theorem exclusive_and_awake_two : ∃ mutex : ZMutex Bool, mutex.place false = .holds ∧
      mutex.place true = .asleep ∧ mutex.val = 2 ∧ ∀ thread other,
        mutex.place thread = .holds → mutex.place other = .holds → thread = other := by
  have taken := (Relation.ReflTransGen.refl (r := Step) (a := (init : ZMutex Bool))).tail
    (@Step.own _ _ _ false _ _ rfl) |>.tail (@Step.own _ _ _ false _ _ rfl)
  have sleeps := taken.tail (@Step.own _ _ _ true _ _ rfl) |>.tail (@Step.own _ _ _ true _ _ rfl)
    |>.tail (@Step.own _ _ _ true _ _ rfl) |>.tail (@Step.own _ _ _ true _ _ rfl)
  exact ⟨_, rfl, rfl, rfl, (exclusive_and_awake _ sleeps).1⟩

end ZMutex

end Embassies.LinuxElf
