import Mathlib.Data.UInt
import Mathlib.Logic.Function.Basic
import Mathlib.Logic.Relation

/-!
# Pipes

A `SimPipe` is a list of parcels.  `write` appends a parcel and wakes all sleepers; `read` takes
bytes off the first parcel and puts the rest back, and waits while there is no parcel.  The
sections under the mutex are atomic, and so are `zutex_wait` and the wake.

A parcel without bytes ends a read with no bytes, and a sequence number that comes around while a
reader is on its way to `zutex_wait` puts it to sleep in front of parcels.
-/

namespace Embassies.LinuxElf

open Function List Relation

/-- Where a thread is in `read`. -/
inductive Reader where
  | outside
  /-- At the section that takes a parcel. -/
  | read (len : Nat)
  /-- At `_zas_check`. -/
  | check (len : Nat)
  /-- At `zutex_wait`; `seen` is how many writes there were at the check. -/
  | wait (len : Nat) (matchVal : UInt32) (seen : Nat)
  | asleep (len : Nat)

/-- A pipe and its readers, with what was written and returned so far. -/
structure SimPipe (Thread : Type*) where
  zutex : UInt32 := 6
  parcels : List (List UInt8) := []
  reader : Thread → Reader := fun _ => .outside
  written : List (List UInt8) := []
  /-- The length asked for and the bytes. -/
  returned : List (Nat × List UInt8) := []

namespace SimPipe

variable {Thread : Type*}

/-- Where a reader goes that takes no parcel. -/
def next (pipe : SimPipe Thread) : Reader → Option Reader
  | .outside | .asleep _ => none
  | .read len => if pipe.parcels = [] then some (.check len) else none
  | .check len => some (if pipe.parcels = [] then .wait len pipe.zutex pipe.written.length
      else .read len)
  | .wait len matchVal _ => some (if pipe.zutex = matchVal then .asleep len else .check len)

/-- Where a reader is after `zutex_wake`. -/
def wake : Reader → Reader
  | .asleep len => .check len
  | place => place

/-- What is left in the list when an amount is taken off its first parcel. -/
def putBack (parcel : List UInt8) (amount : Nat) (parcels : List (List UInt8)) :
    List (List UInt8) :=
  if 0 < parcel.length - amount then parcel.drop amount :: parcels else parcels

/-- One call, or one step of one thread. -/
inductive Step [DecidableEq Thread] (pipe : SimPipe Thread) : SimPipe Thread → Prop where
  | call (thread : Thread) (len : Nat) (outside : pipe.reader thread = .outside) :
      Step pipe { pipe with reader := update pipe.reader thread (.read len) }
  | own {thread : Thread} {place : Reader} (moved : pipe.next (pipe.reader thread) = some place) :
      Step pipe { pipe with reader := update pipe.reader thread place }
  | read (thread : Thread) {len : Nat} {parcel : List UInt8} {parcels : List (List UInt8)}
      (reads : pipe.reader thread = .read len) (queued : pipe.parcels = parcel :: parcels) :
      Step pipe { pipe with
        parcels := putBack parcel (min parcel.length len) parcels
        reader := update pipe.reader thread .outside
        returned := pipe.returned ++ [(len, parcel.take (min parcel.length len))] }
  | write (src : List UInt8) :
      Step pipe { pipe with
        zutex := pipe.zutex + 1
        parcels := pipe.parcels ++ [src]
        reader := fun thread => wake (pipe.reader thread)
        written := pipe.written ++ [src] }

/-- Every write has a byte, and the sequence number has not come around since a reader checked. -/
def Fits (pipe : SimPipe Thread) : Prop :=
  (∀ src ∈ pipe.written, src ≠ []) ∧
    ∀ thread len matchVal seen, pipe.reader thread = .wait len matchVal seen →
      pipe.written.length < seen + 2 ^ 32

/-- What a reader knows about the parcels and the number of writes. -/
def Knows (parcels : List (List UInt8)) (writes : Nat) : Reader → Prop
  | .wait _ matchVal seen => matchVal = 6 + UInt32.ofNat seen ∧ seen ≤ writes ∧
      (seen = writes → parcels = [])
  | .asleep _ => parcels = []
  | _ => True

/-- What holds in every state. -/
structure Sound (pipe : SimPipe Thread) : Prop where
  stream : (pipe.returned.map Prod.snd).flatten ++ pipe.parcels.flatten = pipe.written.flatten
  count : pipe.zutex = 6 + UInt32.ofNat pipe.written.length
  parcels : ∀ parcel ∈ pipe.parcels, parcel ≠ []
  results : ∀ result ∈ pipe.returned, 1 ≤ result.1 → result.2 ≠ []
  knows : ∀ thread, Knows pipe.parcels pipe.written.length (pipe.reader thread)

variable {pipe after : SimPipe Thread} {thread other : Thread} {place : Reader}

theorem next_knows (fits : pipe.Fits) (sound : pipe.Sound)
    (moved : pipe.next (pipe.reader thread) = some place) :
    Knows pipe.parcels pipe.written.length place := by
  have knows := sound.knows thread
  have count := sound.count
  cases reads : pipe.reader thread with
  | wait len matchVal seen =>
    have recent := fits.2 _ _ _ _ reads
    rw [reads] at moved knows
    obtain ⟨rfl, before, empty⟩ := knows
    simp only [next, count, Option.some.injEq] at moved
    split at moved
    · rename_i same
      have equal := congrArg UInt32.toNat (add_left_cancel same)
      simp only [UInt32.toNat_ofNat'] at equal
      subst moved
      exact empty (by omega)
    · subst moved
      trivial
  | _ => grind [next, Knows]

variable [DecidableEq Thread]

theorem knows_update {parcels : List (List UInt8)} (sound : pipe.Sound)
    (empty : pipe.parcels = [] → parcels = [])
    (knows : Knows parcels pipe.written.length place) :
    Knows parcels pipe.written.length (update pipe.reader thread place other) := by
  rw [update_apply]
  split
  · exact knows
  · have known := sound.knows other
    unfold Knows at known ⊢
    grind

theorem putBack_flatten (parcel : List UInt8) (amount : Nat) (parcels : List (List UInt8)) :
    parcel.take amount ++ (putBack parcel amount parcels).flatten =
      (parcel :: parcels).flatten := by
  rw [putBack]
  split
  · rw [flatten_cons, ← append_assoc, take_append_drop, flatten_cons]
  · rw [take_of_length_le (by omega), flatten_cons]

theorem step_sound (fits : pipe.Fits) (sound : pipe.Sound) (step : pipe.Step after)
    (fitsAfter : after.Fits) : after.Sound := by
  cases step with
  | call thread len outside => exact { sound with knows := fun _ => knows_update sound id trivial }
  | own moved =>
    have known := next_knows fits sound moved
    exact { sound with knows := fun _ => knows_update sound id known }
  | @read thread len parcel parcels reads queued =>
    have nonempty := sound.parcels
    rw [queued, forall_mem_cons] at nonempty
    refine { sound with stream := ?_, parcels := ?_, results := ?_, knows := fun _ => ?_ }
    · rw [map_append, flatten_append, map_singleton, flatten_singleton, append_assoc,
        putBack_flatten, ← queued]
      exact sound.stream
    · rw [putBack]
      split
      · rename_i more
        rw [← length_drop] at more
        rw [forall_mem_cons]
        exact ⟨ne_nil_of_length_pos more, nonempty.2⟩
      · exact nonempty.2
    · rw [forall_mem_append, forall_mem_singleton]
      refine ⟨sound.results, fun positive => ne_nil_of_length_pos ?_⟩
      have parcelPositive := length_pos_iff.mpr nonempty.1
      rw [length_take]
      omega
    · exact knows_update sound (by simp [queued]) trivial
  | write src =>
    have last := fitsAfter.1 src (by simp)
    have parcels := sound.parcels
    refine { sound with stream := ?_, count := ?_, parcels := ?_, knows := fun other => ?_ }
    · rw [flatten_append, flatten_append, ← sound.stream, append_assoc]
    · rw [sound.count, length_append, length_singleton, UInt32.ofNat_add, add_assoc]
      rfl
    · grind
    · have known := sound.knows other
      unfold Knows wake at *
      grind

/-- In a run whose writes have a byte each, and in which the sequence number does not come around
while a reader is on its way to sleep, the reads return the stream that was written, each of
them a byte at least, and no reader is asleep while a parcel is queued. -/
theorem reads_stream {pipe : SimPipe Thread}
    (run : ReflTransGen (fun before after => Step before after ∧ after.Fits) {} pipe) :
    (pipe.returned.map Prod.snd).flatten <+: pipe.written.flatten ∧
      (∀ result ∈ pipe.returned, 1 ≤ result.1 → result.2 ≠ []) ∧
      ∀ thread len, pipe.reader thread = .asleep len → pipe.parcels = [] := by
  have both : pipe.Fits ∧ pipe.Sound := by
    induction run with
    | refl => exact ⟨⟨by simp, by simp⟩, rfl, rfl, by simp, by simp, fun _ => trivial⟩
    | tail _ step induction =>
      exact ⟨step.2, step_sound induction.1 induction.2 step.1 step.2⟩
  refine ⟨⟨_, both.2.stream⟩, both.2.results, fun thread len asleep => ?_⟩
  have knows := both.2.knows thread
  rw [asleep] at knows
  exact knows

/-- Two bytes are written, and one of them is read. -/
theorem reads_stream_first : ∃ pipe : SimPipe Unit, pipe.returned = [(1, [1])] ∧
    (pipe.returned.map Prod.snd).flatten <+: pipe.written.flatten :=
  ⟨_, rfl, (reads_stream <| ((ReflTransGen.single ⟨.write [1, 2], by simp, by simp [wake]⟩).tail
    ⟨.call () 1 rfl, by simp, by simp⟩).tail ⟨.read () rfl rfl, by simp, by simp⟩).1⟩

/-- A write without bytes makes a read of one byte return none. -/
theorem empty_write_ends_read : ∃ pipe : SimPipe Unit,
    ReflTransGen Step {} pipe ∧ (1, []) ∈ pipe.returned := by
  refine ⟨_, ((ReflTransGen.single (.write [])).tail (.call () 1 rfl)).tail (.read () rfl rfl), ?_⟩
  simp

end SimPipe

end Embassies.LinuxElf
