import Mathlib.Algebra.BigOperators.Group.List.Basic
import Mathlib.Algebra.Group.Nat.Defs
import Mathlib.Data.UInt

/-!
# The queue of packets for an application

`PacketQueue` counts the bytes of its packets.  While the count is above a limit, and
there are more packets than a minimum, an insertion tosses the oldest packet.  The count
has 32 bits, and the length of a packet can be any number of 32 bits: that of an
`XPBPacket` is read from memory shared with an application.
-/

namespace Embassies.LinuxDbg

open List

/-- `PacketQueue`, without its lock and its account. -/
structure PacketQueue (π : Type) where
  queue : List π
  sequenceNumber : UInt32
  sizeBytes : UInt32
  maxBytes : UInt32
  minPackets : Nat
  /-- What `update_event` was last called with. -/
  receiveAlarm : UInt32

namespace PacketQueue

variable {π : Type} (len : π → UInt32)

/-- `pq_init`. -/
def init (maxBytes : UInt32) (minPackets : Nat) : PacketQueue π where
  queue := []
  sequenceNumber := 0
  sizeBytes := 0
  maxBytes := maxBytes
  minPackets := minPackets
  receiveAlarm := 0

/-- `_pq_remove_nolock`. -/
def removeNolock (pq : PacketQueue π) : Option π × PacketQueue π :=
  match pq.queue with
  | [] => (none, pq)
  | p :: rest => (some p, { pq with queue := rest, sizeBytes := pq.sizeBytes - len p })

/-- `_pq_tidy_nolock`, with the packets that it tosses; it needs at most a round for
each packet. -/
def tidyNolock : Nat → PacketQueue π → List π × PacketQueue π
  | 0, pq => ([], pq)
  | rounds + 1, pq =>
    if pq.sizeBytes > pq.maxBytes ∧ pq.queue.length > pq.minPackets then
      match pq.removeNolock len with
      | (none, pq) => ([], pq)
      | (some p, pq) =>
        let (tossed, pq) := tidyNolock rounds pq
        (p :: tossed, pq)
    else ([], pq)

/-- The part of `pq_insert` before the call of `_pq_tidy_nolock`. -/
def append (pq : PacketQueue π) (p : π) : PacketQueue π :=
  { pq with
    sequenceNumber := pq.sequenceNumber + 1
    receiveAlarm := pq.sequenceNumber + 1
    queue := pq.queue ++ [p]
    sizeBytes := pq.sizeBytes + len p }

/-- `pq_insert`, with the packets that it tosses. -/
def insert (pq : PacketQueue π) (p : π) : List π × PacketQueue π :=
  (pq.append len p).tidyNolock len (pq.queue.length + 1)

/-- `pq_remove`. -/
def remove (pq : PacketQueue π) : Option π × PacketQueue π := pq.removeNolock len

/-! ## Runs -/

/-- A call. -/
inductive Call (π : Type) where
  | insert (p : π)
  | remove

/-- A queue with the packets that were inserted and those that were removed or tossed,
each in their order. -/
structure History (π : Type) where
  pq : PacketQueue π
  inserted : List π
  gone : List π

/-- What a call does. -/
def History.step (history : History π) : Call π → History π
  | .insert p =>
    let (tossed, pq) := history.pq.insert len p
    ⟨pq, history.inserted ++ [p], history.gone ++ tossed⟩
  | .remove =>
    let (removed, pq) := history.pq.remove len
    ⟨pq, history.inserted, history.gone ++ removed.toList⟩

/-- What a sequence of calls does to a new queue. -/
def run (maxBytes : UInt32) (minPackets : Nat) (calls : List (Call π)) : History π :=
  calls.foldl (History.step len) ⟨init maxBytes minPackets, [], []⟩

/-- The sum of the lengths of packets. -/
def total (packets : List π) : Nat := (packets.map fun p => (len p).toNat).sum

/-- The count is exact, and the queue is what was inserted last. -/
structure History.Exact (history : History π) : Prop where
  sizeBytes : history.pq.sizeBytes.toNat = total len history.pq.queue
  queue : history.inserted = history.gone ++ history.pq.queue

/-- The packets may stay in a queue. -/
def Acceptable (pq : PacketQueue π) (packets : List π) : Prop :=
  total len packets ≤ pq.maxBytes.toNat ∨ packets.length ≤ max pq.minPackets 1

/-- An insertion tosses the oldest packets until those left are acceptable, and no
longer. -/
def Trims (pq : PacketQueue π) (p : π) : Prop :=
  pq.queue ++ [p] = (pq.insert len p).1 ++ (pq.insert len p).2.queue ∧
    ((pq.insert len p).2.sizeBytes ≤ pq.maxBytes ∨
      (pq.insert len p).2.queue.length ≤ max pq.minPackets 1) ∧
    ∀ earlier later, (pq.insert len p).1 = earlier ++ later → later ≠ [] →
      ¬Acceptable len pq (later ++ (pq.insert len p).2.queue)

/-- The bytes of the queue with the new packet can be counted, and the packet alone may
stay in the queue as far as the code is concerned. -/
def Fits (pq : PacketQueue π) (p : π) : Prop :=
  total len pq.queue + (len p).toNat < 2 ^ 32 ∧
    (1 ≤ pq.minPackets ∨ len p ≤ pq.maxBytes)

instance (pq : PacketQueue π) (p : π) : Decidable (Fits len pq p) :=
  inferInstanceAs (Decidable (_ ∧ _))

/-! ## One call -/

variable {len} {pq after : PacketQueue π} {p : π}

theorem total_append (packets others : List π) :
    total len (packets ++ others) = total len packets + total len others := by
  rw [total, map_append, sum_append]
  rfl

theorem total_cons (p : π) (packets : List π) :
    total len (p :: packets) = (len p).toNat + total len packets := by
  rfl

theorem tidyNolock_spec
    {rounds : Nat} {tossed : List π} (exact : pq.sizeBytes.toNat = total len pq.queue)
    (enough : pq.queue.length ≤ rounds)
    (tidied : pq.tidyNolock len rounds = (tossed, after)) :
    pq.queue = tossed ++ after.queue ∧ after.sizeBytes.toNat = total len after.queue ∧
      after.maxBytes = pq.maxBytes ∧ after.minPackets = pq.minPackets ∧
      (after.sizeBytes ≤ pq.maxBytes ∨ after.queue.length ≤ pq.minPackets) ∧
      ∀ earlier later, tossed = earlier ++ later → later ≠ [] →
        pq.maxBytes.toNat < total len (later ++ after.queue) ∧
          pq.minPackets < (later ++ after.queue).length := by
  induction rounds generalizing pq tossed with
  | zero =>
    cases tidied
    refine ⟨rfl, exact, rfl, rfl, .inr (by omega), ?_⟩
    intro earlier later split some
    exact absurd (append_eq_nil_iff.mp split.symm).2 some
  | succ rounds induction =>
    rw [tidyNolock] at tidied
    split at tidied
    · rename_i both
      obtain ⟨large, many⟩ := both
      rw [gt_iff_lt, UInt32.lt_iff_toNat_lt] at large
      cases queue : pq.queue with
      | nil =>
        rw [queue] at many
        exact absurd many (Nat.not_lt_zero _)
      | cons p rest =>
        simp only [removeNolock, queue] at tidied
        obtain ⟨tossedLater, last, recursion⟩ : ∃ tossedLater last, tidyNolock len rounds
            { pq with queue := rest, sizeBytes := pq.sizeBytes - len p } =
              (tossedLater, last) := ⟨_, _, rfl⟩
        rw [recursion] at tidied
        obtain ⟨rfl, rfl⟩ := Prod.mk.inj tidied
        rw [queue, total_cons] at exact
        have counted : (pq.sizeBytes - len p).toNat = total len rest := by
          rw [UInt32.toNat_sub_of_le _ _ (UInt32.le_iff_toNat_le.mpr (by omega))]
          omega
        rw [queue, length_cons] at enough
        obtain ⟨kept, exactAfter, sameMax, sameMin, stops, needed⟩ :=
          @induction { pq with queue := rest, sizeBytes := pq.sizeBytes - len p }
            tossedLater counted (Nat.le_of_succ_le_succ enough) recursion
        have whole : rest = tossedLater ++ last.queue := kept
        refine ⟨by rw [whole, cons_append], exactAfter, sameMax, sameMin, stops, ?_⟩
        intro earlier later split some
        cases earlier with
        | nil =>
          rw [nil_append] at split
          rw [← split, cons_append, ← whole, total_cons]
          rw [queue] at many
          exact ⟨by omega, many⟩
        | cons first earlier =>
          obtain ⟨-, split⟩ := List.cons.inj split
          exact needed earlier later split some
    · rename_i under
      obtain ⟨rfl, rfl⟩ := Prod.mk.inj tidied
      refine ⟨rfl, exact, rfl, rfl, ?_, ?_⟩
      · rcases Classical.em (pq.sizeBytes > pq.maxBytes) with large | small
        · exact .inr (Nat.not_lt.mp fun many => under ⟨large, many⟩)
        · exact .inl (UInt32.not_lt.mp small)
      · intro earlier later split some
        exact absurd (append_eq_nil_iff.mp split.symm).2 some

theorem insert_spec (exact : pq.sizeBytes.toNat = total len pq.queue) (fits : Fits len pq p) :
    Trims len pq p ∧ (pq.insert len p).2.sizeBytes.toNat = total len (pq.insert len p).2.queue ∧
      (pq.insert len p).2.maxBytes = pq.maxBytes ∧
      (pq.insert len p).2.minPackets = pq.minPackets := by
  obtain ⟨counts, alone⟩ := fits
  have appended : (pq.append len p).sizeBytes.toNat = total len (pq.append len p).queue := by
    change (pq.sizeBytes + len p).toNat = total len (pq.queue ++ [p])
    rw [UInt32.toNat_add, total_append, total_cons, exact, Nat.mod_eq_of_lt counts]
    rfl
  obtain ⟨tossed, after, inserted⟩ : ∃ tossed after, pq.insert len p = (tossed, after) :=
    ⟨_, _, rfl⟩
  obtain ⟨kept, exactAfter, sameMax, sameMin, stops, needed⟩ := tidyNolock_spec appended
    (by simp [append]) inserted
  have whole : pq.queue ++ [p] = tossed ++ after.queue := kept
  rw [Trims, inserted]
  refine ⟨⟨whole, stops.imp_right fun few => ?_, ?_⟩, exactAfter, sameMax, sameMin⟩
  · exact Nat.le_trans few (Nat.le_max_left _ _)
  · intro earlier later cut some acceptable
    have split : tossed = earlier ++ later := cut
    obtain ⟨large, many⟩ := needed earlier later split some
    have above : pq.maxBytes.toNat < total len (later ++ after.queue) := large
    have more : pq.minPackets < (later ++ after.queue).length := many
    have fine : Acceptable len pq (later ++ after.queue) := acceptable
    rcases fine with small | few
    · omega
    · -- only the new packet is left, and it alone is above the limit
      rcases alone with least | light
      · omega
      · have single : (later ++ after.queue).length = 1 := by omega
        obtain ⟨last, only⟩ := length_eq_one_iff.mp single
        have ends : pq.queue ++ [p] = earlier ++ [last] := by
          rw [whole, split, append_assoc, only]
        obtain ⟨-, same⟩ := append_inj' ends rfl
        obtain ⟨rfl, -⟩ := List.cons.inj same
        rw [only, total_cons] at above
        rw [UInt32.le_iff_toNat_le] at light
        change pq.maxBytes.toNat < (len p).toNat + 0 at above
        omega

theorem remove_spec (exact : pq.sizeBytes.toNat = total len pq.queue) :
    pq.queue = (pq.remove len).1.toList ++ (pq.remove len).2.queue ∧
      (pq.remove len).2.sizeBytes.toNat = total len (pq.remove len).2.queue ∧
      (pq.remove len).2.maxBytes = pq.maxBytes ∧
      (pq.remove len).2.minPackets = pq.minPackets := by
  rw [remove, removeNolock]
  split
  · exact ⟨rfl, exact, rfl, rfl⟩
  · rename_i p rest queue
    rw [queue, total_cons] at exact
    refine ⟨queue, ?_, rfl, rfl⟩
    change (pq.sizeBytes - len p).toNat = total len rest
    rw [UInt32.toNat_sub_of_le _ _ (UInt32.le_iff_toNat_le.mpr (by omega))]
    omega

/-! ## Whole runs -/

theorem History.Exact.step {history : History π} (exact : history.Exact len) {call : Call π}
    (fits : ∀ p, call = .insert p → Fits len history.pq p) :
    (history.step len call).Exact len := by
  cases call with
  | insert p =>
    obtain ⟨⟨kept, -⟩, counted, -⟩ := insert_spec exact.sizeBytes (fits p rfl)
    refine ⟨counted, ?_⟩
    change history.inserted ++ [p] =
      history.gone ++ (history.pq.insert len p).1 ++ (history.pq.insert len p).2.queue
    rw [exact.queue, append_assoc, append_assoc, kept]
  | remove =>
    obtain ⟨kept, counted, -⟩ := remove_spec exact.sizeBytes
    refine ⟨counted, ?_⟩
    change history.inserted = history.gone ++ (history.pq.remove len).1.toList ++
      (history.pq.remove len).2.queue
    rw [exact.queue, append_assoc, ← kept]

/-- As long as the bytes can be counted, and no packet is too large for a queue that
may become empty, the queue is exact after every call and every insertion tosses as
many of the oldest packets as it should. -/
theorem run_exact_of_fits
    (len : π → UInt32) (maxBytes : UInt32) (minPackets : Nat) (calls : List (Call π))
    (fits : ∀ earlier p, earlier ++ [.insert p] <+: calls →
      Fits len (run len maxBytes minPackets earlier).pq p) :
    (∀ earlier, earlier <+: calls → (run len maxBytes minPackets earlier).Exact len) ∧
    ∀ earlier p, earlier ++ [.insert p] <+: calls →
      Trims len (run len maxBytes minPackets earlier).pq p := by
  have exact : ∀ earlier, earlier <+: calls → (run len maxBytes minPackets earlier).Exact len := by
    intro earlier
    induction earlier using List.reverseRecOn with
    | nil => exact fun _ => ⟨rfl, rfl⟩
    | append_singleton earlier call induction =>
      intro before
      rw [run, foldl_append]
      apply (induction ((prefix_append earlier [call]).trans before)).step
      rintro p rfl
      exact fits earlier p before
  refine ⟨exact, fun earlier p before => ?_⟩
  exact (insert_spec (exact earlier ((prefix_append _ _).trans before)).sizeBytes
    (fits earlier p before)).1

/-- A queue for ten bytes tosses a packet of six when a second one comes. -/
theorem run_exact_of_fits_two : Trims (id : UInt32 → UInt32) (run id 10 1 [.insert 6]).pq 6 ∧
      (run (id : UInt32 → UInt32) 10 1 [.insert 6, .insert 6]).gone = [6] := by
  refine ⟨(run_exact_of_fits id 10 1 [.insert 6, .insert 6] ?_).2 [.insert 6] 6
    (prefix_refl _), rfl⟩
  intro earlier p before
  match earlier, before with
  | [], before =>
    obtain ⟨same, -⟩ := cons_prefix_cons.mp before
    cases same
    decide
  | [_], before =>
    obtain ⟨same, before⟩ := cons_prefix_cons.mp before
    obtain ⟨other, -⟩ := cons_prefix_cons.mp before
    cases same
    cases other
    decide
  | _ :: _ :: _, before =>
    have length := before.length_le
    simp at length

/-- Two packets of half the range of the count are counted as no bytes, and a queue
without a minimum tosses the only packet it has. -/
theorem oversized_packets_miscounted :
    ((run id 0xffffffff 1 [.insert 0x80000000, .insert 0x80000000]).pq.sizeBytes = 0 ∧
      total (id : UInt32 → UInt32)
        (run id 0xffffffff 1 [.insert 0x80000000, .insert 0x80000000]).pq.queue = 2 ^ 32) ∧
    ¬Trims (id : UInt32 → UInt32) (init 10 0) 11 := by
  refine ⟨⟨rfl, rfl⟩, ?_⟩
  rintro ⟨-, -, needed⟩
  exact needed [] [11] rfl (cons_ne_nil _ _) (.inr (Nat.le_refl 1))

end PacketQueue

end Embassies.LinuxDbg
