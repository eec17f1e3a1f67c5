import Embassies.Network.ReassemblyOrder
import Mathlib.Data.List.Nodup

/-!
# The tables of partial packets

`tidy` makes room by dropping the old table and letting the new one take its place, until few
partial packets are left.  It is called when a third packet has been put into the new table,
so that one round is never enough: the second round drops the new table as well, and the old
one is always empty.

The assertions of the hash tables and a limit for the rounds are added to `handle_fragment`
here, and do not change it.
-/

namespace Embassies.Network

open Library Library.Checked List

namespace FragmentReassembly

/-! ## The assertions -/

/-- `hash_table_insert` asserts that the key is absent.  A table of two buckets grows, and
asserts that it has nothing left to move, when the load factor exceeds three. -/
def insertChecked (table : List PartialPacket) (packet : PartialPacket) :
    Except Trap (List PartialPacket) := do
  ensure (lookup table packet.ident).isNone .assertion
  ensure ((table.length + 1) / 2 ≤ 3) .assertion
  return packet :: table

/-- The loop of `tidy`, with a limit for its rounds. -/
def tidyLoop : Nat → FragmentReassembly → Except Trap FragmentReassembly
  | 0, state => if state.crowded then .error .outOfFuel else .ok state
  | rounds + 1, state => if state.crowded then tidyLoop rounds state.rotate else .ok state

/-- Find the partial packet for an identification, or start one. -/
def locateChecked (state : FragmentReassembly) (ident : Nat) :
    Except Trap (FragmentReassembly × Home × PartialPacket) :=
  match lookup state.hNew ident with
  | some packet => .ok (state, .new, packet)
  | none =>
    match lookup state.hOld ident with
    | some packet => .ok (state, .old, packet)
    | none => do
      let tidied ← tidyLoop 2 state
      let packet := PartialPacket.new ident
      let hNew ← insertChecked tidied.hNew packet
      return (⟨hNew, tidied.hOld⟩, .new, packet)

/-- The table that a packet is in. -/
def table (state : FragmentReassembly) : Home → List PartialPacket
  | .new => state.hNew
  | .old => state.hOld

/-- `handle_fragment`; `hash_table_remove` asserts that the key is present. -/
def handleChecked (fuel : Nat) (state : FragmentReassembly) (fragment : FragmentElt) :
    Except Trap (FragmentReassembly × Option (List UInt8 × IPInfo)) := do
  let (state, home, packet) ← state.locateChecked fragment.info.identification
  let (packet, assembled) ← packet.ingestFragment fuel fragment
  match assembled with
  | some dispatched =>
    ensure (lookup (state.table home) packet.ident).isSome .assertion
    return (state.changeHome home (remove · packet.ident), some dispatched)
  | none => return (state.changeHome home (update · packet), none)

/-- A fragment has been added to a packet and to no other: the packet now has it among its
fragments, or it was complete, and has left the tables for what is assembled from them. -/
def Added (fuel : Nat) (packet : PartialPacket) (fragment : FragmentElt)
    (before after : List PartialPacket) (dispatched : Option (List UInt8 × IPInfo)) : Prop :=
  (∀ other, other.ident ≠ packet.ident → (other ∈ after ↔ other ∈ before)) ∧
    match dispatched with
    | none => ∃ grown ∈ after, grown.ident = packet.ident ∧
        grown.fragments.Perm (fragment :: packet.fragments)
    | some assembled => (∀ other ∈ after, other.ident ≠ packet.ident) ∧
        ∃ fragments, fragments.Perm (fragment :: packet.fragments) ∧
          PartialPacket.assemblePacket fuel fragments = .ok assembled

/-- The calls in which the partial packets were created, after one more call. -/
def births (state : FragmentReassembly) (birth : Nat → Nat) (calls ident : Nat) : Nat → Nat :=
  if (lookup state.hNew ident).isSome ∨ (lookup state.hOld ident).isSome then birth
  else Function.update birth ident calls

/-- The state after a number of calls that returned, and the call in which the partial packet
of each identification was created. -/
inductive Run (fuel : Nat) : FragmentReassembly → (Nat → Nat) → Nat → Prop where
  | start (birth : Nat → Nat) : Run fuel .new birth 0
  | call {state next : FragmentReassembly} {birth : Nat → Nat} {calls : Nat}
      {fragment : FragmentElt} {dispatched : Option (List UInt8 × IPInfo)}
      (earlier : Run fuel state birth calls)
      (handled : state.handleChecked fuel fragment = .ok (next, dispatched)) :
      Run fuel next (state.births birth calls fragment.info.identification) (calls + 1)

/-! ## What a call keeps -/

theorem insert_perm {tree grown : List FragmentElt} {fragment : FragmentElt}
    (inserted : FragmentTree.insert tree fragment = .ok grown) : grown.Perm (fragment :: tree) := by
  obtain ⟨_, checked, returned⟩ := of_bind inserted
  have fresh := ensure_eq_ok_iff.mp checked
  cases returned
  have behind : tree.filter (fun other => fragment.start < other.start) =
      tree.filter fun other => !decide (other.start < fragment.start) :=
    filter_congr fun other member => by
      have different := fresh other member
      rw [← decide_not, decide_eq_decide]
      omega
  rw [behind]
  exact perm_middle.trans ((filter_append_perm _ tree).cons fragment)

/-- The fragment is put among those of the packet, and a packet that is complete is
assembled from them. -/
theorem ingestFragment_eq_ok {packet grown : PartialPacket} {fragment : FragmentElt} {fuel : Nat}
    {assembled : Option (List UInt8 × IPInfo)}
    (ingested : packet.ingestFragment fuel fragment = .ok (grown, assembled)) :
    grown.ident = packet.ident ∧ grown.fragments.Perm (fragment :: packet.fragments) ∧
      ∀ dispatched, assembled = some dispatched →
        PartialPacket.assemblePacket fuel grown.fragments = .ok dispatched := by
  obtain ⟨_, -, checked⟩ := of_bind ingested
  obtain ⟨fragments, inserted, finished⟩ := of_bind checked
  have same := insert_perm inserted
  rw [PartialPacket.finishIngest] at finished
  split at finished
  · split at finished
    · cases finished
    · obtain ⟨_, -, compared⟩ := of_bind finished
      split at compared
      · obtain ⟨whole, assembling, returned⟩ := of_bind compared
        cases returned
        refine ⟨rfl, same, ?_⟩
        rintro dispatched ⟨⟩
        exact assembling
      · cases compared
        exact ⟨rfl, same, by rintro _ ⟨⟩⟩
  · cases finished
    exact ⟨rfl, same, by rintro _ ⟨⟩⟩

theorem tidyLoop_two (state : FragmentReassembly) : tidyLoop 2 state = .ok state.tidy := by
  rw [tidyLoop, tidy]
  split
  · rw [tidyLoop]
    split
    · rfl
    · rfl
  · rfl

/-- The old table is empty, and the new one has few packets. -/
structure Bounded (state : FragmentReassembly) : Prop where
  old : state.hOld = []
  few : state.hNew.length ≤ maxPartialPackets + 1
  distinct : (state.hNew.map PartialPacket.ident).Nodup

namespace Bounded

variable {state next : FragmentReassembly} {fuel : Nat} {fragment : FragmentElt}
  (bounded : state.Bounded)

include bounded

theorem tidy_cases : state.tidy = state ∧ state.hNew.length ≤ maxPartialPackets ∨
    state.tidy = .new := by
  have size : state.hNew.length + state.hOld.length = state.hNew.length := by
    rw [bounded.old, length_nil, Nat.add_zero]
  by_cases many : state.crowded = true
  · have still : state.rotate.crowded = true := by
      rw [crowded, size] at many
      rw [crowded, rotate, length_nil, Nat.zero_add]
      exact many
    rw [tidy, if_pos many, if_pos still]
    exact .inr rfl
  · refine .inl ⟨if_neg many, ?_⟩
    rw [crowded, size, decide_eq_true_iff] at many
    exact Nat.not_lt.mp many

theorem lookup_of_mem {packet : PartialPacket} (member : packet ∈ state.hNew) :
    lookup state.hNew packet.ident = some packet := by
  cases found : lookup state.hNew packet.ident with
  | none => exact absurd (decide_eq_true rfl) (find?_eq_none.mp found packet member)
  | some other =>
    obtain ⟨same, isIn⟩ := lookup_ident found
    rw [inj_on_of_nodup_map bounded.distinct isIn member same]

theorem locateChecked_eq (ident : Nat) : ∃ located packet, state.locateChecked ident =
        .ok (located, .new, packet) ∧ state.locate ident = (located, .new, packet) ∧
      located.Bounded ∧ lookup located.hNew ident = some packet := by
  rw [locateChecked, locate]
  cases found : lookup state.hNew ident with
  | some packet => exact ⟨state, packet, rfl, rfl, bounded, found⟩
  | none =>
    have old : lookup state.hOld ident = none := by
      rw [bounded.old]
      rfl
    have own : lookup (PartialPacket.new ident :: state.tidy.hNew) ident =
        some (PartialPacket.new ident) := find?_cons_of_pos (decide_eq_true rfl)
    simp only [old, tidyLoop_two, ok_bind, insertChecked]
    rcases bounded.tidy_cases with ⟨same, few⟩ | empty
    · rw [same] at own ⊢
      have absent : ident ∉ state.hNew.map PartialPacket.ident := fun member => by
        obtain ⟨packet, isIn, same⟩ := mem_map.mp member
        exact find?_eq_none.mp found packet isIn (decide_eq_true same)
      refine ⟨⟨_, _⟩, _, ?_, rfl, ⟨bounded.old, Nat.succ_le_succ few,
        nodup_cons.mpr ⟨absent, bounded.distinct⟩⟩, own⟩
      rw [ensure_true (by rw [PartialPacket.new, found]; rfl), ok_bind,
        ensure_true (by rw [maxPartialPackets] at few; omega)]
      rfl
    · rw [empty] at own ⊢
      exact ⟨⟨_, _⟩, _, rfl, rfl, ⟨rfl, Nat.succ_le_succ (Nat.zero_le _), nodup_singleton _⟩, own⟩

theorem handleChecked_eq :
    state.handleChecked fuel fragment = state.handleFragment fuel fragment := by
  obtain ⟨located, packet, checked, same, -, found⟩ :=
    bounded.locateChecked_eq fragment.info.identification
  rw [handleChecked, handleFragment, checked, same, ok_bind]
  dsimp only
  cases ingested : packet.ingestFragment fuel fragment with
  | error trap => rfl
  | ok result =>
    obtain ⟨grown, _ | dispatched⟩ := result
    · rfl
    · have ident := (ingestFragment_eq_ok ingested).1.trans (lookup_ident found).1
      have present : (lookup (located.table .new) grown.ident).isSome := by
        rw [table, ident, found]
        rfl
      rw [ok_bind, ok_bind]
      rw [ensure_true present]
      rfl

theorem handleChecked {dispatched : Option (List UInt8 × IPInfo)}
    (handled : state.handleChecked fuel fragment = .ok (next, dispatched)) : next.Bounded := by
  obtain ⟨located, packet, -, same, kept, -⟩ :=
    bounded.locateChecked_eq fragment.info.identification
  rw [bounded.handleChecked_eq, handleFragment, same] at handled
  obtain ⟨⟨grown, assembled⟩, -, returned⟩ := of_bind handled
  cases assembled with
  | none =>
    cases returned
    refine ⟨kept.old, ?_, Tracks.update_idents.symm ▸ kept.distinct⟩
    exact (length_map _).trans_le kept.few
  | some dispatched =>
    cases returned
    exact ⟨kept.old, (length_filter_le _ _).trans kept.few,
      kept.distinct.sublist (filter_sublist.map _)⟩

theorem added {packet : PartialPacket} {dispatched : Option (List UInt8 × IPInfo)}
    (member : packet ∈ state.hNew) (own : fragment.info.identification = packet.ident)
    (handled : state.handleFragment fuel fragment = .ok (next, dispatched)) :
    Added fuel packet fragment (state.hNew ++ state.hOld) (next.hNew ++ next.hOld) dispatched := by
  rw [handleFragment, locate, own, bounded.lookup_of_mem member] at handled
  obtain ⟨⟨grown, assembled⟩, ingested, returned⟩ := of_bind handled
  obtain ⟨ident, fragments, assembling⟩ := ingestFragment_eq_ok ingested
  cases assembled with
  | none =>
    cases returned
    simp only [Added, changeHome, bounded.old, append_nil, update, mem_map]
    refine ⟨fun other apart => ⟨?_, fun isIn => ⟨other, isIn, if_neg (ident ▸ apart)⟩⟩,
      grown, ⟨packet, member, if_pos ident.symm⟩, ident, fragments⟩
    rintro ⟨old, isIn, same⟩
    split at same
    · exact absurd ident (same ▸ apart)
    · exact same ▸ isIn
  | some assembled =>
    cases returned
    simp only [Added, changeHome, bounded.old, append_nil, remove, mem_filter, ident]
    refine ⟨fun other apart => ⟨And.left, fun isIn => ⟨isIn, decide_eq_true apart⟩⟩,
      fun other kept => of_decide_eq_true kept.2, grown.fragments, fragments, ?_⟩
    exact assembling _ rfl

end Bounded

theorem Run.bounded {fuel calls : Nat} {state : FragmentReassembly} {birth : Nat → Nat}
    (run : Run fuel state birth calls) : state.Bounded := by
  induction run with
  | start birth => exact ⟨rfl, Nat.zero_le _, nodup_nil⟩
  | call earlier handled induction => exact induction.handleChecked handled

/-- After any calls the assertions of the tables hold in the next call and two rounds are
enough for `tidy`, there are at most three partial packets, of different identifications, the
fragments of an identification that is there are added to its packet, and what `tidy` drops is
older than what it keeps. -/
theorem tables_bounded {fuel calls : Nat} {state : FragmentReassembly} {birth : Nat → Nat}
    (run : Run fuel state birth calls) :
    (∀ ident, state.locateChecked ident = .ok (state.locate ident)) ∧
      (∀ fragment, state.handleChecked fuel fragment = state.handleFragment fuel fragment) ∧
      state.hNew.length + state.hOld.length ≤ maxPartialPackets + 1 ∧
      ((state.hNew ++ state.hOld).map PartialPacket.ident).Nodup ∧
      (∀ packet ∈ state.hNew ++ state.hOld, ∀ fragment next dispatched,
        fragment.info.identification = packet.ident →
        state.handleFragment fuel fragment = .ok (next, dispatched) →
        Added fuel packet fragment (state.hNew ++ state.hOld) (next.hNew ++ next.hOld) dispatched) ∧
      ∀ dropped ∈ state.hNew ++ state.hOld, dropped ∉ state.tidy.hNew ++ state.tidy.hOld →
        ∀ kept ∈ state.tidy.hNew ++ state.tidy.hOld, birth dropped.ident < birth kept.ident := by
  have bounded := run.bounded
  refine ⟨fun ident => ?_, fun _ => bounded.handleChecked_eq, ?_, ?_, ?_, ?_⟩
  · obtain ⟨located, packet, checked, same, -⟩ := bounded.locateChecked_eq ident
    rw [checked, same]
  · rw [bounded.old]
    exact bounded.few
  · rw [bounded.old, append_nil]
    exact bounded.distinct
  · intro packet member fragment next dispatched own handled
    refine bounded.added ?_ own handled
    rwa [bounded.old, append_nil] at member
  · intro dropped member gone kept remains
    rcases bounded.tidy_cases with ⟨same, -⟩ | empty
    · rw [same] at gone
      exact absurd member gone
    · rw [empty] at remains
      cases remains

/-- The first fragment of a packet of two. -/
def firstFragment (ident : Nat) : FragmentElt :=
  ⟨[], { IPInfo.cleared with identification := ident, moreFragments := true, payloadLength := 8 }⟩

/-- Three packets have been started. -/
theorem tables_bounded_three : ∃ state birth, Run 0 state birth 3 ∧ state.hNew.length = 3 ∧
    ((state.hNew ++ state.hOld).map PartialPacket.ident).Nodup := by
  have run := @Run.call 0 _ _ _ _ (firstFragment 3) _ (@Run.call 0 _ _ _ _ (firstFragment 2) _
    (@Run.call 0 _ _ _ _ (firstFragment 1) _ (.start fun _ => 0) rfl) rfl) rfl
  exact ⟨_, _, run, rfl, (tables_bounded run).2.2.2.1⟩

end FragmentReassembly

end Embassies.Network
