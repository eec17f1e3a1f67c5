import Embassies.Network.Fragments
import Mathlib.Data.List.Perm.Subperm

/-!
# The order of arrival

The fragments of a packet come interleaved with those of one other packet, in
any order and possibly more than once.  The packet is to be dispatched when the
last missing fragment comes, and not before.

Since the gap advances only over the fragment that comes, that happens exactly
when the fragments come one after another in the order of their offsets, each
of them once; and since a fragment cannot be inserted twice, the other packet
must not repeat a fragment that is still held.
-/

namespace Embassies.Network

open Library Library.Checked List FragmentReassembly

/-! ## Two packets in the tables -/

namespace FragmentReassembly

/-- The partial packet for an identification, which may be a new one. -/
def partialPacket (state : FragmentReassembly) (ident : Nat) : PartialPacket :=
  (lookup state.hNew ident).getD (PartialPacket.new ident)

variable {table : List PartialPacket}

theorem lookup_ident {ident : Nat} {packet : PartialPacket}
    (found : lookup table ident = some packet) :
    packet.ident = ident ∧ packet ∈ table := by
  refine ⟨?_, mem_of_find?_eq_some found⟩
  simpa using find?_some found

theorem lookup_update {packet found : PartialPacket}
    (present : lookup table packet.ident = some found) (ident : Nat) :
    lookup (update table packet) ident =
      if ident = packet.ident then some packet else lookup table ident := by
  have same : lookup (update table packet) ident = (lookup table ident).map
      fun other => if other.ident = packet.ident then packet else other := by
    rw [lookup, update, find?_map, lookup]
    congr 2
    funext other
    by_cases equal : other.ident = packet.ident
    · simp [equal]
    · simp [equal]
  rw [same]
  by_cases own : ident = packet.ident
  · subst own
    rw [present, if_pos rfl, Option.map_some, if_pos (lookup_ident present).1]
  · rw [if_neg own]
    cases other : lookup table ident with
    | none => rfl
    | some packet =>
      rw [Option.map_some, if_neg ((lookup_ident other).1.symm ▸ own)]

theorem lookup_remove (table : List PartialPacket) (removed ident : Nat) :
    lookup (remove table removed) ident =
      if ident = removed then none else lookup table ident := by
  rw [lookup, remove, find?_filter]
  by_cases own : ident = removed
  · subst own
    simp
  · rw [if_neg own, lookup]
    congr 1
    funext packet
    by_cases equal : packet.ident = ident
    · simp [equal, own]
    · simp [equal]

/-- All partial packets are in the new table, one for each of two
identifications at most. -/
structure Tracks (state : FragmentReassembly) (own other : Nat) : Prop where
  old : state.hOld = []
  distinct : (state.hNew.map PartialPacket.ident).Nodup
  idents : ∀ packet ∈ state.hNew, packet.ident = own ∨ packet.ident = other

namespace Tracks

theorem new (own other : Nat) : Tracks .new own other :=
  ⟨rfl, nodup_nil, fun _ member => nomatch member⟩

theorem update_idents {table : List PartialPacket} {packet : PartialPacket} :
    (update table packet).map PartialPacket.ident = table.map PartialPacket.ident := by
  rw [update, map_map]
  refine map_congr_left fun other _ => ?_
  by_cases same : other.ident = packet.ident
  · simp [same]
  · simp [same]

variable {state : FragmentReassembly} {own other : Nat} (tracks : Tracks state own other)

include tracks

theorem swap : Tracks state other own :=
  ⟨tracks.old, tracks.distinct, fun packet member => (tracks.idents packet member).symm⟩

theorem tidy_eq : state.tidy = state := by
  have subset : state.hNew.map PartialPacket.ident ⊆ [own, other] := by
    intro ident member
    obtain ⟨packet, isIn, rfl⟩ := mem_map.mp member
    simpa using tracks.idents packet isIn
  have few := (subperm_of_subset tracks.distinct subset).length_le
  rw [length_map] at few
  have room : state.crowded = false := by
    rw [crowded, tracks.old, decide_eq_false_iff_not]
    exact Nat.not_lt.mpr few
  rw [tidy, room]
  rfl

theorem locate_eq : ∃ located, state.locate own = (located, .new, state.partialPacket own) ∧
      Tracks located own other ∧
      ∀ ident, lookup located.hNew ident =
        if ident = own then some (state.partialPacket own)
        else lookup state.hNew ident := by
  cases found : lookup state.hNew own with
  | some packet =>
    refine ⟨state, ?_, tracks, ?_⟩
    · simp only [locate, partialPacket, found, Option.getD_some]
    · intro ident
      by_cases same : ident = own
      · rw [if_pos same, same, partialPacket, found, Option.getD_some]
      · rw [if_neg same]
  | none =>
    have fresh : state.partialPacket own = PartialPacket.new own := by
      rw [partialPacket, found, Option.getD_none]
    rw [fresh]
    refine ⟨⟨PartialPacket.new own :: state.hNew, state.hOld⟩, ?_, ?_, ?_⟩
    · have old : lookup state.hOld own = none := by
        rw [tracks.old]
        rfl
      simp only [locate, found, old, tracks.tidy_eq]
    · refine ⟨tracks.old, nodup_cons.mpr ⟨?_, tracks.distinct⟩, ?_⟩
      · intro member
        obtain ⟨packet, isIn, same⟩ := mem_map.mp member
        exact find?_eq_none.mp found packet isIn (decide_eq_true same)
      · intro packet member
        rcases mem_cons.mp member with rfl | member
        · exact .inl rfl
        · exact tracks.idents packet member
    · intro ident
      rw [lookup, find?_cons]
      by_cases same : ident = own
      · simp [same, PartialPacket.new]
      · have away : ¬(PartialPacket.new own).ident = ident := fun equal => same equal.symm
        rw [if_neg same, decide_eq_false away]
        rfl

theorem update (packet : PartialPacket) :
    Tracks (state.changeHome .new (update · packet)) own other := by
  refine ⟨tracks.old, ?_, ?_⟩
  · exact update_idents.symm ▸ tracks.distinct
  · intro changed member
    have ident := mem_map_of_mem (f := PartialPacket.ident) member
    rw [changeHome, update_idents] at ident
    obtain ⟨before, isIn, same⟩ := mem_map.mp ident
    exact same ▸ tracks.idents before isIn

theorem remove (ident : Nat) :
    Tracks (state.changeHome .new (FragmentReassembly.remove · ident)) own other := by
  refine ⟨tracks.old, ?_, ?_⟩
  · exact tracks.distinct.sublist (filter_sublist.map _)
  · intro packet member
    exact tracks.idents packet (mem_filter.mp member).1

end Tracks

section Step

variable {state : FragmentReassembly} {own other fuel : Nat}
  {fragment : FragmentElt} {packet : PartialPacket}
  (tracks : Tracks state own other)
  (ident : fragment.info.identification = own)
include tracks ident

theorem handleFragment_error {trap : Trap}
    (ingested : (state.partialPacket own).ingestFragment fuel fragment = .error trap) :
    state.handleFragment fuel fragment = .error trap := by
  obtain ⟨located, found, -⟩ := tracks.locate_eq
  rw [handleFragment, ident, found]
  dsimp only
  rw [ingested, error_bind]

variable (apart : other ≠ own) (unchanged : packet.ident = own)
include apart unchanged

theorem handleFragment_ok {result : Option (List UInt8 × IPInfo)}
    (ingested : (state.partialPacket own).ingestFragment fuel fragment = .ok (packet, result)) :
    ∃ next, state.handleFragment fuel fragment = .ok (next, result) ∧ Tracks next own other ∧
      next.partialPacket own = (result.elim packet fun _ => PartialPacket.new own) ∧
      next.partialPacket other = state.partialPacket other := by
  obtain ⟨located, found, located_tracks, lookups⟩ := tracks.locate_eq
  have present : lookup located.hNew packet.ident = some (state.partialPacket own) := by
    rw [lookups, if_pos unchanged]
  rw [handleFragment, ident, found]
  dsimp only
  rw [ingested, ok_bind]
  cases result with
  | none =>
    refine ⟨_, rfl, located_tracks.update packet, ?_, ?_⟩
    · rw [partialPacket, changeHome, lookup_update present, if_pos unchanged.symm]
      rfl
    · rw [partialPacket, changeHome, lookup_update present,
        if_neg (unchanged.symm ▸ apart), lookups, if_neg apart, partialPacket]
  | some dispatched =>
    refine ⟨_, rfl, located_tracks.remove packet.ident, ?_, ?_⟩
    · rw [partialPacket, changeHome, lookup_remove, if_pos unchanged.symm]
      rfl
    · rw [partialPacket, changeHome, lookup_remove, if_neg (unchanged.symm ▸ apart),
        lookups, if_neg apart, partialPacket]

end Step

end FragmentReassembly

/-! ## Arrivals -/

/-- An arrival of a piece of the packet or of the other packet. -/
inductive Arrival (own other : Split) where
  | own (index : Fin own.count)
  | other (index : Fin other.count)

namespace Arrival

variable {own other : Split}

/-- The fragment that arrives. -/
def fragment : Arrival own other → FragmentElt
  | .own index => own.fragment index
  | .other index => other.fragment index

/-- The arrival is one of the packet. -/
def isOwn : Arrival own other → Bool
  | .own _ => true
  | .other _ => false

/-- The pieces of the packet, in the order of their arrival. -/
def ownPieces (arrivals : List (Arrival own other)) : List Nat :=
  arrivals.filterMap fun
    | .own index => some index
    | .other _ => none

/-- The pieces of the other packet, in the order of their arrival. -/
def otherPieces (arrivals : List (Arrival own other)) : List Nat :=
  arrivals.filterMap fun
    | .own _ => none
    | .other index => some index

end Arrival

namespace Progress

/-- The progress after a piece; a complete packet starts over. -/
def arrive (count : Nat) (progress : Progress) (index : Nat) : Progress :=
  if (progress.add index).gap = count then start else progress.add index

/-- No piece comes while it is held. -/
def Fresh (count : Nat) : Progress → List Nat → Prop
  | _, [] => True
  | progress, index :: rest =>
    index ∉ progress.held ∧ Fresh count (progress.arrive count index) rest

/-- The packet is complete with the last piece, and not before. -/
def Completes (count : Nat) : Progress → List Nat → Prop
  | _, [] => False
  | progress, [index] =>
    index ∉ progress.held ∧ (progress.add index).gap = count
  | progress, index :: next :: rest =>
    index ∉ progress.held ∧ (progress.add index).gap ≠ count ∧
      Completes count (progress.add index) (next :: rest)

variable {count : Nat} {progress : Progress}

theorem completes_cons {index : Nat} {rest : List Nat} (more : rest ≠ []) :
    Completes count progress (index :: rest) ↔
      index ∉ progress.held ∧ (progress.add index).gap ≠ count ∧
        Completes count (progress.add index) rest := by
  cases rest with
  | nil => exact absurd rfl more
  | cons next rest => rfl

variable {indices : List Nat}

theorem Completes.fresh (completes : Completes count progress indices) :
    ∀ index ∈ indices, index ∉ progress.held := by
  induction indices generalizing progress with
  | nil => exact fun index member => nomatch member
  | cons first rest induction =>
    intro index member
    rcases mem_cons.mp member with rfl | member
    · cases rest with
      | nil => exact completes.1
      | cons second rest => exact completes.1
    · cases rest with
      | nil => exact nomatch member
      | cons second rest =>
        exact fun held => induction completes.2.2 index member (mem_cons_of_mem _ held)

/-- A packet is completed only by the pieces from the gap on, in their order. -/
theorem Completes.eq_range (inside : ∀ index ∈ indices, index < count)
    (passed : ∀ index < progress.gap, index ∈ progress.held)
    (missing : progress.gap < count)
    (completes : Completes count progress indices) :
    indices = range' progress.gap (count - progress.gap) := by
  induction indices generalizing progress with
  | nil => exact completes.elim
  | cons index rest induction =>
    have bounded := inside index mem_cons_self
    have unfolded : count - progress.gap = count - (progress.gap + 1) + 1 := by
      omega
    cases rest with
    | nil =>
      obtain ⟨-, complete⟩ := completes
      rw [add] at complete
      by_cases turn : index = progress.gap
      · rw [if_pos turn] at complete
        rw [← complete, Nat.add_sub_cancel_left, turn]
        rfl
      · rw [if_neg turn] at complete
        exact absurd complete missing.ne
    | cons second rest =>
      obtain ⟨fresh, incomplete, completes⟩ := completes
      have turn : index = progress.gap := by
        by_contra away
        have same : (progress.add index).gap = progress.gap := if_neg away
        have later := induction (fun index member => inside index (mem_cons_of_mem _ member))
          (add_passed index passed) (same.symm ▸ missing) completes
        have behind : progress.gap ≤ index :=
          Nat.le_of_not_lt fun before => fresh (passed index before)
        refine completes.fresh index ?_ mem_cons_self
        rw [later, same, mem_range'_1]
        omega
      have advanced : (progress.add index).gap = progress.gap + 1 := if_pos turn
      have later := induction (fun index member => inside index (mem_cons_of_mem _ member))
        (add_passed index passed) (by omega) completes
      rw [later, advanced, unfolded, range'_succ, turn]

theorem completes_range {count : Nat} {progress : Progress}
    (held : ∀ index ∈ progress.held, index < progress.gap)
    (missing : progress.gap < count) :
    Completes count progress (range' progress.gap (count - progress.gap)) := by
  obtain ⟨left, rfl⟩ := Nat.exists_eq_add_of_lt missing
  rw [show progress.gap + left + 1 - progress.gap = left + 1 by omega]
  induction left generalizing progress with
  | zero =>
    exact ⟨fun member => lt_irrefl _ (held _ member), if_pos rfl⟩
  | succ left induction =>
    have advanced : (progress.add progress.gap).gap = progress.gap + 1 := if_pos rfl
    rw [range'_succ, completes_cons (by simp)]
    refine ⟨fun member => lt_irrefl _ (held _ member), by omega, ?_⟩
    have later := @induction (progress.add progress.gap) ?_ (by omega)
    · rw [advanced] at later
      convert later using 1
      omega
    · intro index member
      rw [advanced]
      rcases mem_cons.mp member with rfl | member
      · exact Nat.lt_succ_self _
      · exact (held index member).trans (Nat.lt_succ_self _)

theorem completes_start_iff (positive : 0 < count) (inside : ∀ index ∈ indices, index < count) :
    Completes count start indices ↔ indices = range count := by
  rw [range_eq_range']
  constructor
  · intro completes
    exact completes.eq_range inside (by simp [start]) positive
  · rintro rfl
    exact @completes_range count start (by simp [start]) positive

end Progress

/-! ## Runs -/

/-- The tables hold what has come of both packets. -/
structure Serves (own other : Split) (ours theirs : Progress)
    (state : FragmentReassembly) : Prop where
  tracks : state.Tracks own.ident other.ident
  own : Simulates own ours (state.partialPacket own.ident)
  other : Simulates other theirs (state.partialPacket other.ident)

/-- The whole packet is dispatched with the last arrival, and nothing of the
packet before. -/
def DispatchesFrom {own other : Split} (fuel : Nat) (state : FragmentReassembly)
    (arrivals : List (Arrival own other)) : Prop :=
  ∃ final dispatched info,
    state.handleFragments fuel (arrivals.map Arrival.fragment) =
      .ok (final, dispatched) ∧
    decodeIpPacket fuel own.assembled = .ok info ∧
    dispatched.getLast? = some (some (own.assembled, info)) ∧
    ∀ arrival ∈ (arrivals.zip dispatched).dropLast,
      arrival.1.isOwn = true → arrival.2 = none

namespace Serves

variable {own other : Split} {ours theirs : Progress} {state : FragmentReassembly} {index : Nat}

theorem new (own other : Split) : Serves own other .start .start .new :=
  ⟨.new _ _, .new own, .new other⟩

theorem swap (serves : Serves own other ours theirs state) : Serves other own theirs ours state :=
  ⟨serves.tracks.swap, serves.other, serves.own⟩

variable (serves : Serves own other ours theirs state) (fuel : Nat)
include serves

theorem fresh_of_handled {result : FragmentReassembly × Option (List UInt8 × IPInfo)}
    (inside : index < own.count)
    (handled : state.handleFragment fuel (own.fragment index) = .ok result) :
    index ∉ ours.held := by
  intro held
  rw [handleFragment_error serves.tracks (own.carries index inside).identification
    (serves.own.ingest_held fuel held)] at handled
  cases handled

variable (apart : other.ident ≠ own.ident) (inside : index < own.count) (fresh : index ∉ ours.held)
include apart inside fresh

theorem handle_open (missing : (ours.add index).gap ≠ own.count) :
    ∃ next, state.handleFragment fuel (own.fragment index) = .ok (next, none) ∧
      Serves own other (ours.add index) theirs next := by
  obtain ⟨grown, simulates, ingested⟩ := serves.own.ingest_fresh inside fresh fuel
  rw [simulates.finishIngest_open fuel missing] at ingested
  obtain ⟨next, handled, tracks, same, kept⟩ := handleFragment_ok serves.tracks
      (own.carries index inside).identification apart simulates.ident ingested
  rw [Option.elim_none] at same
  exact ⟨next, handled, tracks, same.symm ▸ simulates, kept.symm ▸ serves.other⟩

theorem handle_complete {info : IPInfo} (complete : (ours.add index).gap = own.count)
    (decoded : decodeIpPacket fuel own.assembled = .ok info) :
    ∃ next, state.handleFragment fuel (own.fragment index) =
        .ok (next, some (own.assembled, info)) ∧
      Serves own other .start theirs next := by
  obtain ⟨grown, simulates, ingested⟩ := serves.own.ingest_fresh inside fresh fuel
  rw [simulates.finishIngest_complete complete decoded] at ingested
  obtain ⟨next, handled, tracks, same, kept⟩ := handleFragment_ok serves.tracks
      (own.carries index inside).identification apart simulates.ident ingested
  rw [Option.elim_some] at same
  exact ⟨next, handled, tracks, same.symm ▸ .new own, kept.symm ▸ serves.other⟩

theorem handle_fresh : ∃ next dispatched, state.handleFragment fuel (own.fragment index) =
        .ok (next, dispatched) ∧
      Serves own other (ours.arrive own.count index) theirs next := by
  rw [Progress.arrive]
  by_cases complete : (ours.add index).gap = own.count
  · obtain ⟨info, decoded⟩ := own.assembled_decodes fuel
    obtain ⟨next, handled, served⟩ :=
      serves.handle_complete fuel apart inside fresh complete decoded
    exact ⟨next, _, handled, by rwa [if_pos complete]⟩
  · obtain ⟨next, handled, served⟩ := serves.handle_open fuel apart inside fresh complete
    exact ⟨next, _, handled, by rwa [if_neg complete]⟩

end Serves

section Runs

variable {own other : Split} {state : FragmentReassembly} {fuel : Nat}

variable {fragments : List FragmentElt} {final : FragmentReassembly}
  {dispatched : List (Option (List UInt8 × IPInfo))}

theorem handleFragments_cons_iff {fragment : FragmentElt} :
    state.handleFragments fuel (fragment :: fragments) = .ok (final, dispatched) ↔
      ∃ next first later, state.handleFragment fuel fragment = .ok (next, first) ∧
        next.handleFragments fuel fragments = .ok (final, later) ∧
        first :: later = dispatched := by
  rw [handleFragments, bind_eq_ok_iff]
  constructor
  · rintro ⟨⟨next, first⟩, handled, rest⟩
    obtain ⟨⟨last, later⟩, run, returned⟩ := of_bind rest
    cases returned
    exact ⟨next, first, later, handled, run, rfl⟩
  · rintro ⟨next, first, later, handled, rest, rfl⟩
    refine ⟨(next, first), handled, ?_⟩
    dsimp only
    rw [rest]
    rfl

theorem handleFragments_length
    (handled : state.handleFragments fuel fragments = .ok (final, dispatched)) :
    dispatched.length = fragments.length := by
  induction fragments generalizing state dispatched with
  | nil =>
    cases handled
    rfl
  | cons fragment fragments induction =>
    obtain ⟨next, first, later, -, rest, rfl⟩ := handleFragments_cons_iff.mp handled
    rw [length_cons, induction rest, length_cons]

theorem dispatchesFrom_singleton {index : Fin own.count} :
    DispatchesFrom fuel state [(.own index : Arrival own other)] ↔
      ∃ next info, decodeIpPacket fuel own.assembled = .ok info ∧
        state.handleFragment fuel (own.fragment index) =
          .ok (next, some (own.assembled, info)) := by
  constructor
  · rintro ⟨final, dispatched, info, handled, decoded, last, -⟩
    obtain ⟨next, first, later, arrived, rest, rfl⟩ := handleFragments_cons_iff.mp handled
    cases rest
    cases last
    exact ⟨final, info, decoded, arrived⟩
  · rintro ⟨next, info, decoded, handled⟩
    refine ⟨next, _, info, handleFragments_cons_iff.mpr
      ⟨next, _, [], handled, rfl, rfl⟩, decoded, rfl, ?_⟩
    intro arrival member
    cases member

theorem dispatchesFrom_cons {arrival : Arrival own other} {rest : List (Arrival own other)}
    (more : rest ≠ []) :
    DispatchesFrom fuel state (arrival :: rest) ↔ ∃ next dispatched,
        state.handleFragment fuel arrival.fragment = .ok (next, dispatched) ∧
        (arrival.isOwn = true → dispatched = none) ∧
        DispatchesFrom fuel next rest := by
  -- The arrivals and what they dispatch are equally many, so both rests are
  -- nonempty.
  have apart : ∀ {next final : FragmentReassembly} {first : Option (List UInt8 × IPInfo)}
      {later : List (Option (List UInt8 × IPInfo))},
      next.handleFragments fuel (rest.map Arrival.fragment) = .ok (final, later) →
      (first :: later).getLast? = later.getLast? ∧
        ((arrival :: rest).zip (first :: later)).dropLast =
          (arrival, first) :: (rest.zip later).dropLast := by
    intro next final first later handled
    have length := handleFragments_length handled
    rw [length_map] at length
    cases later with
    | nil => exact absurd (length_eq_zero_iff.mp length.symm) more
    | cons second later =>
      cases rest with
      | nil => exact absurd rfl more
      | cons following rest => exact ⟨getLast?_cons_cons, rfl⟩
  constructor
  · rintro ⟨final, dispatched, info, handled, decoded, last, quiet⟩
    obtain ⟨next, first, later, arrived, run, rfl⟩ := handleFragments_cons_iff.mp handled
    obtain ⟨sameLast, samePairs⟩ := @apart _ _ first _ run
    rw [sameLast] at last
    rw [samePairs, forall_mem_cons] at quiet
    exact ⟨next, first, arrived, quiet.1, final, later, info, run, decoded, last, quiet.2⟩
  · rintro ⟨next, first, handled, silent, final, later, info, run, decoded, last, quiet⟩
    obtain ⟨sameLast, samePairs⟩ := @apart _ _ first _ run
    refine ⟨final, first :: later, info, handleFragments_cons_iff.mpr
      ⟨next, first, later, handled, run, rfl⟩, decoded, ?_, ?_⟩
    · rw [sameLast, last]
    · rw [samePairs, forall_mem_cons]
      exact ⟨silent, quiet⟩

/-- A run dispatches the packet exactly when its pieces complete it and the
other packet repeats no held piece. -/
theorem dispatchesFrom_iff {ours theirs : Progress} {before : List (Arrival own other)}
    {last : Fin own.count} (apart : other.ident ≠ own.ident)
    (serves : Serves own other ours theirs state) :
    DispatchesFrom fuel state (before ++ [.own last]) ↔ Progress.Completes own.count ours
          (Arrival.ownPieces (before ++ [.own last])) ∧
        Progress.Fresh other.count theirs (Arrival.otherPieces before) := by
  induction before generalizing state ours theirs with
  | nil =>
    rw [nil_append, dispatchesFrom_singleton]
    constructor
    · rintro ⟨next, info, decoded, handled⟩
      have fresh := serves.fresh_of_handled fuel last.isLt handled
      refine ⟨⟨fresh, ?_⟩, trivial⟩
      by_contra missing
      obtain ⟨_, silent, -⟩ := serves.handle_open fuel apart last.isLt fresh missing
      rw [handled] at silent
      cases silent
    · rintro ⟨⟨fresh, complete⟩, -⟩
      obtain ⟨info, decoded⟩ := own.assembled_decodes fuel
      obtain ⟨next, handled, -⟩ :=
        serves.handle_complete fuel apart last.isLt fresh complete decoded
      exact ⟨next, info, decoded, handled⟩
  | cons arrival before induction =>
    have more : before ++ [.own last] ≠ [] := append_ne_nil_of_right_ne_nil _ (cons_ne_nil _ _)
    rw [cons_append, dispatchesFrom_cons more]
    cases arrival with
    | own index =>
      have pieces : Arrival.ownPieces (before ++ [.own last]) ≠ [] := by
        simp [Arrival.ownPieces]
      have step : Arrival.ownPieces (.own index :: (before ++ [.own last])) =
          index.val :: Arrival.ownPieces (before ++ [.own last]) := rfl
      have same : Arrival.otherPieces (.own index :: before) = Arrival.otherPieces before := rfl
      rw [step, same, Progress.completes_cons pieces]
      constructor
      · rintro ⟨next, dispatched, handled, silent, run⟩
        cases silent rfl
        have fresh := serves.fresh_of_handled fuel index.isLt handled
        have missing : (ours.add index).gap ≠ own.count := by
          intro complete
          obtain ⟨info, decoded⟩ := own.assembled_decodes fuel
          obtain ⟨_, loud, -⟩ := serves.handle_complete fuel apart index.isLt fresh complete decoded
          cases handled.symm.trans loud
        obtain ⟨_, opened, served⟩ := serves.handle_open fuel apart index.isLt fresh missing
        cases handled.symm.trans opened
        obtain ⟨completes, others⟩ := (induction served).mp run
        exact ⟨⟨fresh, missing, completes⟩, others⟩
      · rintro ⟨⟨fresh, missing, completes⟩, others⟩
        obtain ⟨next, handled, served⟩ := serves.handle_open fuel apart index.isLt fresh missing
        exact ⟨next, none, handled, fun _ => rfl, (induction served).mpr ⟨completes, others⟩⟩
    | other index =>
      constructor
      · rintro ⟨next, dispatched, handled, -, run⟩
        have fresh := serves.swap.fresh_of_handled fuel index.isLt handled
        obtain ⟨_, _, accepted, served⟩ := serves.swap.handle_fresh fuel apart.symm index.isLt fresh
        cases handled.symm.trans accepted
        obtain ⟨completes, others⟩ := (induction served.swap).mp run
        exact ⟨completes, fresh, others⟩
      · rintro ⟨completes, fresh, others⟩
        obtain ⟨next, dispatched, handled, served⟩ :=
          serves.swap.handle_fresh fuel apart.symm index.isLt fresh
        refine ⟨next, dispatched, handled, ?_, (induction served.swap).mpr ⟨completes, others⟩⟩
        intro isOwn
        cases isOwn

end Runs

theorem Arrival.ownPieces_inside {own other : Split} (arrivals : List (Arrival own other)) :
    ∀ index ∈ Arrival.ownPieces arrivals, index < own.count := by
  intro index member
  obtain ⟨arrival, -, same⟩ := mem_filterMap.mp member
  cases arrival with
  | own piece =>
    cases same
    exact piece.isLt
  | other piece => cases same

/-- The whole packet is dispatched with its last fragment, and nothing of it
before, exactly when its fragments come once each in the order of their offsets
and no fragment of the other packet comes again while it is held. -/
theorem dispatched_iff_in_order {own other : Split} (apart : other.ident ≠ own.ident) (fuel : Nat)
    (before : List (Arrival own other)) (last : Fin own.count) :
    DispatchesFrom fuel .new (before ++ [.own last]) ↔
      Arrival.ownPieces (before ++ [.own last]) = List.range own.count ∧
        Progress.Fresh other.count .start (Arrival.otherPieces before) := by
  rw [dispatchesFrom_iff apart (.new own other),
    Progress.completes_start_iff own.positive (Arrival.ownPieces_inside _)]

/-! ## Two packets of nine bytes -/

/-- The pieces of a payload of nine bytes. -/
def samplePiece (index : Nat) : List UInt8 :=
  if index = 0 then [0, 1, 2, 3, 4, 5, 6, 7] else [8]

/-- The fragments of the payload. -/
def sampleFragment (ident : UInt8) (index : Nat) : FragmentElt :=
  let ends : Bytes 4 := ⟨[10, 0, 0, 1], rfl⟩
  let header (length flags offset : UInt8) : List UInt8 :=
    [0x45, 0, 0, length, 0, ident, flags, offset, 64, 17, 0, 0] ++
      (ends.bytes ++ ends.bytes)
  if index = 0 then
    ⟨header 28 0x20 0 ++ samplePiece 0,
      ⟨.ipv4 ends, .ipv4 ends, 17, 20, 8, 28, true, 0, ident.toNat, none, true,
        false⟩⟩
  else
    ⟨header 21 0 1 ++ samplePiece 1,
      ⟨.ipv4 ends, .ipv4 ends, 17, 20, 1, 21, false, 8, ident.toNat, none, true,
        false⟩⟩

/-- One of two packets with different identifications. -/
def sampleSplit (second : Bool) : Split where
  ident := (if second then 8 else 7 : UInt8).toNat
  count := 2
  piece := samplePiece
  fragment := sampleFragment (if second then 8 else 7)
  positive := by decide
  nonempty := by decide
  short := by decide
  carries := by
    intro index inside
    rcases Nat.le_one_iff_eq_zero_or_eq_one.mp (Nat.le_of_lt_succ inside) with
      rfl | rfl
    · cases second <;> constructor <;> decide
    · cases second <;> constructor <;> decide

/-- The first or the second fragment of a sample. -/
def samplePart (second late : Bool) : Fin (sampleSplit second).count :=
  if late then ⟨1, Nat.one_lt_two⟩ else ⟨0, Nat.two_pos⟩

/-- An arrival of a fragment of one of the samples. -/
def sampleArrival (second late : Bool) :
    Arrival (sampleSplit false) (sampleSplit true) :=
  match second with
  | false => .own (samplePart false late)
  | true => .other (samplePart true late)

/-- In the order of the offsets the packet is dispatched. -/
theorem dispatched_iff_in_order_sample :
    DispatchesFrom 0 .new [sampleArrival false false, sampleArrival true true,
      sampleArrival false true] :=
  (dispatched_iff_in_order (by decide) 0 [sampleArrival false false, sampleArrival true true]
    (samplePart false true)).mpr ⟨by decide, by decide, trivial⟩

/-- In the reverse order it is not. -/
theorem reversed_not_dispatched : ¬∃ fuel, DispatchesFrom fuel .new
      [sampleArrival false true, sampleArrival false false] := by
  rintro ⟨fuel, dispatches⟩
  obtain ⟨completes, -⟩ := (@dispatchesFrom_iff (sampleSplit false)
    (sampleSplit true) .new fuel .start .start [sampleArrival false true]
    (samplePart false false) (by decide) (.new _ _)).mp dispatches
  have complete : (((Progress.start.add 1).add 0).gap = 2) := completes.2.2.2
  cases complete

end Embassies.Network
