import Embassies.LinuxDbg.WaitPrepare
import Mathlib.Data.Nat.Bitwise
import Mathlib.Data.UInt

/-!
# The pool of shared buffers

The monitor shares buffers with its clients.  A buffer is a mapping with a header
`XaxPortBuffer` in front, which has the handle and the capacity.  `get_buffer` takes the
largest buffer that nobody uses, if it is large enough, and otherwise maps a new one.

The size of a new mapping is meant to be rounded up to pages, but the mask clears one bit
where it should clear twelve.  If the bit was set, the mapping is one byte too short.
-/

namespace Embassies.LinuxDbg

open Library Library.Checked List

/-- `sizeof(XaxPortBuffer)`. -/
def xaxPortBufferSize : UInt32 := 36

/-- `PAGE_SIZE`. -/
def pageSize : UInt32 := 0x1000

/-- `XPBPoolElt`, with the two fields of the buffer that the pool reads. -/
structure XPBPoolElt where
  identity : UInt32
  mappedInClient : Bool
  ownedByClient : Bool
  frozenForSend : Bool
  /-- The key of the segment that a client maps. -/
  shmKey : UInt32
  mappingSize : UInt32
  bufferHandle : UInt32
  capacity : UInt32

/-- `busy`. -/
def XPBPoolElt.busy (elt : XPBPoolElt) : Bool := elt.ownedByClient || elt.frozenForSend

/-- How a client gets at a buffer. -/
inductive BufferReply where
  | useOpenBuffer (handle : UInt32)
  | useShmgetKey (key length : UInt32)

/-- The order in which a hash table is visited. -/
structure VisitOrder where
  visit : List XPBPoolElt → List XPBPoolElt
  perm : ∀ entries, (visit entries).Perm entries

/-- `XPBPool`. -/
structure XPBPool where
  ht : KeyedTable XPBPoolElt.identity
  nameCounter : UInt32
  /-- `uniquifier` of the shared memory. -/
  uniquifier : UInt32

namespace XPBPool

/-- The constructor. -/
def new (uniquifier : UInt32) : XPBPool := ⟨.empty, 0x48000000, uniquifier⟩

/-- `FreeScanner::_visit`. -/
def scan (payloadCapacity : UInt32) (result : Option XPBPoolElt) (elt : XPBPoolElt) :
    Option XPBPoolElt :=
  if elt.busy = false ∧ elt.capacity ≥ payloadCapacity ∧
      result.all (fun best => elt.capacity > best.capacity) then some elt
  else result

/-- `_find_available`. -/
def findAvailable (order : VisitOrder) (pool : XPBPool) (payloadCapacity : UInt32) :
    Option XPBPoolElt :=
  (order.visit pool.ht.entries).foldl (scan payloadCapacity) none

/-- The size of a new mapping. -/
def mapSize (payloadCapacity : UInt32) : UInt32 :=
  ((xaxPortBufferSize + payloadCapacity - 1) &&& ~~~pageSize) + pageSize

/-- The element for a new mapping. -/
def newElt (pool : XPBPool) (payloadCapacity : UInt32) : XPBPoolElt where
  identity := pool.nameCounter + 1
  mappedInClient := false
  ownedByClient := false
  frozenForSend := false
  shmKey := pool.uniquifier ||| (pool.nameCounter + 1)
  mappingSize := mapSize payloadCapacity
  bufferHandle := pool.nameCounter + 1
  capacity := payloadCapacity

/-- `_create_slot`. -/
def createSlot (pool : XPBPool) (payloadCapacity : UInt32) :
    Except Fault (XPBPoolElt × XPBPool) := do
  let elt := pool.newElt payloadCapacity
  let ht ← pool.ht.insert .assertion elt
  return (elt, { pool with ht, nameCounter := pool.nameCounter + 1 })

/-- The buffer that `get_buffer` hands out. -/
def chooseElt (order : VisitOrder) (pool : XPBPool) (payloadCapacity : UInt32) :
    Except Fault (XPBPoolElt × XPBPool) :=
  match pool.findAvailable order payloadCapacity with
  | some elt => .ok (elt, pool)
  | none => pool.createSlot payloadCapacity

/-- The reply to the client. -/
def bufferReply (elt : XPBPoolElt) : BufferReply :=
  if elt.mappedInClient then .useOpenBuffer elt.bufferHandle
  else .useShmgetKey elt.shmKey elt.mappingSize

/-- `get_buffer`. -/
def getBuffer (order : VisitOrder) (pool : XPBPool) (payloadCapacity : UInt32) :
    Except Fault (XPBPoolElt × BufferReply × XPBPool) := do
  let (elt, pool) ← pool.chooseElt order payloadCapacity
  ensure (elt.capacity ≥ payloadCapacity) .assertion
  ensure (elt.busy = false) .assertion
  let ht := pool.ht.modify elt.identity (fun elt => { elt with ownedByClient := true })
    fun _ => rfl
  ensure (elt.bufferHandle = elt.identity) .assertion
  return (elt, bufferReply elt, { pool with ht })

/-- `release_buffer`. -/
def releaseBuffer (pool : XPBPool) (handle : UInt32) (discard : Bool) :
    Except Fault XPBPool :=
  if discard then do
    let ht ← pool.ht.remove .assertion handle
    return { pool with ht }
  else
    match pool.ht.lookup handle with
    | none => .error .outOfBounds
    | some elt => do
      ensure (elt.ownedByClient = true) .assertion
      let ht := pool.ht.modify handle
        (fun elt => { elt with mappedInClient := true, ownedByClient := false })
        fun _ => rfl
      return { pool with ht }

end XPBPool

/-! ## Runs -/

/-- A call of a client. -/
inductive PoolCall where
  | getBuffer (capacity : UInt32)
  | releaseBuffer (handle : UInt32) (discard : Bool)

/-- A pool with the handles that clients have. -/
structure SharedPool where
  pool : XPBPool
  outstanding : List UInt32

namespace SharedPool

/-- A call; none if a client has no such buffer, or if the monitor stops. -/
def step (order : VisitOrder) (shared : SharedPool) : PoolCall → Option SharedPool
  | .getBuffer capacity =>
    match shared.pool.getBuffer order capacity with
    | .error _ => none
    | .ok (elt, _, pool) => some ⟨pool, elt.bufferHandle :: shared.outstanding⟩
  | .releaseBuffer handle discard =>
    if handle ∈ shared.outstanding then
      match shared.pool.releaseBuffer handle discard with
      | .error _ => none
      | .ok pool => some ⟨pool, shared.outstanding.erase handle⟩
    else none

/-- A sequence of calls. -/
def run (order : VisitOrder) (uniquifier : UInt32) (calls : List PoolCall) :
    Option SharedPool :=
  calls.foldlM (step order) ⟨.new uniquifier, []⟩

/-- The mapping of a buffer has room for the header and the payload. -/
def Covered (elt : XPBPoolElt) : Prop :=
  xaxPortBufferSize.toNat + elt.capacity.toNat ≤ elt.mappingSize.toNat

/-- A buffer that is handed out is large enough, is mapped as a whole and has no other
owner, and afterwards all buffers have different handles. -/
def HandsOut (order : VisitOrder) (shared : SharedPool) (capacity : UInt32) : Prop :=
  ∀ elt reply pool, shared.pool.getBuffer order capacity = .ok (elt, reply, pool) →
    capacity ≤ elt.capacity ∧ Covered elt ∧ elt.bufferHandle ∉ shared.outstanding ∧
      (pool.ht.entries.map XPBPoolElt.bufferHandle).Nodup

/-- The call maps a new buffer. -/
def Creates (order : VisitOrder) (shared : SharedPool) (capacity : UInt32) : Prop :=
  shared.pool.findAvailable order capacity = none ∧
    shared.pool.ht.lookup (shared.pool.nameCounter + 1) = none

/-- The size of a buffer with its header, less one, is in an even page. -/
def InEvenPage (capacity : UInt32) : Prop :=
  (xaxPortBufferSize.toNat + capacity.toNat - 1) / pageSize.toNat % 2 = 0

instance (capacity : UInt32) : Decidable (InEvenPage capacity) :=
  inferInstanceAs (Decidable (_ = _))

end SharedPool

/-! ## The size of a mapping -/

variable {pool : XPBPool} {elt : XPBPoolElt} {reply : BufferReply} {call : PoolCall}
  {uniquifier : UInt32} {calls : List PoolCall}

theorem and_compl_add_and (value mask : UInt32) :
    (value &&& ~~~mask) + (value &&& mask) = value := by
  apply UInt32.toBitVec_inj.mp
  rw [UInt32.toBitVec_add, UInt32.toBitVec_and, UInt32.toBitVec_and, UInt32.toBitVec_not,
    BitVec.add_eq_or_of_and_eq_zero]
  · ext i
    simp
    cases value.toBitVec[i] <;> cases mask.toBitVec[i] <;> rfl
  · ext i
    simp
    cases value.toBitVec[i] <;> cases mask.toBitVec[i] <;> simp

/-- A mapping has room for its buffer exactly if the mask clears nothing. -/
theorem mapSize_covers_iff {capacity : UInt32} (small : capacity.toNat < 2 ^ 30) :
    xaxPortBufferSize.toNat + capacity.toNat ≤ (XPBPool.mapSize capacity).toNat ↔
      SharedPool.InEvenPage capacity := by
  have size : (xaxPortBufferSize + capacity - 1).toNat = 35 + capacity.toNat := by
    rw [UInt32.toNat_sub_of_le, UInt32.toNat_add]
    · change (36 + capacity.toNat) % 2 ^ 32 - 1 = _
      omega
    · change 1 ≤ (36 + capacity.toNat) % 2 ^ 32
      omega
  have bit : ((xaxPortBufferSize + capacity - 1) &&& pageSize).toNat =
      (35 + capacity.toNat) / 4096 % 2 * 4096 := by
    rw [UInt32.toNat_and, size]
    change 35 + capacity.toNat &&& 2 ^ 12 = _
    rw [Nat.and_two_pow, Nat.toNat_testBit]
    rfl
  have parts := congrArg UInt32.toNat
    (and_compl_add_and (xaxPortBufferSize + capacity - 1) pageSize)
  rw [UInt32.toNat_add, size, bit] at parts
  rw [XPBPool.mapSize, UInt32.toNat_add, SharedPool.InEvenPage]
  change 36 + capacity.toNat ≤ (_ + 4096) % 2 ^ 32 ↔ (36 + capacity.toNat - 1) / 4096 % 2 = 0
  omega

namespace SharedPool

open XPBPool

variable {order : VisitOrder} {shared after : SharedPool} {capacity : UInt32}

/-! ## What one call does -/

theorem of_findAvailable (found : pool.findAvailable order capacity = some elt) :
    elt ∈ pool.ht ∧ elt.busy = false ∧ capacity ≤ elt.capacity := by
  have scanned : ∀ (entries : List XPBPoolElt) (best : Option XPBPoolElt),
      entries.foldl (scan capacity) best = some elt →
        best = some elt ∨ (elt ∈ entries ∧ elt.busy = false ∧ capacity ≤ elt.capacity) := by
    intro entries
    induction entries with
    | nil => exact fun best same => .inl same
    | cons entry entries induction =>
      intro best same
      rcases induction _ same with chosen | ⟨member, free⟩
      · rw [scan] at chosen
        split at chosen
        · rename_i fits
          cases chosen
          exact .inr ⟨mem_cons_self, fits.1, fits.2.1⟩
        · exact .inl chosen
      · exact .inr ⟨mem_cons_of_mem _ member, free⟩
  rcases scanned _ none found with chosen | ⟨member, free⟩
  · exact absurd chosen nofun
  · exact ⟨(order.perm _).subset member, free⟩

/-- What holds between the calls. -/
structure Sound (shared : SharedPool) : Prop where
  handles : ∀ elt ∈ shared.pool.ht, elt.bufferHandle = elt.identity
  owned : ∀ handle ∈ shared.outstanding, ∃ elt ∈ shared.pool.ht,
    elt.identity = handle ∧ elt.ownedByClient = true
  nodup : shared.outstanding.Nodup

section Given

variable (given : shared.pool.getBuffer order capacity = .ok (elt, reply, pool))

include given

/-- The buffer that is handed out comes from the pool or is a new one. -/
theorem getBuffer_cases :
    capacity ≤ elt.capacity ∧ elt.busy = false ∧ elt.bufferHandle = elt.identity ∧
      ∃ before : XPBPool, pool = { before with
          ht := before.ht.modify elt.identity
            (fun elt => { elt with ownedByClient := true }) fun _ => rfl } ∧
        ((shared.pool.findAvailable order capacity = some elt ∧ before = shared.pool) ∨
          (shared.Creates order capacity ∧ elt = shared.pool.newElt capacity ∧
            before.ht.entries = elt :: shared.pool.ht.entries)) := by
  obtain ⟨⟨chosen, before⟩, choice, checks⟩ := of_bind given
  obtain ⟨_, large, checks⟩ := of_bind checks
  obtain ⟨_, free, checks⟩ := of_bind checks
  obtain ⟨_, named, returned⟩ := of_bind checks
  cases returned
  refine ⟨ensure_eq_ok_iff.mp large, ensure_eq_ok_iff.mp free, ensure_eq_ok_iff.mp named,
    before, rfl, ?_⟩
  rw [chooseElt] at choice
  cases found : shared.pool.findAvailable order capacity with
  | some other =>
    rw [found] at choice
    cases choice
    exact .inl ⟨rfl, rfl⟩
  | none =>
    rw [found] at choice
    obtain ⟨ht, inserted, same⟩ := of_bind choice
    cases same
    obtain ⟨absent, entries⟩ := KeyedTable.insert_eq_ok_iff.mp inserted
    exact .inr ⟨⟨found, KeyedTable.lookup_eq_none_iff.mpr absent⟩, rfl, entries⟩

theorem mem_getBuffer_iff {other : XPBPoolElt} : other ∈ pool.ht ↔
    other = { elt with ownedByClient := true } ∨
      (other ∈ shared.pool.ht ∧ other.identity ≠ elt.identity) := by
  obtain ⟨-, -, -, before, rfl, source⟩ := getBuffer_cases given
  have before_iff : ∀ old, old ∈ before.ht ↔ old = elt ∨ old ∈ shared.pool.ht := by
    intro old
    rcases source with ⟨found, rfl⟩ | ⟨-, -, entries⟩
    · exact ⟨.inr, fun known => known.elim (fun same => same ▸ (of_findAvailable found).1) id⟩
    · rw [KeyedTable.mem_def, entries]
      exact mem_cons
  have eltIn := (before_iff elt).mpr (.inl rfl)
  rw [KeyedTable.mem_modify (by intro; rfl)]
  constructor
  · rintro ⟨old, oldIn, changed⟩
    split at changed
    · rename_i same
      rw [KeyedTable.eq_of_key oldIn eltIn same] at changed
      exact .inl changed.symm
    · rename_i apart
      subst changed
      rcases (before_iff old).mp oldIn with rfl | known
      · exact absurd rfl apart
      · exact .inr ⟨known, apart⟩
  · rintro (rfl | ⟨known, apart⟩)
    · exact ⟨elt, eltIn, if_pos rfl⟩
    · exact ⟨other, (before_iff other).mpr (.inr known), if_neg apart⟩

end Given

theorem Sound.fresh (sound : shared.Sound)
    (given : shared.pool.getBuffer order capacity = .ok (elt, reply, pool)) :
    elt.identity ∉ shared.outstanding := by
  intro listed
  obtain ⟨owner, ownerIn, same, isOwned⟩ := sound.owned _ listed
  obtain ⟨-, -, -, before, -, source⟩ := getBuffer_cases given
  rcases source with ⟨found, -⟩ | ⟨⟨-, absent⟩, rfl, -⟩
  · obtain ⟨member, free, -⟩ := of_findAvailable found
    rw [KeyedTable.eq_of_key ownerIn member same] at isOwned
    rw [XPBPoolElt.busy, isOwned] at free
    exact absurd free nofun
  · exact KeyedTable.lookup_eq_none_iff.mp absent owner ownerIn same

theorem Sound.getBuffer (sound : shared.Sound)
    (given : shared.pool.getBuffer order capacity = .ok (elt, reply, pool)) :
    Sound ⟨pool, elt.bufferHandle :: shared.outstanding⟩ := by
  obtain ⟨-, -, named, -⟩ := getBuffer_cases given
  refine ⟨?_, ?_, ?_⟩
  · intro other member
    rcases (mem_getBuffer_iff given).mp member with rfl | ⟨known, -⟩
    · exact named
    · exact sound.handles other known
  · intro handle listed
    rcases mem_cons.mp listed with rfl | listed
    · exact ⟨_, (mem_getBuffer_iff given).mpr (.inl rfl), named.symm, rfl⟩
    · obtain ⟨owner, ownerIn, same, isOwned⟩ := sound.owned _ listed
      refine ⟨owner, (mem_getBuffer_iff given).mpr (.inr ⟨ownerIn, ?_⟩), same, isOwned⟩
      intro equal
      exact sound.fresh given (equal ▸ same ▸ listed)
  · rw [named]
    exact nodup_cons.mpr ⟨sound.fresh given, sound.nodup⟩

theorem mem_releaseBuffer {handle : UInt32} {discard : Bool} {after : XPBPool}
    (released : pool.releaseBuffer handle discard = .ok after) :
    (∀ elt ∈ after.ht, ∃ before ∈ pool.ht, elt.identity = before.identity ∧
      elt.bufferHandle = before.bufferHandle ∧ elt.capacity = before.capacity ∧
      elt.mappingSize = before.mappingSize) ∧
    ∀ elt ∈ pool.ht, elt.identity ≠ handle → elt ∈ after.ht := by
  rw [releaseBuffer] at released
  split at released
  · obtain ⟨ht, removed, same⟩ := of_bind released
    cases same
    obtain ⟨-, rfl⟩ := KeyedTable.remove_eq_ok_iff.mp removed
    refine ⟨fun elt member => ⟨elt, (KeyedTable.mem_filter.mp member).1, rfl, rfl, rfl, rfl⟩,
      fun elt member apart => ?_⟩
    exact KeyedTable.mem_filter.mpr ⟨member, decide_eq_true apart⟩
  · split at released
    · cases released
    · obtain ⟨_, -, same⟩ := of_bind released
      cases same
      constructor
      · intro elt member
        obtain ⟨before, beforeIn, rfl⟩ := (KeyedTable.mem_modify (by intro; rfl)).mp member
        refine ⟨before, beforeIn, ?_⟩
        split
        · exact ⟨rfl, rfl, rfl, rfl⟩
        · exact ⟨rfl, rfl, rfl, rfl⟩
      · intro elt member apart
        exact (KeyedTable.mem_modify (by intro; rfl)).mpr ⟨elt, member, if_neg apart⟩

theorem Sound.releaseBuffer (sound : shared.Sound) {handle : UInt32} {discard : Bool}
    (released : shared.pool.releaseBuffer handle discard = .ok pool) :
    Sound ⟨pool, shared.outstanding.erase handle⟩ := by
  obtain ⟨known, kept⟩ := mem_releaseBuffer released
  refine ⟨?_, ?_, sound.nodup.erase handle⟩
  · intro elt member
    obtain ⟨before, beforeIn, identity, named, -⟩ := known elt member
    rw [identity, named]
    exact sound.handles before beforeIn
  · intro other listed
    obtain ⟨apart, listed⟩ := sound.nodup.mem_erase_iff.mp listed
    obtain ⟨owner, ownerIn, same, isOwned⟩ := sound.owned _ listed
    exact ⟨owner, kept owner ownerIn (same ▸ apart), same, isOwned⟩

/-! ## Whole runs -/

/-- What a call that is made does to the pool. -/
theorem step_cases (stepped : shared.step order call = some after) :
    (∃ capacity elt reply, call = .getBuffer capacity ∧
      shared.pool.getBuffer order capacity = .ok (elt, reply, after.pool) ∧
      after.outstanding = elt.bufferHandle :: shared.outstanding) ∨
    ∃ handle discard, call = .releaseBuffer handle discard ∧
      shared.pool.releaseBuffer handle discard = .ok after.pool ∧
      after.outstanding = shared.outstanding.erase handle := by
  cases call with
  | getBuffer capacity =>
    cases given : shared.pool.getBuffer order capacity with
    | error reason => simp [step, given] at stepped
    | ok outcome =>
      simp only [step, given, Option.some.injEq] at stepped
      subst stepped
      exact .inl ⟨capacity, _, _, rfl, given, rfl⟩
  | releaseBuffer handle discard =>
    rw [step] at stepped
    split at stepped
    · cases released : shared.pool.releaseBuffer handle discard with
      | error reason => simp [released] at stepped
      | ok pool =>
        simp only [released, Option.some.injEq] at stepped
        subst stepped
        exact .inr ⟨handle, discard, rfl, released, rfl⟩
    · exact absurd stepped nofun

theorem Sound.step (sound : shared.Sound)
    (stepped : shared.step order call = some after) : after.Sound := by
  rcases step_cases stepped with
    ⟨capacity, elt, reply, -, given, outstanding⟩ | ⟨handle, discard, -, released, outstanding⟩
  · have kept := sound.getBuffer given
    rw [← outstanding] at kept
    exact kept
  · have kept := sound.releaseBuffer released
    rw [← outstanding] at kept
    exact kept

theorem run_append_eq_some (ran : run order uniquifier (calls ++ [call]) = some after) :
    ∃ before, run order uniquifier calls = some before ∧ before.step order call = some after := by
  rw [run, foldlM_append] at ran
  obtain ⟨before, first, last⟩ := Option.bind_eq_some_iff.mp ran
  obtain ⟨_, stepped, same⟩ := Option.bind_eq_some_iff.mp last
  cases same
  exact ⟨before, first, stepped⟩

theorem run_sound (ran : run order uniquifier calls = some shared) : shared.Sound := by
  induction calls using List.reverseRecOn generalizing shared with
  | nil =>
    cases ran
    exact ⟨nofun, nofun, nodup_nil⟩
  | append_singleton calls call induction =>
    obtain ⟨before, first, stepped⟩ := run_append_eq_some ran
    exact (induction first).step stepped

theorem newElt_covered_iff (small : capacity.toNat < 2 ^ 30) :
    Covered (pool.newElt capacity) ↔ InEvenPage capacity :=
  mapSize_covers_iff small

theorem run_covered (small : ∀ capacity, .getBuffer capacity ∈ calls → capacity.toNat < 2 ^ 30)
    (even : ∀ earlier capacity, earlier ++ [.getBuffer capacity] <+: calls →
      ∀ before, run order uniquifier earlier = some before →
        before.Creates order capacity → InEvenPage capacity)
    (ran : run order uniquifier calls = some shared) :
    ∀ elt ∈ shared.pool.ht, Covered elt := by
  induction calls using List.reverseRecOn generalizing shared with
  | nil =>
    cases ran
    exact nofun
  | append_singleton calls call induction =>
    obtain ⟨before, first, stepped⟩ := run_append_eq_some ran
    have covered := induction (fun capacity member => small capacity (mem_append_left _ member))
      (fun earlier capacity short => even earlier capacity (short.trans (prefix_append _ _))) first
    intro elt member
    rcases step_cases stepped with ⟨capacity, given, reply, rfl, took, -⟩ |
      ⟨handle, discard, -, released, -⟩
    · rcases (mem_getBuffer_iff took).mp member with rfl | ⟨known, -⟩
      · change Covered given
        obtain ⟨-, -, -, _, -, source⟩ := getBuffer_cases took
        rcases source with ⟨found, -⟩ | ⟨creates, rfl, -⟩
        · exact covered given (of_findAvailable found).1
        · apply (newElt_covered_iff (small capacity (by simp))).mpr
          exact even calls capacity (prefix_refl _) before first creates
      · exact covered elt known
    · obtain ⟨old, oldIn, -, -, capacity, mapping⟩ := (mem_releaseBuffer released).1 elt member
      have oldCovered := covered old oldIn
      rw [Covered] at oldCovered ⊢
      rw [capacity, mapping]
      exact oldCovered

/-- In a run every buffer is handed out as it should exactly if every new mapping is for
a size, less one, that ends in an even page. -/
theorem handouts_sound_iff (order : VisitOrder) (uniquifier : UInt32) (calls : List PoolCall)
    (small : ∀ capacity, .getBuffer capacity ∈ calls → capacity.toNat < 2 ^ 30) :
    (∀ earlier capacity, earlier ++ [.getBuffer capacity] <+: calls →
      ∀ before, run order uniquifier earlier = some before → before.HandsOut order capacity) ↔
    ∀ earlier capacity, earlier ++ [.getBuffer capacity] <+: calls →
      ∀ before, run order uniquifier earlier = some before →
        before.Creates order capacity → InEvenPage capacity := by
  have smallAt : ∀ earlier capacity, earlier ++ [.getBuffer capacity] <+: calls →
      capacity.toNat < 2 ^ 30 := by
    intro earlier capacity short
    exact small capacity (short.subset (by simp))
  constructor
  · intro handsOut earlier capacity short before ran creates
    rw [← @newElt_covered_iff before.pool capacity (smallAt earlier capacity short)]
    -- the new buffer passes all checks and is handed out
    obtain ⟨none, absent⟩ := creates
    obtain ⟨ht, inserted⟩ := @KeyedTable.exists_insert _ _ _ _ _ Fault.assertion
      before.pool.ht (before.pool.newElt capacity)
      (KeyedTable.lookup_eq_none_iff.mp absent)
    have given : before.pool.getBuffer order capacity = .ok (before.pool.newElt capacity,
        bufferReply (before.pool.newElt capacity), ⟨ht.modify (before.pool.newElt capacity).identity
          (fun elt => { elt with ownedByClient := true }) fun _ => rfl,
          before.pool.nameCounter + 1, before.pool.uniquifier⟩) := by
      rw [getBuffer, chooseElt, none, createSlot]
      simp only [inserted, ok_bind, pure_eq_ok]
      have large : (before.pool.newElt capacity).capacity ≥ capacity := UInt32.le_refl _
      have free : (before.pool.newElt capacity).busy = false := rfl
      have named : (before.pool.newElt capacity).bufferHandle =
          (before.pool.newElt capacity).identity := rfl
      rw [ensure_true large, ok_bind, ensure_true free, ok_bind, ensure_true named, ok_bind]
    exact (handsOut earlier capacity short before ran _ _ _ given).2.1
  · intro even earlier capacity short before ran elt reply pool given
    have sound := run_sound ran
    obtain ⟨large, -, named, _, -, source⟩ := getBuffer_cases given
    have earlierShort : earlier <+: calls := (prefix_append _ _).trans short
    refine ⟨large, ?_, ?_, ?_⟩
    · rcases source with ⟨found, -⟩ | ⟨creates, rfl, -⟩
      · exact run_covered (fun capacity member => small capacity (earlierShort.subset member))
          (fun first capacity firstShort => even first capacity
            (firstShort.trans earlierShort)) ran elt (of_findAvailable found).1
      · exact (newElt_covered_iff (smallAt earlier capacity short)).mpr
          (even earlier capacity short before ran creates)
    · rw [named]
      exact sound.fresh given
    · rw [map_congr_left (sound.getBuffer given).handles]
      exact pool.ht.distinct

/-- Two buffers are handed out, and the first one is released and handed out again. -/
theorem handouts_sound_reused : ∃ before, run ⟨id, fun _ => .refl _⟩ 0
      [.getBuffer 0x2000, .getBuffer 0x4000, .releaseBuffer 0x48000001 false] = some before ∧
    before.HandsOut ⟨id, fun _ => .refl _⟩ 0x1fff := by
  have even : ∀ capacity, PoolCall.getBuffer capacity ∈ [.getBuffer 0x2000, .getBuffer 0x4000,
      .releaseBuffer 0x48000001 false, .getBuffer 0x1fff] →
      capacity.toNat < 2 ^ 30 ∧ InEvenPage capacity := by
    intro capacity member
    simp only [mem_cons, PoolCall.getBuffer.injEq, reduceCtorEq, not_mem_nil, or_false,
      false_or] at member
    rcases member with rfl | rfl | rfl <;> decide
  refine ⟨_, rfl, (handouts_sound_iff ⟨id, fun _ => .refl _⟩ 0 _ ?_).mpr ?_
    [.getBuffer 0x2000, .getBuffer 0x4000, .releaseBuffer 0x48000001 false] 0x1fff
    (prefix_refl _) _ rfl⟩
  · exact fun capacity member => (even capacity member).1
  · intro earlier capacity short before ran creates
    exact (even capacity (short.subset (by simp))).2

/-- A first buffer for 4061 bytes of payload is mapped with one page, which is one byte
less than the header and the payload need. -/
theorem one_page_too_short :
    ∃ elt reply pool, (XPBPool.new 0).getBuffer ⟨id, fun _ => .refl _⟩ 4061 =
        .ok (elt, reply, pool) ∧
      elt.capacity = 4061 ∧ elt.mappingSize = 4096 ∧ ¬Covered elt := by
  refine ⟨_, _, _, rfl, rfl, by decide, ?_⟩
  rw [Covered]
  decide

end SharedPool

end Embassies.LinuxDbg
