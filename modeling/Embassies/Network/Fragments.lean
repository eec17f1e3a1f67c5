import Embassies.Network.Reassembly
import Mathlib.Data.Nat.SuccPred
import Mathlib.Order.Interval.Set.Monotone

/-!
# The fragments of one packet

A packet is split into pieces that are sent as fragments of their own.  What
the receiver knows of such a packet is which pieces it holds and how far it has
advanced its gap; `Progress` is that abstract state.  A partial packet of
`FragmentReassembly` simulates it: the fragments it holds are those of the
pieces, in order, and the gap is where the next piece is expected.

The gap advances over the new fragment only, never over fragments that came
before, so it counts the pieces that came in their turn.
-/

namespace Embassies.Network

open Library Library.Buffer Library.Checked List

/-! ## Packets in pieces -/

/-- A fragment is an IPv4 packet that carries a piece of the payload. -/
structure Carries (ident offset : Nat) (piece : List UInt8) (more : Bool)
    (fragment : FragmentElt) : Prop where
  version : fragment.zcb.head?.map decodeIpVersion = some .ipv4
  header : ip4HeaderSize ≤ fragment.zcb.length
  decoded : decodeIpPacket 0 fragment.zcb = .ok fragment.info
  identification : fragment.info.identification = ident
  fragmentOffset : fragment.info.fragmentOffset = offset
  moreFragments : fragment.info.moreFragments = more
  payloadLength : fragment.info.payloadLength = piece.length
  payload : piece <+: fragment.zcb.drop ip4HeaderSize

/-- Where a piece starts. -/
def pieceOffset (piece : Nat → List UInt8) : Nat → Nat
  | 0 => 0
  | index + 1 => pieceOffset piece index + (piece index).length

/-- A packet that is split into fragments which cover its payload. -/
structure Split where
  ident : Nat
  count : Nat
  piece : Nat → List UInt8
  fragment : Nat → FragmentElt
  positive : 0 < count
  nonempty : ∀ index < count, piece index ≠ []
  short : pieceOffset piece count ≤ 65515
  carries : ∀ index < count,
    Carries ident (pieceOffset piece index) (piece index)
      (decide (index + 1 < count)) (fragment index)

namespace Split

/-- Where a piece starts. -/
def offset (split : Split) : Nat → Nat :=
  pieceOffset split.piece

/-- The payload of the whole packet. -/
def payload (split : Split) : List UInt8 :=
  (List.range split.count).flatMap split.piece

/-- The payload behind the header of the first fragment. -/
def joined (split : Split) : List UInt8 :=
  (split.fragment 0).zcb.take ip4HeaderSize ++ split.payload

/-- The whole packet: the total length in the header is adjusted, and the fields
for fragments are cleared. -/
def assembled (split : Split) : List UInt8 :=
  patch (patch split.joined 2 (BigEndian.encode 2 split.joined.length)) 6 [0, 0]

variable {split : Split} {index later : Nat}

theorem offset_succ (split : Split) (index : Nat) :
    split.offset (index + 1) = split.offset index + (split.piece index).length :=
  rfl

theorem offset_strictMonoOn (split : Split) : StrictMonoOn split.offset (Set.Iic split.count) := by
  refine strictMonoOn_Iic_of_lt_succ fun index before => ?_
  have positive : 0 < (split.piece index).length := length_pos_iff.mpr (split.nonempty index before)
  exact Nat.lt_add_of_pos_right positive

theorem offset_lt (before : index < later) (inside : later ≤ split.count) :
    split.offset index < split.offset later :=
  split.offset_strictMonoOn (before.le.trans inside) inside before

theorem offset_le (before : index ≤ later) (inside : later ≤ split.count) :
    split.offset index ≤ split.offset later :=
  split.offset_strictMonoOn.monotoneOn (before.trans inside) inside before

theorem payload_prefix_length (split : Split) (index : Nat) :
    ((range index).flatMap split.piece).length = split.offset index := by
  induction index with
  | zero => rfl
  | succ index induction =>
    rw [range_succ, flatMap_append, length_append, induction, offset_succ, flatMap_singleton]

theorem payload_length (split : Split) : split.payload.length = split.offset split.count :=
  split.payload_prefix_length split.count

theorem payload_nonempty (split : Split) : 0 < split.payload.length := by
  have nonempty := @offset_lt split 0 split.count split.positive le_rfl
  rw [payload_length]
  omega

section Fragment

variable (inside : index < split.count)
include inside

theorem start_eq : (split.fragment index).start = split.offset index :=
  (split.carries index inside).fragmentOffset

theorem offset_succ_le : split.offset (index + 1) ≤ 65515 :=
  (offset_le inside le_rfl).trans split.short

theorem size_eq : (split.fragment index).size = (split.piece index).length := by
  have bounded := offset_succ_le inside
  rw [offset_succ] at bounded
  rw [FragmentElt.size, (split.carries index inside).payloadLength, Nat.mod_eq_of_lt (by omega)]

theorem finish_eq : (split.fragment index).finish = split.offset (index + 1) := by
  have bounded := offset_succ_le inside
  rw [FragmentElt.finish, start_eq inside, size_eq inside, ← offset_succ,
    Nat.mod_eq_of_lt (by omega)]

end Fragment

end Split

/-! ## Joining the pieces -/

variable {packet : List UInt8}

theorem decodeIpPacket_ipv4 (fuel : Nat) (version : packet.head?.map decodeIpVersion = some .ipv4) :
    decodeIpPacket fuel packet = decodeIp4Packet packet >>= checkInfo := by
  cases packet with
  | nil => cases version
  | cons first rest =>
    have version : decodeIpVersion first = .ipv4 := Option.some.inj version
    rw [decodeIpPacket, decodeVersion, version]

theorem checkInfo_valid {info checked : IPInfo} (valid : info.packetValid = true)
    (accepted : checkInfo info = .ok checked) :
    checked = info ∧ info.layer4Protocol ≠ 0 := by
  rw [checkInfo, if_pos valid] at accepted
  obtain ⟨_, -, accepted⟩ := of_bind accepted
  obtain ⟨_, -, accepted⟩ := of_bind accepted
  obtain ⟨_, protocol, accepted⟩ := of_bind accepted
  obtain ⟨_, -, accepted⟩ := of_bind accepted
  exact ⟨(Except.ok.inj accepted).symm, ensure_eq_ok_iff.mp protocol⟩

namespace Carries

variable {ident offset : Nat} {piece : List UInt8} {more : Bool}
  {fragment : FragmentElt} (carries : Carries ident offset piece more fragment)
include carries

theorem accepted : fragment.headerSize = ip4HeaderSize ∧ fragment.zcb[9]? ≠ some 0 := by
  obtain ⟨info, decoded, protocol, payloadOffset, valid, -⟩ := decodeIp4Packet_long carries.header
  have whole := carries.decoded
  rw [decodeIpPacket_ipv4 0 carries.version, decoded, ok_bind] at whole
  obtain ⟨same, present⟩ := checkInfo_valid valid whole
  refine ⟨?_, ?_⟩
  · rw [FragmentElt.headerSize, same, payloadOffset]
  · rw [protocol]
    simpa using present

end Carries

theorem copyData_eq_ok {split : Split} {index : Nat} (inside : index < split.count) :
    PartialPacket.copyData (split.fragment index) = .ok (split.piece index) := by
  have carries := split.carries index inside
  have payload := carries.payload
  have fits := payload.length_le
  have header := carries.header
  rw [length_drop] at fits
  obtain ⟨field, read, bytes⟩ := @bytesAt_eq_ok (split.fragment index).zcb
    ip4HeaderSize (split.piece index).length (by omega)
  rw [PartialPacket.copyData, carries.accepted.1, Split.size_eq inside, read,
    ok_bind, bytes, ← prefix_iff_eq_take.mp payload]
  rfl

theorem copyData_range {split : Split} {indices : List Nat}
    (inside : ∀ index ∈ indices, index < split.count) :
    (indices.map split.fragment).mapM PartialPacket.copyData = .ok (indices.map split.piece) := by
  induction indices with
  | nil => rfl
  | cons index indices induction =>
    rw [forall_mem_cons] at inside
    rw [map_cons, mapM_cons, copyData_eq_ok inside.1, ok_bind, induction inside.2, ok_bind]
    rfl

theorem decodeIpPacket_of_total (fuel : Nat)
    (version : packet.head?.map decodeIpVersion = some .ipv4)
    (long : ip4HeaderSize < packet.length)
    (total : fieldAt packet 2 2 = packet.length)
    (protocol : packet[9]? ≠ some 0) :
    ∃ info, decodeIpPacket fuel packet = .ok info := by
  obtain ⟨info, decoded, final, checked, -⟩ := (@decodeIp4_passes_iff packet).mpr fun _ =>
      ⟨total.symm ▸ long, total.le, protocol⟩
  refine ⟨final, ?_⟩
  rw [decodeIpPacket_ipv4 fuel version, decoded, ok_bind, checked]

theorem adjusted_header {packet length : List UInt8} (long : ip4HeaderSize ≤ packet.length)
    (two : length.length = 2) :
    let adjusted := patch (patch packet 2 length) 6 [0, 0]
    adjusted.length = packet.length ∧ adjusted.head? = packet.head? ∧
      (adjusted.drop 2).take 2 = length ∧
      adjusted[9]? = packet[9]? := by
  have long : 20 ≤ packet.length := long
  have first : (patch packet 2 length).length = packet.length := patch_length (by omega)
  have front : (patch (patch packet 2 length) 6 [0, 0]).take 4 = (patch packet 2 length).take 4 :=
    take_patch (by decide) (by omega)
  have back : (patch (patch packet 2 length) 6 [0, 0]).drop 8 = (patch packet 2 length).drop 8 :=
    @drop_patch _ _ [0, 0] 6 (by rw [first]; exact Nat.le_trans (by decide) long)
  refine ⟨?_, ?_, ?_, ?_⟩
  · rw [patch_length (by rw [first]; exact Nat.le_trans (by decide) long), first]
  · have same := @take_patch _ packet length 2 1 (by decide) (by omega)
    have start := congrArg head? front
    have kept := congrArg head? same
    simp only [head?_take, reduceIte, OfNat.ofNat_ne_zero, one_ne_zero] at start kept
    rw [start, kept]
  · have window := congrArg (drop 2) front
    rw [drop_take, drop_take] at window
    rw [window, drop_patch_start (by omega), take_append_of_le_length
      (by omega), take_of_length_le (by omega)]
  · have same : (patch packet 2 length).drop 4 = packet.drop 4 := by
      have kept := @drop_patch _ packet length 2 (by omega)
      rwa [two] at kept
    have rest := congrArg (fun cells => cells[1]?) back
    have kept := congrArg (fun cells => cells[5]?) same
    simp only [getElem?_drop] at rest kept
    rw [rest, kept]

namespace Split

theorem joined_length (split : Split) :
    split.joined.length = ip4HeaderSize + split.payload.length := by
  rw [joined, length_append, length_take_of_le (split.carries 0 split.positive).header]

theorem joined_header (split : Split) {place : Nat} (inside : place < ip4HeaderSize) :
    split.joined[place]? = (split.fragment 0).zcb[place]? := by
  have header := (split.carries 0 split.positive).header
  rw [joined, getElem?_append_left (by rw [length_take_of_le header]; exact inside),
    getElem?_take_of_lt inside]

theorem assembled_decodes (split : Split) (fuel : Nat) :
    ∃ info, decodeIpPacket fuel split.assembled = .ok info := by
  have carries := split.carries 0 split.positive
  have size := split.joined_length
  have nonempty := split.payload_nonempty
  have bounded : split.payload.length ≤ 65515 := split.payload_length ▸ split.short
  have value : ip4HeaderSize = 20 := rfl
  obtain ⟨length, first, total, ninth⟩ := @adjusted_header split.joined
    (BigEndian.encode 2 split.joined.length) (by omega)
    (BigEndian.encode_length _ _)
  apply decodeIpPacket_of_total
  · rw [assembled, first, head?_eq_getElem?, split.joined_header (by decide),
      ← head?_eq_getElem?, carries.version]
  · rw [assembled, length]
    omega
  · rw [fieldAt, assembled, total, length, BigEndian.decode_encode (by omega)]
  · rw [assembled, ninth, split.joined_header (by decide)]
    exact carries.accepted.2

theorem assemblePacket_eq {split : Split} {fuel : Nat} {info : IPInfo}
    (decoded : decodeIpPacket fuel split.assembled = .ok info) :
    PartialPacket.assemblePacket fuel ((range split.count).map split.fragment) =
      .ok (split.assembled, info) := by
  have carries := split.carries 0 split.positive
  have size := split.joined_length
  have value : ip4HeaderSize = 20 := rfl
  have ordered : range split.count = 0 :: (range (split.count - 1)).map (· + 1) := by
    rw [← range_succ_eq_map, Nat.sub_add_cancel split.positive]
  have copied := @copyData_range split (range split.count) fun index member => mem_range.mp member
  obtain ⟨header, read, bytes⟩ := @bytesAt_eq_ok (split.fragment 0).zcb 0
    ip4HeaderSize (by have := carries.header; omega)
  have whole : header.bytes ++ ((range split.count).map split.piece).flatten = split.joined := by
    rw [bytes, drop_zero]
    rfl
  have first := @patch_length _ split.joined (BigEndian.encode 2 split.joined.length) 2
    (by rw [BigEndian.encode_length]; omega)
  rw [ordered] at copied whole ⊢
  rw [map_cons, PartialPacket.assemblePacket, carries.accepted.1, read, ok_bind,
    ← map_cons, copied, ok_bind, whole]
  dsimp only
  rw [store_eq_ok (by rw [BigEndian.encode_length]; omega), ok_bind,
    store_eq_ok (by rw [first]; exact Nat.le_trans (by decide) (size ▸ Nat.le_add_right _ _)),
    ok_bind]
  rw [assembled] at decoded
  rw [decoded]
  rfl

end Split

/-! ## The search tree -/

namespace FragmentTree

/-- The fragments stand in the order of their offsets. -/
def Ordered (tree : List FragmentElt) : Prop :=
  tree.Pairwise fun left right => left.start < right.start

variable {tree : List FragmentElt} {fragment : FragmentElt} {key : Nat}

theorem insert_eq_error (present : ∃ other ∈ tree, other.start = fragment.start) :
    insert tree fragment = .error .assertion := by
  have refused : ¬∀ other ∈ tree, other.start ≠ fragment.start := by
    obtain ⟨other, member, same⟩ := present
    exact fun absent => absent other member same
  rw [insert, ensure, if_neg refused, error_bind]

theorem insert_eq_ok (ordered : Ordered tree)
    (absent : ∀ other ∈ tree, other.start ≠ fragment.start) :
    ∃ grown, insert tree fragment = .ok grown ∧ Ordered grown ∧
      ∀ other, other ∈ grown ↔ other = fragment ∨ other ∈ tree := by
  rw [insert, ensure_true absent]
  refine ⟨_, rfl, ?_, ?_⟩
  · refine pairwise_append.mpr ⟨ordered.filter _, pairwise_cons.mpr ⟨?_, ordered.filter _⟩, ?_⟩
    · intro other member
      simpa using (mem_filter.mp member).2
    · intro lower left upper right
      have below : lower.start < fragment.start := by
        simpa using (mem_filter.mp left).2
      rcases mem_cons.mp right with rfl | right
      · exact below
      · exact below.trans (by simpa using (mem_filter.mp right).2)
  · intro other
    simp only [mem_append, mem_cons, mem_filter, decide_eq_true_eq]
    constructor
    · rintro (⟨member, -⟩ | rfl | ⟨member, -⟩)
      · exact .inr member
      · exact .inl rfl
      · exact .inr member
    · rintro (rfl | member)
      · exact .inr (.inl rfl)
      · rcases Nat.lt_or_gt_of_ne (absent other member) with below | above
        · exact .inl ⟨member, below⟩
        · exact .inr (.inr ⟨member, above⟩)

theorem getLast?_of_greatest (ordered : Ordered tree) (member : fragment ∈ tree)
    (greatest : ∀ other ∈ tree, other.start ≤ fragment.start) :
    tree.getLast? = some fragment := by
  obtain ⟨front, rest, rfl⟩ := append_of_mem member
  have behind : ∀ other ∈ rest, fragment.start < other.start :=
    (pairwise_cons.mp (pairwise_append.mp ordered).2.1).1
  cases rest with
  | nil => exact getLast?_concat
  | cons next rest =>
    have above := behind next mem_cons_self
    have below := greatest next (by simp)
    omega

theorem eq_of_mem_iff {other : List FragmentElt} (left : Ordered tree) (right : Ordered other)
    (same : ∀ fragment, fragment ∈ tree ↔ fragment ∈ other) : tree = other := by
  have distinct : ∀ {fragments : List FragmentElt}, Ordered fragments → fragments.Nodup := by
    intro fragments ordered
    refine List.Pairwise.imp ?_ ordered
    rintro lower upper below rfl
    exact lt_irrefl _ below
  refine List.Perm.eq_of_pairwise ?_ left right
    ((perm_ext_iff_of_nodup (distinct left) (distinct right)).mpr same)
  intro lower upper _ _ below above
  exact absurd below (lt_asymm above)

end FragmentTree

namespace PartialPacket

theorem checkNeighbours_cases (fragments : List FragmentElt) (newFragment : FragmentElt) :
    checkNeighbours fragments newFragment = .ok ⟨⟩ ∨
      checkNeighbours fragments newFragment = .error .assertion := by
  cases checked : checkNeighbours fragments newFragment with
  | ok _ => exact .inl rfl
  | error trap =>
    simp only [checkNeighbours, bind_eq_error_iff, ensure_eq_error_iff] at checked
    rcases checked with ⟨-, rfl⟩ | ⟨_, -, ⟨-, rfl⟩ | ⟨_, -, -, rfl⟩⟩ <;> exact .inr rfl

/-- The loop ends where the new fragment ends, whatever fragments it visits. -/
theorem advanceGap_cons
    (newFragment fragment : FragmentElt) (later : List FragmentElt) (gap : Nat) :
    advanceGap newFragment (fragment :: later) gap = newFragment.finish := by
  induction later generalizing fragment gap with
  | nil => rfl
  | cons next later induction => exact induction next newFragment.finish

end PartialPacket

/-! ## Progress -/

/-- Which pieces have come, and how many of them in their turn. -/
structure Progress where
  held : List Nat
  gap : Nat

namespace Progress

/-- Nothing has come. -/
def start : Progress := ⟨[], 0⟩

/-- A piece comes. -/
def add (progress : Progress) (index : Nat) : Progress :=
  ⟨index :: progress.held,
    if index = progress.gap then progress.gap + 1 else progress.gap⟩

theorem add_passed {progress : Progress} (added : Nat)
    (passed : ∀ index < progress.gap, index ∈ progress.held) :
    ∀ index < (progress.add added).gap, index ∈ (progress.add added).held := by
  intro index before
  rw [add] at before ⊢
  by_cases turn : added = progress.gap
  · rw [if_pos turn] at before
    rcases Nat.lt_succ_iff_lt_or_eq.mp before with before | rfl
    · exact mem_cons_of_mem _ (passed index before)
    · exact turn ▸ mem_cons_self
  · rw [if_neg turn] at before
    exact mem_cons_of_mem _ (passed index before)

end Progress

/-- A partial packet holds the fragments of the pieces that have come. -/
structure Simulates (split : Split) (progress : Progress)
    (packet : PartialPacket) : Prop where
  ident : packet.ident = split.ident
  ordered : FragmentTree.Ordered packet.fragments
  holds : ∀ fragment, fragment ∈ packet.fragments ↔
    ∃ index ∈ progress.held, split.fragment index = fragment
  inside : ∀ index ∈ progress.held, index < split.count
  passed : ∀ index < progress.gap, index ∈ progress.held
  nextGap : packet.nextGap = split.offset progress.gap
  haveLastFragment : packet.haveLastFragment = true ↔
    split.count - 1 ∈ progress.held

namespace Simulates

open Split

theorem new (split : Split) : Simulates split .start (PartialPacket.new split.ident) where
  ident := rfl
  ordered := List.Pairwise.nil
  holds := by simp [PartialPacket.new, Progress.start]
  inside := by simp [Progress.start]
  passed := by simp [Progress.start]
  nextGap := rfl
  haveLastFragment := by simp [PartialPacket.new, Progress.start]

variable {split : Split} {progress : Progress} {packet : PartialPacket}
  {index : Nat} (simulates : Simulates split progress packet)
include simulates

theorem gap_le : progress.gap ≤ split.count := by
  by_contra beyond
  have held := simulates.passed split.count (Nat.lt_of_not_le beyond)
  exact absurd (simulates.inside _ held) (lt_irrefl _)

theorem ingest_held (fuel : Nat) (held : index ∈ progress.held) :
    packet.ingestFragment fuel (split.fragment index) = .error .assertion := by
  have refused := @FragmentTree.insert_eq_error packet.fragments (split.fragment index)
    ⟨_, (simulates.holds _).mpr ⟨index, held, rfl⟩, rfl⟩
  rw [PartialPacket.ingestFragment, refused]
  rcases PartialPacket.checkNeighbours_cases packet.fragments
    (split.fragment index) with passed | failed
  · rw [passed]
    rfl
  · rw [failed]
    rfl

section Fresh

variable (inside : index < split.count) (fresh : index ∉ progress.held)
include inside fresh

theorem checkNeighbours_eq_ok :
    PartialPacket.checkNeighbours packet.fragments (split.fragment index) = .ok ⟨⟩ := by
  -- A neighbour is the fragment of another piece, so it ends before this one
  -- or starts behind it.
  have behind : ∀ next ∈ FragmentTree.findFirstGreaterThan packet.fragments
      (split.fragment index).start,
      ∃ later, index < later ∧ later < split.count ∧ split.fragment later = next := by
    intro next found
    obtain ⟨member, above⟩ := mem_filter.mp (mem_of_mem_head? found)
    obtain ⟨later, held, rfl⟩ := (simulates.holds next).mp member
    have laterInside := simulates.inside later held
    rw [decide_eq_true_iff, start_eq inside, start_eq laterInside] at above
    rw [split.offset_strictMonoOn.lt_iff_lt inside.le laterInside.le] at above
    exact ⟨later, above, laterInside, rfl⟩
  rw [PartialPacket.checkNeighbours, ensure_true, ok_bind, ensure_true, ok_bind,
    ensure_true]
  · intro last
    rw [(split.carries index inside).moreFragments, decide_eq_false_iff_not] at last
    apply Option.eq_none_iff_forall_not_mem.mpr
    intro next found
    obtain ⟨later, above, laterInside, -⟩ := behind next found
    omega
  · intro next found
    obtain ⟨later, above, laterInside, rfl⟩ := behind next found
    rw [finish_eq inside, start_eq laterInside]
    exact offset_le above laterInside.le
  · intro prior found
    obtain ⟨member, below⟩ := mem_filter.mp (mem_of_getLast? found)
    obtain ⟨earlier, held, rfl⟩ := (simulates.holds prior).mp member
    have earlierInside := simulates.inside earlier held
    have apart : earlier ≠ index := fun same => fresh (same ▸ held)
    rw [decide_eq_true_iff, start_eq earlierInside, start_eq inside,
      split.offset_strictMonoOn.le_iff_le earlierInside.le inside.le] at below
    refine .inl ?_
    rw [finish_eq earlierInside, start_eq inside]
    exact offset_le (Nat.lt_of_le_of_ne below apart) inside.le

theorem ingest_fresh (fuel : Nat) : ∃ grown, Simulates split (progress.add index) grown ∧
      packet.ingestFragment fuel (split.fragment index) = grown.finishIngest fuel := by
  have absent : ∀ other ∈ packet.fragments, other.start ≠ (split.fragment index).start := by
    intro other member same
    obtain ⟨earlier, held, rfl⟩ := (simulates.holds other).mp member
    have earlierInside := simulates.inside earlier held
    rw [start_eq earlierInside, start_eq inside] at same
    exact fresh (split.offset_strictMonoOn.injOn earlierInside.le inside.le same ▸ held)
  obtain ⟨fragments, inserted, ordered, members⟩ :=
    FragmentTree.insert_eq_ok simulates.ordered absent
  rw [PartialPacket.ingestFragment, simulates.checkNeighbours_eq_ok inside fresh,
    ok_bind, inserted, ok_bind]
  refine ⟨packet.addFragment (split.fragment index) fragments,
    ⟨simulates.ident, ordered, ?_, ?_, ?_, ?_, ?_⟩, rfl⟩
  · intro fragment
    rw [PartialPacket.addFragment, members, simulates.holds, Progress.add]
    simp [eq_comm]
  · intro piece held
    rcases mem_cons.mp held with rfl | held
    · exact inside
    · exact simulates.inside piece held
  · exact Progress.add_passed index simulates.passed
  · rw [PartialPacket.addFragment, Progress.add]
    rw [simulates.nextGap, start_eq inside]
    by_cases turn : index = progress.gap
    · subst turn
      rw [if_pos rfl, if_pos rfl, PartialPacket.advanceGap_cons, finish_eq inside]
    · have apart : split.offset progress.gap ≠ split.offset index :=
        fun same => turn (split.offset_strictMonoOn.injOn simulates.gap_le inside.le same).symm
      rw [if_neg turn, if_neg apart]
  · rw [PartialPacket.addFragment, Bool.or_eq_true, simulates.haveLastFragment, Progress.add,
      (split.carries index inside).moreFragments, mem_cons]
    simp only [Bool.not_eq_eq_eq_not, Bool.not_true, decide_eq_false_iff_not]
    have last : ¬index + 1 < split.count ↔ split.count - 1 = index := by omega
    rw [last, or_comm]

end Fresh

theorem getLast?_eq (held : split.count - 1 ∈ progress.held) :
    packet.fragments.getLast? = some (split.fragment (split.count - 1)) := by
  refine FragmentTree.getLast?_of_greatest simulates.ordered
    ((simulates.holds _).mpr ⟨_, held, rfl⟩) ?_
  intro other member
  obtain ⟨index, isHeld, rfl⟩ := (simulates.holds other).mp member
  have inside := simulates.inside index isHeld
  have last := simulates.inside _ held
  rw [start_eq inside, start_eq last]
  exact offset_le (by omega) last.le

theorem finish_last (held : split.count - 1 ∈ progress.held) :
    (split.fragment (split.count - 1)).finish = split.offset split.count := by
  rw [finish_eq (simulates.inside _ held), Nat.sub_add_cancel split.positive]

/-- As long as a piece has not come in its turn, the packet is not complete. -/
theorem finishIngest_open (fuel : Nat) (missing : progress.gap ≠ split.count) :
    packet.finishIngest fuel = .ok (packet, none) := by
  have bounded := simulates.gap_le
  rw [PartialPacket.finishIngest]
  by_cases last : packet.haveLastFragment = true
  · have held := simulates.haveLastFragment.mp last
    have before : split.offset progress.gap < split.offset split.count :=
      offset_lt (Nat.lt_of_le_of_ne bounded missing) le_rfl
    rw [if_pos last, simulates.getLast?_eq held]
    dsimp only
    rw [simulates.finish_last held, simulates.nextGap, ensure_true before.le,
      ok_bind, if_neg before.ne]
    rfl
  · rw [if_neg last]
    rfl

theorem finishIngest_complete {fuel : Nat} {info : IPInfo} (complete : progress.gap = split.count)
    (decoded : decodeIpPacket fuel split.assembled = .ok info) :
    packet.finishIngest fuel = .ok (packet, some (split.assembled, info)) := by
  have everything : ∀ index < split.count, index ∈ progress.held :=
    fun index inside => simulates.passed index (complete ▸ inside)
  have held := everything (split.count - 1) (Nat.sub_lt split.positive one_pos)
  have whole : packet.fragments = (range split.count).map split.fragment := by
    refine FragmentTree.eq_of_mem_iff simulates.ordered ?_ ?_
    · refine pairwise_map.mpr (List.Pairwise.imp_of_mem ?_ pairwise_lt_range)
      intro lower upper _ right below
      have inside := mem_range.mp right
      rw [start_eq (below.trans inside), start_eq inside]
      exact offset_lt below inside.le
    · intro fragment
      rw [simulates.holds, mem_map]
      refine exists_congr fun index => and_congr_left fun _ => ?_
      rw [mem_range]
      exact ⟨simulates.inside index, everything index⟩
  rw [PartialPacket.finishIngest, if_pos (simulates.haveLastFragment.mpr held),
    simulates.getLast?_eq held]
  dsimp only
  rw [simulates.finish_last held, simulates.nextGap, complete, ensure_true le_rfl,
    ok_bind, if_pos rfl, whole, assemblePacket_eq decoded]
  rfl

end Simulates

end Embassies.Network
