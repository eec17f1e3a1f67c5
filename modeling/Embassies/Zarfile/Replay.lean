import Embassies.Zarfile.TraceRecord

/-!
# The traced run is served

When a trace is replayed, the fast mmap with some number finds its own chunk intact:
every earlier mmap has taken a chunk that comes no later in the list than its own.  A
read that was left out of the precious chunks because of a later mmap is therefore
served by the chunk of that mmap, and a mapping that is refused can be read.

That the other reads are in the precious chunks depends on `RangeUnion`, which loses
bytes when starts are 2^31 or more apart, and which mmaps are later is told by sequence
numbers of 32 bits.
-/

namespace Embassies.Zarfile

open Kvm Library Library.Checked List TracePathRecord UInt32

/-! ## What the record holds -/

namespace TracePathRecord

/-- The fast chunks of lines, the first of which has this sequence number. -/
def fastFrom : UInt32 → List (Option TraceEvent) → List FastChunk
  | _, [] => []
  | number, line :: lines =>
    match line with
    | some (.mmap size) => ⟨⟨0, size⟩, number⟩ :: fastFrom (number + 1) lines
    | _ => fastFrom (number + 1) lines

/-- The read records of lines, the first of which has this sequence number. -/
def readsFrom : UInt32 → List (Option TraceEvent) → List ReadRecord
  | _, [] => []
  | number, line :: lines =>
    match line with
    | some (.read size offset) =>
      ⟨⟨offset, offset + size⟩, number⟩ :: readsFrom (number + 1) lines
    | _ => readsFrom (number + 1) lines

theorem foldlM_parseLine (trace : List (Option TraceEvent)) (rec : TracePathRecord)
    (number : UInt32) :
    ∃ finish, trace.foldlM parseLine (rec, number) = .ok (⟨rec.fastChunks ++ fastFrom number trace,
        rec.deferredReads ++ readsFrom number trace, rec.preciousChunks⟩, finish) := by
  induction trace generalizing rec number with
  | nil => exact ⟨number, by simp [fastFrom, readsFrom]⟩
  | cons line lines induction =>
    rcases line with _ | ⟨size, offset⟩ | size
    · exact induction rec (number + 1)
    · obtain ⟨finish, parsed⟩ := induction (rec.addRead size offset number) (number + 1)
      refine ⟨finish, parsed.trans ?_⟩
      simp [addRead, fastFrom, readsFrom]
    · obtain ⟨finish, parsed⟩ := induction
        { rec with fastChunks := rec.fastChunks ++ [⟨⟨0, size⟩, number⟩] } (number + 1)
      refine ⟨finish, parsed.trans ?_⟩
      simp [fastFrom, readsFrom]

theorem next_number (number : UInt32) (index : Nat) :
    number + 1 + UInt32.ofNat index = number + UInt32.ofNat (index + 1) := by
  rw [ofNat_add, UInt32.add_assoc, UInt32.add_comm 1]
  rfl

variable {lines : List (Option TraceEvent)}

theorem exists_of_mem_fastFrom {number : UInt32} {fastChunk : FastChunk}
    (member : fastChunk ∈ fastFrom number lines) :
    ∃ index size, lines[index]? = some (some (.mmap size)) ∧
      fastChunk = ⟨⟨0, size⟩, number + UInt32.ofNat index⟩ := by
  induction lines generalizing number with
  | nil => cases member
  | cons line lines induction =>
    have later : fastChunk ∈ fastFrom (number + 1) lines →
        ∃ index size, (line :: lines)[index]? = some (some (.mmap size)) ∧
          fastChunk = ⟨⟨0, size⟩, number + UInt32.ofNat index⟩ := by
      intro member
      obtain ⟨index, size, place, same⟩ := induction member
      refine ⟨index + 1, size, place, ?_⟩
      rw [same, next_number]
    rcases line with _ | ⟨size, offset⟩ | size
    · exact later member
    · exact later member
    · rcases mem_cons.mp member with first | rest
      · exact ⟨0, size, rfl, first.trans (by simp)⟩
      · exact later rest

theorem exists_of_mem_readsFrom {number : UInt32} {rr : ReadRecord}
    (member : rr ∈ readsFrom number lines) :
    ∃ size offset, some (.read size offset) ∈ lines ∧ rr.range = ⟨offset, offset + size⟩ := by
  induction lines generalizing number with
  | nil => cases member
  | cons line lines induction =>
    have later : rr ∈ readsFrom (number + 1) lines →
        ∃ size offset, some (.read size offset) ∈ line :: lines ∧
          rr.range = ⟨offset, offset + size⟩ := by
      intro member
      obtain ⟨size, offset, lineIn, same⟩ := induction member
      exact ⟨size, offset, mem_cons_of_mem _ lineIn, same⟩
    rcases line with _ | ⟨size, offset⟩ | size
    · exact later member
    · rcases mem_cons.mp member with first | rest
      · exact ⟨size, offset, mem_cons_self, by rw [first]⟩
      · exact later rest
    · exact later member

theorem mem_readsFrom {number size offset : UInt32} {lines : List (Option TraceEvent)} {index : Nat}
    (place : lines[index]? = some (some (.read size offset))) :
    ⟨⟨offset, offset + size⟩, number + UInt32.ofNat index⟩ ∈ readsFrom number lines := by
  induction lines generalizing number index with
  | nil => cases place
  | cons line lines induction =>
    cases index with
    | zero =>
      cases Option.some.inj place
      rw [readsFrom]
      simp
    | succ index =>
      have later := @induction (number + 1) index place
      rw [next_number] at later
      rcases line with _ | ⟨otherSize, otherOffset⟩ | otherSize
      · exact later
      · exact mem_cons_of_mem _ later
      · exact later

theorem length_from (number : UInt32) (lines : List (Option TraceEvent)) :
    (fastFrom number lines).length + (readsFrom number lines).length ≤ lines.length := by
  induction lines generalizing number with
  | nil => exact Nat.le_refl _
  | cons line lines induction =>
    have later := induction (number + 1)
    rcases line with _ | ⟨size, offset⟩ | size
    · simp only [fastFrom, readsFrom, length_cons]
      omega
    · simp only [fastFrom, readsFrom, length_cons]
      omega
    · simp only [fastFrom, readsFrom, length_cons]
      omega

/-! ## Integrated reads -/

variable {starts : UInt32 → Prop} {balance : SearchTree.Balance Range} {fastChunks : List FastChunk}

/-- The reads that no fast chunk absorbs are put into a union. -/
structure Integrated (starts : UInt32 → Prop) (fastChunks : List FastChunk)
    (reads : List ReadRecord) (before after : SearchTree Range) : Prop where
  tidy : Tidy starts after
  longer : after.toList.length ≤ before.toList.length + reads.length
  old : ∀ place, InTree before place → InTree after place
  new : ∀ rr ∈ reads, fastAbsorbsRead fastChunks rr = false →
    ∀ place, Contains rr.range place → InTree after place

theorem integrateRead_spec {union : RangeUnion} {rr : ReadRecord} (near : Near starts)
    (tidy : Tidy starts union.tree) (start : starts rr.range.start)
    (nonempty : rr.range.start < rr.range.finish) :
    ∃ after, integrateRead balance fastChunks union rr = .ok ⟨after⟩ ∧
      Integrated starts fastChunks [rr] union.tree after := by
  rw [integrateRead]
  by_cases absorbed : fastAbsorbsRead fastChunks rr = true
  · rw [if_pos absorbed]
    refine ⟨union.tree, rfl, tidy, Nat.le_succ _, fun _ => id, ?_⟩
    intro other member kept
    cases mem_singleton.mp member
    rw [absorbed] at kept
    cases kept
  · rw [if_neg absorbed]
    obtain ⟨grown, accumulated, added, -⟩ :=
      @RangeUnion.accumulate_spec starts union.tree rr.range balance near tidy start nonempty
    refine ⟨grown, accumulated, added.tidy, added.longer, ?_, ?_⟩
    · exact fun place old => (added.same place).mpr (.inr old)
    · intro other member _ place
      cases mem_singleton.mp member
      exact fun contains => (added.same place).mpr (.inl contains)

theorem integrateReads_spec {union : RangeUnion} {reads : List ReadRecord} (near : Near starts)
    (tidy : Tidy starts union.tree)
    (proper : ∀ rr ∈ reads, starts rr.range.start ∧ rr.range.start < rr.range.finish) :
    ∃ after, reads.foldlM (integrateRead balance fastChunks) union = .ok ⟨after⟩ ∧
      Integrated starts fastChunks reads union.tree after := by
  induction reads generalizing union with
  | nil =>
    exact ⟨union.tree, rfl, tidy, Nat.le_refl _, fun _ => id,
      fun _ member => absurd member not_mem_nil⟩
  | cons rr reads induction =>
    obtain ⟨start, nonempty⟩ := proper rr mem_cons_self
    obtain ⟨middle, first, one⟩ := @integrateRead_spec starts balance fastChunks union
      rr near tidy start nonempty
    obtain ⟨after, rest, later⟩ := @induction ⟨middle⟩ one.tidy
      fun other member => proper other (mem_cons_of_mem _ member)
    refine ⟨after, by rw [foldlM_cons, first]; exact rest, later.tidy, ?_, ?_, ?_⟩
    · have oneLonger : middle.toList.length ≤ union.tree.toList.length + 1 := one.longer
      have laterLonger : after.toList.length ≤ middle.toList.length + reads.length := later.longer
      rw [length_cons]
      omega
    · exact fun place old => later.old place (one.old place old)
    · intro other member kept place contains
      rcases mem_cons.mp member with rfl | inRest
      · exact later.old place (one.new other mem_cons_self kept place contains)
      · exact later.new other inRest kept place contains

/-- A fast chunk that absorbs a read of bytes of the file has all of them. -/
theorem le_of_absorbs {mapped offset size : UInt32} (nonempty : 0 < size.toNat)
    (fits : offset.toNat + size.toNat < 2 ^ 32)
    (absorbs : ((⟨0, mapped⟩ : Range).intersect ⟨offset, offset + size⟩).size =
      (⟨offset, offset + size⟩ : Range).size) :
    offset.toNat + size.toNat ≤ mapped.toNat := by
  have finish : (offset + size).toNat = offset.toNat + size.toNat := by
    rw [UInt32.toNat_add, Nat.mod_eq_of_lt fits]
  by_contra less
  have shorter : mapped < offset + size := by
    rw [lt_iff_toNat_lt, finish]
    omega
  have notNegative : ¬0 > offset := by
    rw [gt_iff_lt, lt_iff_toNat_lt, UInt32.toNat_zero]
    omega
  have forward : ¬offset + size < offset := by
    rw [lt_iff_toNat_lt, finish]
    omega
  have whole : (⟨offset, offset + size⟩ : Range).size.toNat = size.toNat := by
    rw [Range.size, if_neg forward, UInt32.toNat_sub_of_le _ _ (UInt32.not_lt.mp forward), finish]
    omega
  rw [← absorbs] at whole
  simp only [Range.intersect, if_pos shorter, if_neg notNegative, Range.size] at whole
  split at whole
  · rw [UInt32.toNat_zero] at whole
    omega
  · rename_i forward
    rw [UInt32.toNat_sub_of_le _ _ (UInt32.not_lt.mp forward)] at whole
    omega

end TracePathRecord

/-! ## The chunks of a trace -/

/-- An event that a run on a file of this length can have. -/
def TraceEvent.Inside (fileLen : UInt32) : TraceEvent → Prop
  | .read size offset =>
    0 < size.toNat ∧ offset.toNat + size.toNat ≤ fileLen.toNat
  | .mmap size => 0 < size.toNat

instance (fileLen : UInt32) (event : TraceEvent) : Decidable (event.Inside fileLen) :=
  match event with
  | .read _ _ => inferInstanceAs (Decidable (_ ∧ _))
  | .mmap _ => inferInstanceAs (Decidable (_ < _))

/-- An offset that the trace reads from. -/
def ReadFrom (trace : List (Option TraceEvent)) (offset : UInt32) : Prop :=
  ∃ size, some (.read size offset) ∈ trace

/-- The part of a header that does not depend on the placement. -/
def ZFChdr.data (chdr : ZFChdr) : UInt32 × UInt32 × Bool :=
  (chdr.zDataOff, chdr.zDataLen, chdr.zPrecious)

/-- The lengths of the fast mmaps. -/
def mmapSizes (lines : List (Option TraceEvent)) : List UInt32 :=
  lines.filterMap fun
    | some (.mmap size) => some size
    | _ => none

/-- Every read is covered by a later mmap, or by these chunks. -/
def Provided (precious : List ZFChdr) (lines : List (Option TraceEvent)) : Prop :=
  ∀ (index : Nat) (size offset : UInt32),
    lines[index]? = some (some (TraceEvent.read size offset)) →
    (∃ (later : Nat) (mapped : UInt32), index < later ∧
      lines[later]? = some (some (TraceEvent.mmap mapped)) ∧
      offset.toNat + size.toNat ≤ mapped.toNat) ∨
    Covered precious offset.toNat (offset.toNat + size.toNat)

theorem Provided.tail {precious : List ZFChdr} {line : Option TraceEvent}
    {lines : List (Option TraceEvent)} (provided : Provided precious (line :: lines)) :
    Provided precious lines := by
  intro index size offset place
  rcases provided (index + 1) size offset place with
    ⟨later, mapped, less, found, long⟩ | covered
  · cases later with
    | zero => exact absurd less (Nat.not_lt_zero _)
    | succ later => exact .inl ⟨later, mapped, Nat.lt_of_succ_lt_succ less, found, long⟩
  · exact .inr covered

theorem data_fastFrom (number : UInt32) (lines : List (Option TraceEvent)) :
    ((fastFrom number lines).map fastChdr).map ZFChdr.data =
      (mmapSizes lines).map fun size => (0, size, false) := by
  induction lines generalizing number with
  | nil => rfl
  | cons line lines induction =>
    rcases line with _ | ⟨size, offset⟩ | size
    · exact induction (number + 1)
    · exact induction (number + 1)
    · have whole : (⟨0, size⟩ : Range).size = size := by simp [Range.size]
      rw [fastFrom, map_cons, map_cons, induction (number + 1)]
      simp [mmapSizes, fastChdr, ZFChdr.new, ZFChdr.data, whole]

/-- A precious chunk has the bytes of its range that are in the file. -/
theorem holds_preciousChdr {fileLen : UInt32} {cursor : Range} {chdr : ZFChdr} {place : Nat}
    (made : preciousChdr fileLen cursor = .ok chdr) (contains : Contains cursor place)
    (inside : place < fileLen.toNat) : chdr.Holds place := by
  obtain ⟨_, positive, same⟩ := of_bind made
  cases same
  rw [ensure_eq_ok_iff, Range.size_pos_iff] at positive
  have forward : ¬min cursor.finish fileLen < cursor.start :=
    UInt32.not_lt.mpr (UInt32.le_of_lt positive)
  have finish : cursor.start + (⟨cursor.start, min cursor.finish fileLen⟩ : Range).size =
      min cursor.finish fileLen := by
    rw [Range.size, if_neg forward]
    grind
  refine ⟨contains.1, ?_⟩
  show place < (cursor.start + (⟨cursor.start, min cursor.finish fileLen⟩ : Range).size).toNat
  rw [finish, toNat_min]
  exact Nat.lt_min.mpr ⟨contains.2, inside⟩

section Traced

variable {balance : SearchTree.Balance Range} {fileLen : UInt32}
  {trace : List (Option TraceEvent)} {chdrs : List ZFChdr}

/-- A read that a fast chunk absorbs is covered by a later mmap. -/
theorem exists_later_of_absorbed
    {lines : List (Option TraceEvent)} {index : Nat} {size offset : UInt32}
    (short : lines.length < 2 ^ 32)
    (place : lines[index]? = some (some (TraceEvent.read size offset)))
    (nonempty : 0 < size.toNat) (fits : offset.toNat + size.toNat < 2 ^ 32)
    (absorbed : fastAbsorbsRead (fastFrom 0 lines)
      ⟨⟨offset, offset + size⟩, UInt32.ofNat index⟩ = true) :
    ∃ (later : Nat) (mapped : UInt32), index < later ∧
      lines[later]? = some (some (TraceEvent.mmap mapped)) ∧
      offset.toNat + size.toNat ≤ mapped.toNat := by
  obtain ⟨fastChunk, member, absorbs⟩ := any_eq_true.mp absorbed
  obtain ⟨notEarlier, whole⟩ := of_decide_eq_true absorbs
  obtain ⟨later, mapped, found, same⟩ := exists_of_mem_fastFrom member
  rw [UInt32.zero_add] at same
  cases same
  refine ⟨later, mapped, ?_, found, le_of_absorbs nonempty fits whole⟩
  have indexBound := (List.getElem?_eq_some_iff.mp place).1
  have laterBound := (List.getElem?_eq_some_iff.mp found).1
  have size : UInt32.size = 2 ^ 32 := rfl
  rw [lt_iff_toNat_lt, toNat_ofNat_of_lt' (by omega), toNat_ofNat_of_lt' (by omega)] at notEarlier
  have different : later ≠ index := by
    rintro rfl
    rw [place] at found
    cases found
  omega

/-- What `parse` and `integrate_reads` leave of a trace. -/
theorem parse_spec (inside : ∀ event, some event ∈ trace → event.Inside fileLen)
    (near : Near (ReadFrom trace)) :
    ∃ tree, TracePathRecord.parse balance trace = .ok ⟨fastFrom 0 trace, [], ⟨tree⟩⟩ ∧
      TracePathRecord.Integrated (ReadFrom trace) (fastFrom 0 trace)
        (TracePathRecord.readsFrom 0 trace) .empty tree := by
  have fileSmall := fileLen.toNat_lt
  obtain ⟨finish, parsed⟩ := foldlM_parseLine trace .new 0
  have proper : ∀ rr ∈ TracePathRecord.readsFrom 0 trace,
      ReadFrom trace rr.range.start ∧ rr.range.start < rr.range.finish := by
    intro rr member
    obtain ⟨size, offset, lineIn, same⟩ := exists_of_mem_readsFrom member
    obtain ⟨nonempty, fits⟩ := inside _ lineIn
    rw [same]
    refine ⟨⟨size, lineIn⟩, ?_⟩
    show offset < offset + size
    rw [lt_iff_toNat_lt, UInt32.toNat_add, Nat.mod_eq_of_lt (by omega)]
    omega
  obtain ⟨tree, integrated, spec⟩ := @integrateReads_spec
    (ReadFrom trace) balance (fastFrom 0 trace) ⟨.empty⟩ _ near .empty proper
  refine ⟨tree, ?_, spec⟩
  rw [TracePathRecord.parse, parsed, ok_bind]
  show (TracePathRecord.readsFrom 0 trace).foldlM (integrateRead balance
    (fastFrom 0 trace)) ⟨.empty⟩ >>= _ = _
  rw [integrated]
  rfl

/-- The chunks of a trace are those of its mmaps, in order, and precious chunks that
provide for the other reads. -/
theorem tracedChdrs_spec (inside : ∀ event, some event ∈ trace → event.Inside fileLen)
    (near : Near (ReadFrom trace)) (short : trace.length < 2 ^ 32)
    (made : tracedChdrs balance fileLen trace = .ok chdrs) :
    ∃ fast precious, chdrs = fast ++ precious ∧
      fast.map ZFChdr.data = (mmapSizes trace).map (fun size => (0, size, false)) ∧
      Provided precious trace ∧ chdrs.length ≤ trace.length := by
  have fileSmall := fileLen.toNat_lt
  obtain ⟨tree, parsed, spec⟩ := @parse_spec balance fileLen trace inside near
  rw [tracedChdrs, parsed, ok_bind, enumerateEntries,
    @RangeUnion.ranges_eq _ ⟨tree⟩ near spec.tidy, ok_bind] at made
  obtain ⟨precious, mapped, rest⟩ := of_bind made
  obtain ⟨-, -, same⟩ := of_bind rest
  cases same
  obtain ⟨length, results⟩ := mapM_eq_ok mapped
  refine ⟨_, precious, rfl, data_fastFrom 0 trace, ?_, ?_⟩
  · intro index size offset place
    obtain ⟨nonempty, fits⟩ := inside _ (mem_of_getElem? place)
    have record := @mem_readsFrom 0 size offset trace index place
    rw [UInt32.zero_add] at record
    cases absorbed : fastAbsorbsRead (fastFrom 0 trace)
        ⟨⟨offset, offset + size⟩, UInt32.ofNat index⟩ with
    | true =>
      exact .inl (exists_later_of_absorbed short place nonempty (by omega) absorbed)
    | false =>
      refine .inr fun byte low high => ?_
      have finish : (offset + size).toNat = offset.toNat + size.toNat := by
        rw [UInt32.toNat_add, Nat.mod_eq_of_lt (by omega)]
      obtain ⟨cursor, cursorIn, contains⟩ := spec.new _ record absorbed byte ⟨low, finish ▸ high⟩
      obtain ⟨chdr, chdrIn, madeChdr⟩ := results cursor cursorIn
      exact ⟨chdr, chdrIn, holds_preciousChdr madeChdr contains (by omega)⟩
  · have lines := length_from 0 trace
    have longer : tree.toList.length ≤ 0 + (readsFrom 0 trace).length := spec.longer
    have length : precious.length = tree.toList.length := length
    have fast : ((fastFrom 0 trace).map fastChdr).length = (fastFrom 0 trace).length := length_map _
    rw [length_append, fast, length]
    omega

end Traced

/-! ## Replaying -/

section Replays

variable {fileLen : UInt32} {archive : UInt32 → UInt32 → List UInt8}
  {grants : Nat → Bool} {chdrs used rest precious : List ZFChdr}

theorem handleDecoder_serves (count : chdrs.length < 2 ^ 32) :
    (handleDecoder fileLen archive chdrs).Serves chdrs fun _ _ _ => True where
  count := toNat_ofNat_of_lt' count
  header ci chdr place := by
    simp only [handleDecoder, place]
  reads _ _ _ _ _ _ _ := ⟨_, rfl, trivial⟩

theorem internalRead_of_covered {count offset : UInt32} (few : chdrs.length < 2 ^ 32)
    (inside : offset.toNat + count.toNat ≤ fileLen.toNat)
    (covered : Covered chdrs offset.toNat (offset.toNat + count.toNat)) :
    ∃ bytes, internalRead fileLen archive chdrs count offset = .ok bytes := by
  obtain ⟨bytes, read, -⟩ := ChunkDecoder.read_of_covered
    (@handleDecoder_serves fileLen archive chdrs few)
    ⟨fun _ => trivial, fun _ _ _ _ _ _ _ => trivial⟩ inside (Nat.lt_succ_self _) covered
  exact ⟨bytes, read⟩

theorem maps_of_data {chdr : ZFChdr} {size : UInt32} (data : chdr.data = (0, size, false)) :
    chdr.Maps size 0 := by
  obtain ⟨start, rest⟩ := Prod.mk.inj data
  obtain ⟨length, fast⟩ := Prod.mk.inj rest
  rw [ZFChdr.Maps, start, length, fast, UInt32.zero_add, UInt64.zero_add]
  exact ⟨rfl, UInt64.le_refl _, UInt64.le_refl _⟩

theorem holds_of_data
    {chdr : ZFChdr} {size : UInt32} {place : Nat} (data : chdr.data = (0, size, false))
    (below : place < size.toNat) : chdr.Holds place := by
  obtain ⟨start, rest⟩ := Prod.mk.inj data
  obtain ⟨length, -⟩ := Prod.mk.inj rest
  rw [ZFChdr.Holds, start, length, UInt32.zero_add]
  exact ⟨Nat.zero_le _, below⟩

theorem fastMmap_append {granted : Bool} {chdr : ZFChdr} {size : UInt32} {tail : List ZFChdr}
    (maps : chdr.Maps size 0) :
    (granted = false ∧ fastMmap granted size 0 (used ++ chdr :: tail) = none) ∨
    ∃ others, fastMmap granted size 0 (used ++ chdr :: tail) = some (others ++ tail) ∧
      others.length = used.length + 1 := by
  induction used with
  | nil =>
    rw [nil_append, fastMmap, if_pos maps]
    cases granted with
    | false => exact .inl ⟨rfl, rfl⟩
    | true => exact .inr ⟨[chdr.consume size 0], rfl, rfl⟩
  | cons first used induction =>
    rw [cons_append, fastMmap]
    by_cases earlier : first.Maps size 0
    · rw [if_pos earlier]
      cases granted with
      | false => exact .inl ⟨rfl, rfl⟩
      | true =>
        refine .inr ⟨first.consume size 0 :: used ++ [chdr], ?_, ?_⟩
        · rw [if_pos rfl, append_assoc]
          rfl
        · rw [length_append]
          rfl
    · rw [if_neg earlier]
      rcases induction with ⟨refused, nothing⟩ | ⟨others, taken, length⟩
      · rw [nothing]
        exact .inl ⟨refused, rfl⟩
      · rw [taken]
        exact .inr ⟨first :: others, rfl, by rw [length_cons, length]; rfl⟩

/-- From headers in which the chunks of the mmaps to come are intact, the lines to come
are served. -/
theorem replay_of_intact {lines : List (Option TraceEvent)} {number : Nat}
    (inside : ∀ event, some event ∈ lines → event.Inside fileLen)
    (intact : rest.map ZFChdr.data = (mmapSizes lines).map fun size => (0, size, false))
    (provided : Provided precious lines)
    (few : (used ++ (rest ++ precious)).length < 2 ^ 32) :
    ∃ finish, replay fileLen archive grants number (used ++ (rest ++ precious)) lines =
      .ok finish := by
  induction lines generalizing number used rest with
  | nil => exact ⟨_, rfl⟩
  | cons line lines induction =>
    have insideLater : ∀ event, some event ∈ lines → event.Inside fileLen :=
      fun event member => inside event (mem_cons_of_mem _ member)
    rw [replay]
    rcases line with _ | ⟨size, offset⟩ | size
    · exact induction insideLater intact provided.tail few
    · obtain ⟨-, fits⟩ := inside _ mem_cons_self
      have covered : Covered (used ++ (rest ++ precious)) offset.toNat
          (offset.toNat + size.toNat) := by
        intro place low high
        rcases provided 0 size offset rfl with
          ⟨later, mapped, less, found, long⟩ | covered
        · have member : (0, mapped, false) ∈ rest.map ZFChdr.data := by
            rw [intact]
            refine mem_map_of_mem (mem_filterMap.mpr ⟨some (.mmap mapped), ?_, rfl⟩)
            exact mem_of_getElem? found
          obtain ⟨chdr, chdrIn, data⟩ := mem_map.mp member
          exact ⟨chdr, mem_append_right _ (mem_append_left _ chdrIn), holds_of_data data (by omega)⟩
        · obtain ⟨chdr, chdrIn, holds⟩ := covered place low high
          exact ⟨chdr, mem_append_right _ (mem_append_right _ chdrIn), holds⟩
      obtain ⟨bytes, read⟩ :=
        @internalRead_of_covered fileLen archive _ size offset few fits covered
      rw [replayLine, read, ok_bind]
      exact induction insideLater intact provided.tail few
    · obtain ⟨chdr, others, rfl, data, intactOthers⟩ := map_eq_cons_iff.mp intact
      rcases @fastMmap_append used (grants number) chdr size (others ++ precious)
        (maps_of_data data) with ⟨-, refused⟩ | ⟨taken, mapped, length⟩
      · -- The mapping is read from its own chunk.
        have inFile : (0 : UInt32).toNat + (min size fileLen).toNat ≤ fileLen.toNat := by
          rw [toNat_min, UInt32.toNat_zero]
          omega
        have covered : Covered (used ++ (chdr :: others ++ precious)) (0 : UInt32).toNat
            ((0 : UInt32).toNat + (min size fileLen).toNat) := by
          intro place _ high
          rw [toNat_min, UInt32.toNat_zero] at high
          exact ⟨chdr, mem_append_right _ mem_cons_self, holds_of_data data (by omega)⟩
        obtain ⟨bytes, read⟩ := @internalRead_of_covered fileLen archive _ _ _ few inFile covered
        rw [cons_append] at read few ⊢
        have next := @induction (used ++ [chdr]) others (number + 1) insideLater
          intactOthers provided.tail (by rw [append_assoc]; exact few)
        rw [append_assoc] at next
        rw [replayLine, refused, read, ok_bind]
        exact next
      · rw [cons_append] at few ⊢
        rw [replayLine, mapped, ok_bind]
        refine induction insideLater intactOthers provided.tail ?_
        rw [length_append] at few ⊢
        rw [length_cons] at few
        omega

theorem data_placed (locations : Nat → UInt32) (chdrs : List ZFChdr) :
    (placed locations chdrs).map ZFChdr.data = chdrs.map ZFChdr.data := by
  apply ext_getElem?
  intro ci
  rw [getElem?_map, getElem?_map, placed, getElem?_mapIdx, Option.map_map]
  rfl

/-- A replay is served when the starts of the reads are less than 2^31 apart and the
sequence numbers do not wrap. -/
theorem replay_served (balance : SearchTree.Balance Range) (fileLen : UInt32)
    (archive : UInt32 → UInt32 → List UInt8) (grants : Nat → Bool)
    (locations : Nat → UInt32) (trace : List (Option TraceEvent)) (chdrs : List ZFChdr)
    (inside : ∀ event, some event ∈ trace → event.Inside fileLen)
    (made : tracedChdrs balance fileLen trace = .ok chdrs)
    (near : Near (ReadFrom trace)) (short : trace.length < 2 ^ 32) :
    ∃ finish, replay fileLen archive grants 0 (placed locations chdrs) trace = .ok finish := by
  obtain ⟨fast, precious, rfl, sizes, provided, count⟩ := tracedChdrs_spec inside near short made
  have data := data_placed locations (fast ++ precious)
  rw [map_append] at data
  obtain ⟨rest, others, split, fastData, preciousData⟩ := map_eq_append_iff.mp data
  have covered : ∀ low high, Covered precious low high → Covered others low high := by
    intro low high covered place above below
    obtain ⟨chdr, member, holds⟩ := covered place above below
    have found : chdr.data ∈ others.map ZFChdr.data := by
      rw [preciousData]
      exact mem_map_of_mem member
    obtain ⟨other, otherIn, same⟩ := mem_map.mp found
    refine ⟨other, otherIn, ?_⟩
    obtain ⟨start, rest⟩ := Prod.mk.inj same
    obtain ⟨length, -⟩ := Prod.mk.inj rest
    rw [ZFChdr.Holds, start, length]
    exact holds
  have few : (rest ++ others).length < 2 ^ 32 := by
    have length : (placed locations (fast ++ precious)).length = (fast ++ precious).length :=
      length_mapIdx
    rw [← split, length]
    omega
  rw [split]
  refine @replay_of_intact fileLen archive grants [] rest others trace 0 inside
    (fastData.trans sizes) ?_ few
  intro index size offset place
  exact (provided index size offset place).imp_right (covered _ _)

end Replays

/-- A read that the next mmap absorbs, the mmap, and the read again. -/
def textTrace : List (Option TraceEvent) :=
  [some (.read 512 0), none, some (.mmap 8192), some (.read 512 0)]

/-- The chunks of that trace. -/
def textChdrs : List ZFChdr := [.new 0 8192 false, .new 0 512 true]

theorem replay_served_text : tracedChdrs .spine 5000 textTrace = .ok textChdrs ∧
      ∃ finish, replay 5000 (fun _ _ => []) (fun _ => true) 0
        (placed (fun ci => 4096 * UInt32.ofNat ci) textChdrs) textTrace = .ok finish := by
  have inside : ∀ entry ∈ textTrace, ∀ event ∈ entry, event.Inside 5000 := by decide
  have near : Near (ReadFrom textTrace) := by
    rintro first second ⟨size, member⟩ ⟨otherSize, otherMember⟩
    simp only [textTrace, mem_cons, Option.some.injEq, reduceCtorEq, false_or,
      not_mem_nil, or_false, TraceEvent.read.injEq, or_self] at member otherMember
    rw [member.2, otherMember.2]
    decide
  have made : tracedChdrs .spine 5000 textTrace = .ok textChdrs := rfl
  exact ⟨made, replay_served .spine 5000 (fun _ _ => []) (fun _ => true) _ textTrace
    textChdrs (fun event member => inside _ member event rfl) made near (by decide)⟩

/-- A read at the end of a long file, and a read at its start. -/
def distantTrace : List (Option TraceEvent) :=
  [some (.read 1 0xC0000000), some (.read 1 0)]

/-- The union has lost the second range, so the second read is not satisfied. -/
theorem distant_reads_not_served : (∀ event, some event ∈ distantTrace → event.Inside 0xC0000001) ∧
      tracedChdrs .spine 0xC0000001 distantTrace = .ok [.new 0xC0000000 1 true] ∧
      replay 0xC0000001 (fun _ _ => [0]) (fun _ => true) 0
        (placed (fun _ => 0) [.new 0xC0000000 1 true]) distantTrace =
          .error ChunkFault.notSatisfied := by
  have inside : ∀ entry ∈ distantTrace, ∀ event ∈ entry, event.Inside 0xC0000001 := by decide
  exact ⟨fun event member => inside _ member event rfl, rfl, rfl⟩

end Embassies.Zarfile
