import Embassies.Zftp.InstallPart

/-!
# The data of a reply

Blocks are kept under their hashes, so that two blocks of a reply whose leaves have one
hash are one record, which takes the data of the first.  `install_data` puts the data of a
reply into the blocks as they should be if the payload reaches each block that takes data.
A block behind the end of the payload, whose data are zeros that were left out, gets bytes
that do not belong to the reply.
-/

namespace Embassies.Zftp

open Library Library.Checked Function List

open ZFileReplyFromServer

namespace ZCachedFile

variable {env : Environment} {file : ZCachedFile} {cache : ZBlockCache}
  {reply : ZFileReplyFromServer} {blk : Nat}

/-! ## All blocks -/

/-- No earlier block of the data has the hash of this one. -/
def First (file : ZCachedFile) (reply : ZFileReplyFromServer) (blk : Nat) : Prop :=
  ∀ other ∈ reply.blocks, other < blk → file.leafHash other ≠ file.leafHash blk

theorem exists_first (inside : blk ∈ reply.blocks) :
    ∃ other ∈ reply.blocks, other ≤ blk ∧ file.leafHash other = file.leafHash blk ∧
      file.First reply other := by
  induction blk using Nat.strongRecOn with
  | ind blk induction =>
    by_cases first : file.First reply blk
    · exact ⟨blk, inside, Nat.le_refl _, rfl, first⟩
    · obtain ⟨earlier, member, less, same⟩ : ∃ earlier ∈ reply.blocks,
          earlier < blk ∧ file.leafHash earlier = file.leafHash blk := by
        simpa [First] using first
      obtain ⟨other, touches, below, equal, firstOther⟩ := induction earlier less member
      exact ⟨other, touches, by omega, equal.trans same, firstOther⟩

/-- The records before the part of a block goes in. -/
structure Filled (env : Environment) (file : ZCachedFile) (reply : ZFileReplyFromServer)
    (start : ZBlockCache) (blk : Nat) (cache : ZBlockCache) : Prop where
  aligned : ∀ other ∈ reply.blocks, other < blk → reply.first ≤ other * blockSize
  stored : ∀ other ∈ reply.blocks, other < blk → file.First reply other →
    ∃ block : ZBlockCacheRecord, cache (file.leafHash other) = some block ∧
      block.data = file.storedBytes env reply other
  others : ∀ hash, (∀ other ∈ reply.blocks, other < blk → file.leafHash other ≠ hash) →
    cache hash = start hash

/-- The blocks of the data are in the file, and there is nothing in them. -/
def Ready (file : ZCachedFile) (cache : ZBlockCache) (reply : ZFileReplyFromServer) : Prop :=
  ∀ blk ∈ reply.blocks,
    (file.tree (2 ^ file.treeDepth - 1 + blk)).state ≠ .unknown ∧
      (file.recordAt cache blk).data = []

section Blocks

variable {start : ZBlockCache} {changed : Bool}

theorem storedBytes_bounded : (file.storedBytes env reply blk).length ≤ blockSize := by
  have short : (reply.pieceBytes env blk).length ≤ blockSize := by
    rw [pieceBytes_length]
    simp only [partStart, partEnd, blockSize]
    omega
  rw [storedBytes, ZBlockCacheRecord.filled]
  split
  · rw [length_append, length_replicate]
    omega
  · exact short

theorem storedBytes_length {later : Nat} (touches : later ∈ reply.blocks)
    (less : blk < later) (aligned : reply.first ≤ blk * blockSize) :
    (file.storedBytes env reply blk).length = blockSize := by
  have beyond := mem_touched.mp touches
  have whole : (reply.pieceBytes env blk).length = blockSize := by
    rw [pieceBytes_length]
    simp only [partStart, partEnd, blockSize] at *
    omega
  rw [storedBytes, ZBlockCacheRecord.filled]
  split
  · rw [whole, Nat.sub_self, replicate_zero, append_nil, whole]
  · exact whole

/-- The part of one block is installed if its record takes it, or if the record has got the
part of an earlier block. -/
theorem Filled.installPart
    (filled : Filled env file reply start blk cache) (ready : file.Ready start reply)
    (inside : blk ∈ reply.blocks) (small : blk < file.numBlocks) :
    ((∃ out, installPart env file reply (cache, changed) blk = .ok out) ↔
        (file.First reply blk → file.Accepts env reply blk)) ∧
      ∀ out, installPart env file reply (cache, changed) blk = .ok out →
        Filled env file reply start (blk + 1) out.1 := by
  obtain ⟨known, empty⟩ := ready blk inside
  by_cases first : file.First reply blk
  · rw [recordAt, ← filled.others _ first] at empty
    have installed_iff := fun out => @installPart_empty_eq_ok_iff env file cache reply blk
      changed out inside small known empty
    constructor
    · constructor
      · rintro ⟨out, installed⟩ -
        exact ((installed_iff out).mp installed).1
      · intro accepts
        exact ⟨_, (installed_iff _).mpr ⟨accepts first,
          ⟨_, decide _, storedBytes_bounded, of_decide_eq_true⟩, rfl, rfl, rfl⟩⟩
    · intro out installed
      obtain ⟨⟨aligned, -⟩, block, data, -, rfl⟩ := (installed_iff out).mp installed
      refine ⟨?_, ?_, ?_⟩
      · intro other member less
        rcases Nat.lt_succ_iff_lt_or_eq.mp less with earlier | rfl
        · exact filled.aligned other member earlier
        · exact aligned
      · intro other member less firstOther
        rcases Nat.lt_succ_iff_lt_or_eq.mp less with earlier | rfl
        · obtain ⟨record, found, holds⟩ := filled.stored other member earlier firstOther
          exact ⟨record, (update_of_ne (first other member earlier) _ _).trans found, holds⟩
        · exact ⟨block, update_self _ _ _, data⟩
      · intro hash apart
        refine (update_of_ne (apart blk inside (Nat.lt_succ_self _)).symm _ _).trans ?_
        exact filled.others hash fun other member less =>
          apart other member (Nat.lt_succ_of_lt less)
  · obtain ⟨other, member, below, same, firstOther⟩ := @exists_first file reply blk inside
    have earlier : other < blk := by
      refine Nat.lt_of_le_of_ne below ?_
      rintro rfl
      exact first firstOther
    obtain ⟨block, found, data⟩ := filled.stored other member earlier firstOther
    have full : block.data.length = blockSize := by
      rw [data]
      exact storedBytes_length inside earlier (filled.aligned other member earlier)
    rw [same] at found
    have installed := @installPart_full env file cache reply blk changed inside small
      known block found full
    rw [installed]
    refine ⟨⟨fun _ absent => absurd absent first, fun _ => ⟨_, rfl⟩⟩, ?_⟩
    rintro out ⟨⟩
    refine ⟨?_, ?_, ?_⟩
    · intro next touches less
      rcases Nat.lt_succ_iff_lt_or_eq.mp less with before | rfl
      · exact filled.aligned next touches before
      · exact Nat.le_trans (filled.aligned other member earlier) (Nat.mul_le_mul_right _ below)
    · intro next touches less firstNext
      rcases Nat.lt_succ_iff_lt_or_eq.mp less with before | rfl
      · exact filled.stored next touches before firstNext
      · exact absurd firstNext first
    · intro hash apart
      exact filled.others hash fun next touches less =>
        apart next touches (Nat.lt_succ_of_lt less)

theorem Filled.installParts {count : Nat} (filled : Filled env file reply start blk cache)
    (ready : file.Ready start reply)
    (small : ∀ blk ∈ reply.blocks, blk < file.numBlocks)
    (rest : ∀ other, blk ≤ other → (other ∈ reply.blocks ↔ other < blk + count)) :
    ((∃ out, (List.range' blk count).foldlM (ZCachedFile.installPart env file reply)
        (cache, changed) = .ok out) ↔
        ∀ other ∈ reply.blocks, blk ≤ other → file.First reply other →
          file.Accepts env reply other) ∧
      ∀ out, (List.range' blk count).foldlM (ZCachedFile.installPart env file reply)
          (cache, changed) = .ok out →
        Filled env file reply start (blk + count) out.1 := by
  induction count generalizing blk cache changed with
  | zero =>
    refine ⟨⟨?_, fun _ => ⟨_, rfl⟩⟩, ?_⟩
    · intro _ other member above
      have := (rest other above).mp member
      omega
    · rintro out ⟨⟩
      exact filled
  | succ count induction =>
    have inside : blk ∈ reply.blocks := (rest blk (Nat.le_refl _)).mpr (by omega)
    have next : ∀ other, blk + 1 ≤ other → (other ∈ reply.blocks ↔ other < blk + 1 + count) := by
      intro other above
      rw [rest other (by omega)]
      omega
    have step := @Filled.installPart env file cache reply blk start changed filled ready
      inside (small blk inside)
    rw [range'_succ, foldlM_cons]
    constructor
    · constructor
      · rintro ⟨out, installed⟩ other member above firstOther
        obtain ⟨⟨middle, now⟩, one, others⟩ := of_bind installed
        rcases Nat.lt_or_eq_of_le above with later | rfl
        · exact (induction (step.2 _ one) next).1.mp ⟨out, others⟩ other member later firstOther
        · exact step.1.mp ⟨_, one⟩ firstOther
      · intro accepts
        obtain ⟨⟨middle, now⟩, one⟩ := step.1.mpr (accepts blk inside (Nat.le_refl _))
        obtain ⟨out, others⟩ := (@induction _ _ now (step.2 _ one) next).1.mpr
          fun other member above => accepts other member (by omega)
        exact ⟨out, bind_eq_ok_iff.mpr ⟨_, one, others⟩⟩
    · intro out installed
      obtain ⟨⟨middle, now⟩, one, others⟩ := of_bind installed
      have := (induction (step.2 _ one) next).2 out others
      rwa [Nat.add_assoc, Nat.add_comm 1] at this

end Blocks

/-! ## The data as they should be -/

section Truncation

variable {start : ZBlockCache}

theorem logicalBytes_length : (reply.logicalBytes blk).length =
      partEnd reply.first reply.count blk - blk * blockSize := by
  rw [logicalBytes, length_map, length_range']

theorem min_available
    {payload offset len : Nat} (small : payload < 2 ^ 32) (fits : offset + len < 2 ^ 32) :
    (if (2 ^ 32 - offset + payload) % 2 ^ 32 < len then (2 ^ 32 - offset + payload) % 2 ^ 32
      else len) =
      if offset ≤ payload then min (payload - offset) len else len := by
  split_ifs <;> omega

section Aligned

variable (inside : blk ∈ reply.blocks) (aligned : reply.first ≤ blk * blockSize)
  (truncated : reply.getPayload.length ≤ reply.count)

include inside aligned truncated

theorem readPlaces_eq : reply.readPlaces blk = List.range' (blk * blockSize - reply.first)
      (if blk * blockSize - reply.first ≤ reply.getPayload.length then
        min (reply.getPayload.length - (blk * blockSize - reply.first))
          (partEnd reply.first reply.count blk - blk * blockSize)
      else partEnd reply.first reply.count blk - blk * blockSize) := by
  have bounds := mem_touched.mp inside
  have limit := reply.dataRange.finish.toNat_lt
  have ends : reply.first + reply.count < 2 ^ 32 := by
    simp only [first, ZFileReplyFromServer.count, partStart, partEnd] at *
    omega
  have begins : partStart reply.first blk = blk * blockSize := by
    rw [partStart]
    omega
  have last : partEnd reply.first reply.count blk ≤ reply.first + reply.count := by
    rw [partEnd]
    omega
  have small : reply.getPayload.length < 2 ^ 32 := by omega
  have fits : blk * blockSize - reply.first +
      (partEnd reply.first reply.count blk - blk * blockSize) < 2 ^ 32 := by omega
  have offset := UInt32.toNat_ofNat_of_lt' (Nat.lt_of_le_of_lt (Nat.le_add_right _ _) fits)
  simp only [readPlaces, begins, UInt32.toNat_sub, offset, UInt32.toNat_ofNat_of_lt' small,
    min_available small fits]

theorem readPlaces_lt_iff : (∀ place ∈ reply.readPlaces blk, place < reply.getPayload.length) ↔
      blk * blockSize - reply.first ≤ reply.getPayload.length := by
  have bounds := mem_touched.mp inside
  rw [readPlaces_eq inside aligned truncated]
  simp only [mem_range'_1]
  constructor
  · intro all
    by_contra short
    have here := all (blk * blockSize - reply.first)
    rw [if_neg short] at here
    rw [partStart] at bounds
    exact absurd (here (by omega)) (by omega)
  · intro reaches place member
    rw [if_pos reaches] at member
    omega

theorem pieceBytes_eq_logicalBytes
    (supplied : blk * blockSize - reply.first ≤ reply.getPayload.length) :
    reply.pieceBytes env blk = reply.logicalBytes blk := by
  have begins : partStart reply.first blk = blk * blockSize := by
    rw [partStart]
    omega
  simp only [pieceBytes, readPlaces_eq inside aligned truncated, if_pos supplied, begins,
    logicalBytes]
  generalize blk * blockSize - reply.first = offset at supplied ⊢
  generalize partEnd reply.first reply.count blk - blk * blockSize = len
  apply ext_getElem
  · simp only [length_append, length_map, length_range', length_replicate]
    omega
  · intro place here there
    simp only [length_map, length_range'] at there
    rw [getElem_append]
    split
    · rename_i read
      simp only [length_map, length_range'] at read
      simp only [getElem_map, getElem_range', logicalByte]
      have inPayload : offset + 1 * place < reply.getPayload.length := by omega
      exact (getElem_eq_getD _).symm.trans (@List.getElem_eq_getD _ _ _ inPayload 0)
    · rename_i behind
      simp only [length_map, length_range'] at behind
      simp only [getElem_map, getElem_range', getElem_replicate, logicalByte]
      rw [getD_eq_getElem?_getD, getElem?_eq_none (by omega), Option.getD_none]

end Aligned

/-- What the data of a reply have to be for `install_data`. -/
structure Installable (env : Environment) (file : ZCachedFile)
    (reply : ZFileReplyFromServer) : Prop where
  small : reply.count ≠ 0 → file.getFilelen.toNat ≤ 0xffff0000
  aligned : reply.count ≠ 0 → reply.first % blockSize = 0
  supplied : ∀ blk ∈ reply.blocks, file.First reply blk →
    blk * blockSize - reply.first ≤ reply.getPayload.length
  hashed : ∀ blk ∈ reply.blocks, file.First reply blk →
    (ZBlockCacheRecord.filled (file.LastPiece reply blk)
      (reply.logicalBytes blk)).length = blockSize →
    env.zhash (ZBlockCacheRecord.filled (file.LastPiece reply blk)
      (reply.logicalBytes blk)) = file.leafHash blk
  repeated : ∀ other ∈ reply.blocks, ∀ blk ∈ reply.blocks, other ≤ blk →
    file.leafHash other = file.leafHash blk →
    reply.logicalBytes blk <+: reply.logicalBytes other

/-- `install_data` has put the data of a reply into their blocks, and has read nothing
but the payload. -/
def Installs (env : Environment) (file : ZCachedFile) (cache : ZBlockCache)
    (reply : ZFileReplyFromServer) : Prop :=
  (∃ out, file.installData env cache reply = .ok out ∧
    ∀ blk ∈ reply.blocks, ∃ block, out.1 (file.leafHash blk) = some block ∧
      block.data.take (partEnd reply.first reply.count blk - blk * blockSize) =
        reply.logicalBytes blk) ∧
  ∀ blk ∈ reply.blocks, file.First reply blk →
    ∀ place ∈ reply.readPlaces blk, place < reply.getPayload.length

theorem prefix_filled (last : Bool) (bytes : List UInt8) :
    bytes <+: ZBlockCacheRecord.filled last bytes := by
  rw [ZBlockCacheRecord.filled]
  split
  · exact prefix_append _ _
  · exact prefix_refl _

theorem count_ne_zero (inside : blk ∈ reply.blocks) : reply.count ≠ 0 := by
  have bounds := mem_touched.mp inside
  simp only [partStart, partEnd] at bounds
  omega

theorem lt_numBlocks (ordered : reply.dataRange.start ≤ reply.dataRange.finish)
    (inFile : reply.dataRange.finish ≤ file.getFilelen)
    (small : file.getFilelen.toNat ≤ 0xffff0000) (inside : blk ∈ reply.blocks) :
    blk < file.numBlocks := by
  rw [UInt32.le_iff_toNat_le] at ordered inFile
  refine lt_numBlocks_of_touched ?_ small inside
  rw [first, ZFileReplyFromServer.count]
  omega

theorem small_of_installData {out : ZBlockCache × Bool} (nonempty : reply.count ≠ 0)
    (installed : file.installData env cache reply = .ok out) :
    file.getFilelen.toNat ≤ 0xffff0000 := by
  by_contra large
  have limit := file.getFilelen.toNat_lt
  have none : file.numBlocks = 0 := by
    rw [numBlocks, computeNumBlocks, blockSize]
    omega
  have goes : reply.dataRange.start < reply.dataRange.finish := by
    rw [ZFileReplyFromServer.count] at nonempty
    rw [UInt32.lt_iff_toNat_lt]
    omega
  rw [installData, none, Nat.zero_sub, installDataFrom, if_pos goes] at installed
  cases installed

/-- When `install_data` returns, and what it has stored. -/
theorem installData_spec (ordered : reply.dataRange.start ≤ reply.dataRange.finish)
    (small : ∀ blk ∈ reply.blocks, blk < file.numBlocks) (ready : file.Ready start reply) :
    ((∃ out, file.installData env start reply = .ok out) ↔
        ∀ blk ∈ reply.blocks, file.First reply blk → file.Accepts env reply blk) ∧
      ∀ out, file.installData env start reply = .ok out →
        ∀ blk ∈ reply.blocks, file.First reply blk →
          ∃ block : ZBlockCacheRecord, out.1 (file.leafHash blk) = some block ∧
            block.data = file.storedBytes env reply blk := by
  have range : ∀ other, reply.first / blockSize ≤ other →
      (other ∈ reply.blocks ↔ other < reply.first / blockSize + (if reply.count = 0 then 0 else
          (reply.first + reply.count - 1) / blockSize + 1 - reply.first / blockSize)) := by
    intro other above
    rw [blocks, touched, mem_range'_1]
    omega
  have above : ∀ blk ∈ reply.blocks, reply.first / blockSize ≤ blk := by
    intro blk inside
    rw [blocks, touched, mem_range'_1] at inside
    exact inside.1
  have empty : Filled env file reply start (reply.first / blockSize) start := by
    refine ⟨?_, ?_, fun _ _ => rfl⟩
    · intro other member less
      have := above other member
      omega
    · intro other member less
      have := above other member
      omega
  have loop := @Filled.installParts env file start reply _ start false _ empty ready small range
  rw [installData_eq ordered small]
  constructor
  · refine loop.1.trans ⟨fun all blk inside => all blk inside (above blk inside), ?_⟩
    exact fun all blk inside _ => all blk inside
  · intro out installed blk inside first
    exact (loop.2 out installed).stored blk inside ((range blk (above blk inside)).mp inside) first

variable (ordered : reply.dataRange.start ≤ reply.dataRange.finish)
  (inFile : reply.dataRange.finish ≤ file.getFilelen)
  (truncated : reply.getPayload.length ≤ reply.count) (ready : file.Ready start reply)

include ordered inFile truncated ready

theorem Installs.installable (installs : file.Installs env start reply) :
    file.Installable env reply := by
  obtain ⟨⟨out, installed, written⟩, read⟩ := installs
  have small := fun nonempty => @small_of_installData env file start reply out nonempty installed
  have known : ∀ blk ∈ reply.blocks, blk < file.numBlocks := fun blk inside =>
    lt_numBlocks ordered inFile (small (count_ne_zero inside)) inside
  have accepts := (installData_spec ordered known ready).1.mp ⟨out, installed⟩
  have supplied : ∀ blk ∈ reply.blocks, file.First reply blk →
      blk * blockSize - reply.first ≤ reply.getPayload.length := by
    intro blk inside first
    exact (readPlaces_lt_iff inside (accepts blk inside first).1 truncated).mp
      (read blk inside first)
  refine ⟨small, ?_, supplied, ?_, ?_⟩
  · intro nonempty
    have inside : reply.first / blockSize ∈ reply.blocks := by
      apply mem_touched.mpr
      simp only [partStart, partEnd, blockSize]
      omega
    have first : file.First reply (reply.first / blockSize) := by
      intro other member less
      have bounds := mem_touched.mp member
      simp only [partStart, partEnd, blockSize] at bounds less
      omega
    have aligned := (accepts _ inside first).1
    simp only [blockSize] at aligned ⊢
    omega
  · intro blk inside first whole
    have same := @pieceBytes_eq_logicalBytes env reply blk inside (accepts blk inside first).1
      truncated (supplied blk inside first)
    rw [← same] at whole ⊢
    exact (accepts blk inside first).2 whole
  · intro other member blk inside below equal
    obtain ⟨block, found, bytes⟩ := written blk inside
    obtain ⟨same, foundOther, bytesOther⟩ := written other member
    rw [equal, found] at foundOther
    cases foundOther
    rw [← bytes, ← bytesOther]
    apply take_prefix_take_left
    simp only [partEnd, blockSize] at *
    omega

theorem Installable.installs (installable : file.Installable env reply) :
    file.Installs env start reply := by
  have known : ∀ blk ∈ reply.blocks, blk < file.numBlocks := fun blk inside =>
    lt_numBlocks ordered inFile (installable.small (count_ne_zero inside)) inside
  have aligned : ∀ blk ∈ reply.blocks, reply.first ≤ blk * blockSize := by
    intro blk inside
    have multiple := installable.aligned (count_ne_zero inside)
    have bounds := mem_touched.mp inside
    simp only [partStart, partEnd, blockSize] at *
    omega
  have stored : ∀ blk ∈ reply.blocks, file.First reply blk → file.storedBytes env reply blk =
        ZBlockCacheRecord.filled (file.LastPiece reply blk) (reply.logicalBytes blk) := by
    intro blk inside first
    rw [storedBytes, pieceBytes_eq_logicalBytes inside (aligned blk inside) truncated
      (installable.supplied blk inside first)]
  have spec := @installData_spec env file reply start ordered known ready
  obtain ⟨out, installed⟩ := spec.1.mpr fun blk inside first =>
    ⟨aligned blk inside, by
      rw [stored blk inside first]
      exact installable.hashed blk inside first⟩
  refine ⟨⟨out, installed, ?_⟩, ?_⟩
  · intro blk inside
    obtain ⟨other, member, below, same, first⟩ := @exists_first file reply blk inside
    obtain ⟨block, found, data⟩ := spec.2 out installed other member first
    rw [same] at found
    refine ⟨block, found, ?_⟩
    have front : reply.logicalBytes blk <+: block.data := by
      rw [data, stored other member first]
      exact (installable.repeated other member blk inside below same).trans (prefix_filled _ _)
    rw [← logicalBytes_length]
    exact (prefix_iff_eq_take.mp front).symm
  · intro blk inside first
    exact (readPlaces_lt_iff inside (aligned blk inside) truncated).mpr
      (installable.supplied blk inside first)

end Truncation

/-- `install_data` follows the rule for truncated data exactly if the payload reaches every
block that is stored. -/
theorem install_data_truncated_iff (env : Environment) (file : ZCachedFile) (cache : ZBlockCache)
    (reply : ZFileReplyFromServer)
    (ordered : reply.dataRange.start ≤ reply.dataRange.finish)
    (inFile : reply.dataRange.finish ≤ file.getFilelen)
    (truncated : reply.getPayload.length ≤ reply.count)
    (ready : file.Ready cache reply) :
    file.Installs env cache reply ↔ file.Installable env reply :=
  ⟨Installs.installable ordered inFile truncated ready,
    Installable.installs ordered inFile truncated ready⟩

/-- Two hashes, for blocks that start with a seven and for others. -/
def twoHashes : Environment :=
  .uncompressed (fun bytes => if bytes.head? = some 7 then onesHash else zeroHash) 0x20000 7

/-- A file of two blocks, of which only the first starts with a seven. -/
def sevenAndZero : ZCachedFile where
  fileHash := zeroHash
  metadata := ⟨0x20000, 0⟩
  metadataState := .validated
  tree location :=
    ⟨if location = 1 then onesHash else zeroHash, .validated⟩
  parentsOfTentativeNodes := []

/-- The header of a reply with the front of that file. -/
def sevenPacket (finish : UInt32) : ZFTPDataPacket where
  code := replyData
  hashLen := 20
  zftpLgBlockSize := 16
  zftpTreeDegree := 2
  fileHash := zeroHash
  metadata := ⟨0x20000, 0⟩
  numMerkleRecords := 0
  paddingSize := 0
  compressionContext := ⟨noCompression, 0⟩
  dataStart := 0
  dataEnd := finish
  payloadSize := 1

/-- A reply with the front of that file, without the zeros behind the seven. -/
def sevenReply (finish : UInt32) : ZFileReplyFromServer where
  zcb := ZFTPDataPacket.format.encode (sevenPacket finish) ++ [7]
  zdp := sevenPacket finish
  payloadOffset := 61
  uncompressed := none

theorem sevenAndZero_ready (finish : UInt32) :
    sevenAndZero.Ready (fun _ => none) (sevenReply finish) :=
  fun _ _ => ⟨nofun, rfl⟩

/-- One block is installed from a single byte. -/
theorem install_data_one_block :
    sevenAndZero.Installs twoHashes (fun _ => none) (sevenReply 0x10000) := by
  have only : ∀ blk ∈ (sevenReply 0x10000).blocks, blk = 0 := by decide +kernel
  refine (install_data_truncated_iff twoHashes sevenAndZero (fun _ => none)
    (sevenReply 0x10000) (by decide) (by decide) (by decide)
    (sevenAndZero_ready _)).mpr ⟨fun _ => by decide, fun _ => rfl, ?_, ?_, ?_⟩
  · intro blk inside _
    rw [only blk inside]
    decide
  · intro blk inside _ _
    rw [only blk inside]
    decide +kernel
  · intro other member blk inside _ _
    obtain rfl : other = blk := (only other member).trans (only blk inside).symm
    exact prefix_refl _

/-- The same byte is not enough for two blocks: the data of the second are read from the
memory behind the payload, and its hash is not the one that is expected. -/
theorem omitted_block_read_behind :
    ZFileReplyFromServer.new (fun _ _ _ => []) (sevenReply 0x20000).zcb =
        .ok (some (sevenReply 0x20000)) ∧
      (∀ blk ∈ (sevenReply 0x20000).blocks,
        twoHashes.zhash ((sevenReply 0x20000).logicalBytes blk) = sevenAndZero.leafHash blk) ∧
      sevenAndZero.Ready (fun _ => none) (sevenReply 0x20000) ∧
      65536 ∈ (sevenReply 0x20000).readPlaces 1 ∧
      ¬sevenAndZero.Installs twoHashes (fun _ => none) (sevenReply 0x20000) := by
  have inside : 1 ∈ (sevenReply 0x20000).blocks := mem_touched.mpr (by decide)
  have first : sevenAndZero.First (sevenReply 0x20000) 1 := by
    rw [First]
    decide +kernel
  refine ⟨by decide +kernel, by decide +kernel, sevenAndZero_ready _, ?_, ?_⟩
  · rw [readPlaces_eq inside (by decide) (by decide), mem_range'_1]
    decide
  · intro installs
    have supplied := (Installs.installable (by decide) (by decide) (by decide)
      (sevenAndZero_ready _) installs).supplied 1 inside first
    exact absurd supplied (by decide)

end ZCachedFile

end Embassies.Zftp
