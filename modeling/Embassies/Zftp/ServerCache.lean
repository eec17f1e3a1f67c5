import Embassies.Zftp.ReplyCache

/-!
# The prepared reply

The file server has two pointers for the reply that it prepared: the request, and the
buffer with the reply to it.  Both are set when a reply is prepared and cleared when it is
sent.  A large reply takes the buffer away, in the expectation that its own request will be
the one that is kept.  A request that is not cachable is not kept, though: then there is a
request without a buffer, and the next equivalent request looks for the reply in vain.
And the buffer is larger than the reply, which is taken to fill it, so that what is kept is
never the reply.

Compression is a parameter, with which a reply to a compressed request is written into a
buffer of its own.
-/

namespace Embassies.Zftp

open Library Library.Buffer Library.Checked

open ZCachedFile
open OutboundRequest (mfMalloc_length)

/-- The packet that `make_compressed_zcb` and `fill_payload` make for a request. -/
abbrev CompressedReply := ZFileRequest → Nat → Except Fault (List UInt8)

/-- The calls that use the prepared reply. -/
inductive ServerCall where
  /-- `zero_copy_reply_optimization`. -/
  | optimize (serving : Serving)
  /-- `send_reply`, with the length that `deliver_result` gives. -/
  | reply (serving : Serving)

namespace ZFileServer

/-- Whether a reply of that length is written into the prepared buffer. -/
def Recycles (server : ZFileServer) (payloadLen : Nat) : Prop :=
  ∃ vbuf, server.cachedVbuf = some vbuf ∧ payloadLen ≤ vbuf.buffer.length ∧
    minCacheSize ≤ payloadLen

instance (server : ZFileServer) (payloadLen : Nat) :
    Decidable (server.Recycles payloadLen) :=
  match kept : server.cachedVbuf with
  | none => isFalse fun ⟨_, found, _⟩ => nomatch kept.symm.trans found
  | some vbuf =>
    decidable_of_iff (payloadLen ≤ vbuf.buffer.length ∧ minCacheSize ≤ payloadLen)
      ⟨fun both => ⟨vbuf, kept, both⟩, fun ⟨_, found, both⟩ =>
        Option.some.inj (kept.symm.trans found) ▸ both⟩

/-- `send_reply`, to a request with or without compression. -/
def sendAnyReply (zcache : ZCache) (compressed : CompressedReply) (server : ZFileServer)
    (serving : Serving) (payloadLen : Nat) : Except Fault (List UInt8 × ZFileServer) :=
  if server.Recycles payloadLen ∨
      serving.request.zrp.compressionContext.stateId = noCompression then
    server.sendReply zcache serving payloadLen
  else do
    let packet ← compressed serving.request payloadLen
    let server ← server.cacheOrDiscardResult zcache serving.request payloadLen
      serving.copyMemory
    return (packet, server)

/-- One call; it may send a packet. -/
def call (zcache : ZCache) (compressed : CompressedReply) (server : ZFileServer) :
    ServerCall → Except Fault (Option (List UInt8) × ZFileServer)
  | .optimize serving => do
    match ← server.findCached serving.request with
    | none => return (none, server)
    | some cached =>
      let (packet, server) ← server.sendCached zcache cached serving.copyMemory
      return (some packet, server)
  | .reply serving => do
    let payloadLen ← zcache.replySize serving.request
    let (packet, server) ← server.sendAnyReply zcache compressed serving payloadLen
    return (some packet, server)

/-! ## What is kept -/

/-- The request and the buffer are kept together, and a request that is found has its
buffer. -/
structure Together (server : ZFileServer) : Prop where
  paired : server.cachedReq.isSome = true ↔ server.cachedVbuf.isSome = true
  found : ∀ request cached, server.findCached request = .ok (some cached) →
    server.cachedVbuf ≠ none

/-- The buffer is also the reply to the request, and its length is known: it is the packet
that `fill_payload` writes into some new buffer of the size of the reply. -/
structure Consistent (zcache : ZCache) (server : ZFileServer) : Prop extends
    Together server where
  held : ∀ cached vbuf, server.cachedReq = some cached → server.cachedVbuf = some vbuf →
    ∃ memory, zcache.freshReply memory cached = .ok vbuf.packet ∧
      server.cachedPayloadLen = vbuf.packet.length

/-- No reply to a request that is not cachable is written into the prepared buffer. -/
def Harmless (zcache : ZCache) (server : ZFileServer) : ServerCall → Prop
  | .optimize _ => True
  | .reply serving => ∀ payloadLen, zcache.replySize serving.request = .ok payloadLen →
      server.Recycles payloadLen → ReqIsCachable serving.request

/-- No reply is prepared. -/
def PreparesNothing (zcache : ZCache) : ServerCall → Prop
  | .optimize _ => True
  | .reply serving => ∀ payloadLen, zcache.replySize serving.request = .ok payloadLen →
      ¬(ReqIsCachable serving.request ∧ minCacheSize ≤ payloadLen)

variable {zcache : ZCache} {compressed : CompressedReply} {server next : ZFileServer}
  {request : ZFileRequest} {payloadLen : Nat} {packet : List UInt8}

theorem together_of_paired
    (paired : server.cachedReq.isSome = true ↔ server.cachedVbuf.isSome = true) :
    server.Together := by
  refine ⟨paired, fun request cached found => ?_⟩
  rw [findCached] at found
  cases kept : server.cachedReq with
  | none =>
    rw [kept] at found
    cases found
  | some other => exact Option.isSome_iff_ne_none.mp (paired.mp (kept ▸ rfl))

theorem cacheOrDiscardResult_cases {copyMemory : Nat → UInt8}
    (returned : server.cacheOrDiscardResult zcache request payloadLen copyMemory = .ok next) :
    (ReqIsCachable request ∧ minCacheSize ≤ payloadLen ∧ ∃ vbuf,
      zcache.fillPayload request (ValidatedZCB.new
        (mfMalloc copyMemory ((payloadLen + fastCaseCushion) % 2 ^ 32))) = .ok vbuf ∧
      next = ⟨some request, some vbuf, payloadLen⟩) ∨
    (¬(ReqIsCachable request ∧ minCacheSize ≤ payloadLen) ∧ next = server) := by
  rw [cacheOrDiscardResult] at returned
  split at returned
  · rename_i cachable
    obtain ⟨-, -, filling⟩ := of_bind returned
    obtain ⟨vbuf, filled, ⟨⟩⟩ := of_bind filling
    exact .inl ⟨cachable.1, cachable.2, vbuf, filled, rfl⟩
  · rename_i discarded
    cases returned
    exact .inr ⟨discarded, rfl⟩

/-- The prepared packet has the cushion behind it, so it has not the length of the reply. -/
theorem prepared_length_ne {copyMemory : Nat → UInt8} {vbuf : ValidatedZCB}
    (filled : zcache.fillPayload request (ValidatedZCB.new
      (mfMalloc copyMemory ((payloadLen + fastCaseCushion) % 2 ^ 32))) = .ok vbuf) :
    payloadLen ≠ vbuf.packet.length := by
  have length_eq := mfMalloc_length copyMemory ((payloadLen + fastCaseCushion) % 2 ^ 32)
  have bound : (payloadLen + fastCaseCushion) % 2 ^ 32 < 2 ^ 32 := Nat.mod_lt _ (by decide)
  generalize mfMalloc copyMemory _ = buffer at length_eq filled
  rw [← length_eq] at bound
  obtain ⟨-, -, kept⟩ := answerable_of_fillReply rfl bound filled
  have whole : vbuf.buffer.length = buffer.length := kept
  rw [ValidatedZCB.packet_eq (whole ▸ bound), whole, length_eq, fastCaseCushion]
  omega

theorem chooseBuffer_snd (memory : Nat → UInt8) : (server.chooseBuffer payloadLen memory).2 =
      if server.Recycles payloadLen then { server with cachedVbuf := none } else server := by
  rw [chooseBuffer]
  cases kept : server.cachedVbuf with
  | none =>
    rw [if_neg]
    rintro ⟨vbuf, found, -⟩
    rw [kept] at found
    cases found
  | some vbuf =>
    have recycles : server.Recycles payloadLen ↔
        payloadLen ≤ vbuf.buffer.length ∧ minCacheSize ≤ payloadLen := by
      rw [Recycles, kept]
      simp
    dsimp only
    split
    · rename_i fits
      rw [if_pos (recycles.mpr fits)]
    · rename_i large
      rw [if_neg (mt recycles.mp large)]

/-- What a reply does to the prepared one: a large reply takes its buffer, and then its own
request is kept or discarded. -/
theorem sendAnyReply_eq_ok {serving : Serving}
    (sent : server.sendAnyReply zcache compressed serving payloadLen = .ok (packet, next)) :
    ZFileServer.cacheOrDiscardResult zcache
      (if server.Recycles payloadLen then { server with cachedVbuf := none } else server)
      serving.request payloadLen serving.copyMemory = .ok next := by
  rw [sendAnyReply] at sent
  split at sent
  · obtain ⟨vbuf, -, keeping⟩ := of_bind sent
    obtain ⟨kept, cached, ⟨⟩⟩ := of_bind keeping
    change (server.chooseBuffer payloadLen serving.replyMemory).2.cacheOrDiscardResult zcache
      serving.request payloadLen serving.copyMemory = _ at cached
    rwa [chooseBuffer_snd] at cached
  · rename_i neither
    obtain ⟨output, -, keeping⟩ := of_bind sent
    obtain ⟨kept, cached, ⟨⟩⟩ := of_bind keeping
    rwa [if_neg fun recycles => neither (.inl recycles)]

theorem together_of_sendCached {cached : ZFileRequest} {copyMemory : Nat → UInt8}
    (sent : server.sendCached zcache cached copyMemory = .ok (packet, next)) :
    next.Together := by
  rw [ZFileServer.sendCached] at sent
  cases found : server.cachedVbuf with
  | none =>
    rw [found] at sent
    cases sent
  | some vbuf =>
    rw [found] at sent
    obtain ⟨after, caching, ⟨⟩⟩ := of_bind sent
    rcases cacheOrDiscardResult_cases caching with ⟨-, -, -, -, rfl⟩ | ⟨-, rfl⟩
    · exact together_of_paired (by simp)
    · exact together_of_paired Iff.rfl

section Kept

variable (together : server.Together)

include together

/-- A reply keeps the two pointers together exactly if the buffer is not lost. -/
theorem Together.sendAnyReply {serving : Serving}
    (sent : server.sendAnyReply zcache compressed serving payloadLen = .ok (packet, next)) :
    next.Together ↔ (server.Recycles payloadLen → ReqIsCachable serving.request) := by
  rcases cacheOrDiscardResult_cases (sendAnyReply_eq_ok sent) with
    ⟨cachable, -, vbuf, -, rfl⟩ | ⟨discarded, rfl⟩
  · exact ⟨fun _ _ => cachable, fun _ => together_of_paired (by simp)⟩
  · split
    · rename_i recycles
      obtain ⟨buffer, found, fits, large⟩ := recycles
      -- the request of the lost buffer is still there
      have request := together.paired.mpr (found ▸ rfl)
      constructor
      · intro now
        exact absurd (now.paired.mp request) (by simp)
      · intro cachable
        exact absurd ⟨cachable ⟨buffer, found, fits, large⟩, large⟩ discarded
    · rename_i apart
      exact ⟨fun _ recycles => absurd recycles apart, fun _ => together⟩

/-- One call keeps the two pointers together exactly if it is harmless. -/
theorem Together.call {request : ServerCall} {output : Option (List UInt8)}
    (returned : server.call zcache compressed request = .ok (output, next)) :
    next.Together ↔ server.Harmless zcache request := by
  cases request with
  | optimize serving =>
    refine iff_of_true ?_ trivial
    obtain ⟨outcome, found, sending⟩ := of_bind returned
    cases outcome with
    | none =>
      cases sending
      exact together
    | some cached =>
      obtain ⟨⟨packet, after⟩, sent, ⟨⟩⟩ := of_bind sending
      exact together_of_sendCached sent
  | reply serving =>
    obtain ⟨payloadLen, sized, sending⟩ := of_bind returned
    obtain ⟨⟨packet, after⟩, sent, ⟨⟩⟩ := of_bind sending
    rw [together.sendAnyReply sent, Harmless, sized]
    constructor
    · rintro cachable len ⟨⟩
      exact cachable
    · intro cachable
      exact cachable payloadLen rfl

end Kept

/-- A call of a new server leaves it consistent exactly if it prepares nothing. -/
theorem call_new {request : ServerCall} {output : Option (List UInt8)}
    (returned : new.call zcache compressed request = .ok (output, next)) :
    (next.Consistent zcache → PreparesNothing zcache request) ∧
      (PreparesNothing zcache request → next = new) := by
  cases request with
  | optimize serving =>
    cases returned
    exact ⟨fun _ => trivial, fun _ => rfl⟩
  | reply serving =>
    obtain ⟨len, sized, sending⟩ := of_bind returned
    obtain ⟨⟨packet, after⟩, sent, ⟨⟩⟩ := of_bind sending
    have kept := sendAnyReply_eq_ok sent
    rw [PreparesNothing, sized]
    rcases cacheOrDiscardResult_cases kept with
      ⟨cachable, large, vbuf, filled, rfl⟩ | ⟨discarded, rfl⟩
    · constructor
      · intro consistent
        obtain ⟨-, -, same⟩ := consistent.held _ _ rfl rfl
        exact absurd same (prepared_length_ne filled)
      · intro nothing
        exact absurd ⟨cachable, large⟩ (nothing len rfl)
    · refine ⟨fun _ other same => ?_, fun _ => rfl⟩
      cases same
      exact discarded

/-! ## Sequences of calls -/

/-- A property holds before the first call and after each call. -/
def AlwaysAfter (zcache : ZCache) (compressed : CompressedReply)
    (holds : ZFileServer → Prop) : ZFileServer → List ServerCall → Prop
  | server, [] => holds server
  | server, first :: rest =>
    holds server ∧ ∀ output next, server.call zcache compressed first = .ok (output, next) →
      AlwaysAfter zcache compressed holds next rest

/-- Each call that returns is allowed in the state in which it is made. -/
def AlwaysBefore (zcache : ZCache) (compressed : CompressedReply)
    (allowed : ZFileServer → ServerCall → Prop) : ZFileServer → List ServerCall → Prop
  | _, [] => True
  | server, first :: rest =>
    ∀ output next, server.call zcache compressed first = .ok (output, next) →
      allowed server first ∧ AlwaysBefore zcache compressed allowed next rest

theorem AlwaysAfter.now {holds : ZFileServer → Prop} {calls : List ServerCall}
    (always : AlwaysAfter zcache compressed holds server calls) : holds server := by
  cases calls with
  | nil => exact always
  | cons first rest => exact always.1

/-- A property holds along a run exactly if each call is allowed, when that is so for one
call from the states of an invariant. -/
theorem always_iff {invariant holds : ZFileServer → Prop}
    {allowed : ZFileServer → ServerCall → Prop}
    (holdsNow : ∀ server, invariant server → holds server)
    (step : ∀ server request output next, invariant server →
      server.call zcache compressed request = .ok (output, next) →
      (holds next → allowed server request) ∧ (allowed server request → invariant next))
    (start : invariant server) (calls : List ServerCall) :
    AlwaysAfter zcache compressed holds server calls ↔
      AlwaysBefore zcache compressed allowed server calls := by
  induction calls generalizing server with
  | nil => exact iff_of_true (holdsNow server start) trivial
  | cons first rest induction =>
    constructor
    · rintro ⟨-, later⟩ output next returned
      have always := later output next returned
      obtain ⟨needs, keeps⟩ := step server first output next start returned
      have permitted := needs always.now
      exact ⟨permitted, (induction (keeps permitted)).mp always⟩
    · intro permitted
      refine ⟨holdsNow server start, fun output next returned => ?_⟩
      obtain ⟨now, later⟩ := permitted output next returned
      exact (induction ((step server first output next start returned).2 now)).mpr later

/-- What is kept is the reply to the request that is kept in exactly the runs in which no
reply is prepared.  The two pointers stay together in exactly the runs in which no reply to a
request that is not cachable takes the prepared buffer. -/
theorem prepared_reply_kept_iff
    (zcache : ZCache) (compressed : CompressedReply) (calls : List ServerCall) :
    (AlwaysAfter zcache compressed (Consistent zcache) new calls ↔
      AlwaysBefore zcache compressed (fun _ => PreparesNothing zcache) new calls) ∧
    (AlwaysAfter zcache compressed Together new calls ↔
      AlwaysBefore zcache compressed (Harmless zcache) new calls) := by
  constructor
  · refine @always_iff _ _ _ (· = new) _ _ ?_ ?_ rfl calls
    · rintro server rfl
      exact ⟨together_of_paired Iff.rfl, nofun⟩
    · rintro server request output next rfl returned
      exact call_new returned
  · refine always_iff (fun _ => id) ?_ (together_of_paired Iff.rfl) calls
    intro server request output next together returned
    exact ⟨(together.call returned).mp, (together.call returned).mpr⟩

/-! ## A reply that is prepared -/

section Replies

variable {serving : Serving} {size : Nat} (compressed : CompressedReply)
  (whole : (zcache.fileOf serving.request).fullSize serving.request = size)
  (answerable : (zcache.fileOf serving.request).Answerable zcache.blockCache serving.request)
  (marked : (zcache.fileOf serving.request).ReplyMarked serving.request)
  (large : minCacheSize ≤ size)

include whole answerable marked large

theorem call_reply_prepares (cachable : ReqIsCachable serving.request)
    (bounded : size + fastCaseCushion < 2 ^ 32) :
    ∃ packet vbuf, new.call zcache compressed (.reply serving) =
        .ok (some packet, ⟨some serving.request, some vbuf, size⟩) ∧
      vbuf.buffer.length = size + fastCaseCushion ∧
      ∀ index, vbuf.recycle.Truthful zcache.blockCache (headerSize serving.request) index := by
  have small : size < 2 ^ 32 := by omega
  have sized : zcache.replySize serving.request = .ok size := getReplySize_eq_ok_iff.mpr
      ⟨answerable.metadata, by rw [whole, Nat.mod_eq_of_lt small]⟩
  have length_eq := mfMalloc_length serving.copyMemory (size + fastCaseCushion)
  have reply_eq := mfMalloc_length serving.replyMemory size
  generalize copied : mfMalloc serving.copyMemory (size + fastCaseCushion) = copy at length_eq
  generalize replied : mfMalloc serving.replyMemory size = buffer at reply_eq
  have room : (zcache.fileOf serving.request).fullSize serving.request ≤ copy.length := by
    rw [whole, length_eq]
    exact Nat.le_add_right _ _
  obtain ⟨first, filled, -⟩ := @Answerable.fillReply_exact _ zcache.blockCache _
    (ValidatedZCB.new buffer) answerable marked rfl (by omega)
    (reply_eq.trans whole.symm) ValidatedZCB.new_truthful
  obtain ⟨hashes, prepared, settled⟩ := @Answerable.fillReply_eq _ zcache.blockCache _
    (ValidatedZCB.new copy) answerable marked rfl
    (Nat.lt_of_le_of_lt (Nat.le_of_eq length_eq) bounded) room ValidatedZCB.new_truthful
  refine ⟨first.packet, ⟨_, headerSize serving.request, hashes⟩, ?_, ?_,
    fun index => settled (fun _ => rfl) index⟩
  · rw [call, sized, ok_bind, sendAnyReply, if_pos (.inr cachable.2), sendReply, chooseBuffer]
    simp only [new, replied, ZCache.fillPayload, filled, ok_bind, cacheOrDiscardResult,
      if_pos (And.intro cachable large), Nat.mod_eq_of_lt bounded, copied, prepared,
      pure_eq_ok, Option.isSome_none, Bool.false_eq_true, false_implies, ensure_true]
    rfl
  · rw [← length_eq]
    refine patch_length ?_
    rwa [answerable.replyBytes_length, Nat.zero_add]

/-- What `send_reply` does for a large reply to a request that is not cachable, when there is
a prepared buffer with room for it. -/
theorem call_reply_takes_buffer {vbuf : ValidatedZCB} (discarded : ¬ReqIsCachable serving.request)
    (kept : server.cachedVbuf = some vbuf) (room : size ≤ vbuf.buffer.length)
    (small : vbuf.buffer.length < 2 ^ 32)
    (truthful : ∀ index, vbuf.recycle.Truthful zcache.blockCache
      (headerSize serving.request) index) :
    ∃ packet, server.call zcache compressed (.reply serving) =
      .ok (some packet, { server with cachedVbuf := none }) := by
  have sized : zcache.replySize serving.request = .ok size := getReplySize_eq_ok_iff.mpr
      ⟨answerable.metadata, by rw [whole, Nat.mod_eq_of_lt (by omega)]⟩
  obtain ⟨hashes, filled, -⟩ := @Answerable.fillReply_eq _ zcache.blockCache _
    vbuf.recycle answerable marked rfl small (Nat.le_trans (Nat.le_of_eq whole) room)
    truthful
  have recycles : server.Recycles size := ⟨vbuf, kept, room, large⟩
  rw [call, sized, ok_bind, sendAnyReply, if_pos (.inl recycles), sendReply, chooseBuffer, kept]
  simp only [if_pos (And.intro room large), ZCache.fillPayload, filled, ok_bind,
    cacheOrDiscardResult, if_neg (fun both : ReqIsCachable serving.request ∧ _ =>
      discarded both.1), pure_eq_ok]
  exact ⟨_, rfl⟩

end Replies

/-! ## A request for nothing -/

/-- A large reply is prepared, and then a reply without data is written into its buffer:
the request that was kept has no buffer, and the next time it is made there is none to
send. -/
theorem empty_reply_takes_buffer : ∃ packet other kept server,
      new.call sevensCache (fun _ _ => .ok []) (.reply (sevensServing 0x100000 1)) =
          .ok (packet, kept) ∧
        kept.call sevensCache (fun _ _ => .ok []) (.reply (sevensServing 0x100000 0)) =
          .ok (other, server) ∧
        server.cachedReq.isSome = true ∧ server.cachedVbuf = none ∧
        server.call sevensCache (fun _ _ => .ok []) (.optimize (sevensServing 0x100000 1)) =
          .error .nullPointer := by
  have marked : ∀ padding count, (sevensCache.fileOf (sevensRequest padding count)).ReplyMarked
      (sevensRequest padding count) := fun _ _ _ _ _ => (by decide : onesHash ≠ zeroHash)
  obtain ⟨packet, vbuf, first, length_eq, truthful⟩ := @call_reply_prepares sevensCache
    (sevensServing 0x100000 1) _ (fun _ _ => .ok []) (sevensRequest_fullSize (by decide) _)
    (sevensRequest_answerable (by decide) _) (marked _ _) (by decide) (by decide)
    (by decide)
  obtain ⟨other, second⟩ := @call_reply_takes_buffer sevensCache
    ⟨some (sevensRequest 0x100000 1), some vbuf, _⟩ (sevensServing 0x100000 0) _
    (fun _ _ => .ok []) (sevensRequest_fullSize (by decide) _)
    (sevensRequest_answerable (by decide) _) (marked _ _) (by decide) vbuf (by decide) rfl
    (by rw [length_eq]; decide) (by rw [length_eq]; decide) truthful
  exact ⟨_, _, _, _, first, second, rfl, rfl, rfl⟩

end ZFileServer

end Embassies.Zftp
