import Embassies.Zftp.MissingSet
import Embassies.Zftp.OriginLoad

/-!
# What a client keeps

Whatever replies come, and whatever is asked for between them: the metadata and the root
that a client has accepted hash to the name of its file, and validated siblings hash to what
is at their parent.  A hash that is known is never replaced, also one that is only tentative.

`_validate_children` does not look at the state of the parent, so that nothing more can be
said of the parent than that its hash is known.
-/

namespace Embassies.Zftp

open Library Library.Checked Library.HeapTree

variable {env : Environment}

/-- A known hash stays known and the same, and stays validated. -/
def ValidatedMerkleRecord.Follows (after before : ValidatedMerkleRecord) : Prop :=
  before.state = .unknown ∨ after.hash = before.hash ∧ after.state ≠ .unknown ∧
    (before.state = .validated → after.state = .validated)

theorem ValidatedMerkleRecord.Follows.refl (vmr : ValidatedMerkleRecord) : vmr.Follows vmr := by
  by_cases unknown : vmr.state = .unknown
  · exact .inl unknown
  · exact .inr ⟨rfl, unknown, id⟩

namespace ZCachedFile

variable {file next : ZCachedFile} {location : Nat}

/-- The two nodes below a location are validated, and hash to what is there. -/
structure Bound (env : Environment) (file : ZCachedFile) (location : Nat) : Prop where
  known : ¬file.Unknown location
  leftValid : (file.tree (left location)).state = .validated
  rightValid : (file.tree (right location)).state = .validated
  hash : (file.tree location).hash = env.zhash
    ((file.tree (left location)).hash.bytes ++ (file.tree (right location)).hash.bytes)

/-- What a step leaves as it is, and what it may validate. -/
structure Grows (env : Environment) (file next : ZCachedFile) : Prop where
  rest : ∃ tree parents, next = { file with tree, parentsOfTentativeNodes := parents }
  node : ∀ location, (next.tree location).Follows (file.tree location)
  bound : ∀ location, location ≠ 0 → (next.tree location).state = .validated →
    (file.tree location).state = .validated ∨ next.Bound env (parent location)

theorem Grows.validated (grows : file.Grows env next)
    (validated : (file.tree location).state = .validated) :
    next.tree location = file.tree location := by
  rcases grows.node location with unknown | ⟨hash, -, stays⟩
  · cases validated.symm.trans unknown
  · exact (ValidatedMerkleRecord.mk.injEq ..).mpr ⟨hash, (stays validated).trans validated.symm⟩

theorem Bound.grows (bound : file.Bound env location) (grows : file.Grows env next) :
    next.Bound env location := by
  obtain ⟨hash, known, -⟩ := (grows.node location).resolve_left bound.known
  have leftSame := grows.validated bound.leftValid
  have rightSame := grows.validated bound.rightValid
  refine ⟨known, leftSame ▸ bound.leftValid, rightSame ▸ bound.rightValid, ?_⟩
  rw [hash, leftSame, rightSame]
  exact bound.hash

theorem Grows.of_track (env : Environment) (file : ZCachedFile) (parents : List Nat) :
    file.Grows env { file with parentsOfTentativeNodes := parents } :=
  ⟨⟨_, _, rfl⟩, fun _ => .refl _, fun _ _ => .inl⟩

theorem Grows.refl (env : Environment) (file : ZCachedFile) : file.Grows env file :=
  .of_track env file file.parentsOfTentativeNodes

theorem Grows.trans {last : ZCachedFile} (first : file.Grows env next)
    (second : next.Grows env last) : file.Grows env last := by
  refine ⟨?_, fun location => ?_, fun location notRoot validated => ?_⟩
  · obtain ⟨_, _, rfl⟩ := first.rest
    obtain ⟨_, _, rfl⟩ := second.rest
    exact ⟨_, _, rfl⟩
  · have earlier := first.node location
    have later := second.node location
    grind [ValidatedMerkleRecord.Follows]
  · rcases second.bound location notRoot validated with before | bound
    · exact (first.bound location notRoot before).imp_right fun bound => bound.grows second
    · exact .inr bound

/-! ## Tentative hashes -/

theorem tree_setNode (vmr : ValidatedMerkleRecord) (other : Nat) :
    (file.setNode location vmr).tree other = if other = location then vmr else file.tree other :=
  Function.update_apply ..

theorem grows_setNode {vmr : ValidatedMerkleRecord} (follows : vmr.Follows (file.tree location))
    (tentative : vmr.state ≠ .validated) : file.Grows env (file.setNode location vmr) := by
  refine ⟨⟨_, _, rfl⟩, fun other => ?_, fun other _ validated => .inl ?_⟩
  · rw [tree_setNode]
    split_ifs with same
    · exact same ▸ follows
    · exact .refl _
  · rw [tree_setNode] at validated
    split_ifs at validated
    · exact absurd validated tentative
    · exact validated

/-- The hash at a location is filled in once both children are known. -/
def FilledIn (file : ZCachedFile) (parent : Nat) : Prop :=
  ¬file.Unknown (left parent) ∧ ¬file.Unknown (right parent) → ¬file.Unknown parent

theorem FilledIn.congr {parent : Nat} (filled : file.FilledIn parent)
    (same : ∀ other, next.Unknown other ↔ file.Unknown other) : next.FilledIn parent := by
  rw [FilledIn, same, same, same]
  exact filled

theorem unknown_setNode {vmr : ValidatedMerkleRecord}
    (same : vmr.state = (file.tree location).state) (other : Nat) :
    (file.setNode location vmr).Unknown other ↔ file.Unknown other := by
  rw [Unknown, Unknown, tree_setNode]
  split_ifs with here
  · rw [same, here]
  · rfl

/-- A step on a tree that is filled in. -/
def Advances (env : Environment) (file next : ZCachedFile) : Prop :=
  (∀ parent, file.FilledIn parent) → file.Grows env next ∧ ∀ parent, next.FilledIn parent

theorem Advances.of_track (env : Environment) (file : ZCachedFile) (parents : List Nat) :
    file.Advances env { file with parentsOfTentativeNodes := parents } := fun filled =>
  ⟨.of_track env file parents, fun parent => (filled parent).congr fun _ => .rfl⟩

theorem Advances.refl (env : Environment) (file : ZCachedFile) : file.Advances env file :=
  .of_track env file file.parentsOfTentativeNodes

theorem Advances.trans {last : ZCachedFile} (first : file.Advances env next)
    (second : next.Advances env last) : file.Advances env last := by
  intro filled
  obtain ⟨grown, nextFilled⟩ := first filled
  exact (second nextFilled).imp_left grown.trans

/-- Only the parent of a new tentative node may be without a hash. -/
theorem filled_setTentative (filled : ∀ parent, parent ≠ location → file.FilledIn parent)
    {above : Nat} (other : above ≠ parent location) :
    (file.setState location .tentative).FilledIn above := by
  have apart : left above ≠ location ∧ right above ≠ location := by
    constructor <;> rintro rfl
    · exact other (parent_left above).symm
    · exact other (parent_right above).symm
  rw [FilledIn, Unknown, Unknown, Unknown, setState, tree_setNode, tree_setNode, tree_setNode,
    if_neg apart.1, if_neg apart.2]
  split_ifs with same
  · exact fun _ => nofun
  · exact filled above same

theorem trackParent_eq (parent : Nat) : ∃ parents, file.trackParentOfTentativeNodes parent =
      { file with parentsOfTentativeNodes := parents } := by
  unfold trackParentOfTentativeNodes
  split_ifs <;> exact ⟨_, rfl⟩

theorem parentLocation_eq (location : Nat) : parentLocation location = parent location := by
  rw [parentLocation, parent]
  omega

theorem markNodeTentative_spec {fuel : Nat}
    (filled : ∀ parent, parent ≠ location → file.FilledIn parent)
    (marked : markNodeTentative env fuel file location = .ok next) :
    file.Grows env next ∧ ∀ parent, next.FilledIn parent := by
  induction fuel generalizing file location with
  | zero => cases marked
  | succ fuel induction =>
    obtain ⟨_, -, marked⟩ := of_bind marked
    obtain ⟨_, checked, marked⟩ := of_bind marked
    have tentative : file.Grows env (file.setState location .tentative) :=
      grows_setNode (.inr ⟨rfl, nofun, fun validated => absurd validated
        (ensure_eq_ok_iff.mp checked)⟩) nofun
    have filledBut := @filled_setTentative file location filled
    have here : ((file.setState location .tentative).tree location).state = .tentative := by
      rw [setState, tree_setNode, if_pos rfl]
    generalize file.setState location .tentative = marking at marked tentative filledBut here
    dsimp only at marked
    split at marked
    · rename_i inner
      have notRoot := Nat.ne_of_gt inner
      obtain ⟨parents, track⟩ := @trackParent_eq marking (parent location)
      rw [parentLocation_eq, siblingLocation_eq notRoot, track] at marked
      have tracked := tentative.trans (.of_track env marking parents)
      split at marked
      · rename_i computed
        -- both children are known, so the parent gets its hash before it is marked in turn
        obtain ⟨hash, -, marked⟩ := of_bind marked
        have unsettled : (marking.tree (parent location)).state ≠ .validated := by
          rw [computed.1]
          nofun
        have hashed := @grows_setNode env _ _ ⟨hash, _⟩ (.inl computed.1) unsettled
        refine (induction ?_ marked).imp_left (tracked.trans hashed).trans
        exact fun parent other => (filledBut other).congr (unknown_setNode rfl)
      · rename_i kept
        cases marked
        refine ⟨tracked, fun above children unknown => ?_⟩
        by_cases same : above = parent location
        · subst same
          have both := @both_children_iff location (fun other => ¬marking.Unknown other) notRoot
          exact kept ⟨unknown, (both.mp children).2⟩
        · exact filledBut same children unknown
    · -- a root that is marked is not validated any more, which is asserted
      rename_i root
      obtain ⟨_, rootChecked, -⟩ := of_bind marked
      rw [Nat.eq_zero_of_not_pos root] at here
      cases here.symm.trans (ensure_eq_ok_iff.mp rootChecked)

theorem installMerkleRecord_advances {state after : ZCachedFile × Bool} {zmr : ZFTPMerkleRecord}
    (installed : installMerkleRecord env state zmr = .ok after) :
    state.1.Advances env after.1 := by
  intro filled
  obtain ⟨_, -, installed⟩ := of_bind installed
  split at installed
  · obtain ⟨_, -, installed⟩ := of_bind installed
    cases installed
    exact ⟨.refl env _, filled⟩
  · cases installed
    exact ⟨.refl env _, filled⟩
  · rename_i unknown
    obtain ⟨marked, marks, installed⟩ := of_bind installed
    cases installed
    have hashed := @grows_setNode env state.1 _ ⟨zmr.hash, .unknown⟩ (.inl unknown) nofun
    refine (markNodeTentative_spec ?_ marks).imp_left hashed.trans
    exact fun parent _ => (filled parent).congr (unknown_setNode unknown.symm)
  · cases installed

/-! ## Validation -/

/-- Known children whose hash is at their parent are validated. -/
theorem setValidated_advances {above : Nat}
    (known : ¬file.Unknown (left above) ∧ ¬file.Unknown (right above))
    (hash : (file.tree above).hash = env.zhash
      ((file.tree (left above)).hash.bytes ++ (file.tree (right above)).hash.bytes))
    (marked : next = (file.setState (left above) .validated).setState (right above) .validated) :
    file.Advances env next := by
  intro filled
  have state (other : Nat) : (next.tree other).state =
      if other = left above ∨ other = right above then .validated
      else (file.tree other).state := by
    simp only [marked, setState, tree_setNode]
    grind
  have hashes (other : Nat) : (next.tree other).hash = (file.tree other).hash := by
    simp only [marked, setState, tree_setNode]
    grind
  have same (other : Nat) : next.Unknown other ↔ file.Unknown other := by
    grind [Unknown]
  have bound : next.Bound env above := by
    refine ⟨?_, ?_, ?_, ?_⟩
    · rw [same]
      exact filled above known
    · rw [state, if_pos (.inl rfl)]
    · rw [state, if_pos (.inr rfl)]
    · rw [hashes, hashes, hashes, hash]
  refine ⟨⟨⟨_, _, marked⟩, ?_, ?_⟩, fun parent => (filled parent).congr same⟩
  · intro other
    grind [ValidatedMerkleRecord.Follows]
  · intro other _ validated
    rw [state] at validated
    split_ifs at validated with child
    · rcases child with rfl | rfl
      · exact .inr ((parent_left above).symm ▸ bound)
      · exact .inr ((parent_right above).symm ▸ bound)
    · exact .inl validated

theorem validateRound_advances {state after : ZCachedFile × InstallResult} {above : Nat}
    (validated : validateRound env state above = .ok after) : state.1.Advances env after.1 := by
  obtain ⟨round, children, validated⟩ := of_bind validated
  cases validated
  obtain ⟨_, -, children⟩ := of_bind children
  obtain ⟨_, leftKnown, children⟩ := of_bind children
  obtain ⟨_, rightKnown, children⟩ := of_bind children
  have known := And.intro (ensure_eq_ok_iff.mp leftKnown) (ensure_eq_ok_iff.mp rightKnown)
  obtain ⟨hash, hashed, children⟩ := of_bind children
  obtain ⟨_, -, hashed⟩ := of_bind hashed
  obtain ⟨_, -, hashed⟩ := of_bind hashed
  rw [if_pos (Nat.lt_succ_self _), if_pos (Nat.lt_succ_self _)] at hashed
  cases hashed
  rw [leftChild_eq] at known children
  split at children
  · rename_i same
    obtain ⟨_, leftMarked, children⟩ := of_bind children
    obtain ⟨_, rightMarked, children⟩ := of_bind children
    obtain ⟨_, -, leftMarked⟩ := of_bind leftMarked
    obtain ⟨_, -, rightMarked⟩ := of_bind rightMarked
    cases leftMarked
    cases rightMarked
    cases children
    exact setValidated_advances known same rfl
  · cases children
    exact .refl env _

theorem foldlM_advances {Input Flag : Type} {inputs : List Input} {flag final : Flag}
    (round : ZCachedFile × Flag → Input → Except Fault (ZCachedFile × Flag))
    (advances : ∀ state input after, round state input = .ok after → state.1.Advances env after.1)
    (run : inputs.foldlM round (file, flag) = .ok (next, final)) : file.Advances env next := by
  have kept : ∀ state input after, input ∈ inputs → file.Advances env state.1 →
      round state input = .ok after → file.Advances env after.1 :=
    fun state input after _ before stepped =>
      before.trans (advances state input after stepped)
  have all := foldlM_invariant kept (.refl env file) run
  exact all

/-! ## Between the replies -/

/-- What a client has accepted is bound to the name of the file. -/
structure Sound (env : Environment) (fileHash : Hash) (file : ZCachedFile) : Prop where
  named : file.fileHash = fileHash
  root : file.metadataState = .validated → (file.tree 0).state = .validated ∧
    computeFileHash env file.metadata (file.tree 0).hash = fileHash
  bound : ∀ location, location ≠ 0 → (file.tree location).state = .validated →
    file.Bound env (parent location)
  filled : ∀ parent, file.FilledIn parent

variable {fileHash : Hash}

theorem Sound.advances (sound : file.Sound env fileHash) (advances : file.Advances env next) :
    next.Sound env fileHash ∧ file.Grows env next := by
  obtain ⟨grows, filled⟩ := advances sound.filled
  refine ⟨?_, grows⟩
  have root := @Grows.validated _ _ _ 0 grows
  obtain ⟨tree, parents, same⟩ := grows.rest
  refine ⟨?_, fun accepted => ?_, fun location notRoot validated => ?_, filled⟩
  · rw [same]
    exact sound.named
  · rw [same] at accepted
    obtain ⟨validated, named⟩ := sound.root accepted
    rw [root validated, same]
    exact ⟨validated, named⟩
  · rcases grows.bound location notRoot validated with before | bound
    · exact (sound.bound location notRoot before).grows grows
    · exact bound

theorem Sound.installMetadata {reply : ZFileReplyFromServer} (sound : file.Sound env fileHash) :
    (file.installMetadata env reply).2.Sound env fileHash := by
  unfold ZCachedFile.installMetadata
  split_ifs
  · exact sound
  · split
    · exact sound
    · rename_i rootZmr _
      split_ifs with other
      · exact sound
      · have state (location : Nat) (notRoot : location ≠ 0) : ((file.configureFromMetadata
            reply.zdp.metadata rootZmr.hash).tree location).state = .unknown := by
          dsimp only [configureFromMetadata]
          rw [Function.update_of_ne notRoot]
        refine ⟨sound.named, fun _ => ⟨rfl, (not_not.mp other).trans sound.named⟩, ?_, ?_⟩
        · intro location notRoot validated
          cases validated.symm.trans (state location notRoot)
        · intro parent children
          exact absurd (state _ (Nat.succ_ne_zero _)) children.1

/-! ## Two clients -/

variable {other : ZCachedFile}

/-- The bytes whose hashes bind the metadata and the validated nodes of a file. -/
def hashed (env : Environment) (file : ZCachedFile) : Set (List UInt8) :=
  insert (ZFTPFileMetadata.format.encode file.metadata ++ (file.tree 0).hash.bytes)
    {bytes | ∃ location, file.Bound env location ∧ bytes =
      (file.tree (left location)).hash.bytes ++ (file.tree (right location)).hash.bytes}

/-- A location is validated with everything above it. -/
def Anchored (file : ZCachedFile) (location : Nat) : Prop :=
  ∀ height, (file.tree (parent^[height] location)).state = .validated

theorem Anchored.parent {location : Nat} (anchored : file.Anchored location) :
    file.Anchored (parent location) :=
  fun height => anchored (height + 1)

/-- Siblings under one hash are the same. -/
theorem Bound.agree {location : Nat} (bound : file.Bound env location)
    (otherBound : other.Bound env location)
    (apart : Set.InjOn env.zhash (file.hashed env ∪ other.hashed env))
    (same : (file.tree location).hash = (other.tree location).hash) :
    (file.tree (left location)).hash = (other.tree (left location)).hash ∧
      (file.tree (right location)).hash = (other.tree (right location)).hash := by
  rw [bound.hash, otherBound.hash] at same
  have bytes := apart (.inl (.inr ⟨location, bound, rfl⟩))
    (.inr (.inr ⟨location, otherBound, rfl⟩)) same
  have pair := Function.LeftInverse.injective (Hash.format.pair Hash.format).decode_encode
  exact Prod.mk.inj (@pair (_, _) (_, _) bytes)

theorem Sound.agree (sound : file.Sound env fileHash) (otherSound : other.Sound env fileHash)
    (accepted : file.metadataState = .validated) (otherAccepted : other.metadataState = .validated)
    (apart : Set.InjOn env.zhash (file.hashed env ∪ other.hashed env)) :
    file.metadata = other.metadata ∧ ∀ location, file.Anchored location →
      other.Anchored location → (file.tree location).hash = (other.tree location).hash := by
  have named := (sound.root accepted).2.trans (otherSound.root otherAccepted).2.symm
  have bytes := apart (.inl (.inl rfl)) (.inr (.inl rfl)) named
  have layout := Function.LeftInverse.injective
    (ZFTPFileMetadata.format.pair Hash.format).decode_encode
  obtain ⟨metadata, root⟩ := Prod.mk.inj (@layout (_, _) (_, _) bytes)
  refine ⟨metadata, fun location => ?_⟩
  -- a node agrees because its parent does
  induction location using Nat.strong_induction_on with
  | _ location induction =>
    intro anchored otherAnchored
    by_cases notRoot : location = 0
    · rw [notRoot]
      exact root
    · have above : parent location < location := by
        rw [parent]
        omega
      have same := induction _ above anchored.parent otherAnchored.parent
      have below := (sound.bound location notRoot (anchored 0)).agree
        (otherSound.bound location notRoot (otherAnchored 0)) apart same
      rcases eq_left_or_right notRoot with child | child
      · rw [child]
        exact below.1
      · rw [child]
        exact below.2

end ZCachedFile

/-! ## Runs -/

/-- What happens to a client. -/
inductive ClientEvent where
  | request (req : WaitingRequest)
  | reply (reply : ZFileReplyFromServer)

namespace Client

variable {client next : Client} {fileHash : Hash}

/-- `consider_request` or `install_reply`. -/
def step (env : Environment) (client : Client) : ClientEvent → Except Fault Client
  | .request req => client.considerRequest env req
  | .reply reply => client.installReply env reply

/-- Requests and replies in any order. -/
def run (env : Environment) (client : Client) (events : List ClientEvent) :
    Except Fault Client :=
  events.foldlM (step env) client

theorem issueServerRequest_file {missing : DataRange} {req : WaitingRequest}
    (issued : client.issueServerRequest env missing req = .ok next) : next.file = client.file := by
  unfold issueServerRequest at issued
  split at issued
  · cases issued
    rfl
  · obtain ⟨outbound, -, issued⟩ := of_bind issued
    cases issued
    rfl

theorem considerRequest_file {req : WaitingRequest}
    (considered : client.considerRequest env req = .ok next) : next.file = client.file := by
  unfold considerRequest at considered
  split at considered
  · obtain ⟨⟨missing, cache⟩, -, considered⟩ := of_bind considered
    dsimp only at considered
    split at considered
    · cases considered
      rfl
    · have same := issueServerRequest_file considered
      exact same
  · exact issueServerRequest_file considered

theorem signalWaiters_file (signalled : client.signalWaiters env = .ok next) :
    next.file = client.file := by
  have kept : ∀ state req after, req ∈ client.waiters → Client.file state = client.file →
      considerRequest env state req = .ok after → after.file = client.file :=
    fun _ _ _ _ same considered => (considerRequest_file considered).trans same
  have initially : ({ client with waiters := [] } : Client).file = client.file := rfl
  have all := foldlM_invariant kept initially signalled
  exact all

/-- What a step of a client keeps. -/
def Keeps (env : Environment) (fileHash : Hash) (client next : Client) : Prop :=
  next.file.Sound env fileHash ∧
    (client.file.metadataState = .validated → client.file.Grows env next.file)

theorem installContents_spec {reply : ZFileReplyFromServer} {caused changed : Bool}
    (sound : client.file.Sound env fileHash)
    (installed : client.installContents env reply caused = .ok (next, changed)) :
    next.file.Sound env fileHash ∧ client.file.Grows env next.file := by
  obtain ⟨⟨hashed, _⟩, hashing, installed⟩ := of_bind installed
  obtain ⟨_, -, installed⟩ := of_bind installed
  obtain ⟨⟨validated, _⟩, validating, installed⟩ := of_bind installed
  obtain ⟨_, -, installed⟩ := of_bind installed
  cases installed
  have records := ZCachedFile.foldlM_advances (ZCachedFile.installMerkleRecord env)
    (fun _ _ _ => ZCachedFile.installMerkleRecord_advances) hashing
  have rounds := ZCachedFile.foldlM_advances (ZCachedFile.validateRound env)
    (fun _ _ _ => ZCachedFile.validateRound_advances) validating
  exact sound.advances ((records.trans (.of_track env hashed [])).trans rounds)

theorem installReply_spec {reply : ZFileReplyFromServer} (sound : client.file.Sound env fileHash)
    (installed : client.installReply env reply = .ok next) :
    client.Keeps env fileHash next := by
  unfold installReply at installed
  dsimp only at installed
  split at installed
  · cases installed
    exact ⟨sound, fun _ => .refl env _⟩
  · obtain ⟨⟨contents, changed⟩, installing, installed⟩ := of_bind installed
    obtain ⟨contentsSound, grown⟩ := installContents_spec sound.installMetadata installing
    have same : next.file = contents.file := by
      split at installed
      · exact signalWaiters_file installed
      · cases installed
        rfl
    rw [Keeps, same]
    refine ⟨contentsSound, fun accepted => ?_⟩
    rw [ZCachedFile.installMetadata, if_pos accepted] at grown
    exact grown

theorem step_spec {event : ClientEvent} (sound : client.file.Sound env fileHash)
    (stepped : client.step env event = .ok next) :
    client.Keeps env fileHash next := by
  cases event with
  | request req =>
    rw [Keeps, considerRequest_file stepped]
    exact ⟨sound, fun _ => .refl env _⟩
  | reply reply => exact installReply_spec sound stepped

theorem run_spec {events : List ClientEvent} (sound : client.file.Sound env fileHash)
    (runs : client.run env events = .ok next) : client.Keeps env fileHash next := by
  have kept : ∀ state event after, event ∈ events → client.Keeps env fileHash state →
      step env state event = .ok after → client.Keeps env fileHash after := by
    intro state event after _ ⟨stateSound, grows⟩ stepped
    obtain ⟨afterSound, onward⟩ := step_spec stateSound stepped
    refine ⟨afterSound, fun accepted => ?_⟩
    have grown := grows accepted
    obtain ⟨_, _, same⟩ := grown.rest
    exact grown.trans (onward (same ▸ accepted))
  exact foldlM_invariant kept ⟨sound, fun _ => .refl env _⟩ runs

theorem sound_new (env : Environment) (fileHash : Hash) :
    (ZCachedFile.new fileHash).Sound env fileHash :=
  ⟨rfl, nofun, nofun, fun _ children => absurd rfl children.1⟩

/-! ## A file of two blocks -/

/-- A hash that tells how many bytes there are. -/
def lengthHash (bytes : List UInt8) : Hash :=
  ⟨List.replicate 20 (UInt8.ofNat bytes.length), List.length_replicate⟩

/-- A client that hashes so. -/
def lengthEnv : Environment := .uncompressed lengthHash 0x10000 0

/-- The records of the root and of the two leaves. -/
def rootRecord : ZFTPMerkleRecord := ⟨0, ⟨List.replicate 20 40, List.length_replicate⟩⟩

def leftRecord : ZFTPMerkleRecord := ⟨1, onesHash⟩

def rightRecord : ZFTPMerkleRecord := ⟨2, zeroHash⟩

/-- A client of the file that has nothing, and the one that has got the root. -/
def unnamed : Client :=
  ⟨.new ⟨List.replicate 20 28, List.length_replicate⟩, fun _ => none, false, [], [], []⟩

def rooted : Client :=
  { unnamed with file := unnamed.file.configureFromMetadata ⟨0x20000, 0⟩ rootRecord.hash }

/-- The client that has got the leaves. -/
def branched : Client :=
  { rooted with file := { rooted.file with tree := fun
    | 0 => ⟨rootRecord.hash, .validated⟩
    | 1 => ⟨leftRecord.hash, .validated⟩
    | 2 => ⟨rightRecord.hash, .validated⟩
    | _ => ⟨zeroHash, .unknown⟩ } }

theorem run_rooted : unnamed.run lengthEnv [.reply (.ofRecords 0x20000 [rootRecord])] =
    .ok rooted := by
  rfl

theorem branched_eq {tree : Nat → ValidatedMerkleRecord}
    (root : tree 0 = ⟨rootRecord.hash, .validated⟩) (left : tree 1 = ⟨leftRecord.hash, .validated⟩)
    (right : tree 2 = ⟨rightRecord.hash, .validated⟩)
    (others : ∀ location, tree (location + 3) = ⟨zeroHash, .unknown⟩) :
    ({ rooted with file := { rooted.file with tree } } : Client) = branched := by
  have same : tree = branched.file.tree := by
    funext location
    match location with
    | 0 => exact root
    | 1 => exact left
    | 2 => exact right
    | location + 3 => exact others location
  rw [same]
  rfl

theorem run_leaves : rooted.run lengthEnv [.reply (.ofRecords 0x20000 [rightRecord, leftRecord])] =
      .ok branched :=
  congrArg Except.ok (branched_eq rfl rfl rfl fun _ => rfl)

theorem run_at_once :
    unnamed.run lengthEnv [.reply (.ofRecords 0x20000 [rootRecord, leftRecord, rightRecord])] =
      .ok branched :=
  congrArg Except.ok (branched_eq rfl rfl rfl fun _ => rfl)

theorem run_in_turn : unnamed.run lengthEnv [.reply (.ofRecords 0x20000 [rootRecord]),
      .reply (.ofRecords 0x20000 [rightRecord, leftRecord])] = .ok branched :=
  congrArg Except.ok (branched_eq rfl rfl rfl fun _ => rfl)

/-! ## What runs keep -/

/-- Whatever a new client asks for and whatever replies it gets, what it has accepted is
bound by the hash to the name of its file. -/
theorem run_authentic {events : List ClientEvent} (fresh : client.file = .new fileHash)
    (runs : client.run env events = .ok next) : next.file.Sound env fileHash := by
  have sound := fresh ▸ sound_new env fileHash
  exact (run_spec sound runs).1

theorem run_authentic_blocks :
    branched.file.Sound lengthEnv ⟨List.replicate 20 28, List.length_replicate⟩ :=
  run_authentic rfl run_at_once

/-- Between two states of a run in which the metadata are accepted, no known hash changes,
and what is validated stays so. -/
theorem run_grows {earlier later : List ClientEvent} {middle : Client}
    (fresh : client.file = .new fileHash) (before : client.run env earlier = .ok middle)
    (accepted : middle.file.metadataState = .validated)
    (after : middle.run env later = .ok next) : middle.file.Grows env next.file := by
  have sound := fresh ▸ sound_new env fileHash
  exact (run_spec (run_spec sound before).1 after).2 accepted

theorem run_grows_blocks : rooted.file.Grows lengthEnv branched.file :=
  run_grows rfl run_rooted rfl run_leaves

/-- Whatever servers two clients of a file ask, and unless the hash collides on the bytes that
bind what they have accepted, they have the same metadata and the same hash wherever they have
validated everything up to the root. -/
theorem run_agree {other otherNext : Client} {events otherEvents : List ClientEvent}
    (fresh : client.file = .new fileHash) (otherFresh : other.file = .new fileHash)
    (runs : client.run env events = .ok next)
    (otherRuns : other.run env otherEvents = .ok otherNext)
    (accepted : next.file.metadataState = .validated)
    (otherAccepted : otherNext.file.metadataState = .validated)
    (apart : Set.InjOn env.zhash (next.file.hashed env ∪ otherNext.file.hashed env)) :
    next.file.metadata = otherNext.file.metadata ∧ ∀ location, next.file.Anchored location →
      otherNext.file.Anchored location →
      (next.file.tree location).hash = (otherNext.file.tree location).hash := by
  have sound := fresh ▸ sound_new env fileHash
  have otherSound := otherFresh ▸ sound_new env fileHash
  exact (run_spec sound runs).1.agree (run_spec otherSound otherRuns).1 accepted otherAccepted apart

/-- Two strings are hashed for the file of two blocks. -/
theorem branched_hashed {bytes : List UInt8} (hashed : bytes ∈ branched.file.hashed lengthEnv) :
    bytes = ZFTPFileMetadata.format.encode ⟨0x20000, 0⟩ ++ rootRecord.hash.bytes ∨
      bytes = leftRecord.hash.bytes ++ rightRecord.hash.bytes := by
  rcases hashed with root | ⟨location, bound, same⟩
  · exact .inl root
  · cases location with
    | zero => exact .inr same
    | succ location => cases bound.leftValid

/-- One client gets all records at once, and the other one the leaves after the root and in
the other order. -/
theorem run_agree_blocks : ∃ next other,
    unnamed.run lengthEnv [.reply (.ofRecords 0x20000 [rootRecord, leftRecord, rightRecord])] =
        .ok next ∧
      unnamed.run lengthEnv [.reply (.ofRecords 0x20000 [rootRecord]),
        .reply (.ofRecords 0x20000 [rightRecord, leftRecord])] = .ok other ∧
      next.file.metadata = other.file.metadata ∧
      (next.file.tree 2).hash = (other.file.tree 2).hash := by
  have apart : Set.InjOn lengthHash
      (branched.file.hashed lengthEnv ∪ branched.file.hashed lengthEnv) := by
    rw [Set.union_self]
    intro first firstIn second secondIn same
    rcases branched_hashed firstIn with rfl | rfl <;> rcases branched_hashed secondIn with rfl | rfl
    · rfl
    · exact absurd same (by decide)
    · exact absurd same (by decide)
    · rfl
  have anchored : branched.file.Anchored 2 := by
    intro height
    cases height with
    | zero => rfl
    | succ height =>
      rw [Function.iterate_succ_apply, show parent 2 = 0 from rfl,
        Function.iterate_fixed (show parent 0 = 0 from rfl)]
      rfl
  obtain ⟨metadata, hashes⟩ := run_agree rfl rfl run_at_once run_in_turn rfl rfl apart
  exact ⟨branched, branched, run_at_once, run_in_turn, metadata, hashes 2 anchored anchored⟩

end Client

end Embassies.Zftp
