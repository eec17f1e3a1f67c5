import Embassies.Crypto.ByteStream
import Embassies.Crypto.WireName

/-!
# Names read from a stream

A name can also be read from a `ByteStream`.  The constructor for streams leaves the
checks to the stream: every byte it reads is checked against the end of the buffer, but
no label is checked against the room in `nameBytes` before it is copied there.

The two constructors for wire buffers agree on a buffer unless a label, or the separator
behind it, runs over the end of `nameBytes`.
-/

namespace Embassies.Crypto.DomainName

open Library Library.Checked List

/-- A character is stored behind those that `nameBytes` holds already. -/
def storeChar (gathered : List UInt8) (char : UInt8) : Except Halt (List UInt8) := do
  ensure (gathered.length < maxDnsNameLen) (.fault .outOfBoundsWrite)
  return gathered ++ [char]

/-- The loop that copies the remaining bytes of a label. -/
def copyLabel (stream : ByteStream) : Nat → List UInt8 → Except Halt (List UInt8)
  | 0, gathered => .ok gathered
  | remaining + 1, gathered => do
    let char ← stream.byteAt (UInt32.ofNat (gathered.length + 1))
    let gathered ← storeChar gathered char
    copyLabel stream remaining gathered

/-- Is the label behind a length byte the wildcard? -/
def isWildcard (stream : ByteStream) (labelLen : UInt8) (position : Nat) :
    Except Halt Bool :=
  if labelLen = 1 then do
    let char ← stream.byteAt (UInt32.ofNat (position + 1))
    return char == star
  else
    .ok false

/-- The label loop of `DomainName(ByteStream &)`, where `gathered` holds `this->len`
characters.  As in `ofWireLoop` the rounds are never used up. -/
def ofStreamLoop (stream : ByteStream) :
    Nat → List UInt8 → Nat → Except Halt DomainName
  | 0, _, _ => .error (.badInput "DomainName badly formatted or too long")
  | rounds + 1, gathered, numLabels =>
    if inside : gathered.length < maxDnsNameLen then do
      let labelLen ← stream.byteAt (UInt32.ofNat gathered.length)
      let copied ← copyLabel stream labelLen.toNat gathered
      if labelLen = 0 then
        .ok (ofGathered gathered numLabels (Nat.le_of_lt_succ inside))
      else
        let wild ← isWildcard stream labelLen gathered.length
        let stored ← storeChar copied dot
        ofStreamLoop stream rounds stored
          (if wild then numLabels else numLabels + 1)
    else
      .error (.badInput "DomainName badly formatted or too long")

/-- `DomainName::DomainName(ByteStream &dnsbuffer)`. -/
def ofStream (stream : ByteStream) : Except Halt DomainName :=
  ofStreamLoop stream (maxDnsNameLen + 1) [] 0

/-! ## Copying one label -/

section Label

variable {stream : ByteStream} {before tail gathered : List UInt8}

theorem byteAt_middle {byte : UInt8} {index : Nat} (split : stream.buffer = before ++ byte :: tail)
    (place : before.length = index) :
    stream.byteAt (UInt32.ofNat index) = .ok byte := by
  subst place
  have sized := stream.sized
  have total := congrArg List.length split
  rw [length_append, length_cons] at total
  have index : (UInt32.ofNat before.length).toNat = before.length := by
    rw [UInt32.toNat_ofNat']
    omega
  have inside : ¬ UInt32.ofNat before.length ≥ stream.size := by
    rw [ge_iff_le, UInt32.le_iff_toNat_le, stream.size_toNat, index]
    omega
  have fits : before.length + Format.uint8.size ≤ stream.buffer.length := by
    change before.length + 1 ≤ _
    omega
  rw [ByteStream.byteAt, ByteStream.assertInBounds, ensure_true inside, ok_bind, index,
    Format.uint8.load_eq_ok fits, split, drop_left]
  rfl

theorem byteAt_end {index : Nat} (place : stream.buffer.length = index) :
    stream.byteAt (UInt32.ofNat index) = .error ByteStream.pastTheEnd := by
  subst place
  have refused : stream.assertInBounds (UInt32.ofNat stream.buffer.length) =
      .error ByteStream.pastTheEnd :=
    ensure_eq_error_iff.mpr ⟨not_not_intro (UInt32.le_refl _), rfl⟩
  rw [ByteStream.byteAt, refused, error_bind]

theorem storeChar_of_lt {char : UInt8} (room : gathered.length < maxDnsNameLen) :
    storeChar gathered char = .ok (gathered ++ [char]) := by
  rw [storeChar, ensure_true room, ok_bind, pure_eq_ok]

theorem storeChar_of_full {char : UInt8} (full : 255 ≤ gathered.length) :
    storeChar gathered char = .error (.fault .outOfBoundsWrite) := by
  have refused : ensure (gathered.length < maxDnsNameLen) (Halt.fault .outOfBoundsWrite) =
      .error (.fault .outOfBoundsWrite) :=
    ensure_eq_error_iff.mpr ⟨Nat.not_lt.mpr full, rfl⟩
  rw [storeChar, refused, error_bind]

/-- A label is copied until it ends, the buffer ends or `nameBytes` is full. -/
theorem copyLabel_eq {remaining : Nat} (split : stream.buffer = before ++ tail)
    (aligned : before.length = gathered.length + 1) (room : gathered.length ≤ 255) :
    copyLabel stream remaining gathered =
      if 255 < gathered.length + min remaining tail.length then
        .error (.fault .outOfBoundsWrite)
      else if remaining ≤ tail.length then .ok (gathered ++ tail.take remaining)
      else .error ByteStream.pastTheEnd := by
  induction remaining generalizing before tail gathered with
  | zero =>
    have fits : ¬ 255 < gathered.length + min 0 tail.length := by omega
    rw [copyLabel, if_neg fits, if_pos (Nat.zero_le _), take_zero, append_nil]
  | succ remaining induction =>
    rw [copyLabel]
    cases tail with
    | nil =>
      rw [append_nil] at split
      have fits : ¬ 255 < gathered.length + min (remaining + 1) ([] : List UInt8).length := by
        simp only [length_nil]
        omega
      rw [byteAt_end (by rw [split, aligned]), error_bind, if_neg fits,
        if_neg (by simp only [length_nil]; omega)]
    | cons char tail =>
      rw [byteAt_middle split aligned, ok_bind, length_cons, take_succ_cons]
      by_cases full : gathered.length < 255
      · have next := @induction (before ++ [char]) tail (gathered ++ [char])
          (by rw [split, append_assoc, singleton_append])
          (by simp only [length_append, length_singleton]; omega)
          (by simp only [length_append, length_singleton]; omega)
        rw [storeChar_of_lt full, ok_bind, next, length_append,
          length_singleton, append_assoc, singleton_append,
          Nat.add_min_add_right, Nat.add_right_comm, Nat.add_assoc]
        simp only [Nat.add_le_add_iff_right]
      · rw [storeChar_of_full (by omega), error_bind, if_pos (by omega)]

theorem isWildcard_eq {label : List UInt8} {labelLen : UInt8} {position : Nat}
    (split : stream.buffer = before ++ label ++ tail)
    (aligned : before.length = position + 1) (size : label.length = labelLen.toNat) :
    isWildcard stream labelLen position = .ok (label == [star]) := by
  unfold isWildcard
  by_cases one : labelLen = 1
  · subst one
    obtain ⟨char, rfl⟩ := length_eq_one_iff.mp size
    rw [append_assoc, singleton_append] at split
    rw [if_pos rfl, byteAt_middle split aligned, ok_bind, pure_eq_ok]
    simp
  · have differs : label ≠ [star] := by
      rintro rfl
      exact one (UInt8.toNat_inj.mp size.symm)
    rw [if_neg one, beq_eq_false_iff_ne.mpr differs]

end Label

/-! ## Running over -/

/-- From this position on, some label or the separator behind it is stored beyond the end
of `nameBytes`. -/
inductive Overruns : Nat → List UInt8 → Prop
  | here {position : Nat} {labelLen : UInt8} {tail : List UInt8} :
      position < 255 → 255 ≤ position + labelLen.toNat →
      min labelLen.toNat (256 - position) ≤ tail.length →
      Overruns position (labelLen :: tail)
  | later {position : Nat} {labelLen : UInt8} {label rest : List UInt8} :
      labelLen ≠ 0 → label.length = labelLen.toNat →
      Overruns (position + labelLen.toNat + 1) rest →
      Overruns position (labelLen :: (label ++ rest))

variable {position : Nat} {tail : List UInt8}

theorem Overruns.position_lt (overruns : Overruns position tail) : position < 255 := by
  induction overruns with
  | here inside => exact inside
  | later _ _ _ induction => omega

theorem not_overruns_root (inside : position < 255) : ¬ Overruns position (0 :: tail) := by
  intro overruns
  cases overruns with
  | here _ reaches _ => exact absurd inside (Nat.not_lt.mpr reaches)
  | later proper _ _ => exact proper rfl

theorem not_overruns_cut {labelLen : UInt8}
    (cut : tail.length < min labelLen.toNat (256 - position)) :
    ¬ Overruns position (labelLen :: tail) := by
  intro overruns
  cases overruns with
  | here _ _ fits => exact absurd cut (Nat.not_lt.mpr fits)
  | later _ size later =>
    rw [length_append] at cut
    omega

theorem overruns_label_iff {labelLen : UInt8} {label rest : List UInt8}
    (proper : labelLen ≠ 0) (size : label.length = labelLen.toNat)
    (short : position + labelLen.toNat < 255) : Overruns position (labelLen :: (label ++ rest)) ↔
      Overruns (position + labelLen.toNat + 1) rest := by
  refine ⟨fun overruns => ?_, .later proper size⟩
  generalize whole : labelLen :: (label ++ rest) = bytes at overruns
  cases overruns with
  | here _ reaches _ =>
    obtain ⟨rfl, -⟩ := List.cons.inj whole
    exact absurd short (Nat.not_lt.mpr reaches)
  | later _ otherSize later =>
    obtain ⟨rfl, parts⟩ := List.cons.inj whole
    obtain ⟨-, rfl⟩ := append_inj parts (size.trans otherSize.symm)
    exact later

/-- Both computations return the same or both throw. -/
def Same (left right : Except Halt DomainName) : Prop :=
  (∃ name, left = .ok name ∧ right = .ok name) ∨
    ∃ first second, left = .error (.thrown first) ∧ right = .error (.thrown second)

theorem not_same_fault
    {kind : Fault} {right : Except Halt DomainName} : ¬ Same (.error (.fault kind)) right := by
  rintro (⟨name, impossible, -⟩ | ⟨first, second, impossible, -⟩) <;> cases impossible

section Loop

variable {stream : ByteStream} {before tail gathered : List UInt8}
  {rounds numLabels : Nat} {labelLen : UInt8}

theorem ofStreamLoop_root (split : stream.buffer = before ++ 0 :: tail)
    (aligned : before.length = gathered.length) (inside : gathered.length < maxDnsNameLen) :
    ofStreamLoop stream (rounds + 1) gathered numLabels =
      .ok (ofGathered gathered numLabels (Nat.le_of_lt_succ inside)) := by
  rw [ofStreamLoop, dif_pos inside, byteAt_middle split aligned]
  simp only [ok_bind, UInt8.toNat_zero, copyLabel, if_true]

theorem ofStreamLoop_label
    {label : List UInt8} (split : stream.buffer = before ++ labelLen :: (label ++ tail))
    (aligned : before.length = gathered.length) (proper : labelLen ≠ 0)
    (size : label.length = labelLen.toNat) (room : gathered.length + labelLen.toNat < 255) :
    ofStreamLoop stream (rounds + 1) gathered numLabels =
      ofStreamLoop stream rounds (gathered ++ label ++ [dot])
        (if label = [star] then numLabels else numLabels + 1) := by
  have behind : stream.buffer = before ++ [labelLen] ++ (label ++ tail) := by
    rw [split, append_assoc, singleton_append]
  have place : (before ++ [labelLen]).length = gathered.length + 1 := by
    rw [length_append, aligned, length_singleton]
  have copied : copyLabel stream labelLen.toNat gathered = .ok (gathered ++ label) := by
    rw [copyLabel_eq behind place (by omega), if_neg (by omega),
      if_pos (by rw [length_append]; omega), ← size, take_left]
  have wild := @isWildcard_eq stream _ tail label labelLen gathered.length
    (by rw [behind, ← append_assoc]) place size
  have inside : gathered.length < maxDnsNameLen := by
    rw [maxDnsNameLen]
    omega
  have storable : (gathered ++ label).length < maxDnsNameLen := by
    rw [length_append, size]
    exact room
  rw [ofStreamLoop, dif_pos inside, byteAt_middle split aligned, ok_bind, copied, ok_bind,
    if_neg proper, wild, ok_bind, storeChar_of_lt storable, ok_bind]
  simp only [beq_iff_eq]

/-- A label that reaches the end of `nameBytes` is stored beyond it, unless the buffer ends
before. -/
theorem ofStreamLoop_long (split : stream.buffer = before ++ labelLen :: tail)
    (aligned : before.length = gathered.length) (inside : gathered.length < maxDnsNameLen)
    (long : 255 ≤ gathered.length + labelLen.toNat ∨ tail.length < labelLen.toNat) :
    ofStreamLoop stream (rounds + 1) gathered numLabels =
      if min labelLen.toNat (256 - gathered.length) ≤ tail.length then
        .error (.fault .outOfBoundsWrite)
      else .error ByteStream.pastTheEnd := by
  have behind : stream.buffer = before ++ [labelLen] ++ tail := by
    rw [split, append_assoc, singleton_append]
  have place : (before ++ [labelLen]).length = gathered.length + 1 := by
    rw [length_append, aligned, length_singleton]
  have room : gathered.length < 255 := inside
  have proper : labelLen ≠ 0 := by
    rintro rfl
    simp only [UInt8.toNat_zero] at long
    omega
  rw [ofStreamLoop, dif_pos inside, byteAt_middle split aligned, ok_bind,
    copyLabel_eq behind place (Nat.le_of_lt inside)]
  by_cases copyOverruns : 255 < gathered.length + min labelLen.toNat tail.length
  · rw [if_pos copyOverruns, error_bind, if_pos (by omega)]
  · rw [if_neg copyOverruns]
    by_cases complete : labelLen.toNat ≤ tail.length
    · have size : (tail.take labelLen.toNat).length = labelLen.toNat := by
        rw [length_take, Nat.min_eq_left complete]
      have wild := @isWildcard_eq stream _ (tail.drop labelLen.toNat)
        (tail.take labelLen.toNat) labelLen gathered.length
        (by rw [behind, append_assoc _ (tail.take _), take_append_drop]) place size
      rw [if_pos complete, ok_bind, if_neg proper, wild, ok_bind,
        storeChar_of_full (by rw [length_append, size]; omega), error_bind,
        if_pos (by omega)]
    · rw [if_neg complete, error_bind, if_neg (by omega)]

/-- Over the rounds that are left the two loops agree, unless the one for streams runs over
the end of `nameBytes`. -/
theorem ofStreamLoop_cases (split : stream.buffer = before ++ tail)
    (aligned : before.length = gathered.length) (room : gathered.length ≤ 255)
    (enough : 255 < rounds + gathered.length) :
    Overruns gathered.length tail ∧
        ofStreamLoop stream rounds gathered numLabels = .error (.fault .outOfBoundsWrite) ∨
      ¬ Overruns gathered.length tail ∧ Same (ofStreamLoop stream rounds gathered numLabels)
          (ofWireLoop (min 255 stream.buffer.length) rounds tail gathered numLabels) := by
  induction rounds generalizing before tail gathered numLabels with
  | zero => omega
  | succ rounds induction =>
    by_cases inside : gathered.length < maxDnsNameLen
    swap
    · right
      have streamed : ofStreamLoop stream (rounds + 1) gathered numLabels =
          .error (.badInput "DomainName badly formatted or too long") := by
        rw [ofStreamLoop, dif_neg inside]
      rw [maxDnsNameLen] at inside
      exact ⟨fun overruns => inside overruns.position_lt,
        .inr ⟨_, _, streamed, ofWireLoop_end (by omega)⟩⟩
    have below : gathered.length < 255 := inside
    have total := congrArg List.length split
    rw [length_append, aligned] at total
    cases tail with
    | nil =>
      right
      have streamed : ofStreamLoop stream (rounds + 1) gathered numLabels =
          .error ByteStream.pastTheEnd := by
        have place : stream.buffer.length = gathered.length := total
        rw [ofStreamLoop, dif_pos inside, byteAt_end place, error_bind]
      refine ⟨?_, .inr ⟨_, _, streamed, ofWireLoop_end ?_⟩⟩
      · intro overruns
        cases overruns
      · rw [total]
        exact Nat.min_le_right _ _
    | cons labelLen after =>
      rw [length_cons] at total
      by_cases long : 255 ≤ gathered.length + labelLen.toNat ∨ after.length < labelLen.toNat
      · have streamed := @ofStreamLoop_long stream before after gathered rounds numLabels
          labelLen split aligned inside long
        by_cases runs : min labelLen.toNat (256 - gathered.length) ≤ after.length
        · left
          rw [if_pos runs] at streamed
          exact ⟨.here inside (by omega) runs, streamed⟩
        · right
          rw [if_neg runs] at streamed
          exact ⟨not_overruns_cut (Nat.lt_of_not_le runs),
            .inr ⟨_, _, streamed, ofWireLoop_long (by omega) (by omega)⟩⟩
      · obtain ⟨label, rest, rfl, size⟩ : ∃ label rest, after = label ++ rest ∧
            label.length = labelLen.toNat :=
          ⟨after.take labelLen.toNat, after.drop labelLen.toNat,
            (take_append_drop _ _).symm, by rw [length_take]; omega⟩
        by_cases root : labelLen = 0
        · right
          subst root
          exact ⟨not_overruns_root below, .inl ⟨_, ofStreamLoop_root split aligned inside,
            ofWireLoop_root (by omega) _⟩⟩
        · have place : (gathered ++ label ++ [dot]).length =
              gathered.length + labelLen.toNat + 1 := by
            simp only [length_append, length_singleton, size]
          rw [ofStreamLoop_label split aligned root size (by omega),
            ofWireLoop_label (by omega) root size (by omega),
            overruns_label_iff root size (by omega), ← place]
          exact @induction (before ++ labelLen :: label) _ _ _
            (by rw [split, append_assoc, cons_append])
            (by rw [place, length_append, length_cons]; omega) (by omega) (by omega)

end Loop

/-- The constructors for streams and for buffers either both throw or store the same
name, and none of them leaves `nameBytes`. -/
def Agree (stream : ByteStream) : Prop :=
  Same (ofStream stream) (ofWire stream.buffer stream.buffer.length)

/-- The two constructors agree on exactly the buffers in which no label runs over the end
of `nameBytes`. -/
theorem ofStream_agrees_iff (stream : ByteStream) : Agree stream ↔ ¬ Overruns 0 stream.buffer := by
  have nonzero : stream.buffer.length ≠ 0 := by
    rw [ne_eq, length_eq_zero_iff]
    exact stream.nonempty
  have wire : ofWire stream.buffer stream.buffer.length =
      ofWireLoop (min 255 stream.buffer.length) 256 stream.buffer [] 0 := by
    rw [ofWire, ensure_true nonzero, ok_bind]
    rfl
  have cases := @ofStreamLoop_cases stream [] stream.buffer [] 256 0 rfl rfl
    (Nat.zero_le _) (by decide)
  rw [Agree, wire]
  rcases cases with ⟨overruns, faults⟩ | ⟨stays, same⟩
  · refine iff_of_false ?_ (not_not_intro overruns)
    rw [show ofStream stream = .error (.fault .outOfBoundsWrite) from faults]
    exact not_same_fault
  · exact iff_of_true same stays

/-- A buffer with a first label of 255 bytes. -/
def longLabel : ByteStream where
  buffer := 255 :: List.replicate 255 97
  pos := 0
  nonempty := List.cons_ne_nil _ _
  sized := by rw [List.length_cons, List.length_replicate]; decide

/-- The label is copied from the stream, and its separator is stored behind the end of
`nameBytes`; the constructor for buffers refuses it. -/
theorem ofStream_overruns : ofStream longLabel = .error (.fault .outOfBoundsWrite) ∧
      ofWire longLabel.buffer longLabel.buffer.length =
        .error (.badInput "DomainName exceeded bounds") ∧
      ¬ Agree longLabel := by
  have streamed : ofStream longLabel = .error (.fault .outOfBoundsWrite) := by decide +kernel
  refine ⟨streamed, by decide +kernel, ?_⟩
  rw [Agree, streamed]
  exact not_same_fault

end Embassies.Crypto.DomainName
