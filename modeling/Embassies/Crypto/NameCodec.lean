import Embassies.Crypto.WireName
import Mathlib.Data.List.Infix
import Mathlib.Data.List.TakeWhile

/-!
# Serialized names

Serializing a name changes only the bytes that the name occupies, and it
faults exactly when they leave the buffer.  Which bytes are stored depends on
the name: a clean name is written as its wire encoding, while a name with a
zero byte or a space leaves some bytes of the buffer as they were.

A name is canonical when it is the reading of a clean wire name.  Canonical
names are the ones that survive serialization: a name that compares equal to
what is read back from its serialized bytes is canonical.
-/

namespace Embassies.Crypto

open Library Library.Buffer Library.Checked List Confined WireName

namespace DomainName

/-- A byte that serialization keeps as it is. -/
def CleanByte (byte : UInt8) : Prop :=
  byte ≠ 0 ∧ byte ≠ dot ∧ byte ≠ space ∧ toLower byte = byte

instance : DecidablePred CleanByte := fun _ =>
  inferInstanceAs (Decidable (_ ∧ _ ∧ _ ∧ _))

/-- A byte that is stored and compared as part of its label. -/
def PlainByte (byte : UInt8) : Prop :=
  byte ≠ 0 ∧ byte ≠ dot ∧ toLower byte = byte

theorem CleanByte.plain {byte : UInt8} (clean : CleanByte byte) : PlainByte byte :=
  ⟨clean.1, clean.2.1, clean.2.2.2⟩

end DomainName

/-- Every byte of every label is kept by serialization. -/
def WireName.Clean (name : WireName) : Prop :=
  ∀ label ∈ name.labels, ∀ byte ∈ label, DomainName.CleanByte byte

instance (name : WireName) : Decidable name.Clean :=
  inferInstanceAs (Decidable (∀ label ∈ name.labels, _))

theorem WireName.Clean.plain {name : WireName} (clean : name.Clean) :
    ∀ label ∈ name.labels, ∀ byte ∈ label, DomainName.PlainByte byte :=
  fun label member byte inside => (clean label member byte inside).plain

namespace DomainName

/-- The name is the reading of a clean wire name. -/
def Canonical (name : DomainName) : Prop :=
  ∃ wire : WireName, wire.Clean ∧ name = wire.toDomainName

/-! ## Comparison -/

theorem cString_eq_chars {name : DomainName} (zeroFree : 0 ∉ name.chars) :
    name.cString = name.chars := by
  rw [cString, takeWhile_eq_self_iff]
  intro byte member
  simp only [ne_eq, decide_eq_true_eq]
  rintro rfl
  exact zeroFree member

theorem equals_self (name : DomainName) : equals name name = true := by
  have start := prefix_iff_eq_take.mp name.cString_isPrefix
  simp [equals, ← start]

theorem chars_length_eq_of_len_eq {left right : DomainName} (same : left.len = right.len) :
    left.chars.length = right.chars.length := by
  rcases left.len_eq with leftRoot | leftLen <;> rcases right.len_eq with rightRoot | rightLen
  · rw [leftRoot.1, rightRoot.1]
  · omega
  · omega
  · omega

/-- On a name without zero bytes comparison is equality. -/
theorem equals_iff_eq {left right : DomainName} (zeroFree : 0 ∉ left.chars) :
    equals left right = true ↔ left = right := by
  constructor
  · intro equal
    simp only [equals, Bool.and_eq_true, beq_iff_eq, cString_eq_chars zeroFree] at equal
    obtain ⟨⟨sameLen, sameLabels⟩, sameChars⟩ := equal
    rw [chars_length_eq_of_len_eq sameLen, take_length] at sameChars
    exact DomainName.ext sameChars sameLen sameLabels
  · rintro rfl
    exact equals_self left

/-! ## The bytes that serialization touches -/

section Steps

variable {base position labelPos labelLen : Nat} {buffer rest : List UInt8}

theorem serializeLoop_space (inside : base + position < buffer.length) :
    serializeLoop base (space :: rest) position labelPos labelLen buffer =
      serializeLoop base rest (position + 1) labelPos labelLen
        (patch buffer (base + position) [0]) := by
  rw [serializeLoop, if_neg (by decide), if_pos rfl, writeByte_eq_ok inside, ok_bind]

/-- A round stores one byte, into the open label, behind its position or, for a
space, at its position, and leaves the label open or opens the next one. -/
theorem serializeLoop_cons (base : Nat) (char : UInt8) (rest : List UInt8)
    (position labelPos labelLen : Nat) :
    ∃ offset byte nextPos nextLen,
      (offset = labelPos ∨ offset = position + 1 ∨ offset = position ∧ byte = 0) ∧
      (nextPos = labelPos ∨ nextPos = position + 1) ∧
      ∀ buffer, serializeLoop base (char :: rest) position labelPos labelLen buffer = (do
        let buffer ← writeBytes buffer (base + offset) [byte]
        serializeLoop base rest (position + 1) nextPos nextLen buffer) := by
  by_cases separator : char = dot
  · exact ⟨_, _, _, _, .inl rfl, .inr rfl, fun _ => by rw [serializeLoop, if_pos separator]⟩
  · by_cases blank : char = space
    · exact ⟨_, _, _, _, .inr (.inr ⟨rfl, rfl⟩), .inl rfl,
        fun _ => by rw [serializeLoop, if_neg separator, if_pos blank]⟩
    · exact ⟨_, _, _, _, .inr (.inl rfl), .inl rfl,
        fun _ => by rw [serializeLoop, if_neg separator, if_neg blank, Nat.add_assoc]⟩

end Steps

variable {name : DomainName} {wire : WireName} {labels : List (List UInt8)}
  {buffer after : List UInt8} {base : Nat}

theorem serializeLoop_confined {base position labelPos labelLen : Nat} {chars buffer : List UInt8}
    (ordered : labelPos ≤ position)
    (fits : base + position + chars.length + 1 ≤ buffer.length) :
    ∃ after lastPos lastLen, serializeLoop base chars position labelPos labelLen buffer =
        .ok (after, lastPos, lastLen) ∧
      Confined buffer after (base + labelPos) (base + position + chars.length + 1) ∧
      lastPos ≤ position + chars.length := by
  induction chars generalizing position labelPos labelLen buffer with
  | nil => exact ⟨buffer, labelPos, labelLen, rfl, Confined.refl _ _ _, ordered⟩
  | cons char chars induction =>
    obtain ⟨offset, byte, nextPos, nextLen, target, opened, round⟩ :=
      serializeLoop_cons base char chars position labelPos labelLen
    simp only [length_cons] at fits ⊢
    have inside : base + offset < buffer.length := by omega
    have room : base + (position + 1) + chars.length + 1 ≤
        (patch buffer (base + offset) [byte]).length := by
      rw [patch_byte_length inside]
      omega
    obtain ⟨after, lastPos, lastLen, stored, confined, upper⟩ :=
      @induction (position + 1) nextPos nextLen _ (by omega) room
    refine ⟨after, lastPos, lastLen, ?_, ?_, by omega⟩
    · rw [round, writeByte_eq_ok inside, ok_bind]
      exact stored
    · exact (of_patch_byte inside (by omega) (by omega)).trans (confined.mono (by omega) (by omega))

theorem cString_length_le (name : DomainName) : name.cString.length ≤ name.chars.length :=
  name.cString_isPrefix.length_le

theorem len_eq_of_ne_one (proper : name.len ≠ 1) : name.len = name.chars.length + 2 := by
  rcases name.len_eq with root | other
  · exact absurd root.2 proper
  · exact other

theorem chars_eq_of_len_eq_one (root : name.len = 1) : name.chars = [space] := by
  rcases name.len_eq with isRoot | other
  · exact isRoot.1
  · omega

theorem serialize_root (root : name.len = 1) (fits : base < buffer.length) :
    serialize name buffer base = .ok (patch buffer base [0], 1) := by
  have text : name.cString = [space] := by
    rw [cString, chars_eq_of_len_eq_one root]
    decide
  have twice : patch (patch buffer base [0]) base [(0 : UInt8)] = patch buffer base [0] :=
    patch_patch_same rfl fits
  have looped : serializeLoop base [space] 0 0 0 buffer = .ok (patch buffer base [0], 0, 0) :=
    serializeLoop_space fits
  have inside : base < (patch buffer base [(0 : UInt8)]).length := by
    rwa [patch_byte_length fits]
  have zero : UInt8.ofNat 0 = 0 := rfl
  simp only [serialize, text, root, looped, ok_bind, Nat.add_zero,
    Nat.sub_self, zero, writeByte_eq_ok inside, twice, pure_eq_ok]

theorem serialize_eq_ok (fits : base + name.size ≤ buffer.length) :
    ∃ bytes, bytes.length = name.size ∧
      serialize name buffer base = .ok (patch buffer base bytes, name.size) := by
  by_cases root : name.len = 1
  · refine ⟨[0], by simp [size, root], ?_⟩
    rw [size, root] at fits
    rw [serialize_root root fits, size, root]
  · have proper := len_eq_of_ne_one root
    have shorter := name.cString_length_le
    simp only [size] at fits ⊢
    obtain ⟨stored, lastPos, lastLen, looped, confined, upper⟩ :=
      @serializeLoop_confined base 0 0 0 name.cString buffer le_rfl (by omega)
    have closing : base + lastPos < stored.length := by
      rw [confined.length]
      omega
    have ending : base + (name.len - 1) <
        (patch stored (base + lastPos) [UInt8.ofNat lastLen]).length := by
      rw [patch_byte_length closing, confined.length]
      omega
    have whole : Confined buffer (patch (patch stored (base + lastPos) [UInt8.ofNat lastLen])
            (base + (name.len - 1)) [0])
          base (base + name.len) :=
      ((confined.mono (by omega) (by omega)).trans
        (of_patch_byte closing (by omega) (by omega))).trans
          (of_patch_byte ending (by omega) (by omega))
    obtain ⟨bytes, length, written⟩ := whole.eq_patch (by omega) fits
    refine ⟨bytes, by omega, ?_⟩
    simp only [serialize, looped, ok_bind, writeByte_eq_ok closing,
      writeByte_eq_ok ending, pure_eq_ok, written]

/-- The loop keeps the size of the buffer or writes outside of it. -/
theorem serializeLoop_length (base : Nat) (chars : List UInt8) (position labelPos labelLen : Nat)
    (buffer : List UInt8) :
    serializeLoop base chars position labelPos labelLen buffer = .error (.fault .outOfBoundsWrite) ∨
      ∃ after lastPos lastLen, serializeLoop base chars position labelPos labelLen buffer =
          .ok (after, lastPos, lastLen) ∧ after.length = buffer.length := by
  induction chars generalizing position labelPos labelLen buffer with
  | nil => exact .inr ⟨buffer, labelPos, labelLen, rfl, rfl⟩
  | cons char chars induction =>
    obtain ⟨offset, byte, nextPos, nextLen, -, -, round⟩ :=
      serializeLoop_cons base char chars position labelPos labelLen
    rw [round]
    by_cases inside : base + offset < buffer.length
    · rw [writeByte_eq_ok inside, ok_bind, ← patch_byte_length inside]
      exact induction _ _ _ _
    · rw [writeBytes_overflows (by rw [length_singleton]; omega)]
      exact .inl rfl

theorem serialize_overflows (overflows : buffer.length < base + name.size) :
    serialize name buffer base = .error (.fault .outOfBoundsWrite) := by
  have positive := name.size_pos
  rw [size] at overflows positive
  rw [serialize]
  rcases serializeLoop_length base name.cString 0 0 0 buffer with
    faulted | ⟨after, lastPos, lastLen, looped, length⟩
  · rw [faulted, error_bind]
  · rw [looped, ok_bind]
    dsimp only
    by_cases inside : base + lastPos < after.length
    · rw [writeByte_eq_ok inside, ok_bind, writeBytes_overflows, error_bind]
      rw [patch_byte_length inside, length_singleton]
      omega
    · rw [writeBytes_overflows, error_bind]
      rw [length_singleton]
      omega

/-- The bytes that storing the name at `base` puts there. -/
def written (name : DomainName) (buffer : List UInt8) (base : Nat) : List UInt8 :=
  match serialize name buffer base with
  | .ok (after, _) => (after.drop base).take name.size
  | .error _ => List.replicate name.size 0

theorem serialize_spec (name : DomainName) (buffer : List UInt8) (base : Nat) :
    (name.written buffer base).length = name.size ∧
      serialize name buffer base = store buffer base (name.written buffer base) name.size := by
  by_cases fits : base + name.size ≤ buffer.length
  · obtain ⟨bytes, length, stored⟩ := serialize_eq_ok fits
    have same : name.written buffer base = bytes := by
      simp only [written, stored]
      rw [drop_patch_start (by omega), ← length, take_left]
    rw [same]
    exact ⟨length, stored.trans (store_eq_ok_iff.mpr ⟨by omega, rfl, rfl⟩).symm⟩
  · have failed := serialize_overflows (Nat.lt_of_not_le fits)
    have same : name.written buffer base = replicate name.size 0 := by
      simp only [written, failed]
    rw [same, store, writeBytes_overflows (by rw [length_replicate]; omega)]
    exact ⟨length_replicate, failed⟩

@[simp]
theorem written_length (name : DomainName) (buffer : List UInt8) (base : Nat) :
    (name.written buffer base).length = name.size :=
  (serialize_spec name buffer base).1

theorem serialize_eq_store (name : DomainName) (buffer : List UInt8) (base : Nat) :
    serialize name buffer base = store buffer base (name.written buffer base) name.size :=
  (serialize_spec name buffer base).2

/-! ## Clean names -/

theorem gatherLabels_dropLast_cons {label : List UInt8} (more : labels ≠ []) :
    (gatherLabels (label :: labels)).dropLast = label ++ dot :: (gatherLabels labels).dropLast := by
  obtain ⟨next, labels, rfl⟩ := exists_cons_of_ne_nil more
  rw [gatherLabels_cons, dropLast_append_of_ne_nil (by simp),
    dropLast_cons_of_ne_nil gatherLabels_ne_nil]

theorem gatherLabels_dropLast_single (label : List UInt8) :
    (gatherLabels [label]).dropLast = label := by
  rw [gatherLabels_cons, gatherLabels_nil, dropLast_concat]

/-- The lower-case form in which the labels are stored. -/
def lowerLabels (labels : List (List UInt8)) : List (List UInt8) :=
  labels.map fun label => label.map toLower

theorem lowerLabels_cons (label : List UInt8) (labels : List (List UInt8)) :
    lowerLabels (label :: labels) = label.map toLower :: lowerLabels labels :=
  rfl

theorem lowerLabels_plain (plain : ∀ label ∈ labels, ∀ byte ∈ label, PlainByte byte) :
    lowerLabels labels = labels := by
  have each : ∀ label ∈ labels, label.map toLower = label := by
    intro label member
    exact (map_congr_left fun byte inside =>
      (plain label member byte inside).2.2).trans (map_id _)
  exact (map_congr_left each).trans (map_id _)

theorem gatherLabels_dropLast_eq_intercalate (proper : labels ≠ []) :
    (gatherLabels labels).dropLast = [dot].intercalate labels := by
  induction labels with
  | nil => exact absurd rfl proper
  | cons label labels induction =>
    by_cases last : labels = []
    · subst last
      simp
    · rw [gatherLabels_dropLast_cons last, induction last, intercalate_cons_of_ne_nil last]
      simp

theorem splitOn_gatherLabels (proper : labels ≠ []) (dotless : ∀ label ∈ labels, dot ∉ label) :
    (gatherLabels labels).dropLast.splitOn dot = labels := by
  rw [gatherLabels_dropLast_eq_intercalate proper]
  exact splitOn_intercalate dot dotless proper

/-- The name is stored as these labels, which are plain. -/
structure Spells (name : DomainName) (labels : List (List UInt8)) : Prop where
  plain : ∀ label ∈ labels, ∀ byte ∈ label, PlainByte byte
  chars : labels ≠ [] → name.chars = (gatherLabels labels).dropLast
  len : name.len = (gatherLabels labels).length + 1
  numLabels : name.numLabels = countLabels labels

namespace Spells

variable {name other : DomainName} {labels : List (List UInt8)}

theorem root (spells : Spells name []) : name.chars = [space] := by
  have len := spells.len
  rw [gatherLabels_nil, length_nil] at len
  rcases name.len_eq with root | other
  · exact root.1
  · omega

theorem len_eq_one_iff (spells : Spells name labels) : name.len = 1 ↔ labels = [] := by
  rw [spells.len, Nat.add_eq_right, length_eq_zero_iff]
  cases labels <;> simp

theorem splitOn_chars (spells : Spells name labels) (proper : labels ≠ []) :
    name.chars.splitOn dot = labels := by
  rw [spells.chars proper]
  exact splitOn_gatherLabels proper
    fun label member inside => (spells.plain label member dot inside).2.1 rfl

theorem zeroFree (spells : Spells name labels) : 0 ∉ name.chars := by
  by_cases proper : labels = []
  · subst proper
    rw [spells.root]
    decide
  · rw [spells.chars proper]
    intro member
    obtain ⟨label, inside, byte⟩ := mem_flatMap.mp (mem_of_mem_dropLast member)
    rcases mem_append.mp byte with byte | separator
    · exact (spells.plain label inside 0 byte).1 rfl
    · exact absurd separator (by decide)

theorem unique (first : Spells name labels) (second : Spells other labels) : name = other := by
  refine DomainName.ext ?_ (first.len.trans second.len.symm)
    (first.numLabels.trans second.numLabels.symm)
  by_cases root : labels = []
  · subst root
    rw [first.root, second.root]
  · rw [first.chars root, second.chars root]

theorem labels_eq (spells : Spells name labels) : name.labels = labels := by
  rw [DomainName.labels]
  split
  · rename_i root
    exact (spells.len_eq_one_iff.mp root).symm
  · rename_i proper
    exact spells.splitOn_chars (mt spells.len_eq_one_iff.mpr proper)

end Spells

theorem spells_wire (plain : ∀ label ∈ wire.labels, ∀ byte ∈ label, PlainByte byte) :
    Spells wire.toDomainName wire.labels where
  plain := plain
  chars := toDomainName_chars
  len := by rw [wire.toDomainName_len, wire.encode_length, gatherLabels_length]
  numLabels := wire.toDomainName_numLabels

theorem Canonical.zeroFree (canonical : name.Canonical) : 0 ∉ name.chars := by
  obtain ⟨wire, clean, rfl⟩ := canonical
  exact (spells_wire clean.plain).zeroFree

theorem encodeLabels_lowerLabels_length (labels : List (List UInt8)) :
    (encodeLabels (lowerLabels labels)).length = (encodeLabels labels).length := by
  induction labels with
  | nil => rfl
  | cons label labels induction =>
    simp [lowerLabels_cons, induction]

theorem serializeLoop_label {base position labelLen : Nat} {label buffer : List UInt8}
    (dotless : dot ∉ label) (spaceless : space ∉ label)
    (fits : base + position + label.length + 1 ≤ buffer.length)
    (labelPos : Nat) (rest : List UInt8) :
    serializeLoop base (label ++ rest) position labelPos labelLen buffer =
      serializeLoop base rest (position + label.length) labelPos (labelLen + label.length)
        (patch buffer (base + position + 1) (label.map toLower)) := by
  induction label generalizing position labelLen buffer with
  | nil => simp
  | cons char label induction =>
    simp only [mem_cons, not_or] at dotless spaceless
    simp only [length_cons] at fits
    have inside : base + position + 1 < buffer.length := by omega
    have room : base + (position + 1) + label.length + 1 ≤
          (patch buffer (base + position + 1) [toLower char]).length := by
      rw [patch_byte_length inside]
      omega
    have chained : patch (patch buffer (base + position + 1) [toLower char])
            (base + (position + 1) + 1) (label.map toLower) =
          patch buffer (base + position + 1) ((char :: label).map toLower) :=
      patch_patch_append (by simp only [length_map, length_singleton]; omega)
    rw [cons_append, serializeLoop, if_neg (Ne.symm dotless.1), if_neg (Ne.symm spaceless.1),
      writeByte_eq_ok inside, ok_bind, induction dotless.2 spaceless.2 room, chained, length_cons,
      Nat.add_right_comm position, Nat.add_right_comm labelLen]
    rfl

theorem serializeLoop_labels
    {base position : Nat} {labels : List (List UInt8)} {buffer : List UInt8}
    (proper : labels ≠ [])
    (plain : ∀ label ∈ labels, dot ∉ label ∧ space ∉ label)
    (fits : base + position + (encodeLabels labels).length ≤ buffer.length) :
    ∃ after lastPos lastLen, serializeLoop base (gatherLabels labels).dropLast position position 0
          buffer = .ok (after, lastPos, lastLen) ∧
      base + lastPos < after.length ∧
      patch after (base + lastPos) [UInt8.ofNat lastLen] =
        patch buffer (base + position) (encodeLabels (lowerLabels labels)) := by
  induction labels generalizing position buffer with
  | nil => exact absurd rfl proper
  | cons label labels induction =>
    obtain ⟨dotless, spaceless⟩ := plain label mem_cons_self
    have sameSize := encodeLabels_lowerLabels_length labels
    simp only [encodeLabels_cons, length_cons, length_append] at fits
    have stored : base + position + 1 + (label.map toLower).length ≤ buffer.length := by
      rw [length_map]
      omega
    have inside : base + position <
          (patch buffer (base + position + 1) (label.map toLower)).length := by
      rw [patch_length stored]
      omega
    have closed : patch (patch buffer (base + position + 1) (label.map toLower))
            (base + position) [UInt8.ofNat label.length] =
          patch buffer (base + position) (UInt8.ofNat label.length :: label.map toLower) :=
      @patch_patch_before _ buffer [UInt8.ofNat label.length] _ _ stored
    by_cases more : labels = []
    · subst more
      refine ⟨patch buffer (base + position + 1) (label.map toLower),
        position, label.length, ?_, inside, ?_⟩
      · have looped := @serializeLoop_label base position 0 label buffer
          dotless spaceless (by omega) position []
        rw [gatherLabels_dropLast_single]
        simpa only [append_nil, Nat.zero_add, serializeLoop] using looped
      · simpa [lowerLabels] using closed
    · have whole : base + position + (UInt8.ofNat label.length :: label.map toLower).length ≤
            buffer.length := by
        simp only [length_cons, length_map]
        omega
      have room : base + (position + label.length + 1) + (encodeLabels labels).length ≤
            (patch buffer (base + position)
              (UInt8.ofNat label.length :: label.map toLower)).length := by
        rw [patch_length whole]
        omega
      obtain ⟨after, lastPos, lastLen, looped, within, written⟩ := induction more
          (fun item member => plain item (mem_cons_of_mem _ member)) room
      refine ⟨after, lastPos, lastLen, ?_, within, ?_⟩
      · rw [gatherLabels_dropLast_cons more,
          serializeLoop_label dotless spaceless (by omega), Nat.zero_add,
          serializeLoop, if_pos rfl, writeByte_eq_ok inside, ok_bind, closed]
        exact looped
      · have offset : base + (position + label.length + 1) = base + position +
              (UInt8.ofNat label.length :: label.map toLower).length := by
          simp only [length_cons, length_map]
          omega
        rw [written, lowerLabels_cons, encodeLabels_cons, length_map, ← cons_append, offset]
        refine patch_patch_append ?_
        omega

theorem serialize_clean (clean : wire.Clean) (fits : base + wire.encode.length ≤ buffer.length) :
    serialize wire.toDomainName buffer base =
      .ok (patch buffer base wire.encode, wire.encode.length) := by
  have text := cString_eq_chars (Canonical.zeroFree ⟨wire, clean, rfl⟩)
  have len := wire.toDomainName_len
  by_cases root : wire.labels = []
  · have single : wire.encode = [0] := by simp [encode, root]
    rw [single] at fits len ⊢
    exact serialize_root len fits
  · rw [encode_length] at fits len
    obtain ⟨after, lastPos, lastLen, looped, inside, written⟩ :=
      @serializeLoop_labels base 0 wire.labels buffer root (fun label member =>
          ⟨fun inside => (clean label member dot inside).2.1 rfl,
            fun inside => (clean label member space inside).2.2.1 rfl⟩)
        (by omega)
    have room : base + (encodeLabels wire.labels).length <
        (patch buffer base (encodeLabels wire.labels)).length := by
      rw [patch_length (by omega)]
      omega
    have ended : patch (patch buffer base (encodeLabels wire.labels))
            (base + (encodeLabels wire.labels).length) [0] =
          patch buffer base wire.encode :=
      patch_patch_append (by rw [length_singleton]; omega)
    rw [Nat.add_zero, lowerLabels_plain clean.plain] at written
    simp only [serialize, text, toDomainName_chars root, looped,
      ok_bind, writeByte_eq_ok inside, written, len, Nat.add_sub_cancel,
      writeByte_eq_ok room, ended, pure_eq_ok, encode_length]

/-! ## Only canonical names survive -/

theorem serializeLoop_append
    (base : Nat) (front back : List UInt8) (position labelPos labelLen : Nat)
    (buffer : List UInt8) :
    serializeLoop base (front ++ back) position labelPos labelLen buffer = (do
        let (buffer, labelPos, labelLen) ←
          serializeLoop base front position labelPos labelLen buffer
        serializeLoop base back (position + front.length) labelPos labelLen buffer) := by
  induction front generalizing position labelPos labelLen buffer with
  | nil => rfl
  | cons char front induction =>
    simp only [cons_append, serializeLoop, length_cons, induction, Nat.add_assoc, Nat.add_comm 1]
    split_ifs <;> rw [bind_assoc]

theorem serializeLoop_keeps_zero {position labelPos labelLen slot lastPos lastLen : Nat}
    {chars : List UInt8} (passed : slot ≤ position) (closed : labelPos ≠ slot)
    (zero : buffer[base + slot]? = some 0)
    (looped : serializeLoop base chars position labelPos labelLen buffer =
      .ok (after, lastPos, lastLen)) :
    after[base + slot]? = some 0 ∧ lastPos ≠ slot := by
  induction chars generalizing position labelPos labelLen buffer with
  | nil =>
    cases looped
    exact ⟨zero, closed⟩
  | cons char chars induction =>
    obtain ⟨offset, byte, nextPos, nextLen, target, opened, round⟩ :=
      serializeLoop_cons base char chars position labelPos labelLen
    rw [round] at looped
    obtain ⟨next, stored, later⟩ := of_bind looped
    obtain ⟨inside, rfl⟩ := writeBytes_eq_ok_iff.mp stored
    refine induction (by omega) (by omega) ?_ later
    by_cases here : offset = slot
    · rcases target with target | target | ⟨-, rfl⟩
      · omega
      · omega
      · rw [← here, getElem?_patch_byte inside]
    · rwa [getElem?_patch_byte_ne inside (by omega)]

theorem serializeLoop_space_zero {lastPos lastLen : Nat} {front back : List UInt8}
    (fits : base + front.length + 1 < buffer.length)
    (blank : buffer[base + (front.length + 1)]? = some 0)
    (looped : serializeLoop base (front ++ space :: back) 0 0 0 buffer =
      .ok (after, lastPos, lastLen)) :
    after[base + (front.length + 1)]? = some 0 ∧ lastPos ≠ front.length + 1 := by
  obtain ⟨middle, midPos, midLen, started, confined, upper⟩ :=
    @serializeLoop_confined base 0 0 0 front buffer le_rfl (by omega)
  rw [serializeLoop_append, started, ok_bind] at looped
  have kept : middle[base + (front.length + 1)]? = some 0 := by
    have back := congrArg (·[0]?) confined.back
    simp only [getElem?_drop] at back
    rw [← blank]
    convert back using 2 <;> omega
  have inside : base + front.length < middle.length := by
    rw [confined.length]
    omega
  simp only [Nat.zero_add] at looped upper
  rw [serializeLoop_space inside] at looped
  refine serializeLoop_keeps_zero le_rfl (by omega) ?_ looped
  rwa [getElem?_patch_byte_ne inside (by omega)]

theorem gatherLabels_getElem? (labels : List (List UInt8)) (index : Nat)
    (inside : index < (gatherLabels labels).length) :
    (gatherLabels labels)[index]? = some dot ∨
      (gatherLabels labels)[index]? = (encodeLabels labels)[index + 1]? := by
  induction labels generalizing index with
  | nil => simp at inside
  | cons label labels induction =>
    rw [gatherLabels_cons, encodeLabels_cons, getElem?_cons_succ]
    rcases Nat.lt_trichotomy index label.length with before | here | behind
    · right
      rw [getElem?_append_left before, getElem?_append_left before]
    · left
      rw [here, getElem?_append_right le_rfl, Nat.sub_self, getElem?_cons_zero]
    · obtain ⟨rest, rfl⟩ := Nat.exists_eq_add_of_lt behind
      rw [gatherLabels_cons, length_append, length_cons] at inside
      rw [getElem?_append_right (by omega), getElem?_append_right (by omega)]
      have shift : label.length + rest + 1 - label.length = rest + 1 := by
        omega
      rw [shift, getElem?_cons_succ]
      exact induction rest (by omega)

theorem mem_of_mem_splitOn {chars piece : List UInt8} {byte : UInt8}
    (member : piece ∈ chars.splitOn dot) (inside : byte ∈ piece) : byte ∈ chars ∧ byte ≠ dot := by
  induction chars generalizing piece with
  | nil =>
    rw [mem_singleton.mp member] at inside
    cases inside
  | cons char chars induction =>
    have later : ∀ {other}, other ∈ chars.splitOn dot → byte ∈ other →
        byte ∈ char :: chars ∧ byte ≠ dot :=
      fun member inside => (induction member inside).imp_left (mem_cons_of_mem _)
    obtain ⟨first, rest, pieces⟩ := exists_cons_of_ne_nil (splitOn_ne_nil dot chars)
    rw [splitOn_cons_eq_if_modifyHead] at member
    split at member
    · rcases mem_cons.mp member with rfl | member
      · cases inside
      · exact later member inside
    · rename_i letter
      rw [pieces] at member later
      rcases mem_cons.mp member with rfl | member
      · rcases mem_cons.mp inside with rfl | inside
        · exact ⟨mem_cons_self, by simpa using letter⟩
        · exact later mem_cons_self inside
      · exact later (mem_cons_of_mem _ member) inside

theorem toLower_cases (byte : UInt8) : toLower byte = byte ∨ 65 ≤ byte.toNat ∧ byte.toNat ≤ 90 ∧
        (toLower byte).toNat = byte.toNat + 32 := by
  unfold toLower
  split
  · rename_i upper
    simp only [Bool.and_eq_true, decide_eq_true_eq, UInt8.le_iff_toNat_le] at upper
    have low : 65 ≤ byte.toNat := upper.1
    have high : byte.toNat ≤ 90 := upper.2
    refine .inr ⟨low, high, ?_⟩
    show (byte.toNat + 32) % 256 = byte.toNat + 32
    omega
  · exact .inl rfl

theorem toLower_eq_self {byte : UInt8} (outside : byte.toNat < 65 ∨ 90 < byte.toNat) :
    toLower byte = byte := by
  rcases toLower_cases byte with same | upper
  · exact same
  · omega

theorem cleanByte_toLower {byte : UInt8} (nonzero : byte ≠ 0) (noDot : byte ≠ dot)
    (noSpace : byte ≠ space) :
    CleanByte (toLower byte) := by
  rcases toLower_cases byte with same | ⟨lower, upper, value⟩
  · rw [CleanByte, same]
    exact ⟨nonzero, noDot, noSpace, same⟩
  · have differs : ∀ other : UInt8, other.toNat < 65 → toLower byte ≠ other := by
      rintro other small rfl
      omega
    refine ⟨differs 0 (by decide), differs dot (by decide),
      differs space (by decide), toLower_eq_self (by omega)⟩

theorem cString_zeroFree (name : DomainName) : 0 ∉ name.cString := by
  intro member
  have nonzero := mem_takeWhile_imp member
  simp at nonzero

theorem canonical_of_root (root : name.len = 1) (equal : equals name wire.toDomainName = true) :
    name.Canonical := by
  simp only [equals, Bool.and_eq_true, beq_iff_eq] at equal
  obtain ⟨⟨sameLen, sameLabels⟩, -⟩ := equal
  have unlabelled : wire.labels = [] := by
    have few := length_le_encodeLabels_length wire.labels
    rw [root, wire.toDomainName_len, wire.encode_length] at sameLen
    exact length_eq_zero_iff.mp (by omega)
  refine ⟨wire, by simp [WireName.Clean, unlabelled], ?_⟩
  refine DomainName.ext ?_ sameLen sameLabels
  rw [chars_eq_of_len_eq_one root, chars_eq_of_len_eq_one (sameLen ▸ root)]

theorem serialize_cases {count : Nat} (stored : serialize name buffer base = .ok (after, count)) :
    ∃ looped lastPos lastLen, serializeLoop base name.cString 0 0 0 buffer =
        .ok (looped, lastPos, lastLen) ∧
      base + lastPos < looped.length ∧
      base + (name.len - 1) < (patch looped (base + lastPos) [UInt8.ofNat lastLen]).length ∧
      after = patch (patch looped (base + lastPos) [UInt8.ofNat lastLen])
        (base + (name.len - 1)) [0] := by
  obtain ⟨⟨looped, lastPos, lastLen⟩, loop, finished⟩ := of_bind stored
  obtain ⟨closed, closing, ended⟩ := of_bind finished
  obtain ⟨closes, rfl⟩ := writeBytes_eq_ok_iff.mp closing
  obtain ⟨last, ending, returned⟩ := of_bind ended
  obtain ⟨ends, rfl⟩ := writeBytes_eq_ok_iff.mp ending
  simp only [pure_eq_ok, Except.ok.injEq, Prod.mk.injEq] at returned
  exact ⟨looped, lastPos, lastLen, loop, closes, ends, returned.1.symm⟩

section ReadBack

variable {name : DomainName} {wire : WireName} {base count : Nat}
variable {buffer after rest : List UInt8}

section Blank

variable (blank : buffer.drop base = replicate count 0)

include blank

theorem replicate_length_of_drop : count = buffer.length - base := by
  have counted := congrArg List.length blank
  rw [length_drop, length_replicate] at counted
  exact counted.symm

theorem spaceless_of_readBack (proper : name.len ≠ 1) (fits : base + name.len ≤ buffer.length)
    (stored : serialize name buffer base = .ok (after, name.size))
    (read : after.drop base = wire.encode ++ rest)
    (equal : equals name wire.toDomainName = true) :
    space ∉ name.cString := by
  intro member
  obtain ⟨front, back, split⟩ := append_of_mem member
  have size := len_eq_of_ne_one proper
  have shorter := name.cString_length_le
  have counted := replicate_length_of_drop blank
  simp only [equals, Bool.and_eq_true, beq_iff_eq] at equal
  obtain ⟨⟨sameLen, -⟩, sameChars⟩ := equal
  rw [wire.toDomainName_len, wire.encode_length] at sameLen
  have length : name.cString.length = front.length + (back.length + 1) := by
    rw [split, length_append, length_cons]
  have labelled : wire.labels ≠ [] := by
    intro none
    rw [none, encodeLabels_nil, length_nil] at sameLen
    omega
  have zeroBefore : buffer[base + (front.length + 1)]? = some 0 := by
    rw [← getElem?_drop, blank, getElem?_replicate, if_pos (by omega)]
  obtain ⟨looped, lastPos, lastLen, loop, closes, ends, rfl⟩ := serialize_cases stored
  rw [split] at loop
  obtain ⟨zeroAfter, other⟩ := serializeLoop_space_zero (by omega) zeroBefore loop
  have zeroRead : (wire.encode ++ rest)[front.length + 1]? = some 0 := by
    rw [← read, getElem?_drop]
    by_cases last : name.len - 1 = front.length + 1
    · rw [← last, getElem?_patch_byte ends]
    · rw [getElem?_patch_byte_ne ends (by omega),
        getElem?_patch_byte_ne closes (by omega), zeroAfter]
  have readLength := gatherLabels_length wire.labels
  have spaceRead : (gatherLabels wire.labels)[front.length]? = some space := by
    have here : name.cString[front.length]? = some space := by
      rw [split, getElem?_append_right le_rfl, Nat.sub_self, getElem?_cons_zero]
    rw [sameChars, toDomainName_chars labelled, getElem?_take_of_lt (by omega), getElem?_dropLast,
      if_pos (by omega)] at here
    exact here
  rcases gatherLabels_getElem? wire.labels front.length (by omega) with
    separator | labelByte
  · rw [spaceRead] at separator
    simp [space, dot] at separator
  · rw [encode, append_assoc, getElem?_append_left (by omega), ← labelByte, spaceRead] at zeroRead
    simp [space] at zeroRead

theorem serialize_blank {pieces : List (List UInt8)} (proper : name.len ≠ 1)
    (fits : base + name.len ≤ buffer.length)
    (stored : serialize name buffer base = .ok (after, name.size))
    (present : pieces ≠ [])
    (joined : (gatherLabels pieces).dropLast = name.cString)
    (plain : ∀ piece ∈ pieces, dot ∉ piece ∧ space ∉ piece) :
    (encodeLabels (lowerLabels pieces)).length = name.cString.length + 1 ∧ after.drop base =
        encodeLabels (lowerLabels pieces) ++
          0 :: replicate (count - (name.cString.length + 2)) 0 := by
  have size := len_eq_of_ne_one proper
  have shorter := name.cString_length_le
  have counted := replicate_length_of_drop blank
  have lowered := encodeLabels_lowerLabels_length pieces
  have piecesSize : (encodeLabels (lowerLabels pieces)).length = name.cString.length + 1 := by
    have positive := length_pos_iff.mpr present
    have few := length_le_encodeLabels_length pieces
    have whole := congrArg List.length joined
    rw [length_dropLast, gatherLabels_length] at whole
    omega
  refine ⟨piecesSize, ?_⟩
  obtain ⟨looped, lastPos, lastLen, loop, -, -, rfl⟩ := serialize_cases stored
  obtain ⟨again, closePos, closeLen, run, -, written⟩ :=
    @serializeLoop_labels base 0 pieces buffer present plain (by omega)
  rw [joined, loop, Except.ok.injEq, Prod.mk.injEq, Prod.mk.injEq] at run
  obtain ⟨rfl, rfl, rfl⟩ := run
  rw [Nat.add_zero] at written
  have rest : replicate (count - (name.cString.length + 1)) (0 : UInt8) =
      0 :: replicate (count - (name.cString.length + 2)) 0 := by
    rw [← replicate_succ]
    congr 1
    omega
  have window : (patch buffer base (encodeLabels (lowerLabels pieces))).drop base =
        encodeLabels (lowerLabels pieces) ++ replicate (count - (name.cString.length + 1)) 0 := by
    rw [drop_patch_start (by omega), ← drop_drop, blank, drop_replicate, piecesSize]
  have unchanged : (patch buffer base (encodeLabels (lowerLabels pieces)))[
        base + (name.len - 1)]? = some 0 := by
    rw [← getElem?_drop, window, getElem?_append_right (by omega),
      getElem?_replicate, if_pos (by omega)]
  rw [written, patch_byte_self unchanged, window, rest]

/-- Only a canonical name compares equal to what is read back from its
serialized bytes, when these go to blank memory. -/
theorem canonical_of_readBack (fits : base + name.size ≤ buffer.length)
    (stored : serialize name buffer base = .ok (after, name.size))
    (read : after.drop base = wire.encode ++ rest)
    (equal : equals name wire.toDomainName = true) :
    name.Canonical := by
  by_cases proper : name.len = 1
  · exact canonical_of_root proper equal
  have spaceless := spaceless_of_readBack blank proper fits stored read equal
  have present := splitOn_ne_nil dot name.cString
  have joined : (gatherLabels (name.cString.splitOn dot)).dropLast = name.cString := by
    rw [gatherLabels_dropLast_eq_intercalate present, intercalate_splitOn]
  have parts : ∀ piece ∈ name.cString.splitOn dot, ∀ byte ∈ piece,
      byte ∈ name.cString ∧ byte ≠ dot :=
    fun piece member byte => mem_of_mem_splitOn member
  have plain : ∀ piece ∈ name.cString.splitOn dot, dot ∉ piece ∧ space ∉ piece :=
    fun piece member => ⟨fun inside => (parts piece member dot inside).2 rfl,
      fun inside => spaceless (parts piece member space inside).1⟩
  obtain ⟨piecesSize, window⟩ := serialize_blank blank proper fits stored present joined plain
  have size := len_eq_of_ne_one proper
  have shorter := name.cString_length_le
  have short := wire.short
  have sameLen : name.len = (encodeLabels wire.labels).length + 1 := by
    rw [equals, Bool.and_eq_true, Bool.and_eq_true] at equal
    rw [← wire.encode_length, ← wire.toDomainName_len]
    exact beq_iff_eq.mp equal.1.1
  rw [window, encode, append_assoc, singleton_append] at read
  obtain ⟨labels, -⟩ := encodeLabels_append_inj_of_le wire.nonempty (by omega) (by omega) read.symm
  have clean : wire.Clean := by
    intro label member byte inside
    rw [labels] at member
    obtain ⟨piece, pieceMember, rfl⟩ := mem_map.mp member
    obtain ⟨byte, byteMember, rfl⟩ := mem_map.mp inside
    refine cleanByte_toLower ?_ ?_ ?_
    · rintro rfl
      exact name.cString_zeroFree (parts piece pieceMember 0 byteMember).1
    · rintro rfl
      exact (plain piece pieceMember).1 byteMember
    · rintro rfl
      exact (plain piece pieceMember).2 byteMember
  have zeroFree : 0 ∉ name.chars := by
    rw [labels, piecesSize] at sameLen
    have whole : name.cString = name.chars := name.cString_isPrefix.eq_of_length (by omega)
    rw [← whole]
    exact name.cString_zeroFree
  exact ⟨wire, clean, (equals_iff_eq zeroFree).mp equal⟩

/-- A name whose stored bytes are read back as an equal name is canonical,
and its bytes are the encoding that is read. -/
theorem written_canonical {left right : List UInt8} (fits : base + name.size ≤ buffer.length)
    (read : name.written buffer base ++ left = wire.encode ++ right)
    (equal : equals name wire.toDomainName = true) :
    name.Canonical ∧ name.written buffer base = wire.encode := by
  have length := name.written_length buffer base
  have sameLen : name.size = wire.encode.length := by
    rw [equals, Bool.and_eq_true, Bool.and_eq_true] at equal
    rw [← wire.toDomainName_len]
    exact beq_iff_eq.mp equal.1.1
  have same := append_inj_left read (length.trans sameLen)
  have stored := (name.serialize_eq_store buffer base).trans
    (store_eq_ok_iff.mpr ⟨by omega, rfl, rfl⟩)
  rw [same] at stored
  exact ⟨canonical_of_readBack blank fits stored (drop_patch_start (by omega)) equal, same⟩

end Blank

end ReadBack

end DomainName

end Embassies.Crypto
