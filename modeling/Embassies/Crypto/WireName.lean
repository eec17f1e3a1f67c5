import Embassies.Crypto.DomainName

/-!
# Names on the wire

A `WireName` is what a wire buffer can hold: non-empty labels whose encoding,
each label behind its length byte and the root label at the end, takes at most
255 bytes.  The wire constructor accepts exactly the buffers that start with
the encoding of a wire name, and the name it stores is a function of that wire
name alone.

Serialization is not the inverse of the constructor for every wire name.  It
is one for the clean names, whose labels contain no upper-case letter, dot,
space or zero byte.
-/

namespace Embassies.Crypto

open Library Library.Checked List

/-- The labels of a name on the wire, each behind its length byte. -/
def encodeLabels (labels : List (List UInt8)) : List UInt8 :=
  labels.flatMap fun label => UInt8.ofNat label.length :: label

/-- The characters the wire constructor gathers for the labels. -/
def gatherLabels (labels : List (List UInt8)) : List UInt8 :=
  labels.flatMap fun label => label ++ [dot]

/-- How many labels are counted: all but the wildcards. -/
def countLabels (labels : List (List UInt8)) : Nat :=
  labels.countP fun label => label ≠ [star]

@[simp]
theorem encodeLabels_nil : encodeLabels [] = [] := rfl

@[simp]
theorem encodeLabels_cons (label : List UInt8) (labels : List (List UInt8)) :
    encodeLabels (label :: labels) =
      UInt8.ofNat label.length :: (label ++ encodeLabels labels) := by
  simp [encodeLabels]

@[simp]
theorem gatherLabels_nil : gatherLabels [] = [] := rfl

@[simp]
theorem gatherLabels_cons (label : List UInt8) (labels : List (List UInt8)) :
    gatherLabels (label :: labels) = label ++ dot :: gatherLabels labels := by
  simp [gatherLabels]

@[simp]
theorem countLabels_nil : countLabels [] = 0 := rfl

theorem append_gatherLabels_cons (gathered label : List UInt8) (labels : List (List UInt8)) :
    gathered ++ gatherLabels (label :: labels) =
      (gathered ++ label ++ [dot]) ++ gatherLabels labels := by
  simp

theorem add_countLabels_cons (numLabels : Nat) (label : List UInt8) (labels : List (List UInt8)) :
    numLabels + countLabels (label :: labels) =
      (if label = [star] then numLabels else numLabels + 1) + countLabels labels := by
  by_cases wild : label = [star]
  · simp [countLabels, wild]
  · simp [countLabels, wild, Nat.add_comm 1, Nat.add_assoc]

theorem gatherLabels_length (labels : List (List UInt8)) :
    (gatherLabels labels).length = (encodeLabels labels).length := by
  induction labels with
  | nil => rfl
  | cons label labels induction =>
    simp only [gatherLabels_cons, encodeLabels_cons, length_append, length_cons, induction]
    omega

theorem length_le_encodeLabels_length (labels : List (List UInt8)) :
    labels.length ≤ (encodeLabels labels).length := by
  induction labels with
  | nil => simp
  | cons label labels induction =>
    simp only [encodeLabels_cons, length_append, length_cons]
    omega

/-- A name as it can stand in a wire buffer. -/
@[ext]
structure WireName where
  labels : List (List UInt8)
  nonempty : ∀ label ∈ labels, label ≠ []
  short : (encodeLabels labels).length + 1 ≤ 255

namespace WireName

/-- The bytes of the name, ended by the root label. -/
def encode (name : WireName) : List UInt8 :=
  encodeLabels name.labels ++ [0]

variable (name : WireName)

theorem encode_length : name.encode.length = (encodeLabels name.labels).length + 1 := by
  simp [encode]

theorem gatherLabels_short : (gatherLabels name.labels).length ≤ 254 := by
  rw [gatherLabels_length]
  have short := name.short
  omega

/-- The name that the wire constructor stores. -/
def toDomainName (name : WireName) : DomainName :=
  DomainName.ofGathered (gatherLabels name.labels) (countLabels name.labels)
    name.gatherLabels_short

/-- The root, which has no label. -/
def root : WireName := ⟨[], by simp, by simp⟩

theorem gatherLabels_ne_nil {label : List UInt8} {labels : List (List UInt8)} :
    gatherLabels (label :: labels) ≠ [] := by
  simp

theorem toDomainName_chars {name : WireName} (proper : name.labels ≠ []) :
    name.toDomainName.chars = (gatherLabels name.labels).dropLast := by
  obtain ⟨label, labels, split⟩ := exists_cons_of_ne_nil proper
  simp [toDomainName, DomainName.ofGathered, split]

theorem toDomainName_numLabels : name.toDomainName.numLabels = countLabels name.labels := by
  unfold toDomainName DomainName.ofGathered
  split <;> rfl

theorem toDomainName_len : name.toDomainName.len = name.encode.length := by
  rw [encode_length, ← gatherLabels_length]
  unfold toDomainName DomainName.ofGathered
  split
  · rename_i empty
    simp [empty]
  · rename_i proper
    have positive := length_pos_iff.mpr proper
    simp only [length_dropLast]
    omega

@[simp]
theorem toDomainName_size : name.toDomainName.size = name.encode.length := name.toDomainName_len

end WireName

theorem labelLength_toNat {label : List UInt8} (fits : label.length ≤ 255) :
    (UInt8.ofNat label.length).toNat = label.length := by
  simp only [UInt8.toNat_ofNat']
  omega

theorem labelLength_ne_zero {label : List UInt8} (fits : label.length ≤ 255) (proper : label ≠ []) :
    UInt8.ofNat label.length ≠ 0 := by
  intro zero
  have equal := congrArg UInt8.toNat zero
  rw [labelLength_toNat fits] at equal
  exact proper (length_eq_zero_iff.mp equal)

variable {left right : List (List UInt8)}

/-- Proper labels are found again in front of a root label that stands no
earlier than theirs. -/
theorem encodeLabels_append_inj_of_le {leftTail rightTail : List UInt8}
    (proper : ∀ label ∈ left, label ≠ [])
    (short : (encodeLabels left).length ≤ 255)
    (ordered : (encodeLabels right).length ≤ (encodeLabels left).length)
    (equal : encodeLabels left ++ 0 :: leftTail = encodeLabels right ++ 0 :: rightTail) :
    left = right ∧ leftTail = rightTail := by
  induction left generalizing right with
  | nil =>
    cases right with
    | nil => exact ⟨rfl, by simpa using equal⟩
    | cons label right => simp at ordered
  | cons label left induction =>
    simp only [encodeLabels_cons, length_cons, length_append] at short ordered
    cases right with
    | nil =>
      simp only [encodeLabels_nil, encodeLabels_cons, nil_append,
        cons_append, List.cons.injEq] at equal
      exact absurd equal.1 (labelLength_ne_zero (by omega) (proper label mem_cons_self))
    | cons other right =>
      simp only [encodeLabels_cons, length_cons, length_append] at ordered
      simp only [encodeLabels_cons, cons_append, List.cons.injEq, append_assoc] at equal
      have sameLength : label.length = other.length := by
        have bytes := congrArg UInt8.toNat equal.1
        rwa [labelLength_toNat (by omega), labelLength_toNat (by omega)] at bytes
      have parts := append_inj equal.2 sameLength
      have rest := induction (fun item member => proper item (mem_cons_of_mem _ member))
        (by omega) (by omega) parts.2
      exact ⟨by rw [parts.1, rest.1], rest.2⟩

/-- Encoded labels can be told apart from what follows the root label. -/
theorem encodeLabels_append_inj {leftTail rightTail : List UInt8}
    (leftProper : ∀ label ∈ left, label ≠ [])
    (rightProper : ∀ label ∈ right, label ≠ [])
    (leftShort : (encodeLabels left).length ≤ 255)
    (rightShort : (encodeLabels right).length ≤ 255)
    (equal : encodeLabels left ++ 0 :: leftTail = encodeLabels right ++ 0 :: rightTail) :
    left = right ∧ leftTail = rightTail := by
  rcases Nat.le_total (encodeLabels right).length (encodeLabels left).length with shorter | longer
  · exact encodeLabels_append_inj_of_le leftProper leftShort shorter equal
  · have parts := encodeLabels_append_inj_of_le rightProper rightShort longer equal.symm
    exact ⟨parts.1.symm, parts.2.symm⟩

theorem WireName.encode_append_inj {left right : WireName} {leftTail rightTail : List UInt8}
    (equal : left.encode ++ leftTail = right.encode ++ rightTail) :
    left = right ∧ leftTail = rightTail := by
  have leftShort := left.short
  have rightShort := right.short
  have parts := encodeLabels_append_inj left.nonempty right.nonempty (by omega) (by omega)
    (by simpa only [WireName.encode, append_assoc, singleton_append] using equal)
  exact ⟨WireName.ext parts.1, parts.2⟩

namespace DomainName

/-! ## Reading a name -/

section Step

variable {limit rounds numLabels : Nat} {gathered tail : List UInt8} {labelLen : UInt8}

theorem ofWireLoop_root (inside : gathered.length < limit) (bounded : gathered.length ≤ 254) :
    ofWireLoop limit (rounds + 1) (0 :: tail) gathered numLabels =
      .ok (ofGathered gathered numLabels bounded) := by
  have fits : ¬limit < gathered.length + UInt8.toNat 0 + 1 := Nat.not_lt.mpr inside
  rw [ofWireLoop, if_pos inside, parseByte, ok_bind]
  exact (if_neg fits).trans (dif_pos bounded)

theorem ofWireLoop_long (inside : gathered.length < limit)
    (long : limit < gathered.length + labelLen.toNat + 1) :
    ofWireLoop limit (rounds + 1) (labelLen :: tail) gathered numLabels =
      .error (.badInput "DomainName exceeded bounds") := by
  rw [ofWireLoop, if_pos inside, parseByte, ok_bind]
  exact if_pos long

theorem ofWireLoop_label {label : List UInt8} (inside : gathered.length < limit)
    (proper : labelLen ≠ 0) (size : label.length = labelLen.toNat)
    (room : gathered.length + labelLen.toNat < limit) :
    ofWireLoop limit (rounds + 1) (labelLen :: (label ++ tail)) gathered numLabels =
      ofWireLoop limit rounds tail (gathered ++ label ++ [dot])
        (if label = [star] then numLabels else numLabels + 1) := by
  rw [ofWireLoop, if_pos inside, parseByte, ok_bind]
  dsimp only
  rw [if_neg (by omega), parseBytes_append size, ok_bind]
  exact if_neg proper

theorem ofWireLoop_end (outside : limit ≤ gathered.length) :
    ofWireLoop limit rounds tail gathered numLabels =
      .error (.badInput "DomainName badly formatted or too long") := by
  cases rounds with
  | zero => rfl
  | succ rounds => rw [ofWireLoop, if_neg (by omega)]

end Step

theorem ofWireLoop_encodeLabels {labels : List (List UInt8)} {limit rounds numLabels : Nat}
    {gathered rest : List UInt8}
    (proper : ∀ label ∈ labels, label ≠ [])
    (small : limit ≤ 255)
    (room : gathered.length + (encodeLabels labels).length + 1 ≤ limit)
    (enough : labels.length < rounds)
    (bounded : (gathered ++ gatherLabels labels).length ≤ 254) :
    ofWireLoop limit rounds (encodeLabels labels ++ 0 :: rest) gathered numLabels =
      .ok (ofGathered (gathered ++ gatherLabels labels)
        (numLabels + countLabels labels) bounded) := by
  induction labels generalizing gathered numLabels rounds with
  | nil =>
    obtain ⟨rounds, rfl⟩ := Nat.exists_eq_add_of_lt enough
    simpa using @ofWireLoop_root limit (0 + rounds) numLabels gathered rest (by omega) (by omega)
  | cons label labels induction =>
    obtain ⟨rounds, rfl⟩ : ∃ fewer, rounds = fewer + 1 := Nat.exists_eq_succ_of_ne_zero (by omega)
    simp only [encodeLabels_cons, length_cons, length_append] at room
    have size : (UInt8.ofNat label.length).toNat = label.length := labelLength_toNat (by omega)
    have nonzero := labelLength_ne_zero (by omega) (proper label mem_cons_self)
    have split := append_gatherLabels_cons gathered label labels
    have bounded' : ((gathered ++ label ++ [dot]) ++ gatherLabels labels).length ≤ 254 := by
      rw [← split]
      exact bounded
    have next : ofWireLoop limit rounds (encodeLabels labels ++ 0 :: rest)
            (gathered ++ label ++ [dot])
            (if label = [star] then numLabels else numLabels + 1) =
          .ok (ofGathered ((gathered ++ label ++ [dot]) ++ gatherLabels labels)
            ((if label = [star] then numLabels else numLabels + 1) +
              countLabels labels) bounded') :=
      induction (fun item member => proper item (mem_cons_of_mem _ member))
        (by simp only [length_append, length_singleton]; omega)
        (by simpa using enough) bounded'
    rw [encodeLabels_cons, cons_append, append_assoc,
      ofWireLoop_label (by omega) nonzero size.symm (by omega), next]
    simp only [add_countLabels_cons, split]

theorem ofWireLoop_eq_ok {limit rounds numLabels : Nat} {buffer gathered : List UInt8}
    {name : DomainName}
    (small : limit ≤ 255)
    (read : ofWireLoop limit rounds buffer gathered numLabels = .ok name) :
    ∃ labels rest, (∀ label ∈ labels, label ≠ []) ∧ buffer = encodeLabels labels ++ 0 :: rest ∧
      gathered.length + (encodeLabels labels).length + 1 ≤ limit ∧
      ∃ bounded : (gathered ++ gatherLabels labels).length ≤ 254,
        name = ofGathered (gathered ++ gatherLabels labels)
          (numLabels + countLabels labels) bounded := by
  induction rounds generalizing buffer gathered numLabels with
  | zero => cases read
  | succ rounds induction =>
    rw [ofWireLoop] at read
    by_cases inside : gathered.length < limit
    · rw [if_pos inside] at read
      obtain ⟨⟨labelLen, afterLen⟩, first, labelled⟩ := of_bind read
      obtain rfl := parseByte_eq_ok_iff.mp first
      dsimp only at labelled
      by_cases exceeds : limit < gathered.length + labelLen.toNat + 1
      · rw [if_pos exceeds] at labelled
        cases labelled
      · rw [if_neg exceeds] at labelled
        obtain ⟨⟨label, rest⟩, loaded, continued⟩ := of_bind labelled
        obtain ⟨rfl, size⟩ := parseBytes_eq_ok_iff.mp loaded
        by_cases last : labelLen = 0
        · subst last
          have none : label = [] := by simpa using size
          have bounded : gathered.length ≤ 254 := by
            omega
          simp only [if_true, dif_pos bounded, Except.ok.injEq] at continued
          subst continued
          refine ⟨[], rest, by simp, by simp [none], ?_, ?_⟩
          · simpa using Nat.succ_le_of_lt inside
          · simpa using bounded
        · rw [if_neg last] at continued
          obtain ⟨labels, tail, nonempty, rfl, room, bounded, rfl⟩ := induction continued
          have byte : labelLen = UInt8.ofNat label.length := by
            rw [size, UInt8.ofNat_toNat]
          refine ⟨label :: labels, tail, ?_, ?_, ?_, ?_⟩
          · intro item member
            rcases mem_cons.mp member with rfl | member
            · rintro rfl
              exact last (UInt8.toNat_inj.mp (by simpa using size.symm))
            · exact nonempty item member
          · simp [byte]
          · simp only [encodeLabels_cons, length_cons, length_append, length_nil] at room ⊢
            omega
          · have split := append_gatherLabels_cons gathered label labels
            refine ⟨by rw [split]; exact bounded, ?_⟩
            simp only [split, add_countLabels_cons]
    · rw [if_neg inside] at read
      cases read

/-- The wire constructor accepts exactly the encodings of wire names. -/
theorem ofWire_eq_ok_iff {buffer : List UInt8} {size : Nat} {name : DomainName} :
    ofWire buffer size = .ok name ↔ ∃ wire : WireName, ∃ rest,
        buffer = wire.encode ++ rest ∧ wire.encode.length ≤ size ∧ name = wire.toDomainName := by
  constructor
  · intro read
    obtain ⟨-, -, read⟩ := of_bind read
    obtain ⟨labels, rest, proper, rfl, room, bounded, rfl⟩ :=
      ofWireLoop_eq_ok (Nat.min_le_left _ _) read
    refine ⟨⟨labels, proper, by omega⟩, rest, ?_, ?_, ?_⟩
    · simp [WireName.encode]
    · simp only [WireName.encode_length]
      omega
    · simp only [nil_append, Nat.zero_add, WireName.toDomainName]
  · rintro ⟨wire, rest, rfl, fits, rfl⟩
    have short := wire.short
    have few := length_le_encodeLabels_length wire.labels
    have bounded := wire.gatherLabels_short
    rw [WireName.encode_length] at fits
    have nonzero : size ≠ 0 := by omega
    have read : ofWireLoop (min maxDnsNameLen size) (maxDnsNameLen + 1)
            (encodeLabels wire.labels ++ 0 :: rest) [] 0 =
          .ok (ofGathered ([] ++ gatherLabels wire.labels)
            (0 + countLabels wire.labels) (by simpa using bounded)) :=
      ofWireLoop_encodeLabels wire.nonempty (Nat.min_le_left _ _) (by simp only [length_nil]; omega)
        (by simp only [maxDnsNameLen]; omega) _
    simp only [ofWire, ensure_true nonzero, ok_bind]
    rw [WireName.encode, append_assoc, singleton_append, read]
    simp only [nil_append, Nat.zero_add, WireName.toDomainName]

end DomainName

end Embassies.Crypto
