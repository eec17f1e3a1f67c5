import Embassies.Crypto.NameRoundTrip

/-!
# Comparison of names

The suffix test and `operator==` walk the characters of dotted texts.  On names made from
grammatical texts, from wire labels of plain bytes and by copying such names they compare
labels without regard to letter case, and no larger set of bytes will do.

A label from the wire with an upper-case letter, a dot or a zero byte is compared as the
characters it is stored as, and behind a zero byte the suffix test leaves the text.
-/

namespace Embassies.Crypto.DomainName

open Library Library.Checked List

/-! ## Characters -/

theorem suffixLoop_append (parent rest : List UInt8) :
    suffixLoop (parent ++ rest) parent = .ok (some rest) := by
  induction parent with
  | nil => simp only [nil_append, suffixLoop]
  | cons char parent induction =>
    rw [cons_append, suffixLoop, if_pos rfl, induction]

theorem suffixLoop_differs {child parent : List UInt8} (fits : parent.length ≤ child.length)
    (differs : ¬ parent <+: child) : suffixLoop child parent = .ok none := by
  induction parent generalizing child with
  | nil => exact absurd nil_prefix differs
  | cons char parent induction =>
    cases child with
    | nil => exact absurd fits (by simp)
    | cons first child =>
      rw [suffixLoop]
      split
      · rename_i same
        subst same
        refine induction (by simpa using fits) fun start => differs ?_
        exact cons_prefix_cons.mpr ⟨rfl, start⟩
      · rfl

/-- What stands before a suffix that starts with a label. -/
def EndsLabel (front : List UInt8) : Prop :=
  front = [] ∨ ∃ before, front = before ++ [dot]

theorem suffix_chars
    {child parent : DomainName} (childFree : 0 ∉ child.chars) (parentFree : 0 ∉ parent.chars)
    (proper : parent.len ≠ 1) (fits : parent.len ≤ child.len) :
    ∃ verdict, suffix child parent = .ok verdict ∧ (verdict = true ↔
        ∃ front, child.chars = front ++ parent.chars ∧ EndsLabel front) := by
  have shorter : parent.chars.length ≤ child.chars.length := by
    have childLen := child.len_eq
    have parentLen := parent.len_eq
    omega
  rw [suffix, if_neg (by omega), if_neg proper, cString_eq_chars childFree,
    cString_eq_chars parentFree]
  by_cases ends : parent.chars <:+ child.chars
  · obtain ⟨front, whole⟩ := ends
    rw [← whole, reverse_append, suffixLoop_append, ok_bind]
    rcases eq_nil_or_concat front with rfl | ⟨before, char, rfl⟩
    · exact ⟨true, rfl, iff_of_true rfl ⟨[], rfl, .inl rfl⟩⟩
    · rw [concat_eq_append, reverse_concat]
      refine ⟨char == dot, rfl, beq_iff_eq.trans ⟨?_, ?_⟩⟩
      · rintro rfl
        exact ⟨_, rfl, .inr ⟨before, rfl⟩⟩
      · rintro ⟨other, same, ends⟩
        obtain rfl := append_cancel_right same
        rcases ends with empty | ⟨start, last⟩
        · simp at empty
        · exact singleton_inj.mp (append_inj' last rfl).2
  · have differs : ¬ parent.chars.reverse <+: child.chars.reverse := by
      rwa [List.reverse_prefix]
    rw [suffixLoop_differs (by simpa using shorter) differs, ok_bind]
    refine ⟨false, rfl, iff_of_false Bool.false_ne_true ?_⟩
    rintro ⟨front, whole, -⟩
    exact ends ⟨front, whole.symm⟩

/-! ## Labels -/

theorem gatherLabels_append (front labels : List (List UInt8)) :
    gatherLabels (front ++ labels) = gatherLabels front ++ gatherLabels labels :=
  flatMap_append

namespace Spells

variable {left right : DomainName} {leftLabels rightLabels : List (List UInt8)}

theorem equals_iff (first : Spells left leftLabels) (second : Spells right rightLabels) :
    equals left right = true ↔ leftLabels = rightLabels := by
  rw [equals_iff_eq first.zeroFree]
  constructor
  · rintro rfl
    exact first.labels_eq.symm.trans second.labels_eq
  · rintro rfl
    exact first.unique second

/-- At the end of a label the characters of the one name end in those of the other exactly
when the labels do. -/
theorem ends_iff (child : Spells left leftLabels) (parent : Spells right rightLabels)
    (childProper : leftLabels ≠ []) (parentProper : rightLabels ≠ []) :
    (∃ front, left.chars = front ++ right.chars ∧ EndsLabel front) ↔
      rightLabels <:+ leftLabels := by
  constructor
  · rintro ⟨front, whole, rfl | ⟨before, rfl⟩⟩
    · rw [← child.splitOn_chars childProper, whole, nil_append, parent.splitOn_chars parentProper]
    · refine ⟨before.splitOn dot, ?_⟩
      rw [← child.splitOn_chars childProper, whole, append_assoc, singleton_append,
        splitOn_append_cons_self, parent.splitOn_chars parentProper]
  · rintro ⟨front, rfl⟩
    refine ⟨gatherLabels front, ?_, ?_⟩
    · obtain ⟨label, rest, rfl⟩ := exists_cons_of_ne_nil parentProper
      rw [child.chars childProper, parent.chars parentProper, gatherLabels_append,
        dropLast_append_of_ne_nil WireName.gatherLabels_ne_nil]
    · rcases eq_nil_or_concat front with rfl | ⟨before, label, rfl⟩
      · exact .inl rfl
      · refine .inr ⟨gatherLabels before ++ label, ?_⟩
        simp [gatherLabels]

theorem suffix_iff (child : Spells left leftLabels) (parent : Spells right rightLabels) :
    ∃ verdict, suffix left right = .ok verdict ∧ (verdict = true ↔ rightLabels <:+ leftLabels) := by
  by_cases fits : right.len ≤ left.len
  · by_cases root : right.len = 1
    · refine ⟨true, ?_, iff_of_true rfl ?_⟩
      · rw [suffix, if_neg (by omega), if_pos root]
      · rw [parent.len_eq_one_iff.mp root]
        exact nil_suffix
    · have parentProper := mt parent.len_eq_one_iff.mpr root
      have positive := right.size_pos
      rw [size] at positive
      have childProper := mt child.len_eq_one_iff.mpr (by omega)
      rw [← ends_iff child parent childProper parentProper]
      exact suffix_chars child.zeroFree parent.zeroFree root fits
  · refine ⟨false, by rw [suffix, if_pos (by omega)], iff_of_false Bool.false_ne_true ?_⟩
    rintro ⟨front, rfl⟩
    have childLen := child.len
    have parentLen := parent.len
    rw [gatherLabels_append, length_append] at childLen
    omega

end Spells

/-! ## Constructors -/

variable {name : DomainName}

theorem parse_short {text : List UInt8} (zeroFree : 0 ∉ text)
    (parsed : parse (text ++ [0]) (text.length + 1) = .ok name) :
    ∃ short : text.length ≤ 254, name = ofChars text short := by
  obtain ⟨_, -, parsed⟩ := of_bind parsed
  obtain ⟨_, -, parsed⟩ := of_bind parsed
  rw [strnlen_eq zeroFree (by omega), ok_bind] at parsed
  obtain ⟨_, -, parsed⟩ := of_bind parsed
  obtain ⟨_, -, parsed⟩ := of_bind parsed
  split at parsed
  · rename_i bounded
    obtain ⟨_, terminated, parsed⟩ := of_bind parsed
    rw [ensure_eq_ok_iff] at terminated
    have whole : text.length % 256 = text.length := by
      by_contra inside
      have below : text.length % 256 < text.length := lt_of_le_of_ne (Nat.mod_le _ _) inside
      rw [getD_eq_getElem?_getD, getElem?_append_left below,
        getElem?_eq_getElem below, Option.getD_some] at terminated
      exact zeroFree (terminated ▸ getElem_mem below)
    have taken : (text ++ [0]).take (text.length % 256) = text := by
      rw [whole, take_left]
    have short : text.length ≤ 254 := by rwa [taken] at bounded
    exact ⟨short, (Except.ok.inj parsed).symm.trans (ofChars_congr taken bounded short)⟩
  · cases parsed

/-- The names that the constructors make, with the labels they are made from; the wire
labels have allowed bytes only. -/
inductive Built (allowed : UInt8 → Prop) : DomainName → List (List UInt8) → Prop
  | wire {wire : WireName} {rest : List UInt8} {size : Nat} {name : DomainName}
      (within : ∀ label ∈ wire.labels, ∀ byte ∈ label, allowed byte)
      (read : ofWire (wire.encode ++ rest) size = .ok name) : Built allowed name wire.labels
  | text {text : List UInt8} {name : DomainName} (grammatical : IsText text)
      (parsed : parse (text ++ [0]) (text.length + 1) = .ok name) :
      Built allowed name (textLabels text)
  -- The text of a copied name is parsed again, and the text of one blank is the root.
  | copy {name result : DomainName} {labels : List (List UInt8)}
      (original : Built allowed name labels) (copied : DomainName.copy name = .ok result) :
      Built allowed result (if name.cString = [space] then [] else labels)

variable {labels : List (List UInt8)} {allowed : UInt8 → Prop}

theorem Spells.copy {result : DomainName} (spells : Spells name labels)
    (copied : DomainName.copy name = .ok result) :
    Spells result (if name.cString = [space] then [] else labels) := by
  obtain ⟨grammatical, rfl⟩ := copy_eq_ok_iff.mp copied
  have copy := spells_text name.cString_short grammatical
  by_cases blank : name.cString = [space]
  · rw [textLabels, if_pos blank] at copy
    rwa [if_pos blank]
  · rw [textLabels, if_neg blank] at copy
    rw [if_neg blank]
    have chars := cString_eq_chars spells.zeroFree
    have proper : labels ≠ [] := by
      rintro rfl
      exact blank (chars.trans spells.root)
    have same : name.cString.splitOn dot = labels := by rw [chars, spells.splitOn_chars proper]
    rwa [same, lowerLabels_plain spells.plain] at copy

theorem Built.spells (plain : ∀ byte, allowed byte → PlainByte byte)
    (built : Built allowed name labels) : Spells name (lowerLabels labels) := by
  induction built with
  | @wire source _ _ _ within read =>
    obtain ⟨wire, rest, bytes, -, rfl⟩ := ofWire_eq_ok_iff.mp read
    obtain ⟨rfl, -⟩ := WireName.encode_append_inj bytes
    have each : ∀ label ∈ source.labels, ∀ byte ∈ label, PlainByte byte :=
      fun label member byte inside => plain byte (within label member byte inside)
    rw [lowerLabels_plain each]
    exact spells_wire each
  | text grammatical parsed =>
    obtain ⟨short, rfl⟩ := parse_short grammatical.zeroFree parsed
    exact spells_text short grammatical
  | copy _ copied induction =>
    rw [apply_ite lowerLabels]
    exact induction.copy copied

/-- Comparing names is comparing their labels. -/
def ComparesLabels (allowed : UInt8 → Prop) : Prop :=
  ∀ {child parent other : DomainName} {childLabels parentLabels otherLabels : List (List UInt8)},
    Built allowed child childLabels → Built allowed parent parentLabels →
    Built allowed other otherLabels →
    (∃ verdict, suffix child parent = .ok verdict ∧
        (verdict = true ↔ lowerLabels parentLabels <:+ lowerLabels childLabels)) ∧
      (equals child parent = true ↔ lowerLabels childLabels = lowerLabels parentLabels) ∧
      equals child parent = equals parent child ∧
      (equals child parent = true → equals parent other = true → equals child other = true) ∧
      (child.len = parent.len → child.cString.length ≤ parent.chars.length)

theorem comparesLabels_of_plain (plain : ∀ byte, allowed byte → PlainByte byte) :
    ComparesLabels allowed := by
  intro child parent other childLabels parentLabels otherLabels first second third
  have childSpells := first.spells plain
  have parentSpells := second.spells plain
  have otherSpells := third.spells plain
  have forth := childSpells.equals_iff parentSpells
  have back := parentSpells.equals_iff childSpells
  refine ⟨childSpells.suffix_iff parentSpells, forth, ?_, ?_, ?_⟩
  · rw [Bool.eq_iff_iff, forth, back, eq_comm]
  · intro same next
    rw [childSpells.equals_iff otherSpells, forth.mp same]
    exact (parentSpells.equals_iff otherSpells).mp next
  · intro len
    rw [← chars_length_eq_of_len_eq len]
    exact child.cString_length_le

/-- The name with a single label of one byte. -/
def byteWire (byte : UInt8) : WireName :=
  ⟨[[byte]], List.forall_mem_singleton.mpr (List.cons_ne_nil byte []), Nat.le_of_ble_eq_true rfl⟩

/-- The name with a single label of two dots. -/
def dotsWire : WireName := ⟨[[dot, dot]], by decide, by decide⟩

theorem Built.byte {byte : UInt8} (member : allowed byte) :
    Built allowed (byteWire byte).toDomainName [[byte]] := by
  refine @Built.wire allowed (byteWire byte) [] 3 _ ?_ ?_
  · intro label inside item found
    obtain rfl := mem_singleton.mp inside
    obtain rfl := mem_singleton.mp found
    exact member
  · exact ofWire_eq_ok_iff.mpr ⟨byteWire byte, [], rfl, Nat.le_refl 3, rfl⟩

theorem Built.letter {char : UInt8} (letter : isLetter char = true) :
    Built allowed (ofChars [char] (by simp)) [[char]] := by
  have digit : isLetterDigit char = true := by rw [isLetterDigit, letter, Bool.true_or]
  have hyphen : isLetterDigitHyphen char = true := by rw [isLetterDigitHyphen, digit, Bool.true_or]
  have label : Label [char] := ⟨by simp, letter, digit, by simpa using hyphen⟩
  have grammatical : IsText [char] := .inr (.label label)
  have built := @Built.text allowed [char] _ grammatical
    (parse_text (by simp) grammatical.zeroFree grammatical)
  rwa [textLabels, if_neg (Subdomain.ne_space (.label label)),
    splitOn_eq_singleton (label.notMem (by decide))] at built

end Embassies.Crypto.DomainName
