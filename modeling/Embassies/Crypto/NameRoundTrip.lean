import Embassies.Crypto.CanonicalRecord
import Embassies.Crypto.TextName

/-!
# Round trips of names

A name is written in its wire form, which the wire constructor reads again.  This module
says for which texts and for which wire buffers the name that is read is the one that was
written.

Texts of at most 253 characters survive.  Of the longer ones only those whose length is a
multiple of 256 are refused as they should be: 254 characters are accepted although their
wire form cannot be read, and all the others leave `nameBytes` or its initialized part.

Names from the wire survive when their labels are clean, so the round trip is lost for
labels with an upper-case letter, a dot, a space or a zero byte.
-/

namespace Embassies.Crypto.DomainName

open Library Library.Buffer Library.Checked List WireName

/-- Whatever memory the name is written to, exactly these bytes are there afterwards, and
the name that is read from them equals it. -/
def Survives (name : DomainName) (bytes : List UInt8) : Prop :=
  ∀ memory : List UInt8, memory.length = name.size →
    serialize name memory 0 = .ok (bytes, name.size) ∧
      ∃ again, ofWire bytes name.size = .ok again ∧ equals name again = true

/-- The wire form of labels, in lower case. -/
def wireForm (labels : List (List UInt8)) : List UInt8 :=
  encodeLabels (lowerLabels labels) ++ [0]

theorem wireForm_length (labels : List (List UInt8)) :
    (wireForm labels).length = (encodeLabels labels).length + 1 := by
  rw [wireForm, length_append, encodeLabels_lowerLabels_length, length_singleton]

theorem survives_of_clean
    {wire : WireName} (clean : wire.Clean) : wire.toDomainName.Survives wire.encode := by
  intro memory size
  rw [toDomainName_size] at size ⊢
  have written := @serialize_clean wire memory 0 clean (by omega)
  rw [patch_zero, drop_eq_nil_of_le (by omega), append_nil] at written
  refine ⟨written, wire.toDomainName, ?_, equals_self _⟩
  exact ofWire_eq_ok_iff.mpr ⟨wire, [], (append_nil _).symm, le_rfl, rfl⟩

/-! ## Names from the wire -/

theorem gatherLabels_inj {left right : List (List UInt8)}
    (lengths : left.map List.length = right.map List.length)
    (same : gatherLabels left = gatherLabels right) : left = right := by
  induction left generalizing right with
  | nil =>
    cases right with
    | nil => rfl
    | cons label right => cases lengths
  | cons label left induction =>
    cases right with
    | nil => cases lengths
    | cons other right =>
      simp only [map_cons, List.cons.injEq] at lengths
      rw [gatherLabels_cons, gatherLabels_cons] at same
      obtain ⟨first, rest⟩ := append_inj same lengths.1
      rw [first, induction lengths.2 (List.cons.inj rest).2]

theorem clean_of_survives
    {wire : WireName} (survives : wire.toDomainName.Survives (wireForm wire.labels)) :
    wire.Clean := by
  obtain ⟨written, again, read, equal⟩ :=
    survives (replicate wire.toDomainName.size 0) length_replicate
  obtain ⟨other, rest, bytes, -, rfl⟩ := ofWire_eq_ok_iff.mp read
  have canonical : wire.toDomainName.Canonical :=
    @canonical_of_readBack _ other 0 wire.toDomainName.size
      (replicate wire.toDomainName.size 0) _ rest
      rfl (by rw [length_replicate]; omega) written bytes equal
  obtain ⟨canon, clean, same⟩ := canonical
  -- The clean name is written as its own encoding, so its labels are ours in lower case.
  have short := wire.short
  have canonShort := canon.short
  have labels : lowerLabels wire.labels = canon.labels := by
    have stored := (survives_of_clean clean
      (replicate canon.toDomainName.size 0) length_replicate).1
    rw [← same, written, Except.ok.injEq, Prod.mk.injEq] at stored
    refine (encodeLabels_append_inj ?_ canon.nonempty ?_ (by omega) stored.1).1
    · intro label member
      obtain ⟨original, inside, rfl⟩ := mem_map.mp member
      simpa using wire.nonempty original inside
    · rw [encodeLabels_lowerLabels_length]
      omega
  -- The stored characters are the same, and so is the place of the separators.
  have lengths : wire.labels.map List.length = canon.labels.map List.length := by
    rw [← labels, lowerLabels, map_map]
    exact map_congr_left fun label _ => (length_map _).symm
  have own : wire.labels = canon.labels := by
    by_cases root : wire.labels = []
    · rw [root] at lengths ⊢
      exact (map_eq_nil_iff.mp lengths.symm).symm
    · have proper : canon.labels ≠ [] := by
        rw [← labels]
        simpa [lowerLabels] using root
      have chars := congrArg DomainName.chars same
      rw [toDomainName_chars root, toDomainName_chars proper] at chars
      refine gatherLabels_inj lengths ?_
      have ends : ∀ {labels : List (List UInt8)}, labels ≠ [] →
          (gatherLabels labels).dropLast ++ [dot] = gatherLabels labels := by
        intro labels present
        obtain ⟨front, last, rfl⟩ := eq_nil_or_concat labels |>.resolve_left present
        simp [gatherLabels]
      rw [← ends root, ← ends proper, chars]
  intro label member byte inside
  exact clean label (own ▸ member) byte inside

/-- A name read from the wire survives exactly when its labels are clean. -/
theorem wire_survives_iff {buffer : List UInt8} {size : Nat} {name : DomainName}
    (read : ofWire buffer size = .ok name) :
    ∃ wire : WireName, wire.encode <+: buffer ∧ wire.encode.length = name.size ∧
      (name.Survives (wireForm wire.labels) ↔ wire.Clean) := by
  obtain ⟨wire, rest, rfl, -, rfl⟩ := ofWire_eq_ok_iff.mp read
  refine ⟨wire, prefix_append _ _, wire.toDomainName_size.symm, clean_of_survives, ?_⟩
  intro clean
  have form : wireForm wire.labels = wire.encode := by
    rw [wireForm, lowerLabels_plain clean.plain, WireName.encode]
  rw [form]
  exact survives_of_clean clean

/-- The name of the single label `a`. -/
def letterWire : WireName := ⟨[[97]], by decide, by decide⟩

/-- The name of the single label `A`. -/
def upperWire : WireName := ⟨[[65]], by decide, by decide⟩

/-- The name of the single label `a.b`. -/
def dottedWire : WireName := ⟨[[97, 46, 98]], by decide, by decide⟩

/-- The name of the labels `ab`, `c-d` and `e9`. -/
def labelsWire : WireName := ⟨[[97, 98], [99, 45, 100], [101, 57]], by decide, by decide⟩

theorem wire_survives_labels :
    labelsWire.toDomainName.Survives [2, 97, 98, 3, 99, 45, 100, 2, 101, 57, 0] := by
  obtain ⟨wire, ⟨rest, split⟩, -, survives⟩ :=
    @wire_survives_iff (labelsWire.encode ++ [1, 97, 0]) 14 labelsWire.toDomainName rfl
  obtain ⟨rfl, -⟩ := @WireName.encode_append_inj wire labelsWire rest [1, 97, 0] split
  exact survives.mpr (by decide +kernel)

/-- An upper-case label is written in lower case and does not equal what is read then, and
a dot inside a label is written as the end of the label. -/
theorem wire_does_not_survive : ofWire [1, 65, 0] 3 = .ok upperWire.toDomainName ∧
      serialize upperWire.toDomainName [0, 0, 0] 0 = .ok ([1, 97, 0], 3) ∧
      ofWire [1, 97, 0] 3 = .ok letterWire.toDomainName ∧
      equals upperWire.toDomainName letterWire.toDomainName = false ∧
      equals letterWire.toDomainName upperWire.toDomainName = false ∧
      ofWire [3, 97, 46, 98, 0] 5 = .ok dottedWire.toDomainName ∧
      serialize dottedWire.toDomainName [0, 0, 0, 0, 0] 0 = .ok ([1, 97, 1, 98, 0], 5) :=
  ⟨rfl, rfl, rfl, rfl, rfl, rfl, rfl⟩

/-! ## Names from a text -/

variable {text : List UInt8}

theorem Subdomain.wireForm_length (subdomain : Subdomain text) :
    (wireForm (textLabels text)).length = text.length + 2 := by
  rw [DomainName.wireForm_length, ← Crypto.gatherLabels_length, subdomain.gatherLabels_length]

theorem ofChars_encode (short : text.length ≤ 254) (grammatical : IsText text) :
    (ofChars text short).encode = wireForm (textLabels text) := by
  rw [encode, (spells_text short grammatical).labels_eq, wireForm]

theorem IsDomain.isText (domain : IsDomain text) : IsText text := by
  rcases domain with root | labels
  · exact .inl root
  · exact .inr (subdomain_iff.mpr (labels.mono (fun _ _ => And.left) fun _ _ => And.left))

/-- The text constructor throws, which it may do only when the wire form of the text is too
long, or it makes a name that survives in the wire form of the text. -/
def TextSurvives (text : List UInt8) : Prop :=
  (∃ exception, parse (text ++ [0]) (text.length + 1) = .error (.thrown exception) ∧
      255 < (wireForm (textLabels text)).length) ∨
    ∃ name, parse (text ++ [0]) (text.length + 1) = .ok name ∧
      name.size = (wireForm (textLabels text)).length ∧
      name.Survives (wireForm (textLabels text))

section Text

variable {text : List UInt8}

theorem textSurvives_of_short
    (grammatical : IsText text) (short : text.length ≤ 253) : TextSurvives text := by
  have fits : text.length ≤ 254 := by omega
  have size : (ofChars text fits).size ≤ 255 := by
    have len := (ofChars text fits).len_eq
    rw [ofChars_chars, length_map] at len
    rw [DomainName.size]
    omega
  have canonical : (ofChars text fits).Canonical :=
    Grammatical.canonical ⟨text, fits, grammatical, rfl⟩ size
  have encoded := canonical.encode_length
  rw [ofChars_encode fits grammatical] at encoded
  refine .inr ⟨_, parse_text fits grammatical.zeroFree grammatical, encoded.symm, ?_⟩
  rw [← ofChars_encode fits grammatical]
  obtain ⟨wire, clean, same⟩ := canonical
  rw [same, encode_toDomainName clean]
  exact survives_of_clean clean

theorem not_textSurvives_of_254
    (subdomain : Subdomain text) (length : text.length = 254) : ¬ TextSurvives text := by
  have fits : text.length ≤ 254 := by omega
  have parsed := parse_text fits subdomain.zeroFree (.inr subdomain)
  rintro (⟨exception, thrown, -⟩ | ⟨name, -, -, survives⟩)
  · rw [parsed] at thrown
    cases thrown
  · obtain ⟨-, again, read, -⟩ := survives (replicate name.size 0) length_replicate
    obtain ⟨wire, rest, bytes, -, -⟩ := ofWire_eq_ok_iff.mp read
    obtain ⟨-, each, -⟩ := subdomain.textLabels_eq
    have total := subdomain.wireForm_length
    have short := wire.short
    rw [wireForm, length_append, length_singleton] at total
    rw [wireForm, WireName.encode, append_assoc, singleton_append] at bytes
    have labels := (encodeLabels_append_inj (fun label member => by
      obtain ⟨original, inside, rfl⟩ := mem_map.mp member
      simpa using (each original inside).nonempty) wire.nonempty
      (by omega) (by omega) bytes).1
    rw [labels] at total
    omega

section Long

variable (subdomain : Subdomain text) (sized : text.length + 1 < 2 ^ 32)
  (valid : checkDomainName (text ++ [0]) text.length = .ok true) (long : 254 < text.length)

include subdomain sized valid long

/-- A text is refused when the lower byte of its length is zero. -/
theorem textSurvives_of_multiple (multiple : text.length % 256 = 0) : TextSurvives text := by
  have refused : ensure (text.length % 256 ≠ 0) (Halt.badInput "Bad length for DomainName") =
      .error (.badInput "Bad length for DomainName") :=
    ensure_eq_error_iff.mpr ⟨not_not_intro multiple, rfl⟩
  have thrown : parse (text ++ [0]) (text.length + 1) =
      .error (.badInput "Bad length for DomainName") := by
    rw [parse_checked subdomain.zeroFree sized valid, refused, error_bind]
  refine .inl ⟨_, thrown, ?_⟩
  rw [subdomain.wireForm_length]
  omega

/-- Otherwise a text that is too long is copied outside of `nameBytes` or without a
terminator. -/
theorem parse_long (other : text.length % 256 ≠ 0) : parse (text ++ [0]) (text.length + 1) =
      .error (.fault (if text.length % 256 = 255 then .outOfBoundsWrite
        else .uninitializedRead)) := by
  have taken : ((text ++ [0]).take (text.length % 256)).length = text.length % 256 := by
    rw [length_take, length_append]
    omega
  rw [parse_checked subdomain.zeroFree sized valid, ensure_true other, ok_bind]
  by_cases full : text.length % 256 = 255
  · rw [dif_neg (by omega), if_pos full]
  · have inside : text.length % 256 < text.length := by omega
    have char : (text ++ [0]).getD (text.length % 256) 0 ≠ 0 := by
      rw [getD_eq_getElem?_getD, getElem?_append_left inside,
        getElem?_eq_getElem inside, Option.getD_some]
      intro zero
      exact subdomain.zeroFree (zero ▸ getElem_mem inside)
    have refused : ensure ((text ++ [0]).getD (text.length % 256) 0 = 0)
        (Halt.fault .uninitializedRead) = .error (.fault .uninitializedRead) :=
      ensure_eq_error_iff.mpr ⟨char, rfl⟩
    rw [dif_pos (by omega), refused, error_bind, if_neg full]

end Long

end Text

/-- A grammatical text survives exactly when it has at most 253 characters or the lower byte
of its length is zero. -/
theorem text_survives_iff
    {text : List UInt8} (domain : IsDomain text) (sized : text.length + 1 < 2 ^ 32) :
    TextSurvives text ↔ text.length ≤ 253 ∨ text.length % 256 = 0 := by
  by_cases short : text.length ≤ 253
  · exact iff_of_true (textSurvives_of_short domain.isText short) (.inl short)
  have proper : text ≠ [space] := by
    rintro rfl
    exact short (by decide)
  have labels := domain.resolve_left proper
  have subdomain := domain.isText.resolve_left proper
  by_cases length : text.length = 254
  · refine iff_of_false (not_textSurvives_of_254 subdomain length) ?_
    omega
  have valid : checkDomainName (text ++ [0]) text.length = .ok true :=
    checkDomainName_accepted (accepted_of_shortLabels labels) proper (by omega)
  by_cases multiple : text.length % 256 = 0
  · exact iff_of_true
      (textSurvives_of_multiple subdomain sized valid (by omega) multiple) (.inr multiple)
  · refine iff_of_false ?_ (by omega)
    have faulted := parse_long subdomain sized valid (by omega) multiple
    rintro (⟨exception, thrown, -⟩ | ⟨name, parsed, -⟩)
    · rw [faulted] at thrown
      cases thrown
    · rw [faulted] at parsed
      cases parsed

theorem shortLabel_replicate {count : Nat} (proper : count ≠ 0) (short : count ≤ 63) :
    ShortLabel (replicate count 97) := by
  obtain ⟨fewer, rfl⟩ := Nat.exists_eq_succ_of_ne_zero proper
  refine ⟨⟨by simp, rfl, ?_, ?_⟩, by simpa using short⟩
  · rw [getLastD_eq_getLast?, getLast?_replicate, if_neg proper]
    rfl
  · intro char member
    rw [eq_of_mem_replicate member]
    rfl

/-- A text of four labels. -/
def fourLabels (last : Nat) : List UInt8 :=
  List.replicate 63 97 ++ dot :: (List.replicate 63 97 ++ dot ::
    (List.replicate 63 97 ++ dot :: List.replicate last 97))

theorem isDomain_fourLabels
    {last : Nat} (proper : last ≠ 0) (short : last ≤ 63) : IsDomain (fourLabels last) := by
  have full := @shortLabel_replicate 63 (by decide) le_rfl
  exact .inr (.dotted full (.dotted full (.dotted full
    (.last (shortLabel_replicate proper short)))))

/-- With 253 characters the name survives. -/
theorem text_survives_four_labels : TextSurvives (fourLabels 61) :=
  (text_survives_iff (isDomain_fourLabels (by decide) (by decide)) (by decide +kernel)).mpr
    (.inl (by decide +kernel))

/-- With 254 characters the name cannot be read again, and with 255 characters copying them
leaves `nameBytes`. -/
theorem text_does_not_survive : (IsDomain (fourLabels 62) ∧ (fourLabels 62).length = 254 ∧
        ¬ TextSurvives (fourLabels 62)) ∧
      IsDomain (fourLabels 63) ∧ (fourLabels 63).length = 255 ∧
        parse (fourLabels 63 ++ [0]) 256 = .error (.fault .outOfBoundsWrite) := by
  have domain := @isDomain_fourLabels 62 (by decide) (by decide)
  have length : (fourLabels 62).length = 254 := by decide +kernel
  refine ⟨⟨domain, length, ?_⟩, isDomain_fourLabels (by decide) le_rfl, by decide +kernel,
    by decide +kernel⟩
  exact not_textSurvives_of_254 (domain.isText.resolve_left (by decide +kernel)) length

end Embassies.Crypto.DomainName
