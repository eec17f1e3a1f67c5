import Embassies.Crypto.NameGrammar

/-!
# Names as texts

For texts of at most 254 characters, which fit into a name, the check of the text
constructor accepts exactly the dotted names; it looks outside of the text for a stray last
character.

A name is copied through its text, so every copied name is grammatical and in
lower case, and a copied name with at most 253 characters is canonical.
-/

namespace Embassies.Crypto

open Library Library.Checked List

namespace DomainName

/-! ## Texts that fit into a name -/

variable {text : List UInt8} {char : UInt8} {name result : DomainName}

theorem subdomain_iff : Subdomain text ↔ Dotted Label Label text := by
  constructor
  · intro subdomain
    induction subdomain with
    | label label => exact .last label
    | dotted label _ induction => exact .dotted label induction
  · intro dotted
    induction dotted with
    | last label => exact .label label
    | dotted label _ induction => exact .dotted label induction

theorem piece_iff_label (short : text.length ≤ 254) : Piece text ↔ Label text := by
  constructor
  · rintro (⟨label, -⟩ | ⟨length, -⟩)
    · exact label
    · omega
  · exact fun label => .inl ⟨label, by omega⟩

theorem accepted_iff (short : text.length ≤ 254) : Accepted text ↔ Subdomain text := by
  rw [subdomain_iff]
  constructor
  · exact Dotted.mono (fun _ fits => (piece_iff_label (fits.trans short)).mp)
      fun _ fits => (piece_iff_label (fits.trans short)).mp
  · exact Dotted.mono (fun _ fits => (piece_iff_label (fits.trans short)).mpr)
      fun _ fits => (piece_iff_label (fits.trans short)).mpr

/-! ## Copying a name -/

/-- The texts that name something: the root and the dotted names. -/
def IsText (text : List UInt8) : Prop :=
  text = [space] ∨ Subdomain text

/-- The name was built by the text constructor. -/
def Grammatical (name : DomainName) : Prop :=
  ∃ text, ∃ short : text.length ≤ 254, IsText text ∧ name = ofChars text short

theorem strnlen_eq {limit : Nat} (zeroFree : 0 ∉ text) (fits : text.length ≤ limit) :
    strnlen (text ++ [0]) limit = .ok text.length := by
  induction text generalizing limit with
  | nil => simp [strnlen]
  | cons char text induction =>
    simp only [mem_cons, not_or] at zeroFree
    obtain ⟨limit, rfl⟩ : ∃ fewer, limit = fewer + 1 :=
      Nat.exists_eq_succ_of_ne_zero (by simp at fits; omega)
    have nonzero : char ≠ 0 := Ne.symm zeroFree.1
    rw [cons_append, strnlen, if_neg nonzero]
    simp only [induction zeroFree.2 (by simpa using fits), ok_bind, pure_eq_ok, length_cons]

theorem parse_checked (zeroFree : 0 ∉ text) (sized : text.length + 1 < 2 ^ 32)
    (valid : checkDomainName (text ++ [0]) text.length = .ok true) :
    parse (text ++ [0]) (text.length + 1) = (do
        ensure (text.length % 256 ≠ 0) (.badInput "Bad length for DomainName")
        if bounded : ((text ++ [0]).take (text.length % 256)).length ≤ 254 then
          ensure ((text ++ [0]).getD (text.length % 256) 0 = 0) (.fault .uninitializedRead)
          return ofChars ((text ++ [0]).take (text.length % 256)) bounded
        else
          .error (.fault .outOfBoundsWrite)) := by
  have size : sub32 (text.length + 1) 1 = text.length := by
    rw [sub32_of_le (by omega) sized, Nat.add_sub_cancel]
  have terminated : ¬ (text.length % 256 = text.length + 1 ∧
      (text ++ [0]).getD (text.length % 256 - 1) 0 ≠ 0) := by
    omega
  rw [parse, size, valid, ok_bind, ensure_true rfl, ok_bind,
    strnlen_eq zeroFree (by omega), ok_bind]
  simp only [ensure_true terminated, ok_bind]

theorem parse_text (short : text.length ≤ 254) (zeroFree : 0 ∉ text) (grammatical : IsText text) :
    parse (text ++ [0]) (text.length + 1) = .ok (ofChars text short) := by
  have nonempty : text ≠ [] := by
    rcases grammatical with rfl | subdomain
    · simp
    · exact subdomain.nonempty
  have positive := length_pos_iff.mpr nonempty
  have valid : checkDomainName (text ++ [0]) text.length = .ok true := by
    by_cases root : text = [space]
    · subst root
      rfl
    · have accepted := (accepted_iff short).mpr (grammatical.resolve_left root)
      exact checkDomainName_accepted accepted root (by omega)
  have small : text.length % 256 = text.length := Nat.mod_eq_of_lt (by omega)
  have taken : (text ++ [0]).take text.length = text := take_left
  have terminated : (text ++ [0]).getD text.length 0 = 0 := by
    simp [getD_eq_getElem?_getD]
  rw [parse_checked zeroFree (by omega) valid]
  simp only [small, taken]
  rw [ensure_true (by omega), ok_bind, dif_pos short, ensure_true terminated, ok_bind, pure_eq_ok]

theorem cString_short (name : DomainName) : name.cString.length ≤ 254 :=
  name.cString_length_le.trans name.chars_short

theorem copy_eq_ok_iff : copy name = .ok result ↔
      IsText name.cString ∧ result = ofChars name.cString name.cString_short := by
  have short := name.cString_short
  have size : sub32 (name.cString.length + 1) 1 = name.cString.length := by
    rw [sub32_of_le (by omega) (by omega), Nat.add_sub_cancel]
  constructor
  · intro copied
    have grammatical : IsText name.cString := by
      by_cases root : name.cString = [space]
      · exact .inl root
      · right
        rw [copy, parse, size] at copied
        obtain ⟨valid, checked, continued⟩ := of_bind copied
        obtain ⟨_, accepted, _⟩ := of_bind continued
        rw [ensure_eq_ok_iff] at accepted
        subst accepted
        rw [checkDomainName_eq root] at checked
        have enough : name.cString.length < (name.cString ++ [0]).length + 1 := by
          rw [length_append]
          omega
        rcases checkSubdomain_cases (by omega) enough with failed | accepted | beyond
        · rw [failed, ok_bind, pure_eq_ok, Option.getD_none, Except.ok.injEq, beq_iff_eq] at checked
          omega
        · exact (accepted_iff short).mp accepted
        · rw [checkSubdomain_looks_beyond beyond (by omega) enough (by decide),
            error_bind] at checked
          cases checked
    rw [copy, parse_text short name.cString_zeroFree grammatical] at copied
    exact ⟨grammatical, (Except.ok.inj copied).symm⟩
  · rintro ⟨grammatical, rfl⟩
    exact parse_text short name.cString_zeroFree grammatical

/-! ## Lower case -/

theorem toLower_toLower (char : UInt8) : toLower (toLower char) = toLower char := by
  rcases toLower_cases char with same | ⟨lower, -, value⟩
  · rw [same, same]
  · exact toLower_eq_self (by omega)

theorem isLetter_toLower (letter : isLetter char = true) : isLetter (toLower char) = true := by
  rcases toLower_cases char with same | ⟨lower, upper, value⟩
  · rwa [same]
  · have low : (97 : UInt8) ≤ toLower char := by
      rw [UInt8.le_iff_toNat_le, value]
      show 97 ≤ char.toNat + 32
      omega
    have high : toLower char ≤ (122 : UInt8) := by
      rw [UInt8.le_iff_toNat_le, value]
      show char.toNat + 32 ≤ 122
      omega
    simp [isLetter, low, high]

theorem isLetter_toLower_of_upper (changed : toLower char ≠ char) :
    isLetter (toLower char) = true := by
  refine isLetter_toLower ?_
  unfold toLower at changed
  split at changed
  · rename_i upper
    simp [isLetter, upper]
  · exact absurd rfl changed

theorem isLetterDigit_toLower (accepted : isLetterDigit char = true) :
    isLetterDigit (toLower char) = true := by
  by_cases same : toLower char = char
  · rwa [same]
  · simp [isLetterDigit, isLetter_toLower_of_upper same]

theorem isLetterDigitHyphen_toLower (accepted : isLetterDigitHyphen char = true) :
    isLetterDigitHyphen (toLower char) = true := by
  by_cases same : toLower char = char
  · rwa [same]
  · exact isLetterDigitHyphen_of_isLetter (isLetter_toLower_of_upper same)

theorem toLower_dot : toLower dot = dot := by decide

theorem toLower_eq_dot_iff : toLower char = dot ↔ char = dot := by
  constructor
  · intro equal
    by_contra other
    have letter := isLetter_toLower_of_upper (by rw [equal]; exact Ne.symm other)
    rw [equal] at letter
    exact absurd letter (by decide)
  · rintro rfl
    exact toLower_dot

theorem Label.map_toLower (label : Label text) : Label (text.map toLower) := by
  refine ⟨by simpa using label.nonempty, ?_, ?_, ?_⟩
  · obtain ⟨char, rest, rfl⟩ := exists_cons_of_ne_nil label.nonempty
    exact isLetter_toLower label.first
  · have last := label.last
    rw [getLastD_eq_getLast?, getLast?_eq_some_getLast label.nonempty, Option.getD_some] at last
    rw [getLastD_eq_getLast?, getLast?_map,
      getLast?_eq_some_getLast label.nonempty, Option.map_some,
      Option.getD_some]
    exact isLetterDigit_toLower last
  · intro char member
    obtain ⟨original, inside, rfl⟩ := mem_map.mp member
    exact isLetterDigitHyphen_toLower (label.body original inside)

theorem Subdomain.map_toLower (subdomain : Subdomain text) : Subdomain (text.map toLower) := by
  induction subdomain with
  | label label => exact .label label.map_toLower
  | dotted label subdomain induction =>
    rw [map_append, map_cons, toLower_dot]
    exact .dotted label.map_toLower induction

theorem IsText.map_toLower (grammatical : IsText text) : IsText (text.map toLower) := by
  rcases grammatical with rfl | subdomain
  · left
    decide
  · exact .inr subdomain.map_toLower

theorem Subdomain.exists_labels (subdomain : Subdomain text) :
    ∃ labels : List (List UInt8), labels ≠ [] ∧ (∀ label ∈ labels, Label label) ∧
      text = (gatherLabels labels).dropLast := by
  induction subdomain with
  | @label text label =>
    refine ⟨[text], by simp, by simpa using label, ?_⟩
    rw [gatherLabels_dropLast_single]
  | @dotted text rest label subdomain induction =>
    obtain ⟨labels, proper, each, rfl⟩ := induction
    refine ⟨text :: labels, by simp, ?_, ?_⟩
    · intro item member
      rcases mem_cons.mp member with rfl | member
      · exact label
      · exact each item member
    · rw [gatherLabels_dropLast_cons proper]

theorem Label.notMem (label : Label text)
    (other : isLetterDigitHyphen char = false) : char ∉ text := by
  intro member
  rw [label.body char member] at other
  cases other

theorem Subdomain.zeroFree (subdomain : Subdomain text) : 0 ∉ text := by
  induction subdomain with
  | label label => exact label.notMem (by decide)
  | dotted label subdomain induction =>
    simp only [mem_append, mem_cons, not_or]
    exact ⟨label.notMem (by decide), by decide, induction⟩

theorem IsText.zeroFree (grammatical : IsText text) : 0 ∉ text := by
  rcases grammatical with rfl | subdomain
  · decide
  · exact subdomain.zeroFree

/-! ## Grammatical names -/

theorem ofChars_chars (text : List UInt8) (short : text.length ≤ 254) :
    (ofChars text short).chars = text.map toLower := by
  unfold ofChars
  split
  · rename_i root
    rw [root]
    decide
  · rfl

theorem ofChars_eq_of_ne (short : text.length ≤ 254) (proper : text ≠ [space]) :
    ofChars text short = ⟨text.map toLower, text.length + 2, text.count dot + 1,
        .inr (by simp), by simpa using short⟩ := by
  have counted := count_le_length (a := dot) (l := text)
  unfold ofChars
  rw [if_neg proper]
  congr 1
  omega

theorem count_dot_map_toLower (text : List UInt8) :
    (text.map toLower).count dot = text.count dot := by
  rw [count_eq_countP, countP_map, count_eq_countP]
  refine countP_congr fun char _ => ?_
  simp only [Function.comp_apply, beq_iff_eq]
  exact toLower_eq_dot_iff

theorem ofChars_map_toLower (text : List UInt8) (short : text.length ≤ 254)
    (lowerShort : (text.map toLower).length ≤ 254) (grammatical : IsText text) :
    ofChars (text.map toLower) lowerShort = ofChars text short := by
  rcases grammatical with rfl | subdomain
  · rfl
  · have proper := subdomain.ne_space
    have lowerProper := subdomain.map_toLower.ne_space
    have twice : (text.map toLower).map toLower = text.map toLower := by
      rw [map_map]
      exact map_congr_left fun char _ => toLower_toLower char
    rw [ofChars_eq_of_ne short proper, ofChars_eq_of_ne lowerShort lowerProper]
    simp only [twice, length_map, count_dot_map_toLower]

theorem Grammatical.cString_eq (grammatical : name.Grammatical) :
    name.cString = name.chars ∧ IsText name.chars := by
  obtain ⟨text, short, accepted, rfl⟩ := grammatical
  rw [cString_eq_chars] <;> rw [ofChars_chars]
  · exact ⟨rfl, accepted.map_toLower⟩
  · exact accepted.map_toLower.zeroFree

theorem grammatical_of_copy (copied : copy name = .ok result) : result.Grammatical := by
  obtain ⟨grammatical, rfl⟩ := copy_eq_ok_iff.mp copied
  exact ⟨name.cString, name.cString_short, grammatical, rfl⟩

theorem ofChars_congr {left right : List UInt8} (same : left = right)
    (leftShort : left.length ≤ 254) (rightShort : right.length ≤ 254) :
    ofChars left leftShort = ofChars right rightShort := by
  subst same
  rfl

theorem copy_grammatical (grammatical : name.Grammatical) : copy name = .ok name := by
  obtain ⟨same, accepted⟩ := grammatical.cString_eq
  rw [copy_eq_ok_iff]
  refine ⟨same ▸ accepted, ?_⟩
  rw [ofChars_congr same name.cString_short name.chars_short]
  obtain ⟨text, short, original, rfl⟩ := grammatical
  rw [ofChars_congr (ofChars_chars text short) _ (by simpa using short)]
  exact (ofChars_map_toLower text short _ original).symm

theorem gatherLabels_map_toLower (labels : List (List UInt8)) :
    gatherLabels (lowerLabels labels) = (gatherLabels labels).map toLower := by
  induction labels with
  | nil => rfl
  | cons label labels induction =>
    rw [lowerLabels_cons, gatherLabels_cons, gatherLabels_cons,
      map_append, map_cons, toLower_dot, induction]

variable {labels : List (List UInt8)}

theorem count_dot_dropLast (proper : labels ≠ []) (dotless : ∀ label ∈ labels, dot ∉ label) :
    (gatherLabels labels).dropLast.count dot + 1 = labels.length := by
  induction labels with
  | nil => exact absurd rfl proper
  | cons label labels induction =>
    have absent : label.count dot = 0 := count_eq_zero_of_not_mem (dotless label mem_cons_self)
    by_cases more : labels = []
    · subst more
      rw [gatherLabels_dropLast_single, absent]
      rfl
    · rw [gatherLabels_dropLast_cons more, count_append, absent,
        count_cons_self, length_cons, Nat.zero_add, induction more
          fun item member => dotless item (mem_cons_of_mem _ member)]

theorem countLabels_of_labels (each : ∀ label ∈ labels, Label label) :
    countLabels labels = labels.length := by
  rw [countLabels, countP_eq_length]
  intro label member
  simp only [ne_eq, decide_eq_true_eq]
  rintro rfl
  exact (each [star] member).notMem (by decide) mem_cons_self

theorem cleanByte_of_accepted (accepted : isLetterDigitHyphen char = true) :
    CleanByte (toLower char) := by
  refine cleanByte_toLower ?_ ?_ ?_ <;>
  · rintro rfl
    exact absurd accepted (by decide)

/-- The labels of a text. -/
def textLabels (text : List UInt8) : List (List UInt8) :=
  if text = [space] then [] else text.splitOn dot

theorem Subdomain.textLabels_eq (subdomain : Subdomain text) :
    textLabels text ≠ [] ∧ (∀ label ∈ textLabels text, Label label) ∧
      text = (gatherLabels (textLabels text)).dropLast := by
  obtain ⟨labels, proper, each, joined⟩ := subdomain.exists_labels
  have split : textLabels text = labels := by
    rw [textLabels, if_neg subdomain.ne_space, joined]
    exact splitOn_gatherLabels proper fun label member => (each label member).notMem (by decide)
  rw [split]
  exact ⟨proper, each, joined⟩

theorem Subdomain.gatherLabels_length (subdomain : Subdomain text) :
    (gatherLabels (textLabels text)).length = text.length + 1 := by
  obtain ⟨proper, -, joined⟩ := subdomain.textLabels_eq
  obtain ⟨label, labels, split⟩ := exists_cons_of_ne_nil proper
  have present := length_pos_iff.mpr (split ▸ WireName.gatherLabels_ne_nil)
  have whole := congrArg List.length joined
  rw [length_dropLast] at whole
  omega

theorem IsText.lowerLabels (grammatical : IsText text) :
    ∀ label ∈ lowerLabels (textLabels text), Label label := by
  intro label member
  obtain ⟨original, inside, rfl⟩ := mem_map.mp member
  rcases grammatical with rfl | subdomain
  · cases inside
  · exact (subdomain.textLabels_eq.2.1 original inside).map_toLower

theorem IsText.clean (grammatical : IsText text) :
    ∀ label ∈ DomainName.lowerLabels (textLabels text), ∀ byte ∈ label, CleanByte byte := by
  intro label member byte inside
  obtain ⟨original, originalMember, rfl⟩ := mem_map.mp member
  obtain ⟨char, charMember, rfl⟩ := mem_map.mp inside
  rcases grammatical with rfl | subdomain
  · cases originalMember
  · exact cleanByte_of_accepted
      ((subdomain.textLabels_eq.2.1 original originalMember).body char charMember)

/-- The name of a text is stored as the labels of the text in lower case. -/
theorem spells_text (short : text.length ≤ 254) (grammatical : IsText text) :
    Spells (ofChars text short) (lowerLabels (textLabels text)) := by
  have lowered := grammatical.lowerLabels
  have clean := grammatical.clean
  rcases grammatical with rfl | subdomain
  · exact @spells_wire WireName.root (@WireName.Clean.plain WireName.root clean)
  obtain ⟨proper, each, joined⟩ := subdomain.textLabels_eq
  refine ⟨fun label member byte inside => (clean label member byte inside).plain, ?_, ?_, ?_⟩
  · intro _
    rw [ofChars_chars, gatherLabels_map_toLower, ← map_dropLast, ← joined]
  · have total : (gatherLabels (lowerLabels (textLabels text))).length = text.length + 1 := by
      rw [gatherLabels_map_toLower, length_map, subdomain.gatherLabels_length]
    rw [ofChars_eq_of_ne short subdomain.ne_space, total]
  · have counted := count_dot_dropLast proper
      fun label member => (each label member).notMem (by decide)
    rw [ofChars_eq_of_ne short subdomain.ne_space, countLabels_of_labels lowered,
      DomainName.lowerLabels]
    simpa [← joined] using counted

theorem Grammatical.canonical (grammatical : name.Grammatical)
    (fits : name.size ≤ 255) : name.Canonical := by
  obtain ⟨text, short, accepted, rfl⟩ := grammatical
  have spells := spells_text short accepted
  have len := spells.len
  rw [gatherLabels_length] at len
  rw [size] at fits
  let wire : WireName := ⟨lowerLabels (textLabels text),
    fun label member => (accepted.lowerLabels label member).nonempty, by omega⟩
  exact ⟨wire, accepted.clean, spells.unique (@spells_wire wire spells.plain)⟩

theorem Grammatical.zeroFree (grammatical : name.Grammatical) : 0 ∉ name.chars :=
  grammatical.cString_eq.2.zeroFree

end DomainName

end Embassies.Crypto
