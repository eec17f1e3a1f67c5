import Embassies.Crypto.NameCodec

/-!
# The grammar of names

The text constructor is to accept the grammar of dotted names: labels of letters, digits
and hyphens that start with a letter and do not end in a hyphen, each of at most 63
characters, separated by dots.  `checkSubdomain` looks for that grammar by recursion, with
two slips.  It does not bound the labels, and it keeps the result of `checkLabel` in a byte.

The failure result becomes the label length 255.  When as many characters are left, they
are accepted whatever they are, and when more are left, the search goes on behind them.
When a single character is left that is no letter, the test that there is room for a
separator wraps around, and the code looks 255 characters ahead, outside of the name.
-/

namespace Embassies.Crypto

open Library Library.Checked List

namespace DomainName

/-- A label of the grammar. -/
structure Label (text : List UInt8) : Prop where
  nonempty : text ≠ []
  first : isLetter (text.headD 0) = true
  last : isLetterDigit (text.getLastD 0) = true
  body : ∀ char ∈ text, isLetterDigitHyphen char = true

/-- A dotted sequence of labels. -/
inductive Subdomain : List UInt8 → Prop
  | label {text : List UInt8} (label : Label text) : Subdomain text
  | dotted {text rest : List UInt8} (label : Label text)
      (subdomain : Subdomain rest) : Subdomain (text ++ dot :: rest)

/-! ## Scanning a label -/

/-- How far a label can reach. -/
def run (text : List UInt8) : List UInt8 :=
  text.takeWhile isLetterDigitHyphen

theorem scanLabel_eq (text memory : List UInt8) :
    scanLabel (text ++ memory) text.length = .ok (run text).length := by
  induction text with
  | nil =>
    cases memory <;> rfl
  | cons char text induction =>
    rw [cons_append, length_cons, scanLabel]
    by_cases inside : isLetterDigitHyphen char = true
    · simp [inside, induction, run]
    · simp [inside, run]

theorem isLetterDigitHyphen_of_isLetter {char : UInt8} (letter : isLetter char = true) :
    isLetterDigitHyphen char = true := by
  simp [isLetterDigitHyphen, isLetterDigit, letter]

theorem getD_last_of_isPrefix
    {start whole : List UInt8} (starts : start <+: whole) (proper : start ≠ []) :
    whole.getD (start.length - 1) 0 = start.getLastD 0 := by
  obtain ⟨rest, rfl⟩ := starts
  have positive := length_pos_iff.mpr proper
  rw [getD_eq_getElem?_getD, getElem?_append_left (by omega),
    ← getLast?_eq_getElem?, getLastD_eq_getLast?]

/-- `checkLabel` finds the longest run of label characters and tests its
ends. -/
theorem checkLabel_eq (text memory : List UInt8) : checkLabel (text ++ memory) text.length =
      .ok (if isLetter (text.headD 0) = true ∧ isLetterDigit ((run text).getLastD 0) = true
        then some (run text).length else none) := by
  cases text with
  | nil =>
    have noLetter : ¬ isLetter 0 = true := by decide
    simp [checkLabel, noLetter]
  | cons char text =>
    unfold checkLabel
    simp only [length_cons, Nat.add_one_ne_zero, if_false, cons_append, Nat.add_sub_cancel]
    by_cases letter : isLetter char = true
    · have scanned : run (char :: text) = char :: run text := by
        simp [run, isLetterDigitHyphen_of_isLetter letter]
      have starts : run (char :: text) <+: char :: (text ++ memory) :=
        (List.takeWhile_prefix _).trans (prefix_append _ _)
      have last := getD_last_of_isPrefix starts (by simp [scanned])
      rw [scanned, length_cons, Nat.add_sub_cancel, ← scanned] at last
      rw [if_pos letter, scanLabel_eq, ok_bind, last, scanned, length_cons]
      by_cases ended : isLetterDigit ((char :: run text).getLastD 0) = true
      · have both : isLetter ((char :: text).headD 0) = true ∧
            isLetterDigit ((char :: run text).getLastD 0) = true :=
          ⟨letter, ended⟩
        rw [if_pos ended, if_pos both, pure_eq_ok]
      · have missing : ¬ (isLetter ((char :: text).headD 0) = true ∧
            isLetterDigit ((char :: run text).getLastD 0) = true) :=
          fun both => ended both.2
        rw [if_neg ended, if_neg missing, pure_eq_ok]
    · simp [letter]

variable {text : List UInt8}

theorem headD_append {rest : List UInt8} (proper : text ≠ []) :
    (text ++ rest).headD 0 = text.headD 0 := by
  obtain ⟨char, text, rfl⟩ := exists_cons_of_ne_nil proper
  rfl

/-! ## The grammar -/

theorem Subdomain.nonempty (subdomain : Subdomain text) : text ≠ [] := by
  cases subdomain with
  | label label => exact label.nonempty
  | dotted label subdomain => simp

theorem Subdomain.first (subdomain : Subdomain text) : isLetter (text.headD 0) = true := by
  cases subdomain with
  | label label => exact label.first
  | dotted label subdomain =>
    rw [headD_append label.nonempty]
    exact label.first

theorem Subdomain.ne_space (subdomain : Subdomain text) : text ≠ [space] := by
  rintro rfl
  exact absurd subdomain.first (by decide)

/-! ## What is taken for a label -/

/-- Pieces separated by dots, the last one of a kind of its own. -/
inductive Dotted (piece last : List UInt8 → Prop) : List UInt8 → Prop
  | last {text : List UInt8} (ends : last text) : Dotted piece last text
  | dotted {text rest : List UInt8} (starts : piece text)
      (dotted : Dotted piece last rest) : Dotted piece last (text ++ dot :: rest)

variable {piece last : List UInt8 → Prop}

theorem Dotted.mono {piece' last' : List UInt8 → Prop}
    (pieces : ∀ part, part.length ≤ text.length → piece part → piece' part)
    (lasts : ∀ part, part.length ≤ text.length → last part → last' part)
    (dotted : Dotted piece last text) : Dotted piece' last' text := by
  induction dotted with
  | last ends => exact .last (lasts _ le_rfl ends)
  | @dotted text rest starts _ induction =>
    have total : (text ++ dot :: rest).length = text.length + (rest.length + 1) := by
      rw [length_append, length_cons]
    refine .dotted (pieces _ (by omega) starts) (induction ?_ ?_)
    · exact fun part fits => pieces part (by omega)
    · exact fun part fits => lasts part (by omega)

/-- The characters that `checkSubdomain` passes over as one label. -/
def Piece (text : List UInt8) : Prop :=
  Label text ∧ text.length ≤ 255 ∨ text.length = 255 ∧ ¬ Label (run text)

/-- A single character that is no letter. -/
def NoLetter (text : List UInt8) : Prop :=
  ∃ char, text = [char] ∧ isLetter char = false

/-- The texts that `checkSubdomain` accepts. -/
abbrev Accepted : List UInt8 → Prop := Dotted Piece Piece

/-- The texts at whose end `checkSubdomain` looks outside of them. -/
abbrev LooksBeyond : List UInt8 → Prop := Dotted Piece NoLetter

theorem Piece.nonempty (piece : Piece text) : text ≠ [] := by
  rcases piece with ⟨label, -⟩ | ⟨length, -⟩
  · exact label.nonempty
  · rintro rfl
    simp at length

theorem Dotted.nonempty (proper : ∀ part, last part → part ≠ []) (dotted : Dotted piece last text) :
    text ≠ [] := by
  cases dotted with
  | last ends => exact proper _ ends
  | dotted _ _ => simp

theorem NoLetter.nonempty (stray : NoLetter text) : text ≠ [] := by
  obtain ⟨char, rfl, -⟩ := stray
  simp

theorem label_run (first : isLetter (text.headD 0) = true)
    (last : isLetterDigit ((run text).getLastD 0) = true) :
    Label (run text) := by
  cases text with
  | nil => exact absurd first (by decide)
  | cons char text =>
    have scanned : run (char :: text) = char :: run text := by
      have letter : isLetter char = true := first
      simp [run, isLetterDigitHyphen_of_isLetter letter]
    refine ⟨by simp [scanned], ?_, last, ?_⟩
    · rw [scanned]
      exact first
    · intro item member
      exact mem_takeWhile_imp member

/-- The two tests of `checkLabel` say whether the run is a label. -/
theorem label_run_iff : Label (run text) ↔
      isLetter (text.headD 0) = true ∧ isLetterDigit ((run text).getLastD 0) = true := by
  constructor
  · intro label
    refine ⟨?_, label.last⟩
    have split : run text ++ text.dropWhile isLetterDigitHyphen = text := takeWhile_append_dropWhile
    rw [← split, headD_append label.nonempty]
    exact label.first
  · exact fun tests => label_run tests.1 tests.2

theorem run_append_dot (text rest : List UInt8) : run (text ++ dot :: rest) = run text := by
  induction text with
  | nil => rfl
  | cons char text induction =>
    rw [cons_append, run, takeWhile_cons, run, takeWhile_cons]
    split
    · exact congrArg (char :: ·) induction
    · rfl

section Length

variable {text memory : List UInt8}

theorem checkLabel_run (label : Label (run text)) :
    checkLabel (text ++ memory) text.length = .ok (some (run text).length) := by
  rw [checkLabel_eq, if_pos (label_run_iff.mp label)]

theorem checkLabel_none (unlabelled : ¬ Label (run text)) :
    checkLabel (text ++ memory) text.length = .ok none := by
  rw [checkLabel_eq, if_neg (mt label_run_iff.mpr unlabelled)]

theorem checkLabel_piece {piece : List UInt8} (starts : Piece piece) (same : run text = run piece) :
    ∃ label, checkLabel (text ++ memory) text.length = .ok label ∧
      label.getD 255 % 256 = piece.length := by
  rcases starts with ⟨label, length⟩ | ⟨length, unlabelled⟩
  · have same := same.trans (takeWhile_eq_self_iff.mpr label.body)
    refine ⟨_, checkLabel_run (same ▸ label), ?_⟩
    rw [Option.getD_some, same]
    omega
  · exact ⟨_, checkLabel_none (same ▸ unlabelled), length.symm⟩

end Length

/-! ## The recursion -/

section Recursion

variable {text rest memory : List UInt8} {rounds : Nat}

theorem checkSubdomain_dotted (piece : Piece text) (more : rest ≠ [])
    (sized : (text ++ dot :: rest).length < 2 ^ 32) :
    checkSubdomain (rounds + 1) ((text ++ dot :: rest) ++ memory) (text ++ dot :: rest).length = (do
        let subdomain ← checkSubdomain rounds (rest ++ memory) rest.length
        return subdomain.map fun _ => (text ++ dot :: rest).length) := by
  have positive := length_pos_iff.mpr more
  have total : (text ++ dot :: rest).length = text.length + (rest.length + 1) := by
    rw [length_append, length_cons]
  have left : sub32 (text ++ dot :: rest).length (text.length + 1) = rest.length := by
    rw [sub32_of_le (by omega) (by omega)]
    omega
  have ahead : ((text ++ dot :: rest) ++ memory).drop text.length = dot :: (rest ++ memory) := by
    rw [append_assoc, drop_left, cons_append]
  obtain ⟨label, found, length⟩ :=
    @checkLabel_piece (text ++ dot :: rest) memory text piece (run_append_dot text rest)
  rw [checkSubdomain, if_neg (by omega), found, ok_bind]
  simp only [length]
  rw [if_neg (by omega), sub32_of_le (by omega) (by omega), if_neg (by omega), ahead,
    parseByte, ok_bind]
  simp only [if_true, left]

theorem checkSubdomain_of_accepted (accepted : Accepted text) (sized : text.length < 2 ^ 32)
    (enough : text.length < rounds) :
    checkSubdomain rounds (text ++ memory) text.length = .ok (some text.length) := by
  induction accepted generalizing rounds with
  | @last text piece =>
    obtain ⟨rounds, rfl⟩ := Nat.exists_eq_add_of_lt enough
    have proper := length_pos_iff.mpr piece.nonempty
    obtain ⟨label, found, length⟩ := @checkLabel_piece text memory text piece rfl
    rw [checkSubdomain, if_neg (by omega), found, ok_bind]
    simp only [length, if_true, pure_eq_ok]
  | dotted piece accepted induction =>
    obtain ⟨rounds, rfl⟩ : ∃ fewer, rounds = fewer + 1 := Nat.exists_eq_succ_of_ne_zero (by omega)
    rw [checkSubdomain_dotted piece (accepted.nonempty fun _ => Piece.nonempty) sized]
    rw [length_append, length_cons] at sized enough
    rw [induction (by omega) (by omega)]
    rfl

/-- A last character that is no letter sends the check outside of the name. -/
theorem checkSubdomain_looks_beyond (beyond : LooksBeyond text) (sized : text.length < 2 ^ 32)
    (enough : text.length < rounds) (outside : memory.length < 255) :
    checkSubdomain rounds (text ++ memory) text.length = .error (.fault .outOfBoundsRead) := by
  induction beyond generalizing rounds with
  | last stray =>
    obtain ⟨char, rfl, noLetter⟩ := stray
    obtain ⟨rounds, rfl⟩ := Nat.exists_eq_add_of_lt enough
    have label : checkLabel ([char] ++ memory) [char].length = .ok none := by
      rw [checkLabel_eq]
      simp [noLetter]
    have wraps : ¬ sub32 [char].length 2 < 255 := by
      simp [sub32]
    have nothing : ([char] ++ memory).drop 255 = [] :=
      drop_eq_nil_of_le (by rw [length_append, length_singleton]; omega)
    rw [checkSubdomain, if_neg (by simp), label, ok_bind]
    simp only [Option.getD_none, Nat.reduceMod]
    rw [if_neg (by simp), if_neg wraps, nothing, parseByte, error_bind]
  | dotted piece beyond induction =>
    obtain ⟨rounds, rfl⟩ : ∃ fewer, rounds = fewer + 1 := Nat.exists_eq_succ_of_ne_zero (by omega)
    rw [checkSubdomain_dotted piece (beyond.nonempty fun _ => NoLetter.nonempty) sized]
    rw [length_append, length_cons] at sized enough
    rw [induction (by omega) (by omega)]
    rfl

/-- What follows the label length is no separator with something behind it. -/
theorem checkSubdomain_cut {front : List UInt8} {label : Option Nat} {char : UInt8}
    (found : checkLabel (text ++ memory) text.length = .ok label)
    (length : label.getD 255 % 256 = front.length)
    (split : text = front ++ char :: rest) (sized : text.length < 2 ^ 32)
    (cut : rest = [] ∨ char ≠ dot) (two : 2 ≤ text.length) :
    checkSubdomain (rounds + 1) (text ++ memory) text.length = .ok none := by
  have total : text.length = front.length + (rest.length + 1) := by
    rw [split, length_append, length_cons]
  have ahead : (text ++ memory).drop front.length = char :: (rest ++ memory) := by
    rw [split, append_assoc, drop_left, cons_append]
  rw [checkSubdomain, if_neg (by omega), found, ok_bind]
  simp only [length]
  rw [if_neg (by omega), sub32_of_le two sized]
  rcases cut with rfl | different
  · rw [length_nil] at total
    rw [if_pos (by omega), pure_eq_ok]
  · by_cases tight : text.length - 2 < front.length
    · rw [if_pos tight, pure_eq_ok]
    · rw [if_neg tight, ahead, parseByte, ok_bind]
      simp only [if_neg different, pure_eq_ok]

/-- A run of more than 255 characters is not accepted as a label. -/
theorem checkSubdomain_long_run (label : Label (run text)) (long : 256 ≤ (run text).length)
    (sized : text.length < 2 ^ 32) :
    checkSubdomain (rounds + 1) (text ++ memory) text.length = .ok none := by
  have starts : run text <+: text := List.takeWhile_prefix _
  have fits := starts.length_le
  have place : ((run text).length % 256) < (run text).length := by omega
  have char : text[(run text).length % 256] ≠ dot := by
    have same : text[(run text).length % 256] = (run text)[(run text).length % 256] :=
      (starts.getElem place).symm
    rw [same]
    intro isDot
    have accepted := label.body _ (getElem_mem place)
    rw [isDot] at accepted
    exact absurd accepted (by decide)
  have length : (some (run text).length).getD 255 % 256 =
      (text.take ((run text).length % 256)).length := by
    rw [Option.getD_some, length_take]
    omega
  have split : text = text.take ((run text).length % 256) ++
      text[(run text).length % 256] :: text.drop ((run text).length % 256 + 1) := by
    rw [getElem_cons_drop, take_append_drop]
  exact checkSubdomain_cut (checkLabel_run label) length split sized (.inr char) (by omega)

/-- The search is over when there is no label, except for three lengths of what is left. -/
theorem checkSubdomain_unlabelled
    (unlabelled : ¬ Label (run text)) (two : 2 ≤ text.length) (few : text.length ≤ 256)
    (other : text.length ≠ 255) :
    checkSubdomain (rounds + 1) (text ++ memory) text.length = .ok none := by
  rw [checkSubdomain, if_neg (by omega), checkLabel_none unlabelled, ok_bind]
  simp only [Option.getD_none, Nat.reduceMod]
  rw [if_neg (by omega), sub32_of_le two (by omega), if_pos (by omega), pure_eq_ok]

/-- Nothing else is accepted, and nothing else makes the check look outside. -/
theorem checkSubdomain_cases (sized : text.length < 2 ^ 32) (enough : text.length < rounds) :
    (∀ memory, checkSubdomain rounds (text ++ memory) text.length = .ok none) ∨
      Accepted text ∨ LooksBeyond text := by
  induction rounds generalizing text with
  | zero => omega
  | succ rounds induction =>
    -- What follows a piece and a separator decides.
    have dotted : ∀ {front rest : List UInt8}, Piece front → rest ≠ [] →
        text = front ++ dot :: rest →
        (∀ memory, checkSubdomain (rounds + 1) (text ++ memory) text.length = .ok none) ∨
          Accepted text ∨ LooksBeyond text := by
      rintro front rest piece more rfl
      have total := sized
      rw [length_append, length_cons] at total enough
      rcases @induction rest (by omega) (by omega) with none | accepted | beyond
      · left
        intro memory
        rw [checkSubdomain_dotted piece more sized, none]
        rfl
      · exact .inr (.inl (.dotted piece accepted))
      · exact .inr (.inr (.dotted piece beyond))
    by_cases label : Label (run text)
    · by_cases long : 256 ≤ (run text).length
      · exact .inl fun memory => checkSubdomain_long_run label long sized
      have split : run text ++ text.dropWhile isLetterDigitHyphen = text :=
        takeWhile_append_dropWhile
      have proper := length_pos_iff.mpr label.nonempty
      cases remaining : text.dropWhile isLetterDigitHyphen with
      | nil =>
        rw [remaining, append_nil] at split
        rw [split] at label long
        exact .inr (.inl (.last (.inl ⟨label, by omega⟩)))
      | cons char rest =>
        rw [remaining] at split
        by_cases cut : rest = [] ∨ char ≠ dot
        · left
          intro memory
          refine checkSubdomain_cut (checkLabel_run label) ?_ split.symm sized cut ?_
          · rw [Option.getD_some]
            omega
          · rw [← split, length_append, length_cons]
            omega
        · simp only [not_or, not_not] at cut
          obtain ⟨more, rfl⟩ := cut
          exact dotted (.inl ⟨label, by omega⟩) more split.symm
    · by_cases few : text.length ≤ 256
      · match text with
        | [] => exact .inl fun memory => rfl
        | [char] =>
          right; right
          refine .last ⟨char, rfl, ?_⟩
          by_contra letter
          rw [Bool.not_eq_false] at letter
          refine label (label_run letter ?_)
          simp [run, isLetterDigitHyphen_of_isLetter letter, isLetterDigit, letter]
        | first :: second :: rest =>
          by_cases whole : (first :: second :: rest).length = 255
          · exact .inr (.inl (.last (.inr ⟨whole, label⟩)))
          · exact .inl fun memory =>
              checkSubdomain_unlabelled label (by simp) few whole
      · have front : (text.take 255).length = 255 := by
          rw [length_take]
          omega
        have split : text.take 255 ++ text[255] :: text.drop 256 = text := by
          rw [getElem_cons_drop, take_append_drop]
        have more : text.drop 256 ≠ [] := by
          rw [← length_pos_iff, length_drop]
          omega
        by_cases separator : text[255] = dot
        · rw [separator] at split
          refine dotted (.inr ⟨front, ?_⟩) more split.symm
          rwa [← run_append_dot (text.take 255) (text.drop 256), split]
        · left
          intro memory
          refine checkSubdomain_cut (checkLabel_none label) ?_ split.symm sized
            (.inr separator) (by omega)
          rw [front]
          rfl

end Recursion

/-! ## Names and the grammar -/

/-- A label that is not too long. -/
def ShortLabel (text : List UInt8) : Prop := Label text ∧ text.length ≤ 63

/-- `<domain>`: one space, or labels of at most 63 characters separated by dots. -/
def IsDomain (text : List UInt8) : Prop :=
  text = [space] ∨ Dotted ShortLabel ShortLabel text

/-- Wherever the text is stored, the check says whether it is a domain. -/
def Decides (text : List UInt8) : Prop :=
  ∀ memory, ∃ verdict, checkDomainName (text ++ memory) text.length = .ok verdict ∧
    (verdict = true ↔ IsDomain text)

/-- A text that is no domain but is accepted, or at whose end the check looks outside, or
of the one length that the failure result stands for. -/
def Misread (text : List UInt8) : Prop :=
  ¬ IsDomain text ∧ (Accepted text ∨ LooksBeyond text ∨ text.length = 2 ^ 32 - 1)

theorem accepted_of_shortLabels (short : Dotted ShortLabel ShortLabel text) : Accepted text :=
  short.mono (fun _ _ label => .inl ⟨label.1, label.2.trans (by decide)⟩)
    fun _ _ label => .inl ⟨label.1, label.2.trans (by decide)⟩

theorem checkDomainName_eq (proper : text ≠ [space]) (memory : List UInt8) :
    checkDomainName (text ++ memory) text.length = (do
        let subdomain ←
          checkSubdomain ((text ++ memory).length + 1) (text ++ memory) text.length
        return subdomain.getD (2 ^ 32 - 1) == text.length) := by
  match text with
  | [] => rfl
  | [char] =>
    have other : char ≠ space := fun same => proper (by rw [same])
    rw [checkDomainName, if_neg (by simp), if_pos length_singleton]
    simp only [cons_append, parseByte, ok_bind, if_neg other]
  | first :: second :: rest =>
    rw [checkDomainName, if_neg (by simp), if_neg (by simp)]

section Verdict

variable {text memory : List UInt8}

theorem checkDomainName_accepted
    (accepted : Accepted text) (proper : text ≠ [space]) (sized : text.length < 2 ^ 32) :
    checkDomainName (text ++ memory) text.length = .ok true := by
  rw [checkDomainName_eq proper, checkSubdomain_of_accepted accepted sized
    (by rw [length_append]; omega), ok_bind, Option.getD_some, beq_self_eq_true]
  rfl

end Verdict

/-- The check decides the grammar for exactly the texts that are not misread. -/
theorem decides_iff (text : List UInt8) (proper : text ≠ []) (sized : text.length < 2 ^ 32) :
    Decides text ↔ ¬ Misread text := by
  by_cases root : text = [space]
  · subst root
    refine iff_of_true (fun memory => ⟨true, rfl, ?_⟩) fun misread => misread.1 (.inl rfl)
    exact iff_of_true rfl (.inl rfl)
  by_cases accepted : Accepted text
  · have verdict := fun memory =>
      @checkDomainName_accepted text memory accepted root sized
    by_cases domain : IsDomain text
    · refine iff_of_true (fun memory => ⟨true, verdict memory, ?_⟩) fun misread =>
        misread.1 domain
      exact iff_of_true rfl domain
    · refine iff_of_false ?_ (not_not_intro ⟨domain, .inl accepted⟩)
      intro decides
      obtain ⟨answer, returned, correct⟩ := decides []
      rw [verdict, Except.ok.injEq] at returned
      exact domain (correct.mp returned.symm)
  have domain : ¬ IsDomain text := by
    rintro (isRoot | labels)
    · exact root isRoot
    · exact accepted (accepted_of_shortLabels labels)
  by_cases beyond : LooksBeyond text
  · refine iff_of_false ?_ (not_not_intro ⟨domain, .inr (.inl beyond)⟩)
    intro decides
    obtain ⟨answer, returned, -⟩ := decides []
    rw [checkDomainName_eq root, checkSubdomain_looks_beyond beyond sized
      (by rw [length_append]; omega) (by decide), error_bind] at returned
    cases returned
  · have verdict : ∀ memory, checkDomainName (text ++ memory) text.length =
        .ok (2 ^ 32 - 1 == text.length) := by
      intro memory
      have enough : text.length < (text ++ memory).length + 1 := by
        rw [length_append]
        omega
      rcases checkSubdomain_cases sized enough with none | isAccepted | isBeyond
      · rw [checkDomainName_eq root, none memory, ok_bind, Option.getD_none]
        rfl
      · exact absurd isAccepted accepted
      · exact absurd isBeyond beyond
    constructor
    · rintro decides ⟨-, other | other | longest⟩
      · exact accepted other
      · exact beyond other
      · obtain ⟨answer, returned, correct⟩ := decides []
        rw [verdict, longest, beq_self_eq_true, Except.ok.injEq] at returned
        exact domain (correct.mp returned.symm)
    · intro readRight memory
      refine ⟨_, verdict memory, ?_⟩
      refine iff_of_false ?_ domain
      intro accepts
      exact readRight ⟨domain, .inr (.inr (beq_iff_eq.mp accepts).symm)⟩

/-- Three labels with a digit and a hyphen are read right. -/
theorem decides_three_labels : Decides ([97, 98] ++ dot :: ([99, 45, 100] ++ dot :: [101, 57])) := by
  refine (decides_iff _ (by decide) (by decide)).mpr ?_
  rintro ⟨noDomain, -⟩
  refine noDomain (.inr (.dotted ⟨⟨by decide, rfl, rfl, by decide +kernel⟩, by decide⟩ (.dotted
    ⟨⟨by decide, rfl, rfl, by decide +kernel⟩, by decide⟩
    (.last ⟨⟨by decide, rfl, rfl, by decide +kernel⟩, by decide⟩))))

/-- A label of 64 letters is accepted, and for a single digit the check leaves the name. -/
theorem checkDomainName_misreads : checkDomainName (List.replicate 64 97 ++ [0]) 64 = .ok true ∧
      ¬ IsDomain (List.replicate 64 97) ∧
      checkDomainName [49, 0] 1 = .error (.fault .outOfBoundsRead) := by
  refine ⟨rfl, ?_, rfl⟩
  rintro (root | labels)
  · exact absurd (congrArg List.length root) (by rw [length_replicate]; decide)
  · generalize text : List.replicate 64 (97 : UInt8) = chars at labels
    cases labels with
    | last label =>
      have bound := label.2
      rw [← text, length_replicate] at bound
      omega
    | @dotted front rest _ _ =>
      have member : dot ∈ List.replicate 64 (97 : UInt8) := by
        rw [text]
        exact mem_append_right _ mem_cons_self
      exact absurd (eq_of_mem_replicate member) (by decide)

end DomainName

end Embassies.Crypto
