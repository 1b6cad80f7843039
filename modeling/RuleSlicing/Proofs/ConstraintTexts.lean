import RuleSlicing.Proofs.Meaning

/-!
# The texts of constraints

A text is a constraint if every piece between its ampersands spells a literal, with any blanks
around it, so printed conjunctions are read back. A constraint has a formula if all its names are
codes of active features, and the formula says that every literal holds.
-/

set_option autoImplicit false

namespace RuleSlicing

namespace Constraint

/-! ## Spelling -/

/-- A name begins with a letter or an underscore; digits, points and minus signs may follow. -/
inductive Named : List Char → Prop where
  | intro {first : Char} {rest : List Char} (begins : first.isAlpha = true ∨ first = '_')
      (continues : ∀ char ∈ rest,
        char.isAlphanum = true ∨ char = '_' ∨ char = '.' ∨ char = '-') :
      Named (first :: rest)

def Blank (chars : List Char) : Prop := ∀ char ∈ chars, Text.isBlank char = true

/-- A literal is spelled by its name, behind a minus sign and some blanks if it is negative. -/
inductive Spells : List Char → Literal → Prop where
  | positive {name : List Char} (named : Named name) : Spells name ⟨String.ofList name, true⟩
  | negative {gap name : List Char} (blank : Blank gap) (named : Named name) :
      Spells ('-' :: (gap ++ name)) ⟨String.ofList name, false⟩

/-- A piece of a text is the spelling of a literal with blanks around it. -/
inductive Padded : List Char → Literal → Prop where
  | intro {before token after : List Char} {literal : Literal} (blankBefore : Blank before)
      (spells : Spells token literal) (blankAfter : Blank after) :
      Padded (before ++ token ++ after) literal

/-! ## Characters -/

theorem beginsName_iff (char : Char) :
    beginsName char = true ↔ char.isAlpha = true ∨ char = '_' := by
  delta Char.isAlpha Char.isUpper Char.isLower
  simp only [beginsName, Bool.or_eq_true, Bool.and_eq_true, decide_eq_true_eq, Char.le_def,
    ge_iff_le]

theorem continuesName_iff (char : Char) :
    continuesName char = true ↔
      char.isAlphanum = true ∨ char = '_' ∨ char = '.' ∨ char = '-' := by
  simp only [continuesName, Bool.or_eq_true, beginsName_iff, Char.isAlphanum, Char.isDigit,
    Bool.and_eq_true, decide_eq_true_eq, Char.le_def, ge_iff_le]
  tauto

theorem isName_iff (chars : List Char) : isName chars = true ↔ Named chars := by
  cases chars with
  | nil => exact iff_of_false nofun nofun
  | cons first rest =>
      simp only [isName, Bool.and_eq_true, List.all_eq_true, beginsName_iff, continuesName_iff]
      constructor
      · intro given
        exact .intro given.1 given.2
      · intro named
        cases named with
        | intro begins continues => exact ⟨begins, continues⟩

/-- Blanks lie below the characters of names, or above them. -/
private theorem code_of_isBlank {char : Char} (blank : Text.isBlank char = true) :
    char.toNat ≤ 32 ∨ 133 ≤ char.toNat := by
  simp only [Text.isBlank, Bool.or_eq_true, Bool.and_eq_true, decide_eq_true_eq, beq_iff_eq]
    at blank
  omega

private theorem code_of_continuesName {char : Char} (continues : continuesName char = true) :
    45 ≤ char.toNat ∧ char.toNat ≤ 122 := by
  simp only [continuesName, beginsName, Bool.or_eq_true, Bool.and_eq_true, decide_eq_true_eq,
    Char.le_def, UInt32.le_iff_toNat_le] at continues
  change ((((65 ≤ char.toNat ∧ char.toNat ≤ 90 ∨ 97 ≤ char.toNat ∧ char.toNat ≤ 122) ∨
    char = '_') ∨ 48 ≤ char.toNat ∧ char.toNat ≤ 57) ∨ char = '.') ∨ char = '-' at continues
  rcases continues with (((letter | rfl) | digit) | rfl) | rfl
  · omega
  · decide
  · omega
  · decide
  · decide

theorem Named.forall_mem {name : List Char} (named : Named name) :
    ∀ char ∈ name, continuesName char = true := by
  cases named with
  | @intro first rest begins continues =>
      refine List.forall_mem_cons.mpr ⟨?_, fun char member => ?_⟩
      · simp only [continuesName, (beginsName_iff first).mpr begins, Bool.true_or]
      · exact (continuesName_iff char).mpr (continues char member)

/-- No character that stands in a literal is a blank, but for the gap behind its sign. -/
private theorem not_isBlank_of_mem {name : List Char} (named : Named name) {char : Char}
    (member : char ∈ name) : ¬Text.isBlank char = true := by
  intro blank
  have low := code_of_continuesName (named.forall_mem char member)
  have high := code_of_isBlank blank
  omega

/-! ## Single pieces -/

private theorem dropWhile_blank {blanks rest : List Char} (blank : Blank blanks) :
    (blanks ++ rest).dropWhile Text.isBlank = rest.dropWhile Text.isBlank :=
  List.dropWhile_append_of_pos blank

private theorem dropWhile_visible {visible : List Char} (occupied : visible ≠ [])
    (none : ∀ char ∈ visible, ¬Text.isBlank char = true) (rest : List Char) :
    (visible ++ rest).dropWhile Text.isBlank = visible ++ rest := by
  cases visible with
  | nil => exact absurd rfl occupied
  | cons first others => exact List.dropWhile_cons_of_neg (none first (.head _))

private theorem Named.ne_nil {name : List Char} (named : Named name) : name ≠ [] := by
  cases named
  exact List.cons_ne_nil _ _

private theorem Named.dropWhile {name : List Char} (named : Named name) :
    name.dropWhile Text.isBlank = name := by
  have whole := dropWhile_visible named.ne_nil (fun _ => not_isBlank_of_mem named) []
  rwa [List.append_nil] at whole

theorem literal?_eq_some_iff {token : List Char} {literal : Literal} :
    literal? token = some literal ↔ Spells token literal := by
  constructor
  · intro found
    unfold literal? at found
    split at found
    · rename_i rest
      simp only at found
      split at found
      · rename_i isName
        cases found
        have blank : Blank (rest.takeWhile Text.isBlank) :=
          List.all_eq_true.mp List.all_takeWhile
        have spells := Spells.negative blank ((isName_iff _).mp isName)
        rwa [List.takeWhile_append_dropWhile] at spells
      · cases found
    · split at found
      · rename_i isName
        cases found
        exact .positive ((isName_iff token).mp isName)
      · cases found
  · intro spells
    cases spells with
    | positive named =>
        unfold literal?
        split
        · cases named with
          | intro begins continues => exact absurd begins (by decide)
        · rw [if_pos ((isName_iff _).mpr named)]
    | negative blank named =>
        simp only [literal?, dropWhile_blank blank, named.dropWhile]
        rw [if_pos ((isName_iff _).mpr named)]

/-- A literal neither begins nor ends with a blank. -/
private theorem Spells.tight {token : List Char} {literal : Literal}
    (spells : Spells token literal) (rest : List Char) :
    (token ++ rest).dropWhile Text.isBlank = token ++ rest ∧
      token.reverse.dropWhile Text.isBlank = token.reverse := by
  have last : ∀ {name : List Char}, Named name → ∀ front : List Char,
      (front ++ name).reverse.dropWhile Text.isBlank = (front ++ name).reverse := by
    intro name named front
    rw [List.reverse_append]
    exact dropWhile_visible (mt List.reverse_eq_nil_iff.mp named.ne_nil)
      (fun _ member => not_isBlank_of_mem named (List.mem_reverse.mp member)) _
  cases spells with
  | positive named =>
      exact ⟨dropWhile_visible named.ne_nil (fun _ => not_isBlank_of_mem named) rest,
        last named []⟩
  | @negative gap _ _ named => exact ⟨rfl, last named ('-' :: gap)⟩

theorem trimChars_padded {before token after : List Char} {literal : Literal}
    (blankBefore : Blank before) (spells : Spells token literal) (blankAfter : Blank after) :
    Text.trimChars (before ++ token ++ after) = token := by
  obtain ⟨first, last⟩ := spells.tight after
  have blankReverse : Blank after.reverse := fun char member =>
    blankAfter char (List.mem_reverse.mp member)
  unfold Text.trimChars
  rw [List.append_assoc, dropWhile_blank blankBefore, first, List.reverse_append,
    dropWhile_blank blankReverse, last, List.reverse_reverse]

/-- Trimming takes blanks off both ends. -/
theorem exists_trimmed (piece : List Char) :
    ∃ before after, Blank before ∧ Blank after ∧
      before ++ Text.trimChars piece ++ after = piece := by
  have leading : Blank (piece.takeWhile Text.isBlank) := List.all_eq_true.mp List.all_takeWhile
  have trailing : Blank ((piece.dropWhile Text.isBlank).reverse.takeWhile Text.isBlank) :=
    List.all_eq_true.mp List.all_takeWhile
  refine ⟨_, _, leading, fun char member => trailing char (List.mem_reverse.mp member), ?_⟩
  unfold Text.trimChars
  rw [List.append_assoc, ← List.reverse_append, List.takeWhile_append_dropWhile,
    List.reverse_reverse, List.takeWhile_append_dropWhile]

theorem readPiece_eq_ok_iff {piece : List Char} {literal : Literal} :
    readPiece piece = .ok literal ↔ Padded piece literal := by
  have read : readPiece piece = .ok literal ↔ Spells (Text.trimChars piece) literal := by
    rw [← literal?_eq_some_iff]
    unfold readPiece
    simp only
    cases literal? (Text.trimChars piece) <;> simp
  rw [read]
  constructor
  · intro spells
    obtain ⟨before, after, blankBefore, blankAfter, whole⟩ := exists_trimmed piece
    rw [← whole]
    exact .intro blankBefore spells blankAfter
  · intro padded
    cases padded with
    | intro blankBefore spells blankAfter =>
        rwa [trimChars_padded blankBefore spells blankAfter]

/-! ## Whole texts -/

theorem pieces_eq_splitOn (chars : List Char) : pieces chars = chars.splitOn '&' := by
  induction chars with
  | nil => rfl
  | cons char rest ih =>
      have occupied : pieces rest ≠ [] := ih ▸ List.splitOn_ne_nil '&' rest
      rw [List.splitOn_cons_eq_if_modifyHead, ← ih]
      by_cases same : char = '&'
      · rw [same]
        rfl
      · rw [if_neg (by simpa using same), pieces.eq_3 char rest same]
        cases parts : pieces rest with
        | nil => exact absurd parts occupied
        | cons piece others => rfl

private theorem Spells.not_blank {token : List Char} {literal : Literal}
    (spells : Spells token literal) : ¬Blank token := by
  intro blank
  cases spells with
  | positive named =>
      obtain ⟨char, member⟩ := List.exists_mem_of_ne_nil _ named.ne_nil
      exact not_isBlank_of_mem named member (blank char member)
  | negative => exact absurd (blank '-' (.head _)) (by decide)

private theorem Spells.separator_not_mem {token : List Char} {literal : Literal}
    (spells : Spells token literal) : '&' ∉ token := by
  have inName : ∀ {name : List Char}, Named name → '&' ∉ name := fun named member =>
    absurd (named.forall_mem '&' member) (by decide)
  cases spells with
  | positive named => exact inName named
  | negative blank named =>
      intro member
      rcases List.mem_cons.mp member with isSign | behind
      · exact absurd isSign (by decide)
      · rcases List.mem_append.mp behind with inGap | inRest
        · exact absurd (blank '&' inGap) (by decide)
        · exact inName named inRest

private theorem Padded.separator_not_mem {piece : List Char} {literal : Literal}
    (padded : Padded piece literal) : '&' ∉ piece := by
  intro member
  cases padded with
  | intro blankBefore spells blankAfter =>
      rcases List.mem_append.mp member with inFront | inAfter
      · rcases List.mem_append.mp inFront with inBefore | inToken
        · exact absurd (blankBefore '&' inBefore) (by decide)
        · exact spells.separator_not_mem inToken
      · exact absurd (blankAfter '&' inAfter) (by decide)

/-- A text is read piece by piece; a blank text has one piece, which spells nothing. -/
theorem parse_eq_ok_iff {text : String} {literals : List Literal} :
    parse text = .ok literals ↔ List.Forall₂ Padded (text.toList.splitOn '&') literals := by
  unfold parse
  split
  · rename_i blank
    have blank : Blank text.toList := List.all_eq_true.mp blank
    have whole : (['&'].intercalate [text.toList]).splitOn '&' = [text.toList] := by
      refine List.splitOn_intercalate '&' (List.forall_mem_singleton.mpr fun member => ?_)
        (List.cons_ne_nil _ _)
      exact absurd (blank '&' member) (by decide)
    rw [List.intercalate_singleton] at whole
    rw [whole]
    refine iff_of_false nofun fun related => ?_
    obtain ⟨_, _, padded, _⟩ := List.forall₂_cons_left_iff.mp related
    generalize text.toList = piece at blank padded
    cases padded with
    | intro _ spells _ =>
        exact spells.not_blank fun char member =>
          blank char (List.mem_append_left _ (List.mem_append_right _ member))
  · rw [mapM_eq_ok_iff, pieces_eq_splitOn]
    simp only [readPiece_eq_ok_iff]

/-! ## Printing -/

/-- A literal with the blanks that are written around it and behind its sign. -/
structure Spaced where
  literal : Literal
  before : String
  gap : String
  after : String

def Spaced.text (spaced : Spaced) : String :=
  spaced.before ++ (if spaced.literal.phase then "" else "-" ++ spaced.gap) ++
    spaced.literal.name ++ spaced.after

structure Spaced.WellFormed (spaced : Spaced) : Prop where
  named : Named spaced.literal.name.toList
  before : Text.isBlankText spaced.before = true
  gap : Text.isBlankText spaced.gap = true
  after : Text.isBlankText spaced.after = true

def print (conjunction : List Spaced) : String :=
  "&".intercalate (conjunction.map Spaced.text)

theorem Spaced.WellFormed.padded {spaced : Spaced} (wellFormed : spaced.WellFormed) :
    Padded spaced.text.toList spaced.literal := by
  obtain ⟨⟨name, phase⟩, before, gap, after⟩ := spaced
  obtain ⟨named, blankBefore, blankGap, blankAfter⟩ := wellFormed
  have blankBefore : Blank before.toList := List.all_eq_true.mp blankBefore
  have blankAfter : Blank after.toList := List.all_eq_true.mp blankAfter
  have spells : Spells ((if phase then "" else "-" ++ gap) ++ name).toList ⟨name, phase⟩ := by
    cases phase with
    | true =>
        have spells := Spells.positive named
        rw [String.ofList_toList] at spells
        simpa using spells
    | false =>
        have spells := Spells.negative (List.all_eq_true.mp blankGap) named
        rw [String.ofList_toList] at spells
        simpa using spells
  have padded := Padded.intro blankBefore spells blankAfter
  simpa [Spaced.text] using padded

/-- What is printed is read back. -/
theorem parse_print {conjunction : List Spaced} (occupied : conjunction ≠ [])
    (wellFormed : ∀ spaced ∈ conjunction, spaced.WellFormed) :
    parse (print conjunction) = .ok (conjunction.map (·.literal)) := by
  have pieces : (print conjunction).toList.splitOn '&' =
      conjunction.map fun spaced => spaced.text.toList := by
    unfold print
    rw [String.toList_intercalate, List.map_map]
    refine List.splitOn_intercalate '&' (List.forall_mem_map.mpr fun spaced member => ?_)
      (mt List.map_eq_nil_iff.mp occupied)
    exact (wellFormed spaced member).padded.separator_not_mem
  rw [parse_eq_ok_iff, pieces, List.forall₂_map_left_iff, List.forall₂_map_right_iff]
  exact List.forall₂_same.mpr fun spaced member => (wellFormed spaced member).padded

end Constraint

/-- The constraints are the texts whose pieces all spell a literal, and printed conjunctions are
among them. A constraint on active features has a formula, which holds exactly if all its literals
do. -/
theorem constraints_are_conjunctions :
    (∀ text literals, Constraint.parse text = .ok literals ↔
      List.Forall₂ Constraint.Padded (text.toList.splitOn '&') literals) ∧
    (∀ conjunction : List Constraint.Spaced, conjunction ≠ [] →
      (∀ spaced ∈ conjunction, spaced.WellFormed) →
      Constraint.parse (Constraint.print conjunction) = .ok (conjunction.map (·.literal))) ∧
    ∀ (activation : Activation) (text : String),
      ((∃ formula, activation.theory.interpret text = .ok formula) ↔
        ∃ literals, Constraint.parse text = .ok literals ∧
          ∀ literal ∈ literals, ∃ feature ∈ activation.features, feature.code = literal.name) ∧
      ∀ literals formula, Constraint.parse text = .ok literals →
        activation.theory.interpret text = .ok formula →
          ∀ valuation, formula.eval valuation = true ↔
            ∀ literal ∈ literals, valuation literal.name = literal.phase := by
  refine ⟨fun _ _ => Constraint.parse_eq_ok_iff, fun _ => Constraint.parse_print,
    fun activation text => ⟨?_, ?_⟩⟩
  · have named : ∀ name, name ∈ activation.theory.codes ↔
        ∃ feature ∈ activation.features, feature.code = name :=
      fun _ => Activation.mem_codes_iff
    simp only [Theory.interpret_eq_ok_iff, exists_and_left, exists_eq', and_true, named]
  · intro literals formula parsed interpreted valuation
    obtain ⟨_, rfl⟩ := Theory.interpret_eq_ok_iff.mp interpreted
    rw [Constraint.eval_formula, Constraint.literals_of_parse parsed]

namespace Sample

def spacedConjunction : List Constraint.Spaced :=
  [⟨⟨"A", true⟩, " ", "", " "⟩, ⟨⟨"b-2", false⟩, "\t", " ", ""⟩]

def bothActive : Activation := ⟨[⟨1, "A", []⟩, ⟨2, "b-2", []⟩], []⟩

end Sample

theorem constraints_are_conjunctions_sample :
    Constraint.print Sample.spacedConjunction = " A &\t- b-2" ∧
    Constraint.parse " A &\t- b-2" = .ok [⟨"A", true⟩, ⟨"b-2", false⟩] ∧
    ∃ formula, Sample.bothActive.theory.interpret " A &\t- b-2" = .ok formula ∧
      formula.eval (.ofTrue ["A"]) = true := by
  obtain ⟨_, readBack, interpreted⟩ := constraints_are_conjunctions
  have printed : Constraint.print Sample.spacedConjunction = " A &\t- b-2" := by decide
  have wellFormed : ∀ spaced ∈ Sample.spacedConjunction, spaced.WellFormed := by
    intro spaced member
    rcases List.mem_cons.mp member with rfl | inRest
    · exact ⟨(Constraint.isName_iff _).mp rfl, rfl, rfl, rfl⟩
    · obtain rfl := List.mem_singleton.mp inRest
      exact ⟨(Constraint.isName_iff _).mp rfl, rfl, rfl, rfl⟩
  have parsed := readBack Sample.spacedConjunction (List.cons_ne_nil _ _) wellFormed
  rw [printed] at parsed
  obtain ⟨succeeds, means⟩ := interpreted Sample.bothActive " A &\t- b-2"
  obtain ⟨formula, made⟩ := succeeds.mpr ⟨_, parsed, by decide⟩
  exact ⟨printed, parsed, formula, made, (means _ formula parsed made _).mpr (by decide)⟩

end RuleSlicing
