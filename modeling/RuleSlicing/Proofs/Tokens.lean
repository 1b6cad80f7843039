import Mathlib.Data.Nat.Digits.Defs
import RuleSlicing.Json.Printer
import RuleSlicing.Json.Reader

/-!
# Tokens of printed JSON texts

What is printed of a string or a number is read as one token, whatever follows a string, and
whatever follows a number that does not continue it.
-/

set_option autoImplicit false

namespace RuleSlicing

/-- An integer as a literal, digit by digit. -/
def Decimal.Literal.ofInt (value : Int) : Literal where
  negative := value < 0
  whole := (Nat.toDigits 10 value.natAbs).map fun char => char.toNat - '0'.toNat
  fraction := []
  exponent := none

namespace Json

/-! ## Strings -/

theorem hexDigit?_digitChar : ∀ value < 16, hexDigit? (Nat.digitChar value) = some value := by
  decide

/-- A place in front of others of a string literal. -/
def StringUnit.before (unit : StringUnit) (read : List StringUnit × List Char) :
    List StringUnit × List Char :=
  (unit :: read.1, read.2)

theorem stringUnits_shortEscape {letter value : Char} (short : shortEscape? letter = some value)
    (rest : List Char) :
    stringUnits ('\\' :: letter :: rest) =
      (stringUnits rest).map (StringUnit.char value).before := by
  rw [stringUnits.eq_def]
  split
  case h_3 a b c d after same =>
    cases same
    cases short
  case h_4 char after other same =>
    cases same
    rw [short]
    cases stringUnits rest <;> rfl
  case h_5 char after noQuote notUnicode noEscape same =>
    cases same
    exact absurd rfl (noEscape letter rest rfl)
  all_goals simp_all

theorem stringUnits_control {code : Nat} (below : code < 0x20) (rest : List Char) :
    stringUnits ('\\' :: 'u' :: '0' :: '0' :: Nat.digitChar (code / 16) ::
        Nat.digitChar (code % 16) :: rest) =
      (stringUnits rest).map (StringUnit.escaped code).before := by
  have zero : hexDigit? '0' = some 0 := rfl
  have high := hexDigit?_digitChar (code / 16) (by omega)
  have low := hexDigit?_digitChar (code % 16) (by omega)
  have joined : ((0 * 16 + 0) * 16 + code / 16) * 16 + code % 16 = code := by omega
  rw [stringUnits, zero, high, low]
  cases stringUnits rest with
  | none => rfl
  | some read => exact congrArg (fun code => some ((StringUnit.escaped code).before read)) joined

theorem stringUnits_plain {char : Char} (noQuote : char ≠ '"') (noEscape : char ≠ '\\')
    (noControl : ¬ char.toNat < 0x20) (rest : List Char) :
    stringUnits (char :: rest) = (stringUnits rest).map (StringUnit.char char).before := by
  rw [stringUnits.eq_def]
  split
  case h_5 other after _ _ _ same =>
    cases same
    simp only [noControl, noEscape, decide_false, Bool.or_self, Bool.false_eq_true, if_false]
    cases stringUnits rest <;> rfl
  all_goals simp_all

/-- Each character is written as one place, which denotes it. -/
theorem exists_unit (char : Char) :
    ∃ unit : StringUnit,
      (∀ rest, stringUnits (escapeChar char ++ rest) = (stringUnits rest).map unit.before) ∧
      ∀ units, unitChars (unit :: units) = (unitChars units).map (char :: ·) := by
  unfold escapeChar
  split
  case h_8 noQuote noEscape _ _ _ _ _ =>
    split
    · rename_i control
      -- The code is no surrogate, so it does not look for a second half.
      refine ⟨.escaped char.toNat, stringUnits_control control, fun units => ?_⟩
      have noHigh : ¬ (0xD800 ≤ char.toNat ∧ char.toNat < 0xDC00) := by omega
      have noLow : ¬ (0xDC00 ≤ char.toNat ∧ char.toNat < 0xE000) := by omega
      rw [unitChars.eq_def]
      simp only
      rw [if_neg noHigh, if_neg noLow, Char.ofNat_toNat]
    · rename_i noControl
      exact ⟨.char char, stringUnits_plain noQuote noEscape noControl, fun units => rfl⟩
  all_goals exact ⟨.char _, stringUnits_shortEscape rfl, fun units => rfl⟩

theorem exists_units (chars rest : List Char) :
    ∃ units, stringUnits (chars.flatMap escapeChar ++ '"' :: rest) = some (units, rest) ∧
      unitChars units = some chars := by
  induction chars with
  | nil => exact ⟨[], by rw [List.flatMap_nil, List.nil_append, stringUnits], rfl⟩
  | cons char chars ih =>
      obtain ⟨units, read, meant⟩ := ih
      obtain ⟨unit, readsUnit, meansChar⟩ := exists_unit char
      refine ⟨unit :: units, ?_, ?_⟩
      · rw [List.flatMap_cons, List.append_assoc, readsUnit, read]
        rfl
      · rw [meansChar, meant]
        rfl

theorem nextToken_quote (text : String) (rest : List Char) :
    nextToken ((quote text).toList ++ rest) = some (.scalar (.string (some text)), rest) := by
  obtain ⟨units, read, meant⟩ := exists_units text.toList rest
  have layout : (quote text).toList ++ rest =
      '"' :: (text.toList.flatMap escapeChar ++ '"' :: rest) := by
    simp [quote]
  rw [layout, nextToken]
  simp only [read, meant, Option.map_some, String.ofList_toList]

/-! ## Numbers -/

/-- A text that does not continue a number. -/
def EndsNumber (rest : List Char) : Prop :=
  ∀ char ∈ rest.head?, Text.digit? char = none ∧ char ≠ '.' ∧ char ≠ 'e' ∧ char ≠ 'E'

/-- What a reader takes from a text it takes also if the text goes on. -/
def Extends {Value : Type} (reader : List Char → Option (Value × List Char)) (rest : List Char) :
    Prop :=
  ∀ {chars value after}, reader chars = some (value, after) →
    reader (chars ++ rest) = some (value, after ++ rest)

section

variable {rest : List Char} (ends : EndsNumber rest)

include ends

theorem leadingDigits_append (chars : List Char) :
    leadingDigits (chars ++ rest) = ((leadingDigits chars).1, (leadingDigits chars).2 ++ rest) := by
  induction chars with
  | nil =>
      cases rest with
      | nil => rfl
      | cons char rest => simp only [List.nil_append, leadingDigits, (ends char rfl).1]
  | cons char chars ih =>
      simp only [List.cons_append, leadingDigits]
      cases Text.digit? char with
      | none => rfl
      | some digit => simp only [ih]

theorem extends_leadingDigits : Extends (fun chars =>
    if (leadingDigits chars).1.isEmpty then none else some (leadingDigits chars)) rest := by
  intro chars digits after read
  dsimp only at read ⊢
  rw [leadingDigits_append ends]
  split at read
  · cases read
  · rename_i occupied
    rw [if_neg occupied, Option.some.inj read]

theorem extends_wholePart : Extends wholePart rest := by
  intro chars digits after read
  cases chars with
  | nil => cases read
  | cons char chars =>
      by_cases zero : char = '0'
      · subst zero
        cases read
        rfl
      · have noZero : ∀ more after, char :: more = '0' :: after → False :=
          fun _ _ same => zero (List.cons.inj same).1
        rw [wholePart.eq_2 _ (noZero _)] at read
        rw [List.cons_append, wholePart.eq_2 _ (noZero _)]
        exact extends_leadingDigits ends read

theorem extends_fractionPart : Extends fractionPart rest := by
  intro chars digits after read
  have plain : ∀ {chars : List Char}, chars.head? ≠ some '.' →
      fractionPart chars = some ([], chars) := by
    intro chars noPoint
    rw [fractionPart.eq_2]
    rintro more rfl
    exact noPoint rfl
  cases chars with
  | nil =>
      cases read
      exact plain fun point => (ends '.' point).2.1 rfl
  | cons char chars =>
      by_cases point : char = '.'
      · subst point
        exact extends_leadingDigits ends read
      · have noPoint : ∀ more, (char :: more).head? ≠ some '.' :=
          fun _ same => point (Option.some.inj same)
        rw [plain (noPoint chars)] at read
        cases read
        exact plain (noPoint _)

theorem extends_exponentDigits (negative : Bool) : Extends (exponentDigits negative) rest := by
  intro chars exponent after read
  unfold exponentDigits at read ⊢
  rw [leadingDigits_append ends]
  split at read
  · cases read
  · rename_i occupied
    cases read
    exact if_neg occupied

theorem extends_signedExponent : Extends signedExponent rest := by
  intro chars exponent after read
  cases chars with
  | nil => cases read
  | cons char chars =>
      by_cases minus : char = '-'
      · subst minus
        exact extends_exponentDigits ends true read
      by_cases plus : char = '+'
      · subst plus
        exact extends_exponentDigits ends false read
      have unsigned : ∀ more, signedExponent (char :: more) = exponentDigits false (char :: more) :=
        fun more => signedExponent.eq_3 _ (fun _ same => minus (List.cons.inj same).1)
          fun _ same => plus (List.cons.inj same).1
      rw [unsigned] at read
      rw [List.cons_append, unsigned]
      exact extends_exponentDigits ends false read

theorem extends_exponentPart : Extends exponentPart rest := by
  intro chars exponent after read
  have plain : ∀ {chars : List Char}, chars.head? ≠ some 'e' → chars.head? ≠ some 'E' →
      exponentPart chars = some (none, chars) := by
    intro chars noSmall noLarge
    rw [exponentPart.eq_3]
    · rintro more rfl
      exact noSmall rfl
    · rintro more rfl
      exact noLarge rfl
  cases chars with
  | nil =>
      cases read
      exact plain (fun small => (ends 'e' small).2.2.1 rfl) fun large => (ends 'E' large).2.2.2 rfl
  | cons char chars =>
      by_cases small : char = 'e'
      · subst small
        exact extends_signedExponent ends read
      by_cases large : char = 'E'
      · subst large
        exact extends_signedExponent ends read
      have noExponent : ∀ more, exponentPart (char :: more) = some (none, char :: more) :=
        fun more => plain (fun same => small (Option.some.inj same))
          fun same => large (Option.some.inj same)
      rw [noExponent] at read
      cases read
      exact noExponent _

theorem extends_unsignedNumber (negative : Bool) : Extends (unsignedNumber negative) rest := by
  intro chars literal after read
  simp only [unsignedNumber, Option.bind_eq_bind, Option.bind_eq_some_iff, Option.pure_def,
    Option.some.injEq, Prod.mk.injEq, Prod.exists] at read ⊢
  obtain ⟨whole, _, readWhole, fraction, _, readFraction, exponent, _, readExponent, same, rfl⟩ :=
    read
  exact ⟨whole, _, extends_wholePart ends readWhole, fraction, _,
    extends_fractionPart ends readFraction, exponent, _, extends_exponentPart ends readExponent,
    same, rfl⟩

end

/-! ## Numbers as tokens -/

theorem exists_digit_of_unsignedNumber {negative : Bool} {chars : List Char}
    {read : Decimal.Literal × List Char} (found : unsignedNumber negative chars = some read) :
    ∃ char more digit, chars = char :: more ∧ Text.digit? char = some digit := by
  simp only [unsignedNumber, Option.bind_eq_bind, Option.bind_eq_some_iff] at found
  obtain ⟨_, readWhole, _⟩ := found
  cases chars with
  | nil => cases readWhole
  | cons char chars =>
      cases isDigit : Text.digit? char with
      | some digit => exact ⟨char, chars, digit, rfl, isDigit⟩
      | none =>
          have noZero : ∀ more, char :: chars = '0' :: more → False := by
            rintro more same
            rw [(List.cons.inj same).1] at isDigit
            cases isDigit
          rw [wholePart.eq_2 _ noZero, leadingDigits, isDigit] at readWhole
          cases readWhole

theorem nextToken_of_digit {char : Char} {digit : Nat} (isDigit : Text.digit? char = some digit)
    (chars : List Char) :
    nextToken (char :: chars) = (unsignedNumber false (char :: chars)).map fun read =>
      (.scalar (.number read.1), read.2) := by
  have different : ∀ other, Text.digit? other = none → char ≠ other := by
    rintro other noDigit rfl
    rw [noDigit] at isDigit
    cases isDigit
  rw [nextToken.eq_12]
  · cases unsignedNumber false (char :: chars) <;> rfl
  all_goals
    intros
    rename_i same
    exact different _ rfl (List.cons.inj same).1

theorem isFiller_eq_false {char : Char} {chars : List Char} {read : Token × List Char}
    (found : nextToken (char :: chars) = some read) : isFiller char = false := by
  rw [nextToken.eq_def] at found
  split at found
  case h_12 same =>
    split at found
    · rename_i readNumber
      obtain ⟨first, more, digit, sameChars, isDigit⟩ := exists_digit_of_unsignedNumber readNumber
      cases sameChars
      by_contra filler
      simp only [isFiller, Bool.not_eq_false, Bool.or_eq_true, decide_eq_true_eq] at filler
      obtain ((rfl | rfl) | rfl) | rfl := filler <;> cases isDigit
    · cases found
  all_goals
    rename_i same
    cases same
    rfl

/-- A number that is a text by itself is read as a token in front of whatever ends it. -/
theorem nextToken_number {chars rest : List Char} {literal : Decimal.Literal}
    (ends : EndsNumber rest) (read : nextToken chars = some (.scalar (.number literal), [])) :
    nextToken (chars ++ rest) = some (.scalar (.number literal), rest) := by
  -- Only a text that begins with a minus or with a digit is a number.
  rw [nextToken.eq_def] at read
  split at read
  case h_10 => split at read <;> cases read
  case h_11 chars =>
    split at read
    · rename_i readNumber
      cases read
      rw [List.cons_append, nextToken.eq_11, extends_unsignedNumber ends true readNumber]
      rfl
    · cases read
  case h_12 chars _ _ _ _ _ _ _ _ _ _ _ =>
    split at read
    · rename_i readNumber
      obtain ⟨char, more, digit, rfl, isDigit⟩ := exists_digit_of_unsignedNumber readNumber
      cases read
      have readNumber := extends_unsignedNumber ends false readNumber
      rw [List.cons_append] at readNumber ⊢
      rw [nextToken_of_digit isDigit, readNumber]
      rfl
    · cases read
  all_goals cases read

/-! ## Integers -/

theorem digit?_of_isDigit {char : Char} (isDigit : char.isDigit = true) :
    Text.digit? char = some (char.toNat - '0'.toNat) := by
  rw [Char.isDigit, Bool.and_eq_true, decide_eq_true_eq, decide_eq_true_eq] at isDigit
  exact if_pos isDigit

theorem leadingDigits_of_isDigit {chars : List Char}
    (digits : ∀ char ∈ chars, char.isDigit = true) :
    leadingDigits chars = (chars.map fun char => char.toNat - '0'.toNat, []) := by
  induction chars with
  | nil => rfl
  | cons char chars ih =>
      rw [leadingDigits, digit?_of_isDigit (digits char List.mem_cons_self),
        ih fun other member => digits other (List.mem_cons_of_mem _ member)]
      rfl

theorem eq_zero_of_toDigits {number : Nat} {more : List Char}
    (leading : Nat.toDigits 10 number = '0' :: more) : number = 0 := by
  induction number using Nat.strong_induction_on generalizing more with
  | _ number ih =>
      rw [Nat.toDigits_eq_if (by decide)] at leading
      split at leading
      · rename_i below
        have single : ∀ digit < 10, Nat.digitChar digit = '0' → digit = 0 := by decide
        exact single number below (List.cons.inj leading).1
      · rename_i above
        -- The leading digit is also that of the number without its last digit.
        obtain ⟨char, chars, higher⟩ :=
          List.exists_cons_of_ne_nil (Nat.toDigits_ne_nil (n := number / 10) (b := 10))
        rw [higher] at leading
        obtain rfl := (List.cons.inj leading).1
        have := ih (number / 10) (by omega) higher
        omega

theorem unsignedNumber_toDigits (negative : Bool) (number : Nat) :
    unsignedNumber negative (Nat.toDigits 10 number) =
      some (⟨negative, (Nat.toDigits 10 number).map fun char => char.toNat - '0'.toNat, [], none⟩,
        []) := by
  have digits := leadingDigits_of_isDigit fun _ member =>
    Nat.isDigit_of_mem_toDigits (n := number) (by decide) (Nat.le_refl 10) member
  have whole : wholePart (Nat.toDigits 10 number) =
      some ((Nat.toDigits 10 number).map fun char => char.toNat - '0'.toNat, []) := by
    by_cases zero : number = 0
    · subst zero
      rfl
    · rw [wholePart.eq_2 _ fun _ leading => zero (eq_zero_of_toDigits leading), digits]
      simp [Nat.toDigits_ne_nil]
  rw [unsignedNumber, whole]
  rfl

theorem natOfDigits_toDigits (number : Nat) :
    Decimal.Literal.natOfDigits
      ((Nat.toDigits 10 number).map fun char => char.toNat - '0'.toNat) = number := by
  unfold Decimal.Literal.natOfDigits
  rw [List.foldl_map]
  refine Eq.trans ?_ (Nat.ofDigitChars_ten_toDigits (n := number))
  rw [Nat.ofDigitChars_eq_foldl]
  simp only [Nat.mul_comm]

theorem nextToken_integer (value : Int) :
    nextToken (compact (.integer value)).toList =
      some (.scalar (.number (.ofInt value)), []) := by
  rw [compact, Int.toString_eq_repr, Int.repr_eq_if]
  split
  · rename_i natural
    obtain ⟨number, rfl⟩ := Int.eq_ofNat_of_zero_le natural
    have read := unsignedNumber_toDigits false number
    obtain ⟨char, more, digit, same, isDigit⟩ := exists_digit_of_unsignedNumber read
    rw [Nat.repr_eq_ofList_toDigits, String.toList_ofList, Int.toNat_natCast]
    rw [same] at read ⊢
    rw [nextToken_of_digit isDigit, read, ← same]
    rfl
  · rename_i negative
    have text : ("-" ++ (-value).toNat.repr).toList = '-' :: Nat.toDigits 10 value.natAbs := by
      have magnitude : (-value).toNat = value.natAbs := by omega
      simp [Nat.repr_eq_ofList_toDigits, magnitude]
    have sign : decide (value < 0) = true := decide_eq_true (by omega)
    rw [text, nextToken.eq_11, unsignedNumber_toDigits, Decimal.Literal.ofInt, sign]

theorem toInt?_ofInt (value : Int) : (Decimal.Literal.ofInt value).toInt? = some value := by
  unfold Decimal.Literal.toInt? Decimal.Literal.ofInt
  simp only [natOfDigits_toDigits, List.isEmpty_nil, Option.isNone_none, Bool.and_self, if_true,
    decide_eq_true_eq]
  split
  · rename_i negative
    rw [if_neg (by omega)]
    exact congrArg some (by omega)
  · exact congrArg some (by omega)

theorem number?_ofInt {value : Int} (least : -9223372036854775808 ≤ value)
    (greatest : value < wordCount) : number? (.ofInt value) = some (.integer value) := by
  rw [number?, toInt?_ofInt]
  exact if_pos ⟨least, greatest⟩

end Json

end RuleSlicing
