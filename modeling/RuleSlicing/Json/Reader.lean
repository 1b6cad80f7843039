import RuleSlicing.Json.Written

/-!
# Reading JSON texts

A text is cut into tokens, and the tokens drive a machine with a stack of the
arrays and objects that are still open. Each token is taken once, so reading is
a fold over the tokens, however deep the text nests.
-/

set_option autoImplicit false

namespace RuleSlicing.Json

inductive Token where
  | openArray
  | closeArray
  | openObject
  | closeObject
  | comma
  | colon
  | scalar (value : Written)

/-! ## Strings -/

/-- One place of a string literal: a character, or an escaped unit of 16 bits. -/
inductive StringUnit where
  | char (value : Char)
  | escaped (code : Nat)

def hexDigit? (char : Char) : Option Nat :=
  if '0' ≤ char ∧ char ≤ '9' then some (char.toNat - 48)
  else if 'a' ≤ char ∧ char ≤ 'f' then some (char.toNat - 87)
  else if 'A' ≤ char ∧ char ≤ 'F' then some (char.toNat - 55)
  else none

def shortEscape? : Char → Option Char
  | '"' => some '"'
  | '\\' => some '\\'
  | '/' => some '/'
  | 'b' => some '\x08'
  | 'f' => some '\x0c'
  | 'n' => some '\n'
  | 'r' => some '\r'
  | 't' => some '\t'
  | _ => none

/-- The places of a string literal up to its closing quote, and the text behind
it. Control characters have to be escaped. -/
def stringUnits : List Char → Option (List StringUnit × List Char)
  | [] => none
  | '"' :: rest => some ([], rest)
  | '\\' :: 'u' :: a :: b :: c :: d :: rest => do
      let a ← hexDigit? a
      let b ← hexDigit? b
      let c ← hexDigit? c
      let d ← hexDigit? d
      let (units, after) ← stringUnits rest
      return (.escaped (((a * 16 + b) * 16 + c) * 16 + d) :: units, after)
  | '\\' :: char :: rest => do
      let value ← shortEscape? char
      let (units, after) ← stringUnits rest
      return (.char value :: units, after)
  | char :: rest =>
      if char.toNat < 0x20 || char = '\\' then none
      else do
        let (units, after) ← stringUnits rest
        return (.char char :: units, after)

/-- The characters of a string literal. Two escaped surrogates, a high one and a
low one, denote one character together; any other surrogate denotes none. -/
def unitChars : List StringUnit → Option (List Char)
  | [] => some []
  | .char value :: rest => (unitChars rest).map (value :: ·)
  | .escaped code :: rest =>
      if 0xD800 ≤ code ∧ code < 0xDC00 then
        match rest with
        | .escaped low :: after =>
            if 0xDC00 ≤ low ∧ low < 0xE000 then
              let value := Char.ofNat (0x10000 + (code - 0xD800) * 0x400 + (low - 0xDC00))
              (unitChars after).map (value :: ·)
            else none
        | _ => none
      else if 0xDC00 ≤ code ∧ code < 0xE000 then none
      else (unitChars rest).map (Char.ofNat code :: ·)

theorem length_lt_of_stringUnits {chars after : List Char} {units : List StringUnit}
    (read : stringUnits chars = some (units, after)) : after.length < chars.length := by
  fun_induction stringUnits chars generalizing units after with
  | case1 => simp at read
  | case2 rest =>
      simp only [Option.some.injEq, Prod.mk.injEq] at read
      simp [read.2]
  | case3 a b c d rest ih =>
      simp only [Option.bind_eq_bind, Option.bind_eq_some_iff, Option.pure_def,
        Option.some.injEq, Prod.mk.injEq, Prod.exists] at read
      obtain ⟨_, _, _, _, _, _, _, _, units', after', inner, _, same⟩ := read
      have shorter := ih inner
      subst same
      simp only [List.length_cons]
      omega
  | case4 char rest _ ih =>
      simp only [Option.bind_eq_bind, Option.bind_eq_some_iff, Option.pure_def,
        Option.some.injEq, Prod.mk.injEq, Prod.exists] at read
      obtain ⟨_, _, units', after', inner, _, same⟩ := read
      have shorter := ih inner
      subst same
      simp only [List.length_cons]
      omega
  | case5 => simp at read
  | case6 char rest _ _ _ _ ih =>
      simp only [Option.bind_eq_bind, Option.bind_eq_some_iff, Option.pure_def,
        Option.some.injEq, Prod.mk.injEq, Prod.exists] at read
      obtain ⟨units', after', inner, _, same⟩ := read
      have shorter := ih inner
      subst same
      simp only [List.length_cons]
      omega

/-! ## Numbers -/

def leadingDigits : List Char → List Nat × List Char
  | [] => ([], [])
  | char :: rest =>
      match Text.digit? char with
      | some digit => ((digit :: (leadingDigits rest).1), (leadingDigits rest).2)
      | none => ([], char :: rest)

/-- The fraction of a number, if there is one. A point needs a digit after it. -/
def fractionPart : List Char → Option (List Nat × List Char)
  | '.' :: rest =>
      if (leadingDigits rest).1.isEmpty then none else some (leadingDigits rest)
  | chars => some ([], chars)

def exponentDigits (negative : Bool) (chars : List Char) :
    Option (Option (Bool × List Nat) × List Char) :=
  if (leadingDigits chars).1.isEmpty then none
  else some (some (negative, (leadingDigits chars).1), (leadingDigits chars).2)

def signedExponent : List Char → Option (Option (Bool × List Nat) × List Char)
  | '-' :: rest => exponentDigits true rest
  | '+' :: rest => exponentDigits false rest
  | chars => exponentDigits false chars

def exponentPart : List Char → Option (Option (Bool × List Nat) × List Char)
  | 'e' :: rest => signedExponent rest
  | 'E' :: rest => signedExponent rest
  | chars => some (none, chars)

/-- The whole part of a number: a zero alone, or digits that begin with no zero. -/
def wholePart : List Char → Option (List Nat × List Char)
  | '0' :: rest => some ([0], rest)
  | chars =>
      if (leadingDigits chars).1.isEmpty then none else some (leadingDigits chars)

def unsignedNumber (negative : Bool) (chars : List Char) :
    Option (Decimal.Literal × List Char) := do
  let (whole, chars) ← wholePart chars
  let (fraction, chars) ← fractionPart chars
  let (exponent, chars) ← exponentPart chars
  return (⟨negative, whole, fraction, exponent⟩, chars)

theorem length_leadingDigits (chars : List Char) :
    (leadingDigits chars).1.length + (leadingDigits chars).2.length = chars.length := by
  induction chars with
  | nil => rfl
  | cons char rest ih =>
      unfold leadingDigits
      cases Text.digit? char with
      | none => simp
      | some digit => simp only [List.length_cons]; omega

theorem length_lt_of_wholePart {chars after : List Char} {digits : List Nat}
    (read : wholePart chars = some (digits, after)) : after.length < chars.length := by
  unfold wholePart at read
  split at read
  · simp only [Option.some.injEq, Prod.mk.injEq] at read
    simp [read.2]
  · split at read
    · simp at read
    · rename_i nonempty
      have total := length_leadingDigits chars
      rw [Option.some.inj read] at total nonempty
      have positive : 0 < digits.length := by
        cases digits with
        | nil => simp at nonempty
        | cons => simp
      simp only at total
      omega

theorem length_le_of_fractionPart {chars after : List Char} {digits : List Nat}
    (read : fractionPart chars = some (digits, after)) : after.length ≤ chars.length := by
  unfold fractionPart at read
  split at read
  · split at read
    · simp at read
    · rename_i rest _
      have total := length_leadingDigits rest
      rw [Option.some.inj read] at total
      simp only [List.length_cons] at total ⊢
      omega
  · simp only [Option.some.injEq, Prod.mk.injEq] at read
    simp [read.2]

theorem length_le_of_exponentDigits {negative : Bool} {chars after : List Char}
    {exponent : Option (Bool × List Nat)}
    (read : exponentDigits negative chars = some (exponent, after)) :
    after.length ≤ chars.length := by
  unfold exponentDigits at read
  split at read
  · simp at read
  · simp only [Option.some.injEq, Prod.mk.injEq] at read
    have total := length_leadingDigits chars
    rw [read.2] at total
    omega

theorem length_le_of_signedExponent {chars after : List Char}
    {exponent : Option (Bool × List Nat)}
    (read : signedExponent chars = some (exponent, after)) :
    after.length ≤ chars.length := by
  unfold signedExponent at read
  split at read
  · have shorter := length_le_of_exponentDigits read
    simp only [List.length_cons]
    omega
  · have shorter := length_le_of_exponentDigits read
    simp only [List.length_cons]
    omega
  · exact length_le_of_exponentDigits read

theorem length_le_of_exponentPart {chars after : List Char}
    {exponent : Option (Bool × List Nat)}
    (read : exponentPart chars = some (exponent, after)) :
    after.length ≤ chars.length := by
  unfold exponentPart at read
  split at read
  · have shorter := length_le_of_signedExponent read
    simp only [List.length_cons]
    omega
  · have shorter := length_le_of_signedExponent read
    simp only [List.length_cons]
    omega
  · simp only [Option.some.injEq, Prod.mk.injEq] at read
    simp [read.2]

theorem length_lt_of_unsignedNumber {negative : Bool} {chars after : List Char}
    {literal : Decimal.Literal}
    (read : unsignedNumber negative chars = some (literal, after)) :
    after.length < chars.length := by
  simp only [unsignedNumber, Option.bind_eq_bind, Option.bind_eq_some_iff, Option.pure_def,
    Option.some.injEq, Prod.mk.injEq, Prod.exists] at read
  obtain ⟨_, behindWhole, whole, _, behindFraction, fraction, _, behind, exponent, _, same⟩ :=
    read
  have first := length_lt_of_wholePart whole
  have second := length_le_of_fractionPart fraction
  have third := length_le_of_exponentPart exponent
  subst same
  omega

/-! ## Tokens -/

/-- The next token of a text that starts with no blank, and the text behind it. -/
def nextToken : List Char → Option (Token × List Char)
  | '[' :: rest => some (.openArray, rest)
  | ']' :: rest => some (.closeArray, rest)
  | '\x7b' :: rest => some (.openObject, rest)
  | '\x7d' :: rest => some (.closeObject, rest)
  | ',' :: rest => some (.comma, rest)
  | ':' :: rest => some (.colon, rest)
  | 'n' :: 'u' :: 'l' :: 'l' :: rest => some (.scalar .null, rest)
  | 't' :: 'r' :: 'u' :: 'e' :: rest => some (.scalar (.bool true), rest)
  | 'f' :: 'a' :: 'l' :: 's' :: 'e' :: rest => some (.scalar (.bool false), rest)
  | '"' :: rest =>
      match stringUnits rest with
      | some (units, after) =>
          some (.scalar (.string ((unitChars units).map String.ofList)), after)
      | none => none
  | '-' :: rest =>
      match unsignedNumber true rest with
      | some (literal, after) => some (.scalar (.number literal), after)
      | none => none
  | chars =>
      match unsignedNumber false chars with
      | some (literal, after) => some (.scalar (.number literal), after)
      | none => none

theorem length_lt_of_nextToken {chars after : List Char} {token : Token}
    (read : nextToken chars = some (token, after)) : after.length < chars.length := by
  unfold nextToken at read
  split at read
  case h_10 =>
    split at read
    · rename_i inner
      have shorter := length_lt_of_stringUnits inner
      simp only [Option.some.injEq, Prod.mk.injEq] at read
      rw [← read.2]
      simp only [List.length_cons]
      omega
    · simp at read
  case h_11 =>
    split at read
    · rename_i inner
      have shorter := length_lt_of_unsignedNumber inner
      simp only [Option.some.injEq, Prod.mk.injEq] at read
      rw [← read.2]
      simp only [List.length_cons]
      omega
    · simp at read
  case h_12 =>
    split at read
    · rename_i inner
      have shorter := length_lt_of_unsignedNumber inner
      simp only [Option.some.injEq, Prod.mk.injEq] at read
      rw [← read.2]
      exact shorter
    · simp at read
  all_goals
    simp only [Option.some.injEq, Prod.mk.injEq] at read
    rw [← read.2]
    simp only [List.length_cons]
    omega

def isFiller (char : Char) : Bool :=
  char = ' ' || char = '\t' || char = '\n' || char = '\r'

def tokens : List Char → Option (List Token)
  | [] => some []
  | char :: rest =>
      if isFiller char then tokens rest
      else
        match read : nextToken (char :: rest) with
        | none => none
        | some (token, after) =>
            have : after.length < rest.length + 1 := length_lt_of_nextToken read
            (tokens after).map (token :: ·)
termination_by chars => chars.length

/-! ## The machine -/

/-- An array or object whose end is still to come, with its parts so far in
reverse order. An object with a pending key waits for the value of that key. -/
inductive OpenPart where
  | array (items : List Written)
  | object (members : List (Option String × Written))
  | member (members : List (Option String × Written)) (key : Option String)

inductive Expected where
  | value
  | valueOrEnd
  | key
  | keyOrEnd
  | colon
  | commaOrEnd
  | nothing (result : Written)

/-- The state of the machine: the open arrays and objects, the innermost first,
and what may come next. -/
structure ReaderState where
  openParts : List OpenPart
  expected : Expected

namespace ReaderState

def initial : ReaderState := ⟨[], .value⟩

/-- Hand a complete value to the innermost open array or object. -/
def deliver (value : Written) : List OpenPart → Option ReaderState
  | [] => some ⟨[], .nothing value⟩
  | .array items :: rest => some ⟨.array (value :: items) :: rest, .commaOrEnd⟩
  | .member members key :: rest => some ⟨.object ((key, value) :: members) :: rest, .commaOrEnd⟩
  | .object _ :: _ => none

/-- Take a token where a value may begin. -/
def beginValue (openParts : List OpenPart) : Token → Option ReaderState
  | .openArray => some ⟨.array [] :: openParts, .valueOrEnd⟩
  | .openObject => some ⟨.object [] :: openParts, .keyOrEnd⟩
  | .scalar value => deliver value openParts
  | _ => none

/-- Take a token where the innermost array or object may end. -/
def endPart : List OpenPart → Token → Option ReaderState
  | .array items :: rest, .closeArray => deliver (.array items.reverse) rest
  | .object members :: rest, .closeObject => deliver (.object members.reverse) rest
  | _, _ => none

/-- Take a token where a key has to come. -/
def takeKey : List OpenPart → Token → Option ReaderState
  | .object members :: rest, .scalar (.string key) => some ⟨.member members key :: rest, .colon⟩
  | _, _ => none

def step (state : ReaderState) (token : Token) : Option ReaderState :=
  match state.expected with
  | .value => beginValue state.openParts token
  | .valueOrEnd =>
      match token with
      | .closeArray => endPart state.openParts token
      | _ => beginValue state.openParts token
  | .key => takeKey state.openParts token
  | .keyOrEnd =>
      match token with
      | .closeObject => endPart state.openParts token
      | _ => takeKey state.openParts token
  | .colon =>
      match token with
      | .colon => some ⟨state.openParts, .value⟩
      | _ => none
  | .commaOrEnd =>
      match token, state.openParts with
      | .comma, .array _ :: _ => some ⟨state.openParts, .value⟩
      | .comma, .object _ :: _ => some ⟨state.openParts, .key⟩
      | _, _ => endPart state.openParts token
  | .nothing _ => none

/-- The value that has been read, if the text may end here. -/
def result? (state : ReaderState) : Option Written :=
  match state.expected with
  | .nothing result => some result
  | _ => none

end ReaderState

/-- The JSON text that a list of tokens makes up. -/
def Written.ofTokens? (tokens : List Token) : Option Written :=
  (tokens.foldlM ReaderState.step .initial).bind ReaderState.result?

def Written.read? (text : String) : Option Written :=
  (tokens text.toList).bind Written.ofTokens?

end RuleSlicing.Json
