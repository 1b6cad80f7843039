import RuleSlicing.Bounded
import RuleSlicing.Text.Digits

/-!
# Calendar dates

The proleptic Gregorian calendar: a date is the number of its day, counted from
the first of March of the year 0, so that the leap day ends a counting year.
`Civil.dayNumber` and `Civil.ofDayNumber` pass between day numbers and year,
month and day. A date is written as year, month and day with hyphens, and only
years of four digits without a sign are read.
-/

set_option autoImplicit false

namespace RuleSlicing

/-! ## Year, month and day -/

/-- A day of the calendar by year, month and day of the month. -/
structure Civil where
  year : Int
  month : Nat
  day : Nat
deriving DecidableEq

namespace Civil

def isLeapYear (year : Int) : Bool :=
  year % 4 = 0 && (year % 100 ≠ 0 || year % 400 = 0)

def daysInMonth (year : Int) (month : Nat) : Nat :=
  if month = 2 then (if isLeapYear year then 29 else 28)
  else if month = 4 || month = 6 || month = 9 || month = 11 then 30
  else 31

def isValid (civil : Civil) : Bool :=
  1 ≤ civil.month && civil.month ≤ 12 && 1 ≤ civil.day &&
    civil.day ≤ daysInMonth civil.year civil.month

/-- The number of a day, where the first of March of the year 0 is day 0. The
counting year starts with March, hence January and February belong to the
counting year before. -/
def dayNumber (civil : Civil) : Int :=
  let year := if civil.month ≤ 2 then civil.year - 1 else civil.year
  let month : Int := if civil.month ≤ 2 then civil.month + 9 else civil.month - 3
  365 * year + year / 4 - year / 100 + year / 400 + (153 * month + 2) / 5 + civil.day - 1

/-- The day with a given number. The number is split into cycles of 400, 100, 4
and single counting years; the last century and the last year of a cycle are
the ones that a leap day makes longer. -/
def ofDayNumber (number : Int) : Civil :=
  let cycles := number / 146097
  let inCycle := number % 146097
  let centuries := if inCycle = 146096 then 3 else inCycle / 36524
  let inCentury := inCycle - centuries * 36524
  let quads := inCentury / 1461
  let inQuad := inCentury % 1461
  let years := if inQuad = 1460 then 3 else inQuad / 365
  let inYear := inQuad - years * 365
  let month := (5 * inYear + 2) / 153
  let day := inYear - (153 * month + 2) / 5 + 1
  let countingYear := 400 * cycles + 100 * centuries + 4 * quads + years
  if month < 10 then ⟨countingYear, (month + 3).toNat, day.toNat⟩
  else ⟨countingYear + 1, (month - 9).toNat, day.toNat⟩

private theorem days_before (cycles centuries quads years : Int)
    (centuriesInCycle : 0 ≤ centuries ∧ centuries ≤ 3) (quadsInCentury : 0 ≤ quads ∧ quads ≤ 24)
    (yearsInQuad : 0 ≤ years ∧ years ≤ 3) (year : Int)
    (parts : year = 400 * cycles + 100 * centuries + 4 * quads + years) :
    365 * year + year / 4 - year / 100 + year / 400 =
      146097 * cycles + 36524 * centuries + 1461 * quads + 365 * years := by
  have byFour : year / 4 = 100 * cycles + 25 * centuries + quads := by omega
  have byHundred : year / 100 = 4 * cycles + centuries := by omega
  have byFourHundred : year / 400 = cycles := by omega
  rw [byFour, byHundred, byFourHundred, parts]
  omega

theorem dayNumber_ofDayNumber (number : Int) : dayNumber (ofDayNumber number) = number := by
  unfold ofDayNumber
  extract_lets cycles inCycle centuries inCentury quads inQuad years inYear month day year
  have centuriesInCycle : 0 ≤ centuries ∧ centuries ≤ 3 := by
    simp only [centuries]
    split <;> omega
  have century : 0 ≤ inCentury ∧ inCentury ≤ 36524 := by
    simp only [inCentury, centuries]
    split <;> omega
  have quadsInCentury : 0 ≤ quads ∧ quads ≤ 24 := by omega
  have yearsInQuad : 0 ≤ years ∧ years ≤ 3 := by
    simp only [years]
    split <;> omega
  have countingYear : 0 ≤ inYear ∧ inYear ≤ 365 := by
    simp only [inYear, years]
    split <;> omega
  have monthAndDay : 0 ≤ month ∧ month ≤ 11 ∧ 1 ≤ day := by omega
  have before := days_before cycles centuries quads years centuriesInCycle quadsInCentury
    yearsInQuad year rfl
  have total : number = 146097 * cycles + 36524 * centuries + 1461 * quads + 365 * years
      + (153 * month + 2) / 5 + day - 1 := by omega
  clear_value year month day
  split
  · have late : ¬ (month + 3).toNat ≤ 2 := by omega
    have sameMonth : ((month + 3).toNat : Int) - 3 = month := by omega
    have sameDay : (day.toNat : Int) = day := by omega
    simp only [dayNumber, if_neg late]
    rw [sameMonth, sameDay, before, total]
  · have early : (month - 9).toNat ≤ 2 := by omega
    have sameMonth : ((month - 9).toNat : Int) + 9 = month := by omega
    have sameDay : (day.toNat : Int) = day := by omega
    simp only [dayNumber, if_pos early, Int.add_sub_cancel]
    rw [sameMonth, sameDay, before, total]

/-- Year, month and day with hyphens. Years from 0 to 9999 have four digits; any
other year has a sign and at least four digits. -/
def render (civil : Civil) : String :=
  let year :=
    if 0 ≤ civil.year ∧ civil.year ≤ 9999 then
      String.ofList (Text.padded 4 civil.year.toNat)
    else
      let digits := toString civil.year.natAbs
      (if civil.year < 0 then "-" else "+")
        ++ String.ofList (List.replicate (4 - digits.length) '0') ++ digits
  year ++ "-" ++ String.ofList (Text.padded 2 civil.month) ++ "-"
    ++ String.ofList (Text.padded 2 civil.day)

/-- The day of a text of four, two and two digits with hyphens between them. -/
def parse? (text : String) : Option Civil :=
  match text.toList with
  | [y₁, y₂, y₃, y₄, '-', m₁, m₂, '-', d₁, d₂] => do
      let year ← Text.readDigits [y₁, y₂, y₃, y₄]
      let month ← Text.readDigits [m₁, m₂]
      let day ← Text.readDigits [d₁, d₂]
      let civil : Civil := ⟨year, month, day⟩
      if civil.isValid then some civil else none
  | _ => none

end Civil

/-! ## Dates -/

/-- A date of the years -262143 to 262142, as the number of its day. -/
abbrev Date : Type := Bounded (-95745824) 95745704

namespace Date

def civil (date : Date) : Civil := Civil.ofDayNumber date.val

def render (date : Date) : String := date.civil.render

def parse? (text : String) : Option Date :=
  (Civil.parse? text).bind fun civil => Bounded.ofInt? _ _ civil.dayNumber

end Date

end RuleSlicing
