import Mathlib

/-!
Owns: calendar dates of the proleptic Gregorian calendar, of any year, their `%Y-%m-%d` text, and
the relative-date windows of the filter language.
-/

namespace Clepsydra.Bases

/-! ### Dates -/

def isLeapYear (year : Int) : Bool := (year % 4 == 0 && year % 100 != 0) || year % 400 == 0

def daysInMonth (year : Int) (month : Nat) : Nat :=
  if month = 2 then (if isLeapYear year then 29 else 28)
  else if month = 4 ∨ month = 6 ∨ month = 9 ∨ month = 11 then 30
  else 31

theorem daysInMonth_pos (year : Int) (month : Nat) : 1 ≤ daysInMonth year month := by
  unfold daysInMonth
  split_ifs <;> omega

structure NaiveDate where
  year : Int
  month : Nat
  day : Nat
  month_pos : 1 ≤ month
  month_le : month ≤ 12
  day_pos : 1 ≤ day
  day_le : day ≤ daysInMonth year month

/-- `NaiveDate::from_ymd_opt`. -/
def NaiveDate.fromYmd (year : Int) (month day : Nat) : Option NaiveDate :=
  if valid : (1 ≤ month ∧ month ≤ 12) ∧ 1 ≤ day ∧ day ≤ daysInMonth year month then
    some ⟨year, month, day, valid.1.1, valid.1.2, valid.2.1, valid.2.2⟩
  else
    none

def NaiveDate.succ (date : NaiveDate) : NaiveDate :=
  if within : date.day + 1 ≤ daysInMonth date.year date.month then
    { date with day := date.day + 1, day_pos := by omega, day_le := within }
  else if more : date.month + 1 ≤ 12 then
    ⟨date.year, date.month + 1, 1, by omega, more, by omega, daysInMonth_pos _ _⟩
  else
    ⟨date.year + 1, 1, 1, by omega, by omega, by omega, daysInMonth_pos _ _⟩

def NaiveDate.pred (date : NaiveDate) : NaiveDate :=
  if within : 1 ≤ date.day - 1 then
    { date with
      day := date.day - 1
      day_pos := within
      day_le := le_trans (Nat.sub_le _ _) date.day_le }
  else if more : 1 ≤ date.month - 1 then
    ⟨date.year, date.month - 1, daysInMonth date.year (date.month - 1), more,
      le_trans (Nat.sub_le _ _) date.month_le, daysInMonth_pos _ _, le_rfl⟩
  else
    ⟨date.year - 1, 12, daysInMonth (date.year - 1) 12, by omega, by omega,
      daysInMonth_pos _ _, le_rfl⟩

def NaiveDate.firstOfMonth (date : NaiveDate) : NaiveDate :=
  ⟨date.year, date.month, 1, date.month_pos, date.month_le, le_rfl, daysInMonth_pos _ _⟩

def NaiveDate.firstOfNextMonth (date : NaiveDate) : NaiveDate :=
  if more : date.month + 1 ≤ 12 then
    ⟨date.year, date.month + 1, 1, by omega, more, le_rfl, daysInMonth_pos _ _⟩
  else
    ⟨date.year + 1, 1, 1, le_rfl, by omega, le_rfl, daysInMonth_pos _ _⟩

def NaiveDate.newYear : NaiveDate := ⟨2026, 1, 1, by decide, by decide, by decide, by decide⟩

/-- `date + Duration::days(count)`. -/
def NaiveDate.plusDays (date : NaiveDate) (count : Nat) : NaiveDate := NaiveDate.succ^[count] date

/-- `date - Duration::days(count)`. -/
def NaiveDate.minusDays (date : NaiveDate) (count : Nat) : NaiveDate := NaiveDate.pred^[count] date

def NaiveDate.dayNumber (date : NaiveDate) : Int :=
  let year := if date.month ≤ 2 then date.year - 1 else date.year
  let monthFromMarch := (date.month + 9) % 12
  365 * year + year / 4 - year / 100 + year / 400
    + ((153 * monthFromMarch + 2) / 5 : Nat) + (date.day - 1 : Nat)

/-- `weekday().num_days_from_monday()`: 0000-03-01 was a Wednesday. -/
def NaiveDate.daysFromMonday (date : NaiveDate) : Nat := ((date.dayNumber + 2) % 7).toNat

def NaiveDate.before (left right : NaiveDate) : Bool :=
  decide (left.year < right.year)
    || (decide (left.year = right.year)
      && (decide (left.month < right.month)
        || (decide (left.month = right.month) && decide (left.day < right.day))))

/-! ### Texts -/

def digitChar (digit : Nat) : Char := Char.ofNat (48 + digit)

/-- The last `width` decimal digits, padded with zeros. -/
def paddedDigits : Nat → Nat → List Char
  | 0, _ => []
  | width + 1, number => paddedDigits width (number / 10) ++ [digitChar (number % 10)]

/-- `%Y`: four digits, and a sign outside the years 0 to 9999. -/
def formatYear (year : Int) : List Char :=
  if 0 ≤ year ∧ year ≤ 9999 then paddedDigits 4 year.toNat
  else
    (if year < 0 then '-' else '+')
      :: (if year.natAbs ≤ 9999 then paddedDigits 4 year.natAbs else (Nat.toDigits 10 year.natAbs))

/-- `format("%Y-%m-%d")`. -/
def NaiveDate.format (date : NaiveDate) : String := String.ofList
    (formatYear date.year ++ '-' :: paddedDigits 2 date.month ++ '-' :: paddedDigits 2 date.day)

end Clepsydra.Bases
