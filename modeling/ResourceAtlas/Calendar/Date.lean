/-!
# Dates

Days of the proleptic Gregorian calendar from year 1 to year 9999, also counted by weeks: week 1 of
a year is the one that holds its first Thursday.
-/

namespace ResourceAtlas.Calendar

/-- A day of the calendar. -/
structure Date where
  /-- The year, from 1. -/
  year : Nat
  /-- The month, from 1. -/
  month : Nat
  /-- The day of the month, from 1. -/
  day : Nat
  deriving DecidableEq, Repr, Inhabited

namespace Date

/-- A year of 366 days. -/
def isLeap (year : Nat) : Bool :=
  year % 4 == 0 && (year % 100 != 0 || year % 400 == 0)

/-- The lengths of the months of a year. -/
def monthLengths (year : Nat) : List Nat :=
  [31, if isLeap year then 29 else 28, 31, 30, 31, 30, 31, 31, 30, 31, 30, 31]

/-- The length of a year. -/
def yearLength (year : Nat) : Nat :=
  if isLeap year then 366 else 365

/-- The length of a month, zero for a month that no year has. -/
def monthLength (year month : Nat) : Nat :=
  if month = 0 then 0 else (monthLengths year)[month - 1]?.getD 0

/-- A day that the calendar has. -/
def isValid (d : Date) : Bool :=
  1 ≤ d.year && d.year ≤ 9999 && 1 ≤ d.day && d.day ≤ monthLength d.year d.month

/-- How many days lie before a year. -/
def daysBeforeYear (year : Nat) : Nat :=
  let y := year - 1
  365 * y + y / 4 - y / 100 + y / 400

/-- The number of a day, counted from the first day of year 1 as 1. -/
def ordinal (d : Date) : Nat :=
  daysBeforeYear d.year + ((monthLengths d.year).take (d.month - 1)).foldr (· + ·) 0 + d.day

/-- The month and the day at an index into the days of a year. -/
def monthAndDay : List Nat → Nat → Nat → Nat × Nat
  | [], month, index => (month, index + 1)
  | length :: rest, month, index =>
    if index < length then (month, index + 1) else monthAndDay rest (month + 1) (index - length)

/-- The day at an index from the first day of a year, which may lie in a neighbouring year. -/
def atIndex (year : Nat) (index : Int) : Date :=
  let year' := if index < 0 then year - 1
    else if (yearLength year : Int) ≤ index then year + 1 else year
  let index' := if index < 0 then index + yearLength (year - 1)
    else if (yearLength year : Int) ≤ index then index - yearLength year else index
  let (month, day) := monthAndDay (monthLengths year') 1 index'.toNat
  ⟨year', month, day⟩

/-- The weekday of the first day of a year, Monday being 0. -/
def firstWeekday (year : Nat) : Nat :=
  (daysBeforeYear year) % 7

/-- A year that has a week 53. -/
def hasWeek53 (year : Nat) : Bool :=
  firstWeekday year == 3 || (firstWeekday year == 2 && isLeap year)

/-- The day of a week of a year, Monday being 1. -/
def ofWeek? (year week day : Nat) : Option Date :=
  if 1 ≤ year ∧ year ≤ 9999 ∧ 1 ≤ week ∧ (week ≤ 52 ∨ (week = 53 ∧ hasWeek53 year)) ∧
      1 ≤ day ∧ day ≤ 7 then
    let first := firstWeekday year
    let monday : Int := if first ≤ 3 then -(first : Int) else 7 - (first : Int)
    let date := atIndex year (monday + ((week - 1) * 7 + (day - 1) : Nat))
    if date.isValid then some date else none
  else none

/-- A number with zeros in front up to a width. -/
def padded (width n : Nat) : String :=
  let digits := Nat.toDigits 10 n
  String.ofList (List.replicate (width - digits.length) '0' ++ digits)

/-- Year, month and day, joined by hyphens. -/
def isoText (d : Date) : String :=
  padded 4 d.year ++ "-" ++ padded 2 d.month ++ "-" ++ padded 2 d.day

/-- The first day is before the second. -/
def lt (a b : Date) : Bool :=
  a.year < b.year ||
    (a.year == b.year && (a.month < b.month || (a.month == b.month && a.day < b.day)))

end Date

end ResourceAtlas.Calendar
