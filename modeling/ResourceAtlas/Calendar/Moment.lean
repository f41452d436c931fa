import ResourceAtlas.Calendar.Date

/-!
# Moments

A moment is a date with a time of day, to the microsecond, and perhaps an offset from universal
time. Two moments with offsets are compared in universal time; one with an offset and one without
are not ordered.
-/

namespace ResourceAtlas.Calendar

/-- A date with a time of day. -/
structure Moment where
  /-- The day. -/
  date : Date
  /-- The hour, below 24. -/
  hour : Nat
  /-- The minute, below 60. -/
  minute : Nat
  /-- The second, below 60. -/
  second : Nat
  /-- The microsecond, below one million. -/
  microsecond : Nat
  /-- The microseconds by which the clock is ahead of universal time, if that is known. -/
  offset : Option Int
  deriving DecidableEq, Repr, Inhabited

namespace Moment

/-- The microseconds of a day. -/
def dayLength : Nat := 86400000000

/-- A moment that the calendar and the clock have. -/
def isValid (m : Moment) : Bool :=
  m.date.isValid && m.hour < 24 && m.minute < 60 && m.second < 60 && m.microsecond < 1000000

/-- The microseconds since the first midnight of the calendar, by the moment's own clock. -/
def localTime (m : Moment) : Int :=
  (m.date.ordinal * dayLength +
    ((m.hour * 60 + m.minute) * 60 + m.second) * 1000000 + m.microsecond : Nat)

/-- The microseconds since the first midnight of the calendar in universal time. -/
def universalTime (m : Moment) : Int :=
  m.localTime - m.offset.getD 0

/-- Both moments have an offset, or neither has. -/
def comparable (a b : Moment) : Bool :=
  a.offset.isSome == b.offset.isSome

/-- The first of two comparable moments is before the second. -/
def lt (a b : Moment) : Bool :=
  decide (a.universalTime < b.universalTime)

/-- Two comparable moments are the same. -/
def equal (a b : Moment) : Bool :=
  comparable a b && decide (a.universalTime = b.universalTime)

/-- A colon, a point and the digits of a part of a time, left out when it is zero. -/
def fractionText (microsecond : Nat) : String :=
  if microsecond = 0 then "" else "." ++ Date.padded 6 microsecond

/-- An offset as sign, hours and minutes, with seconds and microseconds only when it has some. -/
def offsetText (offset : Int) : String :=
  let n := offset.natAbs
  let seconds := n / 1000000
  let tail := if n % 60000000 = 0 then ""
    else ":" ++ Date.padded 2 (seconds % 60) ++ fractionText (n % 1000000)
  (if offset < 0 then "-" else "+") ++ Date.padded 2 (seconds / 3600) ++ ":" ++
    Date.padded 2 (seconds / 60 % 60) ++ tail

/-- Date and time with a separator of choice between them, and the offset. -/
def textWith (sep : String) (m : Moment) : String :=
  m.date.isoText ++ sep ++ Date.padded 2 m.hour ++ ":" ++ Date.padded 2 m.minute ++ ":" ++
    Date.padded 2 m.second ++ fractionText m.microsecond ++
    match m.offset with
    | none => ""
    | some offset => offsetText offset

/-- Date and time with a `T` between them. -/
def isoText (m : Moment) : String :=
  m.textWith "T"

end Moment

end ResourceAtlas.Calendar
