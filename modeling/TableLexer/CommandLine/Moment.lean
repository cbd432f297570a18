/-! Moments in local time, and where they are in years and weeks. -/
namespace TableLexer.CommandLine

/-- A date and a time of day. The offset is the number of minutes that local time is ahead by. -/
structure Moment where
  year : Nat
  month : Nat
  day : Nat
  hour : Nat
  minute : Nat
  second : Nat
  nanosecond : Nat := 0
  offset : Int := 0
deriving DecidableEq, Repr, Inhabited

namespace Moment

def isLeap (year : Nat) : Bool := year % 4 == 0 && (year % 100 != 0 || year % 400 == 0)

def daysInYear (year : Nat) : Nat := if isLeap year then 366 else 365

/-- The number of days in the months of a year that are before the given one. -/
def daysBeforeMonth (year month : Nat) : Nat :=
  let lengths := [31, if isLeap year then 29 else 28, 31, 30, 31, 30, 31, 31, 30, 31, 30, 31]
  (lengths.take (month - 1)).foldl (· + ·) 0

/-- The number of days in the years from the first one on that are before the given one. -/
def daysBeforeYear (year : Nat) : Nat :=
  let past := year - 1
  past * 365 + past / 4 - past / 100 + past / 400

/-- The number of days in the year before this one. -/
def yearDay (m : Moment) : Nat := daysBeforeMonth m.year m.month + m.day - 1

/-- The number of days in the week before this one. The first year began with a Monday, and so does
a week. -/
def weekday (m : Moment) : Nat := (daysBeforeYear m.year + m.yearDay) % 7

/-- The year that the week belongs to, which is the one of its Thursday, and the number of the week
in that year. -/
def week (m : Moment) : Nat × Nat :=
  let monday := m.yearDay + 7 - m.weekday
  if monday < 4 then (m.year - 1, (daysInYear (m.year - 1) + monday - 4) / 7 + 1)
  else if monday - 4 < daysInYear m.year then (m.year, (monday - 4) / 7 + 1)
  else (m.year + 1, 1)

/-- The hour on a dial. -/
def dialHour (m : Moment) : Nat := (m.hour + 11) % 12 + 1

/-- The seconds since the beginning of 1970 in universal time. -/
def timestamp (m : Moment) : Int :=
  let days : Int := daysBeforeYear m.year + m.yearDay - daysBeforeYear 1970
  ((days * 24 + m.hour) * 60 + m.minute - m.offset) * 60 + m.second

end Moment

end TableLexer.CommandLine
