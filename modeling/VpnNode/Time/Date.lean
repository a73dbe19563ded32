/-!
# Calendar dates

Dates of the proleptic Gregorian calendar, with years that fit into 19 bits
with a sign. A date knows the day before and after it and its number in a
running count of days.
-/

namespace VpnNode

/-- Does February have 29 days? -/
def isLeapYear (year : Int) : Bool := year % 4 == 0 && (year % 100 != 0 || year % 400 == 0)

/-- The number of days of a month, 1 to 12. -/
def daysInMonth (year : Int) (month : Nat) : Nat :=
  match month with
  | 2 => if isLeapYear year then 29 else 28
  | 4 | 6 | 9 | 11 => 30
  | _ => 31

/-- The years that a date may have. -/
def Date.yearInRange (year : Int) : Bool := -262143 ≤ year && year ≤ 262142

/-- Is this a day of the calendar? -/
def Date.isDay (year : Int) (month day : Nat) : Bool :=
  yearInRange year && 1 ≤ month && month ≤ 12 && 1 ≤ day && day ≤ daysInMonth year month

/-- A day of the calendar. -/
structure Date where
  year : Int
  month : Nat
  day : Nat
  valid : Date.isDay year month day
  deriving DecidableEq

namespace Date

/-- The date with this year, month and day, if there is one. -/
def ofParts? (year : Int) (month day : Nat) : Option Date :=
  if h : isDay year month day then some ⟨year, month, day, h⟩ else none

/-- The number of days in the months before `month`. -/
def daysBeforeMonth (year : Int) : Nat → Nat
  | 0 | 1 => 0
  | m + 1 => daysBeforeMonth year m + daysInMonth year m

/-- The number of days from the first of January of the year 1 to the first of
    January of `year`. -/
def daysBeforeYear (year : Int) : Int :=
  let y := year - 1
  365 * y + y / 4 - y / 100 + y / 400

/-- The number of a date in a running count of days. -/
def dayNumber (d : Date) : Int := daysBeforeYear d.year + daysBeforeMonth d.year d.month + d.day

/-- The next day. -/
def next? (d : Date) : Option Date :=
  if d.day < daysInMonth d.year d.month then ofParts? d.year d.month (d.day + 1)
  else if d.month < 12 then ofParts? d.year (d.month + 1) 1
  else ofParts? (d.year + 1) 1 1

/-- The day before. -/
def previous? (d : Date) : Option Date :=
  if 1 < d.day then ofParts? d.year d.month (d.day - 1)
  else if 1 < d.month then ofParts? d.year (d.month - 1) (daysInMonth d.year (d.month - 1))
  else ofParts? (d.year - 1) 12 31

end VpnNode.Date
