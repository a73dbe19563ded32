import VpnNode.Time.Date

/-!
# Points in time

A point in time is a date, a second of that day and a number of nanoseconds. A
leap second is the second before it with a thousand million nanoseconds or more.

The time from one point to another counts a leap second only where it lies
between the times of day of the two points, whatever their dates.
-/

namespace VpnNode

/-- A point in time, in coordinated universal time. -/
structure Time where
  date : Date
  second : Fin 86400
  nanos : Fin 2000000000
  deriving DecidableEq

namespace Time

def nanosPerSecond : Int := 1000000000

/-- Does a point lie within a leap second? -/
def isLeap (t : Time) : Bool := 1000000000 ≤ t.nanos.val

/-- The leap seconds between two times of day. -/
def leapSeconds (later earlier : Time) : Int :=
  if earlier.second < later.second ∧ earlier.isLeap then 1
  else if later.second < earlier.second ∧ later.isLeap then -1
  else 0

/-- The nanoseconds from `earlier` to `later`; negative if `later` comes first. -/
def since (later earlier : Time) : Int :=
  let days := later.date.dayNumber - earlier.date.dayNumber
  let seconds := (later.second.val : Int) - earlier.second.val + leapSeconds later earlier
  (days * 86400 + seconds) * nanosPerSecond + ((later.nanos.val : Int) - earlier.nanos.val)

end VpnNode.Time
