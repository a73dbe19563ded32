import VpnNode.Time.Basic

/-!
# The order of points in time

Points in time are ordered by date, second and nanosecond. As long as no leap second takes
part, the time that has passed since some point grows with this order. A leap second counts
only while one of the two points lies in it, so the time that has passed may also step back;
but it never does by two seconds.

Main statements:

* `since_le_since`: without leap seconds no less time has passed at a later point.
* `since_lt_since_add`: at a later point less than two seconds are missing.
-/

namespace VpnNode.Time

variable {s t start : Time}

instance : LE Time where
  le s t := s.date.dayNumber < t.date.dayNumber ∨ s.date.dayNumber = t.date.dayNumber ∧
    (s.second < t.second ∨ s.second = t.second ∧ s.nanos ≤ t.nanos)

theorem le_iff : s ≤ t ↔ s.date.dayNumber < t.date.dayNumber ∨
    s.date.dayNumber = t.date.dayNumber ∧
      (s.second < t.second ∨ s.second = t.second ∧ s.nanos ≤ t.nanos) := Iff.rfl

instance (s t : Time) : Decidable (s ≤ t) := decidable_of_iff' _ le_iff

theorem nanos_lt_of_not_leap (h : s.isLeap = false) : s.nanos.val < 1000000000 :=
  Nat.not_le.1 (of_decide_eq_false h)

/-- Without leap seconds there are none between two times of day. -/
theorem leapSeconds_eq_zero (ht : t.isLeap = false) (hstart : start.isLeap = false) :
    leapSeconds t start = 0 := by
  unfold leapSeconds
  rw [if_neg (by simp [hstart]), if_neg (by simp [ht])]

/-- A leap second is counted forwards only late in the day of one that lies in it, and
    backwards only by a point that lies in it, early in the day. -/
theorem leapSeconds_cases (t start : Time) :
    leapSeconds t start = 0 ∨ (leapSeconds t start = 1 ∧ start.second < t.second) ∨
      (leapSeconds t start = -1 ∧ t.second < start.second ∧ 1000000000 ≤ t.nanos.val) := by
  unfold leapSeconds
  split
  · rename_i h
    exact .inr (.inl ⟨rfl, h.1⟩)
  · split
    · rename_i h
      exact .inr (.inr ⟨rfl, h.1, of_decide_eq_true h.2⟩)
    · exact .inl rfl

/-- Without leap seconds no less time has passed at a later point. -/
theorem since_le_since (hs : s.isLeap = false) (ht : t.isLeap = false)
    (hstart : start.isLeap = false) (hle : s ≤ t) : s.since start ≤ t.since start := by
  have hnanos := nanos_lt_of_not_leap hs
  have hseconds := s.second.isLt
  rw [le_iff, Fin.lt_def, Fin.le_def, Fin.ext_iff] at hle
  simp only [since, leapSeconds_eq_zero hs hstart, leapSeconds_eq_zero ht hstart, nanosPerSecond]
  omega

/-- At a later point less than two seconds are missing. -/
theorem since_lt_since_add (start : Time) (hle : s ≤ t) :
    s.since start < t.since start + 2 * nanosPerSecond := by
  have hnanos := s.nanos.isLt
  have hseconds := s.second.isLt
  have hs := leapSeconds_cases s start
  have ht := leapSeconds_cases t start
  simp only [Fin.lt_def] at hs ht
  rw [le_iff, Fin.lt_def, Fin.le_def, Fin.ext_iff] at hle
  simp only [since, nanosPerSecond]
  omega

end VpnNode.Time
