import VpnNode.Proofs.Maximum
import VpnNode.Proofs.Scheduler.Record
import VpnNode.Proofs.Scheduler.Spacing

/-!
# When runs begin and end

A scheduler that is started once and stopped once keeps to a timetable that can be written
down beforehand. A run begins after the runs before it and a pause after each of them, if
that is before the stop and all runs before it have let the routine go on; it ends when it
has taken its time, also if the stop has come meanwhile. What is noted of a routine follows
from the routine, the start and the stop, so no routine can disturb another.

`Lane.Keeps` relates what a lane is doing to its timetable.

Main statements:

* `Lane.Keeps.turn`: a turn keeps to the timetable.
* `Lane.Keeps.runBefore`: so does the passing of time, and no turn is left out.
* `Lane.Keeps.stops`: a routine that keeps to its timetable can be stopped at any time.
* `Lane.Stops.timeline`: with the stop all that is noted is what the timetable says.
* `Lane.Stops.stopMoment_le_iff`: the stop waits for a run that is in progress.
-/

namespace VpnNode.Scheduler

/-! ## The timetable of a routine -/

/-- The moment, the routine and what is noted. -/
def Entry.plain (e : Entry) : Nat × String × Note := (e.moment, e.name, e.note)

namespace Routine

variable {r : Routine} {start stop j k n : Nat}

/-- How long the runs before this one take together. -/
def busyBefore (r : Routine) : Nat → Nat
  | 0 => 0
  | k + 1 => r.busyBefore k + (r.run k).takes

/-- The moment at which a run begins: after the runs before it and a pause after each. -/
def begins (r : Routine) (start k : Nat) : Nat := start + r.busyBefore k + k * r.interval

/-- The moment at which a run ends. -/
def ends (r : Routine) (start k : Nat) : Nat := r.begins start k + (r.run k).takes

/-- Every run before this one lets the routine go on. -/
def GetsTo (r : Routine) (k : Nat) : Prop := ∀ j < k, r.goesOn (r.run j).ending

instance (r : Routine) (k : Nat) : Decidable (r.GetsTo k) :=
  inferInstanceAs (Decidable (∀ j < k, r.goesOn (r.run j).ending = true))

/-- The runs that begin before a stop. -/
def due (r : Routine) (start stop : Nat) : List Nat :=
  (List.range (stop - start)).filter fun k => r.begins start k < stop ∧ r.GetsTo k

/-- What is noted at the end of a run. -/
def remarks (r : Routine) (k : Nat) : List Note :=
  .finish k ::
    match (r.run k).ending with
    | .success | .uncaught => []
    | .panic text => [.panic (text.getD unspokenPanic)]
    | .failure text =>
      match r.reaction text with
      | some .proceed => [.failure text false]
      | some .halt => [.failure text true]
      | none | some .collapse => []

/-- What is noted of a run. -/
def report (r : Routine) (start k : Nat) : List (Nat × String × Note) :=
  (r.begins start k, r.name, .begin k) ::
    (r.remarks k).map fun note => (r.ends start k, r.name, note)

/-- What is noted of the first runs. -/
def reports (r : Routine) (start n : Nat) : List (Nat × String × Note) :=
  (List.range n).flatMap (r.report start)

/-- What is noted of a routine from a start to a stop. -/
def timeline (r : Routine) (start stop : Nat) : List (Nat × String × Note) :=
  (r.due start stop).flatMap (r.report start)

theorem reports_succ (r : Routine) (start n : Nat) :
    r.reports start (n + 1) = r.reports start n ++ [(r.begins start n, r.name, .begin n)] ++
      (r.remarks n).map fun note => (r.ends start n, r.name, note) := by
  simp [reports, List.range_succ, report]

theorem begins_zero (r : Routine) (start : Nat) : r.begins start 0 = start := by
  simp [begins, busyBefore]

/-- The next run begins after the interval. -/
theorem begins_succ (r : Routine) (start k : Nat) :
    r.begins start (k + 1) = r.ends start k + r.interval := by
  rw [ends, begins, begins, busyBefore, Nat.succ_mul]
  omega

theorem ends_le_begins (hjk : j < k) : r.ends start j ≤ r.begins start k := by
  induction k with
  | zero => exact absurd hjk (Nat.not_lt_zero j)
  | succ k ih =>
    rw [begins_succ]
    obtain hlt | rfl := Nat.lt_succ_iff_lt_or_eq.1 hjk
    · have h := ih hlt
      have hk : r.begins start k ≤ r.ends start k := Nat.le_add_right _ _
      omega
    · exact Nat.le_add_right _ _

theorem begins_mono (hjk : j ≤ k) : r.begins start j ≤ r.begins start k := by
  obtain hlt | rfl := Nat.lt_or_eq_of_le hjk
  · exact Nat.le_trans (Nat.le_add_right _ _) (ends_le_begins hlt)
  · exact Nat.le_refl _

theorem ends_mono (hjk : j ≤ k) : r.ends start j ≤ r.ends start k := by
  obtain hlt | rfl := Nat.lt_or_eq_of_le hjk
  · exact Nat.le_trans (ends_le_begins hlt) (Nat.le_add_right _ _)
  · exact Nat.le_refl _

theorem add_le_begins (hpos : 0 < r.interval) : start + k ≤ r.begins start k := by
  have h : k * 1 ≤ k * r.interval := Nat.mul_le_mul_left k hpos
  rw [begins]
  omega

theorem GetsTo.mono (h : r.GetsTo k) (hjk : j ≤ k) : r.GetsTo j :=
  fun i hi => h i (Nat.lt_of_lt_of_le hi hjk)

theorem GetsTo.succ (h : r.GetsTo k) (hk : r.goesOn (r.run k).ending) : r.GetsTo (k + 1) := by
  intro j hj
  obtain hlt | rfl := Nat.lt_succ_iff_lt_or_eq.1 hj
  · exact h j hlt
  · exact hk

/-- The runs of a routine with an interval are those that begin before the stop, as long as
    it goes on. -/
theorem mem_due_iff (hpos : 0 < r.interval) :
    k ∈ r.due start stop ↔ r.begins start k < stop ∧ r.GetsTo k := by
  rw [due, List.mem_filter, List.mem_range, decide_eq_true_eq]
  refine and_iff_right_of_imp fun ⟨hbegins, _⟩ => ?_
  have hk : start + k ≤ r.begins start k := add_le_begins hpos
  omega

theorem pairwise_due (r : Routine) (start stop : Nat) :
    (r.due start stop).Pairwise (· < ·) := List.pairwise_lt_range.filter _

/-- The runs are counted from zero: if so many begin before the stop, and the next does not
    or is not reached, there are just so many. -/
theorem due_eq_range (hpos : 0 < r.interval)
    (hbegun : ∀ k < n, r.begins start k < stop ∧ r.GetsTo k)
    (hnext : r.begins start n < stop → ¬ r.GetsTo n) : r.due start stop = List.range n := by
  have hmem : ∀ k, k ∈ r.due start stop ↔ k ∈ List.range n := by
    intro k
    rw [mem_due_iff hpos, List.mem_range]
    refine ⟨fun ⟨hbegins, hgets⟩ => Nat.lt_of_not_le fun hle => ?_, hbegun k⟩
    exact hnext (Nat.lt_of_le_of_lt (begins_mono hle) hbegins) (hgets.mono hle)
  -- Two ascending lists with the same members are equal.
  have hsorted := pairwise_due r start stop
  refine List.Perm.eq_of_pairwise (fun a b _ _ hab hba => absurd hab (Nat.lt_asymm hba))
    hsorted List.pairwise_lt_range ?_
  exact (List.perm_ext_iff_of_nodup (hsorted.imp Nat.ne_of_lt)
    (List.pairwise_lt_range.imp Nat.ne_of_lt)).2 hmem

end Routine

/-! ## A lane and its timetable -/

namespace Lane

variable {l : Lane} {start now limit m n : Nat} {noted : List (Nat × String × Note)}

/-- What a lane is doing accords with its timetable, as does what has been noted of it.
    Everything so far has happened before the limit. -/
def Keeps (start limit : Nat) (l : Lane) (noted : List (Nat × String × Note)) : Prop :=
  l.abandoned = false ∧
    match l.stage with
    | .absent | .roused _ _ => False
    | .pending m nudged => nudged = false ∧ m = start ∧ l.runs = 0 ∧ noted = []
    | .handling m nudged => nudged = false ∧ ∃ n, l.runs = n + 1 ∧ l.routine.GetsTo n ∧
        l.routine.begins start n < limit ∧ m = l.routine.ends start n ∧
        noted = l.routine.reports start n ++ [(l.routine.begins start n, l.routine.name, .begin n)]
    | .pausing m => ∃ n, l.runs = n + 1 ∧ l.routine.GetsTo (n + 1) ∧
        l.routine.ends start n < limit ∧ m = l.routine.begins start (n + 1) ∧
        noted = l.routine.reports start (n + 1)
    | .ended => ∃ n, l.runs = n + 1 ∧ l.routine.GetsTo n ∧ ¬ l.routine.GetsTo (n + 1) ∧
        l.routine.ends start n < limit ∧ noted = l.routine.reports start (n + 1)

/-- What a run notes at its end. -/
theorem plain_finish (l : Lane) (m : Nat) (nudged : Bool) :
    (l.finish m nudged).2.map Entry.plain =
      (l.routine.remarks (l.runs - 1)).map fun note => (m, l.routine.name, note) := by
  unfold finish Routine.remarks
  dsimp only
  cases (l.routine.run (l.runs - 1)).ending with
  | success | uncaught => rfl
  | panic text => rfl
  | failure text =>
    dsimp only
    obtain _ | (_ | _ | _) := l.routine.reaction text <;> rfl

/-- A run that is not disturbed is followed by a pause if the routine goes on. -/
theorem stage_finish (hkept : l.abandoned = false) (m : Nat) :
    (l.finish m false).1.stage =
      if l.routine.goesOn (l.routine.run (l.runs - 1)).ending then
        .pausing (m + l.routine.interval)
      else .ended := by
  have hphase := (finish_eq hkept m false).2
  obtain ⟨-, hstage | hstage⟩ := l.finish_cases m false
  · rw [hstage] at hphase ⊢
    cases hgo : l.routine.goesOn (l.routine.run (l.runs - 1)).ending with
    | true => simp [hgo, Stage.phase?] at hphase
    | false => rfl
  · rw [hstage] at hphase ⊢
    cases hgo : l.routine.goesOn (l.routine.run (l.runs - 1)).ending with
    | true => rfl
    | false => simp [hgo, Stage.phase?] at hphase

/-- A run ends. -/
theorem Keeps.finish (hkept : l.abandoned = false) (hruns : l.runs = n + 1)
    (hgets : l.routine.GetsTo n) (hm : m = l.routine.ends start n) (hlt : m < limit) :
    (l.finish m false).1.Keeps start limit
      (l.routine.reports start n ++ [(l.routine.begins start n, l.routine.name, .begin n)] ++
        (l.finish m false).2.map Entry.plain) := by
  have hnoted : l.routine.reports start n ++ [(l.routine.begins start n, l.routine.name, .begin n)] ++
      (l.finish m false).2.map Entry.plain = l.routine.reports start (n + 1) := by
    rw [plain_finish, hruns, Nat.add_sub_cancel, hm, Routine.reports_succ]
  have hstage := stage_finish hkept m
  obtain ⟨hruns', -⟩ := l.finish_cases m false
  have hroutine := routine_finish l m false
  rw [hruns, Nat.add_sub_cancel] at hstage
  rw [hnoted]
  refine ⟨(finish_eq hkept m false).1, ?_⟩
  rw [hstage]
  by_cases hgo : l.routine.goesOn (l.routine.run n).ending
  · rw [if_pos hgo]
    dsimp only
    rw [hroutine]
    refine ⟨n, hruns'.trans hruns, hgets.succ hgo, hm ▸ hlt, ?_, rfl⟩
    rw [Routine.begins_succ, hm]
  · rw [if_neg hgo]
    dsimp only
    rw [hroutine]
    exact ⟨n, hruns'.trans hruns, hgets, fun h => hgo (h n (Nat.lt_succ_self n)), hm ▸ hlt, rfl⟩

/-- A run begins, and ends at once if it takes no time. -/
theorem Keeps.begin (hkept : l.abandoned = false) (hgets : l.routine.GetsTo l.runs)
    (hm : m = l.routine.begins start l.runs) (hlt : m < limit) :
    (l.begin m false).1.Keeps start limit
      (l.routine.reports start l.runs ++ (l.begin m false).2.map Entry.plain) := by
  unfold Lane.begin
  dsimp only
  split
  · rename_i htakes
    have hends : m = l.routine.ends start l.runs := by rw [Routine.ends, htakes, hm]; rfl
    have hfinish := Keeps.finish (l := { l with runs := l.runs + 1 }) hkept rfl hgets hends hlt
    rw [List.map_cons, List.append_cons]
    rw [← hm] at hfinish
    exact hfinish
  · refine ⟨hkept, rfl, l.runs, rfl, hgets, hm ▸ hlt, ?_, ?_⟩
    · rw [hm]
      rfl
    · rw [hm]
      rfl

/-- The routine has its turn. -/
theorem Keeps.turn (hk : l.Keeps start limit noted) (hm : l.moment? = some m) (hlt : m < limit) :
    l.turn.1.Keeps start limit (noted ++ l.turn.2.map Entry.plain) := by
  obtain ⟨hkept, hstage⟩ := hk
  unfold moment? at hm
  unfold Lane.turn
  cases hl : l.stage with
  | absent => simp [hl] at hm
  | roused m nudged => simp [hl] at hstage
  | ended => simp [hl] at hm
  | pending m₁ nudged =>
    simp only [hl, Option.some.injEq] at hm hstage
    subst hm
    obtain ⟨rfl, rfl, hruns, rfl⟩ := hstage
    have hfirst : m₁ = l.routine.begins m₁ l.runs := by rw [hruns, Routine.begins_zero]
    have hbegin := Keeps.begin hkept (by rw [hruns]; exact nofun) hfirst hlt
    rwa [hruns] at hbegin
  | handling m₁ nudged =>
    simp only [hl, Option.some.injEq] at hm hstage
    subst hm
    obtain ⟨rfl, n, hruns, hgets, -, hm, rfl⟩ := hstage
    exact Keeps.finish hkept hruns hgets hm hlt
  | pausing m₁ =>
    simp only [hl, Option.some.injEq] at hm hstage
    subst hm
    obtain ⟨n, hruns, hgets, -, hm, rfl⟩ := hstage
    rw [← hruns] at hgets hm ⊢
    exact Keeps.begin hkept hgets hm hlt

/-! ## Time -/

theorem Keeps.mono (hk : l.Keeps start now noted) (hle : now ≤ limit) :
    l.Keeps start limit noted := by
  obtain ⟨hkept, hstage⟩ := hk
  refine ⟨hkept, ?_⟩
  cases hl : l.stage with
  | absent | roused m nudged => simp [hl] at hstage
  | pending m nudged => simpa only [hl] using hstage
  | handling m nudged =>
    simp only [hl] at hstage
    obtain ⟨hn, n, hruns, hgets, hbegins, h⟩ := hstage
    exact ⟨hn, n, hruns, hgets, Nat.lt_of_lt_of_le hbegins hle, h⟩
  | pausing m =>
    simp only [hl] at hstage
    obtain ⟨n, hruns, hgets, hends, h⟩ := hstage
    exact ⟨n, hruns, hgets, Nat.lt_of_lt_of_le hends hle, h⟩
  | ended =>
    simp only [hl] at hstage
    obtain ⟨n, hruns, hgets, hlast, hends, h⟩ := hstage
    exact ⟨n, hruns, hgets, hlast, Nat.lt_of_lt_of_le hends hle, h⟩

theorem Keeps.turnsBefore (hk : l.Keeps start limit noted) (fuel : Nat) :
    (l.turnsBefore limit fuel).1.Keeps start limit
      (noted ++ (l.turnsBefore limit fuel).2.map Entry.plain) := by
  induction fuel generalizing l noted with
  | zero => simpa [Lane.turnsBefore] using hk
  | succ fuel ih =>
    cases hm : l.moment? with
    | none => simpa [Lane.turnsBefore, hm] using hk
    | some m =>
      by_cases hlt : m < limit
      · rw [turnsBefore_succ hm hlt, List.map_append, ← List.append_assoc]
        exact ih (hk.turn hm hlt)
      · simpa [Lane.turnsBefore, hm, hlt] using hk

/-- The turns before a limit are not cut off: afterwards the routine has none left. -/
theorem waits_turnsBefore (hpos : 0 < l.routine.interval) {fuel : Nat}
    (hfuel : turnsLeft limit l.stage ≤ fuel) : (l.turnsBefore limit fuel).1.Waits limit := by
  induction fuel generalizing l with
  | zero =>
    intro m hm
    have hless : m < limit → _ := turnsLeft_turn hpos hm
    omega
  | succ fuel ih =>
    cases hm : l.moment? with
    | none => simp [Lane.turnsBefore, Waits, hm]
    | some m =>
      by_cases hlt : m < limit
      · rw [turnsBefore_succ hm hlt]
        have hturn := turnsLeft_turn hpos hm hlt
        exact ih (by rwa [routine_turn]) (by omega)
      · simp only [Lane.turnsBefore, hm, hlt, if_false]
        intro m' hm'
        rw [hm, Option.some.injEq] at hm'
        omega

/-- Time passes. -/
theorem Keeps.runBefore (hk : l.Keeps start now noted) (hw : l.Waits now)
    (hpos : 0 < l.routine.interval) (ms : Nat) :
    (l.runBefore now (now + ms)).1.Keeps start (now + ms)
      (noted ++ (l.runBefore now (now + ms)).2.map Entry.plain) ∧
    (l.runBefore now (now + ms)).1.Waits (now + ms) := by
  refine ⟨(hk.mono (Nat.le_add_right now ms)).turnsBefore _, waits_turnsBefore hpos ?_⟩
  have := hw.turnsLeft_le (now + ms)
  omega

/-! ## A stop -/

/-- What can be said of a lane that is stopped: the runs that have begun are those that are
    due, all that is noted is noted of them, and the stop waits until they have ended. -/
structure Stops (start now : Nat) (l : Lane) (noted : List (Nat × String × Note)) : Prop where
  begun : ∀ k < l.runs, l.routine.begins start k < now ∧ l.routine.GetsTo k
  next : l.routine.begins start l.runs < now → ¬ l.routine.GetsTo l.runs
  noted_eq : noted ++ l.stop.2.map Entry.plain = l.routine.reports start l.runs
  le_iff : ∀ t, l.stopMoment now ≤ t ↔ now ≤ t ∧ ∀ k < l.runs, l.routine.ends start k ≤ t

/-- Between two runs, and after the last, a stop has nothing to wait for. -/
theorem stops_of_finished (hruns : l.runs = n + 1) (hgets : l.routine.GetsTo n)
    (hends : l.routine.ends start n < now)
    (hnext : l.routine.begins start (n + 1) < now → ¬ l.routine.GetsTo (n + 1))
    (hstop : l.stop.2 = []) (hmoment : l.stopMoment now = now) :
    l.Stops start now (l.routine.reports start (n + 1)) := by
  have hover : ∀ k < n + 1, l.routine.ends start k < now := fun k hk =>
    Nat.lt_of_le_of_lt (Routine.ends_mono (Nat.le_of_lt_succ hk)) hends
  refine ⟨fun k hk => ?_, ?_, ?_, fun t => ?_⟩
  · rw [hruns] at hk
    exact ⟨Nat.lt_of_le_of_lt (Nat.le_add_right _ _) (hover k hk),
      hgets.mono (Nat.le_of_lt_succ hk)⟩
  · rwa [hruns]
  · rw [hstop, hruns, List.map_nil, List.append_nil]
  · rw [hmoment, hruns]
    refine (and_iff_left_of_imp fun ht k hk => ?_).symm
    exact Nat.le_trans (Nat.le_of_lt (hover k hk)) ht

/-- A routine that keeps to its timetable can be stopped at any time. -/
theorem Keeps.stops (hk : l.Keeps start now noted) (hw : l.Waits now)
    (hpos : 0 < l.routine.interval) : l.Stops start now noted := by
  obtain ⟨-, hstage⟩ := hk
  unfold Waits moment? at hw
  cases hl : l.stage with
  | absent | roused m nudged => simp [hl] at hstage
  | pending m nudged =>
    have hm := hw m (by rw [hl])
    simp only [hl] at hstage
    obtain ⟨-, rfl, hruns, rfl⟩ := hstage
    have hstop : l.stop.2 = [] := by simp [Lane.stop, hl]
    have hmoment : l.stopMoment now = now := by simp [Lane.stopMoment, hl]
    refine ⟨by simp [hruns], fun hlt => ?_, ?_, by simp [hmoment, hruns]⟩
    · rw [hruns, Routine.begins_zero] at hlt
      omega
    · rw [hstop, hruns]
      rfl
  | handling m nudged =>
    have hm := hw m (by rw [hl])
    simp only [hl] at hstage
    obtain ⟨-, n, hruns, hgets, hbegins, rfl, rfl⟩ := hstage
    have hstop : l.stop.2 = (l.finish (l.routine.ends start n) false).2 := by
      simp [Lane.stop, hl]
    have hmoment : l.stopMoment now = max now (l.routine.ends start n) := by
      simp [Lane.stopMoment, hl]
    refine ⟨fun k hk => ?_, fun hlt => ?_, ?_, fun t => ?_⟩
    · have hle : k ≤ n := by omega
      exact ⟨Nat.lt_of_le_of_lt (Routine.begins_mono hle) hbegins, hgets.mono hle⟩
    · rw [hruns, Routine.begins_succ] at hlt
      omega
    · rw [hstop, plain_finish, hruns, Nat.add_sub_cancel, Routine.reports_succ]
    · rw [hmoment, hruns, Nat.max_le]
      refine and_congr_right fun _ => ⟨fun hends k hk => ?_, fun hall => hall n n.lt_succ_self⟩
      exact Nat.le_trans (Routine.ends_mono (Nat.le_of_lt_succ hk)) hends
  | pausing m =>
    have hm := hw m (by rw [hl])
    simp only [hl] at hstage
    obtain ⟨n, hruns, hgets, hends, rfl, rfl⟩ := hstage
    refine stops_of_finished hruns (hgets.mono (Nat.le_succ n)) hends (fun hlt => ?_)
      (by simp [Lane.stop, hl]) (by simp [Lane.stopMoment, hl])
    exact absurd hlt (Nat.not_lt_of_le hm)
  | ended =>
    simp only [hl] at hstage
    obtain ⟨n, hruns, hgets, hlast, hends, rfl⟩ := hstage
    exact stops_of_finished hruns hgets hends (fun _ => hlast)
      (by simp [Lane.stop, hl]) (by simp [Lane.stopMoment, hl])

theorem Stops.due_eq (hs : l.Stops start now noted) (hpos : 0 < l.routine.interval) :
    l.routine.due start now = List.range l.runs :=
  Routine.due_eq_range hpos hs.begun hs.next

/-- After a stop all that has been noted is what the timetable says: a run in progress is
    waited for, and no other begins. -/
theorem Stops.timeline (hs : l.Stops start now noted) (hpos : 0 < l.routine.interval) :
    noted ++ l.stop.2.map Entry.plain = l.routine.timeline start now := by
  rw [hs.noted_eq, Routine.timeline, hs.due_eq hpos]
  rfl

/-- A stop waits for the run that is in progress, if there is one. -/
theorem Stops.stopMoment_le_iff (hs : l.Stops start now noted) (hpos : 0 < l.routine.interval)
    {t : Nat} : l.stopMoment now ≤ t ↔ now ≤ t ∧ ∀ k ∈ l.routine.due start now,
      now < l.routine.ends start k → l.routine.ends start k ≤ t := by
  rw [hs.le_iff, hs.due_eq hpos]
  refine and_congr_right fun ht => ⟨fun hall k hk _ => hall k (List.mem_range.1 hk), ?_⟩
  intro hall k hk
  obtain hlt | hge := Nat.lt_or_ge now (l.routine.ends start k)
  · exact hall k (List.mem_range.2 hk) hlt
  · exact Nat.le_trans hge ht

end Lane

end VpnNode.Scheduler
