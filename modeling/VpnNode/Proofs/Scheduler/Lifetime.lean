import VpnNode.Proofs.Scheduler.Timeline

/-!
# One start and one stop

A scheduler is given routines, started, and stopped later. From what has been registered
and from the moments of the two calls it follows when every run begins and ends, what is
noted of it, which panics are reported, and when the stop is through. What a routine does
does not depend on the other routines. A panic in the call of a handler ends the routine
like any other, but is not reported.

Main statements:

* `stops_between`: after the start each routine keeps to its timetable.
* `recordAt_lifetime`, `stop_le_iff`: what is noted at a place, and how long the stop takes.
* `Routine.panics_timeline`: a panic that is caught is reported once, under the routine's
  name, and no other is.
* `timeline_exact`: all of this together.
-/

namespace VpnNode.Scheduler

/-! ## Panics -/

def Note.isPanic : Note → Bool
  | .panic _ => true
  | _ => false

/-- A list all of whose members but one come to nothing. -/
theorem flatMap_eq_of_unique {f : α → List β} {l : List α} {k : α} (hnodup : l.Nodup)
    (hk : k ∈ l) (hothers : ∀ j ∈ l, j ≠ k → f j = []) : l.flatMap f = f k := by
  obtain ⟨as, bs, rfl⟩ := List.append_of_mem hk
  obtain ⟨-, hbs, hdisjoint⟩ := List.nodup_append.1 hnodup
  have has : as.flatMap f = [] := List.flatMap_eq_nil_iff.2 fun j hj =>
    hothers j (List.mem_append_left _ hj) (hdisjoint j hj k List.mem_cons_self)
  have hbs : bs.flatMap f = [] := List.flatMap_eq_nil_iff.2 fun j hj =>
    hothers j (List.mem_append_right _ (List.mem_cons_of_mem _ hj)) fun heq =>
      (List.nodup_cons.1 hbs).1 (heq ▸ hj)
  rw [List.flatMap_append, List.flatMap_cons, has, hbs, List.append_nil, List.nil_append]

namespace Routine

variable {r : Routine} {start stop k : Nat}

/-- The panics among the notes of a run. -/
theorem panics_report (r : Routine) (start k : Nat) :
    (r.report start k).filter (fun e => e.2.2.isPanic) =
      match (r.run k).ending with
      | .panic text => [(r.ends start k, r.name, .panic (text.getD unspokenPanic))]
      | _ => [] := by
  unfold report remarks
  cases (r.run k).ending with
  | success | uncaught => rfl
  | panic text => rfl
  | failure text =>
    dsimp only
    obtain _ | (_ | _ | _) := r.reaction text <;> rfl

theorem panics_report_eq_nil (hk : ∀ text, (r.run k).ending ≠ .panic text) :
    (r.report start k).filter (fun e => e.2.2.isPanic) = [] := by
  rw [panics_report]
  split
  · rename_i text htext
    exact absurd htext (hk text)
  · rfl

/-- A run after which the routine does not go on is the last one. -/
theorem due_unique {j : Nat} (hpos : 0 < r.interval) (hj : j ∈ r.due start stop)
    (hk : k ∈ r.due start stop) (hjends : r.goesOn (r.run j).ending = false)
    (hkends : r.goesOn (r.run k).ending = false) : j = k := by
  have hgo : ∀ {i i'}, i' ∈ r.due start stop → i < i' → r.goesOn (r.run i).ending :=
    fun hi' hlt => ((mem_due_iff hpos).1 hi').2 _ hlt
  obtain hlt | rfl | hlt := Nat.lt_trichotomy j k
  · cases hjends.symm.trans (hgo hk hlt)
  · rfl
  · cases hkends.symm.trans (hgo hj hlt)

/-- A routine panics in one run at most. A panic that is caught is noted once, with the
    routine's name; nothing is noted of any other. -/
theorem panics_timeline (r : Routine) (start stop : Nat) (hpos : 0 < r.interval) :
    (∀ k ∈ r.due start stop, ∀ text, (r.run k).ending = .panic text →
      (r.timeline start stop).filter (fun e => e.2.2.isPanic) =
        [(r.ends start k, r.name, .panic (text.getD unspokenPanic))]) ∧
    ((∀ k ∈ r.due start stop, ∀ text, (r.run k).ending ≠ .panic text) →
      (r.timeline start stop).filter (fun e => e.2.2.isPanic) = []) ∧
    (∀ k ∈ r.due start stop, (r.run k).ending = .uncaught →
      (r.timeline start stop).filter (fun e => e.2.2.isPanic) = []) := by
  have hends : ∀ {k text}, (r.run k).ending = .panic text → r.goesOn (r.run k).ending = false :=
    fun htext => by rw [htext]; rfl
  have hnone : (∀ k ∈ r.due start stop, ∀ text, (r.run k).ending ≠ .panic text) →
      (r.timeline start stop).filter (fun e => e.2.2.isPanic) = [] := fun hall => by
    rw [timeline, List.filter_flatMap]
    exact List.flatMap_eq_nil_iff.2 fun k hk => panics_report_eq_nil (hall k hk)
  refine ⟨fun k hk text htext => ?_, hnone, fun k hk huncaught => hnone fun j hj text htext => ?_⟩
  · rw [timeline, List.filter_flatMap,
      flatMap_eq_of_unique ((pairwise_due r start stop).imp Nat.ne_of_lt) hk, panics_report, htext]
    intro j hj hne
    refine panics_report_eq_nil fun text' htext' => hne ?_
    exact due_unique hpos hj hk (hends htext') (hends htext)
  · have hlast : r.goesOn (r.run k).ending = false := by rw [huncaught]; rfl
    obtain rfl := due_unique hpos hj hk (hends htext) hlast
    cases huncaught.symm.trans htext

end Routine

/-! ## From the start to the stop -/

theorem not_start_of_idle {calls : List Call} (hidle : ∀ c ∈ calls, c.idle) : .start ∉ calls :=
  fun hmem => absurd (hidle .start hmem) (by decide)

/-- Before the first start every lane is as it has been registered. -/
theorem fresh_following {s : Scheduler} (hs : ∀ l ∈ s.lanes, ∃ routine, l = { routine })
    {calls : List Call} (hidle : ∀ c ∈ calls, c.idle) :
    ∀ l ∈ (following s calls).lanes, ∃ routine, l = { routine } := by
  induction calls generalizing s with
  | nil => exact hs
  | cons c calls ih =>
    obtain ⟨hc, hidle⟩ := List.forall_mem_cons.1 hidle
    refine ih (fun l hl => ?_) hidle
    rw [lanes_obey] at hl
    obtain hl | hl := List.mem_append.1 hl
    · obtain ⟨l, hmem, rfl⟩ := List.mem_map.1 hl
      obtain ⟨routine, rfl⟩ := hs l hmem
      cases c with
      | register routines => exact ⟨routine, rfl⟩
      | start | settle | stop => cases hc
      | sleep ms =>
        rw [told, Lane.runBefore, Lane.turnsBefore_absent rfl]
        exact ⟨routine, rfl⟩
    · cases c with
      | register routines =>
        obtain ⟨routine, -, rfl⟩ := List.mem_map.1 hl
        exact ⟨routine, rfl⟩
      | start | sleep | settle | stop => cases hl

section Lifetime

variable {before between afterwards : List Call} {place : Nat} {l : Lane}

/-- A start reaches every lane at once. -/
theorem lanes_started (before : List Call) :
    (after (before ++ [.start])).lanes =
      (after before).lanes.map fun l => l.start (after before).time := by
  rw [after_append]
  rfl

theorem time_started (before : List Call) :
    (after (before ++ [.start])).time = (after before).time := by
  rw [after_append]
  rfl

theorem after_between (before between : List Call) :
    after (before ++ .start :: between) = following (after (before ++ [.start])) between := by
  rw [List.append_cons, after_append]

/-- A lane that is there at the start keeps to its timetable until the stop. -/
theorem stops_between (hbefore : ∀ c ∈ before, c.idle) (hbetween : ∀ c ∈ between, c.idle)
    (hl : (after before).lanes[place]? = some l) (hpos : 0 < l.routine.interval) :
    let s := after (before ++ .start :: between)
    ∃ l', s.lanes[place]? = some l' ∧ l'.routine = l.routine ∧
      l'.Stops (after before).time s.time
        ((recordAt place (after (before ++ [.start])) between).map Entry.plain) := by
  rw [after_between]
  obtain ⟨routine, rfl⟩ := fresh_following (s := {}) nofun hbefore l (List.mem_of_getElem? hl)
  have hstarted : (after (before ++ [.start])).lanes[place]? =
      some (Lane.start { routine } (after before).time) := by
    rw [lanes_started, List.getElem?_map, hl, Option.map_some]
  let P : Lane → Nat → List Entry → Prop := fun l' now noted => l'.routine = routine ∧
    l'.Keeps (after before).time now (noted.map Entry.plain) ∧ l'.Waits now
  have hsleep : ∀ l' now ms noted, P l' now noted → P (l'.runBefore now (now + ms)).1 (now + ms)
      (noted ++ (l'.runBefore now (now + ms)).2) := by
    rintro l' now ms noted ⟨rfl, hk, hw⟩
    obtain ⟨hk', hw'⟩ := hk.runBefore hw hpos ms
    rw [← List.map_append] at hk'
    exact ⟨Lane.routine_turnsBefore _ _ _, hk', hw'⟩
  have hinit : P (Lane.start { routine } (after before).time) (after (before ++ [.start])).time
      [] := by
    rw [time_started]
    refine ⟨rfl, ⟨rfl, rfl, rfl, rfl, rfl⟩, fun m hm => ?_⟩
    cases hm
    exact Nat.le_refl _
  obtain ⟨l', hl', rfl, hk, hw⟩ := following_idle hsleep hbetween hstarted hinit
  exact ⟨l', hl', rfl, hk.stops hw hpos⟩

/-- A lane that is registered after the start is not begun. -/
theorem absent_between (hbetween : ∀ c ∈ between, c.idle)
    (hplace : (after before).lanes[place]? = none) :
    recordAt place (after (before ++ [.start])) between = [] ∧
      ∀ l, (after (before ++ .start :: between)).lanes[place]? = some l → l.stage = .absent := by
  have hnone : (after (before ++ [.start])).lanes[place]? = none := by
    rw [lanes_started, List.getElem?_map, hplace]
    rfl
  rw [after_between before between]
  refine recordAt_of_absent (fun l hl => ?_) (not_start_of_idle hbetween)
  rw [hnone] at hl
  cases hl

/-- What is noted at a place is noted between the start and the stop, or by the stop. -/
theorem recordAt_eq (hbefore : ∀ c ∈ before, c.idle) (hafterwards : ∀ c ∈ afterwards, c.idle)
    (place : Nat) :
    recordAt place {} (before ++ .start :: (between ++ .stop :: afterwards)) =
      recordAt place (after (before ++ [.start])) between ++
        (after (before ++ .start :: between)).lanes[place]?.elim [] fun l => l.stop.2 := by
  have hbefore : recordAt place {} before = [] :=
    (recordAt_of_absent (s := {}) (by simp) (not_start_of_idle hbefore)).1
  have hstart : recordAt place (after before) [.start] = [] := by
    show (after before).lanes[place]?.elim [] _ ++ [] = []
    cases (after before).lanes[place]? <;> rfl
  have hafter : recordAt place ((after (before ++ .start :: between)).obey .stop).1 afterwards
      = [] :=
    (recordAt_of_absent
      (fun l hl => (Halted.of_stop _).1 l (List.mem_of_getElem? hl))
      (not_start_of_idle hafterwards)).1
  calc recordAt place {} (before ++ .start :: (between ++ .stop :: afterwards))
    _ = recordAt place {} (before ++ [.start]) ++
          recordAt place (after (before ++ [.start])) (between ++ .stop :: afterwards) := by
      rw [List.append_cons, recordAt_append]
      rfl
    _ = recordAt place (after (before ++ [.start])) (between ++ .stop :: afterwards) := by
      rw [recordAt_append, hbefore]
      exact congrArg (· ++ _) hstart
    _ = recordAt place (after (before ++ [.start])) between ++
          recordAt place (after (before ++ .start :: between)) (.stop :: afterwards) := by
      rw [recordAt_append, after_between before between]
    _ = _ := congrArg (_ ++ ·) ((congrArg (_ ++ ·) hafter).trans (List.append_nil _))

/-- What is noted at a place is what the timetable of its routine says; nothing is noted of
    a routine that is registered after the start. -/
theorem recordAt_lifetime (hbefore : ∀ c ∈ before, c.idle) (hbetween : ∀ c ∈ between, c.idle)
    (hafterwards : ∀ c ∈ afterwards, c.idle)
    (hpos : ∀ l ∈ (after before).lanes, 0 < l.routine.interval) (place : Nat) :
    (recordAt place {} (before ++ .start :: (between ++ .stop :: afterwards))).map Entry.plain =
      (after before).lanes[place]?.elim [] fun l =>
        l.routine.timeline (after before).time (after (before ++ .start :: between)).time := by
  rw [recordAt_eq hbefore hafterwards, List.map_append]
  cases hl : (after before).lanes[place]? with
  | some l =>
    have hpos := hpos l (List.mem_of_getElem? hl)
    obtain ⟨l', hl', hroutine, hs⟩ := stops_between hbefore hbetween hl hpos
    rw [hl', Option.elim_some, Option.elim_some, ← hroutine]
    exact hs.timeline (hroutine ▸ hpos)
  | none =>
    obtain ⟨hnil, habsent⟩ := absent_between hbetween hl
    rw [hnil]
    cases hl' : (after (before ++ .start :: between)).lanes[place]? with
    | none => rfl
    | some l' => exact congrArg (List.map Entry.plain) (Lane.stop_absent (habsent l' hl'))

/-- The stop is through when the last of the runs that are in progress has ended. -/
theorem stop_le_iff (hbefore : ∀ c ∈ before, c.idle) (hbetween : ∀ c ∈ between, c.idle)
    (hpos : ∀ l ∈ (after before).lanes, 0 < l.routine.interval) (t : Nat) :
    let start := (after before).time
    let stop := (after (before ++ .start :: between)).time
    (after (before ++ .start :: (between ++ [.stop]))).time ≤ t ↔
      stop ≤ t ∧ ∀ l ∈ (after before).lanes, ∀ k ∈ l.routine.due start stop,
        stop < l.routine.ends start k → l.routine.ends start k ≤ t := by
  intro start stop
  have hthrough : (after (before ++ .start :: (between ++ [.stop]))).time =
      (after (before ++ .start :: between)).stopMoment := by
    rw [← List.cons_append, ← List.append_assoc, after_append]
    rfl
  rw [hthrough, stopMoment, foldl_max_le_iff]
  refine and_congr_right fun ht => ⟨fun hall l hl => ?_, fun hall l' hl' => ?_⟩
  · obtain ⟨place, hplace⟩ := List.getElem?_of_mem hl
    obtain ⟨l', hl', hroutine, hs⟩ := stops_between hbefore hbetween hplace (hpos l hl)
    rw [← hroutine]
    exact ((hs.stopMoment_le_iff (hroutine ▸ hpos l hl)).1
      (hall l' (List.mem_of_getElem? hl'))).2
  · obtain ⟨place, hplace'⟩ := List.getElem?_of_mem hl'
    cases hplace : (after before).lanes[place]? with
    | none =>
      have habsent := (absent_between hbetween hplace).2 l' hplace'
      rw [Lane.stopMoment, habsent]
      exact ht
    | some l =>
      have hl := List.mem_of_getElem? hplace
      obtain ⟨l'', hl'', hroutine, hs⟩ := stops_between hbefore hbetween hplace (hpos l hl)
      obtain rfl : l' = l'' := Option.some.inj (hplace'.symm.trans hl'')
      refine (hs.stopMoment_le_iff (hroutine ▸ hpos l hl)).2 ⟨ht, ?_⟩
      rw [hroutine]
      exact hall l hl

/-- A scheduler that is started once and stopped once. Run `k` of a routine that is there at
    the start begins after the `k` runs before it and a pause after each, if that is before
    the stop and these runs have let the routine go on; there are no other runs. All that is
    noted of a routine follows from that, so it does not depend on other routines. A
    routine that panics while a run is carried out is reported once, under its name; one
    that panics in the call of its handler is not. The stop is through at the latest end of
    the runs in progress. -/
theorem timeline_exact (before between afterwards : List Call)
    (hidle : ∀ c ∈ before ++ between ++ afterwards, c.idle)
    (hpos : ∀ l ∈ (after before).lanes, 0 < l.routine.interval) :
    let calls := before ++ .start :: (between ++ .stop :: afterwards)
    let start := (after before).time
    let stop := (after (before ++ .start :: between)).time
    (∀ place l, (after before).lanes[place]? = some l →
      (recordAt place {} calls).map Entry.plain = l.routine.timeline start stop ∧
      (∀ k, k ∈ l.routine.due start stop ↔ l.routine.begins start k < stop ∧ l.routine.GetsTo k) ∧
      (l.routine.due start stop).Pairwise (· < ·) ∧
      (∀ k ∈ l.routine.due start stop, ∀ text, (l.routine.run k).ending = .panic text →
        (l.routine.timeline start stop).filter (fun e => e.2.2.isPanic) =
          [(l.routine.ends start k, l.routine.name, .panic (text.getD unspokenPanic))]) ∧
      ((∀ k ∈ l.routine.due start stop, ∀ text, (l.routine.run k).ending ≠ .panic text) →
        (l.routine.timeline start stop).filter (fun e => e.2.2.isPanic) = []) ∧
      (∀ k ∈ l.routine.due start stop, (l.routine.run k).ending = .uncaught →
        (l.routine.timeline start stop).filter (fun e => e.2.2.isPanic) = [])) ∧
    (∃ registered : List Entry, (∀ e ∈ registered, ∃ ms, e.note = .registered ms) ∧
      ((record calls).map Entry.plain).Perm (registered.map Entry.plain ++
        (after before).lanes.flatMap fun l => l.routine.timeline start stop)) ∧
    (∀ t, (after (before ++ .start :: (between ++ [.stop]))).time ≤ t ↔
      stop ≤ t ∧ ∀ l ∈ (after before).lanes, ∀ k ∈ l.routine.due start stop,
        stop < l.routine.ends start k → l.routine.ends start k ≤ t) := by
  intro calls start stop
  obtain ⟨hidle, hafterwards⟩ := List.forall_mem_append.1 hidle
  obtain ⟨hbefore, hbetween⟩ := List.forall_mem_append.1 hidle
  have hrecord : ∀ place, (recordAt place {} calls).map Entry.plain =
      (after before).lanes[place]?.elim [] fun l => l.routine.timeline start stop :=
    recordAt_lifetime hbefore hbetween hafterwards hpos
  refine ⟨fun place l hl => ?_, ?_, stop_le_iff hbefore hbetween hpos⟩
  · have hpos := hpos l (List.mem_of_getElem? hl)
    have hplace := hrecord place
    rw [hl] at hplace
    exact ⟨hplace, fun k => Routine.mem_due_iff hpos, Routine.pairwise_due ..,
      l.routine.panics_timeline start stop hpos⟩
  · obtain ⟨registered, hregistered, hperm⟩ :=
      recordFrom_perm (s := {}) rfl calls (Nat.le_refl _)
    refine ⟨registered, hregistered, ?_⟩
    have hlength : (after before).lanes.length ≤ (following {} calls).lanes.length := by
      rw [show following {} calls = following (after before) _ from after_append ..]
      exact length_le_following ..
    have hplain := hperm.map Entry.plain
    rw [List.map_append, List.map_flatMap] at hplain
    simp only [hrecord, flatMap_range_getElem? _ hlength] at hplain
    exact hplain

end Lifetime

/-- A routine whose runs take four milliseconds, with pauses of ten. -/
def pulse : Routine := { name := "pulse", interval := 10, run := fun _ => { takes := 4 } }

/-- A routine whose second run panics while it is carried out. -/
def crash : Routine where
  name := "crash"
  interval := 5
  run n := { takes := 1, ending := if n = 1 then .panic (some "boom") else .success }

/-- A routine whose handler panics in its third call. -/
def stumble : Routine where
  name := "stumble"
  interval := 5
  run n := { ending := if n = 2 then .uncaught else .success }

/-- Of three routines one goes on, and has a run in progress at the stop, which waits for
    it; two panic, and one of these is reported. -/
theorem timeline_of_pulse_and_crash :
    let calls := [.register [pulse, crash, stumble], .start, .sleep 30, .stop, .sleep 5]
    (∀ c ∈ [Call.register [pulse, crash, stumble]] ++ [.sleep 30] ++ [.sleep 5], c.idle) ∧
    (∀ l ∈ (after [.register [pulse, crash, stumble]]).lanes, 0 < l.routine.interval) ∧
    (recordAt 0 {} calls).map Entry.plain =
      [(0, "pulse", .begin 0), (4, "pulse", .finish 0), (14, "pulse", .begin 1),
        (18, "pulse", .finish 1), (28, "pulse", .begin 2), (32, "pulse", .finish 2)] ∧
    (recordAt 1 {} calls).map Entry.plain =
      [(0, "crash", .begin 0), (1, "crash", .finish 0), (6, "crash", .begin 1),
        (7, "crash", .finish 1), (7, "crash", .panic "boom")] ∧
    (recordAt 2 {} calls).map Entry.plain =
      [(0, "stumble", .begin 0), (0, "stumble", .finish 0), (5, "stumble", .begin 1),
        (5, "stumble", .finish 1), (10, "stumble", .begin 2), (10, "stumble", .finish 2)] ∧
    (stumble.timeline 0 30).filter (fun e => e.2.2.isPanic) = [] ∧
    (after [.register [pulse, crash, stumble], .start, .sleep 30, .stop]).time = 32 := by
  have hidle : ∀ c ∈ [Call.register [pulse, crash, stumble]] ++ [.sleep 30] ++ [.sleep 5],
      c.idle := by
    simp [Call.idle]
  have hlanes : (after [.register [pulse, crash, stumble]]).lanes =
      [{ routine := pulse }, { routine := crash }, { routine := stumble }] := rfl
  have hpos : ∀ l ∈ (after [.register [pulse, crash, stumble]]).lanes,
      0 < l.routine.interval := by
    rw [hlanes]
    decide
  obtain ⟨hplaces, -, hstop⟩ := timeline_exact [.register [pulse, crash, stumble]] [.sleep 30]
    [.sleep 5] hidle hpos
  rw [hlanes] at hplaces hstop
  obtain ⟨hstumble, -, -, -, -, huncaught⟩ := hplaces 2 { routine := stumble } rfl
  refine ⟨hidle, hpos, ?_, ?_, ?_, huncaught 2 (by decide) rfl,
    Nat.le_antisymm ((hstop 32).2 (by decide)) ?_⟩
  · exact (hplaces 0 { routine := pulse } rfl).1.trans (by decide)
  · exact (hplaces 1 { routine := crash } rfl).1.trans (by decide)
  · exact hstumble.trans (by decide)
  · exact ((hstop _).1 (Nat.le_refl _)).2 { routine := pulse } List.mem_cons_self 2
      (by decide) (by decide)

/-- Does a run panic that ends so? -/
def Ending.isPanic : Ending → Bool
  | .panic _ | .uncaught => true
  | .success | .failure _ => false

/-- If a run of the routine panics, then once and under the routine's name a panic is noted
    at the end of that run. -/
def PanicReported (r : Routine) (start stop : Nat) (noted : List (Nat × String × Note)) : Prop :=
  ∀ k ∈ r.due start stop, (r.run k).ending.isPanic →
    ∃ text, noted.filter (fun e => e.2.2.isPanic) = [(r.ends start k, r.name, .panic text)]

/-- A routine that panics in the call of its handler ends without a report. -/
theorem panic_not_reported_of_stumble :
    ¬ PanicReported stumble 0 30
      ((recordAt 0 {} [.register [stumble], .start, .sleep 30, .stop]).map Entry.plain) := by
  intro hreported
  obtain ⟨text, htext⟩ := hreported 2 (by decide) rfl
  have hnone : ((recordAt 0 {} [.register [stumble], .start, .sleep 30, .stop]).map
      Entry.plain).filter (fun e => e.2.2.isPanic) = [] := by decide
  rw [hnone] at htext
  cases htext

end VpnNode.Scheduler
