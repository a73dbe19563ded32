import VpnNode.Proofs.Scheduler.Simulation

/-!
# Stopping and starting again

From a stop to the next start nothing runs. The start begins every routine again, also one
that has halted or panicked, and every routine then runs at once.

Main statements:

* `Halted.obey`: without a start nothing begins.
* `Halted.runs`: with a start every routine runs.
* `lifecycle_safe`: what holds of tasks in any order, and of a scheduler under a clock.
-/

namespace VpnNode.Scheduler

theorem after_append (calls more : List Call) :
    after (calls ++ more) = following (after calls) more := List.foldl_append

theorem historyFrom_append (place : Nat) (s : Scheduler) (h : List Event) (calls more : List Call) :
    historyFrom place s h (calls ++ more) =
      historyFrom place (following s calls) (historyFrom place s h calls) more := by
  induction calls generalizing s h with
  | nil => rfl
  | cons c calls ih => exact ih _ _

theorem history_append (place : Nat) (calls more : List Call) :
    history place (calls ++ more) = historyFrom place (after calls) (history place calls) more :=
  historyFrom_append place {} [] calls more

/-! ## While nothing has been begun -/

/-- No routine has been begun since the last stop. -/
def Halted (s : Scheduler) : Prop := ∀ l ∈ s.lanes, l.stage = .absent

namespace Halted

variable {s : Scheduler}

theorem running_eq (hs : s.Halted) : s.running = 0 := by
  refine List.countP_eq_zero.2 fun l hl => ?_
  rw [hs l hl]
  decide

/-- Nothing begins during a stop, and after it no routine has been begun. -/
theorem of_stop (s : Scheduler) : (s.obey .stop).1.Halted ∧
    ∀ place n t, .begin n t ∉ s.eventsAt place .stop := by
  refine ⟨fun l hl => ?_, fun place n t => ?_⟩
  · obtain ⟨l, -, rfl⟩ := List.mem_map.1 hl
    exact l.stage_stop
  · unfold eventsAt
    cases s.lanes[place]? with
    | none => simp
    | some l =>
      show Event.begin n t ∉ Event.stop s.stopMoment :: Event.ofEntries l.stop.2
      unfold Lane.stop
      split
      · dsimp only
        rw [Lane.ofEntries_finish]
        simp
      · simp [Event.ofEntries]

/-- Routines that have not been begun have no turns. -/
theorem turns (hs : s.Halted) {c : Call} (hadd : c.added = []) (limit : Nat)
    (htold : ∀ l, (s.told c l, s.notes c l) = l.runBefore s.time limit)
    (hevents : ∀ l, s.events c l = Event.ofEntries (s.notes c l)) :
    (s.obey c.command).1.Halted ∧ ∀ place n t, .begin n t ∉ s.eventsAt place c := by
  have hturns : ∀ l ∈ s.lanes, s.told c l = l ∧ s.notes c l = [] := fun l hl =>
    Prod.mk.inj ((htold l).trans (Lane.turnsBefore_absent (hs l hl) limit _))
  refine ⟨fun l hl => ?_, fun place n t => ?_⟩
  · rw [lanes_obey, hadd, List.append_nil] at hl
    obtain ⟨l, hmem, rfl⟩ := List.mem_map.1 hl
    rw [(hturns l hmem).1]
    exact hs l hmem
  · unfold eventsAt
    cases hl : s.lanes[place]? with
    | none => simp
    | some l =>
      dsimp only
      rw [hevents, (hturns l (List.mem_of_getElem? hl)).2]
      simp [Event.ofEntries]

/-- Without a start nothing begins. -/
theorem obey (hs : s.Halted) {c : Call} (hc : c ≠ .start) :
    (s.obey c.command).1.Halted ∧ ∀ place n t, .begin n t ∉ s.eventsAt place c := by
  cases c with
  | start => exact absurd rfl hc
  | stop => exact of_stop s
  | register routines =>
    refine ⟨fun l hl => ?_, fun place n t => ?_⟩
    · rw [lanes_obey] at hl
      obtain hl | hl := List.mem_append.1 hl
      · obtain ⟨l, hmem, rfl⟩ := List.mem_map.1 hl
        exact hs l hmem
      · obtain ⟨routine, -, rfl⟩ := List.mem_map.1 hl
        rfl
    · unfold eventsAt
      cases s.lanes[place]? <;> simp [events]
  | sleep ms => exact hs.turns rfl (s.time + ms) (fun _ => rfl) fun _ => rfl
  | settle => exact hs.turns rfl (s.time + 1) (fun _ => rfl) fun _ => rfl

theorem following (hs : s.Halted) {calls : List Call} (hcalls : .start ∉ calls) (place : Nat)
    (h : List Event) : (following s calls).Halted ∧ ∃ later,
      historyFrom place s h calls = later ++ h ∧ ∀ n t, .begin n t ∉ later := by
  induction calls generalizing s h with
  | nil => exact ⟨hs, [], rfl, by simp⟩
  | cons c calls ih =>
    have hc : c ≠ .start := (List.ne_of_not_mem_cons hcalls).symm
    obtain ⟨hs', hnone⟩ := hs.obey hc
    obtain ⟨hs'', later, hlater, hnone'⟩ :=
      ih hs' (List.not_mem_of_not_mem_cons hcalls) (s.eventsAt place c ++ h)
    refine ⟨hs'', later ++ s.eventsAt place c, ?_, fun n t => ?_⟩
    · rw [List.append_assoc]
      exact hlater
    · exact fun hmem => (List.mem_append.1 hmem).elim (hnone' n t) (hnone place n t)

end Halted

/-- The first thing that a routine does in a turn before a run is to begin it. -/
theorem Lane.ofEntries_begin (l : Lane) (m : Nat) (nudged : Bool) :
    ∃ later, Event.ofEntries (l.begin m nudged).2 = later ++ [.begin l.runs m] := by
  unfold begin
  dsimp only
  split
  · exact ⟨_, Event.ofEntries_append [_] _⟩
  · exact ⟨[], rfl⟩

/-- A turn that is due comes first. -/
theorem Lane.turnsBefore_succ {l : Lane} {m limit : Nat} (hm : l.moment? = some m)
    (hlt : m < limit) (fuel : Nat) :
    l.turnsBefore limit (fuel + 1) =
      ((l.turn.1.turnsBefore limit fuel).1, l.turn.2 ++ (l.turn.1.turnsBefore limit fuel).2) := by
  rw [turnsBefore, hm]
  exact if_pos hlt

/-- Once started every routine runs at once. -/
theorem Halted.runs {s : Scheduler} (hs : s.Halted) {place : Nat} {l : Lane}
    (hl : s.lanes[place]? = some l) (ms : Nat) (h : List Event) :
    ∃ later, historyFrom place s h [.start, .sleep (ms + 1)] =
      later ++ .begin l.runs s.time :: .start s.time :: h := by
  have habsent := hs l (List.mem_of_getElem? hl)
  let l' : Lane := { l with stage := .pending s.time false, waits := [] }
  have hl' : (s.obey .start).1.lanes[place]? = some l' := by
    show (s.lanes.map _)[place]? = _
    rw [List.getElem?_map, hl, Option.map_some]
    unfold Lane.start
    rw [habsent]
  have hstart : s.eventsAt place .start = [.start s.time] := by
    unfold eventsAt
    rw [hl]
    rfl
  obtain ⟨later, hbegin⟩ := l'.ofEntries_begin s.time false
  -- The first turn is due at the moment of the start.
  have hlt : s.time < s.time + (ms + 1) := Nat.lt_add_of_pos_right ms.succ_pos
  obtain ⟨es, hturns⟩ : ∃ es, (l'.runBefore s.time (s.time + (ms + 1))).2 =
      (l'.begin s.time false).2 ++ es :=
    ⟨_, congrArg Prod.snd (Lane.turnsBefore_succ (l := l') rfl hlt _)⟩
  have hsleep : (s.obey .start).1.eventsAt place (.sleep (ms + 1)) =
      Event.ofEntries es ++ later ++ [.begin l.runs s.time] := by
    unfold eventsAt
    rw [hl', List.append_assoc, ← hbegin, ← Event.ofEntries_append, ← hturns]
    rfl
  refine ⟨Event.ofEntries es ++ later, ?_⟩
  show (s.obey .start).1.eventsAt place (.sleep (ms + 1)) ++ (s.eventsAt place .start ++ h) = _
  rw [hstart, hsleep, List.append_assoc]
  rfl

/-! ## The whole -/

/-- At any time, in whatever order tasks take their steps: a routine has at most one task
    that is not over, and at most one run in progress; a start begins a task for exactly
    the routines that have had none since the last stop, and each of these runs; no run
    begins while the signal is up; and when a stop is through nothing is running. A
    scheduler under a clock does what such tasks do: none of its routines overlaps with
    itself, nothing begins from a stop to the next start, and with the start every routine
    runs again, whatever has become of it before. -/
theorem lifecycle_safe (moves : List Crew.Move) (calls between : List Call)
    (hbetween : .start ∉ between) (ms : Nat) :
    (Crew.after moves).Safe ∧
    (∃ moves, Shows (after calls) (Crew.after moves) ∧
      (after calls).running = (Crew.after moves).running ∧
      ∀ place, TellsOf place (Crew.after moves).log (history place calls)) ∧
    (∀ place later n t earlier, history place calls = later ++ .begin n t :: earlier →
      Busy (earlier.map (Event.deed place)) place 0) ∧
    (after (calls ++ .stop :: between)).running = 0 ∧
    ∀ (place : Nat) (l : Lane), (after (calls ++ .stop :: between)).lanes[place]? = some l →
      (∃ later, history place (calls ++ .stop :: between) = later ++ history place calls ∧
        ∀ n t, .begin n t ∉ later) ∧
      ∃ later, history place (calls ++ .stop :: between ++ [.start, .sleep (ms + 1)]) =
        later ++ .begin l.runs (after (calls ++ .stop :: between)).time ::
          .start (after (calls ++ .stop :: between)).time ::
            history place (calls ++ .stop :: between) := by
  obtain ⟨hstopped, hnone⟩ := Halted.of_stop (after calls)
  have hhalted : (after (calls ++ .stop :: between)).Halted := by
    rw [after_append]
    exact (hstopped.following hbetween 0 []).1
  obtain ⟨moves', hshows, htells⟩ := shows_after calls
  refine ⟨(Crew.sound_after moves).safe, ⟨moves', hshows, hshows.running_eq, htells⟩,
    fun place later n t earlier hh => (htells place).busy hshows.sound.orderly hh,
    hhalted.running_eq, fun place l hl => ⟨?_, ?_⟩⟩
  · obtain ⟨-, later, hlater, hlater'⟩ := hstopped.following hbetween place
      ((after calls).eventsAt place .stop ++ history place calls)
    refine ⟨later ++ (after calls).eventsAt place .stop, ?_, fun n t hmem => ?_⟩
    · rw [history_append, List.append_assoc]
      exact hlater
    · exact (List.mem_append.1 hmem).elim (hlater' n t) (hnone place n t)
  · rw [history_append]
    exact hhalted.runs hl ms _

/-- A routine that fails, and halts. -/
def faltering : Routine :=
  { name := "falter", interval := 1000, run := fun _ => { ending := .failure "no answer" }
    rule := some .halt }

/-- A routine that has halted runs again after a stop and a start. -/
theorem lifecycle_of_faltering :
    Call.start ∉ [.register [faltering]] ∧
    ∃ later, history 0 ([.register [faltering], .start, .sleep 1] ++
        .stop :: [.register [faltering]] ++ [.start, .sleep 1]) =
      later ++ .begin 1 1 :: .start 1 :: history 0 ([.register [faltering], .start, .sleep 1] ++
        .stop :: [.register [faltering]]) := by
  have hbetween : Call.start ∉ [.register [faltering]] := by simp
  exact ⟨hbetween, ((lifecycle_safe [] [.register [faltering], .start, .sleep 1]
    [.register [faltering]] hbetween 0).2.2.2.2 0
      { routine := faltering, runs := 1 } rfl).2⟩

end VpnNode.Scheduler
