import VpnNode.Scheduler.Clock

/-!
# What happens to a lane

The calls to one scheduler, and what they come to for the routine at one place among its
lanes: the calls that reach it and its runs, each with its moment, the latest first.

Main statements:

* `lanes_obey`, `time_obey`: what a call does to every lane and to the clock.
* `obey_perm`: what a call notes is what its lanes note, in another order.
* `history_induction`: what every call keeps holds of a lane and its history after any
  calls.
-/

namespace VpnNode.Scheduler

/-! ## Calls -/

/-- A call to a scheduler, or what comes before the next one: time that passes, or turns that
    are due. -/
inductive Call where
  | register (routines : List Routine)
  | start
  | sleep (ms : Nat)
  | settle
  | stop

def Call.command : Call → Command
  | .register routines => .register routines
  | .start => .start
  | .sleep ms => .sleep ms
  | .settle => .settle
  | .stop => .stop

/-- The lanes that a call adds. -/
def Call.added : Call → List Lane
  | .register routines => routines.map fun routine => { routine }
  | _ => []

/-- A scheduler after further calls. -/
def following (s : Scheduler) (calls : List Call) : Scheduler :=
  calls.foldl (fun s c => (s.obey c.command).1) s

/-- A new scheduler after calls. -/
def after (calls : List Call) : Scheduler := following {} calls

/-- A lane after a call. -/
def told (s : Scheduler) (c : Call) (l : Lane) : Lane :=
  match c with
  | .register _ => l
  | .start => l.start s.time
  | .sleep ms => (l.runBefore s.time (s.time + ms)).1
  | .settle => (l.runBefore s.time (s.time + 1)).1
  | .stop => l.stop.1

/-- What a lane notes during a call. -/
def notes (s : Scheduler) (c : Call) (l : Lane) : List Entry :=
  match c with
  | .register _ | .start => []
  | .sleep ms => (l.runBefore s.time (s.time + ms)).2
  | .settle => (l.runBefore s.time (s.time + 1)).2
  | .stop => l.stop.2

/-- The moment at which a call is through. -/
def nextTime (s : Scheduler) : Call → Nat
  | .register _ | .start | .settle => s.time
  | .sleep ms => s.time + ms
  | .stop => s.stopMoment

theorem lanes_obey (s : Scheduler) (c : Call) :
    (s.obey c.command).1.lanes = s.lanes.map (s.told c) ++ c.added := by
  cases c with
  | register routines =>
    show s.lanes ++ _ = s.lanes.map (fun l => l) ++ _
    rw [List.map_id']
    rfl
  | start | sleep | settle | stop => exact (List.append_nil _).symm

theorem time_obey (s : Scheduler) (c : Call) : (s.obey c.command).1.time = s.nextTime c := by
  cases c <;> rfl

theorem remains_obey {s : Scheduler} (h : s.remains = []) (c : Call) :
    (s.obey c.command).1.remains = [] := by
  cases c with
  | register routines => exact h
  | start => exact h
  | sleep | settle =>
    show s.remains.map _ = []
    rw [h]
    rfl
  | stop =>
    show (if s.running = 0 then (s.remains, ([] : List Entry)) else _).1 = []
    split
    · exact h
    · rw [h]
      rfl

/-- What a call notes is what is registered and what the lanes note, in the order of
    `arrange`: the lanes' own notes are all there is. -/
theorem obey_perm {s : Scheduler} (h : s.remains = []) (c : Call) :
    ∃ registered, (∀ e ∈ registered, ∃ ms, e.note = .registered ms) ∧
      (s.obey c.command).2.Perm (registered ++ s.lanes.flatMap (s.notes c)) := by
  have harr : ∀ es, (arrange es).Perm es := fun es => List.mergeSort_perm es _
  cases c with
  | register routines =>
    refine ⟨(s.register routines).2, ?_, ?_⟩
    · intro e he
      obtain ⟨r, -, rfl⟩ := List.mem_map.1 he
      exact ⟨r.interval, rfl⟩
    · refine (harr _).trans ?_
      rw [show s.lanes.flatMap (s.notes (.register routines)) = [] from
        List.flatMap_eq_nil_iff.2 fun _ _ => rfl, List.append_nil]
      exact .refl _
  | start =>
    refine ⟨[], by simp, (harr _).trans ?_⟩
    rw [show s.lanes.flatMap (s.notes .start) = [] from List.flatMap_eq_nil_iff.2 fun _ _ => rfl]
    exact .refl _
  | sleep | settle =>
    refine ⟨[], by simp, (harr _).trans ?_⟩
    show (s.remains.flatMap _ ++ s.lanes.flatMap _).Perm _
    rw [h]
    exact .refl _
  | stop =>
    refine ⟨[], by simp, (harr _).trans ?_⟩
    show ((if s.running = 0 then (s.remains, ([] : List Entry)) else _).2 ++ _).Perm _
    split
    · exact .refl _
    · rw [h]
      exact .refl _

/-! ## What a turn leaves and notes -/

@[simp] theorem Lane.routine_rest (l : Lane) (m : Nat) (nudged : Bool) :
    (l.rest m nudged).routine = l.routine := by
  unfold rest
  split
  · rfl
  · split <;> rfl

@[simp] theorem Lane.routine_finish (l : Lane) (m : Nat) (nudged : Bool) :
    (l.finish m nudged).1.routine = l.routine := by
  unfold finish
  dsimp only
  split
  · exact routine_rest l m nudged
  · rfl
  · rfl
  · split
    · exact routine_rest l m nudged
    · exact routine_rest l m nudged
    · rfl
    · rfl

@[simp] theorem Lane.routine_begin (l : Lane) (m : Nat) (nudged : Bool) :
    (l.begin m nudged).1.routine = l.routine := by
  unfold begin
  dsimp only
  split
  · exact routine_finish _ m nudged
  · rfl

@[simp] theorem Lane.routine_turn (l : Lane) : l.turn.1.routine = l.routine := by
  unfold turn
  split <;> simp

theorem Lane.routine_turnsBefore (limit : Nat) (l : Lane) (fuel : Nat) :
    (l.turnsBefore limit fuel).1.routine = l.routine := by
  induction fuel generalizing l with
  | zero => rfl
  | succ n ih =>
    unfold turnsBefore
    split
    · rfl
    · split
      · rw [ih, routine_turn]
      · rfl

/-- A lane keeps its routine. -/
theorem routine_told (s : Scheduler) (c : Call) (l : Lane) : (s.told c l).routine = l.routine := by
  cases c with
  | register routines => rfl
  | start =>
    show (l.start s.time).routine = l.routine
    unfold Lane.start
    split <;> rfl
  | sleep | settle => exact Lane.routine_turnsBefore _ l _
  | stop =>
    show l.stop.1.routine = l.routine
    unfold Lane.stop
    split
    · exact Lane.routine_finish l _ false
    · rfl

/-! ## Histories -/

/-- What happens to a routine: it is started or stopped, a run begins or ends. -/
inductive Event where
  | start (moment : Nat)
  | begin (run moment : Nat)
  | finish (run moment : Nat)
  /-- A stop is through. -/
  | stop (moment : Nat)
  deriving DecidableEq, Repr

/-- The event of a note, if it is about the beginning or the end of a run. -/
def Event.ofEntry? (e : Entry) : Option Event :=
  match e.note with
  | .begin run => some (.begin run e.moment)
  | .finish run => some (.finish run e.moment)
  | _ => none

/-- The events of notes, the latest first. -/
def Event.ofEntries (noted : List Entry) : List Event := (noted.filterMap ofEntry?).reverse

/-- What happens to a lane during a call, the latest first. -/
def events (s : Scheduler) (c : Call) (l : Lane) : List Event :=
  match c with
  | .register _ => []
  | .start => [.start s.time]
  | .sleep _ | .settle => Event.ofEntries (s.notes c l)
  | .stop => .stop s.stopMoment :: Event.ofEntries (s.notes c l)

/-- What happens at a place during a call; nothing where there is no lane yet. -/
def eventsAt (s : Scheduler) (place : Nat) (c : Call) : List Event :=
  match s.lanes[place]? with
  | none => []
  | some l => s.events c l

/-- The history of a place after further calls. -/
def historyFrom (place : Nat) (s : Scheduler) (h : List Event) : List Call → List Event
  | [] => h
  | c :: calls => historyFrom place (s.obey c.command).1 (s.eventsAt place c ++ h) calls

/-- What has happened at a place after calls to a new scheduler, the latest first. -/
def history (place : Nat) (calls : List Call) : List Event := historyFrom place {} [] calls

theorem Event.ofEntries_append (a b : List Entry) :
    ofEntries (a ++ b) = ofEntries b ++ ofEntries a := by
  simp only [ofEntries, List.filterMap_append, List.reverse_append]

theorem Lane.ofEntries_finish (l : Lane) (m : Nat) (nudged : Bool) :
    Event.ofEntries (l.finish m nudged).2 = [.finish (l.runs - 1) m] := by
  unfold finish
  dsimp only
  split
  · rfl
  · rfl
  · rfl
  · split <;> rfl

/-- After a run a routine has ended, or pauses for its interval, or leaves the pause out. -/
theorem Lane.finish_cases (l : Lane) (m : Nat) (nudged : Bool) :
    (l.finish m nudged).1.runs = l.runs ∧ ((l.finish m nudged).1.stage = .ended ∨
      (l.finish m nudged).1.stage =
        if nudged then .roused m false else .pausing (m + l.routine.interval)) := by
  have hrest : (l.rest m nudged).runs = l.runs ∧ ((l.rest m nudged).stage = .ended ∨
      (l.rest m nudged).stage =
        if nudged then .roused m false else .pausing (m + l.routine.interval)) := by
    unfold rest
    cases nudged with
    | true => exact ⟨rfl, .inr rfl⟩
    | false =>
      cases l.abandoned with
      | true => exact ⟨rfl, .inl rfl⟩
      | false => exact ⟨rfl, .inr rfl⟩
  unfold finish
  dsimp only
  split
  · exact hrest
  · exact ⟨rfl, .inl rfl⟩
  · exact ⟨rfl, .inl rfl⟩
  · split
    · exact hrest
    · exact hrest
    · exact ⟨rfl, .inl rfl⟩
    · exact ⟨rfl, .inl rfl⟩

/-- What holds of a lane that has just been registered, and is kept by every call, holds
    of the lane at any place and its history after any calls. The property may speak of
    the clock. -/
theorem history_induction {P : Lane → Nat → List Event → Prop}
    (hnew : ∀ routine now, P { routine } now [])
    (hcall : ∀ (s : Scheduler) c l h, P l s.time h → P (s.told c l) (s.nextTime c) (s.events c l ++ h))
    (calls : List Call) (place : Nat) {l : Lane} (hl : (after calls).lanes[place]? = some l) :
    P l (after calls).time (history place calls) := by
  -- Before its registration a place has no lane and no history.
  suffices hrun : ∀ (s : Scheduler) (h : List Event),
      (s.lanes[place]? = none → h = []) → (∀ l, s.lanes[place]? = some l → P l s.time h) →
      ∀ l, (following s calls).lanes[place]? = some l →
        P l (following s calls).time (historyFrom place s h calls) by
    exact hrun {} [] (fun _ => rfl) (fun l h => by cases h) l hl
  clear hl
  induction calls with
  | nil => exact fun s h _ hs => hs
  | cons c r ih =>
    intro s h hnone hsome
    refine ih (s.obey c.command).1 (s.eventsAt place c ++ h) ?_ ?_
    · intro hno
      rw [lanes_obey, List.getElem?_append] at hno
      unfold eventsAt
      cases hs : s.lanes[place]? with
      | none => exact hnone hs
      | some l =>
        have hlt := (List.getElem?_eq_some_iff.1 hs).1
        rw [List.length_map, if_pos hlt, List.getElem?_map, hs] at hno
        cases hno
    · intro l' hl'
      rw [lanes_obey, List.getElem?_append, List.length_map] at hl'
      rw [time_obey]
      unfold eventsAt
      cases hs : s.lanes[place]? with
      | none =>
        have hge := List.getElem?_eq_none_iff.1 hs
        rw [if_neg (by omega)] at hl'
        rw [hnone hs]
        cases c with
        | register routines =>
          simp only [Call.added, List.getElem?_map] at hl'
          obtain ⟨routine, -, rfl⟩ := Option.map_eq_some_iff.1 hl'
          exact hnew routine _
        | start | sleep | settle | stop => simp [Call.added] at hl'
      | some l =>
        have hlt := (List.getElem?_eq_some_iff.1 hs).1
        rw [if_pos hlt, List.getElem?_map, hs] at hl'
        cases hl'
        exact hcall s c l h (hsome l hs)

end VpnNode.Scheduler
