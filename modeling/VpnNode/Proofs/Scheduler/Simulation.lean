import VpnNode.Proofs.Scheduler.Crew
import VpnNode.Proofs.Scheduler.History

/-!
# Lanes as tasks

A scheduler under a clock does nothing that tasks could not do: after any calls each lane
is where the task at its place is after some moves, and the runs of the lane are those of
the task.

`Mirrors` relates a task to a lane, `Shows` a scheduler with tasks to one under a clock.

Main statements:

* `Mirrors.turnsBefore`, `Mirrors.stop`: steps of a task for what a lane does.
* `Crew.sweep`: steps of every task, one after the other.
* `Shows.obey`: moves for a call.
* `shows_after`: moves for any calls.
* `TellsOf.busy`: what a log says of the runs in a history.
-/

namespace VpnNode.Scheduler

/-! ## Steps of one task -/

/-- The first task becomes the second one by some steps, and does this. -/
inductive Task.Reaches (raised : Bool) : Task → Task → List Deed → Prop where
  | refl (t : Task) : Reaches raised t t []
  | step (t : Task) (chance : Chance) {t' : Task} {done : List Deed}
      (h : Reaches raised (t.step raised chance).1 t' done) :
      Reaches raised t t' (done ++ (t.step raised chance).2)

theorem Task.Reaches.trans {raised : Bool} {t t' t'' : Task} {done done' : List Deed}
    (h : Reaches raised t t' done) (h' : Reaches raised t' t'' done') :
    Reaches raised t t'' (done' ++ done) := by
  induction h with
  | refl t =>
    rw [List.append_nil]
    exact h'
  | step t chance _ ih =>
    rw [← List.append_assoc]
    exact .step t chance (ih h')

theorem Task.Reaches.single {raised : Bool} {t t' : Task} {chance : Chance} {done : List Deed}
    (h : t.step raised chance = (t', done)) : Reaches raised t t' done := by
  have hs : Reaches raised t _ ([] ++ (t.step raised chance).2) := .step t chance (.refl _)
  rw [h] at hs
  exact hs

theorem Task.Reaches.inner {raised : Bool} {t t' : Task} {done : List Deed}
    (h : Reaches raised t t' done) : t'.place = t.place ∧ ∀ d ∈ done, d.Inner t.place := by
  induction h with
  | refl t => exact ⟨rfl, by simp⟩
  | step t chance _ ih =>
    obtain ⟨hplace, -, hinner⟩ := t.step_inner raised chance
    rw [hplace] at ih
    refine ⟨ih.1, fun d hd => ?_⟩
    obtain hd | hd := List.mem_append.1 hd
    · exact ih.2 d hd
    · exact hinner d hd

/-- While the signal is up a task that is not in a run can be over. -/
theorem Task.step_leave {t : Task} (hp : t.phase = .ready ∨ t.phase = .pausing) :
    t.step true { timed := false } = ({ t with phase := .ended }, [.leave t.place]) := by
  unfold step
  obtain hp | hp := hp <;> rw [hp] <;> rfl

/-! ## What a history tells -/

/-- What an event is for the place where it happens. -/
def Event.deed (place : Nat) : Event → Deed
  | .start _ => .start
  | .begin _ _ => .begin place
  | .finish _ _ => .finish place
  | .stop _ => .stopped

/-- Would the history of a place tell of it? -/
def Deed.concerns (place : Nat) (d : Deed) : Bool :=
  d = .start ∨ d = .stopped ∨ d = .begin place ∨ d = .finish place

/-- What a place is concerned with. -/
def share (place : Nat) (done : List Deed) : List Deed := done.filter (Deed.concerns place)

theorem share_append (place : Nat) (a b : List Deed) :
    share place (a ++ b) = share place a ++ share place b := List.filter_append ..

/-- What a task does does not concern another place. -/
theorem share_inner {place p : Nat} {done : List Deed} (hd : ∀ d ∈ done, d.Inner place)
    (hp : p ≠ place) : share p done = [] := by
  refine List.filter_eq_nil_iff.2 fun d hmem => ?_
  obtain rfl | rfl | rfl := hd d hmem <;> simp [Deed.concerns, Ne.symm hp]

/-- What a lane has noted, as what is done at its place. -/
def noted (place : Nat) (es : List Entry) : List Deed := (Event.ofEntries es).map (Event.deed place)

theorem noted_append (place : Nat) (a b : List Entry) :
    noted place (a ++ b) = noted place b ++ noted place a := by
  rw [noted, Event.ofEntries_append, List.map_append]
  rfl

theorem noted_finish (place : Nat) (l : Lane) (m : Nat) (nudged : Bool) :
    noted place (l.finish m nudged).2 = [.finish place] := by
  rw [noted, Lane.ofEntries_finish]
  rfl

/-! ## A lane and its task -/

/-- The phase of a task whose lane is in a stage. -/
def Stage.phase? : Stage → Option Phase
  | .absent => none
  | .pending _ _ => some .ready
  | .handling _ _ => some .handling
  | .pausing _ | .roused _ _ => some .pausing
  | .ended => some .ended

/-- A task is where a lane is whose scheduler has not been given up. -/
structure Mirrors (t : Task) (l : Lane) : Prop where
  routine : t.routine = l.routine
  phase : l.stage.phase? = some t.phase
  kept : l.abandoned = false

theorem Lane.abandoned_rest (l : Lane) (m : Nat) (nudged : Bool) :
    (l.rest m nudged).abandoned = l.abandoned := by
  unfold rest
  split
  · rfl
  · split <;> rfl

theorem Lane.phase?_rest {l : Lane} (hkept : l.abandoned = false) (m : Nat) (nudged : Bool) :
    (l.rest m nudged).stage.phase? = some .pausing := by
  unfold rest
  rw [hkept]
  cases nudged <;> rfl

/-- After a run the lane pauses if the routine goes on, and has ended otherwise. -/
theorem Lane.finish_eq {l : Lane} (hkept : l.abandoned = false) (m : Nat) (nudged : Bool) :
    (l.finish m nudged).1.abandoned = false ∧ (l.finish m nudged).1.stage.phase? =
      some (bif l.routine.goesOn (l.routine.run (l.runs - 1)).ending then .pausing else .ended) := by
  have hrest := (l.abandoned_rest m nudged).trans hkept
  unfold finish
  dsimp only
  cases (l.routine.run (l.runs - 1)).ending with
  | success => exact ⟨hrest, phase?_rest hkept m nudged⟩
  | panic text | uncaught => exact ⟨hkept, rfl⟩
  | failure text =>
    unfold Routine.goesOn
    dsimp only
    cases l.routine.reaction text with
    | none => exact ⟨hrest, phase?_rest hkept m nudged⟩
    | some reaction =>
      cases reaction with
      | proceed => exact ⟨hrest, phase?_rest hkept m nudged⟩
      | halt => exact ⟨hkept, rfl⟩
      | collapse => exact ⟨hkept, rfl⟩

/-- A routine that has not been begun has no turns. -/
theorem Lane.turnsBefore_absent {l : Lane} (hl : l.stage = .absent) (limit fuel : Nat) :
    l.turnsBefore limit fuel = (l, []) := by
  cases fuel with
  | zero => rfl
  | succ fuel =>
    unfold turnsBefore moment?
    rw [hl]

theorem Lane.stage_stop (l : Lane) : l.stop.1.stage = .absent := by
  unfold stop
  split <;> rfl

theorem Lane.abandoned_stop {l : Lane} (hkept : l.abandoned = false) :
    l.stop.1.abandoned = false := by
  unfold stop
  split
  · exact (finish_eq hkept _ false).1
  · exact hkept

theorem Lane.stop_absent {l : Lane} (hl : l.stage = .absent) : l.stop.2 = [] := by
  unfold stop
  rw [hl]

/-- A task can do what a lane notes, and is then where the lane is. -/
def Task.Does (raised : Bool) (t : Task) (l : Lane) (es : List Entry) : Prop :=
  ∃ t' done, t.Reaches raised t' done ∧ Mirrors t' l ∧ share t.place done = noted t.place es

theorem Task.Does.trans {raised : Bool} {t t' : Task} {l : Lane} {es es' : List Entry}
    {done : List Deed} (h : t.Reaches raised t' done)
    (hshare : share t.place done = noted t.place es) (h' : t'.Does raised l es') :
    t.Does raised l (es ++ es') := by
  obtain ⟨t'', done', hr, hm, hshare'⟩ := h'
  rw [h.inner.1] at hshare'
  refine ⟨t'', done' ++ done, h.trans hr, hm, ?_⟩
  rw [share_append, hshare, hshare', noted_append]

namespace Mirrors

variable {t : Task} {l : Lane}

theorem alive_eq (hm : Mirrors t l) : l.stage.alive = decide (t.phase ≠ .ended) := by
  have hphase := hm.phase
  cases hl : l.stage with
  | absent =>
    rw [hl] at hphase
    cases hphase
  | ended | pending _ _ | handling _ _ | pausing _ | roused _ _ =>
    rw [hl] at hphase
    rw [← Option.some.inj hphase]
    rfl

theorem finish (hm : Mirrors t l) (hp : t.phase = .handling) (m : Nat) (nudged raised : Bool) :
    t.Does raised (l.finish m nudged).1 (l.finish m nudged).2 := by
  obtain ⟨hkept, hphase⟩ := l.finish_eq hm.kept m nudged
  -- The run of the task ends as that of the lane.
  have hstep : t.step raised { ending := (l.routine.run (l.runs - 1)).ending } =
      if l.routine.goesOn (l.routine.run (l.runs - 1)).ending then
        ({ t with phase := .pausing }, [.finish t.place])
      else ({ t with phase := .ended }, [.leave t.place, .finish t.place]) := by
    unfold Task.step
    rw [hp, hm.routine]
  have hroutine := hm.routine.trans (l.routine_finish m nudged).symm
  cases hg : l.routine.goesOn (l.routine.run (l.runs - 1)).ending with
  | true =>
    rw [hg] at hstep hphase
    exact ⟨_, _, .single hstep, ⟨hroutine, hphase, hkept⟩, by
      simp [noted_finish, share, Deed.concerns]⟩
  | false =>
    rw [hg] at hstep hphase
    exact ⟨_, _, .single hstep, ⟨hroutine, hphase, hkept⟩, by
      simp [noted_finish, share, Deed.concerns]⟩

theorem begin (hm : Mirrors t l) (hp : t.phase = .ready) (m : Nat) (nudged : Bool) :
    t.Does false (l.begin m nudged).1 (l.begin m nudged).2 := by
  have hstep : t.step false {} = ({ t with phase := .handling }, [.begin t.place]) := by
    unfold Task.step
    rw [hp]
    rfl
  have hshare : share t.place [.begin t.place] = noted t.place [l.entry m (.begin l.runs)] := by
    simp [share, Deed.concerns]
    rfl
  unfold Lane.begin
  dsimp only
  split
  · have hm' : Mirrors { t with phase := .handling }
        { l with runs := l.runs + 1, stage := .handling m nudged } := ⟨hm.routine, rfl, hm.kept⟩
    show t.Does false _ ([_] ++ _)
    exact .trans (.single hstep) hshare (hm'.finish rfl m nudged false)
  · exact ⟨_, _, .single hstep, ⟨hm.routine, rfl, hm.kept⟩, hshare⟩

/-- A pause is over, and a run begins. -/
theorem resume (hm : Mirrors t l) (hp : t.phase = .pausing) (m : Nat) (nudged : Bool) :
    t.Does false (l.begin m nudged).1 (l.begin m nudged).2 := by
  have hstep : t.step false {} = ({ t with phase := .ready }, []) := by
    unfold Task.step
    rw [hp]
    rfl
  have hm' : Mirrors { t with phase := .ready } { l with stage := .pending m nudged } :=
    ⟨hm.routine, rfl, hm.kept⟩
  show t.Does false _ ([] ++ _)
  exact .trans (.single hstep) rfl (hm'.begin rfl m nudged)

theorem turn (hm : Mirrors t l) : t.Does false l.turn.1 l.turn.2 := by
  have hnil : t.Does false l [] := ⟨t, [], .refl t, hm, rfl⟩
  have hphase := hm.phase
  unfold Lane.turn
  cases hl : l.stage with
  | absent => exact hnil
  | ended => exact hnil
  | pending m nudged =>
    rw [hl] at hphase
    exact hm.begin (Option.some.inj hphase).symm m nudged
  | handling m nudged =>
    rw [hl] at hphase
    exact hm.finish (Option.some.inj hphase).symm m nudged false
  | pausing m =>
    rw [hl] at hphase
    exact hm.resume (Option.some.inj hphase).symm m false
  | roused m nudged =>
    rw [hl] at hphase
    exact hm.resume (Option.some.inj hphase).symm m nudged

theorem turnsBefore (limit : Nat) (hm : Mirrors t l) (fuel : Nat) :
    t.Does false (l.turnsBefore limit fuel).1 (l.turnsBefore limit fuel).2 := by
  induction fuel generalizing t l with
  | zero => exact ⟨t, [], .refl t, hm, rfl⟩
  | succ fuel ih =>
    unfold Lane.turnsBefore
    split
    · exact ⟨t, [], .refl t, hm, rfl⟩
    · split
      · obtain ⟨t', done, hr, hm', hshare⟩ := hm.turn
        exact .trans hr hshare (ih hm')
      · exact ⟨t, [], .refl t, hm, rfl⟩

/-- A call to start leaves the task where it is. -/
theorem start (hm : Mirrors t l) (now : Nat) : Mirrors t (l.start now) := by
  have hphase := hm.phase
  unfold Lane.start
  cases hl : l.stage with
  | absent =>
    rw [hl] at hphase
    cases hphase
  | ended | roused m nudged => exact hm
  | pending m nudged | handling m nudged | pausing m =>
    rw [hl] at hphase
    exact ⟨hm.routine, hphase, hm.kept⟩

/-- A task begins. -/
theorem start_absent (hl : l.stage = .absent) (hkept : l.abandoned = false) (place now : Nat) :
    Mirrors { place, routine := l.routine } (l.start now) := by
  unfold Lane.start
  rw [hl]
  exact ⟨rfl, rfl, hkept⟩

/-- A task that is stopped finishes its run, if it is in one, and is over. -/
theorem stop (hm : Mirrors t l) : ∃ t' done, t.Reaches true t' done ∧ t'.phase = .ended ∧
    share t.place done = noted t.place l.stop.2 := by
  have hphase := hm.phase
  have hshare : share t.place [.leave t.place] = [] := by simp [share, Deed.concerns]
  unfold Lane.stop
  cases hl : l.stage with
  | absent =>
    rw [hl] at hphase
    cases hphase
  | ended =>
    rw [hl] at hphase
    exact ⟨t, [], .refl t, (Option.some.inj hphase).symm, rfl⟩
  | pending m nudged =>
    rw [hl] at hphase
    have hp : t.phase = .ready := (Option.some.inj hphase).symm
    exact ⟨_, _, .single (Task.step_leave (.inl hp)), rfl, hshare⟩
  | pausing _ | roused _ _ =>
    rw [hl] at hphase
    have hp : t.phase = .pausing := (Option.some.inj hphase).symm
    exact ⟨_, _, .single (Task.step_leave (.inr hp)), rfl, hshare⟩
  | handling m nudged =>
    rw [hl] at hphase
    obtain ⟨t', done, hr, hm', hshare'⟩ :=
      hm.finish (Option.some.inj hphase).symm m false true
    have hplace := hr.inner.1
    obtain ⟨-, hended | hpausing⟩ := l.finish_cases m false
    · have hphase' := hm'.phase
      rw [hended] at hphase'
      exact ⟨t', done, hr, (Option.some.inj hphase').symm, hshare'⟩
    · have hphase' := hm'.phase
      rw [hpausing] at hphase'
      have hp : t'.phase = .pausing := (Option.some.inj hphase').symm
      refine ⟨_, _, hr.trans (.single (Task.step_leave (.inr hp))), rfl, ?_⟩
      rw [share_append, hplace, hshare]
      exact hshare'

end Mirrors

/-! ## Every task -/

namespace Crew

/-- What one task can do the crew can do. -/
theorem run_of_reaches {c : Crew} {k : Nat} {t t' : Task} {done : List Deed}
    (hr : t.Reaches c.raised t' done) (ht : c.held[k]? = some t) :
    ∃ moves, c.run moves = { c with held := c.held.set k t', log := done ++ c.log } := by
  generalize hraised : c.raised = raised at hr
  induction hr generalizing c with
  | refl t =>
    obtain ⟨hk, rfl⟩ := List.getElem?_eq_some_iff.1 ht
    subst hraised
    refine ⟨[], ?_⟩
    rw [List.set_getElem_self]
    rfl
  | step t chance _ ih =>
    have hmove := move_step ht chance
    have hk := (List.getElem?_eq_some_iff.1 ht).1
    subst hraised
    obtain ⟨moves, hmoves⟩ := @ih (c.move (.step k chance))
      (by rw [hmove]; exact List.getElem?_set_self hk) (by rw [hmove])
    refine ⟨.step k chance :: moves, ?_⟩
    show (c.move (.step k chance)).run moves = _
    rw [hmoves, hmove]
    simp only [List.set_set, List.append_assoc]

/-- What each of the first tasks can do the crew can do, one task after the other, while the
    rest stay where they are. -/
theorem sweep_below {c : Crew} (hs : c.Sound) {P : Nat → Task → List Deed → Prop}
    (h : ∀ k t, c.held[k]? = some t →
      ∃ t' done, t.Reaches c.raised t' done ∧ P k t' (share k done)) {n : Nat}
    (hn : n ≤ c.held.length) :
    ∃ moves held new, c.run moves = { c with held, log := new ++ c.log } ∧
      held.length = c.held.length ∧
      (∀ k t, k < n → held[k]? = some t → P k t (share k new)) ∧
      ∀ k, n ≤ k → held[k]? = c.held[k]? ∧ share k new = [] := by
  induction n with
  | zero => exact ⟨[], c.held, [], rfl, rfl, by simp, fun k _ => ⟨rfl, rfl⟩⟩
  | succ n ih =>
    obtain ⟨moves, held, new, hrun, hlen, hlt, hge⟩ := ih (Nat.le_of_succ_le hn)
    have ht : c.held[n]? = some c.held[n] := List.getElem?_eq_getElem hn
    obtain ⟨t', done, hr, hP⟩ := h n _ ht
    have hshare : ∀ k, k ≠ n → share k (done ++ new) = share k new := by
      intro k hk
      rw [share_append, share_inner (fun d hd => ?_) hk, List.nil_append]
      rw [← hs.place_eq ht]
      exact hr.inner.2 d hd
    obtain ⟨moves', hrun'⟩ := run_of_reaches (c := c.run moves) (k := n) (t := c.held[n])
      (by rw [hrun]; exact hr) (by rw [hrun]; exact (hge n (Nat.le_refl n)).1.trans ht)
    refine ⟨moves ++ moves', held.set n t', done ++ new, ?_, ?_, fun k t hk hkt => ?_,
      fun k hk => ?_⟩
    · rw [run_append, hrun', hrun]
      simp only [List.append_assoc]
    · rw [List.length_set, hlen]
    · by_cases hkn : k = n
      · subst hkn
        rw [List.getElem?_set_self (by omega)] at hkt
        cases hkt
        rw [share_append, (hge k (Nat.le_refl k)).2, List.append_nil]
        exact hP
      · rw [List.getElem?_set_ne (Ne.symm hkn)] at hkt
        rw [hshare k hkn]
        exact hlt k t (by omega) hkt
    · have hkn : k ≠ n := by omega
      rw [List.getElem?_set_ne (Ne.symm hkn), hshare k hkn]
      exact hge k (by omega)

/-- What every task can do the crew can do, one task after the other. -/
theorem sweep {c : Crew} (hs : c.Sound) {P : Nat → Task → List Deed → Prop}
    (h : ∀ k t, c.held[k]? = some t →
      ∃ t' done, t.Reaches c.raised t' done ∧ P k t' (share k done)) :
    ∃ moves held new, c.run moves = { c with held, log := new ++ c.log } ∧
      held.length = c.held.length ∧
      (∀ k t, held[k]? = some t → P k t (share k new)) ∧
      ∀ k, c.held.length ≤ k → share k new = [] := by
  obtain ⟨moves, held, new, hrun, hlen, hlt, hge⟩ := sweep_below hs h (Nat.le_refl _)
  refine ⟨moves, held, new, hrun, hlen, fun k t hkt => hlt k t ?_ hkt, fun k hk => (hge k hk).2⟩
  rw [← hlen]
  exact (List.getElem?_eq_some_iff.1 hkt).1

end Crew

/-! ## A scheduler and its crew -/

/-- The task at a place, if there is one, mirrors the lane; otherwise the routine has not
    been begun. -/
def Shown : Option Task → Lane → Prop
  | none, l => l.stage = .absent ∧ l.abandoned = false
  | some t, l => Mirrors t l

theorem Shown.kept {t : Option Task} {l : Lane} (h : Shown t l) : l.abandoned = false := by
  cases t with
  | none => exact h.2
  | some t => exact Mirrors.kept h

/-- A scheduler with tasks is where one under a clock is between two calls. -/
structure Shows (s : Scheduler) (c : Crew) : Prop where
  sound : c.Sound
  idle : c.stopping = false
  routines : c.routines = s.lanes.map (·.routine)
  shown : ∀ (place : Nat) (l : Lane), s.lanes[place]? = some l → Shown c.held[place]? l

/-- What is done at each place while a scheduler obeys a call. -/
structure Tells (s : Scheduler) (call : Call) (new : List Deed) : Prop where
  events : ∀ (place : Nat) (l : Lane), s.lanes[place]? = some l →
    share place new = (s.events call l).map (Event.deed place)
  calls : ∀ place, s.lanes.length ≤ place → ∀ d ∈ share place new, d = .start ∨ d = .stopped

namespace Shows

variable {s : Scheduler} {c : Crew}

theorem init : Shows {} {} where
  sound := .init
  idle := rfl
  routines := rfl
  shown := by simp

theorem length_le (hs : Shows s c) : c.held.length ≤ s.lanes.length := by
  have h := hs.sound.length_le
  rw [hs.routines, List.length_map] at h
  exact h

/-- A task that is held mirrors its lane. -/
theorem mirrors (hs : Shows s c) {k : Nat} {t : Task} (ht : c.held[k]? = some t) :
    ∃ l, s.lanes[k]? = some l ∧ Mirrors t l := by
  have hk := Nat.lt_of_lt_of_le (List.getElem?_eq_some_iff.1 ht).1 hs.length_le
  have hl := List.getElem?_eq_getElem hk
  have hshown := hs.shown k _ hl
  rw [ht] at hshown
  exact ⟨_, hl, hshown⟩

/-- While a task is held the signal is down. -/
theorem down (hs : Shows s c) {k : Nat} {t : Task} (ht : c.held[k]? = some t) :
    c.raised = false := by
  have hne : c.held ≠ [] := by
    rintro hnil
    rw [hnil] at ht
    cases ht
  refine Bool.eq_false_iff.2 fun hup => ?_
  obtain hstop | hnil := hs.sound.stopping hup
  · rw [hs.idle] at hstop
    cases hstop
  · exact hne hnil

/-- The lanes after a call that adds none. -/
theorem of_told {c' : Crew} (hs : Shows s c) (call : Call) (hadd : call.added = [])
    (hsound : c'.Sound) (hidle : c'.stopping = false) (hroutines : c'.routines = c.routines)
    (hshown : ∀ (place : Nat) (l : Lane), s.lanes[place]? = some l →
      Shown c'.held[place]? (s.told call l)) :
    Shows (s.obey call.command).1 c' := by
  have hlanes : (s.obey call.command).1.lanes = s.lanes.map (s.told call) := by
    rw [lanes_obey, hadd, List.append_nil]
  refine ⟨hsound, hidle, ?_, fun place l hl => ?_⟩
  · rw [hroutines, hs.routines, hlanes, List.map_map]
    exact List.map_congr_left fun l _ => (routine_told s call l).symm
  · rw [hlanes, List.getElem?_map] at hl
    obtain ⟨l, hl', rfl⟩ := Option.map_eq_some_iff.1 hl
    exact hshown place l hl'

theorem register (hs : Shows s c) (routines : List Routine) :
    ∃ moves new, Shows (s.obey (.register routines)).1 (c.run moves) ∧
      (c.run moves).log = new ++ c.log ∧ Tells s (.register routines) new := by
  have hrun : c.run [.register routines] = _ := Crew.move_register hs.idle routines
  have hlanes : (s.obey (.register routines)).1.lanes =
      s.lanes ++ routines.map fun routine => { routine := routine } := rfl
  have hshare : ∀ place, share place [.register routines.length] = [] := fun place => by
    simp [share, Deed.concerns]
  have hsound := hs.sound.run [.register routines]
  refine ⟨[.register routines], [.register routines.length], ?_, ?_, ⟨fun place l _ => hshare place,
    fun place _ d hd => ?_⟩⟩
  · rw [hrun] at hsound ⊢
    refine ⟨hsound, hs.idle, ?_, fun place l hl => ?_⟩
    · rw [hlanes, List.map_append, List.map_map, ← hs.routines]
      exact congrArg (c.routines ++ ·) (List.map_id routines).symm
    · rw [hlanes, List.getElem?_append] at hl
      split at hl
      · exact hs.shown place l hl
      · have hle := hs.length_le
        rw [List.getElem?_eq_none (by dsimp only; omega)]
        rw [List.getElem?_map] at hl
        obtain ⟨routine, -, rfl⟩ := Option.map_eq_some_iff.1 hl
        exact ⟨rfl, rfl⟩
  · rw [hrun]
    rfl
  · rw [hshare] at hd
    cases hd

theorem start (hs : Shows s c) :
    ∃ moves new, Shows (s.obey .start).1 (c.run moves) ∧ (c.run moves).log = new ++ c.log ∧
      Tells s .start new := by
  have hrun : c.run [.start] = _ := (Crew.move_start hs.idle).trans (Crew.start_eq hs.sound)
  have hsound := hs.sound.run [.start]
  -- The tasks that begin are told of nowhere.
  have hshare : ∀ place,
      share place (((unbegunPlaces c.log).map .spawn).reverse ++ [.start]) = [.start] := by
    intro place
    rw [share_append, share, List.filter_eq_nil_iff.2, List.nil_append]
    · simp [share, Deed.concerns]
    · simp [Deed.concerns]
  refine ⟨[.start], ((unbegunPlaces c.log).map .spawn).reverse ++ [.start], ?_, ?_,
    ⟨fun place l _ => hshare place, fun place _ d hd => ?_⟩⟩
  · refine hs.of_told .start rfl hsound ?_ ?_ fun place l hl => ?_
    · rw [hrun]
      exact hs.idle
    · rw [hrun]
    · have hshown := hs.shown place l hl
      have hroutine : c.routines[place]? = some l.routine := by
        rw [hs.routines, List.getElem?_map, hl]
        rfl
      rw [hrun]
      dsimp only
      cases ht : c.held[place]? with
      | some t =>
        rw [List.getElem?_append_left (List.getElem?_eq_some_iff.1 ht).1, ht]
        rw [ht] at hshown
        exact hshown.start s.time
      | none =>
        have hle := List.getElem?_eq_none_iff.1 ht
        rw [ht] at hshown
        rw [List.getElem?_append_right hle, Crew.getElem?_begun, Nat.add_sub_cancel' hle, hroutine]
        exact Mirrors.start_absent hshown.1 hshown.2 place s.time
  · rw [hrun, List.append_assoc]
    rfl
  · rw [hshare] at hd
    exact .inl (List.mem_singleton.1 hd)

/-- Moves for a call that lets turns come. -/
theorem turns (hs : Shows s c) {call : Call} (hadd : call.added = []) (limit : Nat)
    (htold : ∀ l, (s.told call l, s.notes call l) = l.runBefore s.time limit)
    (hevents : ∀ l, s.events call l = Event.ofEntries (s.notes call l)) :
    ∃ moves new, Shows (s.obey call.command).1 (c.run moves) ∧
      (c.run moves).log = new ++ c.log ∧ Tells s call new := by
  obtain ⟨moves, held, new, hrun, hlen, hheld, hnew⟩ := Crew.sweep hs.sound
    (P := fun k t done => ∀ l, s.lanes[k]? = some l →
      Mirrors t (s.told call l) ∧ done = noted k (s.notes call l)) (by
        intro k t ht
        obtain ⟨l, hl, hm⟩ := hs.mirrors ht
        obtain ⟨t', done, hr, hm', hshare⟩ := hm.turnsBefore limit (2 * (limit - s.time) + 4)
        rw [← hs.down ht] at hr
        rw [hs.sound.place_eq ht] at hshare
        rw [← Lane.runBefore, ← htold] at hm' hshare
        refine ⟨t', done, hr, fun l' hl' => ?_⟩
        rw [hl] at hl'
        cases hl'
        exact ⟨hm', hshare⟩)
  -- A routine that has not been begun has no turns.
  have hrest : ∀ (place : Nat) (l : Lane), s.lanes[place]? = some l → held[place]? = none →
      s.told call l = l ∧ s.notes call l = [] ∧ l.stage = .absent ∧ l.abandoned = false := by
    intro place l hl hnone
    have hshown := hs.shown place l hl
    rw [List.getElem?_eq_none (hlen ▸ List.getElem?_eq_none_iff.1 hnone)] at hshown
    have hturns := (htold l).trans (Lane.turnsBefore_absent hshown.1 limit _)
    exact ⟨congrArg Prod.fst hturns, congrArg Prod.snd hturns, hshown⟩
  have hsound := hs.sound.run moves
  rw [hrun] at hsound
  refine ⟨moves, new, ?_, ?_, ?_⟩
  · rw [hrun]
    refine hs.of_told call hadd hsound hs.idle rfl fun place l hl => ?_
    dsimp only
    cases ht : held[place]? with
    | some t => exact (hheld place t ht l hl).1
    | none =>
      obtain ⟨htold, -, habsent⟩ := hrest place l hl ht
      rw [htold]
      exact habsent
  · rw [hrun]
  · refine ⟨fun place l hl => ?_, fun place hle d hd => ?_⟩
    · rw [hevents]
      show share place new = noted place (s.notes call l)
      cases ht : held[place]? with
      | some t => exact (hheld place t ht l hl).2
      | none =>
        rw [(hrest place l hl ht).2.1]
        exact hnew place (hlen ▸ List.getElem?_eq_none_iff.1 ht)
    · rw [hnew place (Nat.le_trans hs.length_le hle)] at hd
      cases hd

/-- Moves for a stop: each task finishes its run, if it is in one, and is over. -/
theorem exists_wound_down (hs : Shows s c) :
    ∃ moves new,
      c.run moves = { c with raised := true, held := [], stopping := false
                             log := (.stopped :: (new ++ [.raise])) ++ c.log } ∧
      (∀ (k : Nat) (l : Lane), k < c.held.length → s.lanes[k]? = some l →
        share k new = noted k l.stop.2) ∧
      ∀ k, c.held.length ≤ k → share k new = [] := by
  have hstop : c.run [.stop] = _ := Crew.move_stop hs.idle
  have hraised := hs.sound.run [.stop]
  rw [hstop] at hraised
  obtain ⟨moves, held, new, hsweep, hlen, hheld, hnew⟩ := Crew.sweep hraised
    (P := fun k t done => t.phase = .ended ∧
      ∀ l, s.lanes[k]? = some l → done = noted k l.stop.2) (by
        intro k t ht
        obtain ⟨l, hl, hm⟩ := hs.mirrors ht
        obtain ⟨t', done, hr, hended, hshare⟩ := hm.stop
        rw [hs.sound.place_eq ht] at hshare
        refine ⟨t', done, hr, hended, fun l' hl' => ?_⟩
        rw [hl] at hl'
        cases hl'
        exact hshare)
  have hended : ∀ t ∈ held, t.phase = .ended := fun t ht => by
    obtain ⟨k, hk⟩ := List.getElem?_of_mem ht
    exact (hheld k t hk).1
  refine ⟨[.stop] ++ (moves ++ [.release]), new, ?_, fun k l hk hl => ?_, hnew⟩
  · rw [Crew.run_append, hstop, Crew.run_append, hsweep]
    refine (Crew.move_release rfl hended).trans ?_
    simp
  · have hk' : k < held.length := hlen ▸ hk
    exact (hheld k held[k] (List.getElem?_eq_getElem hk')).2 l hl

theorem stop (hs : Shows s c) :
    ∃ moves new, Shows (s.obey .stop).1 (c.run moves) ∧ (c.run moves).log = new ++ c.log ∧
      Tells s .stop new := by
  obtain ⟨moves, new, hrun, hheld, hnew⟩ := hs.exists_wound_down
  have hsound := hs.sound.run moves
  have hshare : ∀ place, share place (.stopped :: (new ++ [.raise])) =
      .stopped :: share place new := fun place => by
    rw [← List.singleton_append, share_append, share_append]
    simp [share, Deed.concerns]
  refine ⟨moves, .stopped :: (new ++ [.raise]), ?_, congrArg Crew.log hrun, ⟨fun place l hl => ?_,
    fun place hle d hd => ?_⟩⟩
  · rw [hrun] at hsound ⊢
    refine hs.of_told .stop rfl hsound rfl rfl fun place l hl => ?_
    exact ⟨l.stage_stop, Lane.abandoned_stop (hs.shown place l hl).kept⟩
  · rw [hshare]
    show _ = .stopped :: noted place l.stop.2
    obtain hlt | hle := Nat.lt_or_ge place c.held.length
    · rw [hheld place l hlt hl]
    · have hshown := hs.shown place l hl
      rw [List.getElem?_eq_none hle] at hshown
      rw [hnew place hle, Lane.stop_absent hshown.1]
      rfl
  · rw [hshare, hnew place (Nat.le_trans hs.length_le hle)] at hd
    exact .inr (List.mem_singleton.1 hd)

/-- Whatever a scheduler is told, moves of its crew lead to where it then is, and the same
    is done at each place. -/
theorem obey (hs : Shows s c) (call : Call) :
    ∃ moves new, Shows (s.obey call.command).1 (c.run moves) ∧
      (c.run moves).log = new ++ c.log ∧ Tells s call new :=
  match call with
  | .register routines => hs.register routines
  | .start => hs.start
  | .sleep ms => hs.turns rfl (s.time + ms) (fun _ => rfl) fun _ => rfl
  | .settle => hs.turns rfl (s.time + 1) (fun _ => rfl) fun _ => rfl
  | .stop => hs.stop

/-- The number of routines under way is the number of tasks that are not over. -/
theorem running_eq (hs : Shows s c) : s.running = c.running := by
  -- Behind the tasks no routine has been begun.
  have halive : s.lanes.map (·.stage.alive) = c.held.map (decide <| ·.phase ≠ .ended) ++
      List.replicate (s.lanes.length - c.held.length) false := by
    refine List.ext_getElem? fun k => ?_
    have hle := hs.length_le
    rw [List.getElem?_append, List.length_map, List.getElem?_map, List.getElem?_map]
    split
    · rename_i hk
      obtain ⟨l, hl, hm⟩ := hs.mirrors (List.getElem?_eq_getElem hk)
      rw [hl, List.getElem?_eq_getElem hk]
      exact congrArg some hm.alive_eq
    · rename_i hk
      have hnone : c.held[k]? = none := List.getElem?_eq_none (Nat.not_lt.1 hk)
      rw [List.getElem?_replicate]
      cases hl : s.lanes[k]? with
      | none =>
        have hlen := List.getElem?_eq_none_iff.1 hl
        rw [if_neg (by omega)]
        rfl
      | some l =>
        have hlen := (List.getElem?_eq_some_iff.1 hl).1
        have hshown := hs.shown k l hl
        rw [hnone] at hshown
        rw [if_pos (by omega), Option.map_some, hshown.1]
        rfl
  have hcount := congrArg (List.countP id) halive
  rw [List.countP_append, List.countP_replicate, List.countP_map, List.countP_map] at hcount
  exact hcount

end Shows

/-! ## Any calls -/

/-- A log tells of a place what its history does; before the routine was registered there
    have been calls only. -/
def TellsOf (place : Nat) (log : List Deed) (h : List Event) : Prop :=
  ∃ earlier, share place log = h.map (Event.deed place) ++ earlier ∧
    ∀ d ∈ earlier, d = .start ∨ d = .stopped

/-- When a run begins in a history that an orderly log tells of, no other is in progress. -/
theorem TellsOf.busy {place : Nat} {log : List Deed} {h later earlier : List Event} {n m : Nat}
    (ht : TellsOf place log h) (ho : Orderly log) (hh : h = later ++ .begin n m :: earlier) :
    Busy (earlier.map (Event.deed place)) place 0 := by
  obtain ⟨rest, hshare, hrest⟩ := ht
  subst hh
  rw [List.map_append, List.map_cons, List.append_assoc] at hshare
  obtain ⟨newer, l, rfl, -, hl⟩ := List.filter_eq_append_iff.1 hshare
  obtain ⟨skipped, older, rfl, -, -, holder⟩ := List.filter_eq_cons_iff.1 hl
  rw [← List.append_assoc] at ho
  obtain ⟨-, -, hbusy⟩ : Deed.Fits older (.begin place) := ho.fits
  -- What the log says of the runs before it says in what concerns the place.
  have hcount : ∀ d : Deed, d.concerns place → d ≠ .start → d ≠ .stopped →
      (earlier.map (Event.deed place)).count d = older.count d := by
    intro d hd hstart hstopped
    have hnot : d ∉ rest := fun hmem => (hrest d hmem).elim hstart hstopped
    have hadd : older.count d = (earlier.map (Event.deed place) ++ rest).count d := by
      rw [← List.count_filter (l := older) hd, holder]
      rfl
    rw [hadd, List.count_append, List.count_eq_zero_of_not_mem hnot, Nat.add_zero]
  unfold Busy at hbusy ⊢
  rw [hcount _ (by simp [Deed.concerns]) (by simp) (by simp),
    hcount _ (by simp [Deed.concerns]) (by simp) (by simp)]
  exact hbusy

theorem shows_following (calls : List Call) {s : Scheduler} {c : Crew} {h : Nat → List Event}
    (hs : Shows s c) (ht : ∀ place, TellsOf place c.log (h place))
    (hnone : ∀ place, s.lanes.length ≤ place → h place = []) :
    ∃ moves, Shows (following s calls) (c.run moves) ∧
      ∀ place, TellsOf place (c.run moves).log (historyFrom place s (h place) calls) := by
  induction calls generalizing s c h with
  | nil => exact ⟨[], hs, ht⟩
  | cons call calls ih =>
    obtain ⟨moves, new, hs', hlog, htells⟩ := hs.obey call
    have ht' : ∀ place, TellsOf place (c.run moves).log (s.eventsAt place call ++ h place) := by
      intro place
      obtain ⟨earlier, hshare, hearlier⟩ := ht place
      rw [hlog, TellsOf, share_append, hshare]
      unfold eventsAt
      cases hl : s.lanes[place]? with
      | some l =>
        refine ⟨earlier, ?_, hearlier⟩
        rw [htells.events place l hl, List.map_append, List.append_assoc]
      | none =>
        -- Nothing is known of the place yet.
        have hle := List.getElem?_eq_none_iff.1 hl
        rw [hnone place hle]
        refine ⟨share place new ++ earlier, rfl, fun d hd => ?_⟩
        obtain hd | hd := List.mem_append.1 hd
        · exact htells.calls place hle d hd
        · exact hearlier d hd
    have hnone' : ∀ place, (s.obey call.command).1.lanes.length ≤ place →
        s.eventsAt place call ++ h place = [] := by
      intro place hle
      rw [lanes_obey, List.length_append, List.length_map] at hle
      have hle' : s.lanes.length ≤ place := by omega
      rw [hnone place hle', eventsAt, List.getElem?_eq_none hle']
      rfl
    obtain ⟨moves', hs'', ht''⟩ := ih hs' ht' hnone'
    refine ⟨moves ++ moves', ?_⟩
    rw [Crew.run_append]
    exact ⟨hs'', ht''⟩

/-- After any calls to a scheduler it is where some moves of a crew lead, and what has
    happened at each place is what the crew has done there. -/
theorem shows_after (calls : List Call) :
    ∃ moves, Shows (after calls) (Crew.after moves) ∧
      ∀ place, TellsOf place (Crew.after moves).log (history place calls) :=
  shows_following calls .init (fun _ => ⟨[], rfl, by simp⟩) fun _ _ => rfl

end VpnNode.Scheduler
