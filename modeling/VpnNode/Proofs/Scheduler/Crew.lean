import VpnNode.Scheduler.Basic

/-!
# The tasks of a scheduler

A scheduler keeps its routines in a list and the tasks it has begun in another one beside
it, and takes the two to agree in their places: a start begins a task for each routine
behind as many as there are tasks. A task looks at the signal and begins a run, waits for
its end, and pauses until the interval is over or the signal changes; then it looks at the
signal again. A stop raises the signal and waits until every task that is held is over.

Tasks take their steps in any order, between any calls and while a stop waits. What is
done is logged, the latest first, under the places of the routines. A run begins with the
look at the signal that lets it through.

Main statements:

* `Sound.move`: every move keeps tasks and routines in line, and the log in order.
* `start_eq`: a start begins a task for exactly the routines without one.
* `Sound.safe`: what follows for the tasks and runs of each routine.
* `sound_after`: tasks and routines are in line after any moves.
-/

namespace VpnNode.Scheduler

/-! ## What is done -/

/-- What is done by a call, or by a task of the routine at a place. -/
inductive Deed where
  | register (count : Nat)
  | start
  /-- A stop raises the signal. -/
  | raise
  /-- A stop is through. -/
  | stopped
  /-- A task begins. -/
  | spawn (place : Nat)
  | begin (place : Nat)
  | finish (place : Nat)
  /-- A task is over. -/
  | leave (place : Nat)
  deriving DecidableEq, Repr

/-- The place whose task has a part in it. -/
def Deed.place? : Deed → Option Nat
  | .spawn place | .begin place | .finish place | .leave place => some place
  | .register _ | .start | .raise | .stopped => none

/-- The number of routines. -/
def registered : List Deed → Nat
  | [] => 0
  | .register count :: h => registered h + count
  | _ :: h => registered h

/-- The signal is up from a stop to the next start. -/
def signal : List Deed → Bool
  | [] | .start :: _ => false
  | .raise :: _ => true
  | _ :: h => signal h

/-- Has a task begun at a place since the last stop was through? -/
def hasTask (place : Nat) : List Deed → Bool
  | [] | .stopped :: _ => false
  | .spawn p :: h => p == place || hasTask place h
  | _ :: h => hasTask place h

/-- The places of the routines for which no task has begun since then. -/
def unbegunPlaces (h : List Deed) : List Nat :=
  (List.range (registered h)).filter fun place => !hasTask place h

/-- Has the latest task at a place begun a run? -/
def hasRun (place : Nat) : List Deed → Bool
  | [] => false
  | .spawn p :: h => p != place && hasRun place h
  | .begin p :: h => p == place || hasRun place h
  | _ :: h => hasRun place h

/-- So many tasks of the routine at a place are not over. -/
def Live (h : List Deed) (place n : Nat) : Prop :=
  h.count (.spawn place) = h.count (.leave place) + n

/-- So many runs of the routine at a place are in progress. -/
def Busy (h : List Deed) (place n : Nat) : Prop :=
  h.count (.begin place) = h.count (.finish place) + n

/-- May a deed follow what has been done before it? A task begins where there is a routine
    and has been no task since the last stop; a run begins while the signal is down and no
    other is in progress; a task that has not begun a run is over for the signal only; and
    a stop is through when nothing is left of any task. -/
def Deed.Fits (h : List Deed) : Deed → Prop
  | .register _ | .start | .raise => True
  | .stopped => signal h ∧ ∀ place, Live h place 0 ∧ Busy h place 0
  | .spawn place => place < registered h ∧ hasTask place h = false ∧ Live h place 0
  | .begin place => signal h = false ∧ Live h place 1 ∧ Busy h place 0
  | .finish place => Live h place 1 ∧ Busy h place 1
  | .leave place => Live h place 1 ∧ Busy h place 0 ∧ (hasRun place h ∨ signal h)

/-- Everything that is done may follow what has been done before. -/
def Orderly : List Deed → Prop
  | [] => True
  | d :: h => d.Fits h ∧ Orderly h

theorem Orderly.fits {later h : List Deed} {d : Deed} (ho : Orderly (later ++ d :: h)) :
    d.Fits h := by
  induction later with
  | nil => exact ho.1
  | cons _ _ ih => exact ih ho.2

/-- A run of the task at a place begins or ends, or the task does. -/
def Deed.Inner (place : Nat) (d : Deed) : Prop :=
  d = .begin place ∨ d = .finish place ∨ d = .leave place

theorem Deed.Inner.place?_eq {place : Nat} {d : Deed} (hd : d.Inner place) :
    d.place? = some place := by
  obtain rfl | rfl | rfl := hd <;> rfl

/-- What a task does once it has begun leaves the rest as it is. -/
theorem inner_append {place : Nat} {done : List Deed} (hd : ∀ d ∈ done, d.Inner place)
    (h : List Deed) :
    signal (done ++ h) = signal h ∧ registered (done ++ h) = registered h ∧
      ∀ p, hasTask p (done ++ h) = hasTask p h := by
  induction done with
  | nil => exact ⟨rfl, rfl, fun _ => rfl⟩
  | cons d done ih =>
    obtain ⟨hd, hdone⟩ := List.forall_mem_cons.1 hd
    obtain rfl | rfl | rfl := hd <;> exact ih hdone

/-! ## Tasks -/

/-- Does the routine go on after a run that ends so? -/
def Routine.goesOn (r : Routine) : Ending → Bool
  | .success => true
  | .panic _ | .uncaught => false
  | .failure text =>
    match r.reaction text with
    | none | some .proceed => true
    | some .halt | some .collapse => false

/-- Where a task is in its loop. -/
inductive Phase where
  /-- It is about to look at the signal and begin a run. -/
  | ready
  | handling
  | pausing
  | ended
  deriving DecidableEq, Repr

/-- What a step depends on besides the signal: how a run ends, and whether it is the clock
    that ends a pause, or a change of the signal. -/
structure Chance where
  ending : Ending := .success
  timed : Bool := true

/-- The loop of a routine. -/
structure Task where
  place : Nat
  routine : Routine
  phase : Phase := .ready

/-- A task goes on; what it does, the latest first. -/
def Task.step (t : Task) (raised : Bool) (chance : Chance) : Task × List Deed :=
  match t.phase with
  | .ready =>
    if raised then ({ t with phase := .ended }, [.leave t.place])
    else ({ t with phase := .handling }, [.begin t.place])
  | .handling =>
    if t.routine.goesOn chance.ending then ({ t with phase := .pausing }, [.finish t.place])
    else ({ t with phase := .ended }, [.leave t.place, .finish t.place])
  | .pausing =>
    if !chance.timed && raised then ({ t with phase := .ended }, [.leave t.place])
    else ({ t with phase := .ready }, [])
  | .ended => (t, [])

/-! ## Schedulers -/

/-- A scheduler and its tasks. -/
structure Crew where
  routines : List Routine := []
  /-- The tasks it holds, in the order in which they were begun. -/
  held : List Task := []
  raised : Bool := false
  /-- A stop waits. -/
  stopping : Bool := false
  log : List Deed := []

namespace Crew

/-- The number of tasks that are not over. -/
def running (c : Crew) : Nat := c.held.countP (·.phase ≠ .ended)

/-- A task begins. -/
def spawn (c : Crew) (t : Task) : Crew :=
  { c with held := c.held ++ [t], log := .spawn t.place :: c.log }

/-- The tasks that a start begins: for all routines but the first, as many as there are
    tasks. -/
def begun (c : Crew) : List Task :=
  (c.routines.zipIdx.drop c.held.length).map fun (routine, place) => { place, routine }

def start (c : Crew) : Crew :=
  c.begun.foldl spawn { c with raised := false, log := .start :: c.log }

/-- A call begins, a stop is through, or a task goes on. -/
inductive Move where
  | register (routines : List Routine)
  | start
  | stop
  | release
  | step (k : Nat) (chance : Chance)

/-- No other call can be made while a stop waits, and it waits for every task. -/
def move (c : Crew) : Move → Crew
  | .register routines =>
    if c.stopping then c
    else { c with routines := c.routines ++ routines, log := .register routines.length :: c.log }
  | .start => if c.stopping then c else c.start
  | .stop =>
    if c.stopping then c else { c with raised := true, stopping := true, log := .raise :: c.log }
  | .release =>
    if c.stopping ∧ ∀ t ∈ c.held, t.phase = .ended then
      { c with held := [], stopping := false, log := .stopped :: c.log }
    else c
  | .step k chance =>
    match c.held[k]? with
    | none => c
    | some t =>
      let (t', done) := t.step c.raised chance
      { c with held := c.held.set k t', log := done ++ c.log }

/-- A scheduler after moves. -/
def run (c : Crew) (moves : List Move) : Crew := moves.foldl move c

/-- A new scheduler after moves. -/
def after (moves : List Move) : Crew := run {} moves

theorem run_append (c : Crew) (moves moves' : List Move) :
    c.run (moves ++ moves') = (c.run moves).run moves' := List.foldl_append

theorem move_register {c : Crew} (h : c.stopping = false) (routines : List Routine) :
    c.move (.register routines) =
      { c with routines := c.routines ++ routines, log := .register routines.length :: c.log } :=
  if_neg (by simp [h])

theorem move_start {c : Crew} (h : c.stopping = false) : c.move .start = c.start :=
  if_neg (by simp [h])

theorem move_stop {c : Crew} (h : c.stopping = false) :
    c.move .stop = { c with raised := true, stopping := true, log := .raise :: c.log } :=
  if_neg (by simp [h])

theorem move_release {c : Crew} (h : c.stopping = true) (hended : ∀ t ∈ c.held, t.phase = .ended) :
    c.move .release = { c with held := [], stopping := false, log := .stopped :: c.log } :=
  if_pos ⟨h, hended⟩

theorem move_step {c : Crew} {k : Nat} {t : Task} (ht : c.held[k]? = some t) (chance : Chance) :
    c.move (.step k chance) =
      { c with held := c.held.set k (t.step c.raised chance).1
               log := (t.step c.raised chance).2 ++ c.log } := by
  simp only [move, ht]

end Crew

/-! ## Accounts of a place -/

theorem count_cons_of_place_ne {d e : Deed} {h : List Deed} (hne : d.place? ≠ e.place?) :
    (d :: h).count e = h.count e := by
  rw [List.count_cons_of_ne]
  rintro rfl
  exact hne rfl

/-- What the log says of a place whose task is in a phase, or which has no task. -/
def Accounts (h : List Deed) (place : Nat) : Option Phase → Prop
  | none | some .ended => Live h place 0 ∧ Busy h place 0
  | some .ready => Live h place 1 ∧ Busy h place 0
  | some .handling => Live h place 1 ∧ Busy h place 1 ∧ hasRun place h
  | some .pausing => Live h place 1 ∧ Busy h place 0 ∧ hasRun place h

namespace Accounts

variable {h : List Deed} {place : Nat} {d : Deed} {x : Option Phase}

/-- What is done elsewhere does not matter. -/
theorem cons_of_ne (ha : Accounts h place x) (hne : d.place? ≠ some place) :
    Accounts (d :: h) place x := by
  have hlive : ∀ n, Live (d :: h) place n ↔ Live h place n := fun n => by
    simp only [Live]
    rw [count_cons_of_place_ne hne, count_cons_of_place_ne hne]
  have hbusy : ∀ n, Busy (d :: h) place n ↔ Busy h place n := fun n => by
    simp only [Busy]
    rw [count_cons_of_place_ne hne, count_cons_of_place_ne hne]
  have hrun : hasRun place (d :: h) = hasRun place h := by
    cases d with
    | spawn p | «begin» p =>
      have hp : p ≠ place := fun he => hne (congrArg some he)
      simp [hasRun, hp]
    | _ => rfl
  match x with
  | none | some .ended | some .ready => simpa only [Accounts, hlive, hbusy] using ha
  | some .handling | some .pausing => simpa only [Accounts, hlive, hbusy, hrun] using ha

theorem append_of_ne {done : List Deed} (ha : Accounts h place x)
    (hne : ∀ d ∈ done, d.place? ≠ some place) : Accounts (done ++ h) place x := by
  induction done with
  | nil => exact ha
  | cons d done ih =>
    obtain ⟨hd, hne⟩ := List.forall_mem_cons.1 hne
    exact (ih hne).cons_of_ne hd

theorem spawn (ha : Accounts h place none) : Accounts (.spawn place :: h) place (some .ready) := by
  obtain ⟨hl, hb⟩ := ha
  simp only [Accounts, Live, Busy] at hl hb ⊢
  simp
  omega

theorem begin (ha : Accounts h place (some .ready)) :
    Accounts (.begin place :: h) place (some .handling) := by
  obtain ⟨hl, hb⟩ := ha
  simp only [Accounts, Live, Busy] at hl hb ⊢
  simp [hasRun]
  omega

theorem finish (ha : Accounts h place (some .handling)) :
    Accounts (.finish place :: h) place (some .pausing) := by
  obtain ⟨hl, hb, hr⟩ := ha
  simp only [Accounts, Live, Busy] at hl hb ⊢
  simp [hasRun, hr]
  omega

theorem leave (hl : Live h place 1) (hb : Busy h place 0) :
    Accounts (.leave place :: h) place (some .ended) := by
  simp only [Accounts, Live, Busy] at hl hb ⊢
  simp
  omega

/-- At most one task is live, and at most one run in progress. -/
theorem le (ha : Accounts h place x) :
    h.count (.spawn place) ≤ h.count (.leave place) + 1 ∧
      h.count (.begin place) ≤ h.count (.finish place) + 1 := by
  match x with
  | none | some .ended | some .ready | some .handling | some .pausing =>
    simp only [Accounts, Live, Busy] at ha
    omega

end Accounts

/-! ## Steps of a task -/

namespace Task

/-- A task has become another one after doing something, all of it in order. -/
structure Follows (t' t : Task) (done h : List Deed) : Prop where
  place : t'.place = t.place
  routine : t'.routine = t.routine
  inner : ∀ d ∈ done, d.Inner t.place
  accounts : Accounts (done ++ h) t.place (some t'.phase)
  orderly : Orderly (done ++ h)

/-- A task keeps its place and its routine, and does nothing elsewhere. -/
theorem step_inner (t : Task) (raised : Bool) (chance : Chance) :
    (t.step raised chance).1.place = t.place ∧ (t.step raised chance).1.routine = t.routine ∧
      ∀ d ∈ (t.step raised chance).2, d.Inner t.place := by
  unfold step
  split
  · split <;> simp [Deed.Inner]
  · split <;> simp [Deed.Inner]
  · split <;> simp [Deed.Inner]
  · simp

theorem follows_step (t : Task) {h : List Deed} {raised : Bool}
    (ha : Accounts h t.place (some t.phase)) (ho : Orderly h) (hsig : signal h = raised)
    (chance : Chance) : (t.step raised chance).1.Follows t (t.step raised chance).2 h := by
  obtain ⟨hplace, hroutine, hinner⟩ := t.step_inner raised chance
  suffices hfits : Accounts ((t.step raised chance).2 ++ h) t.place
      (some (t.step raised chance).1.phase) ∧ Orderly ((t.step raised chance).2 ++ h) by
    exact ⟨hplace, hroutine, hinner, hfits.1, hfits.2⟩
  unfold step
  cases hp : t.phase with
  | ready =>
    rw [hp] at ha
    cases raised with
    | true => exact ⟨.leave ha.1 ha.2, ⟨ha.1, ha.2, .inr hsig⟩, ho⟩
    | false => exact ⟨ha.begin, ⟨hsig, ha⟩, ho⟩
  | handling =>
    rw [hp] at ha
    have hf : Deed.Fits h (.finish t.place) := ⟨ha.1, ha.2.1⟩
    dsimp only
    split
    · exact ⟨ha.finish, hf, ho⟩
    · obtain ⟨hl, hb, hr⟩ := ha.finish
      exact ⟨.leave hl hb, ⟨hl, hb, .inl hr⟩, hf, ho⟩
  | pausing =>
    rw [hp] at ha
    obtain ⟨hl, hb, hr⟩ := ha
    dsimp only
    split
    · exact ⟨.leave hl hb, ⟨hl, hb, .inl hr⟩, ho⟩
    · exact ⟨⟨hl, hb⟩, ho⟩
  | ended =>
    have hsame : Accounts h t.place (some t.phase) := ha
    exact ⟨hsame, ho⟩

end Task

/-! ## Tasks and routines in line -/

theorem map_set_of_eq {f : α → β} {l : List α} {k : Nat} {a a' : α} (ha : l[k]? = some a)
    (hf : f a' = f a) : (l.set k a').map f = l.map f := by
  obtain ⟨hk, rfl⟩ := List.getElem?_eq_some_iff.1 ha
  rw [List.map_set, hf, ← List.getElem_map f (h := by simpa using hk), List.set_getElem_self]

namespace Crew

/-- The phase of the task at a place, if there is one. -/
def phase? (c : Crew) (place : Nat) : Option Phase := c.held[place]?.map (·.phase)

/-- The tasks that are held are those of the first routines, in their order, and the log
    tells what they are doing. -/
structure Sound (c : Crew) : Prop where
  places : c.held.map (·.place) = List.range c.held.length
  routines : c.held.map (·.routine) = c.routines.take c.held.length
  /-- While the signal is up a stop waits, or no task is held. -/
  stopping : c.raised → c.stopping ∨ c.held = []
  raised : c.stopping → c.raised
  signal : signal c.log = c.raised
  registered : registered c.log = c.routines.length
  hasTask : ∀ place, hasTask place c.log = decide (place < c.held.length)
  accounts : ∀ place, Accounts c.log place (c.phase? place)
  orderly : Orderly c.log

/-- The tasks that a start begins, one after the other. -/
theorem begun_eq_cons {c : Crew} {t : Task} {ts : List Task} (h : c.begun = t :: ts) :
    (∃ r, c.routines[c.held.length]? = some r ∧ t = { place := c.held.length, routine := r }) ∧
      (c.spawn t).begun = ts := by
  unfold begun at h ⊢
  obtain ⟨⟨r, n⟩, l, hl, ht, hts⟩ := List.map_eq_cons_iff.1 h
  have hlt : c.held.length < c.routines.zipIdx.length := by
    apply Nat.lt_of_not_le
    intro hle
    rw [List.drop_eq_nil_of_le hle] at hl
    cases hl
  rw [List.drop_eq_getElem_cons hlt, List.getElem_zipIdx] at hl
  obtain ⟨he, hrest⟩ := List.cons.inj hl
  rw [List.length_zipIdx] at hlt
  cases he
  rw [Nat.zero_add] at ht
  refine ⟨⟨_, List.getElem?_eq_getElem hlt, ht.symm⟩, ?_⟩
  show (c.routines.zipIdx.drop (c.held ++ [t]).length).map _ = ts
  rw [List.length_append, List.length_singleton, hrest]
  exact hts

theorem phase?_spawn_self (c : Crew) (t : Task) :
    (c.spawn t).phase? c.held.length = some t.phase := by
  simp [phase?, spawn]

theorem phase?_spawn_of_ne {c : Crew} {place : Nat} (hne : place ≠ c.held.length) (t : Task) :
    (c.spawn t).phase? place = c.phase? place := by
  unfold phase? spawn
  dsimp only
  rw [List.getElem?_append]
  split
  · rfl
  · rw [List.getElem?_eq_none (by simp; omega), List.getElem?_eq_none (by omega)]

namespace Sound

variable {c : Crew}

theorem length_le (hs : c.Sound) : c.held.length ≤ c.routines.length := by
  have h := congrArg List.length hs.routines
  rw [List.length_map, List.length_take] at h
  omega

theorem place_eq (hs : c.Sound) {k : Nat} {t : Task} (ht : c.held[k]? = some t) :
    t.place = k := by
  have h : (c.held.map (·.place))[k]? = (List.range c.held.length)[k]? := by rw [hs.places]
  rw [List.getElem?_map, ht, List.getElem?_range (List.getElem?_eq_some_iff.1 ht).1] at h
  exact Option.some.inj h

theorem init : ({} : Crew).Sound where
  places := rfl
  routines := rfl
  stopping := fun h => by cases h
  raised := fun h => by cases h
  signal := rfl
  registered := rfl
  hasTask := fun _ => rfl
  accounts := fun _ => ⟨rfl, rfl⟩
  orderly := trivial

theorem register (hs : c.Sound) (routines : List Routine) :
    Sound { c with routines := c.routines ++ routines
                   log := .register routines.length :: c.log } where
  places := hs.places
  routines := by
    rw [List.take_append_of_le_length hs.length_le]
    exact hs.routines
  stopping := hs.stopping
  raised := hs.raised
  signal := hs.signal
  registered := by
    rw [List.length_append, ← hs.registered]
    rfl
  hasTask := hs.hasTask
  accounts := fun place => (hs.accounts place).cons_of_ne (by simp [Deed.place?])
  orderly := ⟨trivial, hs.orderly⟩

theorem lower (hs : c.Sound) (hstop : ¬ c.stopping) :
    Sound { c with raised := false, log := .start :: c.log } where
  places := hs.places
  routines := hs.routines
  stopping := fun h => by cases h
  raised := fun h => absurd h hstop
  signal := rfl
  registered := hs.registered
  hasTask := hs.hasTask
  accounts := fun place => (hs.accounts place).cons_of_ne (by simp [Deed.place?])
  orderly := ⟨trivial, hs.orderly⟩

theorem spawn (hs : c.Sound) (hdown : c.raised = false) {r : Routine}
    (hr : c.routines[c.held.length]? = some r) :
    (c.spawn { place := c.held.length, routine := r }).Sound := by
  have hlt := (List.getElem?_eq_some_iff.1 hr).1
  have hnone : c.phase? c.held.length = none := by simp [phase?]
  have hacc := hs.accounts c.held.length
  rw [hnone] at hacc
  refine ⟨?_, ?_, ?_, hs.raised, hs.signal, hs.registered, fun place => ?_, fun place => ?_,
    ⟨⟨?_, ?_, hacc.1⟩, hs.orderly⟩⟩
  · show (c.held ++ [_]).map _ = List.range (c.held ++ [_]).length
    rw [List.map_append, hs.places, List.length_append, List.length_singleton, List.range_succ]
    rfl
  · show (c.held ++ [_]).map _ = c.routines.take (c.held ++ [_]).length
    rw [List.map_append, hs.routines, List.length_append, List.length_singleton, List.take_add_one,
      hr]
    rfl
  · intro h
    rw [show c.raised = true from h] at hdown
    cases hdown
  · show (c.held.length == place || Scheduler.hasTask place c.log) =
      decide (place < (c.held ++ [_]).length)
    rw [hs.hasTask, Bool.eq_iff_iff]
    simp only [Bool.or_eq_true, beq_iff_eq, decide_eq_true_eq, List.length_append,
      List.length_singleton]
    omega
  · by_cases hp : place = c.held.length
    · subst hp
      rw [phase?_spawn_self]
      exact hacc.spawn
    · rw [phase?_spawn_of_ne hp]
      exact (hs.accounts place).cons_of_ne fun he => hp (Option.some.inj he).symm
  · rw [hs.registered]
    exact hlt
  · rw [hs.hasTask, decide_eq_false_iff_not]
    exact Nat.lt_irrefl _

theorem start (hs : c.Sound) (hstop : ¬ c.stopping) : c.start.Sound := by
  suffices hall : ∀ c' : Crew, c'.Sound → c'.raised = false →
      (c'.begun.foldl Crew.spawn c').Sound by
    exact hall _ (hs.lower hstop) rfl
  intro c' hs' hdown
  generalize hb : c'.begun = ts
  induction ts generalizing c' with
  | nil => exact hs'
  | cons t ts ih =>
    obtain ⟨⟨r, hr, rfl⟩, hrest⟩ := begun_eq_cons hb
    exact ih _ (hs'.spawn hdown hr) hdown hrest

theorem raise (hs : c.Sound) :
    Sound { c with raised := true, stopping := true, log := .raise :: c.log } where
  places := hs.places
  routines := hs.routines
  stopping := fun _ => .inl rfl
  raised := fun _ => rfl
  signal := rfl
  registered := hs.registered
  hasTask := hs.hasTask
  accounts := fun place => (hs.accounts place).cons_of_ne (by simp [Deed.place?])
  orderly := ⟨trivial, hs.orderly⟩

/-- Nothing is left of tasks that are over. -/
theorem settled (hs : c.Sound) (hended : ∀ t ∈ c.held, t.phase = .ended) (place : Nat) :
    Accounts c.log place none := by
  have ha := hs.accounts place
  unfold phase? at ha
  cases ht : c.held[place]? with
  | none =>
    rw [ht] at ha
    exact ha
  | some t =>
    rw [ht, Option.map_some, hended t (List.mem_of_getElem? ht)] at ha
    exact ha

theorem release (hs : c.Sound) (hstop : c.stopping) (hended : ∀ t ∈ c.held, t.phase = .ended) :
    Sound { c with held := [], stopping := false, log := .stopped :: c.log } where
  places := rfl
  routines := rfl
  stopping := fun _ => .inr rfl
  raised := fun h => by cases h
  signal := hs.signal
  registered := hs.registered
  hasTask := fun place => by simp [Scheduler.hasTask]
  accounts := fun place => (hs.settled hended place).cons_of_ne (by simp [Deed.place?])
  orderly := ⟨⟨hs.signal.trans (hs.raised hstop), hs.settled hended⟩, hs.orderly⟩

/-- The task at a place does something. -/
theorem set (hs : c.Sound) {k : Nat} {t t' : Task} (ht : c.held[k]? = some t)
    {done : List Deed} (hf : t'.Follows t done c.log) :
    Sound { c with held := c.held.set k t', log := done ++ c.log } := by
  obtain ⟨hplace, hroutine, hdone, ha, ho⟩ := hf
  rw [hs.place_eq ht] at hdone ha
  obtain ⟨hsig, hreg, htask⟩ := inner_append hdone c.log
  have hk := (List.getElem?_eq_some_iff.1 ht).1
  refine ⟨?_, ?_, fun h => ?_, hs.raised, hsig.trans hs.signal, hreg.trans hs.registered,
    fun place => ?_, fun place => ?_, ho⟩
  · show (c.held.set k t').map _ = List.range (c.held.set k t').length
    rw [map_set_of_eq ht hplace, List.length_set]
    exact hs.places
  · show (c.held.set k t').map _ = c.routines.take (c.held.set k t').length
    rw [map_set_of_eq ht hroutine, List.length_set]
    exact hs.routines
  · refine (hs.stopping h).imp_right fun hnil => ?_
    rw [hnil] at hk
    cases hk
  · rw [htask, hs.hasTask, List.length_set]
  · by_cases hp : place = k
    · subst hp
      rw [phase?, List.getElem?_set_self hk]
      exact ha
    · rw [phase?, List.getElem?_set_ne (Ne.symm hp)]
      refine (hs.accounts place).append_of_ne fun d hd => ?_
      rw [(hdone d hd).place?_eq]
      exact fun he => hp (Option.some.inj he).symm

/-- What the log says of the place of a task that is held. -/
theorem accounts_of_held (hs : c.Sound) {k : Nat} {t : Task} (ht : c.held[k]? = some t) :
    Accounts c.log t.place (some t.phase) := by
  have ha := hs.accounts k
  rw [phase?, ht, Option.map_some] at ha
  rw [hs.place_eq ht]
  exact ha

/-- Every move keeps tasks and routines in line, and the log in order. -/
theorem move (hs : c.Sound) (m : Move) : (c.move m).Sound := by
  cases m with
  | register routines =>
    show Sound (if c.stopping then c else _)
    split
    · exact hs
    · exact hs.register routines
  | start =>
    show Sound (if c.stopping then c else _)
    split
    · exact hs
    · rename_i hstop
      exact hs.start hstop
  | stop =>
    show Sound (if c.stopping then c else _)
    split
    · exact hs
    · exact hs.raise
  | release =>
    show Sound (if c.stopping ∧ ∀ t ∈ c.held, t.phase = .ended then _ else c)
    split
    · rename_i h
      exact hs.release h.1 h.2
    · exact hs
  | step k chance =>
    unfold Crew.move
    cases ht : c.held[k]? with
    | none => simpa only [ht] using hs
    | some t =>
      simp only [ht]
      exact hs.set ht (t.follows_step (hs.accounts_of_held ht) hs.orderly hs.signal chance)

theorem run (hs : c.Sound) (moves : List Move) : (c.run moves).Sound := by
  induction moves generalizing c with
  | nil => exact hs
  | cons m moves ih => exact ih (hs.move m)

end Sound

/-! ## What a start begins -/

theorem foldl_spawn (c : Crew) (ts : List Task) :
    ts.foldl spawn c =
      { c with held := c.held ++ ts, log := (ts.map (.spawn ·.place)).reverse ++ c.log } := by
  induction ts generalizing c with
  | nil => simp
  | cons t ts ih =>
    rw [List.foldl_cons, ih]
    simp [spawn]

theorem places_begun (c : Crew) :
    c.begun.map (·.place) = (List.range c.routines.length).drop c.held.length := by
  unfold begun
  rw [List.map_map, List.map_drop]
  congr 1
  exact List.ext_getElem (by simp) (by simp)

theorem filter_range_le (n m : Nat) :
    (List.range m).filter (fun p => !decide (p < n)) = (List.range m).drop n := by
  induction m with
  | zero => simp
  | succ m ih =>
    rw [List.range_succ, List.filter_append, ih]
    by_cases h : m < n
    · rw [List.drop_eq_nil_of_le (by simp; omega), List.drop_eq_nil_of_le (by simp; omega)]
      simp [h]
    · rw [List.drop_append_of_le_length (by simp; omega)]
      simp [h]

theorem getElem?_begun (c : Crew) (i : Nat) :
    c.begun[i]? = c.routines[c.held.length + i]?.map fun routine =>
      { place := c.held.length + i, routine } := by
  unfold begun
  rw [List.getElem?_map, List.getElem?_drop, List.getElem?_zipIdx, Option.map_map, Nat.zero_add]
  rfl

/-- A start begins a task for each routine that has had none since the last stop, and for
    no other. -/
theorem start_eq {c : Crew} (hs : c.Sound) :
    c.start =
      { c with
        raised := false
        held := c.held ++ c.begun
        log := ((unbegunPlaces c.log).map .spawn).reverse ++ .start :: c.log } := by
  have hplaces : c.begun.map (·.place) = unbegunPlaces c.log := by
    unfold unbegunPlaces
    simp only [hs.registered, hs.hasTask]
    rw [filter_range_le]
    exact c.places_begun
  unfold start
  rw [foldl_spawn, ← hplaces, List.map_map]
  rfl

/-! ## Any moves -/

/-- What holds of a scheduler and its tasks at any time. -/
structure Safe (c : Crew) : Prop where
  /-- Everything that has been done could follow what had been done before. -/
  orderly : Orderly c.log
  /-- At most one task of a routine is not over, and at most one of its runs in progress. -/
  single : ∀ place, c.log.count (.spawn place) ≤ c.log.count (.leave place) + 1 ∧
    c.log.count (.begin place) ≤ c.log.count (.finish place) + 1
  /-- A start begins a task for each routine that has had none since the last stop, and for
      no other. -/
  spawns : c.stopping = false →
    (c.move .start).log = ((unbegunPlaces c.log).map .spawn).reverse ++ .start :: c.log
  /-- Each of these tasks begins a run when it takes its first step. -/
  runs : c.stopping = false → ∀ place ∈ unbegunPlaces c.log, ∀ chance,
    ((c.move .start).move (.step place chance)).log = .begin place :: (c.move .start).log
  /-- When a stop is through nothing is running. -/
  stopped : c.log.head? = some .stopped → c.running = 0

theorem Sound.safe {c : Crew} (hs : c.Sound) : c.Safe where
  orderly := hs.orderly
  single := fun place => (hs.accounts place).le
  spawns := fun hidle => by rw [move_start hidle, start_eq hs]
  runs := by
    intro hidle place hplace chance
    simp only [unbegunPlaces, hs.registered, hs.hasTask, List.mem_filter, List.mem_range,
      Bool.not_eq_true', decide_eq_false_iff_not, Nat.not_lt] at hplace
    have hlt := hplace.1
    have ht : c.start.held[place]? = some { place, routine := c.routines[place] } := by
      rw [start_eq hs]
      dsimp only
      rw [List.getElem?_append_right hplace.2, getElem?_begun, Nat.add_sub_cancel' hplace.2,
        List.getElem?_eq_getElem hlt]
      rfl
    have hdown : c.start.raised = false := by rw [start_eq hs]
    rw [move_start hidle, move_step ht, hdown]
    rfl
  stopped := by
    intro hhead
    obtain ⟨h, hh⟩ := List.head?_eq_some_iff.1 hhead
    have hnone := hs.hasTask 0
    rw [hh] at hnone
    have hlen : ¬ 0 < c.held.length := of_decide_eq_false hnone.symm
    rw [running, List.length_eq_zero_iff.1 (Nat.eq_zero_of_not_pos hlen)]
    rfl

/-- After any moves tasks and routines are in line, and the log is in order. -/
theorem sound_after (moves : List Move) : (after moves).Sound := Sound.init.run moves

end Crew
end VpnNode.Scheduler
