import VpnNode.Text.Decimal

/-!
# The scheduler

Routines that come again, each on its own: the jobs of the node. A routine's first run
begins when it is started; after a run it pauses for its interval and runs again, so it
never overlaps with itself. A failed run is put to the routine's rule, the error policy of
the job, which may halt the routine. Stopping lets runs in progress finish and ends all
else; starting begins every routine that has not been begun since the last stop.

A run is a call of the job's handler and then the carrying out of what the call gives. A
panic ends the routine either way, but only one that comes while the run is carried out is
caught and goes to the panic hook.

Starting also lowers the shutdown signal, and every routine that is under way notices that
in its next pause, or in the one it is in. It cuts a pause short, and one that is in a run,
or about to begin one, leaves out its next pause. A start can also come at the very moment
at which a pause is over. The routine then has its next run, but whether it has noticed the
start is left to chance; if not, it leaves out the pause after that run.

Each routine has a lane of its own, and no lane depends on another. Time is in
milliseconds.
-/

namespace VpnNode.Scheduler

/-! ## Routines -/

/-- How a run ends. -/
inductive Ending where
  | success
  | failure (text : String)
  /-- A panic while the run is carried out, with its message if it has one. It is caught
      and handed to the panic hook. -/
  | panic (text : Option String)
  /-- A panic in the call of the handler, before there is anything to carry out. Nothing
      catches it, and no hook is told. -/
  | uncaught
  deriving DecidableEq, Repr

/-- What is noted of a panic without a message. -/
def unspokenPanic : String := "non-string panic payload"

/-- A run of a routine. -/
structure Run where
  takes : Nat := 0
  ending : Ending := .success
  deriving DecidableEq, Repr

/-- What follows a failed run. -/
inductive Reaction where
  | proceed
  | halt
  /-- The rule itself panics. -/
  | collapse
  deriving DecidableEq, Repr

/-- A rule for failed runs. -/
inductive Rule where
  | proceed
  | halt
  /-- Halts on one text only. -/
  | haltOn (text : String)
  | collapse
  deriving DecidableEq, Repr

def Rule.reaction : Rule → String → Reaction
  | .proceed, _ => .proceed
  | .halt, _ => .halt
  | .haltOn t, text => if text = t then .halt else .proceed
  | .collapse, _ => .collapse

/-- What comes again. -/
structure Routine where
  name : String
  /-- The pause after a run. -/
  interval : Nat
  /-- What the runs are, counted from zero over all starts. -/
  run : Nat → Run
  /-- The rule for failed runs; without one the routine goes on, and nothing is noted. -/
  rule : Option Rule := none
  /-- Chance, as it falls out before each run: when a start or the end of the scheduler
      meets the end of the pause before the run, is it the clock that the routine looks at
      first? -/
  clockFirst : Nat → Bool := fun _ => false

/-- What the routine's rule says of a failed run. -/
def Routine.reaction (r : Routine) (text : String) : Option Reaction :=
  r.rule.map fun rule => rule.reaction text

/-- The runs of a script: the last one comes again when the script is used up. -/
def Run.ofScript (script : List Run) (n : Nat) : Run :=
  script[n]?.getD (script.getLast?.getD {})

/-! ## Lanes -/

/-- What a routine is doing. -/
inductive Stage where
  /-- It has not been begun since the last stop. -/
  | absent
  /-- It has been begun at a moment and waits for its first turn; `nudged` if it has been
      started again since. -/
  | pending (moment : Nat) (nudged : Bool)
  /-- A run is in progress and ends at a moment. -/
  | handling (moment : Nat) (nudged : Bool)
  /-- It pauses until a moment. -/
  | pausing (moment : Nat)
  /-- A start has come during its pause, or at the end of it, and it goes on at a moment;
      `nudged` if the start is still to be noticed. -/
  | roused (moment : Nat) (nudged : Bool)
  /-- It has halted, panicked, or been ended. -/
  | ended
  deriving DecidableEq, Repr

/-- Is the routine under way? -/
def Stage.alive : Stage → Bool
  | .absent | .ended => false
  | .pending _ _ | .handling _ _ | .pausing _ | .roused _ _ => true

/-- A routine and what has become of it. -/
structure Lane where
  routine : Routine
  stage : Stage := .absent
  /-- The number of runs that have begun. -/
  runs : Nat := 0
  /-- The moments at which it has begun to wait, the latest first. -/
  waits : List Nat := []
  /-- Has its scheduler been given up? -/
  abandoned : Bool := false

/-- What is noted about a routine. -/
inductive Note where
  | registered (interval : Nat)
  | begin (run : Nat)
  | finish (run : Nat)
  | failure (text : String) (halts : Bool)
  | panic (text : String)
  deriving DecidableEq, Repr

/-- A note with its moment, its routine, and since when the routine had been waiting for
    its turn. -/
structure Entry where
  moment : Nat
  name : String
  note : Note
  waits : List Nat := []
  deriving DecidableEq, Repr

namespace Lane

def entry (l : Lane) (moment : Nat) (note : Note) : Entry :=
  { moment, name := l.routine.name, note, waits := l.waits }

/-- The moment at which the routine has its next turn. -/
def moment? (l : Lane) : Option Nat :=
  match l.stage with
  | .pending m _ | .handling m _ | .pausing m | .roused m _ => some m
  | .absent | .ended => none

/-- The routine waits until a moment. -/
def wait (l : Lane) (moment : Nat) (stage : Stage) : Lane :=
  { l with stage, waits := moment :: l.waits }

/-- A pause begins, unless it is left out because the routine was started again, or comes
    to nothing because the scheduler has been given up. -/
def rest (l : Lane) (moment : Nat) (nudged : Bool) : Lane :=
  if nudged then { l with stage := .roused moment false }
  else if l.abandoned then { l with stage := .ended }
  else l.wait moment (.pausing (moment + l.routine.interval))

/-- A run ends: what is noted, and what follows. -/
def finish (l : Lane) (moment : Nat) (nudged : Bool) : Lane × List Entry :=
  let n := l.runs - 1
  let note := l.entry moment
  match (l.routine.run n).ending with
  | .success => (l.rest moment nudged, [note (.finish n)])
  | .panic text =>
    ({ l with stage := .ended }, [note (.finish n), note (.panic (text.getD unspokenPanic))])
  | .uncaught => ({ l with stage := .ended }, [note (.finish n)])
  | .failure text =>
    match l.routine.reaction text with
    | none => (l.rest moment nudged, [note (.finish n)])
    | some .proceed => (l.rest moment nudged, [note (.finish n), note (.failure text false)])
    | some .halt => ({ l with stage := .ended }, [note (.finish n), note (.failure text true)])
    | some .collapse => ({ l with stage := .ended }, [note (.finish n)])

/-- A run begins; one that takes no time ends at once. -/
def begin (l : Lane) (moment : Nat) (nudged : Bool) : Lane × List Entry :=
  let n := l.runs
  let noted := l.entry moment (.begin n)
  let l := { l with runs := n + 1 }
  let takes := (l.routine.run n).takes
  if takes = 0 then
    let (l, noted') := l.finish moment nudged
    (l, noted :: noted')
  else (l.wait moment (.handling (moment + takes) nudged), [noted])

/-- The routine has its turn. -/
def turn (l : Lane) : Lane × List Entry :=
  match l.stage with
  | .absent | .ended => (l, [])
  | .pending m nudged => l.begin m nudged
  | .pausing m => l.begin m false
  | .roused m nudged => l.begin m nudged
  | .handling m nudged => l.finish m nudged

/-- The turns that come before a limit, at most so many. -/
def turnsBefore (limit : Nat) (l : Lane) : Nat → Lane × List Entry
  | 0 => (l, [])
  | n + 1 =>
    match l.moment? with
    | none => (l, [])
    | some m =>
      if m < limit then
        let (l, noted) := l.turn
        let (l, noted') := turnsBefore limit l n
        (l, noted ++ noted')
      else (l, [])

/-- Time passes up to a limit that is not reached. A pause takes time, so there are two
    turns in a millisecond, and two more for a pause that is left out. -/
def runBefore (l : Lane) (now limit : Nat) : Lane × List Entry :=
  l.turnsBefore limit (2 * (limit - now) + 4)

/-- The routine is started. A pause that is not over is cut short by that; one that is over
    at the same moment ends for the one reason or the other. -/
def start (l : Lane) (now : Nat) : Lane :=
  match l.stage with
  | .absent => { l with stage := .pending now false, waits := [] }
  | .pending m _ => { l with stage := .pending m true }
  | .handling m _ => { l with stage := .handling m true }
  | .pausing m =>
    { l with stage := .roused now (decide (m ≤ now) && l.routine.clockFirst l.runs) }
  | .roused _ _ | .ended => l

/-- The routine is stopped: a run in progress is finished, and nothing follows. -/
def stop (l : Lane) : Lane × List Entry :=
  match l.stage with
  | .handling m _ =>
    let (l, noted) := l.finish m false
    ({ l with stage := .absent }, noted)
  | _ => ({ l with stage := .absent }, [])

/-- The moment at which a stop is through with the routine. -/
def stopMoment (l : Lane) (now : Nat) : Nat :=
  match l.stage with
  | .handling m _ => max now m
  | _ => now

/-- The routine's scheduler is given up: a pause ends the routine, while a turn that it is
    about to have, or is in, is its last. Whether it is about to have one at the very end of
    a pause is left to chance. -/
def abandon (l : Lane) (now : Nat) : Lane :=
  match l.stage with
  | .pausing m =>
    if m ≤ now ∧ l.routine.clockFirst l.runs then { l with abandoned := true }
    else { l with stage := .ended, abandoned := true }
  | _ => { l with abandoned := true }

end Lane

end VpnNode.Scheduler
