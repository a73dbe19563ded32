import VpnNode.Scheduler.Basic

/-!
# A scheduler under a clock

A scheduler takes commands while a clock of milliseconds stands still between them. Only
letting time pass and waiting for a stop move the clock; routines have their turns while
it moves. What a command starts has its turn with the next command that waits.

A turn that is due at the moment at which the clock comes to stand is still to come then, so
a command may come between the end of a pause and the run after it. It may also come after
that run has begun, at the same moment: settling lets the turns come that are due, and the
clock stands still.
-/

namespace VpnNode

/-- A scheduler under a clock. -/
structure Scheduler where
  /-- Milliseconds since the beginning. -/
  time : Nat := 0
  lanes : List Scheduler.Lane := []
  /-- What schedulers that have been given up have left. -/
  remains : List Scheduler.Lane := []

namespace Scheduler

/-- What a scheduler is told. -/
inductive Command where
  | register (routines : List Routine)
  | start
  /-- Lets milliseconds pass. -/
  | sleep (ms : Nat)
  /-- Lets the turns come that are due at this moment. -/
  | settle
  | stop
  /-- Gives the scheduler up and takes a new one. -/
  | renew

/-- The number of routines under way. -/
def running (s : Scheduler) : Nat := s.lanes.countP fun l => l.stage.alive

/-! ## What has been noted, in order -/

/-- Which of two turns at one moment comes first: that of the routine which had begun to
    wait earlier; of two that had begun together, what held for the turns before. A
    routine that has not waited yet comes last. -/
def compareWaits : List Nat → List Nat → Ordering
  | [], [] => .eq
  | [], _ :: _ => .gt
  | _ :: _, [] => .lt
  | a :: as, b :: bs => (compare a b).then (compareWaits as bs)

/-- The order in which notes are given: by moment, then by name, then as they came. -/
def Entry.compare (a b : Entry) : Ordering :=
  (Ord.compare a.moment b.moment).then
    ((Ord.compare a.name b.name).then (compareWaits a.waits b.waits))

/-- Notes in order; those of one turn stay as they are. -/
def arrange (noted : List Entry) : List Entry :=
  noted.mergeSort fun a b => a.compare b != .gt

/-! ## Commands -/

/-- Lanes after something has happened to each, and what was noted. -/
def onEach (f : Lane → Lane × List Entry) (ls : List Lane) : List Lane × List Entry :=
  (ls.map fun l => (f l).1, ls.flatMap fun l => (f l).2)

/-- Routines are added; they begin with the next start. -/
def register (s : Scheduler) (routines : List Routine) : Scheduler × List Entry :=
  ({ s with lanes := s.lanes ++ routines.map fun routine => { routine } },
    routines.map fun r => { moment := s.time, name := r.name, note := .registered r.interval })

/-- Every routine is started. -/
def start (s : Scheduler) : Scheduler :=
  { s with lanes := s.lanes.map fun l => l.start s.time }

/-- The turns before a limit come, and the clock stands at a moment after them. -/
def pass (s : Scheduler) (limit time : Nat) : Scheduler × List Entry :=
  let (remains, noted) := onEach (fun l => l.runBefore s.time limit) s.remains
  let (lanes, noted') := onEach (fun l => l.runBefore s.time limit) s.lanes
  ({ time, lanes, remains }, noted ++ noted')

/-- Time passes; turns that are due at the very end come later. -/
def sleep (s : Scheduler) (ms : Nat) : Scheduler × List Entry := s.pass (s.time + ms) (s.time + ms)

/-- The turns that are due come, and no time passes. -/
def settle (s : Scheduler) : Scheduler × List Entry := s.pass (s.time + 1) s.time

/-- The moment at which a stop is through. -/
def stopMoment (s : Scheduler) : Nat :=
  s.lanes.foldl (fun t l => max t (l.stopMoment s.time)) s.time

/-- Every routine is stopped, and runs in progress are waited for. -/
def stop (s : Scheduler) : Scheduler × List Entry :=
  let time := s.stopMoment
  let (remains, noted) :=
    if s.running = 0 then (s.remains, [])
    else onEach (fun l => l.runBefore s.time (time + 1)) s.remains
  let (lanes, noted') := onEach Lane.stop s.lanes
  ({ time, lanes, remains }, noted ++ noted')

/-- The scheduler is given up for a new one. -/
def renew (s : Scheduler) : Scheduler :=
  { s with lanes := [], remains := s.remains ++ s.lanes.map fun l => l.abandon s.time }

/-- Obeys a command; gives what has been noted meanwhile, in order. -/
def obey (s : Scheduler) (c : Command) : Scheduler × List Entry :=
  let (s, noted) : Scheduler × List Entry :=
    match c with
    | .register routines => s.register routines
    | .start => (s.start, [])
    | .sleep ms => s.sleep ms
    | .settle => s.settle
    | .stop => s.stop
    | .renew => (s.renew, [])
  (s, arrange noted)

end VpnNode.Scheduler
