import VpnNode.Simulation.World

/-!
# Tasks side by side

Several tasks share one surrounding. A task runs until it has to wait: for a request
that takes time, for the account, or for its next turn. Tasks that can go on do so in
the order in which they became able to; the clock moves only when none can, and then to
the next moment at which something happens. Of things that happen at one moment, the one
that was set up first comes first. The account is handed on to whoever has waited longest.

A task either runs once or comes again after a pause, until the timeline is stopped.
-/

namespace VpnNode.Simulation

/-- A task, and the milliseconds between two runs of it, if it comes again. -/
structure Lane (α : Type) where
  program : Program α
  period : Option Nat := none

/-- What a task is doing. -/
inductive Thread (α : Type) where
  /-- It has not begun. -/
  | fresh
  /-- Its request is in progress until a moment; `ticket` orders what ends together. -/
  | waiting (moment ticket : Nat) (r : Request) (next : r.Answer → Program α)
  /-- Its request is ready to be finished. -/
  | arrived (r : Request) (next : r.Answer → Program α)
  /-- It waits for the account. -/
  | queued (next : Unit → Program α)
  /-- It pauses until a moment. -/
  | resting (moment ticket : Nat)
  | ended (outcome : Program.Outcome α)

/-- The moment for which a task waits, and its ticket. -/
def Thread.moment? : Thread α → Option (Nat × Nat)
  | .waiting moment ticket _ _ => some (moment, ticket)
  | .resting moment ticket => some (moment, ticket)
  | _ => none

/-- Tasks side by side. -/
structure Timeline (α : Type) where
  world : World
  lanes : List (Lane α)
  threads : List (Thread α)
  /-- The tasks that can go on, by place, in order. -/
  ready : List Nat
  /-- Does a task hold the account? -/
  held : Bool := false
  /-- The tasks that wait for the account, in order. -/
  waiters : List Nat := []
  ticket : Nat := 0
  stopped : Bool := false
  /-- The breakdowns so far: the place of the task and the message. -/
  breakdowns : List (Nat × String) := []

namespace Timeline

/-- Tasks that have not begun. -/
def ofLanes (world : World) (lanes : List (Lane α)) : Timeline α where
  world
  lanes
  threads := lanes.map fun _ => .fresh
  ready := List.range lanes.length

def setThread (t : Timeline α) (i : Nat) (th : Thread α) : Timeline α :=
  { t with threads := t.threads.set i th }

/-- A run of a task has ended with a value. -/
def settle (t : Timeline α) (i : Nat) (a : α) : Timeline α :=
  match t.stopped, t.lanes[i]? with
  | false, some ⟨_, some period⟩ =>
    { t.setThread i (.resting (t.world.time + period) t.ticket) with ticket := t.ticket + 1 }
  | _, _ => t.setThread i (.ended (.value a))

/-- The account is handed on, or is free. -/
def handOn (t : Timeline α) : Timeline α :=
  match t.waiters with
  | [] => { t with held := false }
  | j :: waiters => { t with waiters, ready := t.ready ++ [j] }

/-- A task runs until it has to wait. -/
def advance (i : Nat) : Program α → Timeline α → Timeline α
  | .done a, t => t.settle i a
  | .abort message, t =>
    { t.setThread i (.ended (.broken message)) with
      breakdowns := t.breakdowns ++ [(i, message)] }
  | .ask .lockAccount next, t =>
    if t.held then { t.setThread i (.queued next) with waiters := t.waiters ++ [i] }
    else advance i (next ()) { t with held := true }
  | .ask .unlockAccount next, t => advance i (next ()) t.handOn
  | .ask r next, t =>
    let world := t.world.begin r
    let d := t.world.duration r
    if d = 0 then
      let (a, world) := world.finish r
      advance i (next a) { t with world }
    else
      { t.setThread i (.waiting (world.time + d) t.ticket r next) with
        world, ticket := t.ticket + 1 }

/-- A task that can go on does so. -/
def resume (t : Timeline α) (i : Nat) : Timeline α :=
  match t.threads[i]? with
  | some .fresh | some (.resting _ _) =>
    match t.lanes[i]? with
    | some lane => advance i lane.program t
    | none => t
  | some (.arrived r next) =>
    let (a, world) := t.world.finish r
    advance i (next a) { t with world }
  | some (.queued next) => advance i (next ()) t
  | _ => t

/-- The place of the task whose moment comes first, and that moment. -/
def nextMoment? (t : Timeline α) : Option (Nat × Nat) :=
  let due := (t.threads.zipIdx.filterMap fun (th, i) => th.moment?.map fun (m, k) => (m, k, i))
  let first := due.foldl (fun best (m, k, i) =>
    match best with
    | none => some (m, k, i)
    | some (m', k', i') => if m < m' ∨ (m = m' ∧ k < k') then some (m, k, i) else some (m', k', i')) none
  first.map fun (m, _, i) => (i, m)

/-- A task's moment has come. -/
def wake (t : Timeline α) (i moment : Nat) : Timeline α :=
  let t : Timeline α :=
    { t with world := { t.world with time := moment }, ready := t.ready ++ [i] }
  match t.threads[i]? with
  | some (.waiting _ _ r next) => t.setThread i (.arrived r next)
  | some (.resting _ _) => t.setThread i .fresh
  | _ => t

/-- Does a moment come before a limit? -/
def before (moment : Nat) : Option Nat → Bool
  | none => true
  | some limit => moment < limit

/-- The tasks whose moment is `moment` and who have not been woken, in order. -/
def wakeAll (t : Timeline α) (moment : Nat) : Nat → Timeline α
  | 0 => t
  | fuel + 1 =>
    match t.nextMoment? with
    | some (i, m) => if m = moment then (t.wake i m).wakeAll moment fuel else t
    | none => t

/-- Lets tasks go on, and the clock move, up to a limit that is not reached. -/
def runFor (limit : Option Nat) (t : Timeline α) : Nat → Timeline α
  | 0 => t
  | fuel + 1 =>
    match t.ready with
    | i :: ready =>
      if before t.world.time limit then
        runFor limit (resume { t with ready } i) fuel
      else t
    | [] =>
      match t.nextMoment? with
      | none => t
      | some (_, m) =>
        if before m limit then runFor limit (t.wakeAll m t.threads.length) fuel else t

/-- How many turns a rehearsal may take. -/
def turns : Nat := 1000000000000

/-- Lets tasks go on, and the clock move, up to a limit that is not reached. -/
def runBefore (t : Timeline α) (limit : Nat) : Timeline α := t.runFor (some limit) turns

/-- Lets all tasks go on to their ends. -/
def runToEnd (t : Timeline α) : Timeline α := t.runFor none turns

/-- The number of tasks that have not ended. -/
def running (t : Timeline α) : Nat :=
  (t.threads.filter fun
    | .ended _ => false
    | _ => true).length

/-- No task comes again: those between two runs end, those within a run finish it. -/
def stop (t : Timeline α) : Timeline α :=
  let idle (i : Nat) : Bool :=
    match t.threads[i]? with
    | some .fresh | some (.resting _ _) => true
    | _ => false
  { t with
    stopped := true
    threads := t.threads.map fun
      | .fresh | .resting _ _ => .ended (.broken "")
      | th => th
    ready := t.ready.filter fun i => !idle i }

/-- How the tasks have ended, by place. -/
def outcomes (t : Timeline α) : List (Option (Program.Outcome α)) :=
  t.threads.map fun
    | .ended o => some o
    | _ => none

end VpnNode.Simulation.Timeline
