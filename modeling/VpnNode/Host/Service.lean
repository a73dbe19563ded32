import Std.Async.Signal
import Std.Sync.CancellationToken
import VpnNode.Api.Wire
import VpnNode.Host.Surroundings
import VpnNode.Job.Run

/-!
# A running node

Every job runs again and again, each on its own, and every call to the web interface is
answered on its own. An interrupt ends the node: calls and runs in progress are finished,
pauses are cut short. A job that finds a corrupt value ends the node too, and that is an
error.
-/

namespace VpnNode.Host

open Std.Async

/-- A node while it runs. -/
structure Service where
  surroundings : Surroundings
  listener : TCP.Socket.Server
  /-- The moment at which it began, in milliseconds. -/
  start : Nat
  /-- Is it to end? -/
  stop : Std.CancellationToken
  /-- What has broken it. -/
  fault : IO.Ref (Option String)

namespace Service

/-- Lets a node end, because a job is broken. -/
def fail (s : Service) (fault : String) : IO Unit := do
  s.fault.modify fun earlier => some (earlier.getD fault)
  s.stop.cancel

/-! ## Jobs -/

/-- Pauses, unless the node is to end; says whether it is not. -/
def pause (s : Service) (seconds : UInt64) : IO Bool := do
  let timer ← Async.block <| Selector.sleep (.ofNat (1000 * seconds.toNat))
  Async.block <| Selectable.one #[
    .case timer fun () => return true,
    .case s.stop.selector fun () => return false]

/-- A run of a job. A run that fails is reported, and the job goes on. -/
def runJob (s : Service) (j : Job) : IO Unit := do
  match ← try s.surroundings.run (j.run s.surroundings.config)
    catch e => pure (.value (.error (.external (toString e)))) with
  | .value (.ok _) => return
  | .value (.error e) => IO.println s!"{j.name} failed: {e.message}"
  | .broken message => s.fail s!"{j.name} panicked: {message}"

/-- Runs a job until the node is to end. -/
def keepRunning (s : Service) (j : Job) : IO Unit := do
  let mut goesOn := !(← s.stop.isCancelled)
  while goesOn do
    s.runJob j
    goesOn ← s.pause (j.interval s.surroundings.config.intervals)

/-! ## The web interface -/

/-- The most octets of a call. -/
def mostCallOctets : Nat := 1 <<< 21

/-- The milliseconds in which a call has to come. -/
def callTimeout : Nat := 60000

/-- The reply to the octets of a call. -/
def replyTo (s : Service) (octets : List UInt8) : IO Api.Reply := do
  match Api.Call.ofOctets? octets with
  | none => return .ofStatus 400
  | some call =>
    if mostCallOctets < octets.length then return .ofStatus 413
    let uptime := ((← IO.monoMsNow) - s.start) / 1000
    match ← s.surroundings.run (Api.handle s.surroundings.config uptime call) with
    | .value reply => return reply
    | .broken _ => return .ofStatus 500

/-- Answers the call that comes on a connection. -/
def serveOne (s : Service) (socket : TCP.Socket.Client) : IO Unit := do
  let octets ← receive socket (← deadline callTimeout) mostCallOctets fun octets =>
    Http.isWhole Http.Head.requestExtent octets.toList
  let reply ← try s.replyTo octets catch _ => pure (.ofStatus 500)
  Async.block do
    socket.send ⟨reply.octets.toArray⟩
    socket.shutdown

/-- The next connection, unless the node is to end. -/
def accept? (s : Service) : IO (Option TCP.Socket.Client) :=
  Async.block <| Selectable.one #[
    .case s.listener.acceptSelector fun socket => return some socket,
    .case s.stop.selector fun () => return none]

/-- Answers calls until the node is to end, and then those that have come. -/
def serveAll (s : Service) : IO Unit := do
  let mut calls : List (Task (Except IO.Error Unit)) := []
  let mut goesOn := true
  while goesOn do
    match ← s.accept? with
    | none => goesOn := false
    | some socket =>
      let call ← IO.asTask (s.serveOne socket) .dedicated
      calls := call :: (← calls.filterM fun t => return !(← IO.hasFinished t))
  calls.forM fun t => discard (IO.wait t)

/-! ## The whole -/

/-- Lets a node end when the program is interrupted. -/
def endOnInterrupt (s : Service) : IO Unit := do
  let interrupt ← Signal.Waiter.mk .sigint false
  discard <| Async.block <| Selectable.one #[
    .case interrupt.selector fun () => do s.stop.cancel,
    .case s.stop.selector fun () => return ()]

/-- Runs a node until it ends; gives what has broken it, if anything. -/
def serve (s : Service) : IO (Except String Unit) := do
  let watch ← IO.asTask s.endOnInterrupt .dedicated
  let jobs ← Job.all.mapM fun j => IO.asTask (s.keepRunning j) .dedicated
  s.serveAll
  jobs.forM fun t => discard (IO.wait t)
  discard (IO.wait watch)
  return match ← s.fault.get with
    | some fault => .error fault
    | none => .ok ()

end Service

end VpnNode.Host
