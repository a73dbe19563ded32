import Std.Sync.Mutex
import Std.Time
import VpnNode.Host.Connection
import VpnNode.Host.Disk
import VpnNode.Ledger.Text
import VpnNode.Remote.Basic

/-!
# Surroundings on the host

What the tasks of a running node ask: the chain and the backend over the network, the
ledger in a directory, the state in memory, and the clock of the system. Tasks run side by
side; a request to the ledger or to the state is one step for all of them.
-/

namespace VpnNode.Host

open Std.Async

/-- The surroundings of a running node. -/
structure Surroundings where
  config : NodeConfig
  /-- The file of the ledger. -/
  path : String
  ledger : Std.Mutex Ledger
  state : IO.Ref State
  /-- The right to submit transactions of the node's account. -/
  account : Std.BaseMutex

/-! ## The ledger -/

/-- The ledger in a file; without the file it has no rows. -/
def loadLedger (path : String) : IO (Except String Ledger) := do
  match ← disk.read path with
  | .error .notFound => return .ok .empty
  | .error e => return .error e.message
  | .ok octets =>
    match (Utf8.decode? octets).bind Ledger.parse? with
    | some l => return .ok l
    | none => return .error "the ledger cannot be read"

/-- Writes a ledger into a file, all of it or nothing. -/
def saveLedger (path : String) (l : Ledger) : IO Unit := do
  let draft := path ++ ".draft"
  IO.FS.writeFile draft l.render
  IO.FS.rename draft path

namespace Surroundings

/-- The surroundings of a node that begins to run. -/
def begin (config : NodeConfig) (path : String) (l : Ledger) : IO Surroundings := do
  let state : State := { rpc := config.rpcAddresses.head?.getD "" }
  return { config, path, ledger := ← Std.Mutex.new l, state := ← IO.mkRef state,
           account := ← Std.BaseMutex.new }

/-- An operation that may change the ledger, and its file with it. -/
def writing (s : Surroundings) (f : Ledger → Except ε (α × Ledger)) : IO (Except ε α) :=
  s.ledger.atomically do
    match f (← get) with
    | .error e => return .error e
    | .ok (a, l) =>
      saveLedger s.path l
      set l
      return .ok a

/-! ## Clocks -/

/-- The wall clock. -/
def wallClock : IO Time := do
  let stamp ← Std.Time.Timestamp.now
  let now := Std.Time.PlainDateTime.ofWallTime (.ofNanoseconds stamp.toNanosecondsSinceUnixEpoch)
  let second := now.time.hour.val * 3600 + now.time.minute.val * 60 + now.time.second.val
  let nanos := now.time.nanosecond.val
  match Date.ofParts? now.date.year now.date.month.val.toNat now.date.day.val.toNat with
  | some date =>
    return ⟨date, ⟨second.toNat % 86400, Nat.mod_lt _ (by decide)⟩,
      ⟨nanos.toNat % 2000000000, Nat.mod_lt _ (by decide)⟩⟩
  | none => throw (IO.userError "the clock of the system is out of range")

/-- What an action gives, and the nanoseconds that it takes. -/
def timed (act : IO α) : IO (α × Nat) := do
  let start ← IO.monoNanosNow
  let a ← act
  return (a, (← IO.monoNanosNow) - start)

/-! ## Requests -/

/-- Probes endpoints at the same time. -/
def probeAll (endpoints : List String) (timeout : UInt64) : IO (List (Nat × Nat)) := do
  let probes ← endpoints.mapM fun e =>
    IO.asTask (timed ((Survey.probe e).perform (exchange timeout.toNat))) .dedicated
  let answers ← probes.mapM fun t => IO.ofExcept t.get
  return answers.zipIdx.filterMap fun ((answer, nanos), i) => answer.toOption.map fun () => (i, nanos)

/-- Makes a call within the time for queries. -/
def make (s : Surroundings) (c : Http.Call α) : IO α :=
  c.perform (exchange s.config.queryTimeout.toNat)

/-- Answers a request that stays with the node. -/
def answerInside (s : Surroundings) : (r : Request) → Remote.leavesNode r = false → IO r.Answer
  | .sleep ms, _ => Async.block (sleep (.ofNat ms.toNat))
  | .now, _ => wallClock
  | .lockAccount, _ => s.account.lock
  | .unlockAccount, _ => s.account.unlock
  | .findRows f, _ => s.ledger.atomically do return (← get).find f
  | .insertRow row, _ => s.writing fun l => (l.insert row).map fun l => ((), l)
  | .updateRow f u, _ => s.writing fun l => l.updateOne f u
  | .deleteRow f, _ => s.writing fun l => l.deleteOne f
  | .probe endpoints timeout, _ => probeAll endpoints timeout
  | .readState, _ => s.state.get
  | .publishEndpoint rpc, _ => s.state.modify fun state => { state with rpc }
  | .publishLocation l, _ => s.state.modify fun state => { state with location := some l }
  | .publishSpeed v, _ => s.state.modify fun state => { state with speed := some v }
  | .measureSpeed, _ =>
    Survey.measure (fun r => timed (exchange (4 * s.config.queryTimeout.toNat) r))
      s.config.speedtestUrl

/-- Answers a request. -/
def answer (s : Surroundings) (r : Request) : IO r.Answer := do
  let rpc := (← s.state.get).rpc
  match h : Remote.call? s.config rpc r with
  | some c => s.make c
  | none => s.answerInside r (by rw [← Remote.isSome_call? s.config rpc r, h]; rfl)

/-- Runs a task. -/
def run (s : Surroundings) (p : Program α) : IO (Program.Outcome α) := p.perform s.answer

end Surroundings

end VpnNode.Host
