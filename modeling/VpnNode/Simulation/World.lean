import VpnNode.Endpoint
import VpnNode.Peer.Table
import VpnNode.Program
import VpnNode.Simulation.Chain

/-!
# Surroundings in memory

Everything that a task of the node can ask, in memory: a backend, a chain, a ledger, a
state, a wall clock that stands still, and a clock of milliseconds that moves when a
task waits. A request is begun, takes some time, and is finished; its effect and its
answer are those of the moment in which it is finished.
-/

namespace VpnNode.Simulation

/-- A kind of call to the backend. -/
inductive BackendCall where
  | add
  | has
  | remove
  | statistics
  | count
  deriving DecidableEq, Repr

/-- The surroundings of the node, in memory. -/
structure World where
  table : Peer.Table
  /-- Failures in store for the next calls to the backend, each with its text. -/
  faults : List (BackendCall × String) := []
  /-- What the backend reports in place of its own counters. -/
  reported : Option (List Peer.Statistic) := none
  chain : Chain := {}
  ledger : Ledger := Ledger.empty
  state : State := {}
  wallClock : Time
  /-- Milliseconds since the start. -/
  time : Nat := 0
  /-- The endpoints that answer probes, with their latencies in milliseconds. -/
  latencies : List (String × Nat) := []
  location : Option Location := none
  speed : Option Speed := none

namespace World

/-- How an endpoint behaves when it is probed. -/
def behaviour (w : World) (endpoint : String) : Endpoint.Behaviour :=
  match w.latencies.find? fun e => e.1 == endpoint with
  | some (_, ms) => .succeeds ms
  | none => .fails 0

/-- How long a request takes. -/
def duration (w : World) : Request → Nat
  | .sleep ms => ms.toNat
  | .submit _ => w.chain.delay
  | .probe endpoints limit => Endpoint.elapsed limit.toNat (endpoints.map w.behaviour)
  | _ => 0

/-- A request is begun. -/
def begin (w : World) : Request → World
  | .submit _ => { w with chain := w.chain.beginSubmit }
  | _ => w

/-- The failure in store for a call, which is thereby used up. -/
def takeFault (w : World) (call : BackendCall) : Option Peer.Error × World :=
  match w.faults.find? fun f => f.1 == call with
  | some (_, text) =>
    (some (.backend text), { w with faults := w.faults.eraseP fun f => f.1 == call })
  | none => (none, w)

/-- A call to the backend, unless a failure is in store for it. -/
def callBackend (w : World) (call : BackendCall) (f : World → Except Peer.Error α × World) :
    Except Peer.Error α × World :=
  match w.takeFault call with
  | (some e, w) => (.error e, w)
  | (none, w) => f w

/-- The effect of a call that may change the table of peers. -/
def updateTable (w : World) (x : Except Peer.Error (α × Peer.Table)) :
    Except Peer.Error α × World :=
  match x with
  | .ok (a, table) => (.ok a, { w with table })
  | .error e => (.error e, w)

/-- The effect of an operation that may change the ledger. -/
def updateLedger (w : World) (x : Except ε (α × Ledger)) : Except ε α × World :=
  match x with
  | .ok (a, ledger) => (.ok a, { w with ledger })
  | .error e => (.error e, w)

/-- A request is finished: its answer and its effect. -/
def finish (w : World) : (r : Request) → r.Answer × World
  | .sleep _ | .lockAccount | .unlockAccount => ((), w)
  | .now => (w.wallClock, w)
  | .querySession id => let (a, chain) := w.chain.query id; (a, { w with chain })
  | .submit batch => let (a, chain) := w.chain.submit batch; (a, { w with chain })
  | .pollTransaction hash => let (a, chain) := w.chain.poll hash; (a, { w with chain })
  | .addPeer i => w.callBackend .add fun w => w.updateTable (w.table.add i)
  | .hasPeer i => w.callBackend .has fun w => (w.table.has i, w)
  | .removePeer i =>
    w.callBackend .remove fun w => w.updateTable ((w.table.remove i).map fun t => ((), t))
  | .peerStatistics =>
    w.callBackend .statistics fun w => (.ok (w.reported.getD w.table.statistics), w)
  | .peerCount => w.callBackend .count fun w => (.ok w.table.count, w)
  | .findRows f => (w.ledger.find f, w)
  | .insertRow s => w.updateLedger ((w.ledger.insert s).map fun l => ((), l))
  | .updateRow f u => w.updateLedger (w.ledger.updateOne f u)
  | .deleteRow f => w.updateLedger (w.ledger.deleteOne f)
  | .probe endpoints limit => (Endpoint.live limit.toNat (endpoints.map w.behaviour), w)
  | .readState => (w.state, w)
  | .publishEndpoint rpc => ((), { w with state := { w.state with rpc } })
  | .publishLocation l => ((), { w with state := { w.state with location := some l } })
  | .publishSpeed s => ((), { w with state := { w.state with speed := some s } })
  | .locate => (w.location.elim (.error "geoip unavailable") .ok, w)
  | .measureSpeed => (w.speed.elim (.error "speedtest unavailable") .ok, w)

/-- Performs a request from beginning to end, with nothing beside it. -/
def perform (r : Request) (w : World) : r.Answer × World :=
  let d := w.duration r
  let w := w.begin r
  finish { w with time := w.time + d } r

/-- Runs a task alone. -/
def run (p : Program α) (w : World) : Program.Outcome α × World := p.run perform w

end VpnNode.Simulation.World
