import VpnNode.Job.Run
import VpnNode.Simulation.Timeline

/-!
# A node in memory

A node wired to surroundings in memory, with short pauses between attempts, and the
accounts, keys and sessions that rehearsals use.
-/

namespace VpnNode.Simulation

/-- A node in memory: its settings and its surroundings. -/
structure Rig where
  config : NodeConfig
  world : World

namespace Rig

/-- The address of twenty equal octets. -/
def sampleAccount (octet : UInt8) : String :=
  match Address.encode "sent" (List.replicate 20 octet) with
  | .ok address => address
  | .error _ => ""

/-- The account that operates the node. -/
def operatorAccount : String := sampleAccount 0xAA

/-- The account of a sample client. -/
def clientAccount (n : UInt8) : String := sampleAccount n

/-- The public key of a sample client. -/
def wireguardKey (n : UInt8) : String := Base64.encode (List.replicate 32 n)

/-- Attempts with pauses of a millisecond. -/
def policies : Chain.Policies := ⟨⟨5, 1⟩, ⟨5, 1⟩, ⟨60, 1⟩⟩

/-- The draft of the node's settings. -/
def draft (service : Service) (rpcAddresses : List String) : NodeConfig.Draft :=
  { moniker := "test-node"
    service := some service
    accountAddress := operatorAccount
    rpcAddresses
    policies }

/-- A session on the chain that is bound to the node. -/
def chainSession (r : Rig) (id : UInt64) (account : String) (status : Chain.Status) :
    Chain.Session :=
  { id
    accountAddress := account
    nodeAddress := r.config.nodeAddress
    downloadBytes := "0"
    uploadBytes := "0"
    maxBytes := "1000000000"
    duration := 0
    maxDuration := 3600000000000
    status }

/-- A row that is bound to the node. -/
def localSession (r : Rig) (id : UInt64) (key : String) (createdAt : Time) : Session :=
  let s := Session.new id (clientAccount id.toUInt8) r.config.nodeAddress key r.config.service
    createdAt
  ((s.withMaxBytes 1000000000).withMaxDuration 3600000000000).withSignature
    (Utf8.octets "client-signature")

/-- What has become of the jobs. -/
structure JobsReport where
  /-- The jobs that had not ended when they were stopped. -/
  running : Nat
  /-- The jobs that broke down, with their messages, by name and message. -/
  breakdowns : List (Job × String)

/-- The order in which breakdowns are reported. -/
def breakdownLe (a b : Job × String) : Bool :=
  ((compare a.1.name b.1.name).then (compare a.2 b.2)).isLE

/-- Starts all jobs, lets some time pass, and stops them. -/
def runJobs (r : Rig) (ms : Nat) : JobsReport × Rig :=
  let lanes := Job.all.map fun j =>
    Lane.mk (discard (j.run r.config)) (some ((j.interval r.config.intervals).toNat * 1000))
  let stopTime := r.world.time + ms
  let t := (Timeline.ofLanes r.world lanes).runBefore stopTime
  let running := t.running
  let t := { t with world := { t.world with time := stopTime } }
  let t := t.stop.runToEnd
  let breakdowns := t.breakdowns.filterMap fun (i, message) => Job.all[i]?.map fun j => (j, message)
  (⟨running, breakdowns.mergeSort breakdownLe⟩, { r with world := t.world })

end VpnNode.Simulation.Rig
