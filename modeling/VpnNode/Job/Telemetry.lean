import VpnNode.Endpoint
import VpnNode.Job.Basic

/-!
# Jobs about the node itself

Liveness, the endpoint of the chain, location and speed.
-/

namespace VpnNode.Job

/-- Tells the chain that the node is alive. -/
def statusUpdateRun (config : NodeConfig) : Program (Except Error Unit) := do
  match ← Chain.broadcast config.policies [.updateNodeStatus config.nodeAddress .active] with
  | .error e => return .error (.chain e)
  | .ok _ => return .ok ()

/-- Publishes an endpoint, unless it is in use already. -/
def publish : Option String → Program Unit
  | none => return ()
  | some address => do
    if (← Program.request .readState).rpc = address then return ()
    else Program.request (.publishEndpoint address)

/-- Publishes the fastest endpoint of the chain; gives it, or nothing if no endpoint is
    alive. -/
def bestRpcAddressRun (config : NodeConfig) : Program (Except Error (Option String)) := do
  let alive ← Program.request (.probe config.rpcAddresses config.probeTimeout)
  let best := Endpoint.best config.rpcAddresses alive
  publish best
  return .ok best

/-- Publishes where the node is. -/
def geoipLocationRun : Program (Except Error Unit) := do
  match ← Program.request .locate with
  | .error reason => return .error (.external reason)
  | .ok location =>
    Program.request (.publishLocation location)
    return .ok ()

/-- Publishes how fast the node is. -/
def speedtestRun : Program (Except Error Unit) := do
  match ← Program.request .measureSpeed with
  | .error reason => return .error (.external reason)
  | .ok speed =>
    Program.request (.publishSpeed speed)
    return .ok ()

end VpnNode.Job
