import VpnNode.Program
import VpnNode.Remote.Gateway
import VpnNode.Remote.Sidecar
import VpnNode.Remote.Survey

/-!
# Requests that go over the network

The chain and the backend of a node are reached over HTTP, and so is whoever knows where
the node is. What else a task asks stays with the node.

Main statement:

* `isSome_call?`: which requests go over the network.
-/

namespace VpnNode.Remote

/-- Does a request go to the chain, to the backend, or to whoever knows where the node is? -/
def leavesNode : Request → Bool
  | .querySession _ | .submit _ | .pollTransaction _ => true
  | .addPeer _ | .hasPeer _ | .removePeer _ | .peerStatistics | .peerCount => true
  | .locate => true
  | _ => false

/-- The call behind a request, if it has one; `rpc` is the endpoint of the chain. -/
def call? (config : NodeConfig) (rpc : String) : (r : Request) → Option (Http.Call r.Answer)
  | .querySession id => some (Gateway.querySession rpc id)
  | .submit batch => some (Gateway.submit rpc config.tx batch)
  | .pollTransaction hash => some (Gateway.queryTransaction rpc hash)
  | .addPeer i => some (Sidecar.add config.backendUrl i)
  | .hasPeer i => some (Sidecar.has config.backendUrl i)
  | .removePeer i => some (Sidecar.remove config.backendUrl i)
  | .peerStatistics => some (Sidecar.statistics config.backendUrl)
  | .peerCount => some (Sidecar.count config.backendUrl)
  | .locate => some (Survey.locate config.geoipUrl)
  | _ => none

/-- A request goes over the network exactly if it leaves the node. -/
theorem isSome_call? (config : NodeConfig) (rpc : String) (r : Request) :
    (call? config rpc r).isSome = leavesNode r := by
  cases r <;> rfl

end VpnNode.Remote
