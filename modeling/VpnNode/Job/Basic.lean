import VpnNode.Chain.Client
import VpnNode.Peer.Adapter

/-!
# Jobs of the node

What the node does on its own, again and again.
-/

namespace VpnNode

/-- What the node does on its own. -/
inductive Job where
  /-- Picks the fastest endpoint of the chain. -/
  | bestRpcAddress
  /-- Finds out where the node is. -/
  | geoipLocation
  /-- Reports usage to the chain. -/
  | usageToChain
  /-- Copies the backend's counters into the ledger. -/
  | usageToLedger
  /-- Disconnects clients that are over quota. -/
  | usageValidation
  /-- Aligns the ledger with the chain. -/
  | sessionValidation
  /-- Measures how fast the node is. -/
  | speedtest
  /-- Tells the chain that the node is alive. -/
  | statusUpdate
  deriving DecidableEq, Repr

namespace Job

/-- All jobs, in the order in which they are started. -/
def all : List Job :=
  [.bestRpcAddress, .geoipLocation, .usageToChain, .usageToLedger, .usageValidation,
    .sessionValidation, .speedtest, .statusUpdate]

def name : Job → String
  | .bestRpcAddress => "BestRPCAddress"
  | .geoipLocation => "GeoIPLocation"
  | .usageToChain => "SessionUsageSyncWithBlockchain"
  | .usageToLedger => "SessionUsageSyncWithDatabase"
  | .usageValidation => "SessionUsageValidate"
  | .sessionValidation => "SessionValidate"
  | .speedtest => "Speedtest"
  | .statusUpdate => "NodeStatusUpdate"

/-- The seconds between two runs of a job. -/
def interval (i : Intervals) : Job → UInt64
  | .bestRpcAddress => i.bestRpcEndpoint
  | .geoipLocation => i.geoipLocation
  | .usageToChain => i.usageToChain
  | .usageToLedger => i.usageToLedger
  | .usageValidation => i.usageValidation
  | .sessionValidation => i.sessionValidation
  | .speedtest => i.speedtest
  | .statusUpdate => i.statusUpdate

def ofName? (s : String) : Option Job := all.find? fun j => j.name == s

/-- Why a run of a job fails. -/
inductive Error where
  | chain (error : Chain.Error)
  | peer (error : Peer.Error)
  | ledger (error : Ledger.Error)
  /-- Peers of sessions over quota could not be removed. -/
  | teardown (failed exceeded : Nat)
  /-- Sessions could not be aligned with the chain. -/
  | reconcile (failed total : Nat)
  /-- A service outside the node failed. -/
  | external (reason : String)
  deriving DecidableEq

def Error.message : Error → String
  | .chain error => error.message
  | .peer error => error.message
  | .ledger error => error.message
  | .teardown failed exceeded =>
    s!"{Decimal.render failed} of {Decimal.render exceeded} over-quota sessions could not be torn down"
  | .reconcile failed total =>
    s!"{Decimal.render failed} of {Decimal.render total} sessions could not be reconciled"
  | .external reason => reason

end VpnNode.Job
