import VpnNode.Job.Sessions
import VpnNode.Job.Telemetry

/-!
# Runs of jobs

A run of any job, and what it reports.
-/

namespace VpnNode.Job

/-- What a run of a job has come to. -/
inductive Report where
  | done
  /-- The endpoint of the chain that was picked, if one is alive. -/
  | endpoint (address : Option String)
  /-- The number of rows that were written, torn down or reported. -/
  | rows (n : Nat)
  | reconciled (r : Reconciled)
  deriving DecidableEq

/-- Words a result as a report. -/
def reporting (f : α → Report) (p : Program (Except Error α)) : Program (Except Error Report) :=
  p.bind fun x => .done (x.map f)

/-- A run of a job. -/
def run (config : NodeConfig) : Job → Program (Except Error Report)
  | .bestRpcAddress => reporting .endpoint (bestRpcAddressRun config)
  | .geoipLocation => reporting (fun _ => .done) geoipLocationRun
  | .usageToChain => reporting .rows (usageToChainRun config)
  | .usageToLedger => reporting .rows (usageToLedgerRun config)
  | .usageValidation => reporting .rows (usageValidationRun config)
  | .sessionValidation => reporting .reconciled (sessionValidationRun config)
  | .speedtest => reporting (fun _ => .done) speedtestRun
  | .statusUpdate => reporting (fun _ => .done) (statusUpdateRun config)

end VpnNode.Job
