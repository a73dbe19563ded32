import VpnNode.Main
import VpnNode.Scheduler.Clock
import VpnNode.Simulation.Network
import VpnNode.Simulation.Platform
import VpnNode.Simulation.Rehearsal
import VpnNode.Simulation.Rig
import VpnNode.Proofs.Admission.Decision
import VpnNode.Proofs.Chain.Serial
import VpnNode.Proofs.Interleaving.Peers
import VpnNode.Proofs.Interleaving.Quota
import VpnNode.Proofs.Scheduler.Spacing
import VpnNode.Proofs.Interleaving.Removal
import VpnNode.Proofs.Ledger.WellFormed
import VpnNode.Proofs.Program.Safe
import VpnNode.Proofs.Job.Safety
import VpnNode.Proofs.Ledger.Usage
import VpnNode.Proofs.Job.Reporting
import VpnNode.Proofs.Scheduler.Crew
import VpnNode.Proofs.Scheduler.Simulation
import VpnNode.Proofs.Scheduler.Lifecycle
import VpnNode.Proofs.Json.Text
import VpnNode.Proofs.Session.Row
import VpnNode.Proofs.Ledger.Transaction
import VpnNode.Proofs.Interleaving.Writes
import VpnNode.Proofs.Admission.Refusal
import VpnNode.Proofs.Chain.Acceptance
import VpnNode.Proofs.Interleaving.Capacity
import VpnNode.Proofs.Ledger.Scan
import VpnNode.Proofs.Ledger.Batch
import VpnNode.Proofs.Job.Commuting
import VpnNode.Proofs.Config.RoundTrip
import VpnNode.Proofs.Admission.Quota
import VpnNode.Proofs.Job.Enforcement
import VpnNode.Proofs.Job.Batch
import VpnNode.Proofs.Job.Synchronisation
import VpnNode.Proofs.Address
import VpnNode.Proofs.Peer.Canonical
import VpnNode.Proofs.Job.Telemetry
import VpnNode.Proofs.Scheduler.Lifetime
import VpnNode.Proofs.Coin
import VpnNode.Proofs.Config.Check
import VpnNode.Proofs.Config.Freezing
import VpnNode.Proofs.Config.Tuning
import VpnNode.Proofs.Ledger.Persistence
import VpnNode.Proofs.Retry
import VpnNode.Proofs.Session.Counters
