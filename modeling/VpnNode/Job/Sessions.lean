import VpnNode.Job.Basic

/-!
# Jobs about sessions

Metering, enforcing quotas, reporting to the chain, and aligning the ledger with it.
-/

namespace VpnNode.Job

/-! ## Metering -/

/-- Writes the counters of peers into their rows; counts the rows. A peer whose key the
    kind of service does not know, and one without a row, is passed over. -/
def meter (service : Service) : List Peer.Statistic → Program (Except Error Nat)
  | [] => return .ok 0
  | stat :: stats =>
    match Peer.Identity.ofKey service stat.key with
    | .error _ => meter service stats
    | .ok i => do
      let now ← Program.request .now
      let update := Ledger.Update.usage stat.download.toNat stat.upload.toNat now
      let answer ← Program.request (.updateRow (.byPeerKey i.key) update)
      match ← Program.ofFailure answer with
      | .error e => return .error (.ledger e)
      | .ok written =>
        let rest ← meter service stats
        return rest.map fun n => if written.isSome then n + 1 else n

/-- Copies the backend's counters into the ledger; gives the number of rows written. -/
def usageToLedgerRun (config : NodeConfig) : Program (Except Error Nat) := do
  match ← Program.request .peerStatistics with
  | .error e => return .error (.peer e)
  | .ok stats => meter config.service stats

/-! ## Quotas -/

/-- Disconnects the peers of the rows that are over quota; gives the number of those rows
    and the number of the removals that failed. A failure does not stop the others. -/
def enforce (service : Service) : List Session → Program (Nat × Nat)
  | [] => return (0, 0)
  | s :: rows => do
    if ← Program.ofCorruption s.isOverQuota then
      let removed ← Peer.removeIfPresent service s.peerKey
      let (exceeded, failed) ← enforce service rows
      return (exceeded + 1, if removed.isOk then failed else failed + 1)
    else enforce service rows

/-- Disconnects the peers of the sessions over quota; gives their number. -/
def usageValidationRun (config : NodeConfig) : Program (Except Error Nat) := do
  match ← Program.request (.findRows .all) with
  | .error e => return .error (.ledger e)
  | .ok rows =>
    let (exceeded, failed) ← enforce config.service rows
    return if failed = 0 then .ok exceeded else .error (.teardown failed exceeded)

/-! ## Reports -/

/-- The reports of the rows whose sessions the chain knows. -/
def reports (policies : Chain.Policies) :
    List Session → Program (Except Error (List Chain.Message))
  | [] => return .ok []
  | s :: rows => do
    match ← Chain.querySession policies s.id with
    | .error e => return .error (.chain e)
    | .ok none => reports policies rows
    | .ok (some _) =>
      let report ← Program.ofCorruption s.usageReport
      let rest ← reports policies rows
      return rest.map fun batch => report :: batch

/-- Reports the usage of the sessions that the chain knows in one transaction; gives the
    number of messages. Without messages there is no transaction. -/
def usageToChainRun (config : NodeConfig) : Program (Except Error Nat) := do
  match ← Program.request (.findRows .all) with
  | .error e => return .error (.ledger e)
  | .ok rows =>
    match ← reports config.policies rows with
    | .error e => return .error e
    | .ok [] => return .ok 0
    | .ok batch =>
      match ← Chain.broadcast config.policies batch with
      | .error e => return .error (.chain e)
      | .ok _ => return .ok batch.length

/-! ## Alignment with the chain -/

/-- What a pass over the rows has done. -/
structure Reconciled where
  /-- Sessions whose peer was disconnected. -/
  peersRemoved : Nat
  /-- Rows that were deleted. -/
  rowsDeleted : Nat
  deriving DecidableEq, Repr

/-- Aligns one row: the peer of a session that is not active is disconnected, and the row
    of one that the chain does not know is deleted after that. Gives what was done, and
    the error that stopped it. -/
def reconcileOne (config : NodeConfig) (s : Session) : Program (Reconciled × Option Error) := do
  match ← Chain.querySession config.policies s.id with
  | .error e => return (⟨0, 0⟩, some (.chain e))
  | .ok remote =>
    if remote.any (·.isActive) then return (⟨0, 0⟩, none)
    else
      match ← Peer.removeIfPresent config.service s.peerKey with
      | .error e => return (⟨0, 0⟩, some (.peer e))
      | .ok () =>
        if remote.isSome then return (⟨1, 0⟩, none)
        else
          match ← Program.request (.deleteRow (.byId s.id)) with
          | .error e => return (⟨1, 0⟩, some (.ledger e))
          | .ok _ => return (⟨1, 1⟩, none)

/-- Aligns rows one after the other; gives what was done and the number of rows that
    failed. A failure does not stop the others. -/
def reconcile (config : NodeConfig) : List Session → Program (Reconciled × Nat)
  | [] => return (⟨0, 0⟩, 0)
  | s :: rows => do
    let (one, error) ← reconcileOne config s
    let (rest, failed) ← reconcile config rows
    return (⟨one.peersRemoved + rest.peersRemoved, one.rowsDeleted + rest.rowsDeleted⟩,
      if error.isSome then failed + 1 else failed)

/-- Aligns the ledger with the chain. -/
def sessionValidationRun (config : NodeConfig) : Program (Except Error Reconciled) := do
  match ← Program.request (.findRows .all) with
  | .error e => return .error (.ledger e)
  | .ok rows =>
    let (done, failed) ← reconcile config rows
    return if failed = 0 then .ok done else .error (.reconcile failed rows.length)

theorem reconcile_nil (config : NodeConfig) : reconcile config [] = .done (⟨0, 0⟩, 0) := rfl

end VpnNode.Job
