import VpnNode.Proofs.Admission.Checks
import VpnNode.Proofs.Ledger.History
import VpnNode.Proofs.Simulation.Chain
import VpnNode.Proofs.Simulation.Run

/-!
# Who is admitted

An admission in memory, alone: it succeeds exactly if the request is `Admissible`, and
then adds one row and one peer. Otherwise ledger and peers are as they were, also where
the row is refused after the peer has been connected.

Main statements:

* `run_connect_of_insert`, `run_connect_of_refusal`: the last step of an admission, with
  its way back.
* `accept_all_or_nothing`: what an admission comes to.
-/

namespace VpnNode.Admission

open Simulation (World)

/-! ## The last step -/

variable {service : Service} {r : Request} {remote : Chain.Session} {quota : Nat} {key : String}
  {i : Peer.Identity} {w : World}

/-- A peer that is refused changes nothing. -/
theorem run_connect_of_full (hf : w.faults = []) (hi : Peer.Identity.ofKey service key = .ok i)
    {e : Peer.Error} (hadd : w.table.add i = .error e) :
    w.run (connect service r remote quota key) = (.value (.error (.peer e)), w) := by
  have h := World.run_addByKey hf hi
  rw [hadd] at h
  unfold connect
  rw [World.run_bind h]
  rfl

/-- The row is stored: one row and one peer more. -/
theorem run_connect_of_insert (hf : w.faults = []) (hi : Peer.Identity.ofKey service key = .ok i)
    {data : List UInt8} {table : Peer.Table} (hadd : w.table.add i = .ok (data, table))
    {ledger : Ledger}
    (hins : w.ledger.insert (newSession service r remote quota key w.wallClock) = .ok ledger) :
    w.run (connect service r remote quota key) = (.value (.ok data), { w with table, ledger }) := by
  have h := World.run_addByKey hf hi
  rw [hadd] at h
  have hrow := World.perform_insertRow_of_ok (w := { w with table }) hins
  unfold connect
  rw [World.run_bind h]
  refine (World.run_ask_of_perform (World.perform_now { w with table })).trans ?_
  exact World.run_ask_of_perform hrow

/-- The row is refused: the peer that has just been connected is disconnected again. -/
theorem run_connect_of_refusal (hf : w.faults = [])
    (hi : Peer.Identity.ofKey service key = .ok i) {data : List UInt8} {table : Peer.Table}
    (hadd : w.table.add i = .ok (data, table)) {e : Ledger.Error}
    (hins : w.ledger.insert (newSession service r remote quota key w.wallClock) = .error e) :
    w.run (connect service r remote quota key) =
      (.value (.error (.ledger e)),
        { w with table := { w.table with removals := w.table.removals + 1 } }) := by
  have h := World.run_addByKey hf hi
  rw [hadd] at h
  have hrow := World.perform_insertRow_of_error (w := { w with table }) hins
  have hback := World.run_removeIfPresent (w := { w with table }) hf hi
    (Peer.Table.remove_add hadd)
  unfold connect
  rw [World.run_bind h]
  refine (World.run_ask_of_perform (World.perform_now { w with table })).trans ?_
  refine (World.run_ask_of_perform hrow).trans ?_
  exact World.run_bind hback

/-! ## The decision -/

/-- A request that passes every check before the connection: the identity of its key, the
    session as the chain records it, and the bytes that the session may use. -/
structure Checked (config : NodeConfig) (r : Request) (w : World) (i : Peer.Identity)
    (remote : Chain.Session) (quota : Nat) : Prop where
  session_ne_zero : r.sessionId ≠ 0
  signature_ok : (Base64.decode r.signature).isOk
  key_ok : Peer.Identity.ofKey config.service r.peerKey = .ok i
  /-- The chain answers within the attempts that the policy allows. -/
  answered : w.chain.failingQueries < config.policies.query.attempts
  known : w.chain.sessions[r.sessionId]? = some remote
  active : remote.isActive
  account_eq : remote.accountAddress = r.accountAddress
  node_eq : remote.nodeAddress = config.nodeAddress
  id_free : ∀ t, ¬ w.ledger.Holds r.sessionId t
  key_free : ∀ id t, w.ledger.Holds id t → t.peerKey ≠ i.key
  quota_eq : Decimal.parse? remote.maxBytes = some quota

/-- A request that is to be granted. -/
structure Admissible (config : NodeConfig) (r : Request) (w : World) (i : Peer.Identity)
    (remote : Chain.Session) (quota : Nat) : Prop extends
    Checked config r w i remote quota where
  absent : w.table.contains i.key = false
  room : w.table.peers.size < w.table.capacity
  account_fit : Session.FitAddress remote.accountAddress
  node_fit : Session.FitAddress remote.nodeAddress

variable {config : NodeConfig}

theorem Checked.unique {i' : Peer.Identity} {remote' : Chain.Session} {quota' : Nat}
    (h : Checked config r w i remote quota) (h' : Checked config r w i' remote' quota') :
    i = i' ∧ remote = remote' ∧ quota = quota' := by
  have hi := h.key_ok.symm.trans h'.key_ok
  have hremote := h.known.symm.trans h'.known
  injection hi with hi
  injection hremote with hremote
  subst hi hremote
  have hquota := h.quota_eq.symm.trans h'.quota_eq
  injection hquota with hquota
  exact ⟨rfl, rfl, hquota⟩

/-- What an admission has come to: it has granted an admissible request and added its row
    and its peer, or refused any other and left ledger and peers alone. -/
def Decided (config : NodeConfig) (r : Request) (w : World) (x : Except Error (List UInt8))
    (w' : World) : Prop :=
  match x with
  | .ok data => ∃ i remote quota, Admissible config r w i remote quota ∧
      data = Utf8.octets i.key ∧
      w'.ledger = ⟨w.ledger.rows.insert r.sessionId
          (.row (grantedRow config r remote quota i.key w.wallClock)),
        w.ledger.keys.insert i.key r.sessionId⟩ ∧
      w'.table = { w.table with peers := w.table.peers.insert i.key ⟨0, 0⟩ }
  | .error _ => (∀ i remote quota, ¬ Admissible config r w i remote quota) ∧
      w'.ledger = w.ledger ∧ w'.table.peers = w.table.peers

/-- A refusal before the connection. -/
theorem decided_of_unchecked {w' : World} (halike : w.Alike w') (e : Error)
    (h : ∀ i remote quota, ¬ Checked config r w i remote quota) :
    Decided config r w (.error e) w' :=
  ⟨fun i remote quota ha => h i remote quota ha.toChecked, halike.ledger, by rw [halike.table]⟩

/-- What the connection comes to for a request that has passed the checks. -/
theorem Checked.run_connect {w₁ : World} (hc : Checked config r w i remote quota)
    (hindexed : w.ledger.Indexed) (hkeyed : w.chain.Keyed) (hf : w.faults = [])
    (hservice : w.table.service = config.service) (halike : w.Alike w₁) :
    ∃ x w', w₁.run (connect config.service r remote quota i.key) = (.value x, w') ∧
      Decided config r w x w' := by
  have hf₁ : w₁.faults = [] := halike.faults.trans hf
  have hkey := Peer.Identity.ofKey_key hc.key_ok
  have hid : remote.id = r.sessionId := hkeyed _ _ hc.known
  cases hadd : w₁.table.add i with
  | error e =>
    -- No room, or the peer is there.
    refine ⟨_, _, run_connect_of_full hf₁ hkey hadd, ?_, halike.ledger, by rw [halike.table]⟩
    intro i' remote' quota' ha
    obtain ⟨rfl, rfl, rfl⟩ := hc.unique ha.toChecked
    have hok := Peer.Table.add_eq_ok_iff.2 ⟨?_, ha.absent, ha.room, rfl, rfl⟩
    · rw [halike.table, hok] at hadd
      cases hadd
    · rw [hservice]
      exact Peer.Identity.service_ofKey hc.key_ok
  | ok x =>
    obtain ⟨data, table⟩ := x
    obtain ⟨-, habsent, hroom, hdata, htable⟩ := Peer.Table.add_eq_ok_iff.1 hadd
    rw [halike.table] at habsent hroom htable
    have hrow := newSession_eq config hid quota i.key w₁.wallClock
    rw [halike.wallClock] at hrow
    cases hins : w₁.ledger.insert
        (newSession config.service r remote quota i.key w₁.wallClock) with
    | error e =>
      -- The row is not fit to be stored.
      refine ⟨_, _, run_connect_of_refusal hf₁ hkey hadd hins, ?_, halike.ledger, ?_⟩
      · intro i' remote' quota' ha
        obtain ⟨rfl, rfl, rfl⟩ := hc.unique ha.toChecked
        have hvalid : (grantedRow config r remote quota i.key w.wallClock).validate = .ok () :=
          validate_grantedRow_iff.2 ⟨hc.session_ne_zero, Peer.Identity.isAllBlank_key hc.key_ok,
            ha.account_fit, ha.node_fit, hc.signature_ok⟩
        have hok := hindexed.insert_isOk_iff.2 ⟨hvalid, hc.id_free, hc.key_free⟩
        rw [halike.ledger, halike.wallClock, hrow] at hins
        rw [hins] at hok
        cases hok
      · show w₁.table.peers = w.table.peers
        rw [halike.table]
    | ok ledger =>
      refine ⟨_, _, run_connect_of_insert hf₁ hkey hadd hins,
        i, remote, quota, ?_, hdata, ?_, htable⟩
      · rw [halike.ledger, halike.wallClock, hrow] at hins
        obtain ⟨hvalid, -⟩ := Ledger.insert_eq_ok_iff.1 hins
        obtain ⟨-, -, haccount, hnode, -⟩ := validate_grantedRow_iff.1 hvalid
        exact ⟨hc, habsent, hroom, haccount, hnode⟩
      · rw [halike.ledger, halike.wallClock, hrow] at hins
        obtain ⟨-, -, -, rfl⟩ := Ledger.insert_eq_ok_iff.1 hins
        rfl

/-- The look-ups and the quota decide whether a request and a session that have passed
    their checks pass the others. -/
theorem run_proceed_decided {w₁ : World} (hindexed : w.ledger.Indexed) (hkeyed : w.chain.Keyed)
    (hf : w.faults = []) (hservice : w.table.service = config.service) (halike : w.Alike w₁)
    (hchecked : (∀ t, ¬ w.ledger.Holds r.sessionId t) →
      (∀ id t, w.ledger.Holds id t → t.peerKey ≠ i.key) →
      ∀ {quota}, Decimal.parse? remote.maxBytes = some quota → Checked config r w i remote quota)
    (honly : ∀ {i' remote' quota}, Checked config r w i' remote' quota →
      i' = i ∧ remote' = remote) :
    ∃ x w', w₁.run (proceed config r i.key remote) = (.value x, w') ∧ Decided config r w x w' := by
  have hlookups := World.run_checkLedger (w := w₁) (by rwa [halike.ledger]) r.sessionId i.key
  rw [halike.ledger] at hlookups
  unfold proceed
  rw [World.run_bind hlookups]
  cases hrow : w.ledger.row? r.sessionId with
  | some s =>
    refine ⟨_, _, rfl, decided_of_unchecked halike _ fun i remote quota hc => ?_⟩
    exact hc.id_free s (Ledger.row?_eq_some_iff.1 hrow)
  | none =>
    cases hrowOf : w.ledger.rowOf? i.key with
    | some s =>
      refine ⟨_, _, rfl, decided_of_unchecked halike _ fun i' remote' quota hc => ?_⟩
      obtain ⟨rfl, -⟩ := honly hc
      rw [hindexed.rowOf?_eq_none_iff.2 hc.key_free] at hrowOf
      cases hrowOf
    | none =>
      simp only [Option.isSome_none, Bool.false_eq_true, if_false]
      cases hquota : byteQuota remote with
      | error e =>
        refine ⟨_, _, rfl, decided_of_unchecked halike e fun i' remote' quota hc => ?_⟩
        obtain ⟨-, rfl⟩ := honly hc
        rw [byteQuota_eq_ok_iff.2 hc.quota_eq] at hquota
        cases hquota
      | ok quota =>
        have hc := hchecked (Ledger.row?_eq_none_iff.1 hrow) (hindexed.rowOf?_eq_none_iff.1 hrowOf)
          (byteQuota_eq_ok_iff.1 hquota)
        exact hc.run_connect hindexed hkeyed hf hservice halike

/-- Every admission is decided. -/
theorem run_accept_decided (hindexed : w.ledger.Indexed) (hkeyed : w.chain.Keyed)
    (hf : w.faults = []) (hservice : w.table.service = config.service) :
    ∃ x w', w.run (accept config r) = (.value x, w') ∧ Decided config r w x w' := by
  rw [accept_eq]
  cases hcheck : checkRequest config.service r with
  | error e =>
    refine ⟨_, _, World.run_done _ w,
      decided_of_unchecked (.refl w) e fun i remote quota hc => ?_⟩
    have hok := checkRequest_eq_ok_iff.2 ⟨hc.session_ne_zero, hc.signature_ok, i, hc.key_ok, rfl⟩
    rw [hok] at hcheck
    cases hcheck
  | ok key =>
    obtain ⟨hid, hsig, i, hi, rfl⟩ := checkRequest_eq_ok_iff.1 hcheck
    obtain ⟨w₁, hquery, halike⟩ := World.run_querySession config.policies r.sessionId w
    dsimp only
    rw [World.run_bind hquery]
    unfold World.answerWithin
    by_cases hanswered : w.chain.failingQueries < config.policies.query.attempts
    · rw [if_pos hanswered]
      dsimp only
      cases hremote : checkRemote config.nodeAddress r w.chain.sessions[r.sessionId]? with
      | error e =>
        refine ⟨_, _, World.run_done _ w₁,
          decided_of_unchecked halike e fun i remote quota hc => ?_⟩
        rw [checkRemote_eq_ok_iff.2 ⟨hc.known, hc.active, hc.account_eq, hc.node_eq⟩] at hremote
        cases hremote
      | ok remote =>
        obtain ⟨hknown, hactive, haccount, hnode⟩ := checkRemote_eq_ok_iff.1 hremote
        refine run_proceed_decided hindexed hkeyed hf hservice halike (fun hidfree hkeyfree quota hq =>
          ⟨hid, hsig, hi, hanswered, hknown, hactive, haccount, hnode, hidfree, hkeyfree, hq⟩) ?_
        intro i' remote' quota hc
        have hi' := hc.key_ok.symm.trans hi
        have hremote' := hc.known.symm.trans hknown
        cases hi'
        cases hremote'
        exact ⟨rfl, rfl⟩
    · rw [if_neg hanswered]
      refine ⟨_, _, World.run_done _ w₁, decided_of_unchecked halike _ fun i remote quota hc => ?_⟩
      exact hanswered hc.answered

/-- A request is granted exactly if it is admissible. Then the ledger gains the one row of
    the client, with the entry of its peer key, and the backend gains its peer. A request
    that is refused, at whatever point, leaves the ledger and the peers as they were. -/
theorem accept_all_or_nothing (config : NodeConfig) (r : Request) (ops : List Ledger.Operation)
    (w : World) (hledger : w.ledger = Ledger.after ops) (hchain : w.chain.Keyed)
    (hbackend : w.faults = []) (hservice : w.table.service = config.service) :
    ∃ x w', w.run (accept config r) = (.value x, w') ∧
      (x.isOk ↔ ∃ i remote quota, Admissible config r w i remote quota) ∧
      (∀ i remote quota, Admissible config r w i remote quota →
        x = .ok (Utf8.octets i.key) ∧
        w'.ledger = ⟨w.ledger.rows.insert r.sessionId
            (.row (grantedRow config r remote quota i.key w.wallClock)),
          w.ledger.keys.insert i.key r.sessionId⟩ ∧
        w'.table = { w.table with peers := w.table.peers.insert i.key ⟨0, 0⟩ }) ∧
      (¬ x.isOk → w'.ledger = w.ledger ∧ w'.table.peers = w.table.peers) := by
  have hindexed : w.ledger.Indexed := by
    rw [hledger]
    exact Ledger.Indexed.after ops
  obtain ⟨x, w', hrun, hdecided⟩ := run_accept_decided hindexed hchain hbackend hservice (r := r)
  refine ⟨x, w', hrun, ?_⟩
  cases x with
  | ok data =>
    obtain ⟨i, remote, quota, ha, rfl, hl, ht⟩ := hdecided
    refine ⟨⟨fun _ => ⟨i, remote, quota, ha⟩, fun _ => rfl⟩, ?_, fun hno => absurd rfl hno⟩
    intro i' remote' quota' ha'
    obtain ⟨rfl, rfl, rfl⟩ := ha.toChecked.unique ha'.toChecked
    exact ⟨rfl, hl, ht⟩
  | error e =>
    obtain ⟨hno, hl, ht⟩ := hdecided
    refine ⟨⟨fun h => (by cases h), ?_⟩, ?_, fun _ => ⟨hl, ht⟩⟩
    · rintro ⟨i, remote, quota, ha⟩
      exact absurd ha (hno i remote quota)
    · intro i remote quota ha
      exact absurd ha (hno i remote quota)

/-! ## A sample -/

/-- A node that serves WireGuard. -/
def sampleNode : NodeConfig where
  moniker := "sample"
  remoteUrl := ""
  listenOn := ""
  service := .wireguard
  accountAddress := ""
  nodeAddress := "sentnode142424242424242424242424242424242snv569"
  gigabytePrices := []
  hourlyPrices := []
  rpcAddresses := ["http://rpc-a"]
  intervals := {}
  policies := {}
  queryTimeout := 15000
  probeTimeout := 15000
  tx := {}
  maxPeers := 250
  backendUrl := ""
  geoipUrl := ""
  speedtestUrl := ""

/-- A client with a session of its own. -/
def sampleRequest : Request where
  accountAddress := "sent1qyqszqgpqyqszqgpqyqszqgpqyqszqgpfgh8fn"
  sessionId := 4
  peerKey := "AQEBAQEBAQEBAQEBAQEBAQEBAQEBAQEBAQEBAQEBAQE="
  signature := "c2ln"

/-- The session of the sample client on the chain. -/
def sampleSession : Chain.Session where
  id := 4
  accountAddress := sampleRequest.accountAddress
  nodeAddress := sampleNode.nodeAddress
  downloadBytes := "0"
  uploadBytes := "0"
  maxBytes := "1000000000"
  duration := 0
  maxDuration := 3600000000000
  status := .active

/-- A backend and a ledger that are empty, and a chain with the sample session. -/
def sampleWorld : World where
  table := Peer.Table.empty .wireguard Peer.Table.unlimited
  chain := ({} : Simulation.Chain).putSession sampleSession
  wallClock := ⟨⟨2024, 1, 1, by decide⟩, 0, 0⟩

/-- The sample client is admitted. -/
theorem accept_sampleRequest :
    ∃ x w', sampleWorld.run (accept sampleNode sampleRequest) = (.value x, w') ∧ x.isOk := by
  have hkeyed : sampleWorld.chain.Keyed :=
    (Simulation.Chain.keyed_of_sessions_empty rfl).putSession sampleSession
  obtain ⟨x, w', hrun, hiff, -⟩ :=
    accept_all_or_nothing sampleNode sampleRequest [] sampleWorld rfl hkeyed rfl rfl
  refine ⟨x, w', hrun, hiff.2 ⟨.wireguard sampleRequest.peerKey, sampleSession, 1000000000, ?_⟩⟩
  have hempty : sampleWorld.ledger = Ledger.empty := rfl
  have hfit : ∀ a, a ≠ "" → (Address.validate a none).isOk → Session.FitAddress a := by
    intro a hne hok
    obtain ⟨⟨⟩, hv⟩ := isOk_iff.1 hok
    exact ⟨hne, hv⟩
  exact
    { session_ne_zero := by decide
      signature_ok := by decide
      key_ok := by rfl
      answered := by decide
      known := by simp [sampleWorld, Simulation.Chain.putSession, sampleRequest, sampleSession]
      active := by decide
      account_eq := rfl
      node_eq := rfl
      id_free := by simp [hempty, Ledger.empty, Ledger.Holds]
      key_free := by simp [hempty, Ledger.empty, Ledger.Holds]
      quota_eq := by decide
      absent := by simp [sampleWorld, Peer.Table.empty, Peer.Table.contains]
      room := by simp [sampleWorld, Peer.Table.empty, Peer.Table.unlimited]
      account_fit := hfit _ (by decide) (by decide +kernel)
      node_fit := hfit _ (by decide) (by decide +kernel) }

end VpnNode.Admission
