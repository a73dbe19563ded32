import VpnNode.Proofs.Admission.Checks
import VpnNode.Proofs.Interleaving.Basic
import VpnNode.Proofs.Interleaving.Duty
import VpnNode.Proofs.Peer.Identity

/-!
# Tasks keep their duty

An admission that returns has settled what it owed, on whichever way it returns. An
alignment deletes a row only after it has seen the peer of that row gone. No other pass
connects a peer or deletes a row.

Main statements:

* `accept_obeys`: an admission keeps its duty and ends without a debt.
* `reconcile_obeys`: so does an alignment; it goes through the sessions that it has read
  one after the other and deletes at most the row of the one that it looks at.
* `program_obeys`: so does every task.
-/

namespace VpnNode.Interleaving

/-- The kind of a task. -/
def Errand.role : Errand → Role
  | .admission _ => .admission
  | .pass .sessionValidation => .alignment
  | .pass _ => .pass

/-! ## Requests -/

/-- A request that has to do with neither peers nor rows. -/
def Passive : Request → Prop
  | .addPeer _ | .hasPeer _ | .removePeer _ => False
  | .findRows _ | .insertRow _ | .deleteRow _ => False
  | _ => True

/-- A request that neither connects a peer nor stores or deletes a row. -/
def Harmless (service : Service) : Request → Prop
  | .addPeer _ | .insertRow _ | .deleteRow _ => False
  | .hasPeer i | .removePeer i => i.service = service
  | _ => True

theorem Passive.harmless {service : Service} {r : Request} (h : Passive r) :
    Harmless service r := by
  cases r <;> trivial

variable {service : Service} {role : Role}

/-- A passive request leaves the duty as it is. -/
theorem Passive.allowed {r : Request} (h : Passive r) (d : Duty) :
    Allowed service role d r ∧ ∀ a, d.next r a = d := by
  cases r <;> first | exact ⟨trivial, fun _ => rfl⟩ | exact False.elim h

theorem Harmless.allowed {r : Request} (h : Harmless service r) (d : Duty) :
    Allowed service role d r := by
  cases r <;> trivial

/-- A program of passive requests leaves the duty as it is. -/
theorem obeys_of_passive {p : Program α} (h : Asks Passive p) {d : Duty} (hd : d.owes = none) :
    Obeys service role p d fun _ d' => d' = d := by
  refine h.obeys (fun r d' hr hd' => ?_) (fun d' hd' => ?_) rfl
  · subst hd'
    exact hr.allowed d'
  · rw [hd', hd]

/-- A program of harmless requests incurs no debt. -/
theorem obeys_of_harmless {p : Program α} (h : Asks (Harmless service) p) {d : Duty}
    (hd : d.owes = none) : Obeys service role p d fun _ d' => d'.owes = none := by
  refine h.obeys (fun r d hr hd => ⟨hr.allowed d, Duty.owes_next (fun i hi => ?_) hd⟩)
    (fun _ h => h) hd
  subst hi
  exact hr

/-! ## The chain -/

theorem Asks.querySession {P : Request → Prop} {id : UInt64} (hsleep : ∀ ms, P (.sleep ms))
    (hquery : P (.querySession id)) (p : Chain.Policies) : Asks P (Chain.querySession p id) := by
  unfold Chain.querySession Chain.retrying
  exact Asks.retry (fun ms => .request (hsleep ms)) (.request hquery)

theorem asks_querySession (p : Chain.Policies) (id : UInt64) :
    Asks Passive (Chain.querySession p id) :=
  .querySession (fun _ => trivial) trivial p

theorem asks_submit (p : Chain.Policies) (batch : List Chain.Message) :
    Asks Passive (Chain.submit p batch) := by
  unfold Chain.submit Chain.retrying
  refine Asks.retry (fun _ => .request trivial) ?_
  exact Asks.bind (.request trivial) fun answer =>
    (trivial : Asks _ (.done (Chain.accepted answer)))

theorem asks_confirm (p : Chain.Policies) (hash : String) : Asks Passive (Chain.confirm p hash) := by
  unfold Chain.confirm Chain.retrying
  exact Asks.retry (fun _ => .request trivial) (.request trivial)

theorem asks_broadcast (p : Chain.Policies) (batch : List Chain.Message) :
    Asks Passive (Chain.broadcast p batch) := by
  unfold Chain.broadcast
  split
  · trivial
  · refine .bind (.request trivial) fun _ => .bind (asks_submit p batch) fun submitted =>
      .bind (.request trivial) fun _ => ?_
    cases submitted with
    | error e => trivial
    | ok hash =>
      refine .bind (asks_confirm p hash) fun included => ?_
      cases included with
      | error e => trivial
      | ok inclusion => trivial

/-! ## The backend -/

theorem asks_withIdentity {key : String} {f : Peer.Identity → Program (Except Peer.Error α)}
    (h : ∀ i, Peer.Identity.ofKey service key = .ok i → Asks (Harmless service) (f i)) :
    Asks (Harmless service) (Peer.withIdentity service key f) := by
  unfold Peer.withIdentity
  cases hi : Peer.Identity.ofKey service key with
  | error e => trivial
  | ok i => exact h i hi

theorem asks_removeIfPresent (service : Service) (key : String) :
    Asks (Harmless service) (Peer.removeIfPresent service key) := by
  refine asks_withIdentity fun i hi => ?_
  have hservice := Peer.Identity.service_ofKey hi
  refine .bind (.request hservice) fun found => ?_
  obtain e | (_ | _) := found
  · trivial
  · trivial
  · exact .request hservice

/-- Once a peer has been removed if it was there, it has been seen gone. -/
theorem removeIfPresent_obeys {key : String} {i : Peer.Identity}
    (hi : Peer.Identity.ofKey service key = .ok i) (d : Duty) :
    Obeys service role (Peer.removeIfPresent service key) d fun _ d' => d' = d.absent i := by
  have hservice := Peer.Identity.service_ofKey hi
  unfold Peer.removeIfPresent Peer.withIdentity
  rw [hi]
  refine ⟨hservice, ?_⟩
  rintro _ ⟨_ | _, rfl⟩
  · exact rfl
  · exact ⟨hservice, fun _ _ => rfl⟩

/-! ## Passes -/

theorem asks_ofCorruption (x : Except Session.Corruption α) :
    Asks (Harmless service) (Program.ofCorruption x) := by
  cases x <;> trivial

theorem asks_ofFailure (x : Except Ledger.Failure α) :
    Asks (Harmless service) (Program.ofFailure x) := by
  obtain (e | c) | a := x <;> trivial

theorem asks_meter (service : Service) (stats : List Peer.Statistic) :
    Asks (Harmless service) (Job.meter service stats) := by
  induction stats with
  | nil => trivial
  | cons stat stats ih =>
    unfold Job.meter
    split
    · exact ih
    · refine .bind (.request trivial) fun now => .bind (.request trivial) fun answer =>
        .bind (asks_ofFailure answer) fun written => ?_
      cases written with
      | error e => trivial
      | ok written => exact .bind ih fun _ => trivial

theorem asks_enforce (service : Service) (rows : List Session) :
    Asks (Harmless service) (Job.enforce service rows) := by
  induction rows with
  | nil => trivial
  | cons s rows ih =>
    refine .bind (asks_ofCorruption s.isOverQuota) fun exceeded => ?_
    cases exceeded with
    | false => exact ih
    | true =>
      exact .bind (asks_removeIfPresent service s.peerKey) fun _ => .bind ih fun _ => trivial

theorem asks_reports (p : Chain.Policies) (rows : List Session) :
    Asks (Harmless service) (Job.reports p rows) := by
  induction rows with
  | nil => trivial
  | cons s rows ih =>
    refine .bind ((asks_querySession p s.id).mono fun _ h => h.harmless) fun remote => ?_
    obtain e | (_ | remote) := remote
    · trivial
    · exact ih
    · exact .bind (asks_ofCorruption s.usageReport) fun report => .bind ih fun _ => trivial

theorem asks_usageToChainRun (config : NodeConfig) :
    Asks (Harmless service) (Job.usageToChainRun config) := by
  refine .bind (.request trivial) fun rows => ?_
  cases rows with
  | error e => trivial
  | ok rows =>
    refine .bind (asks_reports config.policies rows) fun batch => ?_
    obtain e | (_ | ⟨report, batch⟩) := batch
    · trivial
    · trivial
    · refine .bind ((asks_broadcast config.policies _).mono fun _ h => h.harmless) fun sent => ?_
      cases sent <;> trivial

theorem asks_usageToLedgerRun (config : NodeConfig) :
    Asks (Harmless config.service) (Job.usageToLedgerRun config) := by
  refine .bind (.request trivial) fun stats => ?_
  cases stats with
  | error e => trivial
  | ok stats => exact asks_meter config.service stats

theorem asks_usageValidationRun (config : NodeConfig) :
    Asks (Harmless config.service) (Job.usageValidationRun config) := by
  refine .bind (.request trivial) fun rows => ?_
  cases rows with
  | error e => trivial
  | ok rows => exact .bind (asks_enforce config.service rows) fun _ => trivial

theorem asks_publish (best : Option String) : Asks (Harmless service) (Job.publish best) := by
  cases best with
  | none => trivial
  | some address => exact .bind (.request trivial) fun _ => .ite trivial (.request trivial)

theorem asks_bestRpcAddressRun (config : NodeConfig) :
    Asks (Harmless service) (Job.bestRpcAddressRun config) :=
  .bind (.request trivial) fun _ => .bind (asks_publish _) fun _ => trivial

theorem asks_geoipLocationRun : Asks (Harmless service) Job.geoipLocationRun := by
  refine .bind (.request trivial) fun location => ?_
  cases location with
  | error reason => trivial
  | ok location => exact .bind (.request trivial) fun _ => trivial

theorem asks_speedtestRun : Asks (Harmless service) Job.speedtestRun := by
  refine .bind (.request trivial) fun speed => ?_
  cases speed with
  | error reason => trivial
  | ok speed => exact .bind (.request trivial) fun _ => trivial

theorem asks_statusUpdateRun (config : NodeConfig) :
    Asks (Harmless service) (Job.statusUpdateRun config) := by
  refine .bind ((asks_broadcast config.policies _).mono fun _ h => h.harmless) fun sent => ?_
  cases sent <;> trivial

/-- A pass that does not align the ledger with the chain connects no peer and deletes no
    row. -/
theorem asks_run (config : NodeConfig) {j : Job} (hj : j ≠ .sessionValidation) :
    Asks (Harmless config.service) (j.run config) := by
  cases j with
  | sessionValidation => exact absurd rfl hj
  | bestRpcAddress => exact .bind (asks_bestRpcAddressRun config) fun _ => trivial
  | geoipLocation => exact .bind asks_geoipLocationRun fun _ => trivial
  | usageToChain => exact .bind (asks_usageToChainRun config) fun _ => trivial
  | usageToLedger => exact .bind (asks_usageToLedgerRun config) fun _ => trivial
  | usageValidation => exact .bind (asks_usageValidationRun config) fun _ => trivial
  | speedtest => exact .bind asks_speedtestRun fun _ => trivial
  | statusUpdate => exact .bind (asks_statusUpdateRun config) fun _ => trivial

/-! ## Admissions -/

theorem asks_checkLedger {P : Request → Prop} (hP : ∀ f, P (.findRows f)) (id : UInt64)
    (key : String) : Asks P (Admission.checkLedger id key) := by
  refine .bind (.request (hP _)) fun rows => ?_
  obtain e | (_ | ⟨s, rows⟩) := rows
  · trivial
  · refine .bind (.request (hP _)) fun rows => ?_
    obtain e | (_ | ⟨s, rows⟩) := rows <;> trivial
  · trivial

/-- A request that an admission makes: it concerns the session of a client, or its row and its
    peer, which are added under the canonical key. -/
def Admitting (service : Service) : Request → Prop
  | .addPeer i => Peer.Identity.canonical? service i.key = some i.key
  | .insertRow s => Peer.Identity.canonical? service s.peerKey = some s.peerKey
  | .sleep _ | .now | .querySession _ | .findRows _ | .hasPeer _ | .removePeer _ => True
  | _ => False

theorem connect_admitting (r : Admission.Request) (remote : Chain.Session) (quota : Nat)
    {i : Peer.Identity} (hi : Peer.Identity.ofKey service i.key = .ok i) :
    Asks (Admitting service) (Admission.connect service r remote quota i.key) := by
  have hkey := Peer.Identity.canonical?_of_ok hi
  unfold Admission.connect Peer.addByKey Peer.removeIfPresent Peer.withIdentity
  rw [hi]
  refine ⟨hkey, fun answer => ?_⟩
  obtain e | data := answer
  · trivial
  refine ⟨trivial, fun now => ⟨hkey, fun stored => ?_⟩⟩
  obtain e | ⟨⟩ := stored
  · refine ⟨trivial, fun found => ?_⟩
    obtain e | (_ | _) := found
    · trivial
    · trivial
    · exact ⟨trivial, fun _ => trivial⟩
  · trivial

theorem accept_admitting (config : NodeConfig) (r : Admission.Request) :
    Asks (Admitting config.service) (Admission.accept config r) := by
  rw [Admission.accept_eq]
  cases hcheck : Admission.checkRequest config.service r with
  | error e => trivial
  | ok key =>
    obtain ⟨-, -, i, hi, rfl⟩ := Admission.checkRequest_eq_ok_iff.1 hcheck
    refine .bind (.querySession (fun _ => trivial) trivial config.policies) fun answer => ?_
    obtain e | remote := answer
    · trivial
    dsimp only
    cases Admission.checkRemote config.nodeAddress r remote with
    | error e => trivial
    | ok remote =>
      refine .bind (asks_checkLedger (fun _ => trivial) r.sessionId i.key) fun checked => ?_
      obtain e | ⟨⟩ := checked
      · trivial
      dsimp only
      cases Admission.byteQuota remote with
      | error e => trivial
      | ok quota => exact connect_admitting r remote quota (Peer.Identity.ofKey_key hi)

/-- The peer that is connected gets its row, or is seen gone again. -/
theorem connect_obeys (r : Admission.Request) (remote : Chain.Session) (quota : Nat)
    {i : Peer.Identity} (hi : Peer.Identity.ofKey service i.key = .ok i) {d : Duty}
    (hd : d.owes = none) :
    Obeys service .admission (Admission.connect service r remote quota i.key) d
      fun _ d' => d'.owes = none := by
  unfold Admission.connect Peer.addByKey Peer.withIdentity
  rw [hi]
  refine ⟨⟨rfl, hd, hi⟩, fun answer _ => ?_⟩
  obtain e | data := answer
  · exact hd
  refine ⟨trivial, fun now _ => ⟨trivial, fun stored _ => ?_⟩⟩
  obtain e | ⟨⟩ := stored
  · -- The row was refused: the task goes on to remove the peer, and then owes nothing.
    show Obeys service .admission ((Peer.removeIfPresent service i.key).bind fun _ =>
      .done (.error (Admission.Error.ledger e) : Except _ (List UInt8))) _ _
    refine Obeys.bind (removeIfPresent_obeys hi _) fun _ d' hd' => ?_
    rw [hd']
    exact if_pos rfl
  · exact if_pos rfl

theorem proceed_obeys (config : NodeConfig) (r : Admission.Request) (remote : Chain.Session)
    {i : Peer.Identity} (hi : Peer.Identity.ofKey config.service i.key = .ok i) {d : Duty}
    (hd : d.owes = none) :
    Obeys config.service .admission (Admission.proceed config r i.key remote) d
      fun _ d' => d'.owes = none := by
  refine Obeys.bind (obeys_of_harmless (asks_checkLedger (fun _ => trivial) r.sessionId i.key) hd) ?_
  intro checked d' hd'
  cases checked with
  | error e => exact hd'
  | ok =>
    cases Admission.byteQuota remote with
    | error e => exact hd'
    | ok quota => exact connect_obeys r remote quota hi hd'

/-- An admission keeps its duty and ends without a debt. -/
theorem accept_obeys (config : NodeConfig) (r : Admission.Request) {d : Duty}
    (hd : d.owes = none) :
    Obeys config.service .admission (Admission.accept config r) d fun _ d' => d'.owes = none := by
  rw [Admission.accept_eq]
  cases hcheck : Admission.checkRequest config.service r with
  | error e => exact hd
  | ok key =>
    obtain ⟨-, -, i, hi, rfl⟩ := Admission.checkRequest_eq_ok_iff.1 hcheck
    refine Obeys.bind (obeys_of_passive (asks_querySession config.policies r.sessionId) hd) ?_
    intro answer d' hd'
    rw [hd']
    cases answer with
    | error e => exact hd
    | ok remote =>
      cases hremote : Admission.checkRemote config.nodeAddress r remote with
      | error e =>
        simp only [hremote]
        exact hd
      | ok remote =>
        simp only [hremote]
        exact proceed_obeys config r remote (Peer.Identity.ofKey_key hi) hd

/-! ## Alignments -/

/-- The row of a session is deleted only once its peer has been seen gone; the other
    sessions stay known. -/
theorem reconcileOne_obeys (config : NodeConfig) {s : Session} {d : Duty} (hd : d.owes = none)
    (hs : s ∈ d.known) :
    Obeys config.service .alignment (Job.reconcileOne config s) d fun _ d' =>
      d'.owes = none ∧ ∀ t ∈ d.known, t.id ≠ s.id → t ∈ d'.known := by
  have hkeep : ∀ t ∈ d.known, t.id ≠ s.id → t ∈ d.known := fun t ht _ => ht
  refine Obeys.bind (obeys_of_passive (asks_querySession config.policies s.id) hd) ?_
  intro remote d' hd'
  rw [hd']
  obtain e | remote := remote
  · exact ⟨hd, hkeep⟩
  by_cases hactive : remote.any (·.isActive)
  · simp only [hactive, if_true]
    exact ⟨hd, hkeep⟩
  simp only [hactive]
  cases hi : Peer.Identity.ofKey config.service s.peerKey with
  | error e =>
    unfold Peer.removeIfPresent Peer.withIdentity
    rw [hi]
    exact ⟨hd, hkeep⟩
  | ok i =>
    refine Obeys.bind (removeIfPresent_obeys hi d) ?_
    intro removed d' hd'
    rw [hd']
    have howes : (d.absent i).owes = none := Duty.owes_absent_of_eq_none hd
    obtain e | ⟨⟩ := removed
    · exact ⟨howes, hkeep⟩
    cases remote with
    | some remote => exact ⟨howes, hkeep⟩
    | none =>
      refine ⟨⟨rfl, s, hs, rfl, i, rfl, hi⟩, fun deleted _ => ?_⟩
      have hrest : ∀ t ∈ d.known, t.id ≠ s.id →
          t ∈ ((d.absent i).next (.deleteRow (.byId s.id)) deleted).known :=
        fun t ht hne => Duty.mem_known_deleteRow.2 ⟨ht, hne⟩
      obtain e | row := deleted
      · exact ⟨howes, hrest⟩
      · exact ⟨howes, hrest⟩

/-- Sessions with different ids are aligned one after the other. -/
theorem reconcile_obeys (config : NodeConfig) {rows : List Session}
    (hnodup : (rows.map (·.id)).Nodup) {d : Duty} (hd : d.owes = none)
    (hrows : ∀ s ∈ rows, s ∈ d.known) :
    Obeys config.service .alignment (Job.reconcile config rows) d fun _ d' => d'.owes = none := by
  induction rows generalizing d with
  | nil => exact hd
  | cons s rows ih =>
    rw [List.map_cons, List.nodup_cons] at hnodup
    refine Obeys.bind (reconcileOne_obeys config hd (hrows s List.mem_cons_self)) ?_
    rintro ⟨one, error⟩ d' ⟨hd', hknown⟩
    refine Obeys.bind (ih hnodup.2 hd' fun t ht => ?_) fun _ _ h => h
    refine hknown t (hrows t (List.mem_cons_of_mem s ht)) fun hid => hnodup.1 ?_
    rw [← hid]
    exact List.mem_map_of_mem ht

/-- An alignment keeps its duty. -/
theorem sessionValidationRun_obeys (config : NodeConfig) {d : Duty} (hd : d.owes = none) :
    Obeys config.service .alignment (Job.sessionValidationRun config) d
      fun _ d' => d'.owes = none := by
  refine ⟨trivial, fun rows hrows => ?_⟩
  obtain e | rows := rows
  · exact hd
  · show Obeys config.service .alignment ((Job.reconcile config rows).bind _)
      (d.next (.findRows .all) (.ok rows)) _
    rw [Duty.next_findRows_all]
    have hrest := reconcile_obeys config (d := { d with known := rows, gone := none })
      (hrows rfl) hd fun _ hs => hs
    exact Obeys.bind hrest fun _ _ h => h

/-! ## Tasks -/

/-- Every task keeps its duty and ends without a debt. -/
theorem program_obeys (config : NodeConfig) (e : Errand) {d : Duty} (hd : d.owes = none) :
    Obeys config.service e.role (e.program config) d fun _ d' => d'.owes = none := by
  cases e with
  | admission r => exact Obeys.bind (accept_obeys config r hd) fun _ _ h => h
  | pass j =>
    by_cases hj : j = .sessionValidation
    · subst hj
      have hrun : Obeys config.service .alignment (Job.run config .sessionValidation) d
          fun _ d' => d'.owes = none :=
        Obeys.bind (sessionValidationRun_obeys config hd) fun _ _ h => h
      exact Obeys.bind hrun fun _ _ h => h
    · exact Obeys.bind (obeys_of_harmless (asks_run config hj) hd) fun _ _ h => h

end VpnNode.Interleaving
