import VpnNode.Proofs.Interleaving.Tasks
import VpnNode.Proofs.Simulation.Writes
import VpnNode.Proofs.Job.Metering
import VpnNode.Proofs.Job.Reconciliation
import VpnNode.Proofs.Ledger.WellFormed

/-!
# The order of two passes

The pass that disconnects who is over quota and the pass that aligns the ledger with the
chain both disconnect peers, and the second deletes rows that the first reads. Still it does
not matter which comes first. What the two leave together is said once, in terms of what was
there before both, and either order is shown to leave just that. The key to it is that a row
is deleted only after its peer was disconnected: if the other pass no longer sees the row, it
has nothing left to do for it.

How many removals there were need not be followed through the two passes. No pass connects a
peer, and the backend counts each removal, so the peers that are left tell the number.

Main statements:

* `balanced_run`: a task that connects nobody keeps the sum of removals and peers.
* `Settled.failingQueries_eq`: each row uses up as many queued failures as a query has
  attempts.
* `validations_commute`: what the two passes leave, whichever comes first.
-/

namespace VpnNode.Job

open Interleaving (Asks Passive Harmless)
open Peer (Table)
open Peer.Identity (canonical?)
open Simulation (World)
open Simulation.World (Completes)

/-! ## Removals are counted -/

/-- A request that connects no peer. -/
def ConnectsNobody : Request → Prop
  | .addPeer _ => False
  | _ => True

theorem ConnectsNobody.of_passive {r : Request} (h : Passive r) : ConnectsNobody r := by
  cases r <;> trivial

theorem ConnectsNobody.of_harmless {service : Service} {r : Request} (h : Harmless service r) :
    ConnectsNobody r := by
  cases r <;> trivial

theorem balanced_updateTable {w : World} {x : Except Peer.Error (α × Table)}
    (hx : ∀ a table, x = .ok (a, table) → Table.Balanced w.table table) :
    Table.Balanced w.table (w.updateTable x).2.table := by
  obtain e | ⟨a, table⟩ := x
  · exact .refl w.table
  · exact hx a table rfl

theorem balanced_callBackend (w : World) (call : Simulation.BackendCall)
    {f : World → Except Peer.Error α × World}
    (hf : ∀ w, Table.Balanced w.table (f w).2.table) :
    Table.Balanced w.table (w.callBackend call f).2.table := by
  have hfault : (w.takeFault call).2.table = w.table := by
    unfold World.takeFault
    split <;> rfl
  unfold World.callBackend
  revert hfault
  rcases w.takeFault call with ⟨_ | e, w'⟩
  · intro hfault
    exact hfault ▸ hf w'
  · intro hfault
    rw [show w'.table = w.table from hfault]
    exact .refl w.table

/-- A request that connects nobody keeps the sum of removals and peers. -/
theorem balanced_perform {r : Request} (h : ConnectsNobody r) (w : World) :
    Table.Balanced w.table (World.perform r w).2.table := by
  cases r with
  | addPeer i => exact absurd h id
  | hasPeer i => exact balanced_callBackend _ _ fun w => .refl w.table
  | peerStatistics => exact balanced_callBackend _ _ fun w => .refl w.table
  | peerCount => exact balanced_callBackend _ _ fun w => .refl w.table
  | removePeer i =>
    refine balanced_callBackend _ _ fun w => balanced_updateTable fun a table hx => ?_
    cases hr : w.table.remove i with
    | error e => rw [hr] at hx; exact nomatch hx
    | ok t =>
      rw [hr] at hx
      obtain rfl : t = table := by injection hx with hx; injection hx
      exact .remove hr
  | insertRow s =>
    show Table.Balanced w.table (World.updateLedger _ _).2.table
    rw [World.updateLedger_eq]
    exact .refl w.table
  | updateRow f u =>
    show Table.Balanced w.table (World.updateLedger _ _).2.table
    rw [World.updateLedger_eq]
    exact .refl w.table
  | deleteRow f =>
    show Table.Balanced w.table (World.updateLedger _ _).2.table
    rw [World.updateLedger_eq]
    exact .refl w.table
  | _ => exact .refl w.table

/-- So does a task that connects nobody. -/
theorem balanced_run {p : Program α} (h : Asks ConnectsNobody p) (w : World) :
    Table.Balanced w.table (w.run p).2.table := by
  induction p generalizing w with
  | done a => exact .refl w.table
  | abort message => exact .refl w.table
  | ask r next ih => exact (balanced_perform h.1 w).trans (ih _ (h.2 _) _)

theorem asks_usageValidationRun (config : NodeConfig) :
    Asks ConnectsNobody (usageValidationRun config) :=
  (Interleaving.asks_usageValidationRun config).mono fun _ => .of_harmless

theorem asks_reconcileOne (config : NodeConfig) (s : Session) :
    Asks ConnectsNobody (reconcileOne config s) := by
  refine .bind ((Interleaving.asks_querySession config.policies s.id).mono fun _ => .of_passive) ?_
  intro remote
  obtain e | remote := remote
  · trivial
  refine .ite trivial (.bind ?_ fun removed => ?_)
  · exact (Interleaving.asks_removeIfPresent config.service s.peerKey).mono fun _ => .of_harmless
  obtain e | ⟨⟩ := removed
  · trivial
  refine .ite trivial (.bind (.request trivial) fun deleted => ?_)
  obtain e | row := deleted <;> trivial

theorem asks_sessionValidationRun (config : NodeConfig) :
    Asks ConnectsNobody (sessionValidationRun config) := by
  have hrows : ∀ rows, Asks ConnectsNobody (reconcile config rows) := by
    intro rows
    induction rows with
    | nil => trivial
    | cons s rows ih => exact .bind (asks_reconcileOne config s) fun _ => .bind ih fun _ => trivial
  refine .bind (.request trivial) fun rows => ?_
  obtain e | rows := rows
  · trivial
  · exact .bind (hrows rows) fun _ => trivial

/-! ## Queued failures are used up -/

variable {config : NodeConfig} {w w' : World}

/-- A row uses up as many queued failures as a query has attempts. -/
theorem exists_reconciledOne (hs : w.table.service = config.service) (hf : w.faults = [])
    (hi : w.ledger.Indexed) (s : Session) :
    ∃ one error w₁ made, Completes (reconcileOne config s) w (one, error) w₁ made ∧
      w₁.table.service = config.service ∧ w₁.faults = [] ∧ w₁.ledger.Indexed ∧
      w₁.chain.failingQueries = w.chain.failingQueries - config.policies.query.attempts := by
  rcases Nat.lt_or_ge w.chain.failingQueries config.policies.query.attempts with hlt | hle
  · obtain ⟨one, error, w₁, hone, haligned, hqueue, -, -⟩ :=
      completes_reconcileOne_of_lt hs hf hi s hlt
    exact ⟨one, error, w₁, _, hone, haligned.service.trans hs, haligned.faults,
      haligned.indexed, by omega⟩
  · obtain ⟨w₁, hone, halike, hqueue⟩ := completes_reconcileOne_of_le s hle
    have haligned : Aligned w [] w₁ := .of_alike halike hf hi
    exact ⟨_, _, w₁, _, hone, haligned.service.trans hs, haligned.faults, haligned.indexed, hqueue⟩

/-- So rows that are settled use up that many each, until none is left. -/
theorem Settled.failingQueries_eq {rows : List Session} {done : Reconciled}
    (hs : w.table.service = config.service) (hf : w.faults = []) (hi : w.ledger.Indexed)
    (h : Settled config w rows done w') :
    w'.chain.failingQueries =
      w.chain.failingQueries - rows.length * config.policies.query.attempts := by
  induction rows generalizing w w' done with
  | nil =>
    have hrun := h.completes.run_eq
    rw [reconcile_nil, World.run_done, Prod.mk.injEq] at hrun
    rw [← hrun.2, List.length_nil, Nat.zero_mul, Nat.sub_zero]
  | cons s rows ih =>
    obtain ⟨one, error, w₁, made, hone, hs₁, hf₁, hi₁, hqueue⟩ := exists_reconciledOne hs hf hi s
    obtain ⟨rest, w₂, hrest⟩ := exists_settled rows hs₁ hf₁ hi₁
    -- A task that runs alone leaves one state only, so this is the one that `h` speaks of.
    have hrun := (completes_cons hone hrest.completes).run_eq
    rw [h.completes.run_eq, Prod.mk.injEq] at hrun
    rw [hrun.2, ih hs₁ hf₁ hi₁ hrest, hqueue, List.length_cons, Nat.succ_mul]
    omega

/-! ## What each pass leaves -/

/-- The pass that enforces quotas disconnects the peers of the rows over quota. -/
theorem exists_enforced (hs : w.table.service = config.service) (hf : w.faults = [])
    (hi : w.ledger.Indexed) (hc : w.ledger.Every Session.Counted) :
    ∃ result table, Completes (usageValidationRun config) w result { w with table } [] ∧
      ∀ key, table.peers[key]? =
        if w.ledger.sessions.any (overruns config.service key) then none
        else w.table.peers[key]? := by
  have hfind : World.perform (.findRows .all) w = (.ok w.ledger.sessions, w) :=
    World.perform_findRows_all hi
  obtain ⟨table, henforce, hpeers⟩ := completes_enforce_of_counted w.ledger.sessions hs hf
    fun s hmem => hc s.id s (hi.mem_sessions.1 hmem)
  have hresult := henforce.bind (f := fun r => Program.done
    (if r.2 = 0 then Except.ok r.1 else .error (Error.teardown r.2 r.1))) (.done _ _)
  exact ⟨_, table, .ask rfl hfind hresult, hpeers⟩

/-- The rows whose query is answered in a pass over the ledger. -/
def heard (config : NodeConfig) (w : World) : List Session :=
  answered config.policies.query.attempts w w.ledger.sessions

/-- The pass that aligns the ledger with the chain settles the rows that are answered. -/
theorem exists_aligned (hs : w.table.service = config.service) (hf : w.faults = [])
    (hi : w.ledger.Indexed) :
    ∃ result w' made, Completes (sessionValidationRun config) w result w' made ∧
      Aligned w (heard config w) w' ∧ w'.chain.failingQueries = w.chain.failingQueries -
        w.ledger.sessions.length * config.policies.query.attempts := by
  obtain ⟨done, w', hsettled⟩ := exists_settled w.ledger.sessions hs hf hi
  exact ⟨_, w', _, completes_sessionValidationRun hi hsettled.completes, hsettled.aligned,
    hsettled.failingQueries_eq hs hf hi⟩

/-- A row is kept unless it was itself to be deleted: there is no other with its id. -/
theorem kept_iff (hi : w.ledger.Indexed) {id : UInt64} {s : Session} :
    (w.ledger.Holds id s ∧ ∀ t ∈ heard config w, deletes w t = true → t.id ≠ id) ↔
      w.ledger.Holds id s ∧ ¬(s ∈ heard config w ∧ deletes w s = true) := by
  refine and_congr_right fun hholds => ?_
  have hid : s.id = id := hi.id_eq hholds
  constructor
  · rintro hkept ⟨hmem, hdeletes⟩
    exact hkept s hmem hdeletes hid
  · intro hkept t hmem hdeletes htid
    have ht : t ∈ w.ledger.sessions := List.mem_of_mem_drop hmem
    obtain rfl : t = s := (hi.mem_sessions.1 ht).unique (htid ▸ hholds)
    exact hkept ⟨hmem, hdeletes⟩

/-! ## What both leave -/

/-- Has the peer with a key to go because of one of the passes? -/
def dismissed (config : NodeConfig) (w : World) (key : String) : Bool :=
  w.ledger.sessions.any (overruns config.service key) || (heard config w).any (disconnects w key)

/-- What the two passes leave together, in terms of what was there before. -/
structure Validated (config : NodeConfig) (w w' : World) : Prop where
  indexed : w'.ledger.Indexed
  holds : ∀ id s, w'.ledger.Holds id s ↔
    w.ledger.Holds id s ∧ ∀ t ∈ heard config w, deletes w t = true → t.id ≠ id
  balanced : Table.Balanced w.table w'.table
  peers : ∀ key, w'.table.peers[key]? =
    if dismissed config w key then none else w.table.peers[key]?
  queue : w'.chain.failingQueries =
    w.chain.failingQueries - w.ledger.sessions.length * config.policies.query.attempts

/-- That determines the ledger, the table and the queue. -/
theorem Validated.unique {w₁ w₂ : World} (h₁ : Validated config w w₁)
    (h₂ : Validated config w w₂) : w₁.ledger = w₂.ledger ∧ w₁.table = w₂.table ∧
      w₁.chain.failingQueries = w₂.chain.failingQueries := by
  refine ⟨h₁.indexed.ext h₂.indexed fun id s => ?_, h₁.balanced.ext h₂.balanced fun key => ?_, ?_⟩
  · rw [h₁.holds, h₂.holds]
  · rw [h₁.peers, h₂.peers]
  · rw [h₁.queue, h₂.queue]

/-- Quotas first: the alignment then sees the same rows. -/
theorem exists_validated_usage_first (hs : w.table.service = config.service) (hf : w.faults = [])
    (hi : w.ledger.Indexed) (hc : w.ledger.Every Session.Counted) :
    ∃ r₁ w₁ r₂ w₂, w.run (usageValidationRun config) = (.value r₁, w₁) ∧
      w₁.run (sessionValidationRun config) = (.value r₂, w₂) ∧ Validated config w w₂ := by
  obtain ⟨r₁, table, hfirst, hpeers⟩ := exists_enforced hs hf hi hc
  have hbalanced := balanced_run (asks_usageValidationRun config) w
  rw [hfirst.run_eq] at hbalanced
  obtain ⟨r₂, w₂, made, hsecond, haligned, hqueue⟩ :=
    exists_aligned (w := { w with table }) (hbalanced.service.trans hs) hf hi
  have hbalanced' := balanced_run (asks_sessionValidationRun config) { w with table }
  rw [hsecond.run_eq] at hbalanced'
  have hdisconnects : disconnects { w with table } = disconnects w := by
    funext key s
    rw [disconnects, show table.service = w.table.service from hbalanced.service]
    rfl
  have hdeletes : deletes { w with table } = deletes w := by
    funext s
    rw [deletes, rejected, show table.service = w.table.service from hbalanced.service]
    rfl
  refine ⟨r₁, _, r₂, w₂, hfirst.run_eq, hsecond.run_eq, haligned.indexed, fun id s => ?_,
    hbalanced.trans hbalanced', fun key => ?_, hqueue⟩
  · rw [haligned.holds, hdeletes]
    rfl
  · rw [haligned.peers, hdisconnects]
    show (if (heard config w).any _ then none else table.peers[key]?) = _
    rw [hpeers, dismissed]
    cases w.ledger.sessions.any (overruns config.service key) <;>
      cases (heard config w).any (disconnects w key) <;> rfl

/-- A row that is deleted disconnects the peer with its key, whoever looks at its quota. -/
theorem any_overruns_eq {w₁ : World} (hs : w.table.service = config.service)
    (hi : w.ledger.Indexed) (haligned : Aligned w (heard config w) w₁) (key : String) :
    (w₁.ledger.sessions.any (overruns config.service key) ||
      (heard config w).any (disconnects w key)) = dismissed config w key := by
  rw [dismissed, Bool.eq_iff_iff, Bool.or_eq_true, Bool.or_eq_true]
  constructor
  · rintro (hany | hany)
    · obtain ⟨s, hmem, hover⟩ := List.any_eq_true.1 hany
      have hholds := (haligned.holds s.id s).1 (haligned.indexed.mem_sessions.1 hmem)
      exact .inl (List.any_eq_true.2 ⟨s, hi.mem_sessions.2 hholds.1, hover⟩)
    · exact .inr hany
  · rintro (hany | hany)
    · obtain ⟨s, hmem, hover⟩ := List.any_eq_true.1 hany
      have hholds := hi.mem_sessions.1 hmem
      by_cases hdeleted : s ∈ heard config w ∧ deletes w s = true
      · right
        refine List.any_eq_true.2 ⟨s, hdeleted.1, ?_⟩
        have habsent := hdeleted.2
        rw [deletes, Bool.and_eq_true] at habsent
        rw [overruns, Bool.and_eq_true, ← hs] at hover
        rw [disconnects, idle_of_absent habsent.1, hover.2]
        rfl
      · left
        refine List.any_eq_true.2 ⟨s, haligned.indexed.mem_sessions.2 ?_, hover⟩
        rw [haligned.holds, kept_iff hi]
        exact ⟨hholds, hdeleted⟩
    · exact .inr hany

/-- The alignment first: the peers of the rows that it has deleted are gone already. -/
theorem exists_validated_sessions_first (hs : w.table.service = config.service)
    (hf : w.faults = []) (hi : w.ledger.Indexed) (hc : w.ledger.Every Session.Counted) :
    ∃ r₁ w₁ r₂ w₂, w.run (sessionValidationRun config) = (.value r₁, w₁) ∧
      w₁.run (usageValidationRun config) = (.value r₂, w₂) ∧ Validated config w w₂ := by
  obtain ⟨r₁, w₁, made, hfirst, haligned, hqueue⟩ := exists_aligned hs hf hi
  have hbalanced := balanced_run (asks_sessionValidationRun config) w
  rw [hfirst.run_eq] at hbalanced
  have hc₁ : w₁.ledger.Every Session.Counted := fun id s hholds =>
    hc id s ((haligned.holds id s).1 hholds).1
  obtain ⟨r₂, table, hsecond, hpeers⟩ :=
    exists_enforced (haligned.service.trans hs) haligned.faults haligned.indexed hc₁
  have hbalanced' := balanced_run (asks_usageValidationRun config) w₁
  rw [hsecond.run_eq] at hbalanced'
  refine ⟨r₁, w₁, r₂, _, hfirst.run_eq, hsecond.run_eq, haligned.indexed, haligned.holds,
    hbalanced.trans hbalanced', fun key => ?_, hqueue⟩
  show table.peers[key]? = _
  rw [hpeers, haligned.peers, ← any_overruns_eq hs hi haligned]
  cases w₁.ledger.sessions.any (overruns config.service key) <;>
    cases (heard config w).any (disconnects w key) <;> rfl

/-- The pass that enforces quotas and the one that aligns the ledger with the chain may come
    in either order. Any operations have led to the ledger; the peers in memory, the sessions
    of the chain and the number of queries that fail are any. All passes come to an end, and
    either order leaves the same rows and index, the same peers with the same counters, the
    same number of removals, and the same number of queries that still fail. These are: the
    rows that were not answered, that the chain knows, or whose peer key the kind of service
    does not know; the peers that have neither a row over quota nor one that was answered
    and whose session is absent or not active; one removal more for each peer less; and
    what is left of the failures when each row has used up those of one query. -/
theorem validations_commute (config : NodeConfig) (ops : List Ledger.Operation)
    (peers : Std.ExtTreeMap String Peer.Usage) (capacity removals : Nat) (w : World) :
    let before : World := { w with
      ledger := .after ops, table := ⟨config.service, capacity, peers, removals⟩, faults := [] }
    let rows := before.ledger.sessions
    let attempts := config.policies.query.attempts
    let answered := rows.drop (min rows.length (before.chain.failingQueries / attempts))
    ∃ r₁ w₁ r₂ w₂ r₃ w₃ r₄ w₄,
      before.run (usageValidationRun config) = (.value r₁, w₁) ∧
      w₁.run (sessionValidationRun config) = (.value r₂, w₂) ∧
      before.run (sessionValidationRun config) = (.value r₃, w₃) ∧
      w₃.run (usageValidationRun config) = (.value r₄, w₄) ∧
      w₂.ledger = w₄.ledger ∧ w₂.table = w₄.table ∧
      w₂.chain.failingQueries = w₄.chain.failingQueries ∧
      (∀ id s, w₂.ledger.Holds id s ↔ before.ledger.Holds id s ∧
        ¬(s ∈ answered ∧ absent before s = true ∧ rejected before s = false)) ∧
      (∀ key, w₂.table.peers[key]? =
        if (rows.any fun s =>
            decide s.OverQuota && canonical? config.service s.peerKey == some key) ||
          (answered.any fun s =>
            idle before s && canonical? config.service s.peerKey == some key) then none
        else peers[key]?) ∧
      w₂.table.removals + w₂.table.peers.size = removals + peers.size ∧
      w₂.chain.failingQueries = before.chain.failingQueries - rows.length * attempts := by
  intro before rows attempts answered
  have hwell : before.ledger.WellFormed := .after ops
  obtain ⟨r₁, w₁, r₂, w₂, h₁, h₂, hvalidated⟩ :=
    exists_validated_usage_first (w := before) rfl rfl hwell.indexed hwell.counted
  obtain ⟨r₃, w₃, r₄, w₄, h₃, h₄, hvalidated'⟩ :=
    exists_validated_sessions_first (w := before) rfl rfl hwell.indexed hwell.counted
  obtain ⟨hledger, htable, hqueue⟩ := hvalidated.unique hvalidated'
  refine ⟨r₁, w₁, r₂, w₂, r₃, w₃, r₄, w₄, h₁, h₂, h₃, h₄, hledger, htable, hqueue,
    fun id s => ?_, hvalidated.peers, hvalidated.balanced.total, hvalidated.queue⟩
  rw [hvalidated.holds, kept_iff hwell.indexed, deletes, Bool.and_eq_true, Bool.not_eq_true']
  rfl

end VpnNode.Job
