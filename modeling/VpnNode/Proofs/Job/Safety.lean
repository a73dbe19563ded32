import VpnNode.Job.Run
import VpnNode.Proofs.Ledger.WellFormed
import VpnNode.Proofs.Program.Safe
import VpnNode.Proofs.Simulation.Writes

/-!
# Passes do not break down

A pass needs the counters of the rows that it has read. It breaks down if one of them is no
numeral, and if an update meets such a row. A ledger to which any operations have led has no
such row, and no request changes that.

Main statements:

* `safe_run`: no pass breaks down as long as the rows that it reads have numerals.
* `safe_usageToChainRun`: what a pass that reports usage submits.
* `fair_perform`: a well formed ledger gives fair answers and stays well formed.
* `rows_well_formed`: after any operations on the ledger every row is well formed, every row
  is found, and every pass comes to a value.
-/

namespace VpnNode.Job

open Program (Safe Quiet safe_querySession safe_broadcast safe_removeIfPresent safe_ofCorruption
  safe_ofFailure)
open Session (Counted)
open Simulation (World)

/-- Answers that a pass may count on: rows that are read have a property, and no update meets
    a corrupt value. -/
def Fair (P : Session → Prop) : (r : Request) → r.Answer → Prop
  | .findRows _, .ok rows => ∀ s ∈ rows, P s
  | .updateRow _ _, .error (.corrupt _) => False
  | _, _ => True

/-- Any request. -/
def Anything (_ : Request) : Prop := True

/-- A request of a pass that writes no row and submits no messages but reports of rows with a
    property. -/
def Faithful (P : Session → Prop) : Request → Prop
  | .insertRow _ | .updateRow _ _ | .deleteRow _ => False
  | .submit batch => ∀ m ∈ batch, ∃ s, P s ∧ s.usageReport = .ok m
  | _ => True

theorem Anything.of_quiet (r : Request) (_ : Quiet r) : Anything r := trivial

theorem Faithful.of_quiet {P : Session → Prop} (r : Request) (h : Quiet r) : Faithful P r := by
  cases r <;> trivial

variable {P : Session → Prop} {may : Request → Prop}

/-! ## Sessions -/

theorem safe_meter (service : Service) (stats : List Peer.Statistic) :
    Safe (Fair P) Anything (meter service stats) fun _ => True := by
  induction stats with
  | nil => trivial
  | cons stat stats ih =>
    unfold meter
    split
    · exact ih
    · refine .bind (.request trivial) fun now _ => .bind (.answer trivial)
        fun answer hanswer => ?_
      have hsound : ∀ c, answer ≠ .error (.corrupt c) := by
        rintro c rfl
        exact hanswer
      refine .bind (safe_ofFailure hsound) fun written _ => ?_
      cases written with
      | error e => trivial
      | ok written => exact .bind ih fun _ _ => trivial

theorem safe_enforce (service : Service) {rows : List Session} (h : ∀ s ∈ rows, Counted s) :
    Safe (Fair P) Anything (enforce service rows) fun _ => True := by
  induction rows with
  | nil => trivial
  | cons s rows ih =>
    rw [List.forall_mem_cons] at h
    have hrest := ih h.2
    refine .bind (safe_ofCorruption (Q := fun _ => True) (Session.isOverQuota_eq h.1) trivial)
      fun exceeded _ => ?_
    cases exceeded with
    | false => exact hrest
    | true =>
      exact .bind (safe_removeIfPresent (fun _ => ⟨trivial, trivial⟩) service s.peerKey)
        fun _ _ => .bind hrest fun _ _ => trivial

/-- A batch holds reports of the rows. -/
theorem safe_reports (hmay : ∀ r, Quiet r → may r) (p : Chain.Policies) {rows : List Session}
    (h : ∀ s ∈ rows, P s ∧ Counted s) :
    Safe (Fair P) may (reports p rows) fun x =>
      ∀ batch, x = .ok batch → ∀ m ∈ batch, ∃ s, P s ∧ s.usageReport = .ok m := by
  induction rows with
  | nil =>
    rintro _ ⟨⟩ m hm
    exact absurd hm List.not_mem_nil
  | cons s rows ih =>
    rw [List.forall_mem_cons] at h
    obtain ⟨⟨hs, hcounted⟩, hrows⟩ := h
    refine .bind (safe_querySession hmay p s.id) fun remote _ => ?_
    obtain e | (_ | remote) := remote
    · exact nofun
    · exact ih hrows
    · have hreport := Session.usageReport_eq hcounted
      refine .bind (safe_ofCorruption (Q := fun m => s.usageReport = .ok m) hreport hreport)
        fun report hreport => .bind (ih hrows) fun rest hrest => ?_
      rintro batch hbatch m hm
      cases rest with
      | error e => cases hbatch
      | ok rest =>
        cases hbatch
        rcases List.mem_cons.1 hm with rfl | hm
        · exact ⟨s, hs, hreport⟩
        · exact hrest rest rfl m hm

/-- A pass that reports usage reads the rows, concerns itself with the chain, and submits reports
    of the rows that it has read and no other messages. -/
theorem safe_usageToChainRun (hP : ∀ s, P s → Counted s) (hmay : ∀ r, Quiet r → may r)
    (hfind : may (.findRows .all))
    (hsubmit : ∀ batch, (∀ m ∈ batch, ∃ s, P s ∧ s.usageReport = .ok m) → may (.submit batch))
    (config : NodeConfig) : Safe (Fair P) may (usageToChainRun config) fun _ => True := by
  refine .bind (.answer hfind) fun rows hrows => ?_
  cases rows with
  | error e => trivial
  | ok rows =>
    have hread : ∀ s ∈ rows, P s ∧ Counted s := fun s hs => ⟨hrows s hs, hP s (hrows s hs)⟩
    refine .bind (safe_reports hmay config.policies hread) fun batch hbatch => ?_
    obtain e | (_ | ⟨report, batch⟩) := batch
    · trivial
    · trivial
    · refine .bind (safe_broadcast hmay config.policies (hsubmit _ (hbatch _ rfl)))
        fun sent _ => ?_
      cases sent <;> trivial

theorem safe_usageToLedgerRun (config : NodeConfig) :
    Safe (Fair P) Anything (usageToLedgerRun config) fun _ => True := by
  refine .bind (.request trivial) fun stats _ => ?_
  cases stats with
  | error e => trivial
  | ok stats => exact safe_meter config.service stats

theorem safe_usageValidationRun (hP : ∀ s, P s → Counted s) (config : NodeConfig) :
    Safe (Fair P) Anything (usageValidationRun config) fun _ => True := by
  refine .bind (.answer trivial) fun rows hrows => ?_
  cases rows with
  | error e => trivial
  | ok rows =>
    exact .bind (safe_enforce config.service fun s hs => hP s (hrows s hs)) fun _ _ => trivial

theorem safe_reconcileOne (config : NodeConfig) (s : Session) :
    Safe (Fair P) Anything (reconcileOne config s) fun _ => True := by
  refine .bind (safe_querySession Anything.of_quiet config.policies s.id) fun answer _ => ?_
  obtain e | remote := answer
  · trivial
  refine .ite trivial (.bind (safe_removeIfPresent (fun _ => ⟨trivial, trivial⟩) config.service
    s.peerKey) fun removed _ => ?_)
  obtain e | ⟨⟩ := removed
  · trivial
  · refine .ite trivial (.bind (.request trivial) fun deleted _ => ?_)
    cases deleted <;> trivial

theorem safe_reconcile (config : NodeConfig) (rows : List Session) :
    Safe (Fair P) Anything (reconcile config rows) fun _ => True := by
  induction rows with
  | nil => trivial
  | cons s rows ih =>
    exact .bind (safe_reconcileOne config s) fun _ _ => .bind ih fun _ _ => trivial

theorem safe_sessionValidationRun (config : NodeConfig) :
    Safe (Fair P) Anything (sessionValidationRun config) fun _ => True := by
  refine .bind (.request trivial) fun rows _ => ?_
  cases rows with
  | error e => trivial
  | ok rows => exact .bind (safe_reconcile config rows) fun _ _ => trivial

/-! ## The node itself -/

theorem safe_bestRpcAddressRun (config : NodeConfig) :
    Safe (Fair P) Anything (bestRpcAddressRun config) fun _ => True := by
  have hpublish : ∀ best, Safe (Fair P) Anything (publish best) fun _ => True := by
    rintro (_ | address)
    · trivial
    · exact .bind (.request trivial) fun _ _ => .ite trivial (.request trivial)
  exact .bind (.request trivial) fun _ _ => .bind (hpublish _) fun _ _ => trivial

theorem safe_geoipLocationRun : Safe (Fair P) Anything geoipLocationRun fun _ => True := by
  refine .bind (.request trivial) fun location _ => ?_
  cases location with
  | error reason => trivial
  | ok location => exact .bind (.request trivial) fun _ _ => trivial

theorem safe_speedtestRun : Safe (Fair P) Anything speedtestRun fun _ => True := by
  refine .bind (.request trivial) fun speed _ => ?_
  cases speed with
  | error reason => trivial
  | ok speed => exact .bind (.request trivial) fun _ _ => trivial

theorem safe_statusUpdateRun (config : NodeConfig) :
    Safe (Fair P) Anything (statusUpdateRun config) fun _ => True := by
  refine .bind (safe_broadcast Anything.of_quiet config.policies trivial) fun sent _ => ?_
  cases sent <;> trivial

/-- No pass breaks down as long as the rows that it reads have numerals. -/
theorem safe_run (hP : ∀ s, P s → Counted s) (config : NodeConfig) (j : Job) :
    Safe (Fair P) Anything (j.run config) fun _ => True := by
  cases j with
  | bestRpcAddress => exact .bind (safe_bestRpcAddressRun config) fun _ _ => trivial
  | geoipLocation => exact .bind safe_geoipLocationRun fun _ _ => trivial
  | usageToChain =>
    exact .bind (safe_usageToChainRun hP Anything.of_quiet trivial (fun _ _ => trivial) config)
      fun _ _ => trivial
  | usageToLedger => exact .bind (safe_usageToLedgerRun config) fun _ _ => trivial
  | usageValidation => exact .bind (safe_usageValidationRun hP config) fun _ _ => trivial
  | sessionValidation => exact .bind (safe_sessionValidationRun config) fun _ _ => trivial
  | speedtest => exact .bind safe_speedtestRun fun _ _ => trivial
  | statusUpdate => exact .bind (safe_statusUpdateRun config) fun _ _ => trivial

/-! ## Against a ledger -/

/-- A well formed ledger answers fairly. -/
theorem fair_perform {w : World} (h : w.ledger.WellFormed) (r : Request) :
    Fair (fun s => w.ledger.Holds s.id s) r (World.perform r w).1 := by
  cases r with
  | findRows f =>
    show Fair _ (.findRows f) (w.ledger.find f)
    rw [h.indexed.find_eq]
    exact fun s hs => h.indexed.mem_sessions.1 (List.mem_filter.1 hs).1
  | updateRow f u =>
    show Fair _ (.updateRow f u) (w.updateLedger (w.ledger.updateOne f u)).1
    rw [World.updateLedger_eq]
    have hsound := h.updateOne_ne_corrupt f u
    cases hupdate : w.ledger.updateOne f u with
    | ok x => trivial
    | error e =>
      cases e with
      | error e => trivial
      | corrupt c => exact absurd hupdate (hsound c)
  | _ => trivial

/-- Requests leave the ledger well formed. -/
theorem wellFormed_perform {w : World} (h : w.ledger.WellFormed) (r : Request) :
    (World.perform r w).2.ledger.WellFormed := by
  rw [World.ledger_perform]
  cases Ledger.Operation.ofRequest? r with
  | none => exact h
  | some op => exact h.perform op

theorem Fair.mono {P' : Session → Prop} (hP : ∀ s, P s → P' s) {r : Request} {a : r.Answer}
    (h : Fair P r a) : Fair P' r a := by
  cases r with
  | findRows f =>
    cases a with
    | error e => trivial
    | ok rows => exact fun s hs => hP s (h s hs)
  | updateRow f u =>
    obtain (e | c) | s := a
    · trivial
    · exact h
    · trivial
  | _ => trivial

/-- A pass on a well formed ledger comes to a value and leaves the ledger well formed. -/
theorem exists_run_eq {w : World} (h : w.ledger.WellFormed) (config : NodeConfig) (j : Job) :
    ∃ x w', w.run (j.run config) = (.value x, w') ∧ w'.ledger.WellFormed := by
  have hstep : ∀ r w, Anything r → w.ledger.WellFormed →
      Fair Counted r (World.perform r w).1 ∧ (World.perform r w).2.ledger.WellFormed := by
    intro r w _ hw
    exact ⟨(fair_perform hw r).mono fun s hs => hw.counted s.id s hs, wellFormed_perform hw r⟩
  obtain ⟨x, w', hrun, -, hw', -⟩ := (safe_run (fun _ hs => hs) config j).run hstep h
  exact ⟨x, w', hrun, hw'⟩

/-- After any operations on the ledger, successful or not, every row passes the check that a
    session has to pass before it is stored, and what it holds can be read: its bytes, its
    quotas, its signature and its report. Every look-up succeeds and finds the rows that
    match: if all times have been of the years 0 to 9999, the stored text of each row can be
    read, and gives the row itself unless a leap second stands within a minute. No update meets
    a corrupt value, and whatever else surrounds the node, every pass comes to a value. -/
theorem rows_well_formed (ops : List Ledger.Operation) :
    let l := Ledger.after ops
    (∀ id s, l.Holds id s → s.validate = .ok () ∧ s.bytes.isOk ∧ s.byteQuota.isOk ∧
      s.signatureOctets.isOk ∧ s.isOverQuota.isOk ∧ s.usageReport.isOk) ∧
    (∀ f, l.find f = .ok (l.sessions.filter f.matchesRow)) ∧
    ((∀ op ∈ ops, op.Timed Time.IsCommon) →
      ∀ id s, l.Holds id s → Ledger.Entry.ofText s.encode ≠ .unreadable) ∧
    ((∀ op ∈ ops, op.Timed Time.IsPlain) →
      ∀ id s, l.Holds id s → Ledger.Entry.ofText s.encode = .row s) ∧
    (∀ f u c, l.updateOne f u ≠ .error (.corrupt c) ∧ l.updateMany f u ≠ .error (.corrupt c)) ∧
    ∀ (w : World) (config : NodeConfig) (j : Job), w.ledger = l →
      ∃ x w', w.run (j.run config) = (.value x, w') := by
  intro l
  have h : l.WellFormed := .after ops
  refine ⟨fun id s hs => ⟨h.valid id s hs, h.readable hs⟩, h.indexed.find_eq,
    fun hops _ _ hs => Ledger.ofText_ne_unreadable hops hs,
    fun hops _ _ hs => Ledger.row_ofText hops hs,
    fun f u c => ⟨h.updateOne_ne_corrupt f u c, h.updateMany_ne_corrupt f u c⟩, ?_⟩
  rintro w config j hw
  obtain ⟨x, w', hrun, -⟩ := exists_run_eq (hw ▸ h) config j
  exact ⟨x, w', hrun⟩

end VpnNode.Job
