import VpnNode.Proofs.Job.Safety
import VpnNode.Proofs.Ledger.Usage

/-!
# Usage is never lost

A node does one thing at a time: operations on the ledger and passes of jobs follow each
other, and between them everything outside the ledger may change. A pass writes by operations
on the ledger as well, so such a history comes to a list of operations. A row that stays
keeps the largest numbers that were ever reported for it, and the chain is told numbers that
never decrease.

Main statements:

* `Event.ledger_after`: the ledger after a history is that after its operations.
* `Event.usageReport_of_mem_reports`: a pass that reports usage submits what the rows hold.
* `usage_never_lost`: what a history makes of a row that stays, and what the chain is told of
  it.
-/

namespace VpnNode.Job

open Program (Exchange)
open Session (Counted amount)
open Simulation (World)
open Ledger (Operation Stays updatesOf Updated amount_le_of_updated reached_by_updateMany_all
  holds_perform_insert)

/-- What happens to a node that does one thing at a time. -/
inductive Event where
  | write (op : Operation)
  | pass (config : NodeConfig) (j : Job)
  /-- Everything but the ledger changes. -/
  | turn (w : World)

/-- The messages that were submitted, attempt by attempt. -/
def submitted (exchanges : List Exchange) : List Chain.Message :=
  exchanges.flatMap fun e => match e.request with
    | .submit batch => batch
    | _ => []

/-- The report on a session that a message is, if it is one. -/
def reportOn? (id : UInt64) : Chain.Message → Option Chain.UsageReport
  | .updateSession r => if r.sessionId = id then some r else none
  | .updateNodeStatus _ _ => none

namespace Event

/-- The surroundings after an event. -/
def happen (w : World) : Event → World
  | .write op => { w with ledger := w.ledger.perform op }
  | .pass config j => (w.run (j.run config)).2
  | .turn w' => { w' with ledger := w.ledger }

/-- The operations on the ledger that an event comes to. -/
def operations (w : World) : Event → List Operation
  | .write op => [op]
  | .pass config j => World.writes (j.run config) w
  | .turn _ => []

/-- What a pass that reports usage submits about a session. -/
def reports (id : UInt64) (w : World) : Event → List Chain.UsageReport
  | .pass config .usageToChain =>
    (submitted ((run config .usageToChain).exchanges World.perform w)).filterMap (reportOn? id)
  | _ => []

/-- The surroundings after a history. -/
def after (w : World) (events : List Event) : World := events.foldl happen w

/-- The operations on the ledger that a history comes to. -/
def allOperations (w : World) : List Event → List Operation
  | [] => []
  | e :: events => operations w e ++ allOperations (happen w e) events

/-- What the passes of a history that report usage submit about a session. -/
def allReports (id : UInt64) (w : World) : List Event → List Chain.UsageReport
  | [] => []
  | e :: events => reports id w e ++ allReports id (happen w e) events

/-! ## Operations of a history -/

theorem ledger_happen (w : World) (e : Event) :
    (happen w e).ledger = (operations w e).foldl Ledger.perform w.ledger := by
  cases e with
  | write op => rfl
  | pass config j => exact World.ledger_run (j.run config) w
  | turn w' => rfl

/-- The ledger after a history is the ledger after the operations that it comes to. -/
theorem ledger_after (w : World) (events : List Event) :
    (after w events).ledger = (allOperations w events).foldl Ledger.perform w.ledger := by
  induction events generalizing w with
  | nil => rfl
  | cons e events ih =>
    rw [allOperations, List.foldl_append, ← ledger_happen]
    exact ih (happen w e)

theorem wellFormed_happen {w : World} (h : w.ledger.WellFormed) (e : Event) :
    (happen w e).ledger.WellFormed := by
  rw [ledger_happen]
  exact h.foldl_perform _

theorem wellFormed_after {w : World} (h : w.ledger.WellFormed) (events : List Event) :
    (after w events).ledger.WellFormed := by
  rw [ledger_after]
  exact h.foldl_perform _

/-! ## Reports of a pass -/

/-- A pass that reports usage leaves the ledger alone, and every message that it submits is
    the report of a row. -/
theorem usageReport_of_submitted {w : World} (h : w.ledger.WellFormed) (config : NodeConfig)
    {m : Chain.Message}
    (hm : m ∈ submitted ((run config .usageToChain).exchanges World.perform w)) :
    ∃ s, w.ledger.Holds s.id s ∧ s.usageReport = .ok m := by
  have hsafe : Program.Safe (Fair fun s => w.ledger.Holds s.id s)
      (Faithful fun s => w.ledger.Holds s.id s) (run config .usageToChain) fun _ => True :=
    .bind (safe_usageToChainRun (fun s hs => h.counted s.id s hs) Faithful.of_quiet trivial
      (fun _ hbatch => hbatch) config) fun _ _ => trivial
  have hstep : ∀ r w', Faithful (fun s => w.ledger.Holds s.id s) r → w'.ledger = w.ledger →
      Fair (fun s => w.ledger.Holds s.id s) r (World.perform r w').1 ∧
        (World.perform r w').2.ledger = w.ledger := by
    intro r w' hr hw'
    have hfair := fair_perform (hw' ▸ h) r
    rw [hw'] at hfair
    refine ⟨hfair, ?_⟩
    rw [World.ledger_perform, hw']
    cases r <;> first | rfl | exact False.elim hr
  obtain ⟨-, -, -, -, -, hasked⟩ := hsafe.run hstep rfl
  obtain ⟨e, he, hme⟩ := List.mem_flatMap.1 hm
  have hfaithful := hasked e he
  split at hme
  · rename_i batch hbatch
    rw [hbatch] at hfaithful
    exact hfaithful m hme
  · exact absurd hme List.not_mem_nil

/-- A pass that reports usage submits what the rows hold. -/
theorem usageReport_of_mem_reports {w : World} (h : w.ledger.WellFormed) {id : UInt64} {e : Event}
    {r : Chain.UsageReport} (hr : r ∈ reports id w e) :
    ∃ s, w.ledger.Holds id s ∧ s.usageReport = .ok (.updateSession r) := by
  unfold reports at hr
  split at hr
  · rename_i config
    obtain ⟨m, hm, hreport⟩ := List.mem_filterMap.1 hr
    obtain ⟨s, hs, hmessage⟩ := usageReport_of_submitted h config hm
    have hcounted := h.counted s.id s hs
    cases m with
    | updateNodeStatus address status => cases hreport
    | updateSession r' =>
      obtain ⟨hid, hsame⟩ := Option.ite_none_right_eq_some.1 hreport
      cases hsame
      have hsession : r.sessionId = s.id := by
        have heq := (Session.usageReport_eq hcounted).symm.trans hmessage
        cases heq
        rfl
      rw [← hsession, hid] at hs
      exact ⟨s, hs, hmessage⟩
  · exact absurd hr List.not_mem_nil

end Event

/-! ## What the chain is told -/

/-- A report carries numbers. -/
structure Carries (r : Chain.UsageReport) (download upload : Nat) : Prop where
  download : Decimal.parse? r.downloadBytes = some download
  upload : Decimal.parse? r.uploadBytes = some upload

/-- Two reports carry numbers, and those of the second are no smaller. -/
def NoLess (r r' : Chain.UsageReport) : Prop :=
  ∃ d u d' u', Carries r d u ∧ Carries r' d' u' ∧ d ≤ d' ∧ u ≤ u'

theorem carries_of_usageReport {s : Session} (h : Counted s) {r : Chain.UsageReport}
    (hr : s.usageReport = .ok (.updateSession r)) :
    Carries r (amount s.downloadBytes) (amount s.uploadBytes) := by
  have heq := (Session.usageReport_eq h).symm.trans hr
  cases heq
  exact ⟨Decimal.parse?_render _, Decimal.parse?_render _⟩

/-- The reports on a row that stays are no smaller than the row, nor than those before. -/
theorem Event.noLess_allReports {w : World} (h : w.ledger.WellFormed) {events : List Event}
    {id : UInt64} {s : Session} (hs : w.ledger.Holds id s)
    (hstays : Stays id w.ledger (allOperations w events)) :
    (∀ r ∈ allReports id w events, ∃ d u, Carries r d u ∧ amount s.downloadBytes ≤ d ∧
      amount s.uploadBytes ≤ u) ∧ (allReports id w events).Pairwise NoLess := by
  induction events generalizing w s with
  | nil => exact ⟨fun r hr => absurd hr List.not_mem_nil, List.Pairwise.nil⟩
  | cons e events ih =>
    have hcounted := h.counted id s hs
    have hfirst : ∀ r ∈ reports id w e,
        Carries r (amount s.downloadBytes) (amount s.uploadBytes) := by
      intro r hr
      obtain ⟨s', hs', hreport⟩ := usageReport_of_mem_reports h hr
      rw [hs'.unique hs] at hreport
      exact carries_of_usageReport hcounted hreport
    obtain ⟨hnow, hlater⟩ := Ledger.stays_append.1 hstays
    obtain ⟨t, ht, hupdated⟩ := h.updated_of_stays hs hnow
    rw [← ledger_happen] at ht hlater
    have h₁ := wellFormed_happen h e
    obtain ⟨hdownload, hupload⟩ := amount_le_of_updated hcounted (h₁.counted id t ht) hupdated
    obtain ⟨hrest, hpairwise⟩ := ih h₁ ht hlater
    have hall : ∀ r ∈ allReports id (happen w e) events, ∃ d u, Carries r d u ∧
        amount s.downloadBytes ≤ d ∧ amount s.uploadBytes ≤ u := by
      intro r hr
      obtain ⟨d, u, hcarries, hd, hu⟩ := hrest r hr
      exact ⟨d, u, hcarries, Nat.le_trans hdownload hd, Nat.le_trans hupload hu⟩
    refine ⟨fun r hr => ?_, List.pairwise_append.2 ⟨?_, hpairwise, fun r hr r' hr' => ?_⟩⟩
    · rcases List.mem_append.1 hr with hr | hr
      · exact ⟨_, _, hfirst r hr, Nat.le_refl _, Nat.le_refl _⟩
      · exact hall r hr
    · exact List.pairwise_of_forall_mem_list fun r hr r' hr' =>
        ⟨_, _, _, _, hfirst r hr, hfirst r' hr', Nat.le_refl _, Nat.le_refl _⟩
    · obtain ⟨d, u, hcarries, hd, hu⟩ := hall r' hr'
      exact ⟨_, _, d, u, hfirst r hr, hcarries, hd, hu⟩

/-- A history has led to a ledger with a row, and the row stays in the ledger through another
    history. Then its counters are the largest of their numbers at the start and those of all
    updates that reached it. Who the client is, what it may use and when it came are as
    before. The duration is that from its creation to the last update with a counter, if
    there was one, and the time of the last update is kept. The reports on the row that
    passes submit in the meantime carry numbers that never decrease. -/
theorem usage_never_lost (w : World) (before events : List Event) (id : UInt64) (s : Session) :
    let start := Event.after { w with ledger := .empty } before
    let ops := Event.allOperations start events
    start.ledger.Holds id s → Stays id start.ledger ops →
      (∃ t, (Event.after start events).ledger.Holds id t ∧
        Updated (updatesOf id start.ledger ops) s t) ∧
      (Event.allReports id start events).Pairwise NoLess := by
  intro start ops hs hstays
  have h : start.ledger.WellFormed := Event.wellFormed_after .empty before
  refine ⟨?_, (Event.noLess_allReports h hs hstays).2⟩
  rw [Event.ledger_after]
  exact h.updated_of_stays hs hstays

/-! ## A sample -/

/-- A row without usage. -/
def sampleRow : Session :=
  .new 4 "sent1qyqszqgpqyqszqgpqyqszqgpqyqszqgpfgh8fn"
    "sentnode142424242424242424242424242424242snv569" "AQEBAQEBAQEBAQEBAQEBAQEBAQEBAQEBAQEBAQEBAQE="
    .wireguard ⟨⟨2024, 2, 1, by decide⟩, ⟨43200, by decide⟩, ⟨500000000, by decide⟩⟩

theorem validate_sampleRow : sampleRow.validate = .ok () := by
  have haccount : Session.FitAddress sampleRow.accountAddress :=
    Session.fitAddress_of_isOk (by decide) (by decide +kernel)
  have hnode : Session.FitAddress sampleRow.nodeAddress :=
    Session.fitAddress_of_isOk (by decide) (by decide +kernel)
  exact Session.validate_eq_ok_iff.2 ⟨by decide, by decide, haccount, hnode, by decide, by decide,
    by decide, by decide, by decide, by decide⟩

/-- Writes are the operations of a history that consists of them. -/
theorem Event.allOperations_map_write (w : World) (ops : List Operation) :
    allOperations w (ops.map .write) = ops := by
  induction ops generalizing w with
  | nil => rfl
  | cons op ops ih => exact congrArg (op :: ·) (ih _)

/-- Surroundings without rows. -/
def sampleStart : World where
  table := .empty .wireguard Peer.Table.unlimited
  ledger := .empty
  wallClock := sampleRow.createdAt

/-- Of two reports on all rows each has the larger number in one direction. -/
def sampleReports : List Operation :=
  [.updateMany .all (.usage 5 7 sampleRow.createdAt),
    .updateMany .all (.usage 3 9 sampleRow.createdAt)]

/-- Both larger numbers are kept. -/
theorem usage_of_sampleRow :
    let start := Event.after sampleStart ([.insert sampleRow].map .write)
    ∃ t, (Event.after start (sampleReports.map .write)).ledger.Holds sampleRow.id t ∧
      t.downloaded = .ok 5 ∧ t.uploaded = .ok 9 := by
  intro start
  have hempty : { sampleStart with ledger := .empty } = sampleStart := rfl
  have hstart : start.ledger = Ledger.empty.perform (.insert sampleRow) := by
    rw [Event.ledger_after, Event.allOperations_map_write, ← hempty, List.foldl_cons,
      List.foldl_nil]
  have h : start.ledger.WellFormed := hstart ▸ Ledger.WellFormed.empty.perform (.insert sampleRow)
  have hs : start.ledger.Holds sampleRow.id sampleRow := by
    rw [hstart]
    exact holds_perform_insert validate_sampleRow
  obtain ⟨hs₁, hreached₁⟩ :=
    reached_by_updateMany_all h hs (u := .usage 5 7 sampleRow.createdAt) rfl
  obtain ⟨hs₂, hreached₂⟩ :=
    reached_by_updateMany_all (h.perform _) hs₁ (u := .usage 3 9 sampleRow.createdAt) rfl
  have hops := Event.allOperations_map_write start sampleReports
  have hstays : Stays sampleRow.id start.ledger sampleReports := ⟨⟨_, hs⟩, ⟨_, hs₁⟩, _, hs₂⟩
  have hupdates : updatesOf sampleRow.id start.ledger sampleReports =
      [.usage 5 7 sampleRow.createdAt, .usage 3 9 sampleRow.createdAt] := by
    unfold sampleReports
    rw [updatesOf, hreached₁, updatesOf, hreached₂]
    rfl
  have hkept := usage_never_lost sampleStart ([.insert sampleRow].map .write)
    (sampleReports.map .write) sampleRow.id sampleRow
  simp only [hempty] at hkept
  rw [hops] at hkept
  obtain ⟨⟨t, ht, hupdated⟩, -⟩ := hkept hs hstays
  rw [hupdates] at hupdated
  obtain ⟨d, hd, hd'⟩ := hupdated.downloaded
  obtain ⟨n, hn, hn'⟩ := hupdated.uploaded
  have hzero : sampleRow.downloaded = .ok 0 ∧ sampleRow.uploaded = .ok 0 := by decide
  rw [hzero.1] at hd
  rw [hzero.2] at hn
  cases hd
  cases hn
  exact ⟨t, ht, hd', hn'⟩

end VpnNode.Job
