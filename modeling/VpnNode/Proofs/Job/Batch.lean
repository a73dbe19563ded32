import Mathlib.Data.List.Forall2
import VpnNode.Proofs.Chain.Conversation
import VpnNode.Proofs.Job.Safety
import VpnNode.Proofs.Simulation.Others
import VpnNode.Proofs.Simulation.Run

/-!
# Usage is reported in one batch or not at all

A pass that reports usage first asks the chain about every row, and then submits the reports of
those rows whose sessions the chain knows, in one transaction. If a query fails for good nothing
is submitted.

Main statements:

* `run_reports`: what the queries for rows come to.
* `run_afterRows`: what a pass over rows comes to.
* `usageToChain_exact`: the calls that a pass makes, and what it gives.
-/

namespace VpnNode.Job

open Chain (Call Queried Broadcasts calls)
open Program (Safe Quiet)
open Session (Counted amount)
open Simulation (World)
open Simulation.World (performAmong performAmong_of_none)

/-- The report of the usage of a row. -/
def reportOf (s : Session) : Chain.Message :=
  .updateSession {
    nodeAddress := s.nodeAddress
    sessionId := s.id
    downloadBytes := Decimal.render (amount s.downloadBytes)
    uploadBytes := Decimal.render (amount s.uploadBytes)
    duration := s.duration
    signature := s.signature }

/-- The reports of the rows whose sessions the chain knows. -/
def batchOf (known : UInt64 → Option Chain.Session) (rows : List Session) : List Chain.Message :=
  (rows.filter fun s => (known s.id).isSome).map reportOf

variable {answer : (r : Request) → σ → r.Answer × σ} {known : UInt64 → Option Chain.Session}

/-! ## Queries -/

/-- The queries for rows, up to the first that fails for good, and what they give. -/
inductive Surveyed (known : UInt64 → Option Chain.Session) (allowed : Nat) (rows : List Session) :
    List Call → Except Chain.Error (List Chain.Message) → Prop
  /-- The queries for all rows were answered. -/
  | all {made : List (List Call)}
    (h : List.Forall₂ (fun s q => Queried known allowed s.id q (.ok (known s.id))) rows made) :
    Surveyed known allowed rows made.flatten (.ok (batchOf known rows))
  /-- The queries for some rows were answered; that for the next one has failed for good. -/
  | upTo {asked rest : List Session} {s : Session} {made : List (List Call)} {last : List Call}
    {e : Chain.Error} (hrows : rows = asked ++ s :: rest)
    (h : List.Forall₂ (fun s q => Queried known allowed s.id q (.ok (known s.id))) asked made)
    (hlast : Queried known allowed s.id last (.error e)) :
    Surveyed known allowed rows (made.flatten ++ last) (.error e)

theorem Surveyed.eq_batchOf {allowed : Nat} {rows : List Session} {made : List Call}
    {batch : List Chain.Message} (h : Surveyed known allowed rows made (.ok batch)) :
    batch = batchOf known rows := by
  cases h
  rfl

/-- One row more, whose query was answered. -/
theorem Surveyed.cons {allowed : Nat} {s : Session} {rows : List Session} {first rest : List Call}
    {x : Except Chain.Error (List Chain.Message)}
    (hfirst : Queried known allowed s.id first (.ok (known s.id)))
    (hrest : Surveyed known allowed rows rest x) :
    Surveyed known allowed (s :: rows) (first ++ rest)
      (x.map fun batch => if (known s.id).isSome then reportOf s :: batch else batch) := by
  cases hrest with
  | @all made h =>
    have hbatch : (if (known s.id).isSome then reportOf s :: batchOf known rows
        else batchOf known rows) = batchOf known (s :: rows) := by
      unfold batchOf
      cases hs : (known s.id).isSome <;> simp [hs]
    rw [Except.map, hbatch]
    exact .all (.cons hfirst h)
  | @upTo asked rest t made last e hrows h hlast =>
    subst hrows
    rw [← List.append_assoc]
    exact .upTo (List.cons_append (a := s)).symm (.cons hfirst h) hlast

/-- What is left of the reports on rows once the query for the first was answered. -/
def reportsAfterQuery (p : Chain.Policies) (s : Session) (rows : List Session) :
    Except Chain.Error (Option Chain.Session) → Program (Except Error (List Chain.Message))
  | .error e => .done (.error (.chain e))
  | .ok none => reports p rows
  | .ok (some _) => (Program.ofCorruption s.usageReport).bind fun report =>
    (reports p rows).bind fun rest => .done (rest.map fun batch => report :: batch)

theorem reports_cons (p : Chain.Policies) (s : Session) (rows : List Session) :
    reports p (s :: rows) = (Chain.querySession p s.id).bind (reportsAfterQuery p s rows) :=
  congrArg (Program.bind _) (funext fun answered => by
    obtain e | (_ | _) := answered <;> rfl)

/-- The rows after one whose query was answered. -/
theorem reportsAfterQuery_of_known {p : Chain.Policies} {s : Session} (hs : Counted s)
    (rows : List Session) (x : Option Chain.Session) :
    reportsAfterQuery p s rows (.ok x) = if x.isSome then
      (reports p rows).bind fun rest => .done (rest.map fun batch => reportOf s :: batch)
    else reports p rows := by
  cases x with
  | none => rfl
  | some remote =>
    rw [reportsAfterQuery, Session.usageReport_eq hs]
    rfl

/-- The queries for rows with numerals. -/
theorem run_reports
    (hknown : ∀ id s x, (answer (.querySession id) s).1 = .ok x → x = known id)
    (p : Chain.Policies) {rows : List Session} (hrows : ∀ row ∈ rows, Counted row) (s : σ) :
    ∃ x s', (reports p rows).run answer s = (.value (x.mapError Error.chain), s') ∧
      Surveyed known p.query.attempts rows (calls ((reports p rows).exchanges answer s)) x := by
  induction rows generalizing s with
  | nil => exact ⟨.ok [], s, rfl, .all .nil⟩
  | cons row rows ih =>
    rw [List.forall_mem_cons] at hrows
    obtain ⟨hcounted, hrows⟩ := hrows
    obtain ⟨answered, s₁, hquery, hqueried⟩ := Chain.run_querySession hknown p row.id s
    obtain ⟨hafter, hafter'⟩ := Program.bind_of_run (f := reportsAfterQuery p row rows) hquery
    rw [reports_cons, hafter, hafter', Chain.calls_append]
    cases answered with
    | error e =>
      -- a query that fails for good ends the survey
      refine ⟨.error e, s₁, rfl, ?_⟩
      have h : Surveyed known p.query.attempts (row :: rows) _ (.error e) :=
        .upTo (List.nil_append (row :: rows)).symm .nil hqueried
      rwa [List.flatten_nil, List.nil_append, ← List.append_nil (calls _)] at h
    | ok x =>
      obtain rfl := hqueried.eq_known
      obtain ⟨y, s', hrun, hsurveyed⟩ := ih hrows s₁
      have hall := hsurveyed.cons hqueried
      rw [reportsAfterQuery_of_known hcounted]
      cases hsome : (known row.id).isSome with
      | false =>
        simp only [hsome, Bool.false_eq_true, if_false] at hall ⊢
        have hsame : (y.map fun batch => batch) = y := by cases y <;> rfl
        rw [hsame] at hall
        exact ⟨y, s', hrun, hall⟩
      | true =>
        obtain ⟨hrest, hrest'⟩ := Program.bind_of_run (f := fun rest : Except Error _ =>
          .done (rest.map fun batch => reportOf row :: batch)) hrun
        simp only [hsome, if_true] at hall ⊢
        rw [hrest, hrest', Chain.calls_append]
        refine ⟨y.map fun batch => reportOf row :: batch, s', ?_, ?_⟩
        · cases y <;> rfl
        · rwa [← List.append_nil (calls (Program.exchanges _ (reports p rows) _))] at hall

/-! ## A pass -/

/-- How a pass that reports usage may go: the calls that it makes, and what it gives. -/
inductive Reported (known : UInt64 → Option Chain.Session) (p : Chain.Policies)
    (rows : List Session) : List Call → Except Error Nat → Prop
  /-- A query has failed for good. -/
  | unanswered {made : List Call} {e : Chain.Error}
    (h : Surveyed known p.query.attempts rows made (.error e)) :
    Reported known p rows made (.error (.chain e))
  /-- The chain knows none of the sessions. -/
  | nothing {made : List Call} (hbatch : batchOf known rows = [])
    (h : Surveyed known p.query.attempts rows made (.ok (batchOf known rows))) :
    Reported known p rows made (.ok 0)
  /-- The reports were submitted. -/
  | submitted {made sent : List Call} {x : Except Chain.Error Chain.Inclusion}
    (hbatch : batchOf known rows ≠ [])
    (h : Surveyed known p.query.attempts rows made (.ok (batchOf known rows)))
    (hsent : Broadcasts p (batchOf known rows) sent x) :
    Reported known p rows (made ++ sent)
      ((x.mapError Error.chain).map fun _ => (batchOf known rows).length)

/-- What is left of a pass that reports usage once the chain was asked about the rows. -/
def afterReports (p : Chain.Policies) :
    Except Error (List Chain.Message) → Program (Except Error Nat)
  | .error e => .done (.error e)
  | .ok [] => .done (.ok 0)
  | .ok batch => (Chain.broadcast p batch).bind fun sent =>
    .done ((sent.mapError Error.chain).map fun _ => batch.length)

theorem afterReports_of_ne_nil {p : Chain.Policies} {batch : List Chain.Message}
    (h : batch ≠ []) :
    afterReports p (.ok batch) = (Chain.broadcast p batch).bind fun sent =>
      .done ((sent.mapError Error.chain).map fun _ => batch.length) := by
  cases batch with
  | nil => exact absurd rfl h
  | cons report batch => rfl

/-- What is left of a pass that reports usage once the rows were read. -/
def afterRows (p : Chain.Policies) (rows : List Session) : Program (Except Error Nat) :=
  (reports p rows).bind (afterReports p)

theorem usageToChainRun_eq (config : NodeConfig) :
    usageToChainRun config = .ask (.findRows .all) fun
      | .error e => .done (.error (.ledger e))
      | .ok rows => afterRows config.policies rows := by
  refine congrArg (Program.ask (.findRows .all)) (funext fun found => ?_)
  cases found with
  | error e => rfl
  | ok rows =>
    refine congrArg (Program.bind (reports config.policies rows)) (funext fun batch => ?_)
    obtain e | (_ | ⟨report, batch⟩) := batch
    · rfl
    · rfl
    · exact congrArg (Program.bind _) (funext fun sent => by cases sent <;> rfl)

/-- A pass over rows with numerals. -/
theorem run_afterRows
    (hknown : ∀ id s x, (answer (.querySession id) s).1 = .ok x → x = known id)
    (p : Chain.Policies) {rows : List Session} (hrows : ∀ row ∈ rows, Counted row) (s : σ) :
    ∃ x s', (afterRows p rows).run answer s = (.value x, s') ∧
      Reported known p rows (calls ((afterRows p rows).exchanges answer s)) x := by
  obtain ⟨x, s₁, hrun, hsurveyed⟩ := run_reports hknown p hrows s
  obtain ⟨hafter, hafter'⟩ := Program.bind_of_run (f := afterReports p) hrun
  unfold afterRows
  rw [hafter, hafter', Chain.calls_append]
  cases x with
  | error e =>
    refine ⟨.error (.chain e), s₁, rfl, ?_⟩
    have h := Reported.unanswered hsurveyed
    rwa [← List.append_nil (calls _)] at h
  | ok batch =>
    obtain rfl := hsurveyed.eq_batchOf
    by_cases hbatch : batchOf known rows = []
    · have h := Reported.nothing hbatch hsurveyed
      rw [hbatch]
      refine ⟨.ok 0, s₁, rfl, ?_⟩
      rwa [← List.append_nil (calls _)] at h
    · obtain ⟨sent, s₂, hbroadcast, hsent⟩ := Chain.run_broadcast p hbatch s₁
      obtain ⟨hend, hend'⟩ := Program.bind_of_run (f := fun sent : Except Chain.Error _ =>
        .done ((sent.mapError Error.chain).map fun _ => (batchOf known rows).length)) hbroadcast
      have hlast : calls ((afterReports p (.ok (batchOf known rows))).exchanges answer s₁) =
          calls ((Chain.broadcast p (batchOf known rows)).exchanges answer s₁) := by
        rw [afterReports_of_ne_nil hbatch]
        exact congrArg calls (hend'.trans (List.append_nil _))
      have h := Reported.submitted hbatch hsurveyed hsent
      rw [← hlast] at h
      refine ⟨_, s₂, ?_, h⟩
      show (afterReports p (.ok (batchOf known rows))).run answer s₁ = _
      rw [afterReports_of_ne_nil hbatch, hend]
      rfl

/-! ## What a pass leaves alone -/

/-- What a pass that reports usage may ask for. -/
def Consults : Request → Prop
  | .findRows _ | .submit _ => True
  | r => Quiet r

theorem Consults.of_quiet (r : Request) (h : Quiet r) : Consults r := by
  cases r <;> trivial

/-- What a pass that reports usage asks for changes nothing in the world but the clock. -/
theorem consult_among (access : Chain.Access ν) {before : World} (h : before.ledger.WellFormed)
    (r : Request) (s : World × ν) (hr : Consults r)
    (hs : s.1 = { before with time := s.1.time }) :
    Fair (fun s => before.ledger.Holds s.id s) r (performAmong access.answer? r s).1 ∧
      (performAmong access.answer? r s).2.1 =
        { before with time := (performAmong access.answer? r s).2.1.time } := by
  obtain ⟨w, n⟩ := s
  dsimp only at hs
  cases r with
  | querySession id | submit batch | pollTransaction hash => exact ⟨trivial, hs⟩
  | sleep ms | lockAccount | unlockAccount =>
    rw [performAmong_of_none rfl, hs]
    exact ⟨trivial, rfl⟩
  | findRows f =>
    rw [performAmong_of_none rfl, hs]
    exact ⟨fair_perform (w := { before with time := w.time }) h (.findRows f), rfl⟩
  | _ => exact False.elim hr

/-- A pass that reports usage, on a ledger to which any operations have led, with a chain that
    has certain sessions and otherwise answers as it likes. It goes over the rows by ascending
    id. If the query for a row fails for good, it gives the error of that query and submits
    nothing; if the chain knows none of the sessions, it gives 0 and submits nothing. Otherwise
    what it submits, in all attempts, is the batch of the reports of exactly those rows whose
    sessions the chain knows, and it gives their number if the broadcast succeeds, and the error
    of the broadcast if not. Nothing in the world changes but the clock. -/
theorem usageToChain_exact (access : Chain.Access ν) (n : ν) (ops : List Ledger.Operation)
    (w : World) (config : NodeConfig) :
    let before := { w with ledger := .after ops }
    let rows := before.ledger.sessions
    let pass := usageToChainRun config
    (∀ s, s ∈ rows ↔ before.ledger.Holds s.id s) ∧ (rows.map (·.id)).Pairwise (· < ·) ∧
      (∀ s ∈ rows, s.usageReport = .ok (reportOf s)) ∧
      ∃ x after n', pass.run (performAmong access.answer?) (before, n) = (.value x, after, n') ∧
        Reported access.sessions config.policies rows
          (calls (pass.exchanges (performAmong access.answer?) (before, n))) x ∧
        after = { before with time := after.time } := by
  intro before rows pass
  have h : before.ledger.WellFormed := .after ops
  have hcounted : ∀ s ∈ rows, Counted s := fun s hs =>
    h.counted s.id s (h.indexed.mem_sessions.1 hs)
  refine ⟨fun s => h.indexed.mem_sessions, h.indexed.sessions_ascending,
    fun s hs => Session.usageReport_eq (hcounted s hs), ?_⟩
  have hlookup : performAmong access.answer? (.findRows .all) (before, n) =
      (.ok rows, before, n) := by
    rw [performAmong_of_none rfl, World.perform_findRows_all h.indexed]
  have hsafe : Safe (Fair fun s => before.ledger.Holds s.id s) Consults pass fun _ => True :=
    safe_usageToChainRun (fun s hs => h.counted s.id s hs) Consults.of_quiet trivial
      (fun _ _ => trivial) config
  obtain ⟨x, ⟨after, n'⟩, hrun, -, hafter, -⟩ :=
    hsafe.run (fun r s hr hs => consult_among access h r s hr hs) (s := (before, n)) rfl
  have hknown : ∀ id s x, (performAmong access.answer? (.querySession id) s).1 = .ok x →
      x = access.sessions id := fun id s x hx => Chain.Access.query_eq_ok hx
  obtain ⟨y, s', hpass, hreported⟩ :=
    run_afterRows hknown config.policies hcounted (before, n)
  refine ⟨x, after, n', hrun, ?_, hafter⟩
  have hpass' : pass.run (performAmong access.answer?) (before, n) = (.value y, s') := by
    show Program.run _ (usageToChainRun config) _ = _
    rw [usageToChainRun_eq, Program.run_ask_of_answer hlookup]
    exact hpass
  obtain rfl : x = y := by
    have hsame := congrArg Prod.fst (hrun.symm.trans hpass')
    exact Program.Outcome.value.inj hsame
  show Reported _ _ _ (calls (Program.exchanges _ (usageToChainRun config) _)) x
  rw [usageToChainRun_eq, Program.exchanges, hlookup]
  exact hreported

end VpnNode.Job
