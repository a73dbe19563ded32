import Mathlib.Data.List.Forall2
import VpnNode.Proofs.Job.Metering
import VpnNode.Proofs.Ledger.WellFormed
import VpnNode.Proofs.Simulation.Others

/-!
# Quotas are enforced row by row

A pass that enforces quotas tries to disconnect the peer of every row over quota. There are
three points at which it can fail for a row: the kind of service rejects the key, the backend
does not say whether it has the peer, or it does not remove it. Whatever happens there, the pass
goes on with the next row, and in the end it says how many rows have failed.

Main statements:

* `exists_removal`: what the attempt to disconnect one peer comes to.
* `run_enforce`: what enforcing quotas over rows comes to.
* `usageValidation_exact`: what a pass asks, of whom, and what it gives.
-/

namespace VpnNode.Job

open Program (Exchange)
open Simulation (World)
open Simulation.World (removeIfPresent_eq removeIfPresent_of_error performAmong
  performAmong_of_none)

/-! ## One peer -/

/-- What the attempt to disconnect a peer asks and is told, and its result. -/
structure Removal where
  exchanges : List Exchange
  result : Except Peer.Error Unit

namespace Removal

def hasFailed (m : Removal) : Bool := !m.result.isOk

theorem countP_hasFailed_eq_zero_iff {removals : List Removal} :
    removals.countP hasFailed = 0 ↔ ∀ m ∈ removals, m.result = .ok () := by
  rw [List.countP_eq_zero]
  refine forall₂_congr fun m _ => ?_
  unfold hasFailed
  rcases m.result with e | ⟨⟩ <;> simp [Except.isOk, Except.toBool]

/-- The ways in which the attempt to disconnect the peer with a key may go. The backend is asked
    about peers with known keys only, and told to remove none but those that it has. -/
inductive By (service : Service) (key : String) : Removal → Prop
  | rejected {e : Peer.Error} (h : Peer.Identity.ofKey service key = .error e) :
    By service key ⟨[], .error e⟩
  | unanswered {i : Peer.Identity} (h : Peer.Identity.ofKey service key = .ok i)
    (e : Peer.Error) : By service key ⟨[⟨.hasPeer i, .error e⟩], .error e⟩
  | absent {i : Peer.Identity} (h : Peer.Identity.ofKey service key = .ok i) :
    By service key ⟨[⟨.hasPeer i, .ok false⟩], .ok ()⟩
  | present {i : Peer.Identity} (h : Peer.Identity.ofKey service key = .ok i)
    (x : Except Peer.Error Unit) :
    By service key ⟨[⟨.hasPeer i, .ok true⟩, ⟨.removePeer i, x⟩], x⟩

end Removal

variable {answer : (r : Request) → σ → r.Answer × σ} {f : σ → β}

/-- What the attempt to disconnect a peer comes to, if the calls for it leave something in the
    surroundings alone. -/
theorem exists_removal (hf : ∀ i s, f (answer (.hasPeer i) s).2 = f s ∧
      f (answer (.removePeer i) s).2 = f s) (service : Service) (key : String) (s : σ) :
    ∃ m s', (Peer.removeIfPresent service key).run answer s = (.value m.result, s') ∧
      (Peer.removeIfPresent service key).exchanges answer s = m.exchanges ∧
      Removal.By service key m ∧ f s' = f s := by
  cases hkey : Peer.Identity.ofKey service key with
  | error e =>
    rw [removeIfPresent_of_error hkey]
    exact ⟨_, s, rfl, rfl, .rejected hkey, rfl⟩
  | ok i =>
    obtain ⟨found, s₁, hfound⟩ : ∃ found s₁, answer (.hasPeer i) s = (found, s₁) := ⟨_, _, rfl⟩
    have hs₁ : f s₁ = f s := by
      have h := (hf i s).1
      rwa [hfound] at h
    rw [removeIfPresent_eq hkey]
    simp only [Program.run, Program.exchanges, hfound]
    obtain e | (_ | _) := found
    · exact ⟨_, s₁, rfl, rfl, .unanswered hkey e, hs₁⟩
    · exact ⟨_, s₁, rfl, rfl, .absent hkey, hs₁⟩
    · exact ⟨_, _, rfl, rfl, .present hkey _, ((hf i s₁).2).trans hs₁⟩

/-! ## All rows -/

/-- Enforcing quotas over rows with numerals comes to one attempt for each row over quota, in
    order and independent of how the others went. -/
theorem run_enforce (service : Service) (hf : ∀ i s, f (answer (.hasPeer i) s).2 = f s ∧
      f (answer (.removePeer i) s).2 = f s) {rows : List Session}
    (hrows : ∀ row ∈ rows, row.Counted) (s : σ) :
    ∃ removals s', (enforce service rows).run answer s =
        (.value (removals.length, removals.countP Removal.hasFailed), s') ∧
      (enforce service rows).exchanges answer s = removals.flatMap Removal.exchanges ∧
      List.Forall₂ (fun row => Removal.By service row.peerKey)
        (rows.filter fun row => decide row.OverQuota) removals ∧ f s' = f s := by
  induction rows generalizing s with
  | nil => exact ⟨[], s, rfl, rfl, .nil, rfl⟩
  | cons row rows ih =>
    rw [List.forall_mem_cons] at hrows
    obtain ⟨hcounted, hrows⟩ := hrows
    have hcheck : enforce service (row :: rows) =
        afterCheck service row rows (decide row.OverQuota) := by
      rw [enforce_cons, Session.isOverQuota_eq hcounted]
      rfl
    rw [hcheck]
    by_cases hover : row.OverQuota
    · -- the rows behind this one are enforced wherever the attempt has led
      obtain ⟨m, s₁, hrun, hexchanges, hm, hs₁⟩ := exists_removal hf service row.peerKey s
      obtain ⟨removals, s', hrest, hasked, hremovals, hs'⟩ := ih hrows s₁
      obtain ⟨hafter, hafter'⟩ := Program.bind_of_run (f := afterDismissal service rows) hrun
      obtain ⟨hlast, hlast'⟩ := Program.bind_of_run (f := fun r : Nat × Nat =>
        .done (r.1 + 1, if m.result.isOk then r.2 else r.2 + 1)) hrest
      rw [decide_eq_true hover, List.filter_cons_of_pos (by simpa using hover)]
      refine ⟨m :: removals, s', hafter.trans (hlast.trans ?_), ?_, .cons hm hremovals,
        hs'.trans hs₁⟩
      · rw [List.length_cons, List.countP_cons, Removal.hasFailed]
        cases m.result.isOk <;> rfl
      · rw [List.flatMap_cons, ← hexchanges, ← hasked]
        exact hafter'.trans (congrArg _ (hlast'.trans (List.append_nil _)))
    · rw [decide_eq_false hover, List.filter_cons_of_neg (by simpa using hover)]
      exact ih hrows s

/-! ## A pass -/

/-- What is left of a pass that enforces quotas once the rows were read. -/
def afterLookup (service : Service) (rows : List Session) : Program (Except Error Nat) :=
  (enforce service rows).bind fun r =>
    .done (if r.2 = 0 then .ok r.1 else .error (.teardown r.2 r.1))

theorem usageValidationRun_eq (config : NodeConfig) :
    usageValidationRun config = .ask (.findRows .all) fun
      | .error e => .done (.error (.ledger e))
      | .ok rows => afterLookup config.service rows :=
  congrArg (Program.ask (.findRows .all)) (funext fun found => by cases found <;> rfl)

/-- The calls to remove a peer change nothing in the world if the backend is somebody else. -/
theorem removal_among (backend : Peer.Backend ν) (i : Peer.Identity) (s : World × ν) :
    (performAmong backend.answer? (.hasPeer i) s).2.1 = s.1 ∧
      (performAmong backend.answer? (.removePeer i) s).2.1 = s.1 :=
  ⟨rfl, rfl⟩

/-- A pass that enforces quotas, on a ledger to which any operations have led, with a backend
    that answers as it likes. It reads the rows, and then makes one attempt to disconnect a peer
    for each row over quota, by ascending id, whatever came of those before. It asks nothing
    else, and the world is as before. If every attempt has succeeded it gives the number of rows
    over quota; otherwise its error names the number of attempts that have failed and that of
    the rows over quota. -/
theorem usageValidation_exact (backend : Peer.Backend ν) (n : ν) (ops : List Ledger.Operation)
    (w : World) (config : NodeConfig) :
    let before := { w with ledger := .after ops }
    let exhausted := before.ledger.sessions.filter fun s => decide s.OverQuota
    let pass := usageValidationRun config
    (∀ s, s ∈ exhausted ↔ before.ledger.Holds s.id s ∧ s.isOverQuota = .ok true) ∧
      (exhausted.map (·.id)).Pairwise (· < ·) ∧
      ∃ removals n',
        List.Forall₂ (fun s => Removal.By config.service s.peerKey) exhausted removals ∧
        pass.exchanges (performAmong backend.answer?) (before, n) =
          ⟨.findRows .all, .ok before.ledger.sessions⟩ :: removals.flatMap Removal.exchanges ∧
        pass.run (performAmong backend.answer?) (before, n) =
          (.value (if ∀ m ∈ removals, m.result = .ok () then .ok exhausted.length
            else .error (.teardown (removals.countP Removal.hasFailed) exhausted.length)),
            before, n') := by
  intro before exhausted pass
  have h : before.ledger.WellFormed := .after ops
  have hcounted : ∀ s ∈ before.ledger.sessions, s.Counted := fun s hs =>
    h.counted s.id s (h.indexed.mem_sessions.1 hs)
  have hlookup : performAmong backend.answer? (.findRows .all) (before, n) =
      (.ok before.ledger.sessions, before, n) := by
    rw [performAmong_of_none rfl, World.perform_findRows_all h.indexed]
  obtain ⟨removals, ⟨after, n'⟩, hrun, hexchanges, hremovals, hsame⟩ :=
    run_enforce config.service (removal_among backend) hcounted (before, n)
  obtain rfl : after = before := hsame
  obtain ⟨hend, hend'⟩ := Program.bind_of_run (f := fun r : Nat × Nat => Program.done
    (if r.2 = 0 then Except.ok r.1 else .error (Error.teardown r.2 r.1))) hrun
  have hlength : removals.length = exhausted.length := hremovals.length_eq.symm
  refine ⟨fun s => ?_, ?_, removals, n', hremovals, ?_, ?_⟩
  · rw [List.mem_filter, h.indexed.mem_sessions]
    refine and_congr_right fun hs => ?_
    rw [Session.isOverQuota_eq (h.counted _ s hs), Except.ok.injEq]
  · exact h.indexed.sessions_ascending.sublist (List.filter_sublist.map _)
  · show Program.exchanges _ (usageValidationRun config) _ = _
    rw [usageValidationRun_eq, Program.exchanges, hlookup, ← hexchanges]
    exact congrArg (List.cons _) (hend'.trans (List.append_nil _))
  · show Program.run _ (usageValidationRun config) _ = _
    rw [usageValidationRun_eq, Program.run_ask_of_answer hlookup]
    refine hend.trans ?_
    rw [hlength]
    simp only [Program.run, Removal.countP_hasFailed_eq_zero_iff]

end VpnNode.Job
