import Mathlib.Data.List.Forall2
import VpnNode.Proofs.Program.Exchanges
import VpnNode.Simulation.Network

/-!
# What goes over the network

Main statements:

* `run_logging`: a task runs over a network with a log as it does without.
* `traffic_carries`: what a task asks of others is what goes over the network.
-/

namespace VpnNode

/-- A request that was sent, and what came back. -/
structure Http.Transmission where
  request : Http.Request
  answer : Option Http.Response

namespace Simulation.World

variable {config : NodeConfig} {network : Http.Request → ν → Option Http.Response × ν}

/-- The same network, with a log of all that goes over it. -/
def logging (network : Http.Request → ν → Option Http.Response × ν) (q : Http.Request)
    (s : ν × List Http.Transmission) : Option Http.Response × (ν × List Http.Transmission) :=
  ((network q s.1).1, (network q s.1).2, s.2 ++ [⟨q, (network q s.1).1⟩])

/-- What a task that runs alone sends over the network and gets back, in order. -/
def traffic (config : NodeConfig) (network : Http.Request → ν → Option Http.Response × ν)
    (p : Program α) (w : World) (n : ν) : List Http.Transmission :=
  (p.run (performOver config (logging network)) (w, n, [])).2.2.2

variable (config network) in
/-- What is sent for an answer to a request, and what comes back. -/
def sent (r : Request) (w : World) (n : ν) : List Http.Transmission :=
  match Remote.call? config w.state.rpc r with
  | some c => [⟨c.request, (network c.request n).1⟩]
  | none => []

/-- The answer to a request, and what it leaves, with a log and without. -/
theorem performOver_logging (r : Request) (w : World) (n : ν) (log : List Http.Transmission) :
    performOver config (logging network) r (w, n, log) =
      ((performOver config network r (w, n)).1, (performOver config network r (w, n)).2.1,
        (performOver config network r (w, n)).2.2, log ++ sent config network r w n) := by
  unfold performOver sent
  dsimp only
  cases Remote.call? config w.state.rpc r with
  | none =>
    dsimp only
    rw [List.append_nil]
  | some c => rfl

/-- A request that stays with the node. -/
theorem performOver_of_stays {r : Request} (hr : Remote.leavesNode r = false) (w : World) (n : ν) :
    performOver config network r (w, n) = ((perform r w).1, (perform r w).2, n) := by
  rw [← Remote.isSome_call? config w.state.rpc r, Option.isSome_eq_false_iff,
    Option.isNone_iff_eq_none] at hr
  simp only [performOver, hr]

/-- A request that goes over the network and is answered. -/
theorem performOver_logging_of_call {r : Request} {c : Http.Call r.Answer} {w : World} {n n' : ν}
    {a : Http.Response} (hc : Remote.call? config w.state.rpc r = some c)
    (hanswer : network c.request n = (some a, n')) (log : List Http.Transmission) :
    performOver config (logging network) r (w, n, log) =
      (c.read (.ok a), w, n', log ++ [⟨c.request, some a⟩]) := by
  unfold performOver logging
  simp only [hc, hanswer]
  rfl

/-- A task runs over a network with a log as it does without. -/
theorem run_logging (p : Program α) (w : World) (n : ν) (log : List Http.Transmission) :
    p.run (performOver config (logging network)) (w, n, log) =
      ((p.run (performOver config network) (w, n)).1,
        (p.run (performOver config network) (w, n)).2.1,
        (p.run (performOver config network) (w, n)).2.2, log ++ traffic config network p w n) := by
  induction p generalizing w n log with
  | done a => simp [Program.run, traffic]
  | abort message => simp [Program.run, traffic]
  | ask r next ih =>
    simp only [traffic, Program.run, performOver_logging]
    rw [ih, ih, List.nil_append, List.append_assoc]

/-- How a task runs, and what it sends, from a run with a log. -/
theorem run_of_logging {p : Program α} {w w' : World} {n n' : ν} {x : Program.Outcome α}
    {log : List Http.Transmission}
    (h : p.run (performOver config (logging network)) (w, n, []) = (x, w', n', log)) :
    p.run (performOver config network) (w, n) = (x, w', n') ∧
      traffic config network p w n = log := by
  have hlog : p.run (performOver config (logging network)) (w, n, []) = _ := run_logging p w n []
  rw [h] at hlog
  simp only [Prod.mk.injEq] at hlog
  obtain ⟨hx, hw, hn, -⟩ := hlog
  exact ⟨Prod.ext hx.symm (Prod.ext hw.symm hn.symm), by rw [traffic, h]⟩

/-! ## Exchanges and transmissions -/

theorem traffic_ask (r : Request) (next : r.Answer → Program α) (w : World) (n : ν) :
    traffic config network (.ask r next) w n = sent config network r w n ++
      traffic config network (next (performOver config network r (w, n)).1)
        (performOver config network r (w, n)).2.1 (performOver config network r (w, n)).2.2 := by
  simp only [traffic, Program.run, performOver_logging]
  rw [run_logging, List.nil_append]
  rfl

theorem state_updateLedger (w : World) (x : Except ε (α × Ledger)) :
    (w.updateLedger x).2.state = w.state := by
  cases x <;> rfl

/-- Only a request to do so changes which endpoint of the chain is used. -/
theorem rpc_performOver {r : Request} (h : ∀ rpc, r ≠ .publishEndpoint rpc) (w : World) (n : ν) :
    (performOver config network r (w, n)).2.1.state.rpc = w.state.rpc := by
  cases hr : Remote.leavesNode r with
  | true => rw [performOver_of_call hr]
  | false =>
    rw [performOver_of_stays hr]
    cases r with
    | publishEndpoint rpc => exact absurd rfl (h rpc)
    | insertRow _ | updateRow _ _ | deleteRow _ =>
      exact congrArg State.rpc (state_updateLedger _ _)
    | _ => first | rfl | cases hr

/-- What goes over the network for an exchange: the request is sent, and the answer is what
    came back, read as an answer to it. -/
def Carries (config : NodeConfig) (rpc : String) (t : Http.Transmission)
    (e : Program.Exchange) : Prop :=
  ∃ c, Remote.call? config rpc e.request = some c ∧ t.request = c.request ∧
    e.answer = c.answer t.answer

/-- A task that does not change the endpoint sends over the network what it asks of others,
    in order and nothing else. -/
theorem traffic_carries (p : Program α) (w : World) (n : ν)
    (h : ∀ e ∈ p.exchanges (performOver config network) (w, n), ∀ rpc,
      e.request ≠ .publishEndpoint rpc) :
    List.Forall₂ (Carries config w.state.rpc) (traffic config network p w n)
      ((p.exchanges (performOver config network) (w, n)).filter fun e =>
        Remote.leavesNode e.request) := by
  induction p generalizing w n with
  | done a => exact .nil
  | abort message => exact .nil
  | ask r next ih =>
    simp only [Program.exchanges, List.forall_mem_cons] at h
    have hrest := ih _ _ _ h.2
    rw [rpc_performOver h.1] at hrest
    rw [traffic_ask]
    simp only [Program.exchanges]
    cases hc : Remote.call? config w.state.rpc r with
    | none =>
      have hr : Remote.leavesNode r = false := by
        rw [← Remote.isSome_call? config w.state.rpc r, hc]
        rfl
      rw [List.filter_cons_of_neg (by exact ne_true_of_eq_false hr), sent, hc]
      exact hrest
    | some c =>
      have hr : Remote.leavesNode r = true := by
        rw [← Remote.isSome_call? config w.state.rpc r, hc]
        rfl
      rw [List.filter_cons_of_pos (by exact hr), sent, hc]
      refine .cons ⟨c, hc, rfl, ?_⟩ hrest
      simp only [performOver, hc]

/-- What goes over the network for one request that is put several times. -/
theorem of_carries_map {r : Request} {c : Http.Call r.Answer} {rpc : String}
    (hc : Remote.call? config rpc r = some c) {ts : List Http.Transmission}
    {outcomes : List r.Answer}
    (h : List.Forall₂ (Carries config rpc) ts (outcomes.map (⟨r, ·⟩))) :
    ∃ answers : List (Option Http.Response),
      ts = answers.map (⟨c.request, ·⟩) ∧ outcomes = answers.map c.answer := by
  induction outcomes generalizing ts with
  | nil =>
    cases h
    exact ⟨[], rfl, rfl⟩
  | cons outcome outcomes ih =>
    cases h with
    | @cons t _ ts _ ht hts =>
      obtain ⟨c', hc', hrequest, hanswer⟩ := ht
      obtain rfl : c = c' := Option.some.inj (hc.symm.trans hc')
      obtain ⟨answers, rfl, rfl⟩ := ih hts
      obtain ⟨request, answer⟩ := t
      obtain rfl : request = c.request := hrequest
      obtain rfl : outcome = c.answer answer := hanswer
      exact ⟨answer :: answers, rfl, rfl⟩

/-! ## Attempts -/

/-- Of attempts at a call, the calls leave the node and the pauses do not. -/
theorem filter_attemptExchanges {r : Request} (hr : Remote.leavesNode r = true) (pause : UInt64)
    (failed : List r.Answer) (last : r.Answer) :
    (attemptExchanges pause r failed last).filter (fun e => Remote.leavesNode e.request) =
      (failed ++ [last]).map (⟨r, ·⟩) := by
  have hfailed : List.filter (fun e : Program.Exchange => Remote.leavesNode e.request)
      (failed.flatMap fun a => [⟨r, a⟩, ⟨.sleep pause, ()⟩]) = failed.map (⟨r, ·⟩) := by
    induction failed with
    | nil => rfl
    | cons a failed ih =>
      rw [List.flatMap_cons, List.filter_append, ih, List.filter_cons_of_pos (by exact hr)]
      rfl
  rw [attemptExchanges, List.filter_append, hfailed, List.map_append,
    List.filter_cons_of_pos (by exact hr)]
  rfl

/-- A request that is retried over a network: the same request is sent each time, and what comes
    back decides whether it is sent again. -/
theorem retry_traffic {r : Request} {c : Http.Call r.Answer} {w : World}
    (hc : Remote.call? config w.state.rpc r = some c) (p : RetryPolicy)
    (read : r.Answer → Except ε α) (n : ν) :
    ∃ failed last s,
      (retry pauseFor p (attemptAt r read)).run (performOver config network) (w, n) =
        (.value (read (c.answer last)), s) ∧
      traffic config network (retry pauseFor p (attemptAt r read)) w n =
        (failed ++ [last]).map (⟨c.request, ·⟩) ∧
      Attempted p.attempts (fun a => ∃ e, read (c.answer a) = .error e) failed last := by
  have hr : Remote.leavesNode r = true := by
    rw [← Remote.isSome_call? config w.state.rpc r, hc]
    rfl
  obtain ⟨failed, last, s, hrun, hexchanges, hattempted⟩ :=
    retry_request (performOver config network) p r read (w, n)
  have hstays : ∀ e ∈ (retry pauseFor p (attemptAt r read)).exchanges
      (performOver config network) (w, n), ∀ rpc, e.request ≠ .publishEndpoint rpc := by
    rw [hexchanges]
    intro e he rpc hpublish
    simp only [attemptExchanges, List.mem_append, List.mem_flatMap, List.mem_cons,
      List.not_mem_nil, or_false] at he
    rcases he with ⟨a, -, rfl | rfl⟩ | rfl
    · rw [show r = _ from hpublish] at hr
      cases hr
    · cases hpublish
    · rw [show r = _ from hpublish] at hr
      cases hr
  have hcarries := traffic_carries _ w n hstays
  rw [hexchanges, filter_attemptExchanges hr] at hcarries
  obtain ⟨answers, htraffic, houtcomes⟩ := of_carries_map hc hcarries
  obtain ⟨refused, rest, rfl, rfl, hrest⟩ := List.append_eq_map_iff.1 houtcomes
  obtain ⟨last, rfl, rfl⟩ := List.map_eq_singleton_iff.1 hrest
  exact ⟨refused, last, s, hrun, htraffic, hattempted.of_map⟩

end Simulation.World

end VpnNode
