import VpnNode.Job.Telemetry
import VpnNode.Proofs.Endpoint.Selection
import VpnNode.Proofs.Program.Exchanges
import VpnNode.Simulation.World

/-!
# The endpoint in use

A tick probes the configured endpoints and publishes the best of those that are alive.
While it probes, other tasks go on, so the surroundings may change; only the endpoint in
use is left alone by everything but ticks.

Main statements:

* `run_bestRpcAddressRun`: what a tick gives and publishes, in any surroundings.
* `rpc_of_ticks`: over any run of ticks the endpoint in use is the first one or a
  configured one, whatever the probes answer.
* `best_endpoint_published`: the best endpoint is found and published.
-/

namespace VpnNode.Job

open Endpoint (Behaviour Race)
open Simulation (World)

/-- Surroundings that keep the state of the node. While endpoints are probed anything may
    happen to it, except that the endpoint in use stays. -/
structure KeepsState (answer : (r : Request) → σ → r.Answer × σ) (state : σ → State) :
    Prop where
  rpc_probe (endpoints : List String) (limit : UInt64) (s : σ) :
    (state (answer (.probe endpoints limit) s).2).rpc = (state s).rpc
  answer_readState (s : σ) : (answer .readState s).1 = state s
  state_readState (s : σ) : state (answer .readState s).2 = state s
  state_publishEndpoint (rpc : String) (s : σ) :
    state (answer (.publishEndpoint rpc) s).2 = { state s with rpc }

/-- The surroundings in memory keep the state. -/
theorem keepsState_world : KeepsState World.perform World.state where
  rpc_probe _ _ _ := rfl
  answer_readState _ := rfl
  state_readState _ := rfl
  state_publishEndpoint _ _ := rfl

variable {answer : (r : Request) → σ → r.Answer × σ} {state : σ → State} {s s' : σ}

/-- The state with another endpoint in use, if there is one. -/
def withEndpoint (s : State) : Option String → State
  | none => s
  | some rpc => { s with rpc }

/-- An endpoint is in use after it has been published, also if it was before. -/
theorem run_publish (h : KeepsState answer state) (chosen : Option String) (s : σ) :
    ∃ s', (publish chosen).run answer s = (.value (), s') ∧
      state s' = withEndpoint (state s) chosen := by
  cases chosen with
  | none => exact ⟨s, rfl, rfl⟩
  | some rpc =>
    obtain ⟨s₁, hread⟩ : ∃ s₁, answer .readState s = (state s, s₁) :=
      ⟨_, Prod.ext (h.answer_readState s) rfl⟩
    have hs₁ : state s₁ = state s := by
      have := h.state_readState s
      rwa [hread] at this
    have hrun : (publish (some rpc)).run answer s =
        (if (state s).rpc = rpc then Program.done () else
          .ask (.publishEndpoint rpc) fun _ => .done ()).run answer s₁ :=
      Program.run_ask_of_answer hread
    by_cases heq : (state s).rpc = rpc
    · rw [if_pos heq] at hrun
      refine ⟨s₁, hrun, hs₁.trans ?_⟩
      subst heq
      rfl
    · rw [if_neg heq] at hrun
      refine ⟨_, hrun, ?_⟩
      rw [h.state_publishEndpoint, hs₁]
      rfl

/-- A tick gives the best of what is alive and puts it to use; with nothing alive it
    leaves the state as it is. -/
theorem run_bestRpcAddressRun (h : KeepsState answer state) (config : NodeConfig) (s : σ) :
    let probed := answer (.probe config.rpcAddresses config.probeTimeout) s
    let chosen := Endpoint.best config.rpcAddresses probed.1
    ∃ s', (bestRpcAddressRun config).run answer s = (.value (.ok chosen), s') ∧
      state s' = withEndpoint (state probed.2) chosen := by
  intro probed chosen
  obtain ⟨s', hpublish, hstate⟩ := run_publish h chosen probed.2
  refine ⟨s', ?_, hstate⟩
  calc (bestRpcAddressRun config).run answer s
      = (do publish chosen; return .ok chosen : Program (Except Error (Option String))).run
          answer probed.2 := Program.run_ask_of_answer rfl
    _ = (.value (.ok chosen), s') := Program.run_bind_of_value hpublish

/-- The surroundings after ticks. Between two of them anything may change but the endpoint
    in use. -/
inductive Ticks (answer : (r : Request) → σ → r.Answer × σ) (state : σ → State)
    (config : NodeConfig) (s : σ) : σ → Prop
  | start : Ticks answer state config s s
  | tick {s' : σ} (h : Ticks answer state config s s') :
      Ticks answer state config s ((bestRpcAddressRun config).run answer s').2
  | beside {s' s'' : σ} (h : Ticks answer state config s s')
      (hrpc : (state s'').rpc = (state s').rpc) : Ticks answer state config s s''

/-- A tick leaves the endpoint in use or replaces it by a configured one. -/
theorem rpc_of_tick (h : KeepsState answer state) (config : NodeConfig) (s : σ) :
    let rpc := (state ((bestRpcAddressRun config).run answer s).2).rpc
    rpc = (state s).rpc ∨ rpc ∈ config.rpcAddresses := by
  obtain ⟨s', hrun, hstate⟩ := run_bestRpcAddressRun h config s
  simp only [hrun, hstate]
  cases hbest : Endpoint.best config.rpcAddresses
      (answer (.probe config.rpcAddresses config.probeTimeout) s).1 with
  | none => exact .inl (h.rpc_probe _ _ s)
  | some rpc => exact .inr (Endpoint.mem_of_best hbest)

/-- The endpoint in use is the first one or a configured one. -/
theorem rpc_of_ticks (h : KeepsState answer state) {config : NodeConfig}
    (hticks : Ticks answer state config s s') :
    (state s').rpc = (state s).rpc ∨ (state s').rpc ∈ config.rpcAddresses := by
  induction hticks with
  | start => exact .inl rfl
  | tick _ ih =>
    obtain hsame | hmem := rpc_of_tick h config _
    · rwa [hsame]
    · exact .inr hmem
  | beside _ hrpc ih => rwa [hrpc]

/-- The best endpoint is found and published. Every schedule of probes side by side comes
    to an end, with exactly the probes that succeed in time, in the order of the
    candidates, and in the time of the slowest one. Of any results the first place among
    those of lowest latency is selected, and the endpoint is the candidate at that place.
    A tick puts it to use, so that after any run of ticks the endpoint in use is the first
    one or a configured one. -/
theorem best_endpoint_published :
    (∀ limit bs n r, Race.After limit bs n r →
      n ≤ Endpoint.elapsed limit bs + bs.length ∧
      (¬ r.finished → ∃ r', Race.Step limit r r') ∧
      (r.finished → r.results = Endpoint.live limit bs ∧ r.now = Endpoint.elapsed limit bs)) ∧
    (∀ limit bs,
      (∀ i l, (i, l) ∈ Endpoint.live limit bs ↔ ∃ ms, bs[i]? = some (.succeeds ms) ∧
        ms ≤ limit ∧ l = ms * Endpoint.nanosPerMilli) ∧
      (Endpoint.live limit bs).Pairwise (fun a b => a.1 < b.1) ∧
      (∀ t, Endpoint.elapsed limit bs ≤ t ↔ ∀ b ∈ bs, Behaviour.ends limit b ≤ t)) ∧
    (∀ alive,
      (Endpoint.select alive = none ↔ alive = []) ∧
      (∀ i, Endpoint.select alive = some i ↔
        ∃ l, (i, l) ∈ alive ∧ ∀ e ∈ alive, l < e.2 ∨ l = e.2 ∧ i ≤ e.1)) ∧
    (∀ limit (endpoints : List String) (bs : List Behaviour), bs.length = endpoints.length →
      let alive := Endpoint.live limit bs
      (∀ i, Endpoint.select alive = some i →
        ∃ h : i < endpoints.length, Endpoint.best endpoints alive = some endpoints[i]) ∧
      (Endpoint.best endpoints alive = none ↔ alive = [])) ∧
    (∀ (σ : Type) (answer : (r : Request) → σ → r.Answer × σ) (state : σ → State),
      KeepsState answer state → ∀ (config : NodeConfig) (s : σ),
      (let probed := answer (.probe config.rpcAddresses config.probeTimeout) s
       let chosen := Endpoint.best config.rpcAddresses probed.1
       ∃ s', (bestRpcAddressRun config).run answer s = (.value (.ok chosen), s') ∧
        state s' = withEndpoint (state probed.2) chosen) ∧
      (∀ s', Ticks answer state config s s' →
        (state s').rpc = (state s).rpc ∨ (state s').rpc ∈ config.rpcAddresses)) ∧
    KeepsState World.perform World.state ∧
    (∀ (w : World) (endpoints : List String) (limit : UInt64),
      World.perform (.probe endpoints limit) w =
        (Endpoint.live limit.toNat (endpoints.map w.behaviour),
          { w with time :=
              w.time + Endpoint.elapsed limit.toNat (endpoints.map w.behaviour) })) := by
  refine ⟨fun limit bs n r hr => ?_, fun limit bs => ?_, fun alive => ?_,
    fun limit endpoints bs hlength => Endpoint.best_live hlength,
    fun σ answer state h config s => ?_, keepsState_world, fun w endpoints limit => rfl⟩
  · exact ⟨Race.moves_le hr, Race.goes_on limit, Race.results_of_finished hr⟩
  · exact ⟨fun i l => Endpoint.mem_live_iff, Endpoint.pairwise_liveFrom 0 bs,
      fun t => Endpoint.elapsed_le_iff⟩
  · exact ⟨Endpoint.select_eq_none_iff, fun i => Endpoint.select_eq_some_iff⟩
  · exact ⟨run_bestRpcAddressRun h config s, fun s' => rpc_of_ticks h⟩

end VpnNode.Job
