import VpnNode.Remote.Basic
import VpnNode.Simulation.World

/-!
# Surroundings behind a network

A world whose chain and backend, and whoever knows where the node is, are reached over a
network.

Main statement:

* `performOver_of_call`: a request that leaves the node changes nothing in it.
-/

namespace VpnNode.Simulation.World

/-- Answers a request over a network, which has a state of its own, or in memory. -/
def performOver (config : NodeConfig) (network : Http.Request → ν → Option Http.Response × ν)
    (r : Request) (s : World × ν) : r.Answer × (World × ν) :=
  match Remote.call? config s.1.state.rpc r with
  | some c =>
    let (answer, n) := network c.request s.2
    (c.answer answer, s.1, n)
  | none =>
    let (a, w) := s.1.perform r
    (a, w, s.2)

/-- A request that leaves the node changes nothing in it. -/
theorem performOver_of_call {config : NodeConfig}
    {network : Http.Request → ν → Option Http.Response × ν} {r : Request} {s : World × ν}
    (h : Remote.leavesNode r) : (performOver config network r s).2.1 = s.1 := by
  rw [← Remote.isSome_call? config s.1.state.rpc r] at h
  obtain ⟨c, hc⟩ := Option.isSome_iff_exists.1 h
  simp [performOver, hc]

end VpnNode.Simulation.World
