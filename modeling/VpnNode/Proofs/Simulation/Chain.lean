import VpnNode.Simulation.Chain

/-!
# Sessions of a chain in memory

A chain in memory keeps every session under its own id, however it was filled.

Main statement:

* `Keyed.putSession`: so does one into which another session is put.
-/

namespace VpnNode.Simulation.Chain

/-- Every session stands under its own id. -/
def Keyed (c : Chain) : Prop :=
  ∀ (id : UInt64) (s : Chain.Session), c.sessions[id]? = some s → s.id = id

theorem keyed_of_sessions_empty {c : Chain} (h : c.sessions = ∅) : c.Keyed := by
  intro id s hs
  rw [h] at hs
  simp at hs

theorem Keyed.putSession {c : Chain} (h : c.Keyed) (s : Chain.Session) :
    (c.putSession s).Keyed := by
  intro id t ht
  simp only [Chain.putSession, Std.ExtTreeMap.getElem?_insert, Std.compare_eq_iff_eq] at ht
  split at ht
  · cases ht
    assumption
  · exact h id t ht

end VpnNode.Simulation.Chain
