import VpnNode.Simulation.World

/-!
# A world among others

The backend and the chain need not be in memory. Either can be replaced by one that answers as
it likes and keeps a state of its own, while everything else stays in the world.

Main statements:

* `Chain.Access.query_eq_ok`: a query that does not fail gives the session.
* `performAmong_of_none`: what nobody else answers is answered in memory.
-/

namespace VpnNode

/-- A backend that answers as it likes and keeps a state. -/
structure Peer.Backend (ν : Type) where
  add : Identity → ν → Except Error (List UInt8) × ν
  has : Identity → ν → Except Error Bool × ν
  remove : Identity → ν → Except Error Unit × ν
  statistics : ν → Except Error (List Statistic) × ν
  count : ν → Except Error Nat × ν

/-- How a backend answers a request, if it is the one who is asked. -/
def Peer.Backend.answer? (b : Backend ν) : (r : Request) → Option (ν → r.Answer × ν)
  | .addPeer i => some (b.add i)
  | .hasPeer i => some (b.has i)
  | .removePeer i => some (b.remove i)
  | .peerStatistics => some b.statistics
  | .peerCount => some b.count
  | _ => none

/-- Access to a chain with certain sessions. Any query may fail; one that does not gives the
    session. Submissions and polls are answered in whatever way. -/
structure Chain.Access (ν : Type) where
  sessions : UInt64 → Option Session
  /-- Why a query fails, if it does. -/
  fault : UInt64 → ν → Option Error × ν
  submit : List Message → ν → Except Error Receipt × ν
  poll : String → ν → Except Error Inclusion × ν

namespace Chain.Access

/-- The answer to a query. -/
def query (c : Access ν) (id : UInt64) (n : ν) : Except Error (Option Session) × ν :=
  match c.fault id n with
  | (some e, n) => (.error e, n)
  | (none, n) => (.ok (c.sessions id), n)

/-- How the chain answers a request, if it is the one who is asked. -/
def answer? (c : Access ν) : (r : Request) → Option (ν → r.Answer × ν)
  | .querySession id => some (c.query id)
  | .submit batch => some (c.submit batch)
  | .pollTransaction hash => some (c.poll hash)
  | _ => none

/-- A query that does not fail gives the session. -/
theorem query_eq_ok {c : Access ν} {id : UInt64} {n : ν} {x : Option Session}
    (h : (c.query id n).1 = .ok x) : x = c.sessions id := by
  unfold query at h
  split at h
  · cases h
  · exact (Except.ok.inj h).symm

end Chain.Access

namespace Simulation.World

/-- Answers a request: by somebody else, who has a state, or in memory. -/
def performAmong (others : (r : Request) → Option (ν → r.Answer × ν)) (r : Request)
    (s : World × ν) : r.Answer × (World × ν) :=
  match others r with
  | some answer => ((answer s.2).1, s.1, (answer s.2).2)
  | none => ((perform r s.1).1, (perform r s.1).2, s.2)

variable {others : (r : Request) → Option (ν → r.Answer × ν)} {r : Request}

/-- What nobody else answers is answered in memory. -/
theorem performAmong_of_none (h : others r = none) (s : World × ν) :
    performAmong others r s = ((perform r s.1).1, (perform r s.1).2, s.2) := by
  unfold performAmong
  rw [h]

end Simulation.World

end VpnNode
