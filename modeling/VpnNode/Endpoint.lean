/-!
# Endpoints of the chain

Several endpoints are probed at the same time. Those that answer in time are ranked by
their latency; of two with the same latency the one listed first is better. Probing
takes as long as the slowest probe, but never longer than the time limit.

Main statement:

* `select_eq_none_iff`: something is selected unless nothing answered.
-/

namespace VpnNode.Endpoint

/-- How a probe behaves when it is left alone. -/
inductive Behaviour where
  /-- It succeeds after this many milliseconds. -/
  | succeeds (ms : Nat)
  /-- It fails after this many milliseconds. -/
  | fails (ms : Nat)
  /-- It never ends. -/
  | hangs
  deriving DecidableEq, Repr

/-- The latency of a probe that succeeds within the time limit. -/
def Behaviour.latency? (limit : Nat) : Behaviour → Option Nat
  | .succeeds ms => if ms ≤ limit then some ms else none
  | _ => none

/-- When a probe ends, or is given up. -/
def Behaviour.ends (limit : Nat) : Behaviour → Nat
  | .succeeds ms | .fails ms => min ms limit
  | .hangs => limit

/-- Nanoseconds in a millisecond. -/
def nanosPerMilli : Nat := 1000000

/-- The probes that succeed in time, by place from `i` on, with their latencies in
    nanoseconds. -/
def liveFrom (limit : Nat) (i : Nat) : List Behaviour → List (Nat × Nat)
  | [] => []
  | b :: bs =>
    match b.latency? limit with
    | some ms => (i, ms * nanosPerMilli) :: liveFrom limit (i + 1) bs
    | none => liveFrom limit (i + 1) bs

/-- The probes that succeed in time. -/
def live (limit : Nat) (bs : List Behaviour) : List (Nat × Nat) := liveFrom limit 0 bs

/-- How long it takes to probe all endpoints at the same time. -/
def elapsed (limit : Nat) (bs : List Behaviour) : Nat :=
  bs.foldl (fun t b => max t (b.ends limit)) 0

/-- Is the first result better? -/
def better (a b : Nat × Nat) : Bool := a.2 < b.2 || (a.2 == b.2 && a.1 ≤ b.1)

/-- The place with the lowest latency, and of those the first. -/
def select : List (Nat × Nat) → Option Nat
  | [] => none
  | a :: r => some (r.foldl (fun a b => if better a b then a else b) a).1

/-- The endpoint to use. -/
def best (endpoints : List String) (alive : List (Nat × Nat)) : Option String := do
  endpoints[← select alive]?

/-- Something is selected unless nothing answered. -/
theorem select_eq_none_iff {alive : List (Nat × Nat)} : select alive = none ↔ alive = [] := by
  cases alive <;> simp [select]

end VpnNode.Endpoint
