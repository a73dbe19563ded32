import VpnNode.Retry

/-!
# Rehearsing a retry

An operation with prepared outcomes: the n-th attempt has the n-th outcome, the last one
again when they are used up, and each attempt takes some time.
-/

namespace VpnNode.Simulation

/-- What a rehearsal has come to. -/
structure Rehearsal where
  calls : Nat := 0
  elapsed : Nat := 0
  deriving DecidableEq, Repr

namespace Rehearsal

/-- A pause. -/
def sleep (ms : UInt64) : StateM Rehearsal Unit :=
  modify fun r => { r with elapsed := r.elapsed + ms.toNat }

/-- An attempt at the operation. -/
def attempt (outcomes : List α) (fallback : α) (takes : Nat) : StateM Rehearsal α := do
  let r ← get
  set ({ r with calls := r.calls + 1, elapsed := r.elapsed + takes } : Rehearsal)
  return outcomes[r.calls]?.getD (outcomes.getLast?.getD fallback)

/-- Retries the operation; gives its result and the number of calls and milliseconds. -/
def retry (p : RetryPolicy) (outcomes : List (Except ε α)) (fallback : Except ε α)
    (takes : Nat) : Except ε α × Rehearsal :=
  (VpnNode.retry sleep p (attempt outcomes fallback takes)).run {}

end VpnNode.Simulation.Rehearsal
