import Std.Data.ExtTreeMap
import VpnNode.Chain.Basic
import VpnNode.Chain.Error
import VpnNode.Text.Hex

/-!
# A chain in memory

A chain for rehearsals. It knows the sessions that are put into it, answers submissions
with prepared outcomes as long as there are any and then accepts them under a fresh
hash, and confirms every transaction unless another result is prepared.
-/

namespace VpnNode.Simulation

/-- A chain in memory. -/
structure Chain where
  sessions : Std.ExtTreeMap UInt64 Chain.Session := ∅
  /-- What the next submissions are answered with. -/
  outcomes : List (Except Chain.Error Chain.Receipt) := []
  results : Std.ExtTreeMap String Chain.Inclusion := ∅
  /-- All submissions so far. -/
  log : List (List Chain.Message) := []
  /-- How many of the next queries fail. -/
  failingQueries : Nat := 0
  /-- How many of the next polls find nothing. -/
  pendingPolls : Nat := 0
  /-- How many milliseconds a submission takes. -/
  delay : Nat := 0
  inFlight : Nat := 0
  mostInFlight : Nat := 0
  accepted : Nat := 0

namespace Chain

/-- A number as 64 upper-case hexadecimal digits. -/
def hashOf (n : Nat) : String :=
  let digits := (Nat.toDigits 16 n).map Char.toUpper
  String.ofList (List.replicate (64 - digits.length) '0' ++ digits)

def putSession (c : Chain) (s : Chain.Session) : Chain :=
  { c with sessions := c.sessions.insert s.id s }

def removeSession (c : Chain) (id : UInt64) : Chain := { c with sessions := c.sessions.erase id }

def setStatus (c : Chain) (id : UInt64) (status : Chain.Status) : Chain :=
  match c.sessions[id]? with
  | some s => c.putSession { s with status }
  | none => c

def pushOutcome (c : Chain) (outcome : Except Chain.Error Chain.Receipt) : Chain :=
  { c with outcomes := c.outcomes ++ [outcome] }

def setResult (c : Chain) (r : Chain.Inclusion) : Chain :=
  { c with results := c.results.insert r.hash r }

/-- Answers a query for a session. -/
def query (c : Chain) (id : UInt64) : Except Chain.Error (Option Chain.Session) × Chain :=
  match c.failingQueries with
  | n + 1 => (.error (.transport "mock query failure"), { c with failingQueries := n })
  | 0 => (.ok c.sessions[id]?, c)

/-- A submission sets out. -/
def beginSubmit (c : Chain) : Chain :=
  { c with inFlight := c.inFlight + 1, mostInFlight := max c.mostInFlight (c.inFlight + 1) }

/-- A submission arrives and is answered. -/
def submit (c : Chain) (batch : List Chain.Message) : Except Chain.Error Chain.Receipt × Chain :=
  let c := { c with log := c.log ++ [batch], inFlight := c.inFlight - 1 }
  match c.outcomes with
  | outcome :: outcomes => (outcome, { c with outcomes })
  | [] => (.ok ⟨hashOf (c.accepted + 1), Chain.codeOk, ""⟩, { c with accepted := c.accepted + 1 })

/-- Answers a poll for a transaction. -/
def poll (c : Chain) (hash : String) : Except Chain.Error Chain.Inclusion × Chain :=
  match c.pendingPolls with
  | n + 1 => (.error (.notFound hash), { c with pendingPolls := n })
  | 0 => (.ok (c.results[hash]?.getD ⟨hash, 1, Chain.codeOk, ""⟩), c)

end VpnNode.Simulation.Chain
