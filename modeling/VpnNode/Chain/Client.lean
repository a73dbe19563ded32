import VpnNode.NodeConfig
import VpnNode.Program

/-!
# The chain, as the node uses it

Queries are retried. A broadcast hands in a transaction, alone among the broadcasts of
the account and with retries, and then polls until the transaction is part of a block.
A transaction that the chain's pool holds already counts as handed in.
-/

namespace VpnNode.Chain

/-- Retries a program with pauses. -/
def retrying (p : RetryPolicy) (attempt : Program (Except Error α)) : Program (Except Error α) :=
  retry (fun ms => Program.request (.sleep ms)) p attempt

/-- Fetches a session; there is none if the chain does not know it. -/
def querySession (p : Policies) (id : UInt64) : Program (Except Error (Option Session)) :=
  retrying p.query (Program.request (.querySession id))

/-- The hash under which a transaction was accepted, or why it was not. -/
def accepted : Except Error Receipt → Except Error String
  | .ok receipt => if receipt.isOk then .ok receipt.hash else .error (.rejected receipt.code receipt.log)
  | .error (.alreadyPooled hash) => .ok hash
  | .error e => .error e

/-- Hands in a transaction; gives its hash. -/
def submit (p : Policies) (batch : List Message) : Program (Except Error String) :=
  retrying p.broadcast do
    let answer ← Program.request (.submit batch)
    return accepted answer

/-- Waits until a transaction is part of a block. -/
def confirm (p : Policies) (hash : String) : Program (Except Error Inclusion) :=
  retrying p.confirm (Program.request (.pollTransaction hash))

/-- The inclusion of a transaction that was executed without an error. -/
def executed (r : Inclusion) : Except Error Inclusion :=
  if r.isOk then .ok r else .error (.rejected r.code r.log)

/-- Sends messages as one transaction and waits until it is part of a block. -/
def broadcast (p : Policies) (batch : List Message) : Program (Except Error Inclusion) :=
  if batch.isEmpty then return .error (.invalidRequest "transaction has no messages")
  else do
    Program.request .lockAccount
    let submitted ← submit p batch
    Program.request .unlockAccount
    match submitted with
    | .error e => return .error e
    | .ok hash =>
      match ← confirm p hash with
      | .error e => return .error e
      | .ok inclusion => return executed inclusion

end VpnNode.Chain
