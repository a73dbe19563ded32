import VpnNode.Text.Blank
import VpnNode.Text.Decimal
import VpnNode.Text.Split

/-!
# What can go wrong with the chain

A transaction that the chain's pool already holds is an error of its own kind: it
carries the hash of the transaction, and the sender may go on as if it had been
accepted.

Main statement:

* `ofBroadcastMessage_eq_alreadyPooled_iff`: a refusal counts as a duplicate exactly
  if a hash is known and the text says so.
-/

namespace VpnNode.Chain

inductive Error where
  /-- The network or the remote procedure failed. -/
  | transport (reason : String)
  /-- The pool of pending transactions holds the same transaction already. -/
  | alreadyPooled (hash : String)
  /-- The chain refused the transaction. -/
  | rejected (code : UInt32) (log : String)
  /-- The transaction is not, or not yet, part of a block. -/
  | notFound (hash : String)
  | invalidResponse (reason : String)
  | invalidRequest (reason : String)
  deriving DecidableEq

def Error.message : Error → String
  | .transport reason => s!"chain transport error: {reason}"
  | .alreadyPooled hash => s!"transaction {hash} already in mempool"
  | .rejected code log => s!"transaction rejected (code {Decimal.render code.toNat}): {log}"
  | .notFound hash => s!"transaction {hash} not found"
  | .invalidResponse reason => s!"invalid chain response: {reason}"
  | .invalidRequest reason => s!"invalid request: {reason}"

/-- The name of the kind of error. -/
def Error.kind : Error → String
  | .transport _ => "Transport"
  | .alreadyPooled _ => "AlreadyInMempool"
  | .rejected _ _ => "Rejected"
  | .notFound _ => "TxNotFound"
  | .invalidResponse _ => "InvalidResponse"
  | .invalidRequest _ => "InvalidRequest"

/-- What the chain says of a transaction that its pool holds already. -/
def duplicateText : String := "tx already exists in cache"

/-- Does a text say, in any case of its letters, that the pool holds the transaction? -/
def saysDuplicate (text : String) : Bool :=
  Text.contains duplicateText.toList (Text.asciiLower text).toList

/-- The error that a refusal of a transaction stands for; `hash` is the hash of the
    transaction, if it is known. -/
def Error.ofBroadcastMessage (text : String) : Option String → Error
  | some hash => if saysDuplicate text then .alreadyPooled hash else .transport text
  | none => .transport text

/-- A refusal counts as a duplicate exactly if a hash is known and the text says so. -/
theorem Error.ofBroadcastMessage_eq_alreadyPooled_iff {text : String} {known : Option String}
    {hash : String} :
    ofBroadcastMessage text known = .alreadyPooled hash ↔ known = some hash ∧ saysDuplicate text := by
  unfold ofBroadcastMessage
  split
  · split <;> simp_all
  · simp

end VpnNode.Chain
