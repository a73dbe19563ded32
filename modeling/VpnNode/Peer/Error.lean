import VpnNode.Peer.Service
import VpnNode.Text.Decimal

/-!
# What can go wrong with peers
-/

namespace VpnNode.Peer

inductive Error where
  | unknownService (name : String)
  | invalidKey (service : Service) (key reason : String)
  | alreadyExists (key : String)
  | notFound (key : String)
  | capacity (limit : Nat)
  | backend (reason : String)
  deriving DecidableEq, Repr

def Error.message : Error → String
  | .unknownService name => s!"invalid service type: {name}"
  | .invalidKey service key reason => s!"invalid {service.name} peer key '{key}': {reason}"
  | .alreadyExists key => s!"peer already exists: {key}"
  | .notFound key => s!"peer not found: {key}"
  | .capacity limit => s!"peer limit reached ({Decimal.render limit})"
  | .backend reason => s!"backend error: {reason}"

/-- The name of the kind of error. -/
def Error.kind : Error → String
  | .unknownService _ => "UnknownServiceType"
  | .invalidKey _ _ _ => "InvalidKey"
  | .alreadyExists _ => "AlreadyExists"
  | .notFound _ => "NotFound"
  | .capacity _ => "Capacity"
  | .backend _ => "Backend"

/-- Reads the name of a kind of service. -/
def parseService (name : String) : Except Error Service :=
  match Service.parse? name with
  | some k => .ok k
  | none => .error (.unknownService (Service.folded name))

end VpnNode.Peer
