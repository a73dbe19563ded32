import VpnNode.Chain.Client
import VpnNode.Peer.Adapter

/-!
# Admission

A client that has paid for a session on the chain asks to be served. The request is
checked, then the session on the chain, then the ledger; only then the peer is connected
and the session stored. If it cannot be stored, the peer is disconnected again.
-/

namespace VpnNode.Admission

/-- What a client asks for. -/
structure Request where
  accountAddress : String
  sessionId : UInt64
  peerKey : String
  /-- Base64. -/
  signature : String
  deriving DecidableEq, Repr

/-- Why a client is not admitted. -/
inductive Error where
  | zeroSession
  | signature (fault : Base64.Fault)
  | sessionNotFound (id : UInt64)
  | sessionInactive (id : UInt64) (status : Chain.Status)
  | accountMismatch (id : UInt64) (owner account : String)
  | nodeMismatch (id : UInt64) (node : String)
  | sessionExists (id : UInt64)
  | peerKeyInUse
  | chain (error : Chain.Error)
  | peer (error : Peer.Error)
  | ledger (error : Ledger.Error)
  deriving DecidableEq

def Error.message : Error → String
  | .zeroSession => "invalid request: session id must be non-zero"
  | .signature fault => s!"invalid request: signature: {fault.message}"
  | .sessionNotFound id => s!"session {Decimal.render id.toNat} does not exist on chain"
  | .sessionInactive id status =>
    s!"session {Decimal.render id.toNat} is {status.name}, expected active"
  | .accountMismatch id owner account =>
    s!"session {Decimal.render id.toNat} belongs to {owner}, not {account}"
  | .nodeMismatch id node => s!"session {Decimal.render id.toNat} is bound to node {node}"
  | .sessionExists id => s!"session {Decimal.render id.toNat} already has a peer"
  | .peerKeyInUse => "peer key already in use"
  | .chain error => error.message
  | .peer error => error.message
  | .ledger error => error.message

/-- The name of the kind of error. -/
def Error.kind : Error → String
  | .zeroSession | .signature _ => "InvalidRequest"
  | .sessionNotFound _ => "SessionNotFound"
  | .sessionInactive _ _ => "SessionInactive"
  | .accountMismatch _ _ _ => "AccountMismatch"
  | .nodeMismatch _ _ => "NodeMismatch"
  | .sessionExists _ => "SessionExists"
  | .peerKeyInUse => "PeerKeyInUse"
  | .chain error => "Chain." ++ error.kind
  | .peer error => "Peer." ++ error.kind
  | .ledger error => "Store." ++ error.kind

/-- Checks what can be checked without asking anyone; gives the canonical peer key. -/
def checkRequest (service : Service) (r : Request) : Except Error String := do
  if r.sessionId = 0 then throw .zeroSession
  match Base64.decode r.signature with
  | .error fault => throw (.signature fault)
  | .ok _ =>
    match Peer.Identity.ofKey service r.peerKey with
    | .error e => throw (.peer e)
    | .ok i => return i.key

/-- Checks the session as the chain records it. -/
def checkRemote (nodeAddress : String) (r : Request) :
    Option Chain.Session → Except Error Chain.Session
  | none => .error (.sessionNotFound r.sessionId)
  | some s =>
    if !s.isActive then .error (.sessionInactive s.id s.status)
    else if s.accountAddress ≠ r.accountAddress then
      .error (.accountMismatch s.id s.accountAddress r.accountAddress)
    else if s.nodeAddress ≠ nodeAddress then .error (.nodeMismatch s.id s.nodeAddress)
    else .ok s

/-- The byte quota that the chain grants. -/
def byteQuota (s : Chain.Session) : Except Error Nat :=
  match Decimal.parse? s.maxBytes with
  | some n => .ok n
  | none => .error (.chain (.invalidResponse
      s!"session {Decimal.render s.id.toNat} max_bytes '{s.maxBytes}'"))

/-- The row of an admitted client. -/
def newSession (service : Service) (r : Request) (remote : Chain.Session) (quota : Nat)
    (key : String) (now : Time) : Session :=
  let s := Session.new remote.id remote.accountAddress remote.nodeAddress key service now
  let s := (s.withMaxBytes quota).withMaxDuration (Session.durationOf remote.maxDuration)
  { s with signature := r.signature }

/-- The ledger must hold no row with this id, and none with this peer key. -/
def checkLedger (id : UInt64) (key : String) : Program (Except Error Unit) := do
  match ← Program.request (.findRows (.byId id)) with
  | .error e => return .error (.ledger e)
  | .ok (_ :: _) => return .error (.sessionExists id)
  | .ok [] =>
    match ← Program.request (.findRows (.byPeerKey key)) with
    | .error e => return .error (.ledger e)
    | .ok (_ :: _) => return .error .peerKeyInUse
    | .ok [] => return .ok ()

/-- Connects the peer and stores the session; disconnects the peer if the session cannot
    be stored. Gives the connection data for the client. -/
def connect (service : Service) (r : Request) (remote : Chain.Session) (quota : Nat)
    (key : String) : Program (Except Error (List UInt8)) := do
  match ← Peer.addByKey service key with
  | .error e => return .error (.peer e)
  | .ok (_, data) =>
    let now ← Program.request .now
    match ← Program.request (.insertRow (newSession service r remote quota key now)) with
    | .ok () => return .ok data
    | .error e =>
      let _ ← Peer.removeIfPresent service key
      return .error (.ledger e)

/-- Admits a client: stores its session and connects its peer. -/
def accept (config : NodeConfig) (r : Request) : Program (Except Error (List UInt8)) :=
  match checkRequest config.service r with
  | .error e => return .error e
  | .ok key => do
    match ← Chain.querySession config.policies r.sessionId with
    | .error e => return .error (.chain e)
    | .ok remote =>
      match checkRemote config.nodeAddress r remote with
      | .error e => return .error e
      | .ok remote =>
        match ← checkLedger r.sessionId key with
        | .error e => return .error e
        | .ok () =>
          match byteQuota remote with
          | .error e => return .error e
          | .ok quota => connect config.service r remote quota key

end VpnNode.Admission
