import VpnNode.Program

/-!
# Peers by key

The backend of a node is addressed by the keys of its clients. A key that the kind of
service does not know is refused before the backend is asked.
-/

namespace VpnNode.Peer

/-- Goes on with the identity of a key, if it has one. -/
def withIdentity (service : Service) (key : String) (f : Identity → Program (Except Error α)) :
    Program (Except Error α) :=
  match Identity.ofKey service key with
  | .error e => return .error e
  | .ok i => f i

/-- Connects a peer; gives its identity and the connection data. -/
def addByKey (service : Service) (key : String) : Program (Except Error (Identity × List UInt8)) :=
  withIdentity service key fun i => do
    let answer ← Program.request (.addPeer i)
    return answer.map fun data => (i, data)

/-- Is a peer connected? -/
def hasByKey (service : Service) (key : String) : Program (Except Error Bool) :=
  withIdentity service key fun i => Program.request (.hasPeer i)

/-- Disconnects a peer. -/
def removeByKey (service : Service) (key : String) : Program (Except Error Unit) :=
  withIdentity service key fun i => Program.request (.removePeer i)

/-- Disconnects a peer if the backend has it: first it is asked, then the peer is
    removed. -/
def removeIfPresent (service : Service) (key : String) : Program (Except Error Unit) :=
  withIdentity service key fun i => do
    match ← Program.request (.hasPeer i) with
    | .error e => return .error e
    | .ok false => return .ok ()
    | .ok true => Program.request (.removePeer i)

end VpnNode.Peer
