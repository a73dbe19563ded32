import VpnNode.Codec.Base64
import VpnNode.Http.Basic
import VpnNode.Peer.Error
import VpnNode.Peer.Identity
import VpnNode.Peer.Statistic

/-!
# The backend over HTTP

Peers of a backend that runs beside the node.
-/

namespace VpnNode.Sidecar

open Http (Call Failure Response)

def failed (f : Failure) : Peer.Error := .backend f.message

/-- A status that is not expected. -/
def unexpected (what : String) (r : Response) : Peer.Error :=
  .backend s!"{what} failed {r.summary}"

/-- What a client needs to connect, in base64; it may be missing. -/
def dataRecord : Json.Record String := (Json.Record.pure id) |>.optional "data" Json.Reader.text ""

def readAddition (i : Peer.Identity) : Except Failure Response → Except Peer.Error (List UInt8)
  | .error f => .error (failed f)
  | .ok r =>
    if r.isSuccess then
      match r.json dataRecord.read with
      | .error f => .error (failed f)
      | .ok data =>
        (Base64.decode data).mapError fun f => .backend s!"add_peer response: {f.message}"
    else if r.status = 409 then .error (.alreadyExists i.key)
    else .error (unexpected "add_peer" r)

/-- Adds a peer; gives what a client needs to connect. -/
def add (base : String) (i : Peer.Identity) : Call (Except Peer.Error (List UInt8)) where
  request := { method := .post, url := .under base "/peers", body := .json i.toJson }
  read := readAddition i

def peerUrl (base : String) (i : Peer.Identity) : Url :=
  (Url.under base "/peer").withQuery "key" i.key

def readPresence : Except Failure Response → Except Peer.Error Bool
  | .error f => .error (failed f)
  | .ok r =>
    if r.isSuccess then .ok true
    else if r.status = 404 then .ok false
    else .error (unexpected "has_peer" r)

/-- Asks whether a peer is connected. -/
def has (base : String) (i : Peer.Identity) : Call (Except Peer.Error Bool) where
  request := { method := .get, url := peerUrl base i }
  read := readPresence

def readRemoval (i : Peer.Identity) : Except Failure Response → Except Peer.Error Unit
  | .error f => .error (failed f)
  | .ok r =>
    if r.isSuccess then .ok ()
    else if r.status = 404 then .error (.notFound i.key)
    else .error (unexpected "remove_peer" r)

/-- Removes a peer. -/
def remove (base : String) (i : Peer.Identity) : Call (Except Peer.Error Unit) where
  request := { method := .delete, url := peerUrl base i }
  read := readRemoval i

/-- Reads the body of a success, and nothing else. -/
def readSuccess (what : String) (reader : Json.Reader α) :
    Except Failure Response → Except Peer.Error α
  | .error f => .error (failed f)
  | .ok r => if r.isSuccess then (r.json reader).mapError failed else .error (unexpected what r)

/-- Asks for the counters of all peers. -/
def statistics (base : String) : Call (Except Peer.Error (List Peer.Statistic)) where
  request := { method := .get, url := .under base "/peers/stats" }
  read := readSuccess "peer_statistics" (Json.Reader.list Peer.Statistic.record.read)

def countRecord : Json.Record UInt64 := (Json.Record.pure id) |>.required "count" Json.Reader.uint64

/-- Asks how many peers are connected. -/
def count (base : String) : Call (Except Peer.Error Nat) where
  request := { method := .get, url := .under base "/peers/count" }
  read := fun r => (readSuccess "peer_count" countRecord.read r).map UInt64.toNat

end VpnNode.Sidecar
