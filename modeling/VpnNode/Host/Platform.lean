import VpnNode.CommandLine.Run
import VpnNode.Host.Service

/-!
# The host as a platform

Commands on the system on which the program runs. A ledger is a file in a directory of its
own.
-/

namespace VpnNode.Host

open Std.Async

/-- An open ledger: its file and what is in it. -/
structure OpenLedger where
  path : String
  ledger : Ledger

/-- Opens the ledger in a directory. -/
def openLedger (directory : String) : IO (Except String OpenLedger) := do
  match ← disk.makeDirs directory with
  | .error e => return .error e.message
  | .ok () =>
    let path := Path.join directory "ledger.json"
    return (← loadLedger path).map fun ledger => { path, ledger }

/-- The number of connections that may wait to be taken. -/
def backlog : UInt32 := 1024

/-- Takes an address to listen on. -/
def listen (address : String) : IO (Except String TCP.Socket.Server) := do
  match CommandLine.splitAddress address with
  | .error e => return .error e
  | .ok (host, port) =>
    try
      let bare := String.ofList (host.toList.filter fun c => c ≠ '[' && c ≠ ']')
      match ← Async.block (addressesOf bare port) with
      | [] => return .error "no address"
      | a :: _ =>
        let listener ← TCP.Socket.Server.mk
        listener.bind a
        listener.listen backlog
        return .ok listener
    catch e => return .error (toString e)

/-- Serves a node until it is told to stop. -/
def serve (config : NodeConfig) (l : OpenLedger) (listener : TCP.Socket.Server) :
    IO (Except String Unit) := do
  IO.println s!"node {config.nodeAddress}, {l.ledger.count} sessions, listening on {config.listenOn}"
  let surroundings ← Surroundings.begin config l.path l.ledger
  let service : Service := { surroundings, listener, start := ← IO.monoMsNow,
                             stop := ← Std.CancellationToken.new, fault := ← IO.mkRef none }
  service.serve

/-- The system on which the program runs. -/
def platform : CommandLine.Platform IO OpenLedger TCP.Socket.Server where
  disk
  openLedger
  listen
  serve

end VpnNode.Host
