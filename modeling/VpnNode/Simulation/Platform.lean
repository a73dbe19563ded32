import VpnNode.CommandLine.Run
import VpnNode.Simulation.Files

/-!
# A platform in memory

Commands on files in memory. Ledgers can always be opened, every address that has the form
of one can be listened on, and nodes are told to stop at once.
-/

namespace VpnNode.Simulation.Files

open CommandLine

/-- Files in memory as a platform. -/
def platform : Platform (StateM Files) Unit Unit where
  disk := disk
  openLedger path := do
    let _ ← disk.makeDirs path
    return .ok ()
  listen address := return (splitAddress address).map fun _ => ()
  serve _ _ _ := return .ok ()

/-- Puts a file into its directory, which is made if it is missing. -/
def put (fs : Files) (path : String) (bs : List UInt8) : Files :=
  let way := (Config.makeRoom disk path).run fs
  ((disk.write path bs).run way.2).2

/-- Runs the program with its arguments. -/
def execute (fs : Files) (args : List String) : Exit × Files :=
  (CommandLine.execute platform args).run fs

end VpnNode.Simulation.Files
