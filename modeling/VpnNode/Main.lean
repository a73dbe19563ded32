import VpnNode.Host.Platform

/-!
# The program

Runs a command on the host.
-/

/-- Runs the program with its arguments; gives its exit status. -/
def main (args : List String) : IO UInt32 := do
  let exit ← VpnNode.CommandLine.execute VpnNode.Host.platform args
  IO.print exit.output
  IO.eprint exit.error
  return exit.status
