import VpnNode.CommandLine.Basic
import VpnNode.Config.File
import VpnNode.NodeConfig

/-!
# Running commands

Commands run on a platform, which has a disk, keeps ledgers, and serves nodes. A command
that fails says why on the error output and has exit status 1; wrong use has 2.
-/

namespace VpnNode.CommandLine

/-- What commands need; `β` is the type of an open ledger, `γ` that of an address that is
    listened on. -/
structure Platform (m : Type → Type) (β γ : Type) where
  disk : Disk m
  /-- Opens the ledger in a directory. -/
  openLedger : String → m (Except String β)
  /-- Takes an address to listen on. -/
  listen : String → m (Except String γ)
  /-- Serves a node until it is told to stop. -/
  serve : NodeConfig → β → γ → m (Except String Unit)

/-- What a program leaves: its exit status and what it has written. -/
structure Exit where
  status : UInt32 := 0
  output : String := ""
  error : String := ""
  deriving DecidableEq, Repr

/-- An address to listen on, in its parts; the reason if it has no form of an address. -/
def splitAddress (address : String) : Except String (String × UInt16) :=
  let cs := address.toList
  if !cs.contains ':' then .error "invalid socket address"
  else
    let port := (cs.reverse.takeWhile (· != ':')).reverse
    let host := ((cs.reverse.dropWhile (· != ':')).drop 1).reverse
    let digits := match port with
      | '+' :: r => r
      | r => r
    match Decimal.parse? (String.ofList digits) with
    | some n =>
      if n < UInt16.size then .ok (String.ofList host, UInt16.ofNat n) else .error "invalid port value"
    | none => .error "invalid port value"

def configName : String := "config.toml"

def ledgerName : String := "data.db"

variable {m : Type → Type} [Monad m]

/-- Writes a configuration with defaults; gives what is said of it. -/
def init (d : Disk m) (home : String) (force : Bool) : m (Except String String) := do
  let path := Path.join home configName
  if (← d.holds path) && !force then
    return .error s!"{path} already exists (use --force to overwrite)"
  match ← Config.save d {} path with
  | .error e => return .error e.chain
  | .ok () => return .ok s!"wrote {path}\n"

/-- The settings of the node in a home directory. -/
def settings (d : Disk m) (home : String) : m (Except String NodeConfig) := do
  let path := Path.join home configName
  match ← Config.load d path with
  | .error e => return .error s!"loading {path}: {e.chain}"
  | .ok config =>
    return (config.validate.bind fun () => NodeConfig.ofConfig config).mapError fun f =>
      (Config.Error.invalid f).message

/-- Runs the node in a home directory. -/
def start (p : Platform m β γ) (home : String) : m (Except String String) := do
  match ← settings p.disk home with
  | .error e => return .error e
  | .ok config =>
    match ← p.openLedger (Path.join home ledgerName) with
    | .error e => return .error s!"opening session ledger in {home}: {e}"
    | .ok ledger =>
      match ← p.listen config.listenOn with
      | .error e => return .error s!"binding {config.listenOn}: {e}"
      | .ok listener => return (← p.serve config ledger listener).map fun () => ""

def run (p : Platform m β γ) : Command → m (Except String String)
  | .start home => start p home
  | .init home force => init p.disk home force

/-- Runs the program with its arguments. -/
def execute (p : Platform m β γ) (args : List String) : m Exit := do
  match parse args with
  | .error .help => return { output := usage }
  | .error .version => return { output := "dvpn-node 0.1.0\n" }
  | .error .misuse => return { status := 2, error := usage }
  | .ok command =>
    match ← run p command with
    | .ok output => return { output }
    | .error e => return { status := 1, error := s!"error: {e}\n" }

end VpnNode.CommandLine
