/-!
# The command line

Two commands: `start` runs a node, and `config init` writes a configuration with defaults.
Both take the home directory of the node.
-/

namespace VpnNode.CommandLine

/-- What is to be done. -/
inductive Command where
  /-- Runs the node. -/
  | start (home : String)
  /-- Writes a configuration with defaults, `force` in place of an old one. -/
  | init (home : String) (force : Bool)
  deriving DecidableEq, Repr

/-- Why there is nothing to be done. -/
inductive Halt where
  /-- Help was asked for. -/
  | help
  | version
  /-- The arguments make no sense. -/
  | misuse
  deriving DecidableEq, Repr

/-- The home directory where none is given. -/
def defaultHome : String := ".dvpn-node"

/-- Options of a command as far as they have been given. -/
structure Options where
  home : Option String := none
  force : Bool := false
  deriving DecidableEq, Repr

/-- Does an argument look like an option? -/
def isOption (s : String) : Bool := s.startsWith "-" && s != "-"

/-- Does an argument ask for help? -/
def asksHelp (s : String) : Bool := s == "--help" || (s.startsWith "-h")

/-- The home directory is given, which must not be empty, and only once. -/
def Options.withHome (o : Options) (home : String) : Except Halt Options :=
  if o.home.isSome || home.isEmpty then .error .misuse else .ok { o with home := some home }

/-- Reads the options of a command; `forcible` if it can be forced. -/
def options (forcible : Bool) : Options → List String → Except Halt Options
  | o, [] => .ok o
  | o, ["--"] => .ok o
  | o, "--home" :: v :: r => do
    if isOption v then .error .misuse
    options forcible (← o.withHome v) r
  | o, s :: r =>
    if asksHelp s then .error .help
    else if s.startsWith "--home=" then do
      options forcible (← o.withHome (s.drop 7).toString) r
    else if s == "--force" && forcible && !o.force then options forcible { o with force := true } r
    else .error .misuse

/-- Help on a command that the program knows. -/
def helpOn (known : List (List String)) (args : List String) : Halt :=
  if known.contains args then .help else .misuse

/-- Reads what follows `config`. -/
def parseConfig : List String → Except Halt Command
  | "init" :: r => do
    let o ← options true {} r
    return .init (o.home.getD defaultHome) o.force
  | "help" :: r => .error (helpOn [[], ["init"], ["help"]] r)
  | s :: _ => .error (if asksHelp s then .help else .misuse)
  | [] => .error .misuse

/-- Reads the arguments of the program. -/
def parse : List String → Except Halt Command
  | "start" :: r => do
    let o ← options false {} r
    return .start (o.home.getD defaultHome)
  | "config" :: r => parseConfig r
  | "help" :: r =>
    .error (helpOn [[], ["start"], ["config"], ["config", "init"], ["config", "help"], ["help"]] r)
  | s :: _ =>
    .error (if asksHelp s then .help
      else if s == "--version" || s.startsWith "-V" then .version
      else .misuse)
  | [] => .error .misuse

/-- How the program is used. -/
def usage : String :=
  "Usage: dvpn-node start [--home <HOME>]\n       dvpn-node config init [--home <HOME>] [--force]\n"

end VpnNode.CommandLine
