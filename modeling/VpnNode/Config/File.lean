import VpnNode.Config.Form
import VpnNode.Disk.Basic
import VpnNode.Text.Utf8

/-!
# Configuration files

The configuration is loaded from a text file and saved in one.
-/

namespace VpnNode.Config

variable {m : Type → Type} [Monad m]

/-- The configuration in the octets of a file. -/
def ofOctets (bs : List UInt8) : Except Error Config :=
  match Utf8.decode? bs with
  | some text => parse text
  | none => .error (.io Disk.Error.notText.message)

/-- Loads the configuration in a file. -/
def load (d : Disk m) (path : String) : m (Except Error Config) := do
  match ← d.read path with
  | .error e => return .error (.io e.message)
  | .ok bs => return ofOctets bs

/-- Makes the directory of a file. -/
def makeRoom (d : Disk m) (path : String) : m (Except Disk.Error Unit) :=
  match Path.parent? path with
  | some directory => d.makeDirs directory
  | none => return .ok ()

/-- Saves a configuration in a file, whose directory is made if it is missing. -/
def save (d : Disk m) (c : Config) (path : String) : m (Except Error Unit) := do
  match ← makeRoom d path with
  | .error e => return .error (.io e.message)
  | .ok () =>
    match c.render with
    | .error e => return .error e
    | .ok text => return (← d.write path (Utf8.octets text)).mapError fun e => .io e.message

/-- An error with what has caused it. -/
def Error.chain : Error → String
  | .io reason => s!"{(Error.io reason).message}: {reason}"
  | e => e.message

end VpnNode.Config
