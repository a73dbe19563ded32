import VpnNode.Disk.Basic

/-!
# The disk of the host

Files and directories of the system on which the node runs.
-/

namespace VpnNode.Host

/-- A fault of the system with its number. -/
def numbered (code : UInt32) (details : String) : Disk.Error :=
  .other s!"{details} (os error {code})"

/-- Why the system refuses an operation on a file. -/
def diskError : IO.Error → Disk.Error
  | .noFileOrDirectory _ _ _ => .notFound
  | .alreadyExists _ 17 _ => .alreadyExists
  | .inappropriateType _ 20 _ => .notDirectory
  | .inappropriateType _ 21 _ => .isDirectory
  | .permissionDenied _ code details => numbered code details
  | .resourceExhausted _ code details => numbered code details
  | .invalidArgument _ code details => numbered code details
  | .otherError code details => numbered code details
  | e => .other (toString e)

/-- An operation on a file, with the reason if the system refuses it. -/
def attempt (act : IO α) : IO (Except Disk.Error α) := do
  try return .ok (← act)
  catch e => return .error (diskError e)

/-- The disk of the host. The empty path names no directory that could be missing. -/
def disk : Disk IO where
  holds path := do
    match ← attempt (IO.FS.realPath path) with
    | .ok _ => return true
    | .error _ => return false
  read path := attempt do return (← IO.FS.readBinFile path).toList
  write path octets := attempt do IO.FS.writeBinFile path ⟨octets.toArray⟩
  makeDirs path := attempt do if !path.isEmpty then IO.FS.createDirAll path

end VpnNode.Host
