/-!
# Disks

What the node asks of a file system, and how that can fail. The operations are a value, so
that the same code runs on any disk.
-/

namespace VpnNode

/-- Why an operation on a file fails. -/
inductive Disk.Error where
  | notFound
  | alreadyExists
  | notDirectory
  | isDirectory
  /-- The content is no UTF-8 text. -/
  | notText
  | other (text : String)
  deriving DecidableEq, Repr

def Disk.Error.message : Disk.Error → String
  | .notFound => "No such file or directory (os error 2)"
  | .alreadyExists => "File exists (os error 17)"
  | .notDirectory => "Not a directory (os error 20)"
  | .isDirectory => "Is a directory (os error 21)"
  | .notText => "stream did not contain valid UTF-8"
  | .other text => text

/-- Operations on files, by path. -/
structure Disk (m : Type → Type) where
  /-- Is there a file or directory? -/
  holds : String → m Bool
  read : String → m (Except Disk.Error (List UInt8))
  /-- Writes a file, new or in place of the old one. -/
  write : String → List UInt8 → m (Except Disk.Error Unit)
  /-- Makes a directory and those above it, where they are missing. -/
  makeDirs : String → m (Except Disk.Error Unit)

namespace Path

/-- The path of an entry of a directory; the empty path is the working directory. -/
def join (directory name : String) : String :=
  if directory.isEmpty then name
  else if directory.toList.getLast? = some '/' then directory ++ name
  else directory ++ "/" ++ name

/-- Drops slashes at the end. -/
def dropSlashes (cs : List Char) : List Char := (cs.reverse.dropWhile (· == '/')).reverse

/-- The directory that holds an entry; neither the empty path nor the root has one. -/
def parent? (path : String) : Option String :=
  let cs := dropSlashes path.toList
  if cs.isEmpty then none
  else
    let above := (cs.reverse.dropWhile (· != '/')).reverse
    let directory := dropSlashes above
    some (String.ofList (if directory.isEmpty then above.take 1 else directory))

end Path

end VpnNode
