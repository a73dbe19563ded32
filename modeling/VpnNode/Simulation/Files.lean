import VpnNode.Disk.Basic
import VpnNode.Text.Split

/-!
# Files in memory

A tree of directories and files. Paths start at a working directory, which also has a name
of its own.

Main statement:

* `read_write`: what has been written is read back.
-/

namespace VpnNode.Simulation

/-- Directories and files by the names on their paths. -/
structure Files where
  /-- The name of the working directory. -/
  root : String := ""
  directories : List (List String) := []
  files : List (List String × List UInt8) := []

namespace Files

/-- The names on a path; a step up takes the last one away. -/
def names (fs : Files) (path : String) : List String :=
  let parts := (Text.split '/' path.toList).map String.ofList
  let parts := if parts.head? = some fs.root then parts.drop 1 else parts
  (parts.filter fun p => p != "" && p != ".").foldl
    (fun above p => if p = ".." then above.dropLast else above ++ [p]) []

def isDirectory (fs : Files) (names : List String) : Bool :=
  names.isEmpty || fs.directories.contains names

def content? (fs : Files) (names : List String) : Option (List UInt8) :=
  (fs.files.find? fun f => f.1 == names).map Prod.snd

/-- All but the whole of a list, from the shortest. -/
def properPrefixes (names : List String) : List (List String) :=
  (List.range names.length).map fun n => names.take n

/-- Every name but the last leads through a directory. -/
def checkWay (fs : Files) (names : List String) : Except Disk.Error Unit :=
  (properPrefixes names).forM fun p =>
    if fs.isDirectory p then .ok ()
    else if (fs.content? p).isSome then .error .notDirectory
    else .error .notFound

/-- Does a path say that it leads to a directory? -/
def namesDirectory (path : String) : Bool := path.toList.getLast? = some '/'

def holds (fs : Files) (path : String) : Bool :=
  let names := fs.names path
  !path.isEmpty && (fs.isDirectory names || (fs.content? names).isSome && !namesDirectory path)

def read (fs : Files) (path : String) : Except Disk.Error (List UInt8) := do
  let names := fs.names path
  if path.isEmpty then .error .notFound
  fs.checkWay names
  if fs.isDirectory names then .error .isDirectory
  match fs.content? names with
  | none => .error .notFound
  | some bs => if namesDirectory path then .error .notDirectory else .ok bs

def write (fs : Files) (path : String) (bs : List UInt8) : Except Disk.Error Files := do
  let names := fs.names path
  if path.isEmpty then .error .notFound
  fs.checkWay names
  if fs.isDirectory names then .error .isDirectory
  if namesDirectory path then
    .error (if (fs.content? names).isSome then .notDirectory else .isDirectory)
  return { fs with files := (names, bs) :: fs.files.filter fun f => f.1 != names }

def makeDirs (fs : Files) (path : String) : Except Disk.Error Files := do
  let names := fs.names path
  if (properPrefixes names).any fun p => (fs.content? p).isSome then .error .notDirectory
  if (fs.content? names).isSome then .error .alreadyExists
  let missing := (properPrefixes names ++ [names]).filter fun p => !fs.isDirectory p
  return { fs with directories := fs.directories ++ missing }

/-- A way can be gone exactly if it leads through directories. -/
theorem checkWay_eq_ok_iff {fs : Files} {names : List String} :
    fs.checkWay names = .ok () ↔ ∀ p ∈ properPrefixes names, fs.isDirectory p := by
  unfold checkWay
  generalize properPrefixes names = ps
  induction ps with
  | nil => simp [pure, Except.pure]
  | cons p ps ih =>
    by_cases hp : fs.isDirectory p
    · simpa [hp, bind, Except.bind] using ih
    · by_cases hc : (fs.content? p).isSome <;> simp [hp, hc, bind, Except.bind]

/-- What has been written is read back. -/
theorem read_write {fs fs' : Files} {path : String} {bs : List UInt8}
    (h : fs.write path bs = .ok fs') : fs'.read path = .ok bs := by
  by_cases hp : path.isEmpty
  · simp [write, hp, bind, Except.bind] at h
  cases hw : fs.checkWay (fs.names path) with
  | error e => simp [write, hp, hw, bind, Except.bind] at h
  | ok u =>
    by_cases hd : fs.isDirectory (fs.names path)
    · simp [write, hp, hw, hd, bind, Except.bind] at h
    by_cases hs : namesDirectory path
    · simp [write, hp, hw, hd, hs, bind, Except.bind] at h
    simp [write, hp, hw, hd, hs, bind, Except.bind, pure, Except.pure] at h
    have hn : fs'.names path = fs.names path := by subst h; rfl
    have hw' : fs'.checkWay (fs.names path) = .ok () := by
      rw [checkWay_eq_ok_iff] at hw ⊢
      subst h
      exact hw
    have hd' : fs'.isDirectory (fs.names path) = false := by
      subst h
      simpa [isDirectory] using hd
    have hc : fs'.content? (fs.names path) = some bs := by simp [← h, content?]
    simp [read, hp, hn, hw', hd', hc, hs, bind, Except.bind]
/-- An operation that may change the files. -/
def change (f : Files → Except Disk.Error Files) : StateM Files (Except Disk.Error Unit) := fun fs =>
  match f fs with
  | .ok fs => (.ok (), fs)
  | .error e => (.error e, fs)

/-- The files as a disk. -/
def disk : Disk (StateM Files) where
  holds path := fun fs => (fs.holds path, fs)
  read path := fun fs => (fs.read path, fs)
  write path bs := change fun fs => fs.write path bs
  makeDirs path := change fun fs => fs.makeDirs path

end Files

end VpnNode.Simulation
