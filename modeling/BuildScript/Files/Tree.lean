import BuildScript.Files.Path

/-!
# File trees

The file system that scripts are read from and classes are written to, as a value.

## Design

A tree maps locations to directories and files. A file is known by a number, under which its bytes
are kept: writing to an existing file changes the bytes behind its number, while removing a file
only drops its location. So a file that was opened before can still be read, and shows what was
written to it since.

An operation that fails may have changed the tree before, so operations are a state monad under
exceptions. They fail with the kind of error that the system reports.
-/

namespace BuildScript

/-- The kinds of errors of file operations. -/
inductive FileError where
  | notFound
  | notADirectory
  | isADirectory
  | alreadyExists
  /-- A name or a path that is too long. -/
  | invalidFilename
  /-- A path that no file can have, because it contains a null character. -/
  | invalidInput
  /-- A text that is not UTF-8. -/
  | invalidData
deriving DecidableEq, Repr

inductive FileNode where
  | directory
  | file (number : Nat)
deriving DecidableEq, Repr

/-- Names from the root down to a file or directory. -/
abbrev Location := List String

structure FileTree where
  /-- Every file and directory but the root. -/
  nodes : List (Location × FileNode) := []
  /-- The bytes of the files by number. -/
  contents : Array (List UInt8) := #[]
deriving Repr, Inhabited

/-- An operation on a file tree. -/
abbrev FileM := ExceptT FileError (StateM FileTree)

namespace FileTree

def node? (t : FileTree) (place : Location) : Option FileNode :=
  if place.isEmpty then some .directory else t.nodes.lookup place

def content (t : FileTree) (number : Nat) : List UInt8 := t.contents[number]?.getD []

/-- In a file system no location has two nodes, every file and directory stands in a directory, and no
two files share their bytes. -/
structure WellFormed (t : FileTree) : Prop where
  distinct : (t.nodes.map Prod.fst).Nodup
  /-- The root is no node of its own. -/
  rootless : ∀ x ∈ t.nodes, x.1 ≠ []
  inside : ∀ l n, t.node? l = some n → l ≠ [] → t.node? l.dropLast = some .directory
  numbered : ∀ l number, t.node? l = some (.file number) → number < t.contents.size
  apart : ∀ l l' number, t.node? l = some (.file number) → t.node? l' = some (.file number) → l = l'

/-- The longest name of a file, in bytes. -/
def maxNameLength : Nat := 255

/-- The longest path, in bytes. -/
def maxPathLength : Nat := 4095

/-- Follows the segments of a path. What a segment is looked up in has to be a directory; the last
segment may name nothing. -/
def walk (t : FileTree) (place : Location) : List String → Except FileError Location
  | [] => .ok place
  | s :: ss =>
    match t.node? place with
    | none => .error .notFound
    | some (.file _) => .error .notADirectory
    | some .directory =>
      if s == "" || s == "." then t.walk place ss
      else if s == ".." then t.walk place.dropLast ss
      else if maxNameLength < s.utf8ByteSize then .error .invalidFilename
      else t.walk (place ++ [s]) ss

/-- The segments of an absolute path, if a path like this can be looked up at all. -/
def segmentsOf (p : Path) : Except FileError (List String) :=
  if p.text.toList.contains '\x00' then .error .invalidInput
  else if p.text.isEmpty then .error .notFound
  else if maxPathLength < p.text.utf8ByteSize then .error .invalidFilename
  else .ok (splitText '/' p.text)

/-- Where an absolute path leads. -/
def locate (t : FileTree) (p : Path) : Except FileError Location := do t.walk [] (← segmentsOf p)

def lookup (t : FileTree) (p : Path) : Except FileError FileNode := do
  match t.node? (← t.locate p) with
  | some n => return n
  | none => throw .notFound

def isFile (t : FileTree) (p : Path) : Bool :=
  match t.lookup p with
  | .ok (.file _) => true
  | _ => false

def isDirectory (t : FileTree) (p : Path) : Bool :=
  match t.lookup p with
  | .ok .directory => true
  | _ => false

def existsAt (t : FileTree) (p : Path) : Bool := (t.lookup p).isOk

/-- The bytes of a file. -/
def read (t : FileTree) (p : Path) : Except FileError (List UInt8) := do
  match ← t.lookup p with
  | .file number => return t.content number
  | .directory => throw .isADirectory

/-- The text of a file. -/
def readText (t : FileTree) (p : Path) : Except FileError String := do
  match String.fromUTF8? ⟨(← t.read p).toArray⟩ with
  | some text => return text
  | none => throw .invalidData

/-- The files and directories below a directory, in no fixed order. -/
def below (t : FileTree) (place : Location) : List (Location × FileNode) :=
  t.nodes.filter fun (l, _) ↦ place.isPrefixOf l && l != place

/-- The paths from the root to what is below a directory, in ascending order. Those of directories
end in a slash. -/
def listing (t : FileTree) (p : Path) : List String :=
  match t.locate p with
  | .error _ => []
  | .ok place =>
    let shown := (t.below place).map fun (l, n) ↦
      "/" ++ "/".intercalate l ++ if n = .directory then "/" else ""
    shown.mergeSort fun a b ↦ a ≤ b

/-! ## Changes

What is created or removed is an entry of a directory. So the last segment of the path is not
followed: it has to be the name of the entry, and everything in front of it leads to the directory.
-/

/-- The last segment of a path, with slashes behind it or not, and where the others lead. -/
structure Entry where
  directory : Location
  name : String
  slash : Bool
deriving DecidableEq, Repr

namespace Entry

def place (e : Entry) : Location := e.directory ++ [e.name]

/-- Whether the segment is the name of something in the directory. -/
def isNamed (e : Entry) : Bool := e.name != "" && e.name != "." && e.name != ".."

end Entry

/-- The entry that a path stands for. Its directory is there. -/
def entry (t : FileTree) (p : Path) : Except FileError Entry := do
  let last := (← segmentsOf p).reverse
  let named := last.dropWhile (· == "")
  let directory ← t.walk [] (named.tail.reverse ++ [""])
  return { directory, name := named.headD "", slash := named.length < last.length }

/-- What is at an entry, if anything. -/
def entryNode? (t : FileTree) (e : Entry) : Except FileError (Option FileNode) :=
  if maxNameLength < e.name.utf8ByteSize then .error .invalidFilename else .ok (t.node? e.place)

def add (t : FileTree) (place : Location) (n : FileNode) : FileTree :=
  { t with nodes := t.nodes ++ [(place, n)] }

/-- Removes what is at a location, and all that is below it. -/
def drop (t : FileTree) (place : Location) : FileTree :=
  { t with nodes := t.nodes.filter fun (l, _) ↦ !place.isPrefixOf l }

/-- Removes what is below a location. -/
def clear (t : FileTree) (place : Location) : FileTree :=
  { t with nodes := t.nodes.filter fun (l, _) ↦ !place.isPrefixOf l || l == place }

/-- Writes a file, which is created if its directory exists. -/
def write (p : Path) (bytes : List UInt8) : FileM Unit := do
  let t ← get
  let e ← t.entry p
  if e.slash || !e.isNamed then throw .isADirectory
  match ← t.entryNode? e with
  | some .directory => throw .isADirectory
  | some (.file number) => set { t with contents := t.contents.setIfInBounds number bytes }
  | none =>
    set { t.add e.place (.file t.contents.size) with contents := t.contents.push bytes }

/-- Creates one directory. -/
def makeDirectory (p : Path) : FileM Unit := do
  let t ← get
  let e ← t.entry p
  if !e.isNamed then throw .alreadyExists
  match ← t.entryNode? e with
  | some _ => throw .alreadyExists
  | none => set (t.add e.place .directory)

/-- Creates one directory, unless it is there. -/
def ensureDirectory (p : Path) : FileM Unit := do
  try makeDirectory p
  catch e => if e != .alreadyExists || !(← get).isDirectory p then throw e

/-- Goes up to the first directory that is there or can be created, and gives those that were
missing on the way, the highest first. -/
def climb (missing : List Path) : List Path → FileM (List Path)
  | [] => return missing
  | p :: above => do
    let found ← try ensureDirectory p; pure true
      catch e => if e = .notFound then pure false else throw e
    if found then return missing else climb (p :: missing) above

/-- Creates a directory and those above it, as far as they are missing. -/
def createDirectory (p : Path) : FileM Unit := do
  for missing in ← climb [] p.ancestors do
    ensureDirectory missing

/-- Writes a file, and creates the directory that it is in. -/
def writeBelow (p : Path) (bytes : List UInt8) : FileM Unit := do
  match p.parent? with
  | some directory => createDirectory directory
  | none => pure ()
  write p bytes

/-- Removes a file. -/
def removeFile (p : Path) : FileM Unit := do
  let t ← get
  let e ← t.entry p
  if !e.isNamed then throw .isADirectory
  match ← t.entryNode? e with
  | none => throw .notFound
  | some .directory => throw .isADirectory
  | some (.file _) => if e.slash then throw .notADirectory else set (t.drop e.place)

/-- Removes a directory with all that is below it. Its contents go first, and after that the path
may no longer lead to it. -/
def removeDirectory (p : Path) : FileM Unit := do
  let t ← get
  let place ← t.locate p
  match t.node? place with
  | none => throw .notFound
  | some (.file _) => throw .notADirectory
  | some .directory =>
    let t := t.clear place
    set t
    match t.entry p with
    | .error .notFound => pure ()
    | .error e => throw e
    | .ok e => if e.isNamed then set (t.drop e.place) else throw .invalidInput

/-- Makes a directory empty, creating it if it is missing. -/
def recreateDirectory (p : Path) : FileM Unit := do
  try removeDirectory p
  catch e => if e != .notFound then throw e
  createDirectory p

end FileTree

end BuildScript
