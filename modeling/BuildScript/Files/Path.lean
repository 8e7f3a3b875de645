import BuildScript.Text.Segments

/-!
# Paths

A path is a text, and it is shown as it was given. Its meaning is the list of its components:
repeated slashes, slashes at the end and `.` behind the first component do not count.
-/

namespace BuildScript

structure Path where
  text : String
deriving DecidableEq, Repr, Inhabited

namespace Path

def isAbsolute (p : Path) : Bool := p.text.toList.head? == some '/'

/-- The components; a leading `.` of a relative path is one, any other `.` is not. -/
def components (p : Path) : List String :=
  let parts := splitText '/' p.text
  let named := parts.filter fun s ↦ s != "" && s != "."
  if parts.head? == some "." then "." :: named else named

/-- Whether two paths have the same components. -/
def same (p q : Path) : Bool := p.isAbsolute == q.isAbsolute && p.components == q.components

/-- Goes on from a directory. An absolute path replaces it; else a slash is put between, unless the
directory is empty or ends in one. -/
def join (p : Path) (next : String) : Path :=
  if next.toList.head? == some '/' then ⟨next⟩
  else
    match p.text.toList.getLast? with
    | none | some '/' => ⟨p.text ++ next⟩
    | some _ => ⟨p.text ++ "/" ++ next⟩

/-- The last component, unless it is `.` or `..`. -/
def fileName? (p : Path) : Option String :=
  match p.components.getLast? with
  | some "." | some ".." | none => none
  | some name => some name

/-- The last component up to its last dot. A dot at its front does not count. -/
def fileStem? (p : Path) : Option String :=
  p.fileName?.map fun name ↦
    match (segments '.' name.toList).reverse with
    | _ :: before :: more =>
      let stem := joinSegments '.' (before :: more).reverse
      if stem.isEmpty then name else String.ofList stem
    | _ => name

/-- The characters up to the end of the last component, given last first. -/
def dropTrailing : List Char → List Char
  | '/' :: cs => dropTrailing cs
  | '.' :: '/' :: cs => dropTrailing cs
  | cs => cs

/-- The path with another extension behind the stem of its last component. -/
def withExtension (p : Path) (extension : String) : Path :=
  match p.fileName?, p.fileStem? with
  | some name, some stem =>
    let directory := (dropTrailing p.text.toList.reverse).drop name.length
    ⟨String.ofList directory.reverse ++ stem ++ "." ++ extension⟩
  | _, _ => p

/-- The path without its last component. -/
def parent? (p : Path) : Option Path :=
  match p.components with
  | [] => none
  | cs =>
    let rest := "/".intercalate cs.dropLast
    some ⟨if p.isAbsolute then "/" ++ rest else rest⟩

/-- The path and the paths of the directories above it, from the longest to the shortest. The root
is none of them. -/
def ancestors (p : Path) : List Path := upwards p.components.length p
where
  upwards : Nat → Path → List Path
    | 0, _ => []
    | n + 1, p =>
      match p.parent? with
      | none => []
      | some q => p :: upwards n q

/-- Where the class of a binary name is stored below a root: packages are directories. -/
def classFile (root : Path) (className : String) : Path :=
  place root (splitText '.' className)
where
  place (p : Path) : List String → Path
    | [] => p
    | [last] => p.join (last ++ ".class")
    | s :: ss => place (p.join s) ss

end Path

end BuildScript
