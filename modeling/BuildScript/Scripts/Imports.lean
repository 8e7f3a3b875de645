import BuildScript.Files.Tree
import BuildScript.Text.Letters
import BuildScript.Text.Quoted
import BuildScript.Text.Segments
import BuildScript.Toml.Grammar

/-!
# Default imports

The packages whose classes every script may use without an import. The list is kept as a TOML
document with the one key `packages`.
-/

namespace BuildScript

inductive ImportsError where
  | ioError (cause : FileError)
  /-- The text is no document, or its packages are no list of strings. -/
  | parseError
  | invalidPackage (name : String)
deriving DecidableEq, Repr

def ImportsError.message : ImportsError → String
  | ioError _ => "Failed to read imports file"
  | parseError => "Failed to parse imports"
  | invalidPackage name => "Invalid import package: " ++ quote name

/-- A segment of a package name: letters, digits and underscores, and no digit in front. -/
def isPackageSegment : List Char → Bool
  | [] => false
  | c :: cs =>
    (CharSet.alphabetic.contains c || c == '_') && cs.all fun d ↦ isAlphanumeric d || d == '_'

def isPackageName (name : String) : Bool := (segments '.' name.toList).all isPackageSegment

/-- A list of packages as it is, unless one of them has no proper name. -/
def importsOfList (packages : List String) : Except ImportsError (List String) :=
  match packages.find? fun p ↦ !isPackageName p with
  | some bad => .error (.invalidPackage bad)
  | none => .ok packages

/-- The strings of an array. -/
def Toml.Value.strings? : Toml.Value → Option (List String)
  | array elements => elements.mapM fun
    | string s => some s
    | _ => none
  | _ => none

/-- The list that a text describes. -/
def importsOfText (text : String) : Except ImportsError (List String) :=
  match Toml.read? text with
  | none => .error .parseError
  | some es =>
    match es.get? "packages" with
    | none => importsOfList []
    | some v =>
      match v.strings? with
      | some packages => importsOfList packages
      | none => .error .parseError

/-- The list in a file. -/
def importsOfFile (files : FileTree) (p : Path) : Except ImportsError (List String) :=
  match files.readText p with
  | .error e => .error (.ioError e)
  | .ok text => importsOfText text

/-- The list that is used unless another one is given. -/
def usualImports : List String :=
  ["org.gradle", "org.gradle.api", "org.gradle.api.artifacts", "org.gradle.api.file",
    "org.gradle.api.logging", "org.gradle.api.plugins", "org.gradle.api.provider",
    "org.gradle.api.tasks", "org.gradle.api.initialization", "org.gradle.plugin.use"]

end BuildScript
