import BuildScript.Compile.Prefilter
import BuildScript.Loading.Search

/-!
# Looking classes up

The usual resolver: it asks a class loader first, and then whether there is a source that would
define the class. It remembers its answers, also that there is no such class.
-/

namespace BuildScript

/-- What a lookup finds. -/
inductive Lookup where
  | loaded (c : Class)
  /-- A source that defines the class. -/
  | source (path : Path)

/-- The extension of script sources. -/
def sourceExtension : String := "grv"

/-- The source below a root that would define a class. Nested classes are in the source of the
outermost one. -/
def sourcePath (root : Path) (className : String) : Path :=
  let outer := String.ofList (className.toList.takeWhile (· != '$'))
  ((splitText '.' outer).foldl Path.join root).withExtension sourceExtension

/-- The source below a root that defines a class. -/
def findSource? (files : FileTree) (root : Path) (className : String) : Option Path :=
  let path := sourcePath root className
  if files.isFile path then some path else none

/-- A resolver over a loader and the sources below a directory, if one is given. -/
structure ClassLookup where
  loader : LoaderId
  sources : Option Path
  /-- The answers so far. -/
  answers : List (String × Option Lookup) := []

namespace ClassLookup

/-- Looks a class up without regard to earlier answers. A class that exists and cannot be loaded
counts as unknown. -/
def search (l : ClassLookup) (name : String) (w : World) : Option Lookup × World :=
  match w.load l.loader name with
  | (.ok c, w) => (some (.loaded c), w)
  | (.error (.classNotFound _), w) =>
    ((l.sources.bind fun root ↦ findSource? w.files root name).map .source, w)
  | (.error _, w) => (none, w)

/-- Looks a class up. -/
def find (name : String) (l : ClassLookup) (w : World) : Option Lookup × ClassLookup × World :=
  match l.answers.lookup name with
  | some known => (known, l, w)
  | none =>
    let (found, w) := l.search name w
    (found, { l with answers := (name, found) :: l.answers }, w)

/-- The lookup as a resolver. -/
def resolver : Resolver (ClassLookup × World) where
  find name s :=
    let (found, l, w) := find name s.1 s.2
    (found.isSome, l, w)

end ClassLookup

end BuildScript
