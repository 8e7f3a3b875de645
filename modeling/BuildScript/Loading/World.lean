import BuildScript.Loading.Filter
import BuildScript.Loading.LoadError
import BuildScript.Machine.Execution

/-!
# The world of a build

What compiling and running scripts work on: the files, and the loaders with the classes they have
defined. Loaders are known by number, and a loader's parent is an earlier one.
-/

namespace BuildScript

/-- The number of a loader. -/
abbrev LoaderId := Nat

inductive Loader where
  /-- The platform's classes. -/
  | system (classes : List (String × Class))
  /-- Classes from class files below the roots, and classes defined from memory. -/
  | classPath (roots : List Path) (parent : Option LoaderId) (defined : List (String × Class))
  /-- The classes of another loader that a filter allows. -/
  | filtering (delegate : LoaderId) (filter : Filter)

namespace Loader

/-- The loader that is asked first. A filtering loader has none, so nothing that the filter holds
back comes in by way of a parent. -/
def parent? : Loader → Option LoaderId
  | classPath _ parent _ => parent
  | system _ | filtering _ _ => none

/-- The classes that the loader has defined itself. -/
def defined : Loader → List (String × Class)
  | system classes => classes
  | classPath _ _ defined => defined
  | filtering _ _ => []

end Loader

structure World where
  files : FileTree := {}
  loaders : Array Loader := #[]
  /-- How many classes were made, which is the identity of the next one. -/
  classCount : Nat := 0
  /-- Whether a search for a class was given up because it did not end; nothing that happened since
  then has a meaning. -/
  endless : Bool := false
deriving Inhabited

namespace World

def addLoader (w : World) (l : Loader) : LoaderId × World :=
  (w.loaders.size, { w with loaders := w.loaders.push l })

def loader? (w : World) (id : LoaderId) : Option Loader := w.loaders[id]?

/-- A new class path loader without classes. -/
def addClassPath (w : World) (roots : List Path) (parent : Option LoaderId) : LoaderId × World :=
  w.addLoader (.classPath roots parent [])

def addFilter (w : World) (delegate : LoaderId) (filter : Filter) : LoaderId × World :=
  w.addLoader (.filtering delegate filter)

/-- Runs an operation on the files. -/
def onFiles {ε α : Type} (w : World) (op : ExceptT ε (StateM FileTree) α) : Except ε α × World :=
  let (result, files) := op.run w.files
  (result, { w with files })

end World

/-! ## The platform -/

/-- A native class to be added to the platform; the superclass is one that is known before. -/
structure NativeClass where
  name : String
  superName : Option String
  methods : List (String × NativeMethod)

/-- The class at the root of all superclass chains of the platform. -/
def objectClassName : String := "java.lang.Object"

/-- The platform's classes, each behind its superclass. -/
def platformClasses : List NativeClass :=
  ⟨objectClassName, none, []⟩ ::
    (["java.lang.String", "java.lang.Integer", "java.lang.Boolean", "java.lang.Class",
      "java.lang.Math", "java.lang.System", "java.math.BigDecimal", "java.util.List",
      "java.util.ArrayList", "java.util.Map", "java.util.Map$Entry", "java.util.HashMap",
      "java.io.File", "groovy.lang.GroovyObject"].map fun name ↦ ⟨name, some objectClassName, []⟩) ++
    [⟨scriptClassName, some objectClassName, [("println", printLine), ("print", printValue)]⟩]

/-- Adds a class to those known by name; a class of the same name is replaced. -/
def define (classes : List (String × Class)) (c : Class) : List (String × Class) :=
  (c.name, c) :: classes.filter (·.1 != c.name)

/-- Adds native classes in order, numbered from `count` on. -/
def defineNatives (natives : List NativeClass) (count : Nat) (classes : List (String × Class)) :
    Nat × List (String × Class) :=
  natives.foldl (fun (count, classes) n ↦
    let superclass := n.superName.bind (classes.lookup ·)
    (count + 1, define classes (.native count n.name superclass n.methods))) (count, classes)

/-- A world without files whose only loader is that of the platform, with more native classes added
to it, and the number of this loader. -/
def World.start (natives : List NativeClass) : LoaderId × World :=
  let (classCount, classes) := defineNatives (platformClasses ++ natives) 0 []
  World.addLoader { classCount } (.system classes)

end BuildScript
